import Mathlib.Data.List.Infix
import UProtocols.Runs

/-!
# Event channels of the microservices gateway

`publish_event`, `start_event_subscriber` and the actions of `handle_connection` of
`websocket_microservices_gateway.rs`. Redis hands every message on a channel `events.<name>` to
the one event subscriber, once and in any order. What the subscriber sends to a session is in
the session's outbox; the task that writes it to the socket is left out.
-/

namespace UProtocols
namespace MicroservicesGateway

abbrev Text := List Char

/-- The JSON library: a value that was printed parses to itself. -/
structure Json (V : Type) where
  print : V → Text
  parse : Text → Option V
  parse_print : ∀ v, parse (print v) = some v

variable {V : Type}

structure ServerMessage (V : Type) where
  msgType : String
  data : V
  deriving DecidableEq

/-- `outbox` is what was sent to `tx`. -/
structure Session (V : Type) where
  id : String
  userId : String
  subscriptions : List Text
  outbox : List (ServerMessage V)
  deriving DecidableEq

/-- A message that Redis has taken and not yet handed over. -/
structure RedisMessage where
  channel : Text
  payload : Text
  deriving DecidableEq

def fullChannel (channel : Text) : Text := "events.".toList ++ channel

def publishEvent (json : Json V) (channel : Text) (event : V) : RedisMessage :=
  ⟨fullChannel channel,json.print event⟩

def eventMessage (event : V) : ServerMessage V := ⟨"event",event⟩

namespace Session

/-- The body of the broadcast loop. -/
def deliver (session : Session V) (channel : Text) (event : V) : Session V :=
  if session.subscriptions.any fun sub => decide (sub <:+: channel) then
    {session with outbox := session.outbox ++ [eventMessage event]}
  else session

def subscribe (session : Session V) (channel : Text) : Session V :=
  {session with subscriptions := session.subscriptions ++ [channel]}

end Session

/-- One message in the event subscriber; a payload that does not parse is dropped. -/
def broadcast (json : Json V) (sessions : List (Session V)) (msg : RedisMessage) :
    List (Session V) :=
  match json.parse msg.payload with
  | some event => sessions.map fun session => session.deliver msg.channel event
  | none => sessions

structure State (V : Type) where
  sessions : List (Session V)
  inFlight : List RedisMessage
  deriving DecidableEq

/-- The actions of the clients, the end of a service call and the delivery of the `k`-th message
in flight. -/
inductive Event (V : Type)
  | connect (id userId : String)
  | subscribe (id : String) (channel : Text)
  | publishEvent (channel : Text) (event : V)
  | serviceResponse (id : String) (response : V)
  | disconnect (id : String)
  | deliver (k : ℕ)
  deriving DecidableEq

namespace State

/-- Change the session with an id, where there is one. -/
def modify (s : State V) (id : String) (f : Session V → Session V) : State V :=
  {s with sessions := s.sessions.map fun session => if session.id = id then f session else session}

def remove (s : State V) (id : String) : State V :=
  {s with sessions := s.sessions.filter fun session => session.id != id}

def step (json : Json V) (s : State V) : Event V → Option (State V)
  | .connect id userId =>
    let others := s.remove id
    some {others with sessions := ⟨id,userId,[],[]⟩::others.sessions}
  | .subscribe id channel => some (s.modify id fun session => session.subscribe channel)
  | .publishEvent channel event =>
    some {s with inFlight := s.inFlight ++ [MicroservicesGateway.publishEvent json channel event]}
  | .serviceResponse id response => some (s.modify id fun session =>
    {session with outbox := session.outbox ++ [⟨"service_response",response⟩]})
  | .disconnect id => some (s.remove id)
  | .deliver k =>
    match s.inFlight[k]? with
    | some msg => some ⟨broadcast json s.sessions msg,s.inFlight.eraseIdx k⟩
    | none => none

def initial : State V := ⟨[],[]⟩

end State

/-- When an event that was published to a channel is delivered, a session gets it exactly when
it is subscribed to that channel. -/
def Isolated (json : Json V) (s : State V) : Event V → Prop
  | .deliver k => ∀ channel event, s.inFlight[k]? = some (publishEvent json channel event) →
    ∃ t, s.step json (.deliver k) = some t ∧ t.sessions.length = s.sessions.length ∧
      ∀ (i : ℕ) (before after : Session V), s.sessions[i]? = some before →
        t.sessions[i]? = some after →
        (after.outbox = before.outbox ++ [eventMessage event] ↔ channel ∈ before.subscriptions)
  | _ => True

/-- When an event is delivered, every session is subscribed to its channel, or to no text that
occurs in the channel's full name. -/
def NoFragments (json : Json V) (s : State V) : Event V → Prop
  | .deliver k => ∀ channel event, s.inFlight[k]? = some (publishEvent json channel event) →
    ∀ session ∈ s.sessions, channel ∈ session.subscriptions ∨
      ∀ sub ∈ session.subscriptions, ¬ sub <:+: fullChannel channel
  | _ => True

/-! ## Delivery to one session -/

section

variable {json : Json V} {channel : Text} {event : V} {session : Session V}

theorem deliver_outbox_iff :
    (session.deliver (fullChannel channel) event).outbox = session.outbox ++ [eventMessage event] ↔
      ∃ sub ∈ session.subscriptions, sub <:+: fullChannel channel := by
  unfold Session.deliver
  split_ifs with hany
  · simpa using hany
  · simpa using hany

/-- A subscription to the channel itself always matches. -/
theorem matches_of_mem (h : channel ∈ session.subscriptions) :
    ∃ sub ∈ session.subscriptions, sub <:+: fullChannel channel :=
  ⟨channel,h,(List.suffix_append _ _).isInfix⟩

theorem deliver_exact_iff :
    ((session.deliver (fullChannel channel) event).outbox =
        session.outbox ++ [eventMessage event] ↔ channel ∈ session.subscriptions) ↔
      (channel ∈ session.subscriptions ∨
        ∀ sub ∈ session.subscriptions, ¬ sub <:+: fullChannel channel) := by
  rw [deliver_outbox_iff]
  by_cases hmem : channel ∈ session.subscriptions
  · simp only [hmem,matches_of_mem hmem,true_or]
  · simp only [hmem,iff_false,not_exists,not_and,false_or]

theorem broadcast_publishEvent (sessions : List (Session V)) :
    broadcast json sessions (publishEvent json channel event) =
      sessions.map fun session => session.deliver (fullChannel channel) event := by
  simp [broadcast,publishEvent,json.parse_print]

end

theorem isolated_iff (json : Json V) (s : State V) (e : Event V) :
    Isolated json s e ↔ NoFragments json s e := by
  cases e with
  | deliver k =>
    refine forall_congr' fun channel => forall_congr' fun event => ?_
    refine imp_congr_right fun hmsg => ?_
    have hstep : s.step json (.deliver k) = some
        ⟨s.sessions.map fun session => session.deliver (fullChannel channel) event,
          s.inFlight.eraseIdx k⟩ := by
      simp only [State.step,hmsg,broadcast_publishEvent]
    constructor
    · rintro ⟨t,ht,-,hexact⟩ session hsession
      cases hstep.symm.trans ht
      obtain ⟨i,hi⟩ := List.getElem?_of_mem hsession
      refine deliver_exact_iff.mp (hexact i session _ hi ?_)
      rw [List.getElem?_map,hi,Option.map_some]
    · intro hclear
      refine ⟨_,hstep,List.length_map _,fun i before after hbefore hafter => ?_⟩
      rw [List.getElem?_map,hbefore,Option.map_some] at hafter
      cases hafter
      exact deliver_exact_iff.mpr (hclear before (List.mem_of_getElem? hbefore))
  | _ => exact Iff.rfl

/-- Every message in flight was published to some channel, so each delivery is one of an event. -/
theorem inFlight_published {json : Json V} {events : List (Event V)} {s : State V}
    (hrun : Runs.exec (State.step json) State.initial events = some s) :
    ∀ msg ∈ s.inFlight, ∃ channel event, msg = publishEvent json channel event := by
  refine Runs.exec_invariant
    (I := fun s => ∀ msg ∈ s.inFlight, ∃ channel event, msg = publishEvent json channel event)
    (fun s e t hstep h => ?_) hrun nofun
  cases e with
  | publishEvent channel event =>
    cases hstep
    intro msg hmsg
    rcases List.mem_append.mp hmsg with hold | hnew
    · exact h msg hold
    · exact ⟨channel,event,List.mem_singleton.mp hnew⟩
  | deliver k =>
    cases hget : s.inFlight[k]? with
    | none => simp [State.step,hget] at hstep
    | some first =>
      simp only [State.step,hget] at hstep
      cases hstep
      exact fun msg hmsg => h msg (List.mem_of_mem_eraseIdx hmsg)
  | _ =>
    cases hstep
    exact h

/-- Channels are isolated in a run exactly when no event meets a session that is subscribed to a
fragment of its channel and not to the channel. -/
theorem gateway_isolated_iff (json : Json V) (events : List (Event V)) :
    Runs.Along (State.step json) (Isolated json) State.initial events ↔
      Runs.Along (State.step json) (NoFragments json) State.initial events := by
  have hsame : Isolated json = NoFragments json := by
    funext s e
    exact propext (isolated_iff json s e)
  rw [hsame]

/-- The texts of the two truth values. -/
def boolJson : Json Bool where
  print b := if b then "true".toList else "false".toList
  parse text :=
    if text = "true".toList then some true
    else if text = "false".toList then some false
    else none
  parse_print := by decide

/-- A subscription to `a` gets the events of `ab`. -/
theorem fragment_leaks :
    ¬ Runs.Along (State.step boolJson) (Isolated boolJson) State.initial
      [.connect "s" "u",.subscribe "s" "a".toList,.publishEvent "ab".toList true,.deliver 0] := by
  intro hrun
  obtain ⟨-,hrun⟩ := hrun
  obtain ⟨-,hrun⟩ := hrun _ rfl
  obtain ⟨-,hrun⟩ := hrun _ rfl
  obtain ⟨hdeliver,-⟩ := hrun _ rfl
  have hclear := (isolated_iff boolJson _ _).mp hdeliver "ab".toList true rfl
  revert hclear
  decide

end MicroservicesGateway
end UProtocols
