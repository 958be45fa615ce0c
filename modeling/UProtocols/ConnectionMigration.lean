import UProtocols.Runs
import UProtocols.NumberedQueue

/-!
# The migrating WebSocket client

`WebSocketMigration` of `websocket_connection_migration.rs`. Whether a write succeeds, what a
text parses to and when the health checker gives up are inputs. Sequence numbers are natural
numbers. A message that a flush has written is in the queue no more, although nothing proves its
delivery.
-/

namespace UProtocols
namespace ConnectionMigration

open NumberedQueue

inductive ConnectionState
  | disconnected | connecting | connected | reconnecting
  deriving DecidableEq

structure QueuedMessage where
  sequenceNum : ℕ
  payload : String
  timestamp : ℕ
  deriving DecidableEq

inductive ControlMessage
  | requestSession
  | resumeSession (token : String) (lastSeq : ℕ)
  | sessionToken (token : String)
  | ack (sequence : ℕ)
  | ping
  | pong
  deriving DecidableEq

inductive Failure
  | clock | write | url | refused
  deriving DecidableEq

structure WebSocketMigration where
  state : ConnectionState
  sessionToken : Option String
  nextSequenceNum : ℕ
  lastAckedSequence : ℕ
  pendingMessages : List QueuedMessage
  reconnectAttempts : ℕ
  maxReconnectAttempts : ℕ
  deriving DecidableEq

/-- What a call returns, and the client after it. -/
abbrev Result := Except Failure Unit × WebSocketMigration

/-- The operator `?`: an error ends the call with the client as it is. -/
def Result.andThen (r : Result) (f : WebSocketMigration → Result) : Result :=
  match r.1 with
  | .ok _ => f r.2
  | .error e => (.error e,r.2)

/-- What comes out of the read half of a connection; `dead` is the health checker, which gives
up the connection. -/
inductive Incoming
  | text (control : Option ControlMessage) (pongOk : Bool)
  | close
  | ping (pongOk : Bool)
  | error
  | other
  | dead

/-- A connection that was made: whether the control message is written, which pending messages
are, and what comes in. -/
structure Session where
  controlOk : Bool
  flushOk : ℕ → Bool
  incoming : List Incoming

/-- What happens to a call of `connect`. -/
inductive Attempt
  | badUrl
  | refused
  | handled (session : Session)

namespace WebSocketMigration

def new : WebSocketMigration := ⟨.disconnected,none,0,0,[],0,10⟩

/-- The first critical section of `send_message`. -/
def takeNumber (c : WebSocketMigration) : ℕ × WebSocketMigration :=
  (c.nextSequenceNum,{c with nextSequenceNum := c.nextSequenceNum + 1})

/-- Its second critical section. -/
def pushBack (c : WebSocketMigration) (msg : QueuedMessage) : WebSocketMigration :=
  {c with pendingMessages := c.pendingMessages ++ [msg]}

/-- `time` is missing when the clock is before the epoch; the number has been taken then. -/
def sendMessage (c : WebSocketMigration) (payload : String) (time : Option ℕ) : Result :=
  match time with
  | none => (.error .clock,c.takeNumber.2)
  | some timestamp => (.ok (),c.takeNumber.2.pushBack ⟨c.takeNumber.1,payload,timestamp⟩)

/-- A message that is not written is put back. -/
def flushPendingMessages (c : WebSocketMigration) (flushOk : ℕ → Bool) : WebSocketMigration :=
  {c with pendingMessages := (drain flushOk c.pendingMessages).2}

def cleanupAckedMessages (c : WebSocketMigration) (ackSeq : ℕ) : WebSocketMigration :=
  {c with pendingMessages := acknowledge QueuedMessage.sequenceNum ackSeq c.pendingMessages}

/-- `control` is what the text parses to. -/
def handleMessage (c : WebSocketMigration) (control : Option ControlMessage) (pongOk : Bool) :
    Result :=
  match control with
  | some (.sessionToken token) => (.ok (),{c with sessionToken := some token})
  | some (.ack sequence) =>
    (.ok (),{c with lastAckedSequence := sequence}.cleanupAckedMessages sequence)
  | some .ping => (if pongOk then .ok () else .error .write,c)
  | _ => (.ok (),c)

/-- The message that asks for a session or resumes one. -/
def controlMessage (c : WebSocketMigration) : ControlMessage :=
  match c.sessionToken with
  | none => .requestSession
  | some token => .resumeSession token c.lastAckedSequence

/-- `handle_connection` up to its loop. -/
def openSession (c : WebSocketMigration) (controlOk : Bool) (flushOk : ℕ → Bool) : Result :=
  if controlOk then
    (.ok (),if c.sessionToken.isSome then c.flushPendingMessages flushOk else c)
  else (.error .write,c)

/-- The loop of `handle_connection`. -/
def receive (c : WebSocketMigration) : List Incoming → Result
  | [] => (.ok (),c)
  | .text control pongOk::rest => (c.handleMessage control pongOk).andThen fun c => c.receive rest
  | .close::_ => (.ok (),c)
  | .ping pongOk::rest => if pongOk then c.receive rest else (.error .write,c)
  | .error::_ => (.ok (),c)
  | .other::rest => c.receive rest
  | .dead::rest => {c with state := .reconnecting}.receive rest

def handleConnection (c : WebSocketMigration) (session : Session) : Result :=
  (c.openSession session.controlOk session.flushOk).andThen fun c =>
    (c.receive session.incoming).andThen fun c => (.ok (),{c with state := .reconnecting})

def connect (c : WebSocketMigration) : Attempt → Result
  | .badUrl => (.error .url,{c with state := .connecting})
  | .refused => (.error .refused,{c with state := .connecting})
  | .handled session =>
    {c with state := .connected,reconnectAttempts := 0}.handleConnection session

end WebSocketMigration

/-! ## Runs -/

/-- What happens to a client. `opened` is a new connection up to the loop that reads it, and
`lost` its end. -/
inductive Event
  | sendMessage (payload : String) (time : Option ℕ)
  | opened (controlOk : Bool) (flushOk : ℕ → Bool)
  | text (control : Option ControlMessage) (pongOk : Bool)
  | lost

/-- The number that an event acknowledges. -/
def Event.ack : Event → Option ℕ
  | text (some (.ack sequence)) _ => some sequence
  | _ => none

/-- The message that an event queues. -/
def Event.queues (c : WebSocketMigration) : Event → Option QueuedMessage
  | sendMessage payload (some timestamp) => some ⟨c.takeNumber.1,payload,timestamp⟩
  | _ => none

def Event.client (c : WebSocketMigration) : Event → WebSocketMigration
  | sendMessage payload time => (c.sendMessage payload time).2
  | opened controlOk flushOk =>
    ({c with state := .connected,reconnectAttempts := 0}.openSession controlOk flushOk).2
  | text control pongOk => (c.handleMessage control pongOk).2
  | lost => {c with state := .reconnecting}

theorem Event.client_of_queues_none {c : WebSocketMigration} {e : Event}
    (h : e.queues c = none) : c.nextSequenceNum ≤ (e.client c).nextSequenceNum ∧
      (e.client c).pendingMessages.Sublist c.pendingMessages := by
  cases e with
  | sendMessage payload time =>
    cases time with
    | none => exact ⟨Nat.le_succ _,List.Sublist.refl _⟩
    | some timestamp => cases h
  | opened controlOk flushOk =>
    simp only [client,WebSocketMigration.openSession]
    split_ifs
    · exact ⟨Nat.le_refl _,drain_sublist _ _⟩
    · exact ⟨Nat.le_refl _,List.Sublist.refl _⟩
    · exact ⟨Nat.le_refl _,List.Sublist.refl _⟩
  | text control pongOk =>
    simp only [client,WebSocketMigration.handleMessage]
    split
    · exact ⟨Nat.le_refl _,List.Sublist.refl _⟩
    · exact ⟨Nat.le_refl _,acknowledge_sublist⟩
    · exact ⟨Nat.le_refl _,List.Sublist.refl _⟩
    · exact ⟨Nat.le_refl _,List.Sublist.refl _⟩
  | lost => exact ⟨Nat.le_refl _,List.Sublist.refl _⟩

theorem Event.client_of_queues {c : WebSocketMigration} {e : Event} {msg : QueuedMessage}
    (h : e.queues c = some msg) : msg.sequenceNum = c.nextSequenceNum ∧
      (e.client c).nextSequenceNum = c.nextSequenceNum + 1 ∧
      (e.client c).pendingMessages = c.pendingMessages ++ [msg] := by
  cases e with
  | sendMessage payload time =>
    cases time with
    | none => cases h
    | some timestamp =>
      cases h
      exact ⟨rfl,rfl,rfl⟩
  | opened controlOk flushOk => cases h
  | text control pongOk => cases h
  | lost => cases h

/-- The client, the messages that were queued and the numbers that were acknowledged. -/
structure History where
  client : WebSocketMigration
  sent : List QueuedMessage
  acks : List ℕ

namespace History

def step (h : History) (e : Event) : Option History :=
  some ⟨e.client h.client,h.sent ++ (e.queues h.client).toList,h.acks ++ e.ack.toList⟩

def start : History := ⟨.new,[],[]⟩

def run (events : List Event) : Option History := Runs.exec step start events

/-- Every message above all acknowledgments is in the queue, and the queue is in order. -/
def Remembers (h : History) : Prop :=
  (∀ msg ∈ h.sent, (∀ a ∈ h.acks, a < msg.sequenceNum) → msg ∈ h.client.pendingMessages) ∧
    Increasing QueuedMessage.sequenceNum h.client.pendingMessages

/-- A flush writes only messages that have been acknowledged: those up to the first write that
fails. -/
def FlushesAcked (h : History) : Event → Prop
  | .opened controlOk flushOk => controlOk = true → h.client.sessionToken.isSome = true →
    ∀ i msg, h.client.pendingMessages[i]? = some msg → (∀ j ≤ i, flushOk j = true) →
      ∃ a ∈ h.acks, msg.sequenceNum ≤ a
  | _ => True

instance (h : History) : ∀ e, Decidable (h.FlushesAcked e)
  | .opened _ flushOk =>
    decidable_of_iff (_ → _ → ∀ msg ∈ (drain flushOk h.client.pendingMessages).1,
      ∃ a ∈ h.acks, msg.sequenceNum ≤ a)
      (imp_congr_right fun _ => imp_congr_right fun _ => forall_drain _ _)
  | .sendMessage _ _ => isTrue trivial
  | .text _ _ => isTrue trivial
  | .lost => isTrue trivial

/-- The queue holds messages that were sent, in order. -/
structure Consistent (h : History) : Prop where
  queued : ∀ msg ∈ h.client.pendingMessages, msg ∈ h.sent
  fresh : ∀ msg ∈ h.sent, msg.sequenceNum < h.client.nextSequenceNum
  increasing : Increasing QueuedMessage.sequenceNum h.client.pendingMessages

variable {h h' : History}

theorem start_consistent : start.Consistent where
  queued := by simp [start,WebSocketMigration.new]
  fresh := by simp [start]
  increasing := List.Pairwise.nil

theorem consistent_step {e : Event} (hstep : h.step e = some h') (hh : h.Consistent) :
    h'.Consistent := by
  cases hstep
  cases hqueues : e.queues h.client with
  | none =>
    obtain ⟨hnext,hsub⟩ := Event.client_of_queues_none hqueues
    refine ⟨?_,?_,hh.increasing.sublist hsub⟩
    · intro msg hmsg
      exact List.mem_append_left _ (hh.queued msg (hsub.subset hmsg))
    · intro msg hmsg
      rw [Option.toList_none,List.append_nil] at hmsg
      exact Nat.lt_of_lt_of_le (hh.fresh msg hmsg) hnext
  | some new =>
    obtain ⟨hnumber,hnext,hpending⟩ := Event.client_of_queues hqueues
    have hlater : ∀ msg ∈ h.sent, msg.sequenceNum < new.sequenceNum := by
      intro msg hmsg
      rw [hnumber]
      exact hh.fresh msg hmsg
    constructor
    · intro msg hmsg
      rw [hpending,List.mem_append] at hmsg
      exact List.mem_append.mpr (hmsg.imp_left (hh.queued msg))
    · intro msg hmsg
      rw [hnext,← hnumber,Nat.lt_succ_iff]
      rcases List.mem_append.mp hmsg with hmsg | hmsg
      · exact Nat.le_of_lt (hlater msg hmsg)
      · cases List.mem_singleton.mp hmsg
        exact Nat.le_refl _
    · rw [hpending]
      exact increasing_snoc.mpr ⟨hh.increasing,fun msg hmsg => hlater msg (hh.queued msg hmsg)⟩

/-- Opening a connection forgets nothing exactly when it flushes only acknowledged messages. -/
theorem remembers_opened {controlOk : Bool} {flushOk : ℕ → Bool} (hh : h.Consistent)
    (hF : h.Remembers) (hstep : h.step (.opened controlOk flushOk) = some h') :
    h'.Remembers ↔ h.FlushesAcked (.opened controlOk flushOk) := by
  cases hstep
  have hsent : h.sent ++ ((Event.opened controlOk flushOk).queues h.client).toList = h.sent :=
    List.append_nil _
  have hacks : h.acks ++ (Event.opened controlOk flushOk).ack.toList = h.acks := List.append_nil _
  rw [hsent,hacks]
  by_cases hflush : controlOk = true ∧ h.client.sessionToken.isSome = true
  · have hpending : ((Event.opened controlOk flushOk).client h.client).pendingMessages =
        (drain flushOk h.client.pendingMessages).2 := by
      simp [Event.client,WebSocketMigration.openSession,hflush,
        WebSocketMigration.flushPendingMessages]
    have hwhole := drain_append flushOk h.client.pendingMessages
    constructor
    · rintro ⟨hkept,-⟩ - -
      refine (forall_drain _ _).mp fun msg hfirst => ?_
      have hmsg : msg ∈ h.client.pendingMessages := by
        rw [← hwhole]
        exact List.mem_append_left _ hfirst
      by_contra hnone
      have hunacked : ∀ a ∈ h.acks, a < msg.sequenceNum := by
        intro a ha
        by_contra hle
        exact hnone ⟨a,ha,Nat.le_of_not_lt hle⟩
      have hlast := hkept msg (hh.queued msg hmsg) hunacked
      -- the message would stand twice in a queue whose numbers increase
      have hincreasing := hh.increasing
      rw [← hwhole] at hincreasing
      rw [hpending] at hlast
      exact Nat.lt_irrefl _ ((List.pairwise_append.mp hincreasing).2.2 msg hfirst msg hlast)
    · intro hcond
      refine ⟨?_,?_⟩
      · intro msg hmsg hunacked
        have hmem := hF.1 msg hmsg hunacked
        rw [← hwhole,List.mem_append] at hmem
        rw [hpending]
        refine hmem.resolve_left fun hfirst => ?_
        obtain ⟨a,ha,hle⟩ := (forall_drain _ _).mpr (hcond hflush.1 hflush.2) msg hfirst
        exact Nat.not_lt_of_le hle (hunacked a ha)
      · rw [hpending]
        exact hF.2.sublist (drain_sublist _ _)
  · have hpending : ((Event.opened controlOk flushOk).client h.client).pendingMessages =
        h.client.pendingMessages := by
      simp only [Event.client,WebSocketMigration.openSession]
      split_ifs with hcontrol htoken
      · exact absurd ⟨hcontrol,htoken⟩ hflush
      · rfl
      · rfl
    constructor
    · intro _ hcontrol htoken
      exact absurd ⟨hcontrol,htoken⟩ hflush
    · intro _
      unfold Remembers
      rw [hpending]
      exact hF

/-- An event other than a flush leaves every message that it does not acknowledge. -/
theorem remembers_step {e : Event} (hstep : h.step e = some h') (hh : h.Consistent)
    (hF : h.Remembers) : h'.Remembers ↔ h.FlushesAcked e := by
  have hinc := (consistent_step hstep hh).increasing
  cases e with
  | opened controlOk flushOk => exact remembers_opened hh hF hstep
  | sendMessage payload time =>
    cases hstep
    refine iff_of_true ⟨?_,hinc⟩ trivial
    intro msg hmsg hunacked
    have hunacked' : ∀ a ∈ h.acks, a < msg.sequenceNum :=
      fun a ha => hunacked a (List.mem_append_left _ ha)
    cases time with
    | none => exact hF.1 msg ((List.mem_append.mp hmsg).resolve_right List.not_mem_nil) hunacked'
    | some timestamp =>
      rcases List.mem_append.mp hmsg with hmsg | hmsg
      · exact List.mem_append_left _ (hF.1 msg hmsg hunacked')
      · exact List.mem_append_right _ hmsg
  | text control pongOk =>
    cases hstep
    refine iff_of_true ⟨?_,hinc⟩ trivial
    intro msg hmsg hunacked
    have hmem : msg ∈ h.client.pendingMessages :=
      hF.1 msg ((List.mem_append.mp hmsg).resolve_right List.not_mem_nil)
        fun a ha => hunacked a (List.mem_append_left _ ha)
    simp only [Event.client,WebSocketMigration.handleMessage]
    split
    · exact hmem
    · rename_i sequence
      refine (mem_acknowledge hF.2).mpr ⟨hmem,hunacked sequence ?_⟩
      exact List.mem_append_right _ (List.mem_singleton.mpr rfl)
    · exact hmem
    · exact hmem
  | lost =>
    cases hstep
    refine iff_of_true ⟨?_,hinc⟩ trivial
    intro msg hmsg hunacked
    exact hF.1 msg ((List.mem_append.mp hmsg).resolve_right List.not_mem_nil)
      fun a ha => hunacked a (List.mem_append_left _ ha)

/-- A run never forgets a message that is not acknowledged, exactly when its flushes write only
messages that are. -/
theorem remembers_run {events : List Event} (hrun : run events = some h) :
    (∀ es u, es <+: events → run es = some u → u.Remembers) ↔
      Runs.Along step FlushesAcked start events := by
  have hall := Runs.forall_reached_iff (fun _ _ _ => consistent_step)
    (fun _ _ _ => remembers_step) hrun start_consistent
  have hstart : start.Remembers := ⟨fun msg hmsg => absurd hmsg List.not_mem_nil,List.Pairwise.nil⟩
  exact hall.trans (and_iff_right hstart)

/-- The message is acknowledged before the connection is lost. -/
def ackedEvents : List Event :=
  [.opened true fun _ => true,.text (some (.sessionToken "t")) true,.sendMessage "m" (some 0),
    .text (some (.ack 0)) true,.lost,.opened true fun _ => true]

theorem remembers_run_acked : ∃ h, run ackedEvents = some h ∧ h.Remembers := by
  have hsome : (run ackedEvents).isSome = true := rfl
  obtain ⟨h,hrun⟩ := Option.isSome_iff_exists.mp hsome
  exact ⟨h,hrun,(remembers_run hrun).mpr (by decide +kernel) _ h (List.prefix_refl _) hrun⟩

/-- The flush of the second connection writes the message, and that connection is lost. -/
theorem remembers_run_lost :
    ¬ ∀ (events : List Event) (h : History), run events = some h → h.Remembers := by
  intro h
  have hlost := (h [.opened true fun _ => true,.text (some (.sessionToken "t")) true,.lost,
    .sendMessage "m" (some 0),.opened true fun _ => true,.lost] _ rfl).1 ⟨0,"m",0⟩
  revert hlost
  decide +kernel

end History

end ConnectionMigration
end UProtocols
