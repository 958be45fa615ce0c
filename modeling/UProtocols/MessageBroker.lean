import UProtocols.LockFreeQueueFifo
import UProtocols.LockFreeRingBuffer

/-!
# The message broker

`WebSocketMessageBroker` of `lock_free_queue_for_websocket_messages.rs`: connection threads put
messages into one lock-free queue, the processing thread routes them to one lock-free ring buffer
for each connection, and each connection thread takes messages out of its own. An event is one
atomic operation of one of these threads, or the start of a call.
-/

namespace UProtocols
namespace MessageBroker

open Function LockFreeQueue

/-- Where the loop of `process_messages` is; it sleeps at its head. -/
inductive Phase
  | head
  | dequeuing
  | pushing (target : ℕ)
  deriving DecidableEq

/-- The queue and the buffers with the calls that run on them. -/
structure Broker where
  connections : ℕ
  incoming : LockFreeQueue.State
  outgoing : ℕ → LockFreeRingBuffer.State
  phase : Phase

inductive Event
  | submitMessage (producer : ℕ) (message : WebSocketMessage)
  | producer (producer : ℕ)
  | process
  | getOutgoing (connection : ℕ)
  | consumer (connection : ℕ)
  deriving DecidableEq

namespace Broker

def new (connections bufferSize : ℕ) : Broker :=
  ⟨connections,.new,fun _ => .new bufferSize,.head⟩

/-- The buffer of a connection takes a step. -/
def onBuffer (b : Broker) (c : ℕ) (e : LockFreeRingBuffer.Event) : Option Broker :=
  ((b.outgoing c).step e).map fun r => {b with outgoing := update b.outgoing c r}

/-- What the loop does with the result of `dequeue`; a remainder by zero panics. -/
def route (b : Broker) : Option WebSocketMessage → Option Broker
  | none => some {b with phase := .head}
  | some m =>
    if b.connections = 0 then none
    else
      let target := m.connectionId % b.connections
      {b with phase := .pushing target}.onBuffer target (.startPush m)

/-- One operation of the processing thread. -/
def processMessages (b : Broker) : Option Broker :=
  match b.phase with
  | .head =>
    (b.incoming.step .startDequeue).map fun q => {b with incoming := q, phase := .dequeuing}
  | .dequeuing =>
    (b.incoming.step .consumer).bind fun q =>
      let b := {b with incoming := q}
      if q.consumer.isSome then some b else b.route (q.results.getLast?.bind id)
  | .pushing target =>
    (b.onBuffer target .producer).map fun b =>
      {b with phase := if (b.outgoing target).producer.isSome then .pushing target else .head}

/-- A connection that has no buffer gets nothing. -/
def step (b : Broker) : Event → Option Broker
  | .submitMessage i m =>
    (b.incoming.step (.startEnqueue i m)).map fun q => {b with incoming := q}
  | .producer i => (b.incoming.step (.producer i)).map fun q => {b with incoming := q}
  | .process => b.processMessages
  | .getOutgoing c => if c < b.connections then b.onBuffer c .startPop else some b
  | .consumer c => if c < b.connections then b.onBuffer c .consumer else none

def run (connections bufferSize : ℕ) (events : List Event) : Option Broker :=
  Runs.exec step (new connections bufferSize) events

/-- The messages for a connection that are in the queue or have been there, in its order. -/
def submitted (b : Broker) (c : ℕ) : List WebSocketMessage :=
  (b.incoming.queue.linked.map Link.message).filter fun m => m.connectionId % b.connections = c

/-- The messages that the processing thread has dequeued for a connection. -/
def routed (b : Broker) (c : ℕ) : List WebSocketMessage :=
  b.incoming.returned.filter fun m => m.connectionId % b.connections = c

/-- The message that is being pushed for a connection. -/
def inFlight (b : Broker) (c : ℕ) : List WebSocketMessage :=
  ((b.outgoing c).producer.map LockFreeRingBuffer.Push.message).toList

end Broker

/-! ## What the calls leave alone -/

section Buffer

open LockFreeRingBuffer

variable {r r' : LockFreeRingBuffer.State}

/-- A connection thread does not touch what the processing thread knows. -/
theorem consumer_frame {e : LockFreeRingBuffer.Event} (he : e = .startPop ∨ e = .consumer)
    (h : r.step e = some r') :
    r'.producer = r.producer ∧ r'.pushed = r.pushed ∧ r'.rejected = r.rejected := by
  obtain ⟨m,rfl,-⟩ | ⟨c,b,o,rfl,-⟩ | ⟨-,-,rfl⟩ | ⟨d,b,o,-,-,-,rfl⟩ := State.step_cases h
  · simp at he
  · simp at he
  · exact ⟨rfl,rfl,rfl⟩
  · cases o <;> exact ⟨rfl,rfl,rfl⟩

/-- The message of a `push` call stays the same until it is pushed or rejected. -/
theorem advance_message {b b' : RingBuffer} {c : Push} {o : PushOutcome}
    (h : c.advance b = some (b',o)) :
    (∃ c', o = .goesOn c' ∧ c'.message = c.message) ∨ o = .ok c.message ∨ o = .err c.message := by
  unfold Push.advance at h
  split at h
  · cases h
    exact .inl ⟨_,rfl,rfl⟩
  · split at h
    · cases h
    · split at h
      · cases h
        exact .inr (.inr rfl)
      · cases h
        exact .inl ⟨_,rfl,rfl⟩
  · split at h
    · cases h
      exact .inl ⟨_,rfl,rfl⟩
    · cases h
  · cases h
    exact .inr (.inl rfl)

theorem push_cases (h : r.step .producer = some r') : ∃ c, r.producer = some c ∧
    ((∃ c', r'.producer = some c' ∧ c'.message = c.message ∧ r'.pushed = r.pushed ∧
        r'.rejected = r.rejected) ∨
      r'.producer = none ∧ r'.pushed = r.pushed ++ [c.message] ∧ r'.rejected = r.rejected ∨
      r'.producer = none ∧ r'.pushed = r.pushed ∧ r'.rejected = r.rejected ++ [c.message]) := by
  obtain ⟨m,he,-⟩ | ⟨c,b,o,-,hc,hadv,rfl⟩ | ⟨he,-⟩ | ⟨d,b,o,he,-⟩ := State.step_cases h
  · cases he
  · refine ⟨c,hc,?_⟩
    obtain ⟨c',rfl,hc'⟩ | rfl | rfl := advance_message hadv
    · exact .inl ⟨c',rfl,hc',rfl,rfl⟩
    · exact .inr (.inl ⟨rfl,rfl,rfl⟩)
    · exact .inr (.inr ⟨rfl,rfl,rfl⟩)
  · cases he
  · cases he

theorem startPush_eq {m : WebSocketMessage} (h : r.step (.startPush m) = some r') :
    r'.producer = some ⟨m,.loadWrite⟩ ∧ r'.pushed = r.pushed ∧ r'.rejected = r.rejected := by
  obtain ⟨m',he,-,rfl⟩ | ⟨c,b,o,he,-⟩ | ⟨he,-⟩ | ⟨d,b,o,he,-⟩ := State.step_cases h
  · cases he
    exact ⟨rfl,rfl,rfl⟩
  · cases he
  · cases he
  · cases he

end Buffer

section Queue

variable {q q' : LockFreeQueue.State}

/-- The producers do not touch what the processing thread knows. -/
theorem producer_frame {e : LockFreeQueue.Event} (he : e ≠ .startDequeue) (he' : e ≠ .consumer)
    (h : q.step e = some q') : q'.consumer = q.consumer ∧ q'.results = q.results := by
  obtain ⟨i,m,-,-,rfl⟩ | ⟨i,c,-,-,rfl⟩ | ⟨heq,-⟩ | ⟨d,r,o,heq,-⟩ := State.step_cases h
  · exact ⟨rfl,rfl⟩
  · exact ⟨rfl,rfl⟩
  · exact absurd heq he
  · exact absurd heq he'

theorem startDequeue_eq (h : q.step .startDequeue = some q') :
    q'.consumer.isSome ∧ q'.results = q.results := by
  obtain ⟨i,m,he,-⟩ | ⟨i,c,he,-⟩ | ⟨-,-,rfl⟩ | ⟨d,r,o,he,-⟩ := State.step_cases h
  · cases he
  · cases he
  · exact ⟨rfl,rfl⟩
  · cases he

/-- An operation of `dequeue` goes on or returns a result. -/
theorem dequeue_cases (h : q.step .consumer = some q') :
    q'.consumer.isSome ∧ q'.results = q.results ∨
      ∃ result, q'.consumer = none ∧ q'.results = q.results ++ [result] := by
  obtain ⟨i,m,he,-⟩ | ⟨i,c,he,-⟩ | ⟨he,-⟩ | ⟨d,r,o,-,-,-,rfl⟩ := State.step_cases h
  · cases he
  · cases he
  · cases he
  · cases o with
    | goesOn next => exact .inl ⟨rfl,rfl⟩
    | returns result => exact .inr ⟨result,rfl,rfl⟩
    | drops head result => exact .inr ⟨result,rfl,rfl⟩

end Queue

namespace Broker

variable {b b' : Broker} {n size c : ℕ}

/-- Both structures keep their invariants, only the processing thread dequeues and pushes, and of
the messages that it has routed to a connection every one is pushed, rejected or in flight. -/
structure Sound (n size : ℕ) (b : Broker) : Prop where
  connections : b.connections = n
  history : b.incoming.History
  shape : ∀ c, ∃ q, (b.outgoing c).Shape size q
  dequeuing : b.incoming.consumer.isSome ↔ b.phase = .dequeuing
  pushing : ∀ c, (b.outgoing c).producer.isSome ↔ b.phase = .pushing c
  order : ∀ c, ((b.outgoing c).pushed ++ b.inFlight c).Sublist (b.routed c)
  total : ∀ c, (b.outgoing c).pushed.length + (b.outgoing c).rejected.length +
    (b.inFlight c).length = (b.routed c).length

theorem sound_new (hsize : 1 ≤ size) : Sound n size (new n size) where
  connections := rfl
  history := LockFreeQueue.State.history_new
  shape _ := ⟨[],LockFreeRingBuffer.State.shape_new hsize⟩
  dequeuing := by simp [new,State.new]
  pushing := by simp [new,LockFreeRingBuffer.State.new]
  order _ := by simp [new,LockFreeRingBuffer.State.new,inFlight]
  total _ := rfl

/-- A step of a producer. -/
theorem Sound.produce (h : Sound n size b) {e : LockFreeQueue.Event} {q : LockFreeQueue.State}
    (he : e ≠ .startDequeue) (he' : e ≠ .consumer) (hstep : b.incoming.step e = some q) :
    Sound n size {b with incoming := q} := by
  obtain ⟨hconsumer,hresults⟩ := producer_frame he he' hstep
  have hrouted : routed {b with incoming := q} = b.routed := by
    funext c
    simp only [routed,State.returned,hresults]
  refine ⟨h.connections,h.history.step hstep,h.shape,?_,h.pushing,fun c => ?_,fun c => ?_⟩
  · rw [hconsumer]
    exact h.dequeuing
  · rw [hrouted]
    exact h.order c
  · rw [hrouted]
    exact h.total c

/-- A step of a connection thread. -/
theorem Sound.consume (h : Sound n size b) {e : LockFreeRingBuffer.Event}
    (he : e = .startPop ∨ e = .consumer) (hstep : b.onBuffer c e = some b') :
    Sound n size b' := by
  obtain ⟨r,hr,rfl⟩ := Option.map_eq_some_iff.mp hstep
  obtain ⟨hproducer,hpushed,hrejected⟩ := consumer_frame he hr
  have hsame : ∀ d, (update b.outgoing c r d).producer = (b.outgoing d).producer ∧
      (update b.outgoing c r d).pushed = (b.outgoing d).pushed ∧
      (update b.outgoing c r d).rejected = (b.outgoing d).rejected := by
    intro d
    by_cases hd : d = c
    · subst hd
      simpa using ⟨hproducer,hpushed,hrejected⟩
    · simp [hd]
  refine ⟨h.connections,h.history,fun d => ?_,h.dequeuing,fun d => ?_,fun d => ?_,fun d => ?_⟩
  · obtain ⟨q,hq⟩ := h.shape d
    by_cases hd : d = c
    · subst hd
      simpa using hq.step hr
    · exact ⟨q,by simpa [hd] using hq⟩
  · simpa [hsame] using h.pushing d
  · simpa [inFlight,routed,hsame] using h.order d
  · simpa [inFlight,routed,hsame] using h.total d

/-- While the processing thread dequeues, nothing is in flight. -/
theorem Sound.idle (h : Sound n size b) (hphase : ∀ c, b.phase ≠ .pushing c) (c : ℕ) :
    (b.outgoing c).producer = none := by
  have hnot : ¬ (b.outgoing c).producer.isSome := fun hsome => hphase c ((h.pushing c).mp hsome)
  simpa using hnot

/-- A call of `dequeue` starts or goes on. -/
theorem Sound.dequeue (h : Sound n size b) (hphase : ∀ c, b.phase ≠ .pushing c)
    {q : LockFreeQueue.State} (hhistory : q.History) (hconsumer : q.consumer.isSome)
    (hresults : q.results = b.incoming.results) :
    Sound n size {b with incoming := q, phase := .dequeuing} := by
  have hidle := h.idle hphase
  have hreturned : q.returned = b.incoming.returned := by rw [State.returned,hresults]; rfl
  refine ⟨h.connections,hhistory,h.shape,by simp [hconsumer],by simp [hidle],fun d => ?_,
    fun d => ?_⟩
  · simpa [inFlight,routed,hreturned] using h.order d
  · simpa [inFlight,routed,hreturned] using h.total d

/-- A message that was dequeued goes to its buffer. -/
theorem Sound.route (h : Sound n size b) (hphase : b.phase = .dequeuing)
    {q : LockFreeQueue.State} {result : Option WebSocketMessage} (hhistory : q.History)
    (hconsumer : q.consumer = none) (hresults : q.results = b.incoming.results ++ [result])
    (hroute : Broker.route {b with incoming := q} result = some b') : Sound n size b' := by
  have hidle := h.idle (by simp [hphase])
  have horder := h.order
  have htotal := h.total
  simp only [inFlight,hidle,Option.map_none,Option.toList_none,List.append_nil,
    List.length_nil,Nat.add_zero] at horder htotal
  cases result with
  | none =>
    cases hroute
    have hreturned : q.returned = b.incoming.returned := by
      simp [State.returned,hresults,List.reduceOption_append]
    refine ⟨h.connections,hhistory,h.shape,by simp [hconsumer],by simp [hidle],?_,?_⟩
    · simpa [inFlight,hidle,routed,hreturned] using horder
    · simpa [inFlight,hidle,routed,hreturned] using htotal
  | some m =>
    rw [Broker.route] at hroute
    split at hroute
    · cases hroute
    obtain ⟨r,hr,rfl⟩ := Option.map_eq_some_iff.mp hroute
    obtain ⟨hproducer,hpushed,hrejected⟩ := startPush_eq hr
    have hreturned : q.returned = b.incoming.returned ++ [m] := by
      simp [State.returned,hresults,List.reduceOption_append,List.reduceOption_singleton]
    refine ⟨h.connections,hhistory,fun d => ?_,by simp [hconsumer],fun d => ?_,fun d => ?_,
      fun d => ?_⟩
    · obtain ⟨v,hv⟩ := h.shape d
      by_cases hd : d = m.connectionId % b.connections
      · subst hd
        simpa using hv.step hr
      · exact ⟨v,by simpa [hd] using hv⟩
    · by_cases hd : d = m.connectionId % b.connections
      · subst hd
        simp [hproducer]
      · simp [hd,hidle,Ne.symm hd]
    · by_cases hd : d = m.connectionId % b.connections
      · subst hd
        simpa [inFlight,routed,hreturned,hproducer,hpushed] using
          (horder (m.connectionId % b.connections)).append_right [m]
      · simpa [inFlight,routed,hreturned,hd,Ne.symm hd,hidle] using horder d
    · by_cases hd : d = m.connectionId % b.connections
      · subst hd
        simpa [inFlight,routed,hreturned,hproducer,hpushed,hrejected] using
          htotal (m.connectionId % b.connections)
      · simpa [inFlight,routed,hreturned,hd,Ne.symm hd,hidle] using htotal d

/-- A push goes on, or its message is pushed or rejected. -/
theorem Sound.push (h : Sound n size b) (hphase : b.phase = .pushing c)
    (hstep : b.onBuffer c .producer = some b') :
    Sound n size
      {b' with phase := if (b'.outgoing c).producer.isSome then .pushing c else .head} := by
  obtain ⟨r,hr,rfl⟩ := Option.map_eq_some_iff.mp hstep
  obtain ⟨p,hp,hcases⟩ := push_cases hr
  have hidle : ∀ d, d ≠ c → (b.outgoing d).producer = none := by
    intro d hd
    have hnot : ¬ (b.outgoing d).producer.isSome := by
      rw [h.pushing d,hphase]
      simpa using Ne.symm hd
    simpa using hnot
  have hconsumer : b.incoming.consumer.isSome = false := by
    simpa [hphase] using h.dequeuing
  have horder := h.order c
  have htotal := h.total c
  simp only [inFlight,hp,Option.map_some,Option.toList_some,List.length_singleton] at horder htotal
  refine ⟨h.connections,h.history,fun d => ?_,?_,fun d => ?_,fun d => ?_,fun d => ?_⟩
  · obtain ⟨v,hv⟩ := h.shape d
    by_cases hd : d = c
    · subst hd
      simpa using hv.step hr
    · exact ⟨v,by simpa [hd] using hv⟩
  · simp only [hconsumer]
    split <;> simp
  · by_cases hd : d = c
    · subst hd
      simp [Option.isSome_iff_ne_none]
    · simp only [update_of_ne hd,hidle d hd]
      split <;> simp [Ne.symm hd]
  · by_cases hd : d = c
    · subst hd
      obtain ⟨p',hp',hmessage,hpushed,-⟩ | ⟨hnone,hpushed,-⟩ | ⟨hnone,hpushed,-⟩ := hcases
      · simpa [inFlight,routed,hp',hmessage,hpushed] using horder
      · simpa [inFlight,routed,hnone,hpushed] using horder
      · simpa [inFlight,routed,hnone,hpushed] using
          (List.sublist_append_left _ _).trans horder
    · simpa [inFlight,routed,hd] using h.order d
  · by_cases hd : d = c
    · subst hd
      obtain ⟨p',hp',-,hpushed,hrejected⟩ | ⟨hnone,hpushed,hrejected⟩ |
        ⟨hnone,hpushed,hrejected⟩ := hcases
      · simpa [inFlight,routed,hp',hpushed,hrejected] using htotal
      · simp only [routed] at htotal
        simp [inFlight,routed,hnone,hpushed,hrejected]
        omega
      · simp only [routed] at htotal
        simp [inFlight,routed,hnone,hpushed,hrejected]
        omega
    · simpa [inFlight,routed,hd] using h.total d

theorem Sound.processMessages (h : Sound n size b) (hstep : b.processMessages = some b') :
    Sound n size b' := by
  rw [Broker.processMessages] at hstep
  split at hstep
  · next hphase =>
    obtain ⟨q,hq,rfl⟩ := Option.map_eq_some_iff.mp hstep
    obtain ⟨hconsumer,hresults⟩ := startDequeue_eq hq
    exact h.dequeue (by simp [hphase]) (h.history.step hq) hconsumer hresults
  · next hphase =>
    obtain ⟨q,hq,hrest⟩ := Option.bind_eq_some_iff.mp hstep
    have hhistory := h.history.step hq
    obtain ⟨hsome,hresults⟩ | ⟨result,hnone,hresults⟩ := dequeue_cases hq
    · rw [if_pos hsome] at hrest
      cases hrest
      rw [hphase]
      exact h.dequeue (by simp [hphase]) hhistory hsome hresults
    · simp only [hnone,Option.isSome_none,hresults] at hrest
      exact h.route hphase hhistory hnone hresults (by simpa using hrest)
  · next c hphase =>
    obtain ⟨b₁,hb₁,rfl⟩ := Option.map_eq_some_iff.mp hstep
    exact h.push hphase hb₁

theorem Sound.step (h : Sound n size b) {e : Event} (hstep : b.step e = some b') :
    Sound n size b' := by
  cases e with
  | submitMessage i m =>
    obtain ⟨q,hq,rfl⟩ := Option.map_eq_some_iff.mp hstep
    refine h.produce ?_ ?_ hq <;> nofun
  | producer i =>
    obtain ⟨q,hq,rfl⟩ := Option.map_eq_some_iff.mp hstep
    refine h.produce ?_ ?_ hq <;> nofun
  | process => exact h.processMessages hstep
  | getOutgoing c =>
    rw [Broker.step] at hstep
    split at hstep
    · exact h.consume (.inl rfl) hstep
    · cases hstep
      exact h
  | consumer c =>
    rw [Broker.step] at hstep
    split at hstep
    · exact h.consume (.inr rfl) hstep
    · cases hstep

theorem sound_run (hsize : 1 ≤ size) {events : List Event} (h : run n size events = some b) :
    Sound n size b :=
  Runs.exec_invariant (fun _ _ _ hstep hs => hs.step hstep) h (sound_new hsize)

theorem Sound.routed_isPrefix (h : Sound n size b) (c : ℕ) : b.routed c <+: b.submitted c := by
  have hreturned : b.incoming.returned <+: b.incoming.queue.channel.outputs :=
    ⟨_,h.history.delivered⟩
  exact (hreturned.trans b.incoming.queue.channel_gapFree.outputs_isPrefix).filter _

theorem route_rejected {result : Option WebSocketMessage} (hroute : b.route result = some b')
    (c : ℕ) : (b'.outgoing c).rejected = (b.outgoing c).rejected := by
  cases result with
  | none =>
    cases hroute
    rfl
  | some m =>
    rw [Broker.route] at hroute
    split at hroute
    · cases hroute
    · obtain ⟨r,hr,rfl⟩ := Option.map_eq_some_iff.mp hroute
      by_cases hc : c = m.connectionId % b.connections
      · subst hc
        simpa using (startPush_eq hr).2.2
      · simp [hc]

/-- A message is rejected only while all places of its buffer but one are taken. -/
theorem Sound.full_of_rejected (h : Sound n size b) (hstep : b.processMessages = some b')
    (hne : (b'.outgoing c).rejected ≠ (b.outgoing c).rejected) :
    (b.outgoing c).unread.length = size - 1 := by
  rw [Broker.processMessages] at hstep
  split at hstep
  · obtain ⟨q,-,rfl⟩ := Option.map_eq_some_iff.mp hstep
    exact absurd rfl hne
  · obtain ⟨q,-,hrest⟩ := Option.bind_eq_some_iff.mp hstep
    split at hrest
    · cases hrest
      exact absurd rfl hne
    · exact absurd (route_rejected hrest c) hne
  · next d hphase =>
    obtain ⟨b₁,hb₁,rfl⟩ := Option.map_eq_some_iff.mp hstep
    obtain ⟨r,hr,rfl⟩ := Option.map_eq_some_iff.mp hb₁
    obtain rfl : d = c := by
      by_contra hd
      simp [Ne.symm hd] at hne
    obtain ⟨p,-,⟨_,-,-,-,hrejected⟩ | ⟨-,-,hrejected⟩ | ⟨-,-,hrejected⟩⟩ := push_cases hr
    · simp [hrejected] at hne
    · simp [hrejected] at hne
    · obtain ⟨q,hq⟩ := h.shape d
      rw [hq.unread_eq]
      exact (hq.full_of_rejected hr hrejected).2

/-- In every interleaving each connection takes out messages that were submitted for it, in the
order of the queue and none twice. Those it does not take out are still unread, in flight or
rejected; without a rejection none is passed over, and a message is rejected only while all places
of the buffer but one are taken. -/
theorem delivered_in_order (hsize : 1 ≤ size) {events : List Event}
    (h : run n size events = some b) (c : ℕ) :
    (b.outgoing c).popped.Sublist (b.submitted c) ∧
    ((b.outgoing c).rejected = [] → (b.outgoing c).popped <+: b.submitted c) ∧
    (b.outgoing c).popped.length + (b.outgoing c).unread.length + (b.inFlight c).length +
        (b.outgoing c).rejected.length = (b.routed c).length ∧
    (∀ i, b.incoming.queue.linkedBy i <+: b.incoming.startedBy i) ∧
    ∀ b', b.step .process = some b' → (b'.outgoing c).rejected ≠ (b.outgoing c).rejected →
      (b.outgoing c).unread.length = size - 1 := by
  have hsound := sound_run hsize h
  obtain ⟨q,hq⟩ := hsound.shape c
  have hpopped : (b.outgoing c).popped <+: (b.outgoing c).pushed := by
    rw [hq.pushed_eq]
    exact List.prefix_append _ _
  have horder := hsound.order c
  have htotal := hsound.total c
  have hpushed := List.sublist_append_left (b.outgoing c).pushed (b.inFlight c)
  have hrouted := hsound.routed_isPrefix c
  refine ⟨?_,fun hnone => ?_,?_,hsound.history.linkedBy_isPrefix,fun b' hstep hne =>
    hsound.full_of_rejected hstep hne⟩
  · exact ((hpopped.sublist.trans hpushed).trans horder).trans hrouted.sublist
  · have hall : (b.outgoing c).pushed ++ b.inFlight c = b.routed c := by
      refine horder.eq_of_length ?_
      simpa [hnone] using htotal
    rw [← hall] at hrouted
    exact (hpopped.trans (List.prefix_append _ _)).trans hrouted
  · rw [← htotal,hq.unread_eq,hq.pushed_eq,List.length_append]
    omega

/-- Two connections with room for one message each: the second message for connection 1 comes
before the first one is taken out. -/
def secondRejected : List Event :=
  (Event.submitMessage 0 ⟨[65],0⟩ :: List.replicate 6 (Event.producer 0)) ++
    (Event.submitMessage 1 ⟨[66],1⟩ :: List.replicate 6 (Event.producer 1)) ++
    (Event.submitMessage 1 ⟨[67],3⟩ :: List.replicate 6 (Event.producer 1)) ++
    List.replicate 37 Event.process ++
    (Event.getOutgoing 1 :: List.replicate 4 (Event.consumer 1)) ++
    (Event.getOutgoing 0 :: List.replicate 4 (Event.consumer 0))

theorem delivered_in_order_secondRejected : ∃ b, run 2 2 secondRejected = some b ∧
    (b.outgoing 0).popped = [⟨[65],0⟩] ∧ (b.outgoing 1).popped = [⟨[66],1⟩] ∧
    (b.outgoing 1).rejected = [⟨[67],3⟩] ∧ (b.outgoing 1).popped.Sublist (b.submitted 1) := by
  have hrun : (run 2 2 secondRejected).map (fun b =>
      ((b.outgoing 0).popped,(b.outgoing 1).popped,(b.outgoing 1).rejected)) =
      some ([⟨[65],0⟩],[⟨[66],1⟩],[⟨[67],3⟩]) := by decide +kernel
  obtain ⟨b,hb,hval⟩ := Option.map_eq_some_iff.mp hrun
  simp only [Prod.mk.injEq] at hval
  exact ⟨b,hb,hval.1,hval.2.1,hval.2.2,(delivered_in_order (by decide) hb 1).1⟩

end Broker
end MessageBroker
end UProtocols
