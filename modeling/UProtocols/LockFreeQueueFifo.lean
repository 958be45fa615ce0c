import UProtocols.Channel
import UProtocols.LockFreeQueueInvariant

/-!
# The lock-free queue is a FIFO channel

Seen from outside, a link puts a message into an ordered channel and a swing of `head`
delivers the next one; every other operation changes nothing. The messages returned,
the one in the consumer's hand and those still reachable from `head` are the linked
messages in order, and each producer's links follow its calls.
-/

namespace UProtocols
namespace LockFreeQueue

namespace Queue

/-- The messages behind node `a`, as far as `n` pointers lead. -/
def walk (q : Queue) : ℕ → Addr → List WebSocketMessage
  | 0, _ => []
  | n+1, a =>
    match (q.heap a).next with
    | none => []
    | some b => (q.heap b).message.toList ++ q.walk n b

/-- The messages that are linked and not dequeued, read off the memory. -/
def contents (q : Queue) : List WebSocketMessage := q.walk q.linked.length q.head

def linkedBy (q : Queue) (i : ℕ) : List WebSocketMessage :=
  (q.linked.filter fun l => l.producer = i).map Link.message

theorem Spine.walk_eq {q : Queue} (h : q.Spine) (n : ℕ) {k : ℕ} {a : Addr}
    (hk : q.chain[k]? = some a) (hn : q.linked.length ≤ k + n) :
    q.walk n a = (q.linked.drop k).map Link.message := by
  induction n generalizing k a with
  | zero => rw [walk,List.drop_of_length_le (by omega),List.map_nil]
  | succ n ih =>
    have hnext := h.chained.next_eq hk
    rw [chain_succ] at hnext
    rw [walk]
    cases hl : q.linked[k]? with
    | none =>
      rw [hl] at hnext
      simp only [Option.map_none] at hnext
      rw [hnext,List.drop_of_length_le (List.getElem?_eq_none_iff.mp hl),List.map_nil]
    | some l =>
      rw [hl] at hnext
      simp only [Option.map_some] at hnext
      have hat : q.chain[k + 1]? = some l.node := by rw [chain_succ,hl]; rfl
      have hlt := (List.getElem?_eq_some_iff.mp hl).1
      have hdrop : q.linked.drop k = l :: q.linked.drop (k + 1) := by
        rw [List.drop_eq_getElem_cons hlt,(List.getElem?_eq_some_iff.mp hl).2]
      rw [hnext,hdrop]
      simp [h.messages l (List.mem_of_getElem? hl),ih hat (by omega)]

theorem Spine.contents_eq {q : Queue} (h : q.Spine) :
    q.contents = (q.linked.drop q.dequeued).map Link.message :=
  h.walk_eq _ h.head_at (by omega)

theorem Spine.dequeued_le {q : Queue} (h : q.Spine) : q.dequeued ≤ q.linked.length := by
  have hlt := (List.getElem?_eq_some_iff.mp h.head_at).1
  simp only [chain,List.length_cons,List.length_map] at hlt
  omega

/-- The channel that the queue implements. -/
def channel (q : Queue) : Channel WebSocketMessage where
  sent := q.linked.map Link.message
  next := q.dequeued
  delivered := List.range q.dequeued

theorem channel_gapFree (q : Queue) : q.channel.GapFree := rfl

theorem channel_outputs (q : Queue) :
    q.channel.outputs = (q.linked.take q.dequeued).map Link.message := by
  rw [Channel.outputs,channel,Channel.filterMap_range_getElem?,List.map_take]

end Queue

/-- The message of a call that has not linked its node yet. -/
def pending : Option Enqueue → List WebSocketMessage
  | some c => if c.step.unlinked then [c.message] else []
  | none => []

/-- The log grows exactly when a call leaves the unlinked part of its loop. -/
theorem Enqueue.advance_log {q : Queue} {c : Enqueue} (hq : q.Spine) (hc : c.Placed q) (i : ℕ) :
    ((c.advance q i).1.linked = q.linked ∧ pending (c.advance q i).2 = pending (some c)) ∨
    ((c.advance q i).1.linked = q.linked ++ [⟨i,c.node,c.message⟩] ∧
      pending (some c) = [c.message] ∧ pending (c.advance q i).2 = []) := by
  obtain ⟨st,hadv,hun,hst,-⟩ | ⟨tail,hstep,-,-,hadv⟩ |
    ⟨a,old,next,st,-,-,hadv,hun,-⟩ | ⟨hstep,hadv⟩ := advance_cases hq hc i
  · left
    simp [hadv,pending,goto,hun,hst]
  · right
    simp [hadv,pending,goto,hstep,EnqueueStep.unlinked,Queue.link]
  · left
    simp [hadv,pending,goto,hun]
  · left
    simp [hadv,pending,hstep,EnqueueStep.unlinked]

namespace State

/-- The messages that `dequeue` returned. -/
def returned (s : State) : List WebSocketMessage := s.results.reduceOption

/-- The message that the running `dequeue` call will return. -/
def inHand (s : State) : List WebSocketMessage := (s.consumer.bind Dequeue.inHand).toList

def startedBy (s : State) (i : ℕ) : List WebSocketMessage :=
  (s.started.filter fun a => a.1 = i).map Prod.snd

structure History (s : State) : Prop where
  threads : s.Threads
  delivered : s.returned ++ s.inHand = s.queue.channel.outputs
  ordered : ∀ i, s.startedBy i = s.queue.linkedBy i ++ pending (s.producers i)

theorem history_new : History new := ⟨threads_new,rfl,fun _ => rfl⟩

/-- A link puts one message into the channel, and no other operation of a producer
changes it. -/
theorem channel_produce {s : State} (h : s.Threads) {i : ℕ} {c : Enqueue}
    (hc : s.producers i = some c) :
    Relation.ReflGen Channel.Step s.queue.channel (c.advance s.queue i).1.channel := by
  have hdeq := (h.guarantee hc).dequeued
  obtain ⟨hlog,-⟩ | ⟨hlog,-⟩ := Enqueue.advance_log h.spine (h.placed i c hc) i
  · have heq : (c.advance s.queue i).1.channel = s.queue.channel := by
      simp only [Queue.channel,hlog,hdeq]
    rw [heq]
  · have heq : (c.advance s.queue i).1.channel =
        {s.queue.channel with sent := s.queue.channel.sent ++ [c.message]} := by
      simp only [Queue.channel,hlog,hdeq,List.map_append,List.map_cons,List.map_nil]
    rw [heq]
    exact .single (.put _ _)

/-- A swing of `head` delivers the next message. -/
theorem channel_swingHead {q : Queue} {l : Link} (hl : q.linked[q.dequeued]? = some l) :
    Relation.ReflGen Channel.Step q.channel (q.swingHead l.node).channel := by
  have hlt := (List.getElem?_eq_some_iff.mp hl).1
  have heq : (q.swingHead l.node).channel =
      {q.channel with
        next := q.channel.next + 1
        delivered := q.channel.delivered ++ [q.channel.next]} := by
    simp only [Queue.channel,Queue.swingHead,List.range_succ]
  rw [heq]
  have hle : q.channel.next + 1 ≤ q.channel.sent.length := by
    simp only [Queue.channel,List.length_map]
    omega
  exact .single (.deliver _ _ (Nat.lt_succ_self _) hle)

/-- Every step is at most one step of the channel. -/
theorem step_refines {s t : State} {e : Event} (h : s.Threads) (hstep : step s e = some t) :
    Relation.ReflGen Channel.Step s.queue.channel t.queue.channel := by
  obtain ⟨i,m,-,-,rfl⟩ | ⟨i,c,-,hc,rfl⟩ | ⟨-,-,rfl⟩ | ⟨d,r,o,-,hd,hadv,rfl⟩ := step_cases hstep
  · exact .refl
  · exact channel_produce h hc
  · exact .refl
  · have hqueue : (s.consume r o).queue = r := by cases o <;> rfl
    rw [hqueue]
    obtain ⟨e,rfl,-⟩ | ⟨-,-,rfl,-⟩ | ⟨b,old,next,-,-,-,rfl,-⟩ | ⟨l,hl,-,-,rfl,-⟩ |
      ⟨head,m,-,rfl,-⟩ | ⟨head,m,-,rfl,-⟩ := Dequeue.advance_cases h.spine (h.consumer d hd) hadv
    · exact .refl
    · exact .refl
    · have heq : (s.queue.casTail old next).channel = s.queue.channel := by
        simp only [Queue.channel,Queue.casTail_linked,Queue.casTail_dequeued]
      rw [heq]
    · exact channel_swingHead hl
    · exact .refl
    · exact .refl

/-! ## The history of a run -/

theorem outputs_of_linked {q r : Queue} (hq : q.Spine) (hlinked : q.linked <+: r.linked)
    (hdeq : r.dequeued = q.dequeued) : r.channel.outputs = q.channel.outputs := by
  have hle := hq.dequeued_le
  obtain ⟨ls,hls⟩ := hlinked
  rw [Queue.channel_outputs,Queue.channel_outputs,hdeq,← hls,List.take_append_of_le_length hle]

theorem outputs_swingHead {q : Queue} {l : Link} (hl : q.linked[q.dequeued]? = some l) :
    (q.swingHead l.node).channel.outputs = q.channel.outputs ++ [l.message] := by
  have htake : q.linked.take (q.dequeued + 1) = q.linked.take q.dequeued ++ [l] := by
    rw [List.take_add_one,hl]
    rfl
  rw [Queue.channel_outputs,Queue.channel_outputs]
  show (q.linked.take (q.dequeued + 1)).map Link.message = _
  rw [htake,List.map_append]
  rfl

theorem History.startEnqueue {s : State} (h : s.History) {i : ℕ} (hi : s.producers i = none)
    (m : WebSocketMessage) : (s.startEnqueue i m).History where
  threads := h.threads.startEnqueue i m
  delivered := h.delivered
  ordered := by
    intro j
    have hj := h.ordered j
    by_cases hji : j = i
    · subst hji
      simp only [startedBy,hi,pending] at hj
      simp [startedBy,State.startEnqueue,hj,pending,EnqueueStep.unlinked,Queue.linkedBy,
        Queue.alloc]
    · have hij : ¬ i = j := fun heq => hji heq.symm
      simpa [startedBy,State.startEnqueue,hji,hij,Queue.linkedBy,Queue.alloc] using hj

theorem History.produce {s : State} (h : s.History) {i : ℕ} {c : Enqueue}
    (hc : s.producers i = some c) :
    (s.produce i (c.advance s.queue i).1 (c.advance s.queue i).2).History where
  threads := h.threads.produce hc (h.threads.guarantee hc)
  delivered := by
    have hg := h.threads.guarantee hc
    have hout := outputs_of_linked h.threads.spine hg.ext.linked hg.dequeued
    exact h.delivered.trans hout.symm
  ordered := by
    intro j
    have hj := h.ordered j
    obtain ⟨hlog,hpend⟩ | ⟨hlog,hpend,hpend'⟩ :=
      Enqueue.advance_log h.threads.spine (h.threads.placed i c hc) i
    · by_cases hji : j = i
      · subst hji
        rw [hc] at hj
        simpa [startedBy,State.produce,Queue.linkedBy,hlog,hpend] using hj
      · simpa [startedBy,State.produce,Queue.linkedBy,hlog,hji] using hj
    · by_cases hji : j = i
      · subst hji
        rw [hc,hpend] at hj
        simpa [startedBy,State.produce,Queue.linkedBy,hlog,hpend'] using hj
      · have hij : ¬ i = j := fun heq => hji heq.symm
        simpa [startedBy,State.produce,Queue.linkedBy,hlog,hji,hij] using hj

theorem History.consume {s : State} (h : s.History) {d : Dequeue} {r : Queue} {o : Outcome}
    (hd : s.consumer = some d) (hadv : d.advance s.queue = some (r,o)) :
    (s.consume r o).History := by
  have hthreads := h.threads.consume
    (Dequeue.guarantee h.threads.spine (h.threads.consumer d hd) hadv)
  have hdel := h.delivered
  have hord := h.ordered
  rw [inHand,hd,Option.bind_some] at hdel
  obtain ⟨e,rfl,rfl,-,hhand,hhand',-⟩ | ⟨head,rfl,rfl,rfl⟩ | ⟨b,old,next,-,-,rfl,rfl,rfl⟩ |
    ⟨l,hl,-,rfl,rfl,rfl⟩ | ⟨head,m,rfl,rfl,rfl⟩ | ⟨head,m,rfl,rfl,rfl⟩ :=
    Dequeue.advance_cases h.threads.spine (h.threads.consumer d hd) hadv
  · refine ⟨hthreads,?_,hord⟩
    simpa [State.consume,inHand,returned,hhand,hhand'] using hdel
  · refine ⟨hthreads,?_,hord⟩
    simpa [State.consume,inHand,returned,Dequeue.inHand,List.reduceOption_append] using hdel
  · refine ⟨hthreads,?_,?_⟩
    · have hout : (s.queue.casTail old next).channel.outputs = s.queue.channel.outputs := by
        simp [Queue.channel_outputs]
      simpa [State.consume,inHand,returned,Dequeue.inHand,hout] using hdel
    · simpa [State.consume,startedBy,Queue.linkedBy] using hord
  · refine ⟨hthreads,?_,hord⟩
    have hout := outputs_swingHead hl
    simpa [State.consume,inHand,returned,Dequeue.inHand,hout] using hdel
  · exact ⟨hthreads,hdel,hord⟩
  · refine ⟨hthreads,?_,hord⟩
    simpa [State.consume,inHand,returned,Dequeue.inHand,List.reduceOption_append,
      List.reduceOption_singleton] using hdel

theorem History.step {s t : State} {e : Event} (h : s.History) (hstep : State.step s e = some t) :
    t.History := by
  obtain ⟨i,m,-,hi,rfl⟩ | ⟨i,c,-,hc,rfl⟩ | ⟨-,hd,rfl⟩ | ⟨d,r,o,-,hd,hadv,rfl⟩ := step_cases hstep
  · exact h.startEnqueue hi m
  · exact h.produce hc
  · refine ⟨h.threads.step hstep,?_,h.ordered⟩
    have hdel := h.delivered
    simpa [inHand,hd,returned,Dequeue.inHand] using hdel
  · exact h.consume hd hadv

theorem history_run {events : List Event} {s : State} (h : run events = some s) : s.History :=
  Runs.exec_invariant (fun _ _ _ hstep hs => hs.step hstep) h history_new

/-- From the empty channel, every run of the queue is a run of the channel. -/
theorem run_refines {events : List Event} {s : State} (h : run events = some s) :
    Relation.ReflTransGen Channel.Step Channel.empty s.queue.channel := by
  have hinv := Runs.exec_invariant
    (I := fun s => s.Threads ∧ Relation.ReflTransGen Channel.Step Channel.empty s.queue.channel)
    (fun s e t hstep hs => ⟨hs.1.step hstep,hs.2.trans (step_refines hs.1 hstep).to_reflTransGen⟩)
    h ⟨threads_new,.refl⟩
  exact hinv.2

/-- In every run the consumer's next operation is defined: it never follows a null
pointer. -/
theorem consumer_enabled {events : List Event} {s : State} (h : run events = some s)
    (hd : s.consumer.isSome) : (step s .consumer).isSome := by
  obtain ⟨d,hd⟩ := Option.isSome_iff_exists.mp hd
  have hplaced := (history_run h).threads.consumer d hd
  obtain ⟨r,hr⟩ := Option.isSome_iff_exists.mp (Dequeue.advance_isSome hplaced)
  simp [step,hd,hr]

/-- At some moment of the `dequeue` call that is running at the end of the events, no
linked message was undequeued. -/
def SawEmpty (events : List Event) : Prop :=
  ∃ before during u, events = before ++ during ∧ run before = some u ∧ u.consumer.isSome ∧
    Event.startDequeue ∉ during ∧ u.queue.linked.length = u.queue.dequeued

theorem SawEmpty.snoc {events : List Event} (h : SawEmpty events) {e : Event}
    (he : e ≠ .startDequeue) : SawEmpty (events ++ [e]) := by
  obtain ⟨before,during,u,rfl,hu,hcall,hduring,hempty⟩ := h
  refine ⟨before,during ++ [e],u,List.append_assoc _ _ _,hu,hcall,?_,hempty⟩
  rw [List.mem_append,List.mem_singleton]
  exact not_or.mpr ⟨hduring,fun heq => he heq.symm⟩

/-- A call that has read a null pointer behind `head` read it when the queue was empty. -/
theorem sawEmpty_of_recheck {events : List Event} {s : State} (h : run events = some s)
    {head tail : Addr} (hs : s.consumer = some (.recheckHead head tail none)) :
    SawEmpty events := by
  have hinv := Runs.exec_invariant_trace
    (I := fun events s => ∀ head tail, s.consumer = some (.recheckHead head tail none) →
      SawEmpty events) ?_ nofun h
  · exact hinv head tail hs
  · intro events s e t hrun ih hstep head tail ht
    have hthreads := (history_run hrun).threads
    obtain ⟨i,m,rfl,-,rfl⟩ | ⟨i,c,rfl,-,rfl⟩ | ⟨-,-,rfl⟩ | ⟨d,r,o,rfl,hd,hadv,rfl⟩ :=
      step_cases hstep
    · exact (ih head tail ht).snoc nofun
    · exact (ih head tail ht).snoc nofun
    · cases ht
    · obtain ⟨e,rfl,rfl,-,-,-,hempty⟩ | ⟨-,-,rfl,rfl⟩ | ⟨b,old,next,-,-,-,rfl,rfl⟩ |
        ⟨l,-,-,-,rfl,rfl⟩ | ⟨head,m,-,rfl,rfl⟩ | ⟨head,m,-,rfl,rfl⟩ :=
        Dequeue.advance_cases hthreads.spine (hthreads.consumer d hd) hadv
      · refine ⟨events,[.consumer],s,rfl,hrun,by rw [hd]; rfl,by simp,?_⟩
        exact hempty head tail (Option.some.inj ht)
      · cases ht
      · cases ht
      · cases ht
      · cases ht
      · cases ht

theorem sawEmpty_of_none {events : List Event} {s t : State} (h : run events = some s)
    (hstep : step s .consumer = some t) (hnone : t.results = s.results ++ [none]) :
    SawEmpty events := by
  have hthreads := (history_run h).threads
  obtain ⟨i,m,he,-⟩ | ⟨i,c,he,-⟩ | ⟨he,-⟩ | ⟨d,r,o,-,hd,hadv,rfl⟩ := step_cases hstep
  · cases he
  · cases he
  · cases he
  · have hplaced := hthreads.consumer d hd
    obtain ⟨e,rfl,rfl,-⟩ | ⟨head,rfl,-⟩ | ⟨b,old,next,-,-,-,rfl,rfl⟩ |
      ⟨l,-,-,-,rfl,rfl⟩ | ⟨head,m,-,rfl,rfl⟩ | ⟨head,m,rfl,rfl,rfl⟩ :=
      Dequeue.advance_cases hthreads.spine hplaced hadv
    · simp [State.consume] at hnone
    · exact sawEmpty_of_recheck h hd
    · simp [State.consume] at hnone
    · simp [State.consume] at hnone
    · simp [State.consume] at hnone
    · -- The message read behind `head` is never the dummy's.
      have hm : m = none := by simpa [State.consume] using hnone
      rw [hm] at hplaced
      cases hplaced.1

/-- What a run of the queue has to show for itself. -/
structure Linearizable (events : List Event) (s : State) : Prop where
  /-- The linked messages in order: those returned, the one in hand, those reachable
  from `head`. -/
  conserved : s.returned ++ s.inHand ++ s.queue.contents = s.queue.linked.map Link.message
  returned_isPrefix : s.returned <+: s.queue.linked.map Link.message
  /-- Each producer links the messages of its calls in order, all of them when it is
  idle, and all but the last otherwise. -/
  programOrder : ∀ i, s.queue.linkedBy i <+: s.startedBy i ∧
    (s.startedBy i).length ≤ (s.queue.linkedBy i).length + 1 ∧
    (s.producers i = none → s.queue.linkedBy i = s.startedBy i)
  /-- The messages come out in the order of each producer's calls. -/
  returnedOrder : ∃ n, s.returned = (s.queue.linked.take n).map Link.message ∧
    ∀ i, ((s.queue.linked.take n).filter fun l => l.producer = i).map Link.message <+:
      s.startedBy i
  none_sawEmpty : ∀ t, step s .consumer = some t → t.results = s.results ++ [none] →
    SawEmpty events

theorem History.conserved {s : State} (h : s.History) :
    s.returned ++ s.inHand ++ s.queue.contents = s.queue.linked.map Link.message := by
  rw [h.delivered,Queue.channel_outputs,h.threads.spine.contents_eq,← List.map_append,
    List.take_append_drop]

theorem History.linkedBy_isPrefix {s : State} (h : s.History) (i : ℕ) :
    s.queue.linkedBy i <+: s.startedBy i := by
  rw [h.ordered i]
  exact List.prefix_append _ _

theorem pending_length_le (c : Option Enqueue) : (pending c).length ≤ 1 := by
  cases c with
  | none => exact Nat.zero_le 1
  | some c =>
    rw [pending]
    split_ifs <;> simp

/-- Every run of any number of producers and one consumer is linearizable. -/
theorem linearizable_run {events : List Event} {s : State} (h : run events = some s) :
    Linearizable events s := by
  have hist := history_run h
  have hpre : s.returned <+: s.queue.channel.outputs := ⟨s.inHand,hist.delivered⟩
  have hout : s.returned <+: s.queue.linked.map Link.message :=
    hpre.trans s.queue.channel_gapFree.outputs_isPrefix
  refine ⟨hist.conserved,hout,?_,?_,fun t hstep hnone => sawEmpty_of_none h hstep hnone⟩
  · intro i
    have hord := hist.ordered i
    have hlen := pending_length_le (s.producers i)
    refine ⟨hist.linkedBy_isPrefix i,?_,?_⟩
    · rw [hord,List.length_append]
      omega
    · intro hidle
      rw [hord,hidle]
      exact (List.append_nil _).symm
  · have htake := List.prefix_iff_eq_take.mp hout
    rw [← List.map_take] at htake
    refine ⟨s.returned.length,htake,fun i => ?_⟩
    have hfilter := ((List.take_prefix s.returned.length s.queue.linked).filter
      fun l => l.producer = i).map Link.message
    exact hfilter.trans (hist.linkedBy_isPrefix i)

/-- Producer 1 finds `tail` lagging behind the node of producer 0 and helps; the consumer
then takes both messages and finds the queue empty. -/
def laggingTail : List Event :=
  [Event.startEnqueue 0 ⟨[65],0⟩,Event.startEnqueue 1 ⟨[66],1⟩] ++
    List.replicate 4 (Event.producer 0) ++ List.replicate 10 (Event.producer 1) ++
    List.replicate 2 (Event.producer 0) ++
    (Event.startDequeue :: List.replicate 8 Event.consumer) ++
    (Event.startDequeue :: List.replicate 8 Event.consumer) ++
    (Event.startDequeue :: List.replicate 4 Event.consumer)

theorem linearizable_run_laggingTail : ∃ s, run laggingTail = some s ∧
    Linearizable laggingTail s ∧ s.results = [some ⟨[65],0⟩,some ⟨[66],1⟩,none] := by
  have hresults : (run laggingTail).map State.results =
      some [some ⟨[65],0⟩,some ⟨[66],1⟩,none] := by decide +kernel
  obtain ⟨s,hs,hr⟩ := Option.map_eq_some_iff.mp hresults
  exact ⟨s,hs,linearizable_run hs,hr⟩

end State
end LockFreeQueue
end UProtocols
