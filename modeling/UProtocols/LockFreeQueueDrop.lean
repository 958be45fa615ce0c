import Mathlib.Data.List.Perm.Basic
import UProtocols.LockFreeQueueCount
import UProtocols.LockFreeQueueReclamation

/-!
# Dropping the queue

`Drop for LockFreeQueue`: once no call is running, `dequeue` is called until it returns nothing,
and the node that is left is freed. Together with the nodes that earlier calls have freed, these
are all the nodes that were ever allocated, each of them once.
-/

namespace UProtocols
namespace LockFreeQueue

namespace Queue

/-- A `dequeue` call that runs alone: the queue after it, its result and what it frees. -/
def runDequeue : ℕ → Queue → Dequeue → Option (Queue × Option WebSocketMessage × List Addr)
  | 0, _, _ => none
  | fuel+1, q, d =>
    match d.advance q with
    | none => none
    | some (r,.goesOn next) => runDequeue fuel r next
    | some (r,.returns result) => some (r,result,[])
    | some (r,.drops head result) => some (r,result,[head])

/-- `while self.dequeue().is_some() {}`; a call that runs alone takes at most 13 operations. -/
def dequeueAll : ℕ → Queue → Option (Queue × List WebSocketMessage × List Addr)
  | 0, _ => none
  | fuel+1, q =>
    match q.runDequeue 13 .loadHead with
    | none => none
    | some (r,none,freed) => some (r,[],freed)
    | some (r,some message,freed) =>
      (dequeueAll fuel r).map fun rest => (rest.1,message :: rest.2.1,freed ++ rest.2.2)

/-- The messages that are thrown away, and the nodes that are freed. -/
def drop (fuel : ℕ) (q : Queue) : Option (List WebSocketMessage × List Addr) :=
  (q.dequeueAll fuel).map fun r => (r.2.1,r.2.2 ++ [r.1.head])

/-! ## One call alone -/

variable {q : Queue} {l : Link}

/-- The queue after a message has been taken. -/
def taken (q : Queue) (l : Link) : Queue := {q.swingHead l.node with count := q.count - 1}

theorem Spine.next_head (h : q.Spine) :
    (q.heap q.head).next = (q.linked[q.dequeued]?).map Link.node := by
  rw [h.chained.next_eq h.head_at,chain_succ]

theorem Spine.runDequeue_empty (h : q.Spine) (hempty : q.linked.length = q.dequeued) :
    q.runDequeue 13 .loadHead = some (q,none,[]) := by
  have hnext : (q.heap q.head).next = none := by
    rw [h.next_head,List.getElem?_eq_none (by omega),Option.map_none]
  have htail : q.head = q.tail := by
    obtain ⟨t,hle,ht⟩ := h.tail_at
    have hlt := (List.getElem?_eq_some_iff.mp ht).1
    simp only [chain,List.length_cons,List.length_map] at hlt
    obtain rfl : t = q.dequeued := by omega
    exact Option.some.inj (h.head_at.symm.trans ht)
  simp [runDequeue,Dequeue.advance,hnext,← htail]

/-- With `tail` behind `head` the call does not go round its loop. -/
theorem Spine.runDequeue_behind (h : q.Spine) (hl : q.linked[q.dequeued]? = some l)
    (htail : q.head ≠ q.tail) (fuel : ℕ) :
    q.runDequeue (fuel + 8) .loadHead = some (q.taken l,some l.message,[q.head]) := by
  have hnext : (q.heap q.head).next = some l.node := by rw [h.next_head,hl,Option.map_some]
  have hmessage := h.messages l (List.mem_of_getElem? hl)
  simp [runDequeue,Dequeue.advance,hnext,htail,hmessage,taken,Queue.swingHead]

theorem Spine.runDequeue_some (h : q.Spine) (hl : q.linked[q.dequeued]? = some l) :
    ∃ r, q.runDequeue 13 .loadHead = some (r,some l.message,[q.head]) ∧ r.Spine ∧
      r.linked = q.linked ∧ r.dequeued = q.dequeued + 1 := by
  have hbehind : q.chain[q.dequeued + 1]? = some l.node := by rw [chain_succ,hl,Option.map_some]
  have htaken : ∀ q' : Queue, q'.Spine → q'.linked = q.linked → q'.dequeued = q.dequeued →
      q'.head = q.head → q'.head ≠ q'.tail → (q'.taken l).Spine := by
    intro q' hq' hlinked hdeq hhead hne
    obtain ⟨t,hle,ht⟩ := hq'.tail_at
    have hchain : q'.chain = q.chain := by rw [chain,hlinked,chain]
    have hlt : q'.dequeued ≠ t := by
      rintro rfl
      exact hne (Option.some.inj (hq'.head_at.symm.trans ht))
    have hnext : q'.chain[q'.dequeued + 1]? = some l.node := by rw [hdeq,hchain,hbehind]
    have hspine := hq'.swingHead hnext ⟨t,by omega,ht⟩
    exact ⟨hspine.chained,hspine.allocated,hspine.messages,hspine.head_at,hspine.tail_at⟩
  by_cases htail : q.head = q.tail
  · -- The first round only moves `tail` on.
    have hnext : (q.heap q.head).next = some l.node := by rw [h.next_head,hl,Option.map_some]
    have hround : q.runDequeue 13 .loadHead =
        (q.casTail q.head l.node).runDequeue 8 .loadHead := by
      simp [runDequeue,Dequeue.advance,hnext,← htail]
    have hhelped := h.casTail h.head_at hbehind
    have hne : (q.casTail q.head l.node).head ≠ (q.casTail q.head l.node).tail := by
      rw [Queue.casTail,if_pos htail.symm]
      rintro (heq : q.head = l.node)
      have := h.chained.index_unique h.head_at (heq ▸ hbehind)
      omega
    rw [hround,hhelped.runDequeue_behind (by simpa using hl) hne 0]
    refine ⟨_,by simp,htaken _ hhelped (by simp) (by simp) (by simp) hne,?_,?_⟩ <;>
      simp [taken,Queue.swingHead]
  · exact ⟨_,h.runDequeue_behind hl htail 5,htaken q h rfl rfl rfl htail,rfl,rfl⟩

/-! ## All calls -/

/-- The loop returns the messages that are left, in order, and frees their predecessors. -/
theorem Spine.dequeueAll_eq (h : q.Spine) (fuel : ℕ) (hfuel : q.linked.length < q.dequeued + fuel) :
    ∃ r, q.dequeueAll fuel = some (r,(q.linked.drop q.dequeued).map Link.message,
        (q.chain.drop q.dequeued).dropLast) ∧ q.chain.getLast? = some r.head := by
  have hlen : q.chain.length = q.linked.length + 1 := by simp [chain]
  have hle := h.dequeued_le
  induction fuel generalizing q with
  | zero => omega
  | succ fuel ih =>
    rw [dequeueAll]
    cases hl : q.linked[q.dequeued]? with
    | none =>
      have hempty : q.linked.length = q.dequeued := by
        have := List.getElem?_eq_none_iff.mp hl
        omega
      rw [h.runDequeue_empty hempty]
      have hlast : (q.chain.drop q.dequeued).length = 1 := by
        rw [List.length_drop]
        omega
      refine ⟨q,?_,?_⟩
      · rw [List.drop_of_length_le hempty.le,List.eq_nil_of_length_eq_zero
          (show (q.chain.drop q.dequeued).dropLast.length = 0 by simp [hlast])]
        rfl
      · rw [List.getLast?_eq_getElem?,hlen,Nat.add_sub_cancel,hempty,h.head_at]
    | some l =>
      obtain ⟨r,hrun,hspine,hlinked,hdeq⟩ := h.runDequeue_some hl
      have hlt := (List.getElem?_eq_some_iff.mp hl).1
      have hchain : r.chain = q.chain := by rw [chain,hlinked,chain]
      obtain ⟨t,ht,hlast⟩ := ih hspine (by rw [hlinked,hdeq]; omega) (by rw [hchain,hlinked,hlen])
        (by rw [hlinked,hdeq]; omega)
      rw [hlinked,hdeq,hchain] at ht
      refine ⟨t,?_,hchain ▸ hlast⟩
      have hmessages : q.linked.drop q.dequeued = l :: q.linked.drop (q.dequeued + 1) := by
        rw [List.drop_eq_getElem_cons hlt,(List.getElem?_eq_some_iff.mp hl).2]
      have hnodes : q.chain.drop q.dequeued = q.head :: q.chain.drop (q.dequeued + 1) := by
        have hhead := List.getElem?_eq_some_iff.mp h.head_at
        rw [List.drop_eq_getElem_cons hhead.1,hhead.2]
      have hne : q.chain.drop (q.dequeued + 1) ≠ [] := by
        rw [Ne,List.drop_eq_nil_iff]
        omega
      simp [hrun,ht,hmessages,hnodes,List.dropLast_cons_of_ne_nil hne]

theorem Spine.drop_eq (h : q.Spine) {fuel : ℕ} (hfuel : q.linked.length < q.dequeued + fuel) :
    q.drop fuel =
      some ((q.linked.drop q.dequeued).map Link.message,q.chain.drop q.dequeued) := by
  obtain ⟨r,hall,hlast⟩ := h.dequeueAll_eq fuel hfuel
  have hlt := (List.getElem?_eq_some_iff.mp h.head_at).1
  have hhead : (q.chain.drop q.dequeued).getLast? = some r.head := by
    rw [List.getLast?_drop,if_neg (by omega),hlast]
  rw [Queue.drop,hall,Option.map_some,List.dropLast_append_getLast? _ hhead]

end Queue

/-! ## What has been freed before -/

/-- The node that the running `dequeue` call will free. -/
def Dequeue.toFree : Dequeue → List Addr
  | .subCount head _ => [head]
  | .dropHead head _ => [head]
  | _ => []

namespace State

/-- The nodes in front of `head` have been freed in order, the last of them possibly not yet, and
whatever is allocated is linked or belongs to a call. -/
structure Accounted (s : State) : Prop where
  threads : s.Threads
  freed : s.retired.reverse ++ (s.consumer.map Dequeue.toFree).getD [] =
    s.queue.chain.take s.queue.dequeued
  allocated : ∀ a < s.queue.fresh, a ∈ s.queue.chain ∨
    ∃ i c, s.producers i = some c ∧ c.step.unlinked ∧ c.node = a

theorem accounted_new : Accounted new :=
  ⟨threads_new,rfl,fun a ha => .inl (by simp [new,Queue.new,Queue.chain] at ha ⊢; exact ha)⟩

theorem Accounted.startEnqueue {s : State} (h : s.Accounted) {i : ℕ} {m : WebSocketMessage}
    (hi : s.producers i = none) : (s.startEnqueue i m).Accounted where
  threads := h.threads.startEnqueue i m
  freed := h.freed
  allocated := by
    intro a ha
    obtain hlt | rfl := Nat.lt_succ_iff_lt_or_eq.mp (show a < s.queue.fresh + 1 from ha)
    · obtain hmem | ⟨j,c,hj,hun,hnode⟩ := h.allocated a hlt
      · exact .inl hmem
      · refine .inr ⟨j,c,?_,hun,hnode⟩
        have hne : j ≠ i := by
          rintro rfl
          simp [hi] at hj
        simpa [State.startEnqueue,hne] using hj
    · exact .inr ⟨i,⟨m,s.queue.fresh,.loadTail⟩,by simp [State.startEnqueue],rfl,rfl⟩

theorem take_chain_of_extends {q r : Queue} (hq : q.Spine) (hext : q.Extends r) :
    r.chain.take q.dequeued = q.chain.take q.dequeued := by
  obtain ⟨more,hmore⟩ := Queue.chain_isPrefix hext.linked
  have hlt := (List.getElem?_eq_some_iff.mp hq.head_at).1
  rw [← hmore,List.take_append_of_le_length hlt.le]

theorem Accounted.produce {s : State} (h : s.Accounted) {i : ℕ} {c : Enqueue}
    (hc : s.producers i = some c) :
    (s.produce i (c.advance s.queue i).1 (c.advance s.queue i).2).Accounted := by
  have hplaced := h.threads.placed i c hc
  have hg := h.threads.guarantee hc
  refine ⟨h.threads.produce hc hg,?_,?_⟩
  · show _ = List.take (c.advance s.queue i).1.dequeued _
    rw [hg.dequeued]
    exact h.freed.trans (take_chain_of_extends h.threads.spine hg.ext).symm
  · -- A node leaves its call only by being linked.
    have hown : (c.advance s.queue i).1.fresh = s.queue.fresh ∧ (c.step.unlinked →
        c.node ∈ (c.advance s.queue i).1.chain ∨
        ∃ d, (c.advance s.queue i).2 = some d ∧ d.step.unlinked ∧ d.node = c.node) := by
      obtain ⟨st,hadv,-,hst,-⟩ | ⟨tail,hstep,-,-,hadv⟩ |
        ⟨a,old,next,st,-,-,hadv,hun,-⟩ | ⟨hstep,hadv⟩ :=
          Enqueue.advance_cases h.threads.spine hplaced i <;> rw [hadv]
      · exact ⟨rfl,fun _ => .inr ⟨_,rfl,hst,rfl⟩⟩
      · refine ⟨rfl,fun _ => .inl ?_⟩
        rw [Queue.chain_link]
        simp
      · refine ⟨by rw [Queue.casTail_eq],fun hc => .inr ⟨_,rfl,?_,rfl⟩⟩
        simpa [Enqueue.goto,hun] using hc
      · refine ⟨rfl,fun hc => ?_⟩
        simp [hstep,EnqueueStep.unlinked] at hc
    intro a ha
    obtain hmem | ⟨j,d,hj,hun,rfl⟩ := h.allocated a (hown.1 ▸ ha)
    · exact .inl (hg.ext.mem hmem)
    · by_cases hij : j = i
      · subst hij
        obtain rfl : c = d := Option.some.inj (hc.symm.trans hj)
        obtain hlinked | ⟨d,hd,hdun,hnode⟩ := hown.2 hun
        · exact .inl hlinked
        · exact .inr ⟨j,d,by simpa [State.produce] using hd,hdun,hnode⟩
      · exact .inr ⟨j,d,by simpa [State.produce,hij] using hj,hun,rfl⟩

theorem Dequeue.toFree_eq_nil {q : Queue} {d : Dequeue} (hd : d.Placed q)
    (h : d.inHand = none) : d.toFree = [] := by
  cases d with
  | subCount head message =>
    obtain ⟨hsome,-⟩ := hd
    rw [Dequeue.inHand] at h
    simp [h] at hsome
  | dropHead head message =>
    obtain ⟨hsome,-⟩ := hd
    rw [Dequeue.inHand] at h
    simp [h] at hsome
  | _ => rfl

theorem Accounted.consume {s : State} (h : s.Accounted) {d : Dequeue} {r : Queue} {o : Outcome}
    (hd : s.consumer = some d) (hadv : d.advance s.queue = some (r,o)) :
    (s.consume r o).Accounted := by
  have hplaced := h.threads.consumer d hd
  have hthreads := h.threads.consume (Dequeue.guarantee h.threads.spine hplaced hadv)
  have hfreed := h.freed
  rw [hd,Option.map_some,Option.getD_some] at hfreed
  obtain ⟨e,rfl,rfl,he,hdhand,hehand,-⟩ | ⟨head,rfl,rfl,rfl⟩ |
    ⟨b,old,next,-,-,rfl,rfl,rfl⟩ | ⟨l,hl,-,rfl,rfl,rfl⟩ | ⟨head,m,rfl,rfl,rfl⟩ |
    ⟨head,m,rfl,rfl,rfl⟩ := Dequeue.advance_cases h.threads.spine hplaced hadv
  · refine ⟨hthreads,?_,h.allocated⟩
    rw [Dequeue.toFree_eq_nil hplaced hdhand] at hfreed
    simpa [State.consume,Dequeue.toFree_eq_nil he hehand] using hfreed
  · exact ⟨hthreads,hfreed,h.allocated⟩
  · refine ⟨hthreads,?_,?_⟩
    · simpa [State.consume,Dequeue.toFree,Queue.chain] using hfreed
    · rw [Queue.casTail_eq]
      exact h.allocated
  · refine ⟨hthreads,?_,h.allocated⟩
    show _ = List.take (s.queue.dequeued + 1) s.queue.chain
    rw [List.take_add_one,h.threads.spine.head_at,← hfreed]
    simp [State.consume,Dequeue.toFree]
  · exact ⟨hthreads,hfreed,h.allocated⟩
  · refine ⟨hthreads,?_,h.allocated⟩
    simpa [State.consume,Dequeue.toFree] using hfreed

theorem Accounted.step {s t : State} {e : Event} (h : s.Accounted)
    (hstep : State.step s e = some t) : t.Accounted := by
  obtain ⟨i,m,-,hi,rfl⟩ | ⟨i,c,-,hc,rfl⟩ | ⟨-,hd,rfl⟩ | ⟨d,r,o,-,hd,hadv,rfl⟩ := step_cases hstep
  · exact h.startEnqueue hi
  · exact h.produce hc
  · refine ⟨h.threads.step hstep,?_,h.allocated⟩
    simpa [hd,Dequeue.toFree] using h.freed
  · exact h.consume hd hadv

/-- After every run, dropping the queue returns the rest of the messages in order, and every node
that was ever allocated has been freed exactly once. -/
theorem drop_frees_once {events : List Event} {s : State} (h : run events = some s)
    (hidle : s.Idle) {fuel : ℕ} (hfuel : s.queue.linked.length < s.queue.dequeued + fuel) :
    ∃ messages freed, s.queue.drop fuel = some (messages,freed) ∧
      s.returned ++ messages = s.queue.linked.map Link.message ∧
      (s.retired ++ freed).Perm (List.range s.queue.fresh) := by
  have hist := history_run h
  have hacc : s.Accounted := Runs.exec_invariant (fun _ _ _ hstep hs => hs.step hstep) h
    accounted_new
  have hspine := hacc.threads.spine
  refine ⟨_,_,hspine.drop_eq hfuel,?_,?_⟩
  · have hdelivered := hist.delivered
    rw [inHand,hidle.2,Queue.channel_outputs] at hdelivered
    rw [show s.returned = _ from (List.append_nil _).symm.trans hdelivered,← List.map_append,
      List.take_append_drop]
  · have hfreed := hacc.freed
    rw [hidle.2,Option.map_none,Option.getD_none,List.append_nil] at hfreed
    have hchain : (s.retired ++ s.queue.chain.drop s.queue.dequeued).Perm s.queue.chain := by
      have hperm := (List.reverse_perm s.retired).symm.append_right
        (s.queue.chain.drop s.queue.dequeued)
      rwa [hfreed,List.take_append_drop] at hperm
    refine hchain.trans ?_
    rw [List.perm_ext_iff_of_nodup hspine.chained.nodup List.nodup_range]
    intro a
    rw [List.mem_range]
    refine ⟨hspine.allocated a,fun ha => ?_⟩
    obtain hmem | ⟨i,c,hc,-⟩ := hacc.allocated a ha
    · exact hmem
    · rw [hidle.1 i] at hc
      cases hc

/-- Two messages, one of them taken before the queue is dropped. -/
def halfTaken : List Event :=
  enqueueAlone 0 ⟨[65],0⟩ ++ enqueueAlone 1 ⟨[66],1⟩ ++ dequeueAlone

theorem drop_frees_once_halfTaken :
    ∃ s, run halfTaken = some s ∧ ∃ messages freed,
      s.queue.drop 2 = some (messages,freed) ∧
      s.returned ++ messages = s.queue.linked.map Link.message ∧
      (s.retired ++ freed).Perm (List.range s.queue.fresh) := by
  have hrun : run halfTaken = some _ := rfl
  refine ⟨_,hrun,drop_frees_once hrun ⟨fun i => ?_,rfl⟩ (by decide +kernel)⟩
  match i with
  | 0 => rfl
  | 1 => rfl
  | i + 2 => rfl

end State
end LockFreeQueue
end UProtocols
