import UProtocols.LockFreeQueueFifo

/-!
# Dropped nodes of the lock-free queue

`dequeue` drops the old head as soon as it has swung `head`. A producer that loaded
that node as `tail` before may still be about to access it. The retired nodes are the
chain before `head`, and `tail` is never among them, so only such a producer can reach
one.
-/

namespace UProtocols
namespace LockFreeQueue

/-- The node whose `next` the next operation of the call loads or compare-exchanges. -/
def Enqueue.touches (c : Enqueue) : Option Addr :=
  match c.step with
  | .loadNext tail => some tail
  | .linkNext tail => some tail
  | _ => none

/-- The node that the next operation of the call frees. -/
def Dequeue.drops : Dequeue → Option Addr
  | .dropHead head _ => some head
  | _ => none

theorem Enqueue.unlinked_of_touches {c : Enqueue} {a : Addr} (h : c.touches = some a) :
    c.step.unlinked := by
  rw [touches] at h
  cases hstep : c.step with
  | loadNext tail => rfl
  | linkNext tail => rfl
  | _ => simp [hstep] at h

namespace State

/-- The node that the step `e` of an `enqueue` call accesses. -/
def touched (s : State) : Event → Option Addr
  | .producer i => (s.producers i).bind Enqueue.touches
  | _ => none

/-- The step accesses no retired node. -/
def TouchesLive (s : State) (e : Event) : Prop := ∀ a ∈ s.touched e, a ∉ s.retired

instance (s : State) (e : Event) : Decidable (s.TouchesLive e) :=
  inferInstanceAs (Decidable (∀ a ∈ s.touched e, a ∉ s.retired))

/-- The node that the step `e` drops. -/
def dropped (s : State) : Event → Option Addr
  | .consumer => s.consumer.bind Dequeue.drops
  | _ => none

/-- When the consumer drops a node, no producer is about to access it. -/
def DropClear (s : State) (e : Event) : Prop :=
  ∀ head ∈ s.dropped e, ∀ i, (s.producers i).bind Enqueue.touches ≠ some head

structure Reclaimed (s : State) : Prop where
  history : s.History
  before_head : ∀ a ∈ s.retired, ∃ k, k < s.queue.dequeued ∧ s.queue.chain[k]? = some a
  live : ∀ i c a, s.producers i = some c → c.touches = some a → a ∉ s.retired

theorem reclaimed_new : Reclaimed new := ⟨history_new,nofun,nofun⟩

theorem Reclaimed.tail_live {s : State} (h : s.Reclaimed) : s.queue.tail ∉ s.retired := by
  intro hmem
  obtain ⟨k,hk,hat⟩ := h.before_head _ hmem
  obtain ⟨t,hle,ht⟩ := h.history.threads.spine.tail_at
  have hkt : k = t := h.history.threads.spine.chained.index_unique hat ht
  omega

/-- A producer takes hold of no other node than the current `tail`. -/
theorem Reclaimed.live_advance {s : State} (h : s.Reclaimed) {i : ℕ} {c d : Enqueue} {a : Addr}
    (hc : s.producers i = some c) (hd : (c.advance s.queue i).2 = some d)
    (ha : d.touches = some a) : a ∉ s.retired := by
  have hthreads := h.history.threads
  obtain ⟨st,hadv,-,-,-,htail⟩ | ⟨tail,-,-,-,hadv⟩ | ⟨b,old,next,st,-,-,hadv,-,hst⟩ | ⟨-,hadv⟩ :=
    Enqueue.advance_cases hthreads.spine (hthreads.placed i c hc) i
  · rw [hadv] at hd
    cases hd
    have htouch : st = .loadNext a ∨ st = .linkNext a := by
      cases st <;> simp_all [Enqueue.touches,Enqueue.goto]
    rw [htail a htouch]
    exact h.tail_live
  · rw [hadv] at hd
    cases hd
    cases ha
  · rw [hadv] at hd
    cases hd
    obtain rfl | rfl := hst
    · cases ha
    · cases ha
  · rw [hadv] at hd
    cases hd

theorem Reclaimed.startEnqueue {s : State} (h : s.Reclaimed) {i : ℕ}
    (hi : s.producers i = none) (m : WebSocketMessage) : (s.startEnqueue i m).Reclaimed where
  history := h.history.startEnqueue hi m
  before_head := h.before_head
  live := by
    intro j c a hj ha
    obtain ⟨-,hc⟩ | ⟨-,hj'⟩ := update_eq_some hj
    · cases hc
      cases ha
    · exact h.live j c a hj' ha

theorem Reclaimed.produce {s : State} (h : s.Reclaimed) {i : ℕ} {c : Enqueue}
    (hc : s.producers i = some c) :
    (s.produce i (c.advance s.queue i).1 (c.advance s.queue i).2).Reclaimed where
  history := h.history.produce hc
  before_head := by
    have hg := h.history.threads.guarantee hc
    intro a ha
    obtain ⟨k,hk,hat⟩ := h.before_head a ha
    exact ⟨k,hg.dequeued.symm ▸ hk,hg.ext.at hat⟩
  live := by
    intro j d a hj ha
    obtain ⟨-,hd⟩ | ⟨-,hj'⟩ := update_eq_some hj
    · exact h.live_advance hc hd ha
    · exact h.live j d a hj' ha

/-- The consumer retires the node before the current head, which `DropClear` protects. -/
theorem Reclaimed.consume {s : State} (h : s.Reclaimed) {d : Dequeue} {r : Queue} {o : Outcome}
    (hd : s.consumer = some d) (hadv : d.advance s.queue = some (r,o))
    (hclear : s.DropClear .consumer) : (s.consume r o).Reclaimed := by
  have hthreads := h.history.threads
  have hplaced := hthreads.consumer d hd
  have hhistory := h.history.consume hd hadv
  obtain ⟨e,rfl,rfl,-⟩ | ⟨head,-,rfl,rfl⟩ | ⟨b,old,next,-,-,-,rfl,rfl⟩ | ⟨l,-,-,-,rfl,rfl⟩ |
    ⟨head,m,-,rfl,rfl⟩ | ⟨head,m,rfl,rfl,rfl⟩ :=
    Dequeue.advance_cases hthreads.spine hplaced hadv
  · exact ⟨hhistory,h.before_head,h.live⟩
  · exact ⟨hhistory,h.before_head,h.live⟩
  · refine ⟨hhistory,?_,h.live⟩
    simpa [State.consume,Queue.chain] using h.before_head
  · refine ⟨hhistory,?_,h.live⟩
    intro a ha
    obtain ⟨k,hk,hat⟩ := h.before_head a ha
    exact ⟨k,Nat.lt_succ_of_lt hk,hat⟩
  · exact ⟨hhistory,h.before_head,h.live⟩
  · obtain ⟨-,k,hk,hat⟩ := hplaced
    refine ⟨hhistory,?_,?_⟩
    · intro a ha
      obtain rfl | ha' := List.mem_cons.mp ha
      · have hlt : k < s.queue.dequeued := by omega
        exact ⟨k,hlt,hat⟩
      · exact h.before_head a ha'
    · intro i c a hi ha hmem
      obtain rfl | hmem' := List.mem_cons.mp hmem
      · have hcall : s.producers i = some c := hi
        have hne := hclear a (by rw [dropped,hd]; rfl) i
        rw [hcall] at hne
        exact hne ha
      · exact h.live i c a hi ha hmem'

theorem Reclaimed.step {s t : State} {e : Event} (h : s.Reclaimed)
    (hstep : State.step s e = some t) (hclear : s.DropClear e) : t.Reclaimed := by
  obtain ⟨i,m,-,hi,rfl⟩ | ⟨i,c,-,hc,rfl⟩ | ⟨-,-,rfl⟩ | ⟨d,r,o,rfl,hd,hadv,rfl⟩ := step_cases hstep
  · exact h.startEnqueue hi m
  · exact h.produce hc
  · exact ⟨h.history.step hstep,h.before_head,h.live⟩
  · exact h.consume hd hadv hclear

theorem Reclaimed.touchesLive {s : State} (h : s.Reclaimed) (e : Event) : s.TouchesLive e := by
  intro a ha
  cases e with
  | producer i =>
    obtain ⟨c,hc,htouch⟩ := Option.bind_eq_some_iff.mp ha
    exact h.live i c a hc htouch
  | startEnqueue i m => cases ha
  | startDequeue => cases ha
  | consumer => cases ha

/-- In every run in which each drop is clear, no `enqueue` accesses a retired node. -/
theorem touchesLive_run {events : List Event} (hclear : Runs.Along step DropClear new events) :
    Runs.Along step TouchesLive new events :=
  Runs.Along.of_invariant (fun _ _ _ hstep hp hs => hs.step hstep hp)
    (fun _ e hs => hs.touchesLive e) hclear reclaimed_new

/-- The condition is exact: after any other drop some producer's next operation
accesses a retired node. -/
theorem touches_retired_of_not_clear {s t : State} (hstep : step s .consumer = some t)
    (hnot : ¬ s.DropClear .consumer) : ∃ i, ¬ t.TouchesLive (.producer i) := by
  simp only [DropClear,not_forall,not_not] at hnot
  obtain ⟨head,hdrop,i,hi⟩ := hnot
  obtain ⟨d,hd,hhead⟩ := Option.bind_eq_some_iff.mp hdrop
  obtain ⟨message,rfl⟩ : ∃ message, d = .dropHead head message := by
    cases d <;> simp_all [Dequeue.drops]
  have ht : t = s.consume s.queue (.drops head message) := by
    simpa [step,hd,Dequeue.advance,eq_comm] using hstep
  subst ht
  exact ⟨i,fun hlive => hlive head hi List.mem_cons_self⟩

/-- Only the producers that have started a call need to be looked at. -/
theorem History.dropClear_iff {s : State} (h : s.History) (e : Event) :
    s.DropClear e ↔ ∀ head ∈ s.dropped e, ∀ a ∈ s.started,
      (s.producers a.1).bind Enqueue.touches ≠ some head := by
  constructor
  · intro hclear head hdrop a _
    exact hclear head hdrop a.1
  · intro hclear head hdrop i htouch
    obtain ⟨c,hc,hhead⟩ := Option.bind_eq_some_iff.mp htouch
    have hun := Enqueue.unlinked_of_touches hhead
    have hord := h.ordered i
    have hmem : c.message ∈ s.startedBy i := by
      rw [hord,hc,pending,if_pos hun]
      simp
    obtain ⟨a,ha,-⟩ := List.mem_map.mp hmem
    obtain ⟨hstarted,hi⟩ := List.mem_filter.mp ha
    have hai : a.1 = i := by simpa using hi
    exact hclear head hdrop a hstarted (hai ▸ htouch)

/-- One producer's whole `enqueue` of the message `m`, undisturbed. -/
def enqueueAlone (i : ℕ) (m : WebSocketMessage) : List Event :=
  .startEnqueue i m :: List.replicate 6 (.producer i)

/-- One `dequeue` of a message, undisturbed. -/
def dequeueAlone : List Event := .startDequeue :: List.replicate 8 .consumer

/-- A producer that starts after the drop of the dummy node. -/
def lateProducer : List Event :=
  enqueueAlone 1 ⟨[66],1⟩ ++ dequeueAlone ++ enqueueAlone 0 ⟨[65],0⟩

theorem dropClear_lateProducer : Runs.Along step DropClear new lateProducer := by
  have hsome : (run lateProducer).isSome := by decide +kernel
  obtain ⟨s,hs⟩ := Option.isSome_iff_exists.mp hsome
  have hiff := Runs.along_congr (G := fun _ => True) (fun _ _ _ _ _ => trivial)
    (fun _ _ _ hstep _ hist => hist.step hstep) (fun _ e _ _ _ hist => hist.dropClear_iff e)
    hs trivial history_new
  exact hiff.mpr (by decide +kernel)

theorem touchesLive_run_lateProducer :
    Runs.Along step DropClear new lateProducer ∧ Runs.Along step TouchesLive new lateProducer :=
  ⟨dropClear_lateProducer,touchesLive_run dropClear_lateProducer⟩

/-- A producer that has loaded `tail` and stalls while the dummy node is dropped. -/
def stalledProducer : List Event :=
  [.startEnqueue 0 ⟨[65],0⟩,.producer 0] ++ enqueueAlone 1 ⟨[66],1⟩ ++ dequeueAlone ++
    [.producer 0]

theorem stalled_touches_retired :
    (run stalledProducer).isSome ∧ ¬ Runs.Along step TouchesLive new stalledProducer := by
  decide +kernel

end State
end LockFreeQueue
end UProtocols
