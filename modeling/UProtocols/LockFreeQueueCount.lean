import Mathlib.Algebra.Ring.Nat
import Mathlib.Data.Finset.Card
import UProtocols.LockFreeQueueFifo

/-!
# The length of the lock-free queue

`count` is updated after the fact on both sides: `enqueue` adds after its link and
`dequeue` subtracts after its swing of `head`. The books of the queue are therefore
`count`, the calls that have linked and not yet added, and the message that has been
taken and not yet subtracted. They always balance modulo `2^64`; they balance as numbers
as long as the consumer subtracts nothing that nobody has added.
-/

namespace UProtocols
namespace LockFreeQueue

/-- What the books of a queue record: `count`, and how many messages were linked, are not
yet added, were taken, and are taken and not yet subtracted. -/
structure Books where
  count : UInt64
  linked : ℕ
  uncounted : ℕ
  dequeued : ℕ
  subtracting : ℕ
  deriving DecidableEq

namespace Books

inductive Step : Books → Books → Prop
  | link (b : Books) : Step b {b with linked := b.linked + 1, uncounted := b.uncounted + 1}
  | add (b : Books) (k : ℕ) : b.uncounted = k + 1 →
      Step b {b with count := b.count + 1, uncounted := k}
  | swing (b : Books) : b.subtracting = 0 →
      Step b {b with dequeued := b.dequeued + 1, subtracting := 1}
  | subtract (b : Books) : b.subtracting = 1 →
      Step b {b with count := b.count - 1, subtracting := 0}

/-- The books balance modulo `2^64`. -/
def Balanced (b : Books) : Prop :=
  b.count + UInt64.ofNat (b.uncounted + b.dequeued) = UInt64.ofNat (b.linked + b.subtracting)

/-- Nothing was subtracted that nobody added. -/
def Solvent (b : Books) : Prop := b.uncounted + b.dequeued ≤ b.linked + b.subtracting

variable {b c : Books}

theorem Balanced.step (h : b.Balanced) (hstep : Step b c) : c.Balanced := by
  rw [Balanced] at h ⊢
  cases hstep with
  | link =>
    simp only [UInt64.ofNat_add] at h ⊢
    grind
  | add k hk =>
    rw [hk] at h
    simp only [UInt64.ofNat_add] at h ⊢
    grind
  | swing hsub =>
    rw [hsub] at h
    simp only [UInt64.ofNat_add] at h ⊢
    grind
  | subtract hsub =>
    rw [hsub] at h
    simp only [UInt64.ofNat_add] at h ⊢
    grind

/-- Only a subtraction can make the books insolvent. -/
theorem Solvent.step (h : b.Solvent) (hstep : Step b c)
    (hsub : b.subtracting = 1 → c.subtracting = 0 → b.uncounted + b.dequeued ≤ b.linked) :
    c.Solvent := by
  rw [Solvent] at h ⊢
  cases hstep with
  | link =>
    show b.uncounted + 1 + b.dequeued ≤ b.linked + 1 + b.subtracting
    omega
  | add k hk =>
    show k + b.dequeued ≤ b.linked + b.subtracting
    omega
  | swing hzero =>
    show b.uncounted + (b.dequeued + 1) ≤ b.linked + 1
    omega
  | subtract hone => exact hsub hone rfl

/-- Solvent books show what `count` stands for. -/
theorem Balanced.count_eq (h : b.Balanced) (hs : b.Solvent) :
    b.count = UInt64.ofNat (b.linked + b.subtracting - (b.uncounted + b.dequeued)) := by
  obtain ⟨k,hk⟩ := Nat.exists_eq_add_of_le hs
  rw [Balanced,hk,UInt64.ofNat_add _ k] at h
  rw [hk,Nat.add_sub_cancel_left]
  grind

theorem Balanced.count_le (h : b.Balanced) (hs : b.Solvent) :
    b.count.toNat ≤ b.linked + b.subtracting - (b.uncounted + b.dequeued) := by
  rw [h.count_eq hs,UInt64.toNat_ofNat']
  exact Nat.mod_le _ _

/-- A subtraction that makes the books insolvent wraps `count` around. -/
theorem Balanced.count_of_insolvent (h : b.Balanced)
    (hdebt : b.uncounted + b.dequeued = b.linked + b.subtracting + 1) :
    b.count.toNat = 2^64 - 1 := by
  rw [Balanced,hdebt,UInt64.ofNat_add _ 1] at h
  have hcount : b.count = 0 - 1 := by grind
  rw [hcount]
  rfl

end Books

/-- The call has linked its node and has not added it to `count` yet. -/
def Enqueue.uncounted (c : Enqueue) : Bool := !c.step.unlinked

/-- The call has swung `head` and has not subtracted from `count` yet. -/
def Dequeue.subtracting : Dequeue → Bool
  | .subCount _ _ => true
  | _ => false

namespace State

/-- The producers that have ever started a call. -/
def callers (s : State) : Finset ℕ := (s.started.map Prod.fst).toFinset

def uncounted (s : State) : Finset ℕ :=
  s.callers.filter fun i => (s.producers i).any Enqueue.uncounted

def subtracting (s : State) : Bool := s.consumer.any Dequeue.subtracting

def books (s : State) : Books where
  count := s.queue.count
  linked := s.queue.linked.length
  uncounted := s.uncounted.card
  dequeued := s.queue.dequeued
  subtracting := s.subtracting.toNat

theorem mem_uncounted {s : State} {i : ℕ} :
    i ∈ s.uncounted ↔ i ∈ s.callers ∧ (s.producers i).any Enqueue.uncounted := by
  simp [uncounted]

theorem card_eq_erase {S : Finset ℕ} {i : ℕ} {b : Bool} (h : i ∈ S ↔ b) :
    S.card = (S.erase i).card + b.toNat := by
  cases b with
  | false =>
    have hnot : i ∉ S := by simpa using h
    rw [Finset.erase_eq_of_notMem hnot]
    rfl
  | true =>
    have hmem : i ∈ S := by simpa using h
    exact (Finset.card_erase_add_one hmem).symm

/-- A step of one producer changes the number of uncounted calls by its own call only. -/
theorem card_uncounted_produce {s : State} {i : ℕ} {c : Enqueue} (hc : s.producers i = some c)
    (hi : i ∈ s.callers) (q : Queue) (c' : Option Enqueue) :
    (s.produce i q c').uncounted.card + c.uncounted.toNat =
      s.uncounted.card + (c'.any Enqueue.uncounted).toNat := by
  have hcallers : (s.produce i q c').callers = s.callers := rfl
  have hcall : (s.produce i q c').producers = Function.update s.producers i c' := rfl
  have hmem : i ∈ s.uncounted ↔ c.uncounted := by simp [mem_uncounted,hi,hc]
  have hmem' : i ∈ (s.produce i q c').uncounted ↔ c'.any Enqueue.uncounted := by
    simp [mem_uncounted,hcallers,hcall,hi]
  have herase : (s.produce i q c').uncounted.erase i = s.uncounted.erase i := by
    ext j
    by_cases hji : j = i
    · simp [hji]
    · simp [mem_uncounted,hcallers,hcall,hji]
  rw [card_eq_erase hmem,card_eq_erase hmem',herase]
  omega

theorem uncounted_startEnqueue {s : State} {i : ℕ} (hi : s.producers i = none)
    (m : WebSocketMessage) : (s.startEnqueue i m).uncounted = s.uncounted := by
  ext j
  by_cases hji : j = i
  · subst hji
    simp [mem_uncounted,startEnqueue,hi,Enqueue.uncounted,EnqueueStep.unlinked]
  · simp [mem_uncounted,startEnqueue,callers,hji]

end State

/-- What an operation of `enqueue` does to the books: nothing, a link, or an addition. -/
theorem Enqueue.advance_books {q : Queue} {c : Enqueue} (hq : q.Spine) (hc : c.Placed q) (i : ℕ) :
    ((c.advance q i).1.count = q.count ∧ (c.advance q i).1.linked.length = q.linked.length ∧
      (c.advance q i).2.any uncounted = c.uncounted) ∨
    ((c.advance q i).1.count = q.count ∧
      (c.advance q i).1.linked.length = q.linked.length + 1 ∧
      c.uncounted = false ∧ (c.advance q i).2.any uncounted = true) ∨
    ((c.advance q i).1.count = q.count + 1 ∧
      (c.advance q i).1.linked.length = q.linked.length ∧
      c.uncounted = true ∧ (c.advance q i).2.any uncounted = false) := by
  obtain ⟨st,hadv,hun,hst,-⟩ | ⟨tail,hstep,-,-,hadv⟩ |
    ⟨a,old,next,st,-,-,hadv,hun,-⟩ | ⟨hstep,hadv⟩ := advance_cases hq hc i
  · left
    simp [hadv,uncounted,goto,hun,hst]
  · right
    left
    simp [hadv,uncounted,goto,hstep,EnqueueStep.unlinked,Queue.link]
  · left
    have hcount : (q.casTail old next).count = q.count := by rw [Queue.casTail_eq]
    simp [hadv,uncounted,goto,hun,hcount]
  · right
    right
    simp [hadv,uncounted,hstep,EnqueueStep.unlinked]

/-- A call with nothing in hand is not about to subtract. -/
theorem Dequeue.not_subtracting {q : Queue} {d : Dequeue} (hd : d.Placed q)
    (hhand : d.inHand = none) : d.subtracting = false := by
  cases d with
  | subCount head m =>
    have hm := hd.1
    rw [show m = none from hhand] at hm
    cases hm
  | _ => rfl

namespace State

/-- Whoever is in a call has started one. -/
def Known (s : State) : Prop := ∀ i c, s.producers i = some c → i ∈ s.callers

theorem Known.step {s t : State} {e : Event} (h : s.Known) (hstep : State.step s e = some t) :
    t.Known := by
  obtain ⟨i,m,-,hi,rfl⟩ | ⟨i,c,-,hc,rfl⟩ | ⟨-,hd,rfl⟩ | ⟨d,r,o,-,hd,hadv,rfl⟩ := step_cases hstep
  · intro j c hj
    have hcallers : (s.startEnqueue i m).callers = insert i s.callers := by
      ext k
      simp [callers,State.startEnqueue]
    rw [hcallers,Finset.mem_insert]
    obtain ⟨hji,-⟩ | ⟨-,hj'⟩ := update_eq_some hj
    · exact .inl hji
    · exact .inr (h j c hj')
  · intro j d hj
    obtain ⟨rfl,-⟩ | ⟨-,hj'⟩ := update_eq_some hj
    · exact h j c hc
    · exact h j d hj'
  · exact h
  · cases o <;> exact h

theorem books_produce {s : State} (h : s.Threads) (hk : s.Known) {i : ℕ} {c : Enqueue}
    (hc : s.producers i = some c) :
    Relation.ReflGen Books.Step s.books
      (s.produce i (c.advance s.queue i).1 (c.advance s.queue i).2).books := by
  have hdeq := (h.guarantee hc).dequeued
  have hcard := card_uncounted_produce hc (hk i c hc) (c.advance s.queue i).1
    (c.advance s.queue i).2
  have hbooks : (s.produce i (c.advance s.queue i).1 (c.advance s.queue i).2).books =
      ⟨(c.advance s.queue i).1.count,(c.advance s.queue i).1.linked.length,
        (s.produce i (c.advance s.queue i).1 (c.advance s.queue i).2).uncounted.card,
        s.queue.dequeued,s.subtracting.toNat⟩ := by
    rw [← hdeq]
    rfl
  rw [hbooks]
  obtain ⟨hcount,hlen,hun⟩ | ⟨hcount,hlen,hun,hun'⟩ | ⟨hcount,hlen,hun,hun'⟩ :=
    Enqueue.advance_books h.spine (h.placed i c hc) i
  · rw [hun,Nat.add_right_cancel_iff] at hcard
    rw [hcard,hcount,hlen]
    exact .refl
  · rw [hun,hun',Bool.toNat_false,Bool.toNat_true,Nat.add_zero] at hcard
    rw [hcard,hcount,hlen]
    exact .single (.link s.books)
  · rw [hun,hun',Bool.toNat_false,Bool.toNat_true] at hcard
    rw [hcount,hlen]
    exact .single (.add s.books _ hcard.symm)

theorem uncounted_consume (s : State) (q : Queue) (o : Outcome) :
    (s.consume q o).uncounted = s.uncounted := by
  cases o <;> rfl

theorem books_consume {s : State} (h : s.Threads) {d : Dequeue} {r : Queue} {o : Outcome}
    (hd : s.consumer = some d) (hadv : d.advance s.queue = some (r,o)) :
    Relation.ReflGen Books.Step s.books (s.consume r o).books := by
  have hbooks : s.books = ⟨s.queue.count,s.queue.linked.length,s.uncounted.card,
      s.queue.dequeued,d.subtracting.toNat⟩ := by
    simp only [books,subtracting,hd,Option.any_some]
  rw [hbooks,books,uncounted_consume]
  have hplaced := h.consumer d hd
  obtain ⟨e,rfl,rfl,hplaced',hhand,hhand',-⟩ | ⟨head,rfl,rfl,rfl⟩ |
    ⟨b,old,next,-,-,rfl,rfl,rfl⟩ | ⟨l,hl,-,rfl,rfl,rfl⟩ | ⟨head,m,rfl,rfl,rfl⟩ |
    ⟨head,m,rfl,rfl,rfl⟩ := Dequeue.advance_cases h.spine hplaced hadv
  · rw [Dequeue.not_subtracting hplaced hhand]
    simp only [State.consume,subtracting,Option.any_some,
      Dequeue.not_subtracting hplaced' hhand']
    exact .refl
  · exact .refl
  · have hcount : (s.queue.casTail old next).count = s.queue.count := by rw [Queue.casTail_eq]
    simp only [State.consume,subtracting,Option.any_some,hcount,Queue.casTail_linked,
      Queue.casTail_dequeued]
    exact .refl
  · exact .single (.swing _ rfl)
  · exact .single (.subtract _ rfl)
  · exact .refl

/-- Every step of the queue is at most one entry in its books. -/
theorem step_books {s t : State} {e : Event} (h : s.Threads) (hk : s.Known)
    (hstep : step s e = some t) : Relation.ReflGen Books.Step s.books t.books := by
  obtain ⟨i,m,-,hi,rfl⟩ | ⟨i,c,-,hc,rfl⟩ | ⟨-,hd,rfl⟩ | ⟨d,r,o,-,hd,hadv,rfl⟩ := step_cases hstep
  · have hbooks : (s.startEnqueue i m).books = s.books := by
      simp only [books,uncounted_startEnqueue hi]
      rfl
    rw [hbooks]
  · exact books_produce h hk hc
  · have hbooks : ({s with consumer := some .loadHead} : State).books = s.books := by
      simp only [books,subtracting,hd]
      rfl
    rw [hbooks]
  · exact books_consume h hd hadv

/-- The books of a state with its threads in place. -/
structure Ledger (s : State) : Prop where
  history : s.History
  known : s.Known
  balanced : s.books.Balanced

theorem ledger_new : Ledger new := ⟨history_new,nofun,rfl⟩

theorem Ledger.step {s t : State} {e : Event} (h : s.Ledger) (hstep : State.step s e = some t) :
    t.Ledger := by
  refine ⟨h.history.step hstep,h.known.step hstep,?_⟩
  obtain heq | hentry := (Relation.reflGen_iff _ _ _).mp
    (step_books h.history.threads h.known hstep)
  · rw [heq]
    exact h.balanced
  · exact h.balanced.step hentry

theorem ledger_run {events : List Event} {s : State} (h : run events = some s) : s.Ledger :=
  Runs.exec_invariant (fun _ _ _ hstep hs => hs.step hstep) h ledger_new

/-- When the consumer subtracts, at most the messages still in the queue are uncounted:
the message in its hand, or another one taken before, has been added. -/
def Subtractable (s : State) (e : Event) : Prop :=
  e = .consumer → s.subtracting → s.uncounted.card ≤ s.queue.linked.length - s.queue.dequeued

instance (s : State) (e : Event) : Decidable (s.Subtractable e) :=
  inferInstanceAs (Decidable (_ → _ → _))

/-- Only the consumer subtracts. -/
theorem subtracting_step {s t : State} {e : Event} (hstep : step s e = some t)
    (he : e ≠ .consumer) : t.subtracting = s.subtracting := by
  obtain ⟨i,m,-,-,rfl⟩ | ⟨i,c,-,-,rfl⟩ | ⟨-,hd,rfl⟩ | ⟨d,r,o,rfl,-⟩ := step_cases hstep
  · rfl
  · rfl
  · simp only [subtracting,hd]
    rfl
  · exact absurd rfl he

theorem Ledger.solvent_step {s t : State} {e : Event} (h : s.Ledger)
    (hstep : State.step s e = some t) (hsub : s.Subtractable e) (hs : s.books.Solvent) :
    t.books.Solvent := by
  obtain heq | hentry := (Relation.reflGen_iff _ _ _).mp
    (step_books h.history.threads h.known hstep)
  · rw [heq]
    exact hs
  · apply hs.step hentry
    intro hone hzero
    have hdeq := h.history.threads.spine.dequeued_le
    have hcard : s.uncounted.card ≤ s.queue.linked.length - s.queue.dequeued := by
      by_cases he : e = .consumer
      · exact hsub he (Bool.toNat_eq_one.mp hone)
      · have heq := subtracting_step hstep he
        simp only [books] at hone hzero
        rw [heq,hone] at hzero
        cases hzero
    show s.uncounted.card + s.queue.dequeued ≤ s.queue.linked.length
    omega

/-- `len` counts no message that is not in the queue. The message that a running `dequeue`
has taken and not yet subtracted is on its way out: it is not returned, but `head` has
passed it. -/
structure LenBounded (s : State) : Prop where
  le_unreturned : s.queue.len.toNat ≤ s.queue.linked.length - s.returned.length
  le_undequeued : s.subtracting = false →
    s.queue.len.toNat ≤ s.queue.linked.length - s.queue.dequeued

/-- No operation is in progress. -/
def Idle (s : State) : Prop := (∀ i, s.producers i = none) ∧ s.consumer = none

theorem History.dequeued_eq {s : State} (h : s.History) :
    s.queue.dequeued = s.returned.length + s.inHand.length := by
  have hle := h.threads.spine.dequeued_le
  have hlen := congrArg List.length h.delivered
  rw [Queue.channel_outputs,List.length_append,List.length_map,List.length_take] at hlen
  omega

/-- The message that is still to be subtracted is in the consumer's hand. -/
theorem History.subtracting_le {s : State} (h : s.History) :
    s.subtracting.toNat ≤ s.inHand.length := by
  cases hd : s.consumer with
  | none => simp [subtracting,hd]
  | some d =>
    cases hsub : d.subtracting with
    | false => simp [subtracting,hd,hsub]
    | true =>
      cases hhand : d.inHand with
      | none =>
        have hnot := Dequeue.not_subtracting (h.threads.consumer d hd) hhand
        rw [hsub] at hnot
        cases hnot
      | some m => simp [subtracting,inHand,hd,hsub,hhand]

theorem Ledger.lenBounded {s : State} (h : s.Ledger) (hs : s.books.Solvent) : s.LenBounded := by
  have hle : s.queue.len.toNat ≤ s.queue.linked.length + s.subtracting.toNat -
      (s.uncounted.card + s.queue.dequeued) := h.balanced.count_le hs
  have hdeq := h.history.dequeued_eq
  have hsub := h.history.subtracting_le
  refine ⟨by omega,?_⟩
  intro hnot
  rw [hnot,Bool.toNat_false] at hle
  omega

theorem Ledger.len_idle {s : State} (h : s.Ledger) (hidle : s.Idle) :
    s.queue.len.toNat = (s.queue.linked.length - s.returned.length) % 2^64 := by
  obtain ⟨hproducers,hconsumer⟩ := hidle
  have huncounted : s.uncounted = ∅ := by
    ext i
    simp [mem_uncounted,hproducers]
  have hdeq := h.history.dequeued_eq
  rw [inHand,hconsumer] at hdeq
  have hle := h.history.threads.spine.dequeued_le
  have hbooks : s.books = ⟨s.queue.count,s.queue.linked.length,0,s.returned.length,0⟩ := by
    simp only [books,huncounted,subtracting,hconsumer]
    rw [hdeq]
    rfl
  have hcount := h.balanced.count_eq (b := s.books) (by
    rw [hbooks,Books.Solvent]
    show 0 + s.returned.length ≤ s.queue.linked.length + 0
    omega)
  rw [hbooks,Nat.add_zero,Nat.zero_add] at hcount
  show s.queue.count.toNat = _
  rw [show s.queue.count = _ from hcount,UInt64.toNat_ofNat']

/-- In every run whose subtractions are covered, `len` is bounded by the messages in the
queue; and in every run it is their number when nothing is in progress. -/
theorem len_run {events : List Event} {s : State} (h : run events = some s) :
    (Runs.Along step Subtractable new events → s.LenBounded) ∧
      (s.Idle →
        s.queue.len.toNat = (s.queue.linked.length - s.returned.length) % 2^64) := by
  refine ⟨?_,(ledger_run h).len_idle⟩
  intro hsub
  have hinv := Runs.exec_invariant_of_along (I := fun s => s.Ledger ∧ s.books.Solvent)
    (fun _ _ _ hstep hp hs => ⟨hs.1.step hstep,hs.1.solvent_step hstep hp hs.2⟩)
    h hsub ⟨ledger_new,Nat.zero_le _⟩
  exact hinv.1.lenBounded hinv.2

/-- The condition is exact: any other subtraction wraps `count` around. -/
theorem Ledger.len_of_not_subtractable {s t : State} (h : s.Ledger) (hs : s.books.Solvent)
    (hstep : State.step s .consumer = some t) (hnot : ¬ s.Subtractable .consumer) :
    t.queue.len.toNat = 2^64 - 1 := by
  simp only [Subtractable,forall_const,Classical.not_imp] at hnot
  obtain ⟨hsub,hcard⟩ := hnot
  obtain ⟨head,m,hd⟩ : ∃ head m, s.consumer = some (.subCount head m) := by
    cases hd : s.consumer with
    | none => simp [subtracting,hd] at hsub
    | some d =>
      cases d with
      | subCount head m => exact ⟨head,m,rfl⟩
      | _ => simp [subtracting,hd,Dequeue.subtracting] at hsub
  have ht : t = s.consume {s.queue with count := s.queue.count - 1}
      (.goesOn (.dropHead head m)) := by
    simpa [State.step,hd,Dequeue.advance,eq_comm] using hstep
  have hbal := (h.step hstep).balanced
  rw [Books.Solvent] at hs
  simp only [books,hsub] at hs
  subst ht
  apply hbal.count_of_insolvent
  show s.uncounted.card + s.queue.dequeued = s.queue.linked.length + 0 + 1
  rw [Bool.toNat_true] at hs
  omega

/-- The consumer takes the message of a producer that has linked it and not yet added. -/
def overtaken : List Event :=
  Event.startEnqueue 0 ⟨[65],0⟩ :: List.replicate 4 (Event.producer 0) ++
    (Event.startDequeue :: List.replicate 13 Event.consumer)

theorem len_overtaken : ∃ s, run overtaken = some s ∧ s.queue.linked.length = 1 ∧
    s.queue.dequeued = 1 ∧ s.returned.length = 1 ∧ s.queue.len.toNat = 2^64 - 1 := by
  have hrun : (run overtaken).map (fun s => (s.queue.linked.length,s.queue.dequeued,
      s.returned.length,s.queue.len.toNat)) = some (1,1,1,2^64 - 1) := by decide +kernel
  obtain ⟨s,hs,hval⟩ := Option.map_eq_some_iff.mp hrun
  simp only [Prod.mk.injEq] at hval
  exact ⟨s,hs,hval⟩

/-- The producer adds while the consumer is on its way to the message. -/
def addedInTime : List Event :=
  Event.startEnqueue 0 ⟨[65],0⟩ :: List.replicate 4 (Event.producer 0) ++
    (Event.startDequeue :: List.replicate 11 Event.consumer) ++
    List.replicate 2 (Event.producer 0) ++ List.replicate 2 Event.consumer

theorem len_run_addedInTime : ∃ s, run addedInTime = some s ∧
    Runs.Along step Subtractable new addedInTime ∧ s.LenBounded := by
  have hsome : (run addedInTime).isSome := by decide +kernel
  obtain ⟨s,hs⟩ := Option.isSome_iff_exists.mp hsome
  have hsub : Runs.Along step Subtractable new addedInTime := by decide +kernel
  exact ⟨s,hs,hsub,(len_run hs).1 hsub⟩

end State
end LockFreeQueue
end UProtocols
