import Mathlib.Data.List.Basic

/-!
# Queues of numbered items

Items leave a queue from the front: `acknowledge` removes those up to a number and stops at the
first larger one, `drain` hands them on until one is refused. In a queue whose numbers increase
an acknowledgment removes exactly the items it covers.
-/

namespace UProtocols
namespace NumberedQueue

variable {α : Type} {number : α → ℕ} {q : List α} {x : α} {a : ℕ}

def Increasing (number : α → ℕ) (q : List α) : Prop := q.Pairwise fun x y => number x < number y

instance (number : α → ℕ) (q : List α) : Decidable (Increasing number q) :=
  inferInstanceAs (Decidable (q.Pairwise _))

/-- Remove items from the front while their number is at most `a`. -/
def acknowledge (number : α → ℕ) (a : ℕ) (q : List α) : List α :=
  q.dropWhile fun x => number x ≤ a

/-- Hand items on until one is refused: those handed on and those that stay. -/
def drain (ok : ℕ → Bool) : List α → List α × List α
  | [] => ([],[])
  | x::q =>
    if ok 0 then
      let rest := drain (fun i => ok (i + 1)) q
      (x::rest.1,rest.2)
    else ([],x::q)

theorem increasing_snoc :
    Increasing number (q ++ [x]) ↔ Increasing number q ∧ ∀ y ∈ q, number y < number x := by
  simp [Increasing,List.pairwise_append]

theorem Increasing.sublist {q' : List α} (h : Increasing number q) (hsub : q'.Sublist q) :
    Increasing number q' :=
  List.Pairwise.sublist hsub h

theorem acknowledge_sublist : (acknowledge number a q).Sublist q := List.dropWhile_sublist _

theorem mem_acknowledge (h : Increasing number q) :
    x ∈ acknowledge number a q ↔ x ∈ q ∧ a < number x := by
  induction q with
  | nil => simp [acknowledge]
  | cons y q ih =>
    obtain ⟨hfirst,hrest⟩ := List.pairwise_cons.mp h
    by_cases hle : number y ≤ a
    · have hdrop : acknowledge number a (y::q) = acknowledge number a q := by
        simp [acknowledge,hle]
      rw [hdrop,ih hrest]
      constructor
      · rintro ⟨hmem,hlt⟩
        exact ⟨List.mem_cons_of_mem y hmem,hlt⟩
      · rintro ⟨hmem,hlt⟩
        rcases List.mem_cons.mp hmem with rfl | hmem
        · omega
        · exact ⟨hmem,hlt⟩
    · have hstop : acknowledge number a (y::q) = y::q := by
        simp [acknowledge,hle]
      rw [hstop]
      -- everything behind the first larger number is larger as well
      constructor
      · intro hmem
        refine ⟨hmem,?_⟩
        rcases List.mem_cons.mp hmem with rfl | hmem
        · omega
        · have hlt := hfirst x hmem
          omega
      · exact fun hmem => hmem.1

theorem drain_append (ok : ℕ → Bool) (q : List α) : (drain ok q).1 ++ (drain ok q).2 = q := by
  induction q generalizing ok with
  | nil => rfl
  | cons x q ih =>
    by_cases hok : ok 0 = true
    · rw [drain,if_pos hok]
      exact congrArg (List.cons x) (ih _)
    · rw [drain,if_neg hok]
      rfl

theorem drain_sublist (ok : ℕ → Bool) (q : List α) : (drain ok q).2.Sublist q := by
  have hsub := List.sublist_append_right (drain ok q).1 (drain ok q).2
  rwa [drain_append] at hsub

/-- An item is handed on when neither it nor an item before it is refused. -/
theorem mem_drain (ok : ℕ → Bool) (q : List α) :
    x ∈ (drain ok q).1 ↔ ∃ i, q[i]? = some x ∧ ∀ j ≤ i, ok j = true := by
  induction q generalizing ok with
  | nil => simp [drain]
  | cons y q ih =>
    by_cases hok : ok 0 = true
    · rw [drain,if_pos hok,List.mem_cons,ih]
      constructor
      · rintro (rfl | ⟨i,hi,hall⟩)
        · refine ⟨0,rfl,fun j hj => ?_⟩
          rw [Nat.le_zero.mp hj]
          exact hok
        · refine ⟨i + 1,hi,fun j hj => ?_⟩
          cases j with
          | zero => exact hok
          | succ j => exact hall j (Nat.le_of_succ_le_succ hj)
      · rintro ⟨i,hi,hall⟩
        cases i with
        | zero =>
          cases hi
          exact .inl rfl
        | succ i => exact .inr ⟨i,hi,fun j hj => hall (j + 1) (Nat.succ_le_succ hj)⟩
    · rw [drain,if_neg hok]
      constructor
      · intro hmem
        cases hmem
      · rintro ⟨i,-,hall⟩
        exact absurd (hall 0 (Nat.zero_le i)) hok

theorem forall_drain {p : α → Prop} (ok : ℕ → Bool) (q : List α) :
    (∀ x ∈ (drain ok q).1, p x) ↔
      ∀ i x, q[i]? = some x → (∀ j ≤ i, ok j = true) → p x := by
  constructor
  · exact fun h i x hx hall => h x ((mem_drain ok q).mpr ⟨i,hx,hall⟩)
  · intro h x hx
    obtain ⟨i,hi,hall⟩ := (mem_drain ok q).mp hx
    exact h i x hi hall

/-! ## Marked numbers that go first -/

section Preceded

variable {marked xs ys zs : List ℕ} {n m : ℕ}

/-- Every marked number below a number of the list stands before it. -/
def Preceded (marked numbers : List ℕ) : Prop :=
  ∀ before n after, numbers = before ++ n::after → ∀ m ∈ marked, m < n → m ∈ before

theorem preceded_append :
    Preceded marked (xs ++ ys) ↔ Preceded marked xs ∧
      ∀ before n after, ys = before ++ n::after → ∀ m ∈ marked, m < n → m ∈ xs ++ before := by
  constructor
  · intro h
    constructor
    · rintro before n after rfl
      exact h before n (after ++ ys) (by simp)
    · rintro before n after rfl
      exact h (xs ++ before) n after (by simp)
  · rintro ⟨hxs,hys⟩ before n after hsplit
    -- the number stands in the first list or in the second
    rcases List.append_eq_append_iff.mp hsplit with ⟨mid,rfl,hmid⟩ | ⟨mid,rfl,hmid⟩
    · exact hys mid n after hmid
    · cases mid with
      | nil =>
        have hnone := hys [] n after hmid.symm
        rwa [List.append_nil,List.append_nil] at hnone
      | cons first mid =>
        obtain ⟨rfl,-⟩ := List.cons_eq_cons.mp hmid
        exact hxs before n mid rfl

theorem preceded_append_singleton :
    Preceded marked (xs ++ [n]) ↔ Preceded marked xs ∧ ∀ m ∈ marked, m < n → m ∈ xs := by
  rw [preceded_append]
  refine and_congr_right fun _ => ⟨fun h => ?_,fun h => ?_⟩
  · have hlast := h [] n [] rfl
    rwa [List.append_nil] at hlast
  · intro before k after hsplit m hm hlt
    obtain ⟨rfl,hrest⟩ | ⟨mid,rfl,hmid⟩ := List.cons_eq_append_iff.mp hsplit
    · cases hrest
      exact List.mem_append_left _ (h m hm hlt)
    · simp at hmid

/-- Numbers that are taken in order from the front `ys` of an increasing queue. -/
theorem preceded_append_front (hxs : Preceded marked xs) (hqueue : (ys ++ zs).Pairwise (· < ·)) :
    Preceded marked (xs ++ ys) ↔
      ∀ n ∈ ys, ∀ m ∈ marked, m < n → m ∈ xs ∨ m ∈ ys ++ zs := by
  rw [preceded_append,and_iff_right hxs]
  constructor
  · intro h n hn m hm hlt
    obtain ⟨before,after,rfl⟩ := List.append_of_mem hn
    refine (List.mem_append.mp (h before n after rfl m hm hlt)).imp_right fun hmem => ?_
    exact List.mem_append_left _ (List.mem_append_left _ hmem)
  · rintro h before n after rfl m hm hlt
    refine List.mem_append.mpr ((h n (by simp) m hm hlt).imp_right fun hmem => ?_)
    -- what comes after `n` in the queue is larger
    rw [List.append_assoc,List.mem_append] at hmem
    refine hmem.resolve_right fun hafter => ?_
    rw [List.append_assoc,List.pairwise_append] at hqueue
    obtain ⟨hfirst,-⟩ := List.pairwise_cons.mp hqueue.2.1
    rcases List.mem_cons.mp hafter with rfl | hafter
    · exact Nat.lt_irrefl _ hlt
    · exact Nat.lt_asymm hlt (hfirst m hafter)

/-- Marking a number that is not below any of the list changes nothing. -/
theorem preceded_mark (hlast : ∀ k ∈ xs, k ≤ m) :
    Preceded (marked ++ [m]) xs ↔ Preceded marked xs := by
  constructor
  · intro h before n after hsplit k hk
    exact h before n after hsplit k (List.mem_append_left _ hk)
  · rintro h before n after rfl k hk hlt
    rcases List.mem_append.mp hk with hk | hk
    · exact h before n after rfl k hk hlt
    · cases List.mem_singleton.mp hk
      exact absurd hlt (Nat.not_lt_of_le (hlast n (by simp)))

end Preceded

end NumberedQueue
end UProtocols
