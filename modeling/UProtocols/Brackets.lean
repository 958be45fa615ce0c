import Mathlib.Data.List.Infix
import Mathlib.Tactic.Common

/-!
# Brackets of several kinds

`Nested` is the grammar of properly nested brackets, `closes` the machine that keeps a stack of the
open ones. Counting the kinds separately asks less: it sees each kind as if it were alone.
-/

namespace UProtocols
namespace Brackets

variable {κ : Type}

inductive Symbol (κ : Type)
  | opening (k : κ)
  | closing (k : κ)
  deriving DecidableEq

def Symbol.kind : Symbol κ → κ
  | opening k => k
  | closing k => k

inductive Nested : List (Symbol κ) → Prop
  | nil : Nested []
  | pair {u v : List (Symbol κ)} (k : κ) (hu : Nested u) (hv : Nested v) :
    Nested (.opening k::u ++ .closing k::v)

theorem Nested.append {u v : List (Symbol κ)} (hu : Nested u) (hv : Nested v) :
    Nested (u ++ v) := by
  induction hu with
  | nil => exact hv
  | pair k hinner _ _ ih =>
    rw [List.append_assoc,List.cons_append]
    exact .pair k hinner ih

/-- Nested words with closing brackets between them, one for each bracket of the stack. -/
inductive Closes : List κ → List (Symbol κ) → Prop
  | done {u : List (Symbol κ)} (hu : Nested u) : Closes [] u
  | close {stack : List κ} {u v : List (Symbol κ)} (k : κ) (hu : Nested u) (hv : Closes stack v) :
    Closes (k::stack) (u ++ .closing k::v)

theorem Closes.nested_append {stack : List κ} {u v : List (Symbol κ)} (hv : Closes stack v)
    (hu : Nested u) : Closes stack (u ++ v) := by
  cases hv with
  | done hv => exact .done (hu.append hv)
  | close k hinner hv =>
    rw [← List.append_assoc]
    exact .close k (hu.append hinner) hv

/-! ## The machine with a stack -/

section Stack

variable [DecidableEq κ]

def closes : List κ → List (Symbol κ) → Bool
  | [], [] => true
  | _::_, [] => false
  | stack, .opening k::w => closes (k::stack) w
  | [], .closing _::_ => false
  | top::stack, .closing k::w => top = k && closes stack w

theorem closes_opening (stack : List κ) (k : κ) (w : List (Symbol κ)) :
    closes stack (.opening k::w) = closes (k::stack) w := by
  cases stack <;> rfl

theorem closes_nested_append {u : List (Symbol κ)} (hu : Nested u) (stack : List κ)
    (v : List (Symbol κ)) : closes stack (u ++ v) = closes stack v := by
  induction hu generalizing stack v with
  | nil => rfl
  | pair k _ _ ihinner ih =>
    rw [List.cons_append,List.cons_append,closes_opening,List.append_assoc,ihinner,
      List.cons_append,closes,decide_eq_true rfl,Bool.true_and,ih]

theorem closes_iff {stack : List κ} {w : List (Symbol κ)} :
    closes stack w = true ↔ Closes stack w := by
  constructor
  · intro h
    induction w generalizing stack with
    | nil =>
      cases stack with
      | nil => exact .done .nil
      | cons k stack => cases h
    | cons x w ih =>
      cases x with
      | opening k =>
        rw [closes_opening] at h
        have hw := ih h
        cases hw with
        | @close _ u v _ hu hv =>
          have hpair : Nested (Symbol.opening k::u ++ [.closing k]) := .pair k hu .nil
          have hall := hv.nested_append hpair
          rwa [List.append_assoc,List.singleton_append] at hall
      | closing k =>
        cases stack with
        | nil => cases h
        | cons top stack =>
          rw [closes,Bool.and_eq_true,decide_eq_true_eq] at h
          obtain ⟨rfl,hrest⟩ := h
          exact .close top .nil (ih hrest)
  · intro h
    induction h with
    | done hu =>
      have hrun := closes_nested_append hu [] []
      rwa [List.append_nil] at hrun
    | close k hu _ ih => rw [closes_nested_append hu,closes,decide_eq_true rfl,Bool.true_and,ih]

theorem nested_iff {w : List (Symbol κ)} : Nested w ↔ closes [] w = true := by
  rw [closes_iff]
  constructor
  · exact .done
  · intro h
    cases h with
    | done hw => exact hw

instance (w : List (Symbol κ)) : Decidable (Nested w) := decidable_of_iff _ nested_iff.symm

/-! ## One kind at a time -/

/-- The brackets of one kind. -/
def only (k : κ) (w : List (Symbol κ)) : List (Symbol κ) := w.filter (·.kind = k)

/-- What a bracket adds to the counter of a kind. -/
def Symbol.delta (k : κ) : Symbol κ → ℤ
  | opening j => if j = k then 1 else 0
  | closing j => if j = k then -1 else 0

/-- How many more brackets of a kind a word opens than it closes. -/
def level (k : κ) : List (Symbol κ) → ℤ
  | [] => 0
  | x::w => x.delta k + level k w

/-- Never more than `limit` brackets of a kind are open at a time. -/
def AtMost (limit : ℕ) (k : κ) (w : List (Symbol κ)) : Prop := ∀ p, p <+: w → level k p ≤ limit

theorem Nested.only {w : List (Symbol κ)} (h : Nested w) (k : κ) : Nested (only k w) := by
  induction h with
  | nil => exact .nil
  | @pair u v j hu hv ihu ihv =>
    by_cases hj : j = k
    · have hsplit : Brackets.only k (Symbol.opening j::u ++ .closing j::v) =
          .opening j::Brackets.only k u ++ .closing j::Brackets.only k v := by
        simp [Brackets.only,Symbol.kind,hj]
      rw [hsplit]
      exact .pair j ihu ihv
    · have hsplit : Brackets.only k (Symbol.opening j::u ++ .closing j::v) =
          Brackets.only k u ++ Brackets.only k v := by
        simp [Brackets.only,Symbol.kind,hj]
      rw [hsplit]
      exact ihu.append ihv

/-- A counter that stands at `d` before the word stays between zero and `limit`, and ends at
zero. -/
def Counts (limit : ℕ) (k : κ) (d : ℤ) (w : List (Symbol κ)) : Prop :=
  (∀ p, p <+: w → 0 ≤ d + level k p ∧ d + level k p ≤ limit) ∧ d + level k w = 0

@[simp] theorem level_nil (k : κ) : level k [] = 0 := rfl

@[simp] theorem level_cons (k : κ) (x : Symbol κ) (w : List (Symbol κ)) :
    level k (x::w) = x.delta k + level k w := rfl

theorem delta_of_ne {k : κ} {x : Symbol κ} (h : x.kind ≠ k) : x.delta k = 0 := by
  cases x <;> exact if_neg h

theorem forall_prefix_cons {α : Type} {P : List α → Prop} {x : α} {w : List α} :
    (∀ p, p <+: x::w → P p) ↔ P [] ∧ ∀ p, p <+: w → P (x::p) := by
  constructor
  · intro h
    exact ⟨h [] List.nil_prefix,fun p hp => h (x::p) (List.prefix_cons_inj x |>.mpr hp)⟩
  · rintro ⟨hnil,hcons⟩ p hp
    cases p with
    | nil => exact hnil
    | cons y p =>
      obtain ⟨rfl,hrest⟩ := List.cons_prefix_cons.mp hp
      exact hcons p hrest

theorem counts_nil {limit : ℕ} {k : κ} {d : ℤ} : Counts limit k d [] ↔ d = 0 := by
  simp only [Counts,List.prefix_nil,forall_eq,level_nil]
  omega

theorem counts_cons {limit : ℕ} {k : κ} {d : ℤ} {x : Symbol κ} {w : List (Symbol κ)} :
    Counts limit k d (x::w) ↔ (0 ≤ d ∧ d ≤ limit) ∧ Counts limit k (d + x.delta k) w := by
  simp only [Counts,forall_prefix_cons,level_nil,level_cons,Int.add_zero,Int.add_assoc,and_assoc]

theorem Counts.bounds {limit : ℕ} {k : κ} {d : ℤ} {w : List (Symbol κ)} (h : Counts limit k d w) :
    0 ≤ d ∧ d ≤ limit := by
  have hnil := h.1 [] List.nil_prefix
  rwa [level_nil,Int.add_zero] at hnil

/-- Counting is what the stack does when there is one kind of bracket. -/
theorem closes_replicate_iff {limit : ℕ} {k : κ} {w : List (Symbol κ)} {d : ℕ} (hd : d ≤ limit) :
    closes (List.replicate d k) (only k w) = true ∧ (∀ p, p <+: w → d + level k p ≤ limit) ↔
      Counts limit k d w := by
  induction w generalizing d with
  | nil =>
    rw [counts_nil]
    cases d with
    | zero => simp [only,closes,level_nil]
    | succ d =>
      have hne : (d : ℤ) + 1 ≠ 0 := by omega
      simp [only,closes,List.replicate_succ,hne]
  | cons x w ih =>
    rw [counts_cons,forall_prefix_cons]
    simp only [level_nil,Int.add_zero,level_cons,← Int.add_assoc]
    have hbounds : 0 ≤ (d : ℤ) ∧ (d : ℤ) ≤ limit := by omega
    by_cases hx : x.kind = k
    · cases x with
      | opening j =>
        obtain rfl : j = k := hx
        have honly : only j (.opening j::w) = .opening j::only j w := by simp [only,Symbol.kind]
        have hdelta : (d : ℤ) + Symbol.delta j (.opening j) = (d + 1 : ℕ) := by simp [Symbol.delta]
        rw [honly,closes_opening,← List.replicate_succ,hdelta]
        by_cases hlimit : d + 1 ≤ limit
        · rw [← ih hlimit]
          tauto
        · refine iff_of_false (fun h => ?_) fun h => ?_
          · have hnil := h.2.2 [] List.nil_prefix
            rw [level_nil] at hnil
            omega
          · have hhigh := h.2.bounds
            omega
      | closing j =>
        obtain rfl : j = k := hx
        have honly : only j (.closing j::w) = .closing j::only j w := by simp [only,Symbol.kind]
        rw [honly]
        cases d with
        | zero =>
          refine iff_of_false (fun h => ?_) fun h => ?_
          · cases h.1
          · have hlow := h.2.bounds.1
            simp [Symbol.delta] at hlow
        | succ d =>
          have hdelta : ((d + 1 : ℕ) : ℤ) + Symbol.delta j (.closing j) = d := by
            rw [Symbol.delta,if_pos rfl]
            omega
          rw [List.replicate_succ,closes,decide_eq_true rfl,Bool.true_and,hdelta,
            ← ih (Nat.le_of_succ_le hd)]
          tauto
    · have honly : only k (x::w) = only k w := by simp [only,hx]
      rw [honly,delta_of_ne hx,Int.add_zero,← ih hd]
      tauto

theorem nested_only_iff {limit : ℕ} {k : κ} {w : List (Symbol κ)} :
    Nested (only k w) ∧ AtMost limit k w ↔ Counts limit k 0 w := by
  have hcounts := closes_replicate_iff (k := k) (w := w) (Nat.zero_le limit)
  simpa only [nested_iff,AtMost,List.replicate_zero,Int.natCast_zero,Int.zero_add] using hcounts

end Stack

end Brackets
end UProtocols
