import Mathlib.Data.Nat.Notation

/-!
# Loops over streams of inputs

A round of a loop reads the state and the input of that round and either ends the loop or goes
on. `after` is where the loop stands after a number of rounds; a loop may never end.
-/

namespace UProtocols
namespace Loops

/-- A loop that is still running, and one that has ended. -/
inductive Status (σ : Type)
  | runs (s : σ)
  | ended (s : σ)
  deriving DecidableEq

variable {σ ι : Type} {round : σ → ι → Status σ} {inputs : ℕ → ι} {s : σ}

/-- The loop after `n` rounds from `s`. -/
def after (round : σ → ι → Status σ) (inputs : ℕ → ι) (s : σ) : ℕ → Status σ
  | 0 => .runs s
  | n + 1 =>
    match after round inputs s n with
    | .runs t => round t (inputs n)
    | .ended t => .ended t

theorem after_succ_of_runs {t : σ} {n : ℕ} (h : after round inputs s n = .runs t) :
    after round inputs s (n + 1) = round t (inputs n) := by
  simp only [after,h]

/-- A loop that still runs has run all the time. -/
theorem runs_of_succ {t : σ} {n : ℕ} (h : after round inputs s (n + 1) = .runs t) :
    ∃ u, after round inputs s n = .runs u ∧ round u (inputs n) = .runs t := by
  cases hn : after round inputs s n with
  | runs u => exact ⟨u,rfl,(after_succ_of_runs hn).symm.trans h⟩
  | ended u => simp only [after,hn,reduceCtorEq] at h

/-- What every round that is reached keeps holds as long as the loop runs. -/
theorem runs_invariant {I : σ → Prop} (hs : I s)
    (hround : ∀ n t u, after round inputs s n = .runs t → round t (inputs n) = .runs u →
      I t → I u)
    {t : σ} {n : ℕ} (h : after round inputs s n = .runs t) : I t := by
  induction n generalizing t with
  | zero =>
    cases h
    exact hs
  | succ n ih =>
    obtain ⟨u,hu,hnext⟩ := runs_of_succ h
    exact hround n u t hu hnext (ih hu)

/-- A loop that cannot leave a set of states runs for ever. -/
theorem runs_forever {I : σ → Prop} (hs : I s)
    (hround : ∀ n t, I t → ∃ u, round t (inputs n) = .runs u ∧ I u) (n : ℕ) :
    ∃ t, after round inputs s n = .runs t ∧ I t := by
  induction n with
  | zero => exact ⟨s,rfl,hs⟩
  | succ n ih =>
    obtain ⟨t,ht,hI⟩ := ih
    obtain ⟨u,hu,hnext⟩ := hround n t hI
    exact ⟨u,(after_succ_of_runs ht).trans hu,hnext⟩

/-- What a last round establishes holds where the loop has ended. -/
theorem ended_of_round {P : σ → Prop} (hround : ∀ t i u, round t i = .ended u → P u) {t : σ}
    {n : ℕ} (h : after round inputs s n = .ended t) : P t := by
  induction n with
  | zero => cases h
  | succ n ih =>
    cases hn : after round inputs s n with
    | runs u =>
      rw [after_succ_of_runs hn] at h
      exact hround u (inputs n) t h
    | ended u =>
      simp only [after,hn] at h
      exact ih (hn.trans h)

/-- A loop ends if it does not run for more than a number of rounds. -/
theorem exists_ended {bound : ℕ} (h : ∀ n t, after round inputs s n = .runs t → n ≤ bound) :
    ∃ n t, after round inputs s n = .ended t := by
  cases hn : after round inputs s (bound + 1) with
  | runs t => exact absurd (h _ t hn) (Nat.not_succ_le_self bound)
  | ended t => exact ⟨bound + 1,t,hn⟩

end Loops
end UProtocols
