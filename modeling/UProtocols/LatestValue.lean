import UProtocols.Runs

/-!
# Registers that take the latest value

Some events of a run carry a number, and a register takes the number of every such event. The
register never falls exactly when the numbers come in order, and then it holds the largest of
them.
-/

namespace UProtocols
namespace LatestValue

open Runs

variable {values : List ℕ} {n : ℕ}

/-- The last number, `0` before the first. -/
def latest (values : List ℕ) : ℕ := values.getLastD 0

def largest (values : List ℕ) : ℕ := values.foldl max 0

theorem latest_snoc (values : List ℕ) (n : ℕ) : latest (values ++ [n]) = n := by simp [latest]

theorem le_latest (h : values.Pairwise (· ≤ ·)) (hn : n ∈ values) : n ≤ latest values := by
  induction values using List.reverseRecOn with
  | nil => cases hn
  | append_singleton values last ih =>
    rw [latest_snoc]
    rcases List.mem_append.mp hn with hn | hn
    · exact (List.pairwise_append.mp h).2.2 n hn last (List.mem_singleton.mpr rfl)
    · exact Nat.le_of_eq (List.mem_singleton.mp hn)

theorem latest_le (h : ∀ m ∈ values, m ≤ n) : latest values ≤ n := by
  rcases List.mem_cons.mp (List.getLastD_mem_cons (l := values) (a := 0)) with hzero | hmem
  · rw [latest,hzero]
    exact Nat.zero_le n
  · exact h _ hmem

theorem pairwise_snoc :
    (values ++ [n]).Pairwise (· ≤ ·) ↔ values.Pairwise (· ≤ ·) ∧ latest values ≤ n := by
  simp only [List.pairwise_append,List.pairwise_singleton,List.mem_singleton,forall_eq,true_and]
  refine and_congr_right fun hvalues => ⟨latest_le,fun h m hm => ?_⟩
  exact Nat.le_trans (le_latest hvalues hm) h

theorem latest_eq_largest (h : values.Pairwise (· ≤ ·)) : latest values = largest values := by
  induction values using List.reverseRecOn with
  | nil => rfl
  | append_singleton values last ih =>
    obtain ⟨hvalues,hle⟩ := pairwise_snoc.mp h
    have hlargest : largest (values ++ [last]) = max (largest values) last := by simp [largest]
    rw [latest_snoc,hlargest,← ih hvalues,Nat.max_eq_right hle]

/-- The register starts at `0` and takes the number of every event that has one. -/
structure Tracks {σ ε : Type} (step : σ → ε → Option σ) (value : ε → Option ℕ) (register : σ → ℕ)
    (s₀ : σ) : Prop where
  start : register s₀ = 0
  step : ∀ s e t, step s e = some t → register t = (value e).getD (register s)

namespace Tracks

variable {σ ε : Type} {step : σ → ε → Option σ} {value : ε → Option ℕ} {register : σ → ℕ} {s₀ t : σ}
  {es : List ε}

theorem eq_latest (h : Tracks step value register s₀) (hrun : exec step s₀ es = some t) :
    register t = latest (es.filterMap value) := by
  refine exec_invariant_trace (I := fun es t => register t = latest (es.filterMap value)) ?_
    h.start hrun
  intro es s e t _ hs hstep
  rw [h.step s e t hstep,hs,List.filterMap_append]
  cases hvalue : value e with
  | none => simp [hvalue]
  | some n => simp [hvalue,latest]

/-- The register never falls along a run exactly when the numbers come in order. -/
theorem monotone_iff (h : Tracks step value register s₀) (hrun : exec step s₀ es = some t) :
    (∀ fs gs u v, fs <+: gs → gs <+: es → exec step s₀ fs = some u → exec step s₀ gs = some v →
      register u ≤ register v) ↔ (es.filterMap value).Pairwise (· ≤ ·) := by
  constructor
  · intro hmono
    induction es using List.reverseRecOn generalizing t with
    | nil => exact List.Pairwise.nil
    | append_singleton es e ih =>
      obtain ⟨u,hu,hlast⟩ := exec_append.mp hrun
      have hshort : es <+: es ++ [e] := List.prefix_append _ _
      have hbefore := ih hu fun fs gs u v hfs hgs => hmono fs gs u v hfs (hgs.trans hshort)
      have hle := hmono es (es ++ [e]) u t hshort (List.prefix_refl _) hu hrun
      rw [h.eq_latest hu,h.eq_latest hrun,List.filterMap_append] at hle
      rw [List.filterMap_append]
      cases hvalue : value e with
      | none => simpa [hvalue] using hbefore
      | some n =>
        simp only [List.filterMap_cons,hvalue,List.filterMap_nil] at hle ⊢
        rw [latest_snoc] at hle
        exact pairwise_snoc.mpr ⟨hbefore,hle⟩
  · intro hsorted fs gs u v hfs hgs hu hv
    rw [h.eq_latest hu,h.eq_latest hv]
    have hgs' := hsorted.sublist (hgs.filterMap value).sublist
    exact latest_le fun m hm => le_latest hgs' ((hfs.filterMap value).subset hm)

end Tracks

end LatestValue
end UProtocols
