import Mathlib.Order.Basic

/-!
# Values that expire

A store keeps the latest value for a key and may drop it once it has expired, at a cleanup or
not at all. As long as an expired value stays expired, what a reader sees, the stored value if
it is live at the time of reading, is the latest value if that is live.
-/

namespace UProtocols
namespace Expiry

variable {V τ : Type} [Preorder τ] {live : τ → V → Bool} {t now : τ} {latest found : Option V}

/-- An expired value does not come to life again. -/
def Final (live : τ → V → Bool) : Prop := ∀ v s t, s ≤ t → live t v = true → live s v = true

/-- What is found at time `t`: the latest value, or nothing when that has expired. -/
def Tracks (live : τ → V → Bool) (t : τ) (latest found : Option V) : Prop :=
  found = latest ∨ found = none ∧ ∀ v, latest = some v → live t v = false

namespace Tracks

omit [Preorder τ] in
theorem eq_of_some {v : V} (h : Tracks live t latest found) (hv : found = some v) :
    latest = some v := by
  obtain heq | ⟨hnone,-⟩ := h
  · exact heq.symm.trans hv
  · rw [hnone] at hv
    cases hv

theorem later (hfinal : Final live) (h : Tracks live t latest found) (hle : t ≤ now) :
    Tracks live now latest found := by
  obtain heq | ⟨hnone,hdead⟩ := h
  · exact .inl heq
  · refine .inr ⟨hnone,?_⟩
    intro v hv
    by_contra hlive
    have hlive' := hfinal v t now hle (by simpa using hlive)
    rw [hdead v hv] at hlive'
    cases hlive'

theorem visible (hfinal : Final live) (h : Tracks live t latest found) (hle : t ≤ now) :
    found.filter (live now) = latest.filter (live now) := by
  obtain heq | ⟨hnone,hdead⟩ := h.later hfinal hle
  · rw [heq]
  · cases latest with
    | none => rw [hnone]
    | some v => rw [hnone,Option.filter_some_neg (hdead v rfl),Option.filter_none]

theorem cleanup (hfinal : Final live) (h : Tracks live t latest found) (hle : t ≤ now) :
    Tracks live now latest (found.filter (live now)) := by
  rw [h.visible hfinal hle]
  cases latest with
  | none => exact .inl rfl
  | some v =>
    cases hlive : live now v with
    | true => exact .inl (Option.filter_some_pos hlive)
    | false =>
      refine .inr ⟨Option.filter_some_neg hlive,?_⟩
      intro w hw
      cases hw
      exact hlive

end Tracks
end Expiry
end UProtocols
