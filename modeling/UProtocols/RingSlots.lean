import Mathlib.Data.List.Basic
import Mathlib.Data.Nat.ModEq

/-!
# Ring slots

A list of slots read as a ring: position `t` stands for slot `t % slots.length`. The
items in use lie in consecutive positions, fewer than a whole turn.
-/

namespace UProtocols
namespace RingSlots

variable {β : Type} {slots : List β} {t j k m : ℕ} {q : List β} {x : β}

/-- The slots from position `t` on hold the items `q` in order. -/
def Holds (slots : List β) (t : ℕ) (q : List β) : Prop :=
  ∀ k, k < q.length → slots[(t + k) % slots.length]? = q[k]?

theorem holds_nil (slots : List β) (t : ℕ) : Holds slots t [] := nofun

/-- Positions within one turn are told apart by their slots. -/
theorem add_mod_inj (hj : j < m) (hk : k < m) (h : (t + j) % m = (t + k) % m) : j = k := by
  have hmod : j % m = k % m := Nat.ModEq.add_left_cancel' t h
  rwa [Nat.mod_eq_of_lt hj,Nat.mod_eq_of_lt hk] at hmod

theorem holds_mod : Holds slots (t % slots.length) q ↔ Holds slots t q := by
  simp only [Holds,Nat.mod_add_mod]

/-- Writing outside the positions in use keeps the items. -/
theorem Holds.set (h : Holds slots t q) (hlen : q.length ≤ j) (hj : j < slots.length) (x : β) :
    Holds (slots.set ((t + j) % slots.length) x) t q := by
  intro k hk
  rw [List.length_set]
  have hne : (t + j) % slots.length ≠ (t + k) % slots.length := by
    intro heq
    have hjk : j = k := add_mod_inj hj (by omega) heq
    omega
  rw [List.getElem?_set_ne hne]
  exact h k hk

theorem Holds.snoc (h : Holds slots t q) (hx : slots[(t + q.length) % slots.length]? = some x) :
    Holds slots t (q ++ [x]) := by
  intro k hk
  rw [List.length_append,List.length_singleton] at hk
  by_cases hlt : k < q.length
  · rw [List.getElem?_append_left hlt]
    exact h k hlt
  · have heq : k = q.length := by omega
    subst heq
    simpa using hx

theorem Holds.head (h : Holds slots t (x::q)) : slots[t % slots.length]? = some x :=
  h 0 (Nat.zero_lt_succ _)

theorem Holds.tail (h : Holds slots t (x::q)) : Holds slots (t + 1) q := by
  intro k hk
  have hnext := h (k + 1) (Nat.succ_lt_succ hk)
  rw [show t + (k + 1) = t + 1 + k by omega] at hnext
  exact hnext

end RingSlots
end UProtocols
