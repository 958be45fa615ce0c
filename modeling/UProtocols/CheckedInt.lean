import Mathlib.Data.Int.Notation
import Mathlib.Data.Nat.Notation

/-!
# Signed machine integers

A number with as many negative values as its bound, 2^31 or 2^63. An operation whose exact result
is out of range has no result: it panics, or it wraps in a build without the check.
-/

namespace UProtocols
namespace CheckedInt

structure Signed (bound : ℕ) where
  val : ℤ
  ge : -bound ≤ val
  lt : val < bound
  deriving DecidableEq

abbrev I32 := Signed 2147483648
abbrev I64 := Signed 9223372036854775808

namespace Signed

variable {bound : ℕ} {a b : Signed bound} {n : ℤ}

theorem ext (h : a.val = b.val) : a = b := by
  cases a
  cases b
  cases h
  rfl

/-- The number with the value `n`, if it is in range. -/
def checked (n : ℤ) : Option (Signed bound) :=
  if h : -bound ≤ n ∧ n < bound then some ⟨n,h.1,h.2⟩ else none

theorem checked_eq_some_iff : checked n = some a ↔ a.val = n := by
  constructor
  · intro h
    rw [checked] at h
    split at h
    · cases h
      rfl
    · cases h
  · intro h
    cases h
    exact dif_pos ⟨a.ge,a.lt⟩

theorem exists_checked (hge : -bound ≤ n) (hlt : n < bound) :
    ∃ a : Signed bound, checked n = some a ∧ a.val = n :=
  ⟨⟨n,hge,hlt⟩,dif_pos ⟨hge,hlt⟩,rfl⟩

def add (a b : Signed bound) : Option (Signed bound) := checked (a.val + b.val)

def sub (a b : Signed bound) : Option (Signed bound) := checked (a.val - b.val)

def neg (a : Signed bound) : Option (Signed bound) := checked (-a.val)

theorem exists_add (a b : Signed bound) (hge : -bound ≤ a.val + b.val)
    (hlt : a.val + b.val < bound) : ∃ c, a.add b = some c ∧ c.val = a.val + b.val :=
  exists_checked hge hlt

theorem exists_sub (a b : Signed bound) (hge : -bound ≤ a.val - b.val)
    (hlt : a.val - b.val < bound) : ∃ c, a.sub b = some c ∧ c.val = a.val - b.val :=
  exists_checked hge hlt

/-- Only the lowest number has no negative. -/
theorem exists_neg (a : Signed bound) (hgt : -bound < a.val) :
    ∃ c, a.neg = some c ∧ c.val = -a.val := by
  have hlt := a.lt
  exact exists_checked (by omega) (by omega)

end Signed
end CheckedInt
end UProtocols
