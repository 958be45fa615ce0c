import Mathlib.Data.Int.Notation

/-!
# Numbers split into a whole part and a fraction

A number of units is written as `whole` times a base and `part` units. There are two canonical
forms: in the floor form the fraction is never negative, in the signed form it has the sign of the
whole part. In either form the pairs are ordered as their numbers are.
-/

namespace UProtocols
namespace SplitNumbers

structure Split where
  whole : ℤ
  part : ℤ
  deriving DecidableEq

namespace Split

variable {base : ℤ} {s t : Split}

def total (base : ℤ) (s : Split) : ℤ := s.whole * base + s.part

structure Floor (base : ℤ) (s : Split) : Prop where
  nonneg : 0 ≤ s.part
  lt : s.part < base

structure Signed (base : ℤ) (s : Split) : Prop where
  gt : -base < s.part
  lt : s.part < base
  of_pos : 0 < s.whole → 0 ≤ s.part
  of_neg : s.whole < 0 → s.part ≤ 0

/-- The fractions do not make up for a smaller whole part. -/
def Follows (base : ℤ) (s t : Split) : Prop := s.whole < t.whole → s.part < t.part + base

theorem Floor.follows (hs : s.Floor base) (ht : t.Floor base) : Follows base s t := by
  intro _
  have hlt := hs.lt
  have hnonneg := ht.nonneg
  omega

theorem Signed.follows (hs : s.Signed base) (ht : t.Signed base) : Follows base s t := by
  intro hwhole
  have hgt := ht.gt
  have hlt := hs.lt
  have hneg := hs.of_neg
  have hpos := ht.of_pos
  omega

theorem total_lt_of_whole_lt (hbase : 0 < base) (h : Follows base s t)
    (hwhole : s.whole < t.whole) : s.total base < t.total base := by
  have hpart := h hwhole
  have hmul : (s.whole + 1) * base ≤ t.whole * base :=
    Int.mul_le_mul_of_nonneg_right hwhole (Int.le_of_lt hbase)
  rw [Int.add_mul,Int.one_mul] at hmul
  rw [total,total]
  omega

/-- The pairs are compared by their whole parts first. -/
theorem total_lt_iff (hbase : 0 < base) (hst : Follows base s t) (hts : Follows base t s) :
    s.total base < t.total base ↔
      s.whole < t.whole ∨ s.whole = t.whole ∧ s.part < t.part := by
  constructor
  · intro h
    rcases Int.lt_trichotomy s.whole t.whole with hlt | heq | hgt
    · exact .inl hlt
    · right
      rw [total,total,heq] at h
      exact ⟨heq,by omega⟩
    · exact absurd (total_lt_of_whole_lt hbase hts hgt) (Int.not_lt.mpr (Int.le_of_lt h))
  · intro h
    cases h with
    | inl hlt => exact total_lt_of_whole_lt hbase hst hlt
    | inr heq =>
      rw [total,total,heq.1]
      omega

/-- A number has one pair of a canonical form. -/
theorem eq_of_total_eq (hbase : 0 < base) (hst : Follows base s t) (hts : Follows base t s)
    (h : s.total base = t.total base) : s = t := by
  have hlt := total_lt_iff hbase hst hts
  have hgt := total_lt_iff hbase hts hst
  obtain ⟨w,p⟩ := s
  obtain ⟨v,q⟩ := t
  simp only [h,Int.lt_irrefl,false_iff,not_or,not_and] at hlt hgt
  have hwhole : w = v := by omega
  have hpart : p = q := by omega
  rw [hwhole,hpart]

end Split
end SplitNumbers
end UProtocols
