import Mathlib.Data.Nat.Notation

/-!
# The bits of a byte

`bit` and `setBit` are what shifts and masks compute. A byte that is put together bit by bit,
in any order that names every position, has the bits it was given.
-/

namespace UProtocols
namespace ByteBits

/-- `(b >> i) & 1`. -/
def bit (b : UInt8) (i : ℕ) : Bool := (b >>> UInt8.ofNat i) &&& 1 == 1

/-- `b | (1 << i)`. -/
def setBit (b : UInt8) (i : ℕ) : UInt8 := b ||| (1 <<< UInt8.ofNat i)

/-- Set the bits at the given positions where `f` says so. -/
def gather (f : ℕ → Bool) : List ℕ → UInt8 → UInt8
  | [], b => b
  | i::is, b => gather f is (if f i then setBit b i else b)

theorem bit_eq_testBit {i : ℕ} (hi : i < 8) (b : UInt8) : bit b i = b.toNat.testBit i := by
  have hmod : i % 8 = i := Nat.mod_eq_of_lt hi
  rw [Bool.eq_iff_iff]
  simp [bit,← UInt8.toNat_inj,hmod,Nat.testBit,Nat.and_one_is_mod,Nat.one_and_eq_mod_two]

theorem eq_of_bit_eq {a b : UInt8} (h : ∀ i < 8, bit a i = bit b i) : a = b := by
  apply UInt8.toNat_inj.mp
  apply Nat.eq_of_testBit_eq
  intro i
  by_cases hi : i < 8
  · rw [← bit_eq_testBit hi,← bit_eq_testBit hi]
    exact h i hi
  · have hsmall : ∀ c : UInt8, c.toNat.testBit i = false := by
      intro c
      apply Nat.testBit_lt_two_pow
      exact Nat.lt_of_lt_of_le c.toNat_lt (Nat.pow_le_pow_right (by decide) (Nat.not_lt.mp hi))
    rw [hsmall,hsmall]

theorem bit_setBit {i j : ℕ} (hi : i < 8) (hj : j < 8) (b : UInt8) :
    bit (setBit b i) j = (bit b j || decide (i = j)) := by
  have hmod : i % 8 = i := Nat.mod_eq_of_lt hi
  have hpow : (1 <<< UInt8.ofNat i : UInt8).toNat = 2 ^ i := by
    have hlt : 2 ^ i < 256 := Nat.pow_lt_pow_right (by decide) hi
    simp [UInt8.toNat_shiftLeft,hmod,Nat.one_shiftLeft,Nat.mod_eq_of_lt hlt]
  rw [bit_eq_testBit hj,bit_eq_testBit hj,setBit,UInt8.toNat_or,Nat.testBit_or,hpow,
    Nat.testBit_two_pow]

theorem bit_gather {is : List ℕ} (his : ∀ i ∈ is, i < 8) {j : ℕ} (hj : j < 8) (f : ℕ → Bool)
    (b : UInt8) : bit (gather f is b) j = (bit b j || (decide (j ∈ is) && f j)) := by
  induction is generalizing b with
  | nil => simp [gather]
  | cons i is ih =>
    obtain ⟨hi,hrest⟩ := List.forall_mem_cons.mp his
    rw [gather,ih hrest]
    by_cases hf : f i
    · rw [if_pos hf,bit_setBit hi hj]
      by_cases heq : j = i
      · subst heq
        simp [hf]
      · simp [heq,Ne.symm heq]
    · rw [if_neg hf]
      by_cases heq : j = i
      · subst heq
        simp [hf]
      · simp [heq]

/-- The bits of `b`, in any order that names all of them. -/
theorem gather_bit {is : List ℕ} (his : ∀ i ∈ is, i < 8) (hall : ∀ i < 8, i ∈ is) (b : UInt8) :
    gather (bit b) is 0 = b := by
  apply eq_of_bit_eq
  intro j hj
  have hzero : bit 0 j = false := by simp [bit]
  rw [bit_gather his hj,hzero]
  simp [hall j hj]

end ByteBits
end UProtocols
