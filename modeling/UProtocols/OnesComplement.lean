import UProtocols.ByteOrder

/-!
# The one's complement sum of 16-bit words

`carry` adds what is above the lowest 16 bits to them; doing so until nothing is left above gives
the residue modulo 65535, with 65535 itself in the place of zero for all sums but zero.
-/

namespace UProtocols
namespace OnesComplement

/-- One round of end-around carry. -/
def carry (s : ℕ) : ℕ := s % 65536 + s / 65536

theorem carry_lt {s : ℕ} (h : s / 65536 ≠ 0) : carry s < s := by
  rw [carry]
  omega

/-- Carry until the sum has 16 bits. -/
def fold (s : ℕ) : ℕ := if s / 65536 ≠ 0 then fold (carry s) else s
termination_by s
decreasing_by exact carry_lt ‹_›

def residue (s : ℕ) : ℕ := if s = 0 then 0 else (s - 1) % 65535 + 1

theorem residue_le (s : ℕ) : residue s ≤ 65535 := by
  rw [residue]
  split <;> omega

theorem residue_of_le {s : ℕ} (h : s ≤ 65535) : residue s = s := by
  rw [residue]
  split <;> omega

theorem residue_carry (s : ℕ) : residue (carry s) = residue s := by
  rw [residue,residue,carry]
  split <;> split <;> omega

theorem fold_eq (s : ℕ) : fold s = residue s := by
  induction s using Nat.strong_induction_on with
  | h s ih =>
    rw [fold]
    by_cases hcarry : s / 65536 ≠ 0
    · rw [if_pos hcarry,ih (carry s) (carry_lt hcarry),residue_carry]
    · rw [if_neg hcarry,residue_of_le (by omega)]

theorem residue_eq_iff (s : ℕ) : residue s = 65535 ↔ 0 < s ∧ 65535 ∣ s := by
  rw [residue]
  split <;> omega

/-- What makes up a sum to 65535. -/
theorem residue_add_complement (s : ℕ) : residue (s + (65535 - residue s)) = 65535 := by
  rw [residue_eq_iff,residue]
  split <;> omega

/-- With its two bytes in the wrong order the complement makes up a sum only if they are equal. -/
theorem residue_add_swapped {s c : ℕ} (hs : 0 < s) (hc : c = 65535 - residue s) :
    residue (c % 256 * 256 + c / 256 + s) = 65535 ↔ 257 ∣ s := by
  have hresidue : residue s = (s - 1) % 65535 + 1 := if_neg (by omega)
  obtain ⟨low,high,hlow,hhigh,hbytes⟩ : ∃ low high, low < 256 ∧ high < 256 ∧
      c = 256 * high + low := ⟨c % 256,c / 256,by omega,by omega,by omega⟩
  obtain ⟨q,hq⟩ : ∃ q, s + c = 65535 * (q + 1) := ⟨(s - 1) / 65535,by omega⟩
  have hswap : c % 256 * 256 + c / 256 = 256 * low + high := by omega
  have hvalid : 65535 ∣ 256 * low + high + s ↔ low = high := by omega
  have hsum : 257 ∣ s ↔ low = high := by omega
  rw [residue_eq_iff,hswap,hvalid,hsum]
  exact and_iff_right (by omega)

/-! ## Sums over bytes -/

/-- The sum of the words of a string; `odd` is what a byte without a partner counts. -/
def wordSum (o : ByteOrder) (odd : UInt8 → ℕ) : List UInt8 → ℕ
  | [] => 0
  | [b] => odd b
  | a::b::bytes => o.value [a,b] + wordSum o odd bytes

/-- The loop over the words with a sum of 32 bits. -/
def sumWords (o : ByteOrder) (odd : UInt8 → ℕ) : List UInt8 → ℕ → ℕ
  | [], sum => sum
  | [b], sum => (sum + odd b) % 4294967296
  | a::b::bytes, sum => sumWords o odd bytes ((sum + o.value [a,b]) % 4294967296)

variable {o : ByteOrder} {odd : UInt8 → ℕ}

theorem value_pair_lt (o : ByteOrder) (a b : UInt8) : o.value [a,b] < 65536 := by
  have ha := a.toNat_lt
  have hb := b.toNat_lt
  cases o <;> simp [ByteOrder.value,ofLeBytes] <;> omega

theorem wordSum_append {before : List UInt8} (heven : Even before.length) (after : List UInt8) :
    wordSum o odd (before ++ after) = wordSum o odd before + wordSum o odd after := by
  induction before using wordSum.induct with
  | case1 => simp [wordSum]
  | case2 b => simp at heven
  | case3 a b bytes ih =>
    have hrest : Even bytes.length := by simpa [Nat.even_add_one] using heven
    rw [List.cons_append,List.cons_append,wordSum,wordSum,ih hrest,Nat.add_assoc]

/-- Strings of at most 65536 bytes have at most 32768 words. -/
theorem wordSum_le (hodd : ∀ b, odd b < 65536) (bytes : List UInt8) :
    wordSum o odd bytes ≤ 65535 * ((bytes.length + 1) / 2) := by
  induction bytes using wordSum.induct with
  | case1 => simp [wordSum]
  | case2 b =>
    have hb := hodd b
    simp only [wordSum,List.length_cons,List.length_nil]
    omega
  | case3 a b bytes ih =>
    have hword := value_pair_lt o a b
    simp only [wordSum,List.length_cons]
    omega

/-- As long as the sum fits, the loop does not wrap. -/
theorem sumWords_eq {bytes : List UInt8} {sum : ℕ}
    (h : sum + wordSum o odd bytes < 4294967296) :
    sumWords o odd bytes sum = sum + wordSum o odd bytes := by
  induction bytes using wordSum.induct generalizing sum with
  | case1 => rfl
  | case2 b => exact Nat.mod_eq_of_lt h
  | case3 a b bytes ih =>
    rw [wordSum] at h
    have hstep : (sum + o.value [a,b]) % 4294967296 = sum + o.value [a,b] :=
      Nat.mod_eq_of_lt (by omega)
    rw [sumWords,hstep,ih (by omega),wordSum,Nat.add_assoc]

end OnesComplement
end UProtocols
