import UProtocols.ByteOrder

/-!
# Classic BPF

The machine that runs packet filters: an accumulator and an index register of 32 bits, loads
from the packet in network byte order, jumps forward relative to the next instruction, and a
returned number of bytes, zero to reject. A load beyond the end of the packet rejects. Loads,
conditional jumps against a constant and returns of a constant are modelled.
-/

namespace UProtocols
namespace ClassicBpf

/-- `struct bpf_insn`. -/
structure Insn where
  code : UInt16
  jt : UInt8
  jf : UInt8
  k : UInt32
  deriving DecidableEq

inductive Size
  | word
  | half
  | byte
  deriving DecidableEq

def Size.bytes : Size → ℕ
  | word => 4
  | half => 2
  | byte => 1

inductive Test
  | eq
  | gt
  | ge
  | set
  deriving DecidableEq

def Test.holds : Test → UInt32 → UInt32 → Bool
  | eq, a, k => a == k
  | gt, a, k => a > k
  | ge, a, k => a ≥ k
  | set, a, k => a &&& k != 0

inductive Instr
  | ldAbs (size : Size) (k : ℕ)
  | ldInd (size : Size) (k : ℕ)
  | ldxMsh (k : ℕ)
  | jump (test : Test) (k : UInt32) (jt jf : ℕ)
  | ret (k : UInt32)
  deriving DecidableEq

def decode (i : Insn) : Option Instr :=
  match i.code.toNat with
  | 0x20 => some (.ldAbs .word i.k.toNat)
  | 0x28 => some (.ldAbs .half i.k.toNat)
  | 0x30 => some (.ldAbs .byte i.k.toNat)
  | 0x40 => some (.ldInd .word i.k.toNat)
  | 0x48 => some (.ldInd .half i.k.toNat)
  | 0x50 => some (.ldInd .byte i.k.toNat)
  | 0xb1 => some (.ldxMsh i.k.toNat)
  | 0x15 => some (.jump .eq i.k i.jt.toNat i.jf.toNat)
  | 0x25 => some (.jump .gt i.k i.jt.toNat i.jf.toNat)
  | 0x35 => some (.jump .ge i.k i.jt.toNat i.jf.toNat)
  | 0x45 => some (.jump .set i.k i.jt.toNat i.jf.toNat)
  | 0x06 => some (.ret i.k)
  | _ => none

structure Regs where
  a : UInt32
  x : UInt32
  deriving DecidableEq

/-- A field of the packet, if it lies within it. -/
def load (packet : List UInt8) (size : Size) (offset : ℕ) : Option UInt32 :=
  if offset + size.bytes ≤ packet.length then
    some (UInt32.ofNat (ByteOrder.big.value ((packet.drop offset).take size.bytes)))
  else none

/-- A packet that has a field has every field that ends before it. -/
theorem exists_load_of_le {packet : List UInt8} {size' : Size} {offset' : ℕ} {a : UInt32}
    (size : Size) (offset : ℕ) (h : load packet size' offset' = some a)
    (hle : offset + size.bytes ≤ offset' + size'.bytes) : ∃ b, load packet size offset = some b := by
  by_cases hlength : offset' + size'.bytes ≤ packet.length
  · exact ⟨_,if_pos (hle.trans hlength)⟩
  · rw [load,if_neg hlength] at h
    cases h

/-- Run the instructions after the first `skip` ones. -/
def run (packet : List UInt8) : List Instr → ℕ → Regs → UInt32
  | [], _, _ => 0
  | _::rest, skip + 1, r => run packet rest skip r
  | .ldAbs size k::rest, 0, r =>
    match load packet size k with
    | some a => run packet rest 0 {r with a := a}
    | none => 0
  | .ldInd size k::rest, 0, r =>
    match load packet size (r.x.toNat + k) with
    | some a => run packet rest 0 {r with a := a}
    | none => 0
  | .ldxMsh k::rest, 0, r =>
    match load packet .byte k with
    | some b => run packet rest 0 {r with x := 4 * (b &&& 0xf)}
    | none => 0
  | .jump test k jt jf::rest, 0, r => run packet rest (if test.holds r.a k then jt else jf) r
  | .ret k::_, 0, _ => k

/-- `bpf_filter`: a program starts with both registers zero. -/
def bpfFilter (program : List Insn) (packet : List UInt8) : Option UInt32 :=
  (program.mapM decode).map fun instrs => run packet instrs 0 ⟨0,0⟩

/-! ## Acceptance -/

def Accepts (packet : List UInt8) (instrs : List Instr) (skip : ℕ) (r : Regs) : Prop :=
  run packet instrs skip r ≠ 0

variable {packet : List UInt8} {instrs : List Instr} {r : Regs}

@[simp] theorem accepts_skip {i : Instr} {skip : ℕ} :
    Accepts packet (i::instrs) (skip + 1) r ↔ Accepts packet instrs skip r := Iff.rfl

@[simp] theorem accepts_ldAbs {size : Size} {k : ℕ} :
    Accepts packet (.ldAbs size k::instrs) 0 r ↔
      ∃ a, load packet size k = some a ∧ Accepts packet instrs 0 {r with a := a} := by
  cases hload : load packet size k <;> simp [Accepts,run,hload]

@[simp] theorem accepts_ldInd {size : Size} {k : ℕ} :
    Accepts packet (.ldInd size k::instrs) 0 r ↔
      ∃ a, load packet size (r.x.toNat + k) = some a ∧
        Accepts packet instrs 0 {r with a := a} := by
  cases hload : load packet size (r.x.toNat + k) <;> simp [Accepts,run,hload]

@[simp] theorem accepts_ldxMsh {k : ℕ} :
    Accepts packet (.ldxMsh k::instrs) 0 r ↔
      ∃ b, load packet .byte k = some b ∧
        Accepts packet instrs 0 {r with x := 4 * (b &&& 0xf)} := by
  cases hload : load packet .byte k <;> simp [Accepts,run,hload]

@[simp] theorem accepts_jump {test : Test} {k : UInt32} {jt jf : ℕ} :
    Accepts packet (.jump test k jt jf::instrs) 0 r ↔
      Accepts packet instrs (if test.holds r.a k then jt else jf) r := Iff.rfl

@[simp] theorem accepts_ret {k : UInt32} : Accepts packet (.ret k::instrs) 0 r ↔ k ≠ 0 := Iff.rfl

theorem bpfFilter_ne_zero {program : List Insn} (h : program.mapM decode = some instrs) :
    (∃ value, bpfFilter program packet = some value ∧ value ≠ 0) ↔
      Accepts packet instrs 0 ⟨0,0⟩ := by
  simp [bpfFilter,h,Accepts]

/-- The offset that `ldxMsh` leaves in the index register. -/
theorem toNat_headerLength (b : UInt32) : (4 * (b &&& 0xf)).toNat = 4 * (b.toNat % 16) := by
  have hmask : (b &&& 0xf).toNat = b.toNat % 16 := by
    rw [UInt32.toNat_and]
    exact Nat.and_two_pow_sub_one_eq_mod b.toNat 4
  rw [UInt32.toNat_mul,hmask]
  have hlt := Nat.mod_lt b.toNat (show 16 > 0 by decide)
  show 4 * (b.toNat % 16) % 4294967296 = _
  omega

end ClassicBpf
end UProtocols
