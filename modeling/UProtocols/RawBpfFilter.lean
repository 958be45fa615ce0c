import UProtocols.ClassicBpf

/-!
# The hand-written packet filter

`raw_filter` of `raw_bpf_bytecode_filter.c`. The jumps taken for a packet that is not IPv4, not
TCP or a later fragment count to the load of the destination port, three instructions before
the one that rejects, and the index register is zero there.
-/

namespace UProtocols
namespace RawBpfFilter

open ClassicBpf

def rawFilter : List Insn := [
  ⟨0x28,0,0,0x0000000c⟩,
  ⟨0x15,0,8,0x00000800⟩,
  ⟨0x30,0,0,0x00000017⟩,
  ⟨0x15,0,6,0x00000006⟩,
  ⟨0x28,0,0,0x00000014⟩,
  ⟨0x45,4,0,0x00001fff⟩,
  ⟨0xb1,0,0,0x0000000e⟩,
  ⟨0x48,0,0,0x0000000e⟩,
  ⟨0x15,0,1,0x00000050⟩,
  ⟨0x06,0,0,0x00040000⟩,
  ⟨0x48,0,0,0x00000010⟩,
  ⟨0x15,0,1,0x00000050⟩,
  ⟨0x06,0,0,0x00040000⟩,
  ⟨0x06,0,0,0x00000000⟩]

/-- The instructions from the load of the destination port on. -/
def fromDestination : List Instr := [
  .ldInd .half 16,
  .jump .eq 80 0 1,
  .ret 262144,
  .ret 0]

/-- The instructions from the load of the header length on. -/
def fromPorts : List Instr := [
  .ldxMsh 14,
  .ldInd .half 14,
  .jump .eq 80 0 1,
  .ret 262144] ++ fromDestination

def instrs : List Instr := [
  .ldAbs .half 12,
  .jump .eq 0x800 0 8,
  .ldAbs .byte 23,
  .jump .eq 6 0 6,
  .ldAbs .half 20,
  .jump .set 0x1fff 4 0] ++ fromPorts

theorem rawFilter_decodes : rawFilter.mapM decode = some instrs := by decide

/-! ## What the filter is for -/

/-- The length of the IPv4 header, from its first byte. -/
def headerLength (first : UInt32) : ℕ := 4 * (first.toNat % 16)

/-- The packet is an Ethernet frame of type IPv4. -/
def IsIpv4 (packet : List UInt8) : Prop := load packet .half 12 = some 0x0800

def IsTcp (packet : List UInt8) : Prop := load packet .byte 23 = some 6

/-- The field of flags and fragment offset has a zero offset. -/
def IsFirstFragment (packet : List UInt8) : Prop :=
  ∃ field, load packet .half 20 = some field ∧ field &&& 0x1fff = 0

def HasPort80 (packet : List UInt8) : Prop :=
  ∃ first, load packet .byte 14 = some first ∧
    (load packet .half (14 + headerLength first) = some 80 ∨
      load packet .half (14 + headerLength first + 2) = some 80)

variable {packet : List UInt8} {r : Regs}

theorem accepts_fromDestination :
    Accepts packet fromDestination 0 r ↔ load packet .half (r.x.toNat + 16) = some 80 := by
  have hcompare : ∀ a : UInt32, Accepts packet [.jump .eq 80 0 1,.ret 262144,.ret 0] 0 ⟨a,r.x⟩ ↔
      a = 80 := by
    intro a
    by_cases ha : a = 80 <;> simp [Test.holds,ha]
  simp [fromDestination,hcompare]

/-- The two ports decide. -/
theorem accepts_fromPorts : Accepts packet fromPorts 0 r ↔ HasPort80 packet := by
  have hsource : ∀ a x, Accepts packet (.jump .eq 80 0 1::.ret 262144::fromDestination) 0 ⟨a,x⟩ ↔
      a = 80 ∨ load packet .half (x.toNat + 16) = some 80 := by
    intro a x
    by_cases ha : a = 80 <;> simp [Test.holds,ha,accepts_fromDestination]
  have hports : ∀ first, (∃ a, load packet .half (headerLength first + 14) = some a ∧
      (a = 80 ∨ load packet .half (headerLength first + 16) = some 80)) ↔
      load packet .half (14 + headerLength first) = some 80 ∨
        load packet .half (14 + headerLength first + 2) = some 80 := by
    intro first
    rw [show 14 + headerLength first + 2 = headerLength first + 16 by omega,
      Nat.add_comm 14 (headerLength first)]
    constructor
    · rintro ⟨a,ha,rfl | hdestination⟩
      · exact .inl ha
      · exact .inr hdestination
    · rintro (hsrc | hdestination)
      · exact ⟨80,hsrc,.inl rfl⟩
      · -- the destination port is after the source port
        obtain ⟨a,ha⟩ := exists_load_of_le .half (headerLength first + 14) hdestination
          (by simp [Size.bytes])
        exact ⟨a,ha,.inr hdestination⟩
  simp only [fromPorts,List.cons_append,List.nil_append,accepts_ldxMsh,accepts_ldInd,hsource,
    toNat_headerLength]
  simp only [HasPort80,← hports]
  rfl

/-- The packet goes to the load of the destination port without a header length, and the bytes
there look like port 80. -/
def Misjudged (packet : List UInt8) : Prop :=
  load packet .half 16 = some 80 ∧
    (¬ IsIpv4 packet ∨ ∃ protocol, load packet .byte 23 = some protocol ∧
      (¬ IsTcp packet ∨ ¬ IsFirstFragment packet))

theorem accepts_fromDestination_zero {a : UInt32} :
    Accepts packet fromDestination 0 ⟨a,0⟩ ↔ load packet .half 16 = some 80 := by
  rw [accepts_fromDestination]
  rfl

/-- A later fragment goes to the load of the destination port. -/
theorem accepts_fragment {a field : UInt32} (hfield : load packet .half 20 = some field) :
    Accepts packet (.ldAbs .half 20::.jump .set 0x1fff 4 0::fromPorts) 0 ⟨a,0⟩ ↔
      if field &&& 0x1fff = 0 then HasPort80 packet else load packet .half 16 = some 80 := by
  rw [accepts_ldAbs,hfield]
  by_cases hzero : field &&& 0x1fff = 0
  · simp [Test.holds,hzero,accepts_fromPorts]
  · have hskip : Accepts packet fromPorts 4 ⟨field,0⟩ ↔
        Accepts packet fromDestination 0 ⟨field,0⟩ := Iff.rfl
    simp [Test.holds,hzero,hskip,accepts_fromDestination_zero]

/-- From the load of the protocol on. -/
theorem accepts_protocol {a : UInt32} :
    Accepts packet (instrs.drop 2) 0 ⟨a,0⟩ ↔
      IsTcp packet ∧ IsFirstFragment packet ∧ HasPort80 packet ∨
        load packet .half 16 = some 80 ∧ ∃ protocol, load packet .byte 23 = some protocol ∧
          (¬ IsTcp packet ∨ ¬ IsFirstFragment packet) := by
  have hskip : ∀ b, Accepts packet (instrs.drop 4) 6 ⟨b,0⟩ ↔ load packet .half 16 = some 80 :=
    fun _ => accepts_fromDestination_zero
  change Accepts packet (.ldAbs .byte 23::.jump .eq 6 0 6::instrs.drop 4) 0 ⟨a,0⟩ ↔ _
  rw [accepts_ldAbs]
  cases hprotocol : load packet .byte 23 with
  | none => simp [IsTcp,hprotocol]
  | some protocol =>
    by_cases htcp : protocol = 6
    · obtain ⟨field,hfield⟩ := exists_load_of_le .half 20 hprotocol (by simp [Size.bytes])
      have hfirst : IsFirstFragment packet ↔ field &&& 0x1fff = 0 := by
        simp [IsFirstFragment,hfield]
      have hnext : Accepts packet (instrs.drop 4) 0 ⟨6,0⟩ ↔ _ := accepts_fragment hfield
      by_cases hzero : field &&& 0x1fff = 0 <;>
        simp [IsTcp,hprotocol,htcp,Test.holds,hfirst,hnext,hzero]
    · simp [IsTcp,hprotocol,htcp,Test.holds,hskip]

theorem accepts_instrs :
    Accepts packet instrs 0 ⟨0,0⟩ ↔
      (IsIpv4 packet ∧ IsTcp packet ∧ IsFirstFragment packet ∧ HasPort80 packet) ∨
        Misjudged packet := by
  have hskip : ∀ a, Accepts packet (instrs.drop 2) 8 ⟨a,0⟩ ↔ load packet .half 16 = some 80 :=
    fun _ => accepts_fromDestination_zero
  change Accepts packet (.ldAbs .half 12::.jump .eq 0x800 0 8::instrs.drop 2) 0 ⟨0,0⟩ ↔ _
  rw [accepts_ldAbs]
  cases htype : load packet .half 12 with
  | none =>
    have hshort : ¬ Misjudged packet := by
      rintro ⟨hport,-⟩
      obtain ⟨b,hb⟩ := exists_load_of_le .half 12 hport (by simp [Size.bytes])
      rw [htype] at hb
      cases hb
    simp [IsIpv4,htype,hshort]
  | some a =>
    by_cases hip : a = 0x800
    · simp [IsIpv4,Misjudged,htype,hip,Test.holds,accepts_protocol]
    · simp [IsIpv4,Misjudged,htype,hip,Test.holds,hskip]

/-- The filter returns a non-zero value exactly on the first fragments of TCP packets with
port 80, unless it misjudges the packet. -/
theorem rawFilter_iff (packet : List UInt8) :
    ((∃ value, bpfFilter rawFilter packet = some value ∧ value ≠ 0) ↔
      IsIpv4 packet ∧ IsTcp packet ∧ IsFirstFragment packet ∧ HasPort80 packet) ↔
    ¬ Misjudged packet := by
  rw [bpfFilter_ne_zero rawFilter_decodes,accepts_instrs]
  constructor
  · rintro h hbad
    obtain ⟨hip,htcp,hfirst,-⟩ := h.mp (.inr hbad)
    obtain ⟨-,hnot | ⟨protocol,-,hnot | hnot⟩⟩ := hbad
    · exact hnot hip
    · exact hnot htcp
    · exact hnot hfirst
  · intro hgood
    exact or_iff_left hgood

/-- An IPv4 packet that carries UDP and has a total length of 80 is accepted. -/
theorem rawFilter_iff_udp :
    ¬ ∀ packet : List UInt8,
      (∃ value, bpfFilter rawFilter packet = some value ∧ value ≠ 0) ↔
        IsIpv4 packet ∧ IsTcp packet ∧ IsFirstFragment packet ∧ HasPort80 packet := by
  intro h
  -- Ethernet addresses, type 0x0800, then the IPv4 header from offset 14 on
  let packet : List UInt8 := List.replicate 12 0 ++ [0x08,0x00,0x45,0x00,0x00,0x50,0x00,0x00,
    0x00,0x00,0x40,0x11] ++ List.replicate 70 0
  have haccept : bpfFilter rawFilter packet = some 262144 := by decide +kernel
  have htcp : ¬ IsTcp packet := by
    unfold IsTcp
    decide +kernel
  exact htcp ((h packet).mp ⟨262144,haccept,by decide⟩).2.1

end RawBpfFilter
end UProtocols
