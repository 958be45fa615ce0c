import UProtocols.OnesComplement

/-!
# The echo request of the Rust ping

`IcmpEchoPacket` of `ping_implementation.rs`. `as_bytes` is the packet as it lies in memory, so its
fields are in the order of the host; `new` puts the identifier and the sequence number into network
order first.
-/

namespace UProtocols
namespace Ping

open OnesComplement

structure IcmpEchoPacket where
  icmpType : UInt8
  code : UInt8
  checksum : UInt16
  identifier : UInt16
  sequence : UInt16
  data : Vector UInt8 56
  deriving DecidableEq

def swapBytes (v : UInt16) : UInt16 := UInt16.ofNat (v.toNat % 256 * 256 + v.toNat / 256)

/-- `u16::to_be`. -/
def toBe : ByteOrder → UInt16 → UInt16
  | .little, v => swapBytes v
  | .big, v => v

namespace IcmpEchoPacket

def asBytes (host : ByteOrder) (p : IcmpEchoPacket) : List UInt8 :=
  [p.icmpType,p.code] ++ host.bytes 2 p.checksum.toNat ++ host.bytes 2 p.identifier.toNat ++
    host.bytes 2 p.sequence.toNat ++ p.data.toList

/-- The words are read in network order, whatever the host. -/
def calculateChecksum (host : ByteOrder) (p : IcmpEchoPacket) : UInt16 :=
  let sum := fold (sumWords .big (fun b => b.toNat * 256) (p.asBytes host) 0)
  -- `!sum as u16` of a `u32`
  UInt16.ofNat (4294967295 - sum)

/-- The packet of `new` before its checksum is filled in. -/
def unchecked (host : ByteOrder) (identifier sequence : UInt16) : IcmpEchoPacket where
  icmpType := 8
  code := 0
  checksum := 0
  identifier := toBe host identifier
  sequence := toBe host sequence
  data := Vector.ofFn fun i => UInt8.ofNat i

def new (host : ByteOrder) (identifier sequence : UInt16) : IcmpEchoPacket :=
  let packet := unchecked host identifier sequence
  { packet with checksum := packet.calculateChecksum host }

end IcmpEchoPacket

/-- The words of the message, the checksum among them, sum up to 65535. -/
def ValidMessage (bytes : List UInt8) : Prop :=
  fold (wordSum .big (fun b => b.toNat * 256) bytes) = 65535

/-! ## The sum of a packet -/

theorem value_big_pair (a b : UInt8) : ByteOrder.big.value [a,b] = a.toNat * 256 + b.toNat := by
  simp [ByteOrder.value,ofLeBytes]
  omega

theorem bytes_toBe (host : ByteOrder) (v : UInt16) :
    host.bytes 2 (toBe host v).toNat = ByteOrder.big.bytes 2 v.toNat := by
  cases host with
  | big => rfl
  | little =>
    have hv := v.toNat_lt
    have hswap : (swapBytes v).toNat = v.toNat % 256 * 256 + v.toNat / 256 := by
      rw [swapBytes,UInt16.toNat_ofNat']
      exact Nat.mod_eq_of_lt (by omega)
    have hlow : (v.toNat % 256 * 256 + v.toNat / 256) % 2^8 = v.toNat / 256 % 2^8 := by omega
    have hhigh : (v.toNat % 256 * 256 + v.toNat / 256) / 256 = v.toNat % 256 := by omega
    simp only [toBe,hswap,ByteOrder.bytes,leBytes,hhigh,List.reverse_cons,List.reverse_nil,
      List.nil_append,List.singleton_append]
    rw [← UInt8.ofNat_mod_size,hlow,UInt8.ofNat_mod_size]
    exact congrArg (fun b => [UInt8.ofNat (v.toNat / 256),b]) UInt8.ofNat_mod_size

theorem wordSum_bytes_big (v : UInt16) (bytes : List UInt8) (odd : UInt8 → ℕ) :
    wordSum .big odd (ByteOrder.big.bytes 2 v.toNat ++ bytes) =
      v.toNat + wordSum .big odd bytes := by
  have hv := v.toNat_lt
  have hvalue := ByteOrder.value_bytes_of_lt .big (w := 2) hv
  exact congrArg (· + wordSum .big odd bytes) hvalue

/-- The words of a request but the checksum sum up to 196368 and the two numbers. -/
theorem wordSum_request (host : ByteOrder) (checksum identifier sequence : UInt16) :
    wordSum .big (fun b => b.toNat * 256)
      (IcmpEchoPacket.asBytes host
        { IcmpEchoPacket.unchecked host identifier sequence with checksum }) =
      ByteOrder.big.value (host.bytes 2 checksum.toNat) + identifier.toNat + sequence.toNat +
        196368 := by
  have hchecksum : ∀ bytes, wordSum .big (fun b => b.toNat * 256)
      (host.bytes 2 checksum.toNat ++ bytes) =
      ByteOrder.big.value (host.bytes 2 checksum.toNat) +
        wordSum .big (fun b => b.toNat * 256) bytes := by
    intro bytes
    cases host <;> rfl
  have hdata : wordSum .big (fun b => b.toNat * 256)
      (Vector.ofFn fun i : Fin 56 => UInt8.ofNat i).toList = 194320 := by decide +kernel
  have hfirst : ∀ bytes, wordSum .big (fun b => b.toNat * 256) ([8,0] ++ bytes) =
      2048 + wordSum .big (fun b => b.toNat * 256) bytes := fun bytes => rfl
  simp only [IcmpEchoPacket.asBytes,IcmpEchoPacket.unchecked,List.append_assoc,bytes_toBe,hfirst,
    hchecksum,wordSum_bytes_big,hdata]
  omega

theorem new_checksum (host : ByteOrder) (identifier sequence : UInt16) :
    (IcmpEchoPacket.new host identifier sequence).checksum.toNat =
      65535 - residue (identifier.toNat + sequence.toNat + 196368) := by
  have hidentifier := identifier.toNat_lt
  have hsequence := sequence.toNat_lt
  have hsum := wordSum_request host 0 identifier sequence
  have hzero : ByteOrder.big.value (host.bytes 2 (0 : UInt16).toNat) = 0 := by cases host <;> rfl
  rw [hzero,Nat.zero_add] at hsum
  have hle := residue_le (identifier.toNat + sequence.toNat + 196368)
  have hwords : sumWords .big (fun b => b.toNat * 256)
      ((IcmpEchoPacket.unchecked host identifier sequence).asBytes host) 0 =
      identifier.toNat + sequence.toNat + 196368 := by
    rw [sumWords_eq,Nat.zero_add]
    · exact hsum
    · rw [Nat.zero_add]
      exact Nat.lt_of_le_of_lt (Nat.le_of_eq hsum) (by omega)
  rw [IcmpEchoPacket.new]
  simp only [IcmpEchoPacket.calculateChecksum,hwords,fold_eq,UInt16.toNat_ofNat']
  omega

/-- The checksum is stored in the order of the host. On a little-endian one the message is valid
exactly if the two bytes of the checksum are the same. -/
theorem validMessage_new_iff (identifier sequence : UInt16) :
    ValidMessage ((IcmpEchoPacket.new .little identifier sequence).asBytes .little) ↔
      257 ∣ identifier.toNat + sequence.toNat + 20 := by
  have hchecksum := new_checksum .little identifier sequence
  have hsum := wordSum_request .little (IcmpEchoPacket.new .little identifier sequence).checksum
    identifier sequence
  change wordSum .big _ ((IcmpEchoPacket.new .little identifier sequence).asBytes .little) = _
    at hsum
  have hbytes : ByteOrder.big.value (ByteOrder.little.bytes 2
      (IcmpEchoPacket.new .little identifier sequence).checksum.toNat) =
      (IcmpEchoPacket.new .little identifier sequence).checksum.toNat % 256 * 256 +
        (IcmpEchoPacket.new .little identifier sequence).checksum.toNat / 256 := by
    have hlt := (IcmpEchoPacket.new .little identifier sequence).checksum.toNat_lt
    simp only [ByteOrder.bytes,leBytes,value_big_pair,UInt8.toNat_ofNat']
    omega
  rw [ValidMessage,hsum,hbytes,fold_eq,Nat.add_assoc,Nat.add_assoc,← Nat.add_assoc identifier.toNat,
    residue_add_swapped (by omega) hchecksum]
  omega

/-- The first request of the process with number 1. -/
theorem not_validMessage_new :
    ¬ ValidMessage ((IcmpEchoPacket.new .little 1 0).asBytes .little) := by
  have hsum := wordSum_request .little (IcmpEchoPacket.new .little 1 0).checksum 1 0
  change wordSum .big _ ((IcmpEchoPacket.new .little 1 0).asBytes .little) = _ at hsum
  rw [new_checksum] at hsum
  rw [ValidMessage,hsum,fold_eq]
  decide

end Ping
end UProtocols
