import Mathlib.Data.List.GetD
import Mathlib.Tactic.IntervalCases
import UProtocols.ArpCache
import UProtocols.ByteOrder

/-!
# ARP packets as bytes

`to_bytes` and `from_bytes` of `ArpPacket` in `arp_implementation.rs`.
-/

namespace UProtocols
namespace Arp

def ArpOperation.toU16 : ArpOperation → UInt16
  | request => 1
  | reply => 2

def ArpOperation.fromU16 (value : UInt16) : Option ArpOperation :=
  if value = 1 then some request
  else if value = 2 then some reply
  else none

namespace ArpPacket

def toBytes (p : ArpPacket) : List UInt8 :=
  toBeBytes p.hwType ++ toBeBytes p.protoType ++ [p.hwAddrLen] ++ [p.protoAddrLen] ++
    toBeBytes p.operation.toU16 ++ p.senderHwAddr.bytes.toList ++ p.senderProtoAddr.octets.toList ++
    p.targetHwAddr.bytes.toList ++ p.targetProtoAddr.octets.toList

def fromBytes (data : List UInt8) : Except String ArpPacket :=
  if h : data.length < 28 then .error "Insufficient data for ARP packet"
  else
    match ArpOperation.fromU16 (fromBeBytes data[6] data[7]) with
    | none => .error "Invalid ARP operation"
    | some operation => .ok {
        hwType := fromBeBytes data[0] data[1]
        protoType := fromBeBytes data[2] data[3]
        hwAddrLen := data[4]
        protoAddrLen := data[5]
        operation
        senderHwAddr := ⟨#v[data[8],data[9],data[10],data[11],data[12],data[13]]⟩
        senderProtoAddr := ⟨#v[data[14],data[15],data[16],data[17]]⟩
        targetHwAddr := ⟨#v[data[18],data[19],data[20],data[21],data[22],data[23]]⟩
        targetProtoAddr := ⟨#v[data[24],data[25],data[26],data[27]]⟩ }

end ArpPacket

theorem ArpOperation.fromU16_eq_some {value : UInt16} {operation : ArpOperation} :
    fromU16 value = some operation ↔ operation.toU16 = value := by
  cases operation <;> simp [fromU16,toU16] <;> grind

theorem ArpOperation.fromU16_eq_none {value : UInt16} :
    fromU16 value = none ↔ value ≠ 1 ∧ value ≠ 2 := by
  by_cases hrequest : value = 1
  · simp [fromU16,hrequest]
  · by_cases hreply : value = 2 <;> simp [fromU16,hrequest,hreply]

theorem MacAddress.exists_eq (mac : MacAddress) : ∃ a b c d e f, mac = ⟨#v[a,b,c,d,e,f]⟩ := by
  obtain ⟨⟨⟨bytes⟩,hsize⟩⟩ := mac
  match bytes, hsize with
  | [a,b,c,d,e,f], _ => exact ⟨a,b,c,d,e,f,rfl⟩

theorem Ipv4Addr.exists_eq (ip : Ipv4Addr) : ∃ a b c d, ip = ⟨#v[a,b,c,d]⟩ := by
  obtain ⟨⟨⟨octets⟩,hsize⟩⟩ := ip
  match octets, hsize with
  | [a,b,c,d], _ => exact ⟨a,b,c,d,rfl⟩

namespace ArpPacket

theorem fromBytes_toBytes (p : ArpPacket) : fromBytes p.toBytes = .ok p := by
  obtain ⟨hwType,protoType,hwAddrLen,protoAddrLen,operation,senderHw,senderProto,targetHw,
    targetProto⟩ := p
  obtain ⟨a,b,c,d,e,f,rfl⟩ := senderHw.exists_eq
  obtain ⟨g,h,i,j,rfl⟩ := senderProto.exists_eq
  obtain ⟨k,l,m,n,o,q,rfl⟩ := targetHw.exists_eq
  obtain ⟨r,s,t,u,rfl⟩ := targetProto.exists_eq
  have hoperation := ArpOperation.fromU16_eq_some.mpr (rfl : operation.toU16 = operation.toU16)
  simp [toBytes,fromBytes,toBeBytes,fromBeBytes_toBeBytes,hoperation]

theorem toBytes_of_fromBytes {data : List UInt8} {p : ArpPacket} (h : fromBytes data = .ok p) :
    p.toBytes = data.take 28 := by
  rw [fromBytes] at h
  split at h
  case isTrue => cases h
  case isFalse hlength =>
    split at h
    case h_1 => cases h
    case h_2 operation hoperation =>
      cases h
      rw [ArpOperation.fromU16_eq_some] at hoperation
      apply List.ext_getElem
      · simp [toBytes,toBeBytes]
        omega
      · intro i hi hi'
        rw [List.length_take,Nat.min_eq_left (Nat.not_lt.mp hlength)] at hi'
        simp only [toBytes,toBeBytes_fromBeBytes,hoperation,List.getElem_take]
        interval_cases i <;> rfl

/-- The operation field of a packet that is long enough. -/
def operationField (data : List UInt8) : UInt16 := fromBeBytes (data.getD 6 0) (data.getD 7 0)

theorem fromBytes_error_iff (data : List UInt8) :
    (∃ e, fromBytes data = .error e) ↔
      data.length < 28 ∨ operationField data ≠ 1 ∧ operationField data ≠ 2 := by
  rw [fromBytes]
  by_cases hlength : data.length < 28
  · exact iff_of_true ⟨_,dif_pos hlength⟩ (.inl hlength)
  · have hfield : operationField data = fromBeBytes data[6] data[7] := by
      rw [operationField,List.getD_eq_getElem,List.getD_eq_getElem]
    rw [dif_neg hlength,or_iff_right hlength,hfield,← ArpOperation.fromU16_eq_none]
    cases ArpOperation.fromU16 (fromBeBytes data[6] data[7]) with
    | none => exact iff_of_true ⟨_,rfl⟩ rfl
    | some operation => simp

/-- The two functions undo each other, and `from_bytes` refuses what is too short or has another
operation. -/
theorem arpPacket_codec :
    (∀ p : ArpPacket, fromBytes p.toBytes = .ok p) ∧
      ∀ data : List UInt8,
        ((∃ e, fromBytes data = .error e) ↔
          data.length < 28 ∨ operationField data ≠ 1 ∧ operationField data ≠ 2) ∧
        ∀ p, fromBytes data = .ok p → p.toBytes = data.take 28 :=
  ⟨fromBytes_toBytes,fun data => ⟨fromBytes_error_iff data,fun _ => toBytes_of_fromBytes⟩⟩

end ArpPacket

end Arp
end UProtocols
