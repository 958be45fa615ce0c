import UProtocols.ReliableUdp

/-!
# The packet format of the Rust reliable-UDP endpoint

`to_bytes` and `from_bytes` of `Packet`: both directions, and the accesses that `from_bytes` makes
to the bytes it is given.
-/

namespace UProtocols
namespace ReliableUdp

variable {bytes : List UInt8} {offset width : ℕ}

/-- The bytes of an access, if it is inside. -/
def access (bytes : List UInt8) (offset width : ℕ) : Option (List UInt8) :=
  if offset + width ≤ bytes.length then some ((bytes.drop offset).take width) else none

theorem access_eq (h : offset + width ≤ bytes.length) :
    access bytes offset width = some ((bytes.drop offset).take width) := if_pos h

namespace PacketHeader

/-- `read_unaligned`, which has no meaning outside the buffer. -/
def readUnaligned (o : ByteOrder) (bytes : List UInt8) : Option PacketHeader :=
  (access bytes 0 size).map (read o)

theorem field_take {n : ℕ} (o : ByteOrder) (h : offset + width ≤ n) :
    field o (bytes.take n) offset width = field o bytes offset width := by
  rw [field,field,List.drop_take,List.take_take,Nat.min_eq_left (by omega)]

/-- The header is read from the first bytes only. -/
theorem read_take (o : ByteOrder) (bytes : List UInt8) :
    read o (bytes.take size) = read o bytes := by
  simp only [read,size,field_take o (show 0 + 4 ≤ 28 by decide),
    field_take o (show 4 + 4 ≤ 28 by decide),field_take o (show 8 + 8 ≤ 28 by decide),
    field_take o (show 16 + 8 ≤ 28 by decide),field_take o (show 24 + 2 ≤ 28 by decide),
    field_take o (show 26 + 1 ≤ 28 by decide),field_take o (show 27 + 1 ≤ 28 by decide)]

theorem field_lt (o : ByteOrder) (bytes : List UInt8) (offset width : ℕ) :
    field o bytes offset width < 256^width := by
  have hlt := o.value_lt ((bytes.drop offset).take width)
  exact hlt.trans_le (Nat.pow_le_pow_right (by decide) (List.length_take_le _ _))

/-- A field inside the buffer has its bytes as its image. -/
theorem bytes_field (o : ByteOrder) (h : offset + width ≤ bytes.length) :
    o.bytes width (field o bytes offset width) = (bytes.drop offset).take width := by
  apply o.bytes_value
  rw [List.length_take,List.length_drop]
  omega

theorem singleton_ofNat_value (o : ByteOrder) (h : offset + 1 ≤ bytes.length) :
    [UInt8.ofNat (field o bytes offset 1)] = (bytes.drop offset).take 1 := by
  rw [← bytes_field o h]
  cases o <;> rfl

theorem take_append_take_drop (bytes : List UInt8) (i j k : ℕ) :
    (bytes.drop i).take j ++ (bytes.drop (i + j)).take k = (bytes.drop i).take (j + k) := by
  rw [List.take_add,List.drop_drop]

/-- The header that is read has the first bytes as its image. -/
theorem toBytes_read (o : ByteOrder) (h : size ≤ bytes.length) :
    (read o bytes).toBytes o = bytes.take size := by
  rw [size] at h
  have hsequence : (read o bytes).sequence.toNat = field o bytes 0 4 :=
    UInt32.toNat_ofNat_of_lt' (field_lt o bytes 0 4)
  have hack : (read o bytes).ack.toNat = field o bytes 4 4 :=
    UInt32.toNat_ofNat_of_lt' (field_lt o bytes 4 4)
  have hbitfield : (read o bytes).ackBitfield.toNat = field o bytes 8 8 :=
    UInt64.toNat_ofNat_of_lt' (field_lt o bytes 8 8)
  have htimestamp : (read o bytes).timestampUs.toNat = field o bytes 16 8 :=
    UInt64.toNat_ofNat_of_lt' (field_lt o bytes 16 8)
  have hlength : (read o bytes).dataLength.toNat = field o bytes 24 2 :=
    UInt16.toNat_ofNat_of_lt' (field_lt o bytes 24 2)
  have hlast : [(read o bytes).flags,(read o bytes).reserved] = (bytes.drop 26).take 2 := by
    have hflags : [(read o bytes).flags] = (bytes.drop 26).take 1 :=
      singleton_ofNat_value o (by omega)
    have hreserved : [(read o bytes).reserved] = (bytes.drop 27).take 1 :=
      singleton_ofNat_value o (by omega)
    rw [← take_append_take_drop bytes 26 1 1,← hflags,← hreserved]
    rfl
  rw [toBytes,hsequence,hack,hbitfield,htimestamp,hlength,hlast,bytes_field o (by omega),
    bytes_field o (by omega),bytes_field o (by omega),bytes_field o (by omega),
    bytes_field o (by omega),take_append_take_drop,take_append_take_drop,take_append_take_drop,
    take_append_take_drop,take_append_take_drop]
  rfl

/-- Reading the header of a buffer that is long enough stays inside it. -/
theorem readUnaligned_eq (o : ByteOrder) (h : size ≤ bytes.length) :
    readUnaligned o bytes = some (read o bytes) := by
  rw [readUnaligned,access_eq (by omega),Option.map_some,List.drop_zero,read_take]

end PacketHeader

namespace Packet

/-- `from_bytes` with every access to the bytes checked. -/
def fromBytesChecked (o : ByteOrder) (bytes : List UInt8) : Option (Except IoError Packet) :=
  if bytes.length < PacketHeader.size then some (.error ⟨.invalidData,"Packet too small"⟩)
  else
    (PacketHeader.readUnaligned o bytes).bind fun header =>
      if bytes.length < PacketHeader.size + header.dataLength.toNat then
        some (.error ⟨.invalidData,"Incomplete packet"⟩)
      else
        (access bytes PacketHeader.size header.dataLength.toNat).map fun data =>
          .ok ⟨header,data⟩

theorem fromBytesChecked_eq (o : ByteOrder) (bytes : List UInt8) :
    fromBytesChecked o bytes = some (fromBytes o bytes) := by
  rw [fromBytesChecked,fromBytes]
  by_cases hsize : bytes.length < PacketHeader.size
  · rw [if_pos hsize,if_pos hsize]
  · rw [if_neg hsize,if_neg hsize,PacketHeader.readUnaligned_eq o (Nat.not_lt.mp hsize),
      Option.bind_some]
    dsimp only
    by_cases hdata : bytes.length < PacketHeader.size + (PacketHeader.read o bytes).dataLength.toNat
    · rw [if_pos hdata,if_pos hdata]
    · rw [if_neg hdata,if_neg hdata,access_eq (Nat.not_lt.mp hdata),Option.map_some,List.drop_take,
        Nat.add_sub_cancel_left]

/-- The length field of a buffer that is long enough. -/
def dataLengthOf (o : ByteOrder) (bytes : List UInt8) : ℕ := o.value ((bytes.drop 24).take 2)

theorem dataLengthOf_eq (o : ByteOrder) (bytes : List UInt8) :
    (PacketHeader.read o bytes).dataLength.toNat = dataLengthOf o bytes :=
  UInt16.toNat_ofNat_of_lt' (PacketHeader.field_lt o bytes 24 2)

theorem fromBytes_error_iff (o : ByteOrder) (bytes : List UInt8) :
    (∃ error, fromBytes o bytes = .error error) ↔
      bytes.length < 28 ∨ bytes.length < 28 + dataLengthOf o bytes := by
  simp only [fromBytes,PacketHeader.size,dataLengthOf_eq]
  by_cases hsize : bytes.length < 28
  · rw [if_pos hsize]
    exact iff_of_true ⟨_,rfl⟩ (.inl hsize)
  · rw [if_neg hsize]
    by_cases hdata : bytes.length < 28 + dataLengthOf o bytes
    · rw [if_pos hdata]
      exact iff_of_true ⟨_,rfl⟩ (.inr hdata)
    · rw [if_neg hdata]
      refine iff_of_false ?_ (not_or.mpr ⟨hsize,hdata⟩)
      intro h
      obtain ⟨error,h⟩ := h
      cases h

theorem toBytes_of_fromBytes {o : ByteOrder} {p : Packet} (h : fromBytes o bytes = .ok p) :
    p.toBytes o = bytes.take (28 + dataLengthOf o bytes) := by
  simp only [fromBytes,dataLengthOf_eq] at h
  split at h
  · cases h
  · rename_i hsize
    split at h
    · cases h
    · cases h
      rw [toBytes,PacketHeader.toBytes_read o (Nat.not_lt.mp hsize),List.drop_take,
        Nat.add_sub_cancel_left,← List.take_add]
      rfl

/-- The packet that `Packet::new` makes, with the other fields of the header set. -/
def newWith (sequence : UInt32) (data : List UInt8) (ack : UInt32)
    (ackBitfield timestampUs : UInt64) (flags reserved : UInt8) : Packet :=
  let packet := new sequence data
  { packet with header := { packet.header with ack,ackBitfield,timestampUs,flags,reserved } }

theorem newWith_lengthOk {data : List UInt8} (h : data.length ≤ 65535) (sequence ack : UInt32)
    (ackBitfield timestampUs : UInt64) (flags reserved : UInt8) :
    (newWith sequence data ack ackBitfield timestampUs flags reserved).LengthOk :=
  UInt16.toNat_ofNat_of_lt' (Nat.lt_succ_of_le h)

/-- The two functions undo each other, and `from_bytes` refuses what is too short and reads nothing
outside its argument. -/
theorem packet_codec (o : ByteOrder) :
    (∀ (sequence : UInt32) (data : List UInt8) (ack : UInt32) (ackBitfield timestampUs : UInt64)
        (flags reserved : UInt8), data.length ≤ 65535 →
      fromBytes o ((newWith sequence data ack ackBitfield timestampUs flags reserved).toBytes o) =
        .ok (newWith sequence data ack ackBitfield timestampUs flags reserved)) ∧
    ∀ bytes : List UInt8,
      fromBytesChecked o bytes = some (fromBytes o bytes) ∧
      ((∃ error, fromBytes o bytes = .error error) ↔
        bytes.length < 28 ∨ bytes.length < 28 + dataLengthOf o bytes) ∧
      ∀ p, fromBytes o bytes = .ok p → p.toBytes o = bytes.take (28 + dataLengthOf o bytes) := by
  constructor
  · intro sequence data ack ackBitfield timestampUs flags reserved hdata
    exact fromBytes_toBytes o _ (newWith_lengthOk hdata _ _ _ _ _ _)
  · intro bytes
    exact ⟨fromBytesChecked_eq o bytes,fromBytes_error_iff o bytes,fun _ => toBytes_of_fromBytes⟩

theorem packet_codec_pair : ([65,66] : List UInt8).length ≤ 65535 ∧
    fromBytes .big ((newWith 7 [65,66] 5 3 1000 1 0).toBytes .big) =
      .ok (newWith 7 [65,66] 5 3 1000 1 0) :=
  ⟨by decide,(packet_codec .big).1 7 [65,66] 5 3 1000 1 0 (by decide)⟩

end Packet
end ReliableUdp
end UProtocols
