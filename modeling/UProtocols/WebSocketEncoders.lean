import UProtocols.WebSocketFrame

/-!
# The frame encoders

The zero-copy builder of `zero_copy_websocket.rs` and the compressed frames of
`websocket_permessage_deflate.rs`, each with its own code for the length field.
Both write the shortest length form, and `try_extract_frame` reads it back.
-/

namespace UProtocols
namespace WebSocket

/-- A Rust byte vector or slice: it has at most `isize::MAX` bytes. -/
abbrev Bytes := {bytes : List UInt8 // bytes.length < 2^63}

namespace ZeroCopy

inductive BufferRef
  | owned (bytes : List UInt8)
  | borrowed (bytes : List UInt8)
  deriving DecidableEq

def BufferRef.asSlice : BufferRef → List UInt8
  | owned bytes => bytes
  | borrowed bytes => bytes

/-- The bytes of the slices in order, as a vectored write sends them. -/
def sliceBytes (buffers : List BufferRef) : List UInt8 := buffers.flatMap BufferRef.asSlice

structure BufferChain where
  buffers : List BufferRef
  totalSize : ℕ
  totalSize_eq : totalSize = (sliceBytes buffers).length
  deriving DecidableEq

namespace BufferChain

def new : BufferChain := ⟨[],0,rfl⟩

def push (c : BufferChain) (buffer : BufferRef) : BufferChain where
  buffers := c.buffers ++ [buffer]
  totalSize := c.totalSize + buffer.asSlice.length
  totalSize_eq := by simp [sliceBytes,c.totalSize_eq]

def addOwned (c : BufferChain) (data : List UInt8) : BufferChain := c.push (.owned data)

def addBorrowed (c : BufferChain) (data : List UInt8) : BufferChain := c.push (.borrowed data)

/-- The old buffers behind a new first one. -/
def insertFront (c : BufferChain) (header : List UInt8) : BufferChain where
  buffers := .owned header :: c.buffers
  totalSize := c.totalSize + header.length
  totalSize_eq := by
    simp only [sliceBytes,List.flatMap_cons,BufferRef.asSlice,List.length_append,c.totalSize_eq]
    omega

end BufferChain

structure ZeroCopyWebSocketFrame where
  chain : BufferChain
  deriving DecidableEq

/-- The header that `add_header` inserts. -/
def headerBytes (opcode : UInt8) (payloadLen : ℕ) (fin : Bool) : List UInt8 :=
  let firstByte := (if fin then 0x80 else 0x00) ||| (opcode &&& 0x0F)
  if payloadLen < 126 then [firstByte,UInt8.ofNat payloadLen]
  else if payloadLen < 65536 then
    firstByte :: 126 :: ByteOrder.big.bytes 2 (payloadLen % 2^16)
  else firstByte :: 127 :: ByteOrder.big.bytes 8 payloadLen

namespace ZeroCopyWebSocketFrame

def new : ZeroCopyWebSocketFrame := ⟨BufferChain.new⟩

def addHeader (f : ZeroCopyWebSocketFrame) (opcode : UInt8) (payloadLen : ℕ) (fin : Bool) :
    ZeroCopyWebSocketFrame :=
  ⟨f.chain.insertFront (headerBytes opcode payloadLen fin)⟩

def addPayloadOwned (f : ZeroCopyWebSocketFrame) (payload : List UInt8) :
    ZeroCopyWebSocketFrame := ⟨f.chain.addOwned payload⟩

def addPayloadBorrowed (f : ZeroCopyWebSocketFrame) (payload : List UInt8) :
    ZeroCopyWebSocketFrame := ⟨f.chain.addBorrowed payload⟩

/-- What `send_vectored` hands to the writer. -/
def bytes (f : ZeroCopyWebSocketFrame) : List UInt8 := sliceBytes f.chain.buffers

def len (f : ZeroCopyWebSocketFrame) : ℕ := f.chain.totalSize

end ZeroCopyWebSocketFrame
end ZeroCopy

namespace PermessageDeflate

/-- Drop the end marker `00 00 FF FF` of a stream. -/
def stripTail (compressed : List UInt8) : List UInt8 :=
  if compressed.length ≥ 4 ∧ compressed.drop (compressed.length - 4) = [0x00,0x00,0xFF,0xFF] then
    compressed.take (compressed.length - 4)
  else compressed

variable {ε : Type}

/-- `deflate` is the encoder's `write_all` and `finish`. -/
def compress (deflate : List UInt8 → Except ε Bytes) (data : List UInt8) :
    Except ε (List UInt8) :=
  (deflate data).map fun compressed => stripTail compressed.val

/-- The frame around the compressed bytes, its length pushed byte by byte. -/
def frameAround (compressed : List UInt8) : List UInt8 :=
  let len := compressed.length
  let first : UInt8 := 0x80 ||| 0x40 ||| 0x01
  let lengthBytes : List UInt8 :=
    if len < 126 then [UInt8.ofNat len]
    else if len ≤ 0xFFFF then [126,UInt8.ofNat (len >>> 8),UInt8.ofNat (len &&& 0xFF)]
    else 127 :: (List.range 8).reverse.map fun i => UInt8.ofNat (len >>> (i * 8))
  first :: (lengthBytes ++ compressed)

def createCompressedFrame (deflate : List UInt8 → Except ε Bytes) (message : String) :
    Except ε (List UInt8) :=
  (compress deflate message.toUTF8.toList).map frameAround

end PermessageDeflate

/-! ## Both encoders write the shortest form -/

namespace LengthForm

def shortest (n : ℕ) : LengthForm :=
  if n < 126 then bits7 else if n < 65536 then bits16 else bits64

theorem shortest_fits {n : ℕ} (h : n < 2^64) : (shortest n).Fits n := by
  rw [shortest]
  split_ifs with h7 h16
  · exact h7
  · exact h16
  · exact h

theorem width_le (form : LengthForm) : form.width ≤ 8 := by
  cases form <;> decide

end LengthForm

/-- The length field of an unmasked frame in its shortest form. -/
def lengthBytes (n : ℕ) : List UInt8 :=
  UInt8.ofNat ((LengthForm.shortest n).code n) ::
    ByteOrder.big.bytes (LengthForm.shortest n).width n

def unmasked (first : UInt8) (payload : Bytes) : Frame where
  first := first
  form := .shortest payload.val.length
  mask := none
  payload := payload.val
  fits := LengthForm.shortest_fits (by have h := payload.property; omega)
  size_lt := by
    have h := payload.property
    have hw := (LengthForm.shortest payload.val.length).width_le
    simp only [Option.isSome_none,Bool.false_eq_true,if_false]
    omega

theorem unmasked_encode (first : UInt8) (payload : Bytes) :
    (unmasked first payload).encode = first :: (lengthBytes payload.val.length ++ payload.val) := by
  simp [Frame.encode,Frame.second,Frame.maskBytes,Frame.body,unmasked,lengthBytes]

theorem lengthBytes_bits7 {n : ℕ} (h : n < 126) : lengthBytes n = [UInt8.ofNat n] := by
  rw [lengthBytes,LengthForm.shortest,if_pos h]
  rfl

theorem lengthBytes_bits16 {n : ℕ} (h7 : ¬ n < 126) (h16 : n < 65536) :
    lengthBytes n = 126 :: ByteOrder.big.bytes 2 n := by
  rw [lengthBytes,LengthForm.shortest,if_neg h7,if_pos h16]
  rfl

theorem lengthBytes_bits64 {n : ℕ} (h : ¬ n < 65536) :
    lengthBytes n = 127 :: ByteOrder.big.bytes 8 n := by
  rw [lengthBytes,LengthForm.shortest,if_neg (by omega),if_neg h]
  rfl

theorem ZeroCopy.headerBytes_eq (opcode : UInt8) (n : ℕ) (fin : Bool) :
    headerBytes opcode n fin =
      ((if fin then 0x80 else 0x00) ||| (opcode &&& 0x0F)) :: lengthBytes n := by
  simp only [headerBytes]
  by_cases h7 : n < 126
  · rw [if_pos h7,lengthBytes_bits7 h7]
  · rw [if_neg h7]
    by_cases h16 : n < 65536
    · have hmod : n % 2^16 = n := Nat.mod_eq_of_lt h16
      rw [if_pos h16,lengthBytes_bits16 h7 h16,hmod]
    · rw [if_neg h16,lengthBytes_bits64 h16]

theorem big_bytes_two (n : ℕ) :
    ByteOrder.big.bytes 2 n = [UInt8.ofNat (n >>> 8),UInt8.ofNat (n &&& 0xFF)] := by
  have hlow : UInt8.ofNat (n &&& 0xFF) = UInt8.ofNat n := by
    rw [Nat.and_two_pow_sub_one_eq_mod n 8]
    apply UInt8.toNat_inj.mp
    simp
  simp [ByteOrder.bytes,leBytes,hlow,Nat.shiftRight_eq_div_pow]

theorem PermessageDeflate.frameAround_eq (compressed : List UInt8) :
    frameAround compressed = 0xC1 :: (lengthBytes compressed.length ++ compressed) := by
  simp only [frameAround]
  congr 2
  by_cases h7 : compressed.length < 126
  · rw [if_pos h7,lengthBytes_bits7 h7]
  · rw [if_neg h7]
    by_cases h16 : compressed.length < 65536
    · rw [if_pos (by omega),lengthBytes_bits16 h7 h16,big_bytes_two]
    · rw [if_neg (by omega),lengthBytes_bits64 h16,ByteOrder.bytes,leBytes_eq_map,
        List.map_reverse]

/-- The frame that the builder makes for a payload: `add_header` goes to the front
of the chain, so the payload may be added before it or after it. -/
def ZeroCopy.built (opcode : UInt8) (payload : List UInt8) (fin : Bool) :
    List ZeroCopyWebSocketFrame :=
  [((ZeroCopyWebSocketFrame.new.addHeader opcode payload.length fin).addPayloadOwned payload),
   ((ZeroCopyWebSocketFrame.new.addHeader opcode payload.length fin).addPayloadBorrowed payload),
   ((ZeroCopyWebSocketFrame.new.addPayloadOwned payload).addHeader opcode payload.length fin),
   ((ZeroCopyWebSocketFrame.new.addPayloadBorrowed payload).addHeader opcode payload.length fin)]

theorem ZeroCopy.bytes_of_mem_built {opcode : UInt8} {payload : List UInt8} {fin : Bool}
    {f : ZeroCopyWebSocketFrame} (h : f ∈ built opcode payload fin) :
    f.bytes = headerBytes opcode payload.length fin ++ payload := by
  simp only [built,List.mem_cons,List.not_mem_nil,or_false] at h
  obtain rfl | rfl | rfl | rfl := h <;>
    simp [ZeroCopyWebSocketFrame.bytes,ZeroCopyWebSocketFrame.addHeader,
      ZeroCopyWebSocketFrame.addPayloadOwned,ZeroCopyWebSocketFrame.addPayloadBorrowed,
      ZeroCopyWebSocketFrame.new,BufferChain.addOwned,BufferChain.addBorrowed,BufferChain.push,
      BufferChain.insertFront,BufferChain.new,sliceBytes,BufferRef.asSlice]

theorem PermessageDeflate.stripTail_length_le (compressed : List UInt8) :
    (stripTail compressed).length ≤ compressed.length := by
  rw [stripTail]
  split
  · simp
  · exact Nat.le_refl _

/-- Fed to a new frame buffer, the bytes give this payload and leave nothing behind. -/
def ReadsBack (bytes payload : List UInt8) : Prop :=
  ∃ b, (WebSocketFrameBuffer.new.addReceivedData bytes).tryExtractFrame = .ok (some payload,b) ∧
    b.recvBuffer.data = []

theorem readsBack_shortest (first : UInt8) (payload : Bytes) :
    ReadsBack (first :: (lengthBytes payload.val.length ++ payload.val)) payload.val := by
  rw [← unmasked_encode]
  exact tryExtractFrame_encode (unmasked first payload)

/-- `try_extract_frame` reads back what the zero-copy builder writes for any payload
and what `create_compressed_frame` writes for any message and any compressor. -/
theorem encoders_readBack {ε : Type} :
    (∀ (opcode : UInt8) (payload : Bytes) (fin : Bool),
      ∀ f ∈ ZeroCopy.built opcode payload.val fin, ReadsBack f.bytes payload.val) ∧
    ∀ (deflate : List UInt8 → Except ε Bytes) (message : String),
      match PermessageDeflate.compress deflate message.toUTF8.toList with
      | .error e => PermessageDeflate.createCompressedFrame deflate message = .error e
      | .ok compressed =>
        ∃ frame, PermessageDeflate.createCompressedFrame deflate message = .ok frame ∧
          ReadsBack frame compressed := by
  constructor
  · intro opcode payload fin f hf
    rw [ZeroCopy.bytes_of_mem_built hf,ZeroCopy.headerBytes_eq]
    exact readsBack_shortest _ payload
  · intro deflate message
    rw [PermessageDeflate.createCompressedFrame,PermessageDeflate.compress]
    cases hdeflate : deflate message.toUTF8.toList with
    | error e => rfl
    | ok compressed =>
      let stripped : Bytes := ⟨PermessageDeflate.stripTail compressed.val,
        (PermessageDeflate.stripTail_length_le _).trans_lt compressed.property⟩
      refine ⟨_,rfl,?_⟩
      rw [PermessageDeflate.frameAround_eq]
      exact readsBack_shortest 0xC1 stripped

/-- The text frame `Hi`, built with the payload first. -/
theorem encoders_readBack_text :
    ReadsBack ((ZeroCopy.ZeroCopyWebSocketFrame.new.addPayloadOwned [0x48,0x69]).addHeader
      0x1 2 true).bytes [0x48,0x69] :=
  (encoders_readBack (ε := Unit)).1 0x1 ⟨[0x48,0x69],by decide⟩ true _ (by simp [ZeroCopy.built])

end WebSocket
end UProtocols
