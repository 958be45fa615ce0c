import Mathlib.Data.List.GetD
import UProtocols.ByteOrder
import UProtocols.CircularBuffer
import UProtocols.Framing
import UProtocols.WebSocketBuffer

/-!
# WebSocket frames and their extraction from the receive buffer

`WebSocketFrameBuffer` of `websocket_buffer_management.rs`. The parser restarts at
the front of the buffered bytes on every call; `frameAt` is what it computes from
them. `Frame` is the wire format on its own terms, with every length form, and the
parser is a decoder for it in the sense of `FrameCode`.
-/

namespace UProtocols
namespace WebSocket

structure WebSocketFrameBuffer where
  recvBuffer : DynamicBuffer
  sendBuffer : BufferManagement.CircularBuffer
  deriving DecidableEq

/-- XOR with the masking key, repeated. -/
def applyMask (key payload : List UInt8) : List UInt8 :=
  payload.mapIdx fun i byte => byte ^^^ key.getD (i % 4) 0

/-- `payload_len` and `offset` behind the extended length; `none` returns early. -/
def lengthField (data : List UInt8) (payloadLen : ℕ) : Option (ℕ × ℕ) :=
  if payloadLen = 126 then
    if data.length < 4 then none else some (ByteOrder.big.value (slice data 2 2),4)
  else if payloadLen = 127 then
    if data.length < 10 then none else some (ByteOrder.big.value (slice data 2 8),10)
  else some (payloadLen,2)

theorem lengthField_short (data : List UInt8) {n : ℕ} (h : n < 126) :
    lengthField data n = some (n,2) := by
  rw [lengthField,if_neg (by omega),if_neg (by omega)]

theorem lengthField_126 {data : List UInt8} (h : 4 ≤ data.length) :
    lengthField data 126 = some (ByteOrder.big.value (slice data 2 2),4) := by
  rw [lengthField,if_pos rfl,if_neg (by omega)]

theorem lengthField_127 {data : List UInt8} (h : 10 ≤ data.length) :
    lengthField data 127 = some (ByteOrder.big.value (slice data 2 8),10) := by
  rw [lengthField,if_neg (by decide),if_pos rfl,if_neg (by omega)]

/-- The masking key and `offset` behind it; `none` returns early. -/
def maskField (data : List UInt8) (masked : Bool) (offset : ℕ) :
    Option (Option (List UInt8) × ℕ) :=
  if masked then
    if data.length < offset + 4 then none else some (some (slice data offset 4),offset + 4)
  else some (none,offset)

/-- The first frame of `data`: its unmasked payload and `total_size`. The FIN bit
and the opcode are read and not used. `header_size` and `offset` are equal
throughout, so a sum that wraps ends before `offset` and the slice would panic
where the checked addition does not. -/
def frameAt (data : List UInt8) : Except Panic (Option (List UInt8 × ℕ)) :=
  if data.length < 2 then .ok none
  else
    let masked := data.getD 1 0 &&& 0x80 != 0
    match lengthField data (data.getD 1 0 &&& 0x7F).toNat with
    | none => .ok none
    | some (payloadLen,offset) =>
      match maskField data masked offset with
      | none => .ok none
      | some (maskKey,offset) =>
        match usizeAdd offset payloadLen with
        | .error p => .error p
        | .ok totalSize =>
          if data.length < totalSize then .ok none
          else
            let payload := slice data offset payloadLen
            match maskKey with
            | some key => .ok (some (applyMask key payload,totalSize))
            | none => .ok (some (payload,totalSize))

/-- On a stream that is cut off, each field is either missing or what it will be. -/
theorem lengthField_of_isPrefix {p d : List UInt8} (h : p <+: d) (n : ℕ) :
    lengthField p n = none ∨ lengthField p n = lengthField d n := by
  have hle := h.length_le
  by_cases h126 : n = 126
  · subst h126
    by_cases hlen : p.length < 4
    · exact .inl (by rw [lengthField,if_pos rfl,if_pos hlen])
    · right
      rw [lengthField_126 (by omega),lengthField_126 (by omega)]
      rw [slice_of_isPrefix h (by omega)]
  · by_cases h127 : n = 127
    · subst h127
      by_cases hlen : p.length < 10
      · exact .inl (by rw [lengthField,if_neg (by decide),if_pos rfl,if_pos hlen])
      · right
        rw [lengthField_127 (by omega),lengthField_127 (by omega)]
        rw [slice_of_isPrefix h (by omega)]
    · right
      rw [lengthField,lengthField,if_neg h126,if_neg h127,if_neg h126,if_neg h127]

theorem maskField_of_isPrefix {p d : List UInt8} (h : p <+: d) (masked : Bool) (offset : ℕ) :
    maskField p masked offset = none ∨ maskField p masked offset = maskField d masked offset := by
  have hle := h.length_le
  cases masked with
  | false => exact .inr rfl
  | true =>
    by_cases hlen : p.length < offset + 4
    · exact .inl (by rw [maskField,if_pos rfl,if_pos hlen])
    · right
      rw [maskField,maskField,if_pos rfl,if_pos rfl,if_neg hlen,if_neg (by omega)]
      rw [slice_of_isPrefix h (by omega)]

/-- A frame that is cut before its end is not there yet. -/
theorem frameAt_of_isPrefix {p d payload : List UInt8} {n : ℕ} (h : p <+: d)
    (hd : frameAt d = .ok (some (payload,n))) (hlt : p.length < n) : frameAt p = .ok none := by
  have hle := h.length_le
  by_cases h2 : p.length < 2
  · rw [frameAt,if_pos h2]
  · have hsecond : p.getD 1 0 = d.getD 1 0 := by
      obtain ⟨q,rfl⟩ := h
      rw [List.getD_append _ _ _ _ (by omega)]
    simp only [frameAt] at hd ⊢
    rw [if_neg (by omega)] at hd
    rw [if_neg h2,hsecond]
    obtain hlen | hlen := lengthField_of_isPrefix h (d.getD 1 0 &&& 0x7F).toNat
    · rw [hlen]
    · rw [hlen]
      cases hfield : lengthField d (d.getD 1 0 &&& 0x7F).toNat with
      | none => rfl
      | some field =>
        simp only [hfield] at hd ⊢
        obtain hkey | hkey := maskField_of_isPrefix h (d.getD 1 0 &&& 0x80 != 0) field.2
        · rw [hkey]
        · rw [hkey]
          cases hmask : maskField d (d.getD 1 0 &&& 0x80 != 0) field.2 with
          | none => rfl
          | some mask =>
            simp only [hmask] at hd ⊢
            cases hsum : usizeAdd mask.2 field.1 with
            | error e => simp [hsum] at hd
            | ok total =>
              simp only [hsum] at hd ⊢
              have htotal : total = n := by
                split at hd
                · cases hd
                · split at hd <;> simp_all
              rw [if_pos (by omega)]

namespace WebSocketFrameBuffer

def sendBufferSize : ℕ := 131072

def new : WebSocketFrameBuffer := ⟨DynamicBuffer.new,.new sendBufferSize⟩

def addReceivedData (b : WebSocketFrameBuffer) (data : List UInt8) : WebSocketFrameBuffer :=
  {b with recvBuffer := b.recvBuffer.append data}

def tryExtractFrame (b : WebSocketFrameBuffer) :
    Except Panic (Option (List UInt8) × WebSocketFrameBuffer) :=
  match frameAt b.recvBuffer.data with
  | .error p => .error p
  | .ok none => .ok (none,b)
  | .ok (some (payload,totalSize)) =>
    .ok (some payload,{b with recvBuffer := (b.recvBuffer.consume totalSize).2})

def queueSendData (b : WebSocketFrameBuffer) (data : List UInt8) :
    Option (Bool × WebSocketFrameBuffer) := do
  let (sendBuffer,written) ← b.sendBuffer.write data
  return (written == data.length,{b with sendBuffer := sendBuffer})

def getSendData (b : WebSocketFrameBuffer) (buffer : List UInt8) :
    Option (ℕ × List UInt8 × WebSocketFrameBuffer) := do
  let (sendBuffer,read,buffer) ← b.sendBuffer.read buffer
  return (read,buffer,{b with sendBuffer := sendBuffer})

def pendingSendSize (b : WebSocketFrameBuffer) : ℕ := b.sendBuffer.size

end WebSocketFrameBuffer

/-! ## Frames on the wire -/

inductive LengthForm
  | bits7 | bits16 | bits64
  deriving DecidableEq

namespace LengthForm

/-- The number of bytes of the extended length. -/
def width : LengthForm → ℕ
  | bits7 => 0
  | bits16 => 2
  | bits64 => 8

/-- The low seven bits of the second byte for a payload of length `n`. -/
def code : LengthForm → ℕ → ℕ
  | bits7, n => n
  | bits16, _ => 126
  | bits64, _ => 127

/-- The lengths that the form can write. -/
def Fits : LengthForm → ℕ → Prop
  | bits7, n => n < 126
  | bits16, n => n < 2^16
  | bits64, n => n < 2^64

instance decidableFits : ∀ (form : LengthForm) (n : ℕ), Decidable (form.Fits n)
  | bits7, n => Nat.decLt n 126
  | bits16, n => Nat.decLt n (2^16)
  | bits64, n => Nat.decLt n (2^64)

theorem code_lt {form : LengthForm} {n : ℕ} (h : form.Fits n) : form.code n < 128 := by
  cases form with
  | bits7 => exact Nat.lt_trans h (by decide)
  | bits16 => exact (by decide : 126 < 128)
  | bits64 => exact (by decide : 127 < 128)

end LengthForm

abbrev MaskKey := {key : List UInt8 // key.length = 4}

/-- A frame with the payload the application sees, of any size that a 64-bit `usize`
can count. The first byte (FIN, reserved bits, opcode) is free, and the length form
need not be the shortest. -/
structure Frame where
  first : UInt8
  form : LengthForm
  mask : Option MaskKey
  payload : List UInt8
  fits : form.Fits payload.length
  size_lt : 2 + form.width + (if mask.isSome then 4 else 0) + payload.length < 2^64

namespace Frame

def second (f : Frame) : UInt8 :=
  (if f.mask.isSome then 0x80 else 0) ||| UInt8.ofNat (f.form.code f.payload.length)

def maskBytes (f : Frame) : List UInt8 := (f.mask.map Subtype.val).getD []

/-- The payload as it travels. -/
def body (f : Frame) : List UInt8 :=
  match f.mask with
  | some key => applyMask key.val f.payload
  | none => f.payload

def encode (f : Frame) : List UInt8 :=
  f.first :: f.second ::
    (ByteOrder.big.bytes f.form.width f.payload.length ++ (f.maskBytes ++ f.body))

theorem maskBytes_length (f : Frame) : f.maskBytes.length = if f.mask.isSome then 4 else 0 := by
  cases h : f.mask with
  | none => simp [maskBytes,h]
  | some key => simp [maskBytes,h,key.property]

@[simp] theorem applyMask_length (key payload : List UInt8) :
    (applyMask key payload).length = payload.length := by
  simp [applyMask]

@[simp] theorem applyMask_applyMask (key payload : List UInt8) :
    applyMask key (applyMask key payload) = payload := by
  simp only [applyMask,List.mapIdx_mapIdx]
  apply List.ext_getElem
  · simp
  · intro i hi hj
    rw [List.getElem_mapIdx]
    show payload[i] ^^^ key.getD (i % 4) 0 ^^^ key.getD (i % 4) 0 = payload[i]
    rw [UInt8.xor_assoc,UInt8.xor_self,UInt8.xor_zero]

@[simp] theorem body_length (f : Frame) : f.body.length = f.payload.length := by
  cases h : f.mask <;> simp [body,h]

@[simp] theorem encode_length (f : Frame) :
    f.encode.length = 2 + f.form.width + f.maskBytes.length + f.payload.length := by
  simp only [encode,List.length_cons,List.length_append,ByteOrder.bytes_length,body_length]
  omega

/-- The two fields of the second byte do not disturb each other. -/
theorem secondByte_fields : ∀ (c : Fin 128) (masked : Bool),
    (((if masked then 0x80 else 0) ||| UInt8.ofNat c.val) &&& 0x7F).toNat = c.val ∧
    (((if masked then 0x80 else 0) ||| UInt8.ofNat c.val) &&& 0x80 != 0) = masked := by
  decide +kernel

theorem second_code (f : Frame) : (f.second &&& 0x7F).toNat = f.form.code f.payload.length :=
  (secondByte_fields ⟨_,LengthForm.code_lt f.fits⟩ f.mask.isSome).1

theorem second_masked (f : Frame) : (f.second &&& 0x80 != 0) = f.mask.isSome :=
  (secondByte_fields ⟨_,LengthForm.code_lt f.fits⟩ f.mask.isSome).2

/-- The bytes of a frame and what follows it, field by field. -/
theorem encode_append (f : Frame) (rest : List UInt8) :
    f.encode ++ rest = [f.first,f.second] ++
      (ByteOrder.big.bytes f.form.width f.payload.length ++ (f.maskBytes ++ (f.body ++ rest))) := by
  simp [encode]

theorem slice_extended (f : Frame) (rest : List UInt8) :
    slice (f.encode ++ rest) 2 f.form.width =
      ByteOrder.big.bytes f.form.width f.payload.length := by
  rw [encode_append]
  exact slice_append rfl (ByteOrder.bytes_length _ _ _) _

theorem slice_mask (f : Frame) (rest : List UInt8) :
    slice (f.encode ++ rest) (2 + f.form.width) f.maskBytes.length = f.maskBytes := by
  rw [encode_append,← List.append_assoc]
  apply slice_append
  · rw [List.length_append,ByteOrder.bytes_length]
    rfl
  · rfl

theorem slice_body (f : Frame) (rest : List UInt8) :
    slice (f.encode ++ rest) (2 + f.form.width + f.maskBytes.length) f.payload.length =
      f.body := by
  rw [encode_append,← List.append_assoc,← List.append_assoc]
  apply slice_append
  · rw [List.length_append,List.length_append,ByteOrder.bytes_length]
    rfl
  · exact body_length f

theorem lengthField_encode (f : Frame) (rest : List UInt8) :
    lengthField (f.encode ++ rest) (f.form.code f.payload.length) =
      some (f.payload.length,2 + f.form.width) := by
  have hfits := f.fits
  have hslice := slice_extended f rest
  have hlen : 2 + f.form.width ≤ (f.encode ++ rest).length := by
    rw [List.length_append,encode_length]
    omega
  cases hform : f.form with
  | bits7 =>
    rw [hform] at hfits
    exact lengthField_short _ hfits
  | bits16 =>
    rw [hform] at hfits hslice hlen
    have hvalue := ByteOrder.value_bytes_of_lt .big (show f.payload.length < 256^2 from hfits)
    show lengthField (f.encode ++ rest) 126 = some (f.payload.length,4)
    rw [lengthField_126 hlen,← hvalue]
    exact congrArg (fun bs => some (ByteOrder.big.value bs,4)) hslice
  | bits64 =>
    rw [hform] at hfits hslice hlen
    have hvalue := ByteOrder.value_bytes_of_lt .big (show f.payload.length < 256^8 from hfits)
    show lengthField (f.encode ++ rest) 127 = some (f.payload.length,10)
    rw [lengthField_127 hlen,← hvalue]
    exact congrArg (fun bs => some (ByteOrder.big.value bs,10)) hslice

theorem maskField_encode (f : Frame) (rest : List UInt8) :
    maskField (f.encode ++ rest) f.mask.isSome (2 + f.form.width) =
      some (f.mask.map Subtype.val,2 + f.form.width + f.maskBytes.length) := by
  have hslice := slice_mask f rest
  have hlen : 2 + f.form.width + f.maskBytes.length ≤ (f.encode ++ rest).length := by
    rw [List.length_append,encode_length]
    omega
  generalize hdata : f.encode ++ rest = data at hslice hlen ⊢
  cases hmask : f.mask with
  | none => simp [maskField,maskBytes,hmask]
  | some key =>
    have hkey : f.maskBytes = key.val := by simp [maskBytes,hmask]
    rw [hkey,key.property] at hslice hlen
    simp only [maskField,hkey,key.property,hslice,Option.isSome_some,Option.map_some]
    rw [if_pos trivial,if_neg (by omega)]

/-- The parser returns the payload of a frame that is there in full. -/
theorem frameAt_encode (f : Frame) (rest : List UInt8) :
    frameAt (f.encode ++ rest) = .ok (some (f.payload,f.encode.length)) := by
  have hsecond : (f.encode ++ rest).getD 1 0 = f.second := rfl
  have hsize := f.size_lt
  rw [← maskBytes_length] at hsize
  have hsum : usizeAdd (2 + f.form.width + f.maskBytes.length) f.payload.length =
      .ok f.encode.length := by
    rw [encode_length,usizeAdd,if_pos (by omega)]
  have hlen : f.encode.length ≤ (f.encode ++ rest).length := by simp
  have hlen2 : 2 ≤ f.encode.length := by
    rw [encode_length]
    omega
  simp only [frameAt]
  rw [if_neg (by omega),hsecond,second_code,second_masked,lengthField_encode]
  simp only [maskField_encode,hsum,slice_body]
  rw [if_neg (by omega)]
  cases hmask : f.mask with
  | none => simp [body,hmask]
  | some key => simp [body,hmask]

theorem frameAt_cut (f : Frame) {p : List UInt8} (h : p <+: f.encode) (hne : p ≠ f.encode) :
    frameAt p = .ok none := by
  have hfull := frameAt_encode f []
  rw [List.append_nil] at hfull
  apply frameAt_of_isPrefix h hfull
  exact Nat.lt_of_le_of_ne h.length_le fun hlen => hne (h.eq_of_length hlen)

end Frame

open Framing

/-- The parser as a decoder: the bytes of the frame are dropped from the stream. -/
def nextFrame (data : List UInt8) : Except Panic (Option (List UInt8 × List UInt8)) :=
  (frameAt data).map (Option.map fun r => (r.1,data.drop r.2))

def frameCode : FrameCode Frame (List UInt8) UInt8 Panic where
  encode := Frame.encode
  value := Frame.payload
  next := nextFrame
  next_nil := rfl
  next_complete := by
    intro f rest
    rw [nextFrame,Frame.frameAt_encode]
    simp [Except.map]
  next_partial := by
    intro f p hp hne
    rw [nextFrame,Frame.frameAt_cut f hp hne]
    rfl

/-- `try_extract_frame` on the buffer is `nextFrame` on the unread bytes. -/
theorem tryExtractFrame_none {b : WebSocketFrameBuffer}
    (h : nextFrame b.recvBuffer.data = .ok none) : b.tryExtractFrame = .ok (none,b) := by
  rw [nextFrame] at h
  cases hframe : frameAt b.recvBuffer.data with
  | error p => simp [hframe,Except.map] at h
  | ok found =>
    cases found with
    | none => simp [WebSocketFrameBuffer.tryExtractFrame,hframe]
    | some r => simp [hframe,Except.map] at h

theorem tryExtractFrame_some {b : WebSocketFrameBuffer} {payload rest : List UInt8}
    (h : nextFrame b.recvBuffer.data = .ok (some (payload,rest))) :
    ∃ b', b.tryExtractFrame = .ok (some payload,b') ∧ b'.recvBuffer.data = rest := by
  rw [nextFrame] at h
  cases hframe : frameAt b.recvBuffer.data with
  | error p => simp [hframe,Except.map] at h
  | ok found =>
    cases found with
    | none => simp [hframe,Except.map] at h
    | some r =>
      obtain ⟨hpayload,hrest⟩ : r.1 = payload ∧ b.recvBuffer.data.drop r.2 = rest := by
        simpa [hframe,Except.map] using h
      refine ⟨{b with recvBuffer := (b.recvBuffer.consume r.2).2},?_,?_⟩
      · simp only [WebSocketFrameBuffer.tryExtractFrame,hframe,hpayload]
      · simpa using hrest

/-- A call that returns no frame changes nothing. -/
theorem tryExtractFrame_keeps {b b' : WebSocketFrameBuffer}
    (h : b.tryExtractFrame = .ok (none,b')) : b' = b := by
  rw [WebSocketFrameBuffer.tryExtractFrame] at h
  cases hframe : frameAt b.recvBuffer.data with
  | error p => simp [hframe] at h
  | ok found =>
    cases found with
    | none =>
      simp only [hframe,Except.ok.injEq,Prod.mk.injEq,true_and] at h
      exact h.symm
    | some r => simp [hframe] at h

/-- A frame fed to an empty buffer comes out and leaves it empty. -/
theorem tryExtractFrame_encode (f : Frame) :
    ∃ b, (WebSocketFrameBuffer.new.addReceivedData f.encode).tryExtractFrame =
      .ok (some f.payload,b) ∧ b.recvBuffer.data = [] := by
  apply tryExtractFrame_some
  have h := frameCode.next_complete f []
  simpa [WebSocketFrameBuffer.addReceivedData,WebSocketFrameBuffer.new,frameCode] using h

end WebSocket
end UProtocols
