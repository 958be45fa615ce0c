import UProtocols.WebSocketFrame

/-!
# `try_extract_frame` on hostile input

`try_extract_frame` of `websocket_buffer_management.rs` with every index, slice and sum that can
panic, in builds with and without overflow checks. With checks it is `frameAt`. A header may
declare any length below `2^64`; the sum of the header size and that length is the one operation
that can go wrong.
-/

namespace UProtocols
namespace WebSocket

/-! ## Operations that can panic -/

/-- `data[i]`. -/
def index (data : List UInt8) (i : ℕ) : Except Panic UInt8 :=
  match data[i]? with
  | some b => .ok b
  | none => .error .indexOutOfBounds

/-- `[data[i], data[i + 1], …]`, `n` bytes of it. -/
def bytesAt (data : List UInt8) (i : ℕ) : ℕ → Except Panic (List UInt8)
  | 0 => .ok []
  | n + 1 => do
    let b ← index data i
    let bs ← bytesAt data (i + 1) n
    return b::bs

/-- `data[i..j]`. -/
def range (data : List UInt8) (i j : ℕ) : Except Panic (List UInt8) :=
  if i ≤ j ∧ j ≤ data.length then .ok (slice data i (j - i)) else .error .indexOutOfBounds

/-- Addition in a 64-bit `usize`, which wraps in a build without overflow checks. -/
def usizeSum (checks : Bool) (a b : ℕ) : Except Panic ℕ :=
  if a + b < 2^64 then .ok (a + b)
  else if checks then .error .overflow
  else .ok ((a + b) % 2^64)

/-! ## The method -/

/-- The extended payload length: `payload_len`, `header_size` and `offset`. -/
def extendedLength (data : List UInt8) (payloadLen : ℕ) : Except Panic (Option (ℕ × ℕ × ℕ)) :=
  if payloadLen = 126 then
    if data.length < 4 then .ok none
    else do
      let bs ← bytesAt data 2 2
      return some (ByteOrder.big.value bs,4,4)
  else if payloadLen = 127 then
    if data.length < 10 then .ok none
    else do
      let bs ← bytesAt data 2 8
      return some (ByteOrder.big.value bs,10,10)
  else .ok (some (payloadLen,2,2))

/-- The masking key: `mask_key`, `header_size` and `offset`. -/
def maskKey (checks : Bool) (data : List UInt8) (masked : Bool) (headerSize offset : ℕ) :
    Except Panic (Option (Option (List UInt8) × ℕ × ℕ)) :=
  if masked then do
    let stop ← usizeSum checks offset 4
    if data.length < stop then return none
    let key ← bytesAt data offset 4
    let headerSize ← usizeSum checks headerSize 4
    let offset ← usizeSum checks offset 4
    return some (some key,headerSize,offset)
  else .ok (some (none,headerSize,offset))

/-- The rest of the method, behind the header. -/
def takePayload (checks : Bool) (data : List UInt8) (key : Option (List UInt8))
    (payloadLen headerSize offset : ℕ) : Except Panic (Option (List UInt8 × ℕ)) := do
  let totalSize ← usizeSum checks headerSize payloadLen
  if data.length < totalSize then return none
  let stop ← usizeSum checks offset payloadLen
  let payload ← range data offset stop
  match key with
  | some key => return some (applyMask key payload,totalSize)
  | none => return some (payload,totalSize)

/-- The first frame of `data`: its unmasked payload and `total_size`. -/
def extractFrame (checks : Bool) (data : List UInt8) :
    Except Panic (Option (List UInt8 × ℕ)) :=
  if data.length < 2 then .ok none
  else do
    -- FIN and opcode
    let _ ← index data 0
    let second ← index data 1
    match ← extendedLength data (second &&& 0x7F).toNat with
    | none => return none
    | some (payloadLen,headerSize,offset) =>
      match ← maskKey checks data (second &&& 0x80 != 0) headerSize offset with
      | none => return none
      | some (key,headerSize,offset) => takePayload checks data key payloadLen headerSize offset

/-- `try_extract_frame` in a build with or without overflow checks. -/
def WebSocketFrameBuffer.tryExtractFrameIn (checks : Bool) (b : WebSocketFrameBuffer) :
    Except Panic (Option (List UInt8) × WebSocketFrameBuffer) := do
  match ← extractFrame checks b.recvBuffer.data with
  | none => return (none,b)
  | some (payload,totalSize) =>
    return (some payload,{b with recvBuffer := (b.recvBuffer.consume totalSize).2})

/-! ## Headers -/

variable {checks : Bool} {data : List UInt8} {key : Option (List UInt8)} {declared size : ℕ}

theorem index_eq {i : ℕ} (h : i < data.length) : index data i = .ok (data.getD i 0) := by
  simp [index,h]

theorem bytesAt_eq {i n : ℕ} (h : i + n ≤ data.length) :
    bytesAt data i n = .ok (slice data i n) := by
  induction n generalizing i with
  | zero => simp [bytesAt,slice]
  | succ n ih =>
    have hi : i < data.length := by omega
    have hslice : slice data i (n + 1) = data.getD i 0::slice data (i + 1) n := by
      rw [slice,slice,List.drop_eq_getElem_cons hi,List.take_succ_cons]
      simp [hi]
    rw [bytesAt,index_eq hi,ih (by omega),hslice]
    rfl

theorem usizeSum_ok {a b : ℕ} (h : a + b < 2^64) : usizeSum checks a b = .ok (a + b) := if_pos h

theorem extendedLength_eq (data : List UInt8) (n : ℕ) :
    extendedLength data n = .ok ((lengthField data n).map fun f => (f.1,f.2,f.2)) := by
  by_cases h126 : n = 126
  · subst h126
    by_cases hlen : data.length < 4
    · simp only [extendedLength,lengthField,if_pos hlen,if_true,Option.map_none]
    · rw [lengthField_126 (by omega),extendedLength,if_pos rfl,if_neg hlen,bytesAt_eq (by omega)]
      rfl
  · by_cases h127 : n = 127
    · subst h127
      by_cases hlen : data.length < 10
      · simp only [extendedLength,lengthField,if_pos hlen,if_neg h126,if_true,Option.map_none]
      · rw [lengthField_127 (by omega),extendedLength,if_neg h126,if_pos rfl,if_neg hlen,
          bytesAt_eq (by omega)]
        rfl
    · simp only [extendedLength,lengthField,if_neg h126,if_neg h127,Option.map_some]

theorem maskKey_eq (checks : Bool) (data : List UInt8) (masked : Bool) {offset : ℕ}
    (h : offset + 4 < 2^64) : maskKey checks data masked offset offset =
      .ok ((maskField data masked offset).map fun m => (m.1,m.2,m.2)) := by
  cases masked with
  | false => rfl
  | true =>
    simp only [maskKey,maskField,usizeSum_ok h,if_true,bind,Except.bind]
    by_cases hlen : data.length < offset + 4
    · simp only [if_pos hlen]
      rfl
    · rw [bytesAt_eq (by omega)]
      simp only [if_neg hlen]
      rfl

/-- The masking key, the declared length and the header size, once the header is there. -/
def header (data : List UInt8) : Option (Option (List UInt8) × ℕ × ℕ) :=
  if data.length < 2 then none
  else
    (lengthField data (data.getD 1 0 &&& 0x7F).toNat).bind fun field =>
      (maskField data (data.getD 1 0 &&& 0x80 != 0) field.2).map fun mask =>
        (mask.1,field.1,mask.2)

theorem lengthField_bounds {n len offset : ℕ} (hn : n < 128) (hdata : 2 ≤ data.length)
    (h : lengthField data n = some (len,offset)) :
    len < 2^64 ∧ offset ≤ 10 ∧ offset ≤ data.length := by
  have hvalue (w : ℕ) : ByteOrder.big.value (slice data 2 w) < 256^w := by
    have hlt := ofLeBytes_lt (slice data 2 w).reverse
    have hle : (slice data 2 w).reverse.length ≤ w := by
      rw [List.length_reverse,slice]
      exact List.length_take_le _ _
    exact Nat.lt_of_lt_of_le hlt (Nat.pow_le_pow_right (by decide) hle)
  rw [lengthField] at h
  split at h
  · split at h
    · cases h
    · cases h
      have hlt := hvalue 2
      omega
  · split at h
    · split at h
      · cases h
      · cases h
        have hlt := hvalue 8
        omega
    · cases h
      omega

theorem second_lt (second : UInt8) : (second &&& 0x7F).toNat < 128 := by
  have hle : (second &&& 0x7F).toNat ≤ 0x7F := by
    rw [UInt8.toNat_and]
    exact Nat.and_le_right
  omega

/-- A header is at most 14 bytes long and declares a 64-bit length. -/
theorem header_bounds (h : header data = some (key,declared,size)) :
    declared < 2^64 ∧ size ≤ 14 ∧ size ≤ data.length := by
  rw [header] at h
  split at h
  · cases h
  · next hlen =>
    obtain ⟨⟨len,offset⟩,hfield,hrest⟩ := Option.bind_eq_some_iff.mp h
    obtain ⟨⟨key',stop⟩,hmask,heq⟩ := Option.map_eq_some_iff.mp hrest
    cases heq
    obtain ⟨hdeclared,hoffset,hshort⟩ :=
      lengthField_bounds (second_lt _) (by omega) hfield
    refine ⟨hdeclared,?_⟩
    simp only [maskField] at hmask
    split at hmask
    · split at hmask
      · cases hmask
      · cases hmask
        omega
    · cases hmask
      omega

/-- The method reads the header, then the payload. -/
theorem extractFrame_eq (checks : Bool) (data : List UInt8) : extractFrame checks data =
    match header data with
    | none => .ok none
    | some (key,declared,size) => takePayload checks data key declared size size := by
  by_cases hlen : data.length < 2
  · rw [extractFrame,header,if_pos hlen,if_pos hlen]
  · rw [extractFrame,header,if_neg hlen,if_neg hlen,index_eq (by omega),index_eq (by omega)]
    simp only [bind,Except.bind,extendedLength_eq]
    cases hfield : lengthField data (data.getD 1 0 &&& 0x7F).toNat with
    | none => rfl
    | some field =>
      obtain ⟨len,offset⟩ := field
      obtain ⟨-,hoffset,-⟩ := lengthField_bounds (second_lt _) (by omega) hfield
      simp only [Option.map_some,Option.bind_some,
        maskKey_eq checks data (data.getD 1 0 &&& 0x80 != 0) (show offset + 4 < 2^64 by omega)]
      cases maskField data (data.getD 1 0 &&& 0x80 != 0) offset <;> rfl

/-! ## Sums that fit and sums that do not -/

theorem takePayload_fits (h : size + declared < 2^64) :
    takePayload checks data key declared size size =
      if data.length < size + declared then .ok none
      else .ok (some ((key.elim id applyMask) (slice data size declared),size + declared)) := by
  simp only [takePayload,usizeSum_ok h,bind,Except.bind,pure,Except.pure]
  split
  · rfl
  · next hlen =>
    rw [range,if_pos ⟨by omega,by omega⟩,Nat.add_sub_cancel_left]
    cases key <;> rfl

/-- A sum that wraps ends before the payload starts: the check for a complete frame passes and the
slice panics. -/
theorem takePayload_wraps (hdeclared : declared < 2^64) (hsize : size ≤ data.length)
    (hsmall : size ≤ 14) (h : ¬ size + declared < 2^64) :
    ∃ p, takePayload checks data key declared size size = .error p := by
  cases checks with
  | true =>
    refine ⟨.overflow,?_⟩
    simp only [takePayload,usizeSum,if_neg h]
    rfl
  | false =>
    refine ⟨.indexOutOfBounds,?_⟩
    have hwrap : (size + declared) % 2^64 < size := by omega
    have hsum : usizeSum false size declared = .ok ((size + declared) % 2^64) := by
      rw [usizeSum,if_neg h]
      rfl
    have hcomplete : ¬ data.length < (size + declared) % 2^64 := by omega
    have hrange : range data size ((size + declared) % 2^64) = .error .indexOutOfBounds := by
      rw [range,if_neg (by omega)]
    simp only [takePayload,hsum,bind,Except.bind,if_neg hcomplete,hrange]

/-- With overflow checks the method is `frameAt`. -/
theorem extractFrame_checked (data : List UInt8) : extractFrame true data = frameAt data := by
  by_cases hlen : data.length < 2
  · rw [extractFrame,frameAt,if_pos hlen,if_pos hlen]
  · rw [extractFrame_eq,header,frameAt,if_neg hlen,if_neg hlen]
    cases lengthField data (data.getD 1 0 &&& 0x7F).toNat with
    | none => rfl
    | some field =>
      simp only [Option.bind_some]
      cases maskField data (data.getD 1 0 &&& 0x80 != 0) field.2 with
      | none => rfl
      | some mask =>
        simp only [Option.map_some]
        by_cases hsum : mask.2 + field.1 < 2^64
        · rw [takePayload_fits hsum,usizeAdd,if_pos hsum]
          cases mask.1 <;> rfl
        · simp only [takePayload,usizeSum,usizeAdd,if_neg hsum]
          rfl

theorem tryExtractFrameIn_checked (b : WebSocketFrameBuffer) :
    b.tryExtractFrameIn true = b.tryExtractFrame := by
  rw [WebSocketFrameBuffer.tryExtractFrameIn,WebSocketFrameBuffer.tryExtractFrame,
    extractFrame_checked]
  cases frameAt b.recvBuffer.data with
  | error p => rfl
  | ok found => cases found <;> rfl

/-! ## Safety -/

/-- No panic, and the answer is `None` or a payload of the declared length. -/
def Safe (checks : Bool) (b : WebSocketFrameBuffer) : Prop :=
  ∃ r b', b.tryExtractFrameIn checks = .ok (r,b') ∧
    ∀ payload ∈ r, ∃ key size, header b.recvBuffer.data = some (key,payload.length,size)

/-- The end of the declared frame can be counted in a `usize`. -/
def LengthFits (data : List UInt8) : Prop :=
  ∀ key declared size, header data = some (key,declared,size) → size + declared < 2^64

theorem lengthFits_of_header_none (h : header data = none) : LengthFits data := by
  intro key declared size hsome
  cases h.symm.trans hsome

theorem lengthFits_iff (h : header data = some (key,declared,size)) :
    LengthFits data ↔ size + declared < 2^64 := by
  constructor
  · intro hfits
    exact hfits key declared size h
  · intro hsum key' declared' size' h'
    cases h.symm.trans h'
    exact hsum

/-- Unmasking keeps the length of a payload that is in the buffer. -/
theorem payload_length (key : Option (List UInt8)) (h : size + declared ≤ data.length) :
    ((key.elim id applyMask) (slice data size declared)).length = declared := by
  have hlength : (slice data size declared).length = declared := by
    rw [slice,List.length_take,List.length_drop]
    omega
  cases key with
  | none => exact hlength
  | some key => exact (Frame.applyMask_length key _).trans hlength

/-- In both builds `try_extract_frame` is safe exactly when the header, if it is complete, does not
declare a frame that ends at `2^64` or later. -/
theorem safe_iff_lengthFits (checks : Bool) (b : WebSocketFrameBuffer) :
    Safe checks b ↔ LengthFits b.recvBuffer.data := by
  rw [Safe,WebSocketFrameBuffer.tryExtractFrameIn,extractFrame_eq]
  cases hheader : header b.recvBuffer.data with
  | none => exact iff_of_true ⟨none,b,rfl,by simp⟩ (lengthFits_of_header_none hheader)
  | some parts =>
    obtain ⟨key,declared,size⟩ := parts
    obtain ⟨hdeclared,hsmall,hsize⟩ := header_bounds hheader
    rw [lengthFits_iff hheader]
    dsimp only
    by_cases hsum : size + declared < 2^64
    · refine iff_of_true ?_ hsum
      rw [takePayload_fits hsum]
      split
      · exact ⟨none,b,rfl,by simp⟩
      · next hlen =>
        refine ⟨_,_,rfl,?_⟩
        intro payload hpayload
        cases hpayload
        refine ⟨key,size,?_⟩
        rw [payload_length key (by omega)]
    · obtain ⟨p,hp⟩ := @takePayload_wraps checks _ key _ _ hdeclared hsize hsmall hsum
      refine iff_of_false ?_ hsum
      rintro ⟨r,b',hr,-⟩
      rw [hp] at hr
      cases hr

/-- Ten bytes that declare `2^64 - 1` more. -/
def hostile : WebSocketFrameBuffer :=
  WebSocketFrameBuffer.new.addReceivedData [0x82,0x7F,255,255,255,255,255,255,255,255]

theorem hostile_panics :
    hostile.tryExtractFrameIn true = .error .overflow ∧
    hostile.tryExtractFrameIn false = .error .indexOutOfBounds := by
  constructor <;> rfl

end WebSocket
end UProtocols
