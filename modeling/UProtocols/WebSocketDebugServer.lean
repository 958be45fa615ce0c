import UProtocols.WebSocketEncoders

/-!
# The frame codec of the debug server

`parse_ws_frame` and `create_ws_frame` of `websocket_server_with_debug_logging.c`. The parser
trusts the lengths of the peer, so its reads of the received bytes and its writes into the payload
buffer are recorded one by one, also where they leave the buffers.
-/

namespace UProtocols
namespace WebSocket
namespace DebugServer

/-- `BUFFER_SIZE`, the size of every buffer of `handle_client`. -/
def bufferSize : ℕ := 4096

/-- An access to the received bytes or to the payload buffer. -/
inductive Access
  | read (index : ℕ)
  | write (index : ℕ) (byte : UInt8)
  deriving DecidableEq

def Access.InBounds (len size : ℕ) : Access → Prop
  | read index => index < len
  | write index _ => index < size

instance decidableInBounds (len size : ℕ) :
    ∀ access : Access, Decidable (access.InBounds len size)
  | .read index => Nat.decLt index len
  | .write index _ => Nat.decLt index size

/-- What memory holds before the call: beyond the received bytes, and in the local `mask`. -/
structure Leftover where
  beyond : ℕ → UInt8
  mask : Fin 4 → UInt8

/-- `buffer[index]`. -/
def byteAt (m : Leftover) (input : List UInt8) (index : ℕ) : UInt8 :=
  input.getD index (m.beyond index)

def reads (start count : ℕ) : List Access := (List.range count).map fun i => .read (start + i)

/-- The reads of the extended length, `payload_len` and `offset`. -/
def parseLength (buffer : ℕ → UInt8) (payloadLen : UInt64) : List Access × UInt64 × ℕ :=
  if payloadLen = 126 then (reads 2 2,shiftIn (buffer 2).toUInt64 (buffer 3),4)
  else if payloadLen = 127 then
    (reads 2 8,(List.range 8).foldl (fun payloadLen i => shiftIn payloadLen (buffer (2 + i))) 0,10)
  else ([],payloadLen,2)

/-- The reads of the masking key, `mask` and `offset`. -/
def parseMask (m : Leftover) (buffer : ℕ → UInt8) (masked : Bool) (offset : ℕ) :
    List Access × (Fin 4 → UInt8) × ℕ :=
  if masked then (reads offset 4,fun i => buffer (offset + i.val),offset + 4)
  else ([],m.mask,offset)

/-- The loop over the payload, masked or not; `offset + i` is an `unsigned long long`. -/
def unmask (buffer : ℕ → UInt8) (mask : Fin 4 → UInt8) (offset payloadLen : ℕ) : List Access :=
  (List.range payloadLen).flatMap fun i =>
    [.read ((offset + i) % 2^64),
      .write i (buffer ((offset + i) % 2^64) ^^^ mask ⟨i % 4,Nat.mod_lt _ (by decide)⟩)]

/-- The result: control frames by their opcode, else `payload_len` as an `int`. -/
def returned (opcode : UInt8) (payloadLen : UInt64) : ℤ :=
  if opcode = 0x8 then -2
  else if opcode = 0x9 then -3
  else if opcode = 0xA then -4
  else (payloadLen.toNat : ℤ).bmod (2^32)

/-- The accesses in order, and the result. The FIN bit is read and not used. -/
def parseWsFrame (m : Leftover) (input : List UInt8) : List Access × ℤ :=
  if input.length < 2 then ([],-1)
  else
    let buffer := byteAt m input
    let opcode := buffer 0 &&& 0x0F
    let masked := buffer 1 &&& 0x80 != 0
    let (lengthReads,payloadLen,offset) := parseLength buffer (buffer 1 &&& 0x7F).toUInt64
    let (maskReads,mask,offset) := parseMask m buffer masked offset
    let payload := unmask buffer mask offset payloadLen.toNat
    (reads 0 2 ++ lengthReads ++ maskReads ++ payload ++ [.write payloadLen.toNat 0],
      returned opcode payloadLen)

/-- `payload_len >> count` of an `int`, undefined from 32 on. -/
def shiftRight (payloadLen count : ℕ) : Option ℕ :=
  if count < 32 then some (payloadLen >>> count) else none

/-- The bytes put into `frame`, whose number is returned; none where a shift is undefined. -/
def createWsFrame (payload : List UInt8) : Option (List UInt8) :=
  let payloadLen := payload.length
  let lengthBytes : Option (List UInt8) :=
    if payloadLen ≤ 125 then some [UInt8.ofNat payloadLen]
    else if payloadLen ≤ 65535 then
      some [126,UInt8.ofNat ((payloadLen >>> 8) &&& 0xFF),UInt8.ofNat (payloadLen &&& 0xFF)]
    else
      ((List.range 8).mapM fun i =>
        (shiftRight payloadLen (56 - i * 8)).map fun byte => UInt8.ofNat (byte &&& 0xFF)).map
          fun bytes => 127 :: bytes
  lengthBytes.map fun bytes => 0x81 :: (bytes ++ payload)

/-! ## The frame that a header declares -/

def formOf (code : UInt8) : LengthForm :=
  if code = 126 then .bits16 else if code = 127 then .bits64 else .bits7

/-- The length written in the low bits of the second byte and the extended length. -/
def lengthOf (code : UInt8) (extended : List UInt8) : ℕ :=
  match formOf code with
  | .bits7 => code.toNat
  | _ => ByteOrder.big.value extended

/-- The low seven bits of the second byte. -/
def declaredCode (input : List UInt8) : UInt8 := input.getD 1 0 &&& 0x7F

def declaresMask (input : List UInt8) : Bool := input.getD 1 0 &&& 0x80 != 0

/-- The bytes before the payload: two, the extended length and the masking key. -/
def headerSize (input : List UInt8) : ℕ :=
  2 + (formOf (declaredCode input)).width + if declaresMask input then 4 else 0

def payloadLength (input : List UInt8) : ℕ :=
  lengthOf (declaredCode input) (slice input 2 (formOf (declaredCode input)).width)

/-- The whole declared frame has been received. -/
def Present (input : List UInt8) : Prop := headerSize input + payloadLength input ≤ input.length

instance decidablePresent (input : List UInt8) : Decidable (Present input) :=
  inferInstanceAs (Decidable (_ ≤ _))

theorem reads_append (start a b : ℕ) :
    reads start a ++ reads (start + a) b = reads start (a + b) := by
  rw [reads,reads,reads,List.range_add,List.map_append,List.map_map]
  simp only [Function.comp_def,Nat.add_assoc]

theorem toUInt64_eq_iff {code : UInt8} {n : UInt64} (h : n.toNat < 256) :
    code.toUInt64 = n ↔ code = n.toUInt8 := by
  rw [← UInt64.toNat_inj,← UInt8.toNat_inj,UInt8.toNat_toUInt64,UInt64.toNat_toUInt8,
    Nat.mod_eq_of_lt h]

/-- The bytes of the extended length, wherever they lie. -/
def extended (buffer : ℕ → UInt8) (form : LengthForm) : List UInt8 :=
  (List.range form.width).map fun i => buffer (2 + i)

theorem formOf_126 {code : UInt8} (h : code = 126) : formOf code = .bits16 := by
  rw [formOf,if_pos h]

theorem formOf_127 {code : UInt8} (h : code = 127) : formOf code = .bits64 := by
  rw [h]
  rfl

theorem formOf_bits7 {code : UInt8} (h126 : code ≠ 126) (h127 : code ≠ 127) :
    formOf code = .bits7 := by
  rw [formOf,if_neg h126,if_neg h127]

theorem parseLength_126 (buffer : ℕ → UInt8) {code : UInt8} (h : code = 126) :
    parseLength buffer code.toUInt64 = (reads 2 2,shiftIn (buffer 2).toUInt64 (buffer 3),4) := by
  rw [h]
  rfl

theorem parseLength_127 (buffer : ℕ → UInt8) {code : UInt8} (h : code = 127) :
    parseLength buffer code.toUInt64 = (reads 2 8,
      (List.range 8).foldl (fun payloadLen i => shiftIn payloadLen (buffer (2 + i))) 0,10) := by
  rw [h]
  rfl

theorem parseLength_bits7 (buffer : ℕ → UInt8) {code : UInt8} (h126 : code ≠ 126)
    (h127 : code ≠ 127) : parseLength buffer code.toUInt64 = ([],code.toUInt64,2) := by
  have h126' : code.toUInt64 ≠ 126 := mt (toUInt64_eq_iff (by decide)).mp h126
  have h127' : code.toUInt64 ≠ 127 := mt (toUInt64_eq_iff (by decide)).mp h127
  rw [parseLength,if_neg h126',if_neg h127']

theorem parseLength_eq (buffer : ℕ → UInt8) (code : UInt8) :
    parseLength buffer code.toUInt64 = (reads 2 (formOf code).width,
      (parseLength buffer code.toUInt64).2.1,2 + (formOf code).width) := by
  by_cases h126 : code = 126
  · rw [parseLength_126 buffer h126,formOf_126 h126]
    rfl
  · by_cases h127 : code = 127
    · rw [parseLength_127 buffer h127,formOf_127 h127]
      rfl
    · rw [parseLength_bits7 buffer h126 h127,formOf_bits7 h126 h127]
      rfl

theorem parseLength_toNat (buffer : ℕ → UInt8) (code : UInt8) :
    (parseLength buffer code.toUInt64).2.1.toNat =
      lengthOf code (extended buffer (formOf code)) := by
  by_cases h126 : code = 126
  · have hhigh : (buffer 2).toUInt64.toNat < 256^7 := by
      have hb := (buffer 2).toNat_lt
      rw [UInt8.toNat_toUInt64]
      omega
    rw [parseLength_126 buffer h126,shiftIn_toNat hhigh,UInt8.toNat_toUInt64]
    simp only [lengthOf,formOf_126 h126]
    change _ = ByteOrder.big.value [buffer 2,buffer 3]
    simp [ByteOrder.value,ofLeBytes]
    omega
  · by_cases h127 : code = 127
    · have hfold := foldl_shiftIn_toNat (extended buffer .bits64) 0 (w := 0) (by decide)
        (by rw [extended,List.length_map,List.length_range]; decide)
      rw [UInt64.toNat_zero,Nat.zero_mul,Nat.zero_add,extended,List.foldl_map] at hfold
      rw [parseLength_127 buffer h127]
      simp only [lengthOf,formOf_127 h127]
      exact hfold
    · rw [parseLength_bits7 buffer h126 h127,UInt8.toNat_toUInt64]
      simp only [lengthOf,formOf_bits7 h126 h127]

theorem parseMask_eq (m : Leftover) (buffer : ℕ → UInt8) (masked : Bool) (offset : ℕ) :
    parseMask m buffer masked offset = (reads offset (if masked then 4 else 0),
      (if masked then fun i => buffer (offset + i.val) else m.mask),
      offset + if masked then 4 else 0) := by
  cases masked <;> rfl

/-- `payload_len`, read from where the extended length should be. -/
def readLength (m : Leftover) (input : List UInt8) : UInt64 :=
  (parseLength (byteAt m input) (declaredCode input).toUInt64).2.1

/-- The `mask` that the loop applies. -/
def appliedMask (m : Leftover) (input : List UInt8) : Fin 4 → UInt8 :=
  if declaresMask input then
    fun i => byteAt m input (2 + (formOf (declaredCode input)).width + i.val)
  else m.mask

theorem byteAt_lt (m : Leftover) {input : List UInt8} {i : ℕ} (h : i < input.length) :
    byteAt m input i = input.getD i 0 := by
  rw [byteAt,List.getD_eq_getElem _ _ h,List.getD_eq_getElem _ _ h]

/-- The parser reads the whole header from the front, then runs over the payload. -/
theorem parseWsFrame_eq (m : Leftover) {input : List UInt8} (h : 2 ≤ input.length) :
    parseWsFrame m input =
      (reads 0 (headerSize input) ++
          unmask (byteAt m input) (appliedMask m input) (headerSize input)
            (readLength m input).toNat ++
          [.write (readLength m input).toNat 0],
        returned (input.getD 0 0 &&& 0x0F) (readLength m input)) := by
  have h0 := byteAt_lt m (show 0 < input.length by omega)
  have h1 := byteAt_lt m (show 1 < input.length by omega)
  have hcode : byteAt m input 1 &&& 0x7F = declaredCode input := by rw [h1,declaredCode]
  have hmasked : (byteAt m input 1 &&& 0x80 != 0) = declaresMask input := by
    rw [h1,declaresMask]
  have hheader := reads_append 0 2 (formOf (declaredCode input)).width
  have hkey := reads_append 0 (2 + (formOf (declaredCode input)).width)
    (if declaresMask input then 4 else 0)
  rw [Nat.zero_add] at hheader hkey
  rw [parseWsFrame,if_neg (by omega)]
  simp only [h0,hcode,hmasked]
  rw [parseLength_eq]
  simp only [parseMask_eq]
  rw [hheader,hkey]
  rfl

theorem slice_eq_map {data : List UInt8} {start count : ℕ} (h : start + count ≤ data.length) :
    slice data start count = (List.range count).map fun i => data.getD (start + i) 0 := by
  apply List.ext_getElem
  · rw [slice,List.length_take,List.length_drop,List.length_map,List.length_range]
    omega
  · intro i hi hj
    rw [List.length_map,List.length_range] at hj
    simp only [slice,List.getElem_take,List.getElem_drop,List.getElem_map,List.getElem_range]
    rw [List.getD_eq_getElem _ _ (by omega)]

/-- A header that is there declares the length that the parser reads. -/
theorem readLength_toNat (m : Leftover) {input : List UInt8}
    (h : headerSize input ≤ input.length) :
    (readLength m input).toNat = payloadLength input := by
  have hwidth : 2 + (formOf (declaredCode input)).width ≤ input.length := by
    rw [headerSize] at h
    omega
  rw [readLength,parseLength_toNat,payloadLength,slice_eq_map hwidth,extended]
  congr 1
  apply List.map_congr_left
  intro i hi
  exact byteAt_lt m (by have hlt := List.mem_range.mp hi; omega)

/-! ## Which accesses stay inside -/

theorem reads_inBounds {count len size : ℕ} :
    (∀ access ∈ reads 0 count, access.InBounds len size) ↔ count ≤ len := by
  simp only [reads,List.forall_mem_map,List.mem_range,Access.InBounds,Nat.zero_add]
  constructor
  · intro h
    by_contra hlt
    exact Nat.lt_irrefl _ (h len (by omega))
  · intro h i hi
    omega

/-- The first byte that is missing is read, and `offset + i` has not wrapped by then. -/
theorem unmask_inBounds {buffer : ℕ → UInt8} {mask : Fin 4 → UInt8} {offset n len size : ℕ}
    (hoffset : offset ≤ len) (hlen : len < 2^64) :
    (∀ access ∈ unmask buffer mask offset n, access.InBounds len size) ↔
      offset + n ≤ len ∧ n ≤ size := by
  simp only [unmask,List.forall_mem_flatMap,List.mem_range,List.forall_mem_cons,
    Access.InBounds,List.not_mem_nil,false_imp_iff,implies_true,and_true]
  constructor
  · intro h
    constructor
    · by_contra hlt
      have hread := (h (len - offset) (by omega)).1
      rw [Nat.add_sub_cancel' hoffset,Nat.mod_eq_of_lt hlen] at hread
      exact Nat.lt_irrefl _ hread
    · by_contra hlt
      exact Nat.lt_irrefl _ (h size (by omega)).2
  · intro h i hi
    rw [Nat.mod_eq_of_lt (by omega)]
    omega

/-- The received bytes, as many as an `int len` can count. -/
abbrev Received := {bytes : List UInt8 // bytes.length < 2^31}

theorem accesses_inBounds_iff (m : Leftover) (input : Received) (h : 2 ≤ input.val.length) :
    (∀ access ∈ (parseWsFrame m input.val).1, access.InBounds input.val.length bufferSize) ↔
      Present input.val ∧ payloadLength input.val < bufferSize := by
  have hlen : input.val.length < 2^64 := input.property.trans (by decide)
  rw [parseWsFrame_eq m h,List.forall_mem_append,List.forall_mem_append,
    List.forall_mem_singleton,reads_inBounds]
  constructor
  · intro ⟨⟨hheader,hpayload⟩,hend⟩
    rw [unmask_inBounds hheader hlen] at hpayload
    rw [readLength_toNat m hheader] at hpayload hend
    exact ⟨hpayload.1,hend⟩
  · intro ⟨hpresent,hsize⟩
    rw [Present] at hpresent
    have hheader : headerSize input.val ≤ input.val.length := by omega
    rw [unmask_inBounds hheader hlen,readLength_toNat m hheader]
    exact ⟨⟨hheader,hpresent,hsize.le⟩,hsize⟩

/-- The parser stays inside both buffers, and accepts only what has arrived in full, exactly on
inputs too short for a header and on complete frames whose payload and its terminator fit. -/
theorem parseWsFrame_in_bounds_iff (m : Leftover) (input : Received) :
    ((∀ access ∈ (parseWsFrame m input.val).1, access.InBounds input.val.length bufferSize) ∧
        (0 ≤ (parseWsFrame m input.val).2 → Present input.val)) ↔
      input.val.length < 2 ∨ (Present input.val ∧ payloadLength input.val < bufferSize) := by
  by_cases h : input.val.length < 2
  · rw [parseWsFrame,if_pos h]
    simp [h]
  · rw [accesses_inBounds_iff m input (by omega)]
    constructor
    · intro hsafe
      exact .inr hsafe.1
    · intro hfits
      obtain hshort | hfits := hfits
      · exact absurd hshort h
      · exact ⟨hfits,fun _ => hfits.1⟩

/-- A text frame of five bytes, cut off after its header: the parser reads on and returns 5. -/
theorem parseWsFrame_truncated :
    ¬ (∀ access ∈ (parseWsFrame ⟨fun _ => 0,fun _ => 0⟩ [0x81,0x05]).1,
        access.InBounds 2 bufferSize) ∧
      ¬ (0 ≤ (parseWsFrame ⟨fun _ => 0,fun _ => 0⟩ [0x81,0x05]).2 → Present [0x81,0x05]) := by
  decide

/-! ## Parsing what was created -/

theorem createWsFrame_eq {payload : List UInt8} (h : payload.length ≤ 65535) :
    createWsFrame payload = some (0x81 :: (lengthBytes payload.length ++ payload)) := by
  rw [createWsFrame]
  by_cases h7 : payload.length ≤ 125
  · rw [if_pos h7,lengthBytes_bits7 (by omega)]
    rfl
  · have hhigh : payload.length >>> 8 &&& 0xFF = payload.length >>> 8 := by
      rw [Nat.and_two_pow_sub_one_eq_mod _ 8,Nat.shiftRight_eq_div_pow]
      omega
    rw [if_neg h7,if_pos h,lengthBytes_bits16 (by omega) (by omega),big_bytes_two,hhigh]
    rfl

/-- The first of the eight shifts is by 56. -/
theorem createWsFrame_none {payload : List UInt8} (h : 65535 < payload.length) :
    createWsFrame payload = none := by
  rw [createWsFrame,if_neg (by omega),if_neg (by omega),List.range_succ_eq_map,List.mapM_cons]
  rfl

theorem declaredCode_encode (f : Frame) :
    declaredCode f.encode = UInt8.ofNat (f.form.code f.payload.length) := by
  have hcode := LengthForm.code_lt f.fits
  rw [← UInt8.toNat_inj,UInt8.toNat_ofNat',Nat.mod_eq_of_lt (by omega)]
  exact f.second_code

theorem declaresMask_encode (f : Frame) : declaresMask f.encode = f.mask.isSome := f.second_masked

theorem formOf_encode (f : Frame) : formOf (declaredCode f.encode) = f.form := by
  have hfits := f.fits
  rw [declaredCode_encode]
  cases hform : f.form with
  | bits7 =>
    rw [hform] at hfits
    have hlt : f.payload.length < 126 := hfits
    have hne {code : UInt8} (h : 126 ≤ code.toNat) : UInt8.ofNat f.payload.length ≠ code := by
      intro heq
      rw [← heq,UInt8.toNat_ofNat',Nat.mod_eq_of_lt (by omega)] at h
      omega
    exact formOf_bits7 (hne (by decide)) (hne (by decide))
  | bits16 => rfl
  | bits64 => rfl

theorem headerSize_encode (f : Frame) :
    headerSize f.encode = 2 + f.form.width + f.maskBytes.length := by
  rw [headerSize,formOf_encode,declaresMask_encode,f.maskBytes_length]

theorem payloadLength_encode (f : Frame) : payloadLength f.encode = f.payload.length := by
  have hslice := f.slice_extended []
  have hcode : (declaredCode f.encode).toNat = f.form.code f.payload.length := f.second_code
  have hfits := f.fits
  rw [List.append_nil] at hslice
  simp only [payloadLength,lengthOf,formOf_encode,hslice,hcode]
  cases hform : f.form with
  | bits7 => rfl
  | bits16 =>
    rw [hform] at hfits
    exact ByteOrder.value_bytes_of_lt .big (show f.payload.length < 256^2 from hfits)
  | bits64 =>
    rw [hform] at hfits
    exact ByteOrder.value_bytes_of_lt .big (show f.payload.length < 256^8 from hfits)

theorem present_encode (f : Frame) : Present f.encode := by
  rw [Present,headerSize_encode,payloadLength_encode,Frame.encode_length]

/-- The writes, in order. -/
def writes (accesses : List Access) : List (ℕ × UInt8) :=
  accesses.filterMap fun
    | .read _ => none
    | .write index byte => some (index,byte)

theorem writes_append (as bs : List Access) : writes (as ++ bs) = writes as ++ writes bs :=
  List.filterMap_append

theorem writes_reads (start count : ℕ) : writes (reads start count) = [] := by
  rw [writes,reads,List.filterMap_map]
  exact List.filterMap_none _

theorem writes_unmask (buffer : ℕ → UInt8) (mask : Fin 4 → UInt8) (offset n : ℕ) :
    writes (unmask buffer mask offset n) = (List.range n).map fun i =>
      (i,buffer ((offset + i) % 2^64) ^^^ mask ⟨i % 4,Nat.mod_lt _ (by decide)⟩) := by
  rw [writes,unmask,List.filterMap_flatMap,List.map_eq_flatMap]
  rfl

/-- The bytes of a string at the front of a buffer. -/
def stored (bytes : List UInt8) : List (ℕ × UInt8) := bytes.mapIdx fun i byte => (i,byte)

/-- The payload buffer receives the body of a frame, unmasked with the applied `mask`. -/
theorem writes_encode (m : Leftover) (f : Frame) :
    writes (parseWsFrame m f.encode).1 =
      stored (f.body.mapIdx fun i byte =>
          byte ^^^ appliedMask m f.encode ⟨i % 4,Nat.mod_lt _ (by decide)⟩) ++
        [(f.payload.length,0)] := by
  have hsize := f.size_lt
  have hpresent := present_encode f
  have hlen := f.encode_length
  have hbody := f.slice_body []
  rw [← f.maskBytes_length] at hsize
  rw [List.append_nil,← headerSize_encode,← payloadLength_encode,slice_eq_map hpresent] at hbody
  rw [Present] at hpresent
  have h2 : 2 ≤ f.encode.length := by omega
  have hheader : headerSize f.encode ≤ f.encode.length := by omega
  rw [parseWsFrame_eq m h2,writes_append,writes_append,writes_reads,writes_unmask,
    readLength_toNat m hheader,List.nil_append,← hbody,payloadLength_encode]
  congr 1
  apply List.ext_getElem
  · simp [stored]
  · intro i hi hj
    rw [List.length_map,List.length_range] at hi
    rw [payloadLength_encode] at hpresent
    simp only [stored,List.getElem_map,List.getElem_range,List.getElem_mapIdx]
    rw [Nat.mod_eq_of_lt (by omega),byteAt_lt m (by omega)]

/-- A string that `strlen` measures, short enough for the length of its frame to be an `int`. -/
abbrev CString := {bytes : List UInt8 // 0 ∉ bytes ∧ bytes.length + 10 < 2^31}

/-- The frame created for a payload is parsed to its length and its bytes. -/
def RoundTrip (m : Leftover) (payload : List UInt8) : Prop :=
  ∃ frame, createWsFrame payload = some frame ∧
    (parseWsFrame m frame).2 = payload.length ∧
    writes (parseWsFrame m frame).1 = stored payload ++ [(payload.length,0)]

/-- Only the mask bytes that the payload reaches matter. -/
theorem stored_xor_iff (bytes : List UInt8) (mask : Fin 4 → UInt8) :
    stored (bytes.mapIdx fun i byte => byte ^^^ mask ⟨i % 4,Nat.mod_lt _ (by decide)⟩) =
        stored bytes ↔ ∀ i : Fin 4, i.val < bytes.length → mask i = 0 := by
  have hxor (byte key : UInt8) : byte ^^^ key = byte ↔ key = 0 := by
    have h := UInt8.xor_right_inj (a := key) (b := 0) byte
    rw [UInt8.xor_zero] at h
    exact h
  rw [stored,stored,List.mapIdx_mapIdx,List.mapIdx_eq_mapIdx_iff]
  simp only [Function.comp_def,Prod.mk.injEq,true_and,hxor]
  constructor
  · intro h i hi
    have hmask := h i.val hi
    have hmod : (⟨i.val % 4,Nat.mod_lt _ (by decide)⟩ : Fin 4) = i :=
      Fin.ext (Nat.mod_eq_of_lt i.isLt)
    rw [hmod] at hmask
    exact hmask
  · intro h i hi
    exact h ⟨i % 4,Nat.mod_lt _ (by decide)⟩ ((Nat.mod_le _ _).trans_lt hi)

theorem returned_text {payloadLen : UInt64} (h : payloadLen.toNat < 2^31) :
    returned 1 payloadLen = payloadLen.toNat := by
  rw [returned,if_neg (by decide),if_neg (by decide),if_neg (by decide)]
  apply Int.bmod_eq_of_le_mul_two
  · omega
  · omega

/-- The result for a frame whose length is read as an `int`. -/
theorem result_encode (m : Leftover) (f : Frame) (htext : f.first &&& 0x0F = 1)
    (h : f.payload.length < 2^31) : (parseWsFrame m f.encode).2 = f.payload.length := by
  have hpresent := present_encode f
  have hlen := f.encode_length
  rw [Present] at hpresent
  have hread := readLength_toNat m (show headerSize f.encode ≤ f.encode.length by omega)
  rw [payloadLength_encode] at hread
  have hopcode : f.encode.getD 0 0 &&& 0x0F = 1 := htext
  rw [parseWsFrame_eq m (by omega),hopcode,returned_text (by omega),hread]

/-- The created frame, while two bytes can hold the length of the payload. -/
theorem roundTrip_short (m : Leftover) (payload : Bytes) (h : payload.val.length ≤ 65535) :
    RoundTrip m payload.val ↔ ∀ i : Fin 4, i.val < payload.val.length → m.mask i = 0 := by
  let f := unmasked 0x81 payload
  have hframe : createWsFrame payload.val = some f.encode := by
    rw [createWsFrame_eq h,unmasked_encode]
  have hlength : f.payload.length < 2^31 := h.trans_lt (by decide)
  have htext : (0x81 : UInt8) &&& 0x0F = 1 := by decide
  have hresult := result_encode m f htext hlength
  have hmask : appliedMask m f.encode = m.mask := by
    rw [appliedMask,declaresMask_encode]
    rfl
  have hwrites := writes_encode m f
  rw [hmask] at hwrites
  rw [← stored_xor_iff]
  constructor
  · intro ⟨frame,hcreated,_,hstored⟩
    rw [hframe] at hcreated
    cases hcreated
    rw [hwrites] at hstored
    exact List.append_cancel_right hstored
  · intro hstored
    refine ⟨f.encode,hframe,hresult,?_⟩
    rw [hwrites,← hstored]
    rfl

/-- A payload comes back exactly when two bytes can hold its length and the uninitialised `mask`,
which the parser applies to the unmasked frame, is zero as far as the payload reaches. -/
theorem roundTrip_iff (m : Leftover) (payload : CString) :
    RoundTrip m payload.val ↔
      payload.val.length ≤ 65535 ∧ ∀ i : Fin 4, i.val < payload.val.length → m.mask i = 0 := by
  by_cases h : payload.val.length ≤ 65535
  · rw [roundTrip_short m ⟨payload.val,by omega⟩ h]
    constructor
    · intro hmask
      exact ⟨h,hmask⟩
    · intro hfits
      exact hfits.2
  · constructor
    · intro ⟨frame,hframe,_⟩
      rw [createWsFrame_none (by omega)] at hframe
      cases hframe
    · intro hfits
      exact absurd hfits.1 h

/-- The text `A` comes back as `@` if the mask happens to begin with 1. -/
theorem roundTrip_mask : ¬ RoundTrip ⟨fun _ => 0,fun _ => 1⟩ [0x41] := by
  intro ⟨frame,hframe,_,hwrites⟩
  have hcreated : createWsFrame [0x41] = some [0x81,0x01,0x41] := by decide
  rw [hcreated] at hframe
  cases hframe
  revert hwrites
  decide

end DebugServer
end WebSocket
end UProtocols
