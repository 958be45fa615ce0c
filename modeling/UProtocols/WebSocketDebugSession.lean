import Mathlib.Data.List.TakeWhile
import UProtocols.Runs
import UProtocols.WebSocketDebugServer

/-!
# The loop of the debug server

`handle_client` of `websocket_server_with_debug_logging.c` behind the handshake. The loop parses
the front of its buffer once for every `recv`, and the buffer keeps what earlier calls have left
behind the received bytes. The session is undefined where an access leaves a buffer.
-/

namespace UProtocols
namespace WebSocket
namespace DebugServer

/-- The bytes of a `recv`, none at the end of the stream, and what the locals of the iteration
hold before they are written. -/
structure Recv where
  bytes : List UInt8
  mask : Fin 4 → UInt8
  payload : ℕ → UInt8

/-- `buffer`, what has been sent, and whether the loop has ended. -/
structure Session where
  buffer : ℕ → UInt8
  sent : List (List UInt8)
  closed : Bool

/-- The stores into an array, one after the other. -/
def store (array : ℕ → UInt8) (writes : List (ℕ × UInt8)) : ℕ → UInt8 :=
  writes.foldl (fun array w => Function.update array w.1 w.2) array

/-- The string at the front of an array of `bufferSize` bytes. -/
def cString (array : ℕ → UInt8) : List UInt8 :=
  ((List.range bufferSize).map array).takeWhile (· != 0)

/-- What is sent for a result, and whether the loop ends; none where `frame` overflows. -/
def respond (result : ℤ) (payload : List UInt8) : Option (List (List UInt8) × Bool) :=
  if result = -2 then some ([],true)
  else if result = -3 then some ([[0x8A,0x00]],false)
  else if 0 < result then
    (createWsFrame payload).bind fun frame =>
      if frame.length ≤ bufferSize then some ([frame],false) else none
  else some ([],false)

/-- `buffer` after a `recv`. -/
def received (buffer : ℕ → UInt8) (r : Recv) : ℕ → UInt8 := byteAt ⟨buffer,r.mask⟩ r.bytes

namespace Session

def start (buffer : ℕ → UInt8) : Session := ⟨buffer,[],false⟩

/-- One iteration. A socket that is closed is not read any more. -/
def step (s : Session) (r : Recv) : Option Session :=
  if s.closed then some s
  else if r.bytes = [] then some {s with closed := true}
  else if bufferSize < r.bytes.length then none
  else
    let parsed := parseWsFrame ⟨s.buffer,r.mask⟩ r.bytes
    if ∀ access ∈ parsed.1, access.InBounds bufferSize bufferSize then
      (respond parsed.2 (cString (store r.payload (writes parsed.1)))).map fun answer =>
        ⟨received s.buffer r,s.sent ++ answer.1,answer.2⟩
    else none

end Session

/-! ## One frame -/

/-- A frame as clients must send it, masked, that fits into the buffer. -/
abbrev ClientFrame := {f : Frame // f.mask.isSome ∧ f.encode.length ≤ bufferSize}

/-- The array begins with these bytes. -/
def Holds (array : ℕ → UInt8) (bytes : List UInt8) : Prop :=
  (List.range bytes.length).map array = bytes

/-- The text up to its first NUL. -/
def text (f : ClientFrame) : Bytes :=
  ⟨f.val.payload.takeWhile (· != 0),by
    have hlen := (f.val.payload.takeWhile_sublist (· != 0)).length_le
    have hfits := f.property.2
    have hsize : bufferSize = 4096 := rfl
    rw [f.val.encode_length] at hfits
    omega⟩

def opcode (f : ClientFrame) : UInt8 := f.val.first &&& 0x0F

/-- A pong without the payload of the ping, or the text, whatever the opcode of the data. -/
def reply (f : ClientFrame) : List Frame :=
  if opcode f = 0x9 then [unmasked 0x8A ⟨[],by decide⟩]
  else if opcode f = 0xA ∨ f.val.payload = [] then []
  else [unmasked 0x81 (text f)]

/-- The replies until the first close frame. -/
def replies : List ClientFrame → List Frame
  | [] => []
  | f :: fs => if opcode f = 0x8 then [] else reply f ++ replies fs

def zeroLocals (bytes : List UInt8) : Recv := ⟨bytes,fun _ => 0,fun _ => 0⟩

/-- The text frame of `payload` with a key of zeros. -/
def plainFrame (payload : {bytes : List UInt8 // bytes.length < 100}) : ClientFrame :=
  ⟨⟨0x81,.bits7,some ⟨[0,0,0,0],rfl⟩,payload.val,Nat.lt_trans payload.property (by decide),by
      have h := payload.property
      simp only [Option.isSome_some,if_true,LengthForm.width]
      omega⟩,rfl,by
    have h := payload.property
    have hsize : bufferSize = 4096 := rfl
    simp only [Frame.encode_length,Frame.maskBytes,Option.map_some,Option.getD_some,
      List.length_cons,List.length_nil,LengthForm.width]
    omega⟩

def greeting : ClientFrame := plainFrame ⟨[0x48,0x69],by decide⟩

section OneFrame

variable {m : Leftover} {f : ClientFrame} {input : List UInt8} {array : ℕ → UInt8}

theorem Holds.apply {bytes : List UInt8} (h : Holds array bytes) {i : ℕ} (hi : i < bytes.length) :
    array i = bytes.getD i 0 := by
  have hget := congrArg (fun bytes => bytes.getD i 0) h
  simpa [List.getD_eq_getElem,hi] using hget

/-- The parser sees the buffer, not what of it has been received. -/
theorem parseWsFrame_of_holds (h2 : 2 ≤ input.length) (h : Holds (byteAt m input) f.val.encode) :
    parseWsFrame m input = parseWsFrame ⟨byteAt m input,m.mask⟩ f.val.encode := by
  have hbytes : byteAt ⟨byteAt m input,m.mask⟩ f.val.encode = byteAt m input := by
    funext i
    by_cases hi : i < f.val.encode.length
    · rw [byteAt_lt _ hi,h.apply hi]
    · rw [byteAt,List.getD_eq_default _ _ (by omega)]
  have hlong : ¬ f.val.encode.length < 2 := by
    rw [f.val.encode_length]
    omega
  rw [parseWsFrame,parseWsFrame,if_neg (by omega),if_neg hlong,hbytes]
  rfl

theorem payload_lt (f : ClientFrame) : f.val.payload.length + 6 ≤ bufferSize := by
  have hfits := f.property.2
  rw [f.val.encode_length,f.val.maskBytes_length,if_pos f.property.1] at hfits
  omega

theorem accesses_ok (m : Leftover) (f : ClientFrame) :
    ∀ access ∈ (parseWsFrame m f.val.encode).1, access.InBounds bufferSize bufferSize := by
  have hfits := f.property.2
  have hlong : 2 ≤ f.val.encode.length := by
    rw [f.val.encode_length]
    omega
  have hpayload : payloadLength f.val.encode < bufferSize := by
    have := payload_lt f
    rw [payloadLength_encode]
    omega
  have hinside := (accesses_inBounds_iff m ⟨f.val.encode,hfits.trans_lt (by decide)⟩ hlong).mpr
    ⟨present_encode f.val,hpayload⟩
  intro access haccess
  have h := hinside access haccess
  cases access with
  | read index => exact lt_of_lt_of_le h hfits
  | write index byte => exact h

theorem result_eq (m : Leftover) (f : ClientFrame) :
    (parseWsFrame m f.val.encode).2 =
      if opcode f = 0x8 then -2 else if opcode f = 0x9 then -3 else if opcode f = 0xA then -4
      else (f.val.payload.length : ℤ) := by
  have hfits := payload_lt f
  have hpresent := present_encode f.val
  have hlong := f.val.encode_length
  rw [Present] at hpresent
  have hread := readLength_toNat m (show headerSize f.val.encode ≤ f.val.encode.length by omega)
  rw [payloadLength_encode] at hread
  have hint : ((readLength m f.val.encode).toNat : ℤ).bmod (2^32) = f.val.payload.length := by
    have hsize : bufferSize = 4096 := rfl
    rw [hread]
    exact Int.bmod_eq_of_le_mul_two (by omega) (by omega)
  rw [parseWsFrame_eq m (by omega),returned,hint]
  rfl

/-- A masked frame is unmasked with its own key. -/
theorem writes_client (m : Leftover) (f : ClientFrame) :
    writes (parseWsFrame m f.val.encode).1 =
      stored f.val.payload ++ [(f.val.payload.length,0)] := by
  obtain ⟨key,hkey⟩ := Option.isSome_iff_exists.mp f.property.1
  have hbytes : f.val.maskBytes = key.val := by simp [Frame.maskBytes,hkey]
  have hmask : ∀ i : Fin 4, appliedMask m f.val.encode i = key.val.getD i 0 := by
    intro i
    have hslice := f.val.slice_mask []
    have hlong := f.val.encode_length
    have hi := i.isLt
    have hfour : f.val.maskBytes.length = 4 := by rw [hbytes,key.property]
    rw [List.append_nil,slice_eq_map (by omega),hbytes] at hslice
    rw [appliedMask,declaresMask_encode,hkey,Option.isSome_some,if_pos rfl,formOf_encode,
      byteAt_lt m (by omega),← hslice]
    simp [hi,key.property]
  rw [writes_encode,Frame.body,hkey]
  congr 2
  calc _ = applyMask key.val (applyMask key.val f.val.payload) := by
        simp only [hmask]
        rfl
    _ = f.val.payload := Frame.applyMask_applyMask _ _

end OneFrame

/-! ## Strings in the payload buffer -/

theorem store_append (array : ℕ → UInt8) (ws ws' : List (ℕ × UInt8)) :
    store array (ws ++ ws') = store (store array ws) ws' := by
  simp [store]

theorem store_stored (array : ℕ → UInt8) (bytes : List UInt8) (i : ℕ) :
    store array (stored bytes) i = bytes.getD i (array i) := by
  induction bytes using List.reverseRecOn with
  | nil => rfl
  | append_singleton bytes byte ih =>
    have hstored : stored (bytes ++ [byte]) = stored bytes ++ [(bytes.length,byte)] := by
      simp [stored,List.mapIdx_append]
    rw [hstored,store_append]
    simp only [store,List.foldl_cons,List.foldl_nil] at ih ⊢
    by_cases hi : i = bytes.length
    · subst hi
      simp
    · rw [Function.update_of_ne hi,ih]
      by_cases hlt : i < bytes.length
      · rw [List.getD_append _ _ _ _ hlt]
      · rw [List.getD_eq_default _ _ (by omega),List.getD_eq_default _ _ (by simp; omega)]

/-- The string that the parser leaves behind is the payload up to its first NUL. -/
theorem cString_stored (array : ℕ → UInt8) {bytes : List UInt8} (h : bytes.length < bufferSize) :
    cString (store array (stored bytes ++ [(bytes.length,0)])) = bytes.takeWhile (· != 0) := by
  obtain ⟨more,hmore⟩ := Nat.exists_eq_add_of_lt h
  have hsplit : (List.range bufferSize).map
      (store array (stored bytes ++ [(bytes.length,0)])) = bytes ++ 0 ::
        (List.range more).map fun i =>
          store array (stored bytes ++ [(bytes.length,0)]) (bytes.length + 1 + i) := by
    rw [hmore,show bytes.length + more + 1 = bytes.length + (1 + more) by omega,List.range_add,
      List.range_add,List.map_append,List.map_map,List.map_append,List.map_map]
    congr 1
    · apply List.ext_getElem
      · simp
      · intro i hi hi'
        have hlast : store (store array (stored bytes)) [(bytes.length,0)] i =
            store array (stored bytes) i := Function.update_of_ne hi'.ne _ _
        simp [store_append,hlast,store_stored,hi']
    · simp [store,Function.comp_def,Nat.add_assoc]
  rw [cString,hsplit,List.takeWhile_append]
  split_ifs with hall
  · exact ((bytes.takeWhile_prefix _).eq_of_length hall).symm ▸ List.append_nil _
  · rfl

/-! ## Sessions -/

section Sessions

variable {buffer : ℕ → UInt8} {r : Recv} {f : ClientFrame} {s : Session} {recvs : List Recv}
  {frames : List ClientFrame}

/-- What an iteration sends for a frame. -/
theorem respond_eq (m : Leftover) (f : ClientFrame) (payload : ℕ → UInt8) :
    respond (parseWsFrame m f.val.encode).2
        (cString (store payload (writes (parseWsFrame m f.val.encode).1))) =
      some (if opcode f = 0x8 then ([],true) else ((reply f).map Frame.encode,false)) := by
  have hfits := payload_lt f
  have hshort : (text f).val.length ≤ f.val.payload.length :=
    (f.val.payload.takeWhile_sublist _).length_le
  have hsmall : bufferSize = 4096 := rfl
  rw [result_eq,writes_client,cString_stored _ (by omega),respond]
  by_cases hclose : opcode f = 0x8
  · simp [hclose]
  · by_cases hping : opcode f = 0x9
    · have hpong : (unmasked 0x8A ⟨[],by decide⟩).encode = [0x8A,0x00] := by decide
      simp [hping,reply,hpong]
    · by_cases hpong : opcode f = 0xA
      · simp [hpong,reply]
      · by_cases hempty : f.val.payload = []
        · simp [hclose,hping,hpong,hempty,reply]
        · have hpos : 0 < f.val.payload.length := List.length_pos_of_ne_nil hempty
          have hframe : createWsFrame (text f).val = some (unmasked 0x81 (text f)).encode := by
            rw [createWsFrame_eq (by omega),unmasked_encode]
          have hlen : (unmasked 0x81 (text f)).encode.length ≤ bufferSize := by
            rw [unmasked_encode,List.length_cons,List.length_append]
            by_cases h7 : (text f).val.length < 126
            · rw [lengthBytes_bits7 h7,List.length_singleton]
              omega
            · rw [lengthBytes_bits16 h7 (by omega)]
              simp only [List.length_cons,ByteOrder.bytes_length]
              omega
          rw [text] at hframe hlen
          simp only [if_neg hclose,if_neg hping,if_neg hpong]
          rw [if_neg (by omega),if_neg (by omega),if_pos (by omega),hframe,Option.bind_some,
            if_pos hlen]
          simp [reply,hping,hpong,hempty,text]

/-- One `recv` that leaves a frame at the front of the buffer. -/
theorem step_front (hopen : s.closed = false) (h2 : 2 ≤ r.bytes.length)
    (hsize : r.bytes.length ≤ bufferSize) (h : Holds (received s.buffer r) f.val.encode) :
    s.step r = some (if opcode f = 0x8 then ⟨received s.buffer r,s.sent,true⟩
      else ⟨received s.buffer r,s.sent ++ (reply f).map Frame.encode,false⟩) := by
  have hne : r.bytes ≠ [] := List.ne_nil_of_length_pos (by omega)
  have hparse := parseWsFrame_of_holds h2 h
  rw [Session.step,hopen,if_neg (by decide),if_neg hne,if_neg (by omega)]
  simp only [hparse,if_pos (accesses_ok _ f),respond_eq]
  split <;> simp

/-- Each `recv` gets two bytes or more and leaves the next of these frames at the front of the
buffer. -/
def Fronts : (ℕ → UInt8) → List Recv → List ClientFrame → Prop
  | _, [], [] => True
  | buffer, r :: recvs, f :: frames =>
    2 ≤ r.bytes.length ∧ r.bytes.length ≤ bufferSize ∧ Holds (received buffer r) f.val.encode ∧
      Fronts (received buffer r) recvs frames
  | _, _, _ => False

theorem exec_closed (h : s.closed = true) : Runs.exec Session.step s recvs = some s := by
  induction recvs with
  | nil => rfl
  | cons r recvs ih => exact Runs.exec_cons.mpr ⟨s,by rw [Session.step,if_pos h],ih⟩

theorem exec_fronts (hopen : s.closed = false) (h : Fronts s.buffer recvs frames) :
    ∃ t, Runs.exec Session.step s recvs = some t ∧
      t.sent = s.sent ++ (replies frames).map Frame.encode := by
  induction recvs generalizing s frames with
  | nil =>
    cases frames with
    | nil => exact ⟨s,rfl,by simp [replies]⟩
    | cons f frames => exact h.elim
  | cons r recvs ih =>
    cases frames with
    | nil => exact h.elim
    | cons f frames =>
      obtain ⟨h2,hsize,hfront,hrest⟩ := h
      have hstep := step_front hopen h2 hsize hfront
      by_cases hclose : opcode f = 0x8
      · rw [if_pos hclose] at hstep
        exact ⟨_,Runs.exec_cons.mpr ⟨_,hstep,exec_closed rfl⟩,by simp [replies,hclose]⟩
      · rw [if_neg hclose] at hstep
        obtain ⟨t,ht,hsent⟩ := ih (show (Session.closed ⟨received s.buffer r,
          s.sent ++ (reply f).map Frame.encode,false⟩) = false from rfl) hrest
        exact ⟨t,Runs.exec_cons.mpr ⟨_,hstep,ht⟩,by simp [replies,hclose,hsent]⟩

/-- In every session the server answers, once for each `recv` and up to a close frame, the frame
at the front of its buffer, whether its bytes have just been received or are left from before. -/
theorem answers_fronts (h : Fronts buffer recvs frames) :
    ∃ s, Runs.exec Session.step (.start buffer) recvs = some s ∧
      s.sent = (replies frames).map Frame.encode := by
  obtain ⟨s,hs,hsent⟩ :=
    exec_fronts (show (Session.start buffer).closed = false from rfl) h
  exact ⟨s,hs,by simpa [Session.start] using hsent⟩

/-- After the text `Hi`, a header alone is answered with `Hi` again. -/
theorem answers_fronts_leftover :
    ∃ s, Runs.exec Session.step (.start fun _ => 0)
        [zeroLocals greeting.val.encode,zeroLocals [0x81,0x82]] = some s ∧
      s.sent = [[0x81,0x02,0x48,0x69],[0x81,0x02,0x48,0x69]] :=
  answers_fronts (show Fronts (fun _ => 0) [zeroLocals greeting.val.encode,
    zeroLocals [0x81,0x82]] [greeting,greeting] by simp only [Fronts,Holds]; decide +kernel)

/-- The `recv` returns exactly these whole frames. -/
def Carries (r : Recv) (g : ClientFrame × List ClientFrame) : Prop :=
  r.bytes = g.1.val.encode ++ g.2.flatMap (fun f => f.val.encode) ∧ r.bytes.length ≤ bufferSize

/-- A data frame that the loop echoes in full: its payload is not empty and has no NUL. -/
def IsText (f : ClientFrame) : Prop :=
  opcode f ≠ 0x8 ∧ opcode f ≠ 0x9 ∧ opcode f ≠ 0xA ∧ f.val.payload ≠ [] ∧ 0 ∉ f.val.payload

theorem holds_received {rest : List UInt8} (h : r.bytes = f.val.encode ++ rest) :
    Holds (received buffer r) f.val.encode := by
  apply List.ext_getElem
  · simp
  · intro i hi hi'
    have hlt : i < r.bytes.length := by
      rw [h,List.length_append]
      omega
    rw [List.getElem_map,List.getElem_range,received,byteAt_lt _ hlt,h,
      List.getD_append _ _ _ _ hi',List.getD_eq_getElem _ _ hi']

theorem fronts_of_carries {groups : List (ClientFrame × List ClientFrame)}
    (h : List.Forall₂ Carries recvs groups) : Fronts buffer recvs (groups.map Prod.fst) := by
  induction h generalizing buffer with
  | nil => trivial
  | cons hcarries _ ih =>
    refine ⟨?_,hcarries.2,holds_received hcarries.1,ih⟩
    rw [hcarries.1,List.length_append,Frame.encode_length]
    omega

theorem replies_text (h : ∀ f ∈ frames, IsText f) :
    (replies frames).map Frame.payload = frames.map fun f => f.val.payload := by
  induction frames with
  | nil => rfl
  | cons f frames ih =>
    obtain ⟨hclose,hping,hpong,hne,hnul⟩ := h f List.mem_cons_self
    have hall : f.val.payload.takeWhile (· != 0) = f.val.payload := by
      apply List.takeWhile_eq_self_iff.mpr
      intro byte hbyte
      have hne : byte ≠ 0 := fun heq => hnul (heq ▸ hbyte)
      simpa using hne
    have hreply : (reply f).map Frame.payload = [f.val.payload] := by
      simp [reply,hping,hpong,hne,unmasked,text,hall]
    rw [replies,if_neg hclose,List.map_append,hreply,
      ih fun f hf => h f (List.mem_cons_of_mem _ hf)]
    rfl

theorem length_groups {α : Type} (groups : List (α × List α)) :
    (groups.flatMap fun p => p.1 :: p.2).length =
      groups.length + (groups.map fun p => p.2.length).sum := by
  induction groups with
  | nil => rfl
  | cons p groups ih =>
    rw [List.flatMap_cons,List.length_append,ih]
    simp only [List.length_cons,List.map_cons,List.sum_cons]
    omega

theorem map_fst_eq_iff {α β : Type} (g : α → β) (groups : List (α × List α)) :
    (groups.map Prod.fst).map g = (groups.flatMap fun p => p.1 :: p.2).map g ↔
      ∀ p ∈ groups, p.2 = [] := by
  constructor
  · intro h p hp
    have hlen := congrArg List.length h
    rw [List.length_map,List.length_map,List.length_map,length_groups] at hlen
    have hsum : (groups.map fun p => p.2.length).sum = 0 := by omega
    rw [List.sum_eq_zero_iff_forall_eq_nat,List.forall_mem_map] at hsum
    exact List.length_eq_zero_iff.mp (hsum p hp)
  · intro h
    induction groups with
    | nil => rfl
    | cons p groups ih =>
      have hnil := h p List.mem_cons_self
      have hrest := ih fun q hq => h q (List.mem_cons_of_mem _ hq)
      rw [List.flatMap_cons,hnil,List.map_append,← hrest]
      rfl

/-- Where every `recv` returns whole text frames, the client gets all its texts back, in order,
exactly when no `recv` returns more than one frame. -/
theorem echoes_all_iff {groups : List (ClientFrame × List ClientFrame)}
    (h : List.Forall₂ Carries recvs groups)
    (htext : ∀ f ∈ groups.flatMap fun g => g.1 :: g.2, IsText f) :
    ∃ s, ∃ echoed : List Frame, Runs.exec Session.step (.start buffer) recvs = some s ∧
      s.sent = echoed.map Frame.encode ∧
      (echoed.map Frame.payload =
          (groups.flatMap fun g => g.1 :: g.2).map (fun f => f.val.payload) ↔
        ∀ g ∈ groups, g.2 = []) := by
  obtain ⟨s,hs,hsent⟩ := exec_fronts (show (Session.start buffer).closed = false from rfl)
    (fronts_of_carries h)
  have hheads : ∀ f ∈ groups.map Prod.fst, IsText f := by
    intro f hf
    obtain ⟨g,hg,rfl⟩ := List.mem_map.mp hf
    exact htext g.1 (List.mem_flatMap.mpr ⟨g,hg,List.mem_cons_self⟩)
  refine ⟨s,_,hs,by simpa [Session.start] using hsent,?_⟩
  rw [replies_text hheads]
  exact map_fst_eq_iff _ groups

/-- Two frames in one `recv`: the second text is not echoed. -/
theorem echoes_all_iff_twoAtOnce :
    ∃ s, ∃ echoed : List Frame,
      Runs.exec Session.step (.start fun _ => 0)
        [zeroLocals (greeting.val.encode ++ greeting.val.encode)] = some s ∧
      s.sent = echoed.map Frame.encode ∧
      (echoed.map Frame.payload = [[0x48,0x69],[0x48,0x69]] ↔
        ∀ g ∈ [(greeting,[greeting])], g.2 = []) :=
  echoes_all_iff (show List.Forall₂ Carries
    [zeroLocals (greeting.val.encode ++ greeting.val.encode)] [(greeting,[greeting])] from
    .cons (by unfold Carries; decide +kernel) .nil) (by simp only [IsText]; decide +kernel)

end Sessions

end DebugServer
end WebSocket
end UProtocols
