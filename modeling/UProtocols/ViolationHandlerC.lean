import UProtocols.ViolationHandlerLanguage

/-!
# The violation handler in C and in C++

`validate_frame_header` of `websocket_protocol_violation_handler.c` and `WebSocketValidator` of
`websocket_protocol_violation_handler.cpp`. The C++ validator makes the checks of the Rust one
in the same order. The C function reads the state of the connection and does not change it, and
refuses a new message during an open one only when the frame is not final.
-/

namespace UProtocols
namespace ViolationHandler

/-- A header as C and C++ have it, with the opcode as a byte. -/
structure RawHeader where
  fin : Bool
  rsv1 : Bool
  rsv2 : Bool
  rsv3 : Bool
  opcode : UInt8
  masked : Bool
  payloadLength : UInt64
  deriving DecidableEq

def FrameHeader.toRaw (header : FrameHeader) : RawHeader where
  fin := header.fin
  rsv1 := header.rsv1
  rsv2 := header.rsv2
  rsv3 := header.rsv3
  opcode := header.opcode.toU8
  masked := header.masked
  payloadLength := header.payloadLength

theorem FrameHeader.toRaw_opcode (header : FrameHeader) :
    header.toRaw.opcode = header.opcode.toU8 := rfl

theorem FrameHeader.toRaw_opcode_continuation (header : FrameHeader) :
    header.toRaw.opcode = 0x0 ↔ header.opcode = .continuation := by
  rw [toRaw_opcode]
  cases header.opcode <;> decide

theorem FrameHeader.toRaw_opcode_data (header : FrameHeader) :
    header.toRaw.opcode = 0x1 ∨ header.toRaw.opcode = 0x2 ↔
      header.opcode = .text ∨ header.opcode = .binary := by
  rw [toRaw_opcode]
  cases header.opcode <;> decide

/-! ## C -/

namespace C

structure ConnectionState where
  inFragmentedMessage : Bool
  isServer : Bool
  extensionsNegotiated : Bool
  deriving DecidableEq

inductive ValidationError
  | ok
  | invalidOpcode
  | reservedBits
  | controlFragmented
  | controlTooLarge
  | invalidMasking
  | continuationError
  | invalidUtf8
  | invalidCloseCode
  deriving DecidableEq

def validateFrameHeader (header : RawHeader) (state : ConnectionState) : ValidationError :=
  if header.opcode > 0xA || (header.opcode > 0x2 && header.opcode < 0x8) then .invalidOpcode
  else if !state.extensionsNegotiated && (header.rsv1 || header.rsv2 || header.rsv3) then
    .reservedBits
  else if header.opcode ≥ 0x8 && !header.fin then .controlFragmented
  else if header.opcode ≥ 0x8 && header.payloadLength > 125 then .controlTooLarge
  else if state.isServer && !header.masked then .invalidMasking
  else if !state.isServer && header.masked then .invalidMasking
  else if header.opcode = 0x0 then
    if !state.inFragmentedMessage then .continuationError else .ok
  else if header.opcode = 0x1 ∨ header.opcode = 0x2 then
    if state.inFragmentedMessage && !header.fin then .continuationError else .ok
  else .ok

end C

/-! ## C++ -/

namespace Cpp

structure WebSocketValidator where
  inFragmentedMessage : Bool
  fragmentedOpcode : UInt8
  isServer : Bool
  extensionsNegotiated : Bool
  deriving DecidableEq

def isControlFrame (opcode : UInt8) : Bool := opcode ≥ 0x8

def isValidOpcode (opcode : UInt8) : Bool := opcode ≤ 0xA && !(opcode > 0x2 && opcode < 0x8)

def toHex (value : UInt8) : String := String.ofList (Nat.toDigits 16 value.toNat)

namespace WebSocketValidator

def new (isServer extensionsNegotiated : Bool) : WebSocketValidator where
  inFragmentedMessage := false
  fragmentedOpcode := 0x0
  isServer := isServer
  extensionsNegotiated := extensionsNegotiated

def validateFragmentation (v : WebSocketValidator) (header : RawHeader) :
    WebSocketValidator × Result :=
  if header.opcode = 0x0 then
    if !v.inFragmentedMessage then
      (v,.error ⟨.protocolError,"Continuation frame without initial frame"⟩)
    else if header.fin then
      ({v with inFragmentedMessage := false,fragmentedOpcode := 0x0},.ok ())
    else (v,.ok ())
  else if header.opcode = 0x1 ∨ header.opcode = 0x2 then
    if v.inFragmentedMessage then
      (v,.error ⟨.protocolError,"New message started during active fragmentation"⟩)
    else if !header.fin then
      ({v with inFragmentedMessage := true,fragmentedOpcode := header.opcode},.ok ())
    else (v,.ok ())
  else (v,.ok ())

/-- An exception leaves the validator as it was when it was thrown. -/
def validateFrameHeader (v : WebSocketValidator) (header : RawHeader) :
    WebSocketValidator × Result :=
  if !isValidOpcode header.opcode then
    (v,.error ⟨.protocolError,"Invalid opcode: 0x" ++ toHex header.opcode⟩)
  else if !v.extensionsNegotiated && (header.rsv1 || header.rsv2 || header.rsv3) then
    (v,.error ⟨.protocolError,"Reserved bits set without negotiated extension"⟩)
  else if isControlFrame header.opcode && !header.fin then
    (v,.error ⟨.protocolError,"Control frames cannot be fragmented"⟩)
  else if isControlFrame header.opcode && header.payloadLength > 125 then
    (v,.error ⟨.protocolError,
      "Control frame payload exceeds 125 bytes: " ++ toString header.payloadLength⟩)
  else if v.isServer && !header.masked then
    (v,.error ⟨.protocolError,"Client frames must be masked"⟩)
  else if !v.isServer && header.masked then
    (v,.error ⟨.protocolError,"Server frames must not be masked"⟩)
  else v.validateFragmentation header

def feed (v : WebSocketValidator) : List RawHeader → WebSocketValidator
  | [] => v
  | header::headers => (v.validateFrameHeader header).1.feed headers

end WebSocketValidator
end Cpp

/-- The valid opcodes are those of the enumeration. -/
theorem isValidOpcode_iff (opcode : UInt8) :
    Cpp.isValidOpcode opcode = true ↔ ∃ o : Opcode, o.toU8 = opcode := by
  constructor
  · intro h
    have hbound : opcode ≤ 0xA ∧ (opcode ≤ 0x2 ∨ 0x8 ≤ opcode) := by
      simpa [Cpp.isValidOpcode] using h
    have hcases : opcode = 0x0 ∨ opcode = 0x1 ∨ opcode = 0x2 ∨ opcode = 0x8 ∨ opcode = 0x9 ∨
        opcode = 0xA := by
      simp only [UInt8.le_iff_toNat_le,← UInt8.toNat_inj] at hbound ⊢
      simp at hbound ⊢
      omega
    obtain rfl | rfl | rfl | rfl | rfl | rfl := hcases
    · exact ⟨.continuation,rfl⟩
    · exact ⟨.text,rfl⟩
    · exact ⟨.binary,rfl⟩
    · exact ⟨.close,rfl⟩
    · exact ⟨.ping,rfl⟩
    · exact ⟨.pong,rfl⟩
  · rintro ⟨o,rfl⟩
    cases o <;> rfl

/-! ## C++ does what Rust does -/

theorem masked_eq_iff (masked isServer : Bool) :
    masked = isServer ↔ ¬ (isServer && !masked) = true ∧ ¬ (!isServer && masked) = true := by
  cases masked <;> cases isServer <;> simp

theorem Cpp.WebSocketValidator.validateFrameHeader_cases (c : Cpp.WebSocketValidator)
    (header : FrameHeader) :
    header.WellFormed c.isServer c.extensionsNegotiated ∧
      c.validateFrameHeader header.toRaw = c.validateFragmentation header.toRaw ∨
    ¬ header.WellFormed c.isServer c.extensionsNegotiated ∧
      ∃ violation, c.validateFrameHeader header.toRaw = (c,.error violation) := by
  have hopcode : ¬ (!Cpp.isValidOpcode header.toRaw.opcode) = true := by
    have hvalid := (isValidOpcode_iff header.toRaw.opcode).mpr ⟨header.opcode,rfl⟩
    simp [hvalid]
  rw [FrameHeader.wellFormed_iff,masked_eq_iff header.masked]
  unfold Cpp.WebSocketValidator.validateFrameHeader
  rw [if_neg hopcode]
  split_ifs with hrsv hfin hlength hclient hserver
  · exact .inr ⟨fun h => h.1 hrsv,_,rfl⟩
  · exact .inr ⟨fun h => h.2.1 hfin,_,rfl⟩
  · exact .inr ⟨fun h => h.2.2.1 hlength,_,rfl⟩
  · exact .inr ⟨fun h => h.2.2.2.1 hclient,_,rfl⟩
  · exact .inr ⟨fun h => h.2.2.2.2 hserver,_,rfl⟩
  · exact .inl ⟨⟨hrsv,hfin,hlength,hclient,hserver⟩,rfl⟩

/-- The C++ validator has the fields of the Rust one. -/
structure Simulates (c : Cpp.WebSocketValidator) (v : WebSocketValidator) : Prop where
  inFragmentedMessage_eq : c.inFragmentedMessage = v.state.inFragmentedMessage
  fragmentedOpcode_eq : c.fragmentedOpcode = (v.state.fragmentedOpcode.getD .continuation).toU8
  isServer_eq : c.isServer = v.state.isServer
  extensionsNegotiated_eq : c.extensionsNegotiated = v.state.extensionsNegotiated

namespace Simulates

variable {c : Cpp.WebSocketValidator} {v : WebSocketValidator}

theorem validateFragmentation (h : Simulates c v) (header : FrameHeader) :
    (c.validateFragmentation header.toRaw).2 = (v.validateFragmentation header).2 ∧
      Simulates (c.validateFragmentation header.toRaw).1 (v.validateFragmentation header).1 := by
  have hflag := h.inFragmentedMessage_eq
  unfold Cpp.WebSocketValidator.validateFragmentation WebSocketValidator.validateFragmentation
  simp only [header.toRaw_opcode_continuation,header.toRaw_opcode_data,hflag]
  obtain ⟨fin,rsv1,rsv2,rsv3,opcode,masked,payloadLength⟩ := header
  cases opcode <;> cases v.state.inFragmentedMessage <;> cases fin <;>
    first
      | exact ⟨rfl,h⟩
      | exact ⟨rfl,rfl,rfl,h.isServer_eq,h.extensionsNegotiated_eq⟩

/-- The two validators answer alike and stay alike. -/
theorem validateFrameHeader (h : Simulates c v) (header : FrameHeader) :
    ((c.validateFrameHeader header.toRaw).2 = .ok () ↔
      (v.validateFrameHeader header).2 = .ok ()) ∧
    Simulates (c.validateFrameHeader header.toRaw).1 (v.validateFrameHeader header).1 := by
  have hcpp := Cpp.WebSocketValidator.validateFrameHeader_cases c header
  rw [h.isServer_eq,h.extensionsNegotiated_eq] at hcpp
  obtain ⟨hwf,hrust⟩ | ⟨hwf,violation,hrust⟩ :=
    WebSocketValidator.validateFrameHeader_cases v header
  · obtain ⟨-,hcpp⟩ | ⟨hnot,-⟩ := hcpp
    · rw [hrust,hcpp,(h.validateFragmentation header).1]
      exact ⟨Iff.rfl,(h.validateFragmentation header).2⟩
    · exact absurd hwf hnot
  · obtain ⟨hwf',-⟩ | ⟨-,violation',hcpp⟩ := hcpp
    · exact absurd hwf' hwf
    · simp [hrust,hcpp,h]

theorem feed (h : Simulates c v) (headers : List FrameHeader) :
    Simulates (c.feed (headers.map FrameHeader.toRaw)) (v.feed headers).1 := by
  induction headers generalizing c v with
  | nil => exact h
  | cons header headers ih => exact ih (h.validateFrameHeader header).2

end Simulates

/-! ## Where C differs -/

/-- A check that refuses with `e`, before the rest. -/
theorem C.check_eq_ok_iff {c : Prop} [Decidable c] {e rest : C.ValidationError} (he : e ≠ .ok) :
    (if c then e else rest) = .ok ↔ ¬ c ∧ rest = .ok := by
  by_cases h : c
  · rw [if_pos h]
    exact iff_of_false he fun hrest => hrest.1 h
  · rw [if_neg h]
    exact (and_iff_right h).symm

/-- The checks of the message that the frame belongs to. -/
theorem C.fragmentation_ok_iff (header : FrameHeader) (inFragmentedMessage : Bool) :
    (if header.toRaw.opcode = 0x0 then
      if !inFragmentedMessage then C.ValidationError.continuationError else .ok
    else if header.toRaw.opcode = 0x1 ∨ header.toRaw.opcode = 0x2 then
      if inFragmentedMessage && !header.toRaw.fin then .continuationError else .ok
    else .ok) = .ok ↔
      (header.opcode = .continuation → inFragmentedMessage = true) ∧
      (header.opcode = .text ∨ header.opcode = .binary →
        ¬ (inFragmentedMessage = true ∧ header.fin = false)) := by
  simp only [header.toRaw_opcode_continuation,header.toRaw_opcode_data]
  obtain ⟨fin,rsv1,rsv2,rsv3,opcode,masked,payloadLength⟩ := header
  cases opcode <;> cases inFragmentedMessage <;> cases fin <;> simp [FrameHeader.toRaw]

/-- A data frame may come, except that a final one may also start a message during another. -/
theorem C.validateFrameHeader_ok_iff (header : FrameHeader) (state : C.ConnectionState) :
    C.validateFrameHeader header.toRaw state = .ok ↔
      header.WellFormed state.isServer state.extensionsNegotiated ∧
      (header.opcode = .continuation → state.inFragmentedMessage = true) ∧
      (header.opcode = .text ∨ header.opcode = .binary →
        ¬ (state.inFragmentedMessage = true ∧ header.fin = false)) := by
  have hopcode : ¬ (decide (header.toRaw.opcode > 0xA) ||
      (decide (header.toRaw.opcode > 0x2) && decide (header.toRaw.opcode < 0x8))) = true := by
    rw [FrameHeader.toRaw_opcode]
    cases header.opcode <;> decide
  rw [FrameHeader.wellFormed_iff,masked_eq_iff header.masked,← C.fragmentation_ok_iff]
  unfold C.validateFrameHeader
  rw [if_neg hopcode,C.check_eq_ok_iff (e := .reservedBits) nofun,
    C.check_eq_ok_iff (e := .controlFragmented) nofun,
    C.check_eq_ok_iff (e := .controlTooLarge) nofun,
    C.check_eq_ok_iff (e := .invalidMasking) nofun,
    C.check_eq_ok_iff (e := .invalidMasking) nofun]
  simp only [and_assoc]
  exact Iff.rfl

/-- Rust asks that a new message does not start during an open one. -/
theorem WebSocketValidator.validateFrameHeader_ok_cases (v : WebSocketValidator)
    (header : FrameHeader) :
    (v.validateFrameHeader header).2 = .ok () ↔
      header.WellFormed v.state.isServer v.state.extensionsNegotiated ∧
      (header.opcode = .continuation → v.state.inFragmentedMessage = true) ∧
      (header.opcode = .text ∨ header.opcode = .binary → ¬ v.state.inFragmentedMessage = true) := by
  rw [validateFrameHeader_ok_iff]
  apply and_congr_right
  intro _
  obtain ⟨fin,rsv1,rsv2,rsv3,opcode,masked,payloadLength⟩ := header
  cases opcode <;> cases v.state.inFragmentedMessage <;>
    simp [FrameHeader.data?,Opcode.isControl,Opcode.toU8,Runs.exec,fragment]

theorem WebSocketValidator.feed_role (v : WebSocketValidator) (headers : List FrameHeader) :
    (v.feed headers).1.state.isServer = v.state.isServer ∧
      (v.feed headers).1.state.extensionsNegotiated = v.state.extensionsNegotiated := by
  induction headers generalizing v with
  | nil => exact ⟨rfl,rfl⟩
  | cons header headers ih =>
    obtain ⟨hserver,hextensions⟩ := validateFrameHeader_role v header
    rw [← hserver,← hextensions]
    exact ih _

/-- After every stream the C validator accepts a header exactly when the other two do, unless the
header starts a message in a final frame during an open one. -/
theorem validators_agree_iff (isServer extensionsNegotiated : Bool) (stream : List FrameHeader)
    (header : FrameHeader) :
    let rust := ((⟨⟨false,none,isServer,extensionsNegotiated⟩⟩ : WebSocketValidator).feed stream).1
    let cpp := (Cpp.WebSocketValidator.new isServer extensionsNegotiated).feed
      (stream.map FrameHeader.toRaw)
    let state : C.ConnectionState :=
      ⟨rust.state.inFragmentedMessage,isServer,extensionsNegotiated⟩
    cpp.inFragmentedMessage = state.inFragmentedMessage ∧
    ((C.validateFrameHeader header.toRaw state = .ok ↔
        (rust.validateFrameHeader header).2 = .ok () ∧
          (cpp.validateFrameHeader header.toRaw).2 = .ok ()) ↔
      ¬ (state.inFragmentedMessage = true ∧ header.fin = true ∧
        (header.opcode = .text ∨ header.opcode = .binary) ∧
        (extensionsNegotiated = true ∨
          header.rsv1 = false ∧ header.rsv2 = false ∧ header.rsv3 = false) ∧
        header.masked = isServer)) := by
  intro rust cpp state
  have hnew : Simulates (Cpp.WebSocketValidator.new isServer extensionsNegotiated)
      ⟨⟨false,none,isServer,extensionsNegotiated⟩⟩ := ⟨rfl,rfl,rfl,rfl⟩
  have hsim : Simulates cpp rust := hnew.feed stream
  obtain ⟨hserver,hextensions⟩ := WebSocketValidator.feed_role
    ⟨⟨false,none,isServer,extensionsNegotiated⟩⟩ stream
  refine ⟨hsim.inFragmentedMessage_eq,?_⟩
  rw [(hsim.validateFrameHeader header).1,and_self,C.validateFrameHeader_ok_iff,
    WebSocketValidator.validateFrameHeader_ok_cases,hserver,hextensions]
  constructor
  · rintro hagree ⟨hopen,hfin,hnew,hrsv,hmasked⟩
    have hwf : header.WellFormed isServer extensionsNegotiated := by
      refine ⟨hrsv,hmasked,?_⟩
      obtain ho | ho := hnew <;> simp [ho,Opcode.isControl,Opcode.toU8]
    have hrust := hagree.mp ⟨hwf,fun _ => hopen,fun _ h => by simp [hfin] at h⟩
    exact hrust.2.2 hnew hopen
  · intro hnot
    constructor
    · rintro ⟨hwf,hcontinuation,hnew⟩
      refine ⟨hwf,hcontinuation,?_⟩
      intro hdata hopen
      have hfin : header.fin = true := by
        by_contra hfin
        exact hnew hdata ⟨hopen,by simpa using hfin⟩
      exact hnot ⟨hopen,hfin,hdata,hwf.rsv,hwf.masked_eq⟩
    · rintro ⟨hwf,hcontinuation,hnew⟩
      exact ⟨hwf,hcontinuation,fun hdata h => hnew hdata h.1⟩

/-- A message is open and another one starts, and ends, in a masked final text frame. -/
theorem validators_agree_finalDuringOpen :
    ¬ ∀ (isServer extensionsNegotiated : Bool) (stream : List FrameHeader) (header : FrameHeader),
      let rust :=
        ((⟨⟨false,none,isServer,extensionsNegotiated⟩⟩ : WebSocketValidator).feed stream).1
      let cpp := (Cpp.WebSocketValidator.new isServer extensionsNegotiated).feed
        (stream.map FrameHeader.toRaw)
      C.validateFrameHeader header.toRaw
          ⟨rust.state.inFragmentedMessage,isServer,extensionsNegotiated⟩ = .ok ↔
        (rust.validateFrameHeader header).2 = .ok () ∧
          (cpp.validateFrameHeader header.toRaw).2 = .ok () := by
  intro h
  have hagree := h true false [⟨false,false,false,false,.text,true,5⟩]
    ⟨true,false,false,false,.text,true,5⟩
  revert hagree
  decide +kernel

end ViolationHandler
end UProtocols
