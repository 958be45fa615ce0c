import UProtocols.ByteOrder
import UProtocols.Utf8

/-!
# The WebSocket protocol violation handler

`WebSocketValidator` and `WebSocketConnection` of `websocket_protocol_violation_handler.rs`.
A method that takes `&mut self` returns the receiver beside its result, also when it fails.
-/

namespace UProtocols
namespace ViolationHandler

inductive Opcode
  | continuation
  | text
  | binary
  | close
  | ping
  | pong
  deriving DecidableEq

namespace Opcode

def toU8 : Opcode → UInt8
  | continuation => 0x0
  | text => 0x1
  | binary => 0x2
  | close => 0x8
  | ping => 0x9
  | pong => 0xA

def isControl (o : Opcode) : Bool := o.toU8 ≥ 0x8

end Opcode

inductive CloseCode
  | normal
  | goingAway
  | protocolError
  | invalidData
  | invalidPayload
  | policyViolation
  | messageTooBig
  deriving DecidableEq

structure ProtocolViolation where
  code : CloseCode
  message : String
  deriving DecidableEq

abbrev Result := Except ProtocolViolation Unit

structure FrameHeader where
  fin : Bool
  rsv1 : Bool
  rsv2 : Bool
  rsv3 : Bool
  opcode : Opcode
  masked : Bool
  payloadLength : UInt64
  deriving DecidableEq

structure ConnectionState where
  inFragmentedMessage : Bool
  fragmentedOpcode : Option Opcode
  isServer : Bool
  extensionsNegotiated : Bool
  deriving DecidableEq

namespace ConnectionState

def new (isServer : Bool) : ConnectionState where
  inFragmentedMessage := false
  fragmentedOpcode := none
  isServer := isServer
  extensionsNegotiated := false

def resetFragmentation (s : ConnectionState) : ConnectionState :=
  {s with inFragmentedMessage := false,fragmentedOpcode := none}

end ConnectionState

structure WebSocketValidator where
  state : ConnectionState
  deriving DecidableEq

/-- `std::str::from_utf8(data).is_ok()`. -/
def isValidUtf8 (data : List UInt8) : Bool := Utf8.Valid data

namespace WebSocketValidator

def new (isServer : Bool) : WebSocketValidator := ⟨.new isServer⟩

def validateMasking (v : WebSocketValidator) (header : FrameHeader) : Result :=
  if v.state.isServer && !header.masked then
    .error ⟨.protocolError,"Client frames must be masked"⟩
  else if !v.state.isServer && header.masked then
    .error ⟨.protocolError,"Server frames must not be masked"⟩
  else .ok ()

def validateFragmentation (v : WebSocketValidator) (header : FrameHeader) :
    WebSocketValidator × Result :=
  match header.opcode with
  | .continuation =>
    if !v.state.inFragmentedMessage then
      (v,.error ⟨.protocolError,"Continuation frame without initial frame"⟩)
    else if header.fin then (⟨v.state.resetFragmentation⟩,.ok ())
    else (v,.ok ())
  | .text | .binary =>
    if v.state.inFragmentedMessage then
      (v,.error ⟨.protocolError,"New message started during active fragmentation"⟩)
    else if !header.fin then
      (⟨{v.state with inFragmentedMessage := true,fragmentedOpcode := some header.opcode}⟩,.ok ())
    else (v,.ok ())
  | .close | .ping | .pong => (v,.ok ())

def validateFrameHeader (v : WebSocketValidator) (header : FrameHeader) :
    WebSocketValidator × Result :=
  if !v.state.extensionsNegotiated && (header.rsv1 || header.rsv2 || header.rsv3) then
    (v,.error ⟨.protocolError,"Reserved bits set without negotiated extension"⟩)
  else if header.opcode.isControl && !header.fin then
    (v,.error ⟨.protocolError,"Control frames cannot be fragmented"⟩)
  else if header.opcode.isControl && header.payloadLength > 125 then
    (v,.error ⟨.protocolError,s!"Control frame payload exceeds 125 bytes: {header.payloadLength}"⟩)
  else match v.validateMasking header with
    | .error violation => (v,.error violation)
    | .ok () => v.validateFragmentation header

def validateTextPayload (payload : List UInt8) : Result :=
  if !isValidUtf8 payload then .error ⟨.invalidPayload,"Text frame contains invalid UTF-8"⟩
  else .ok ()

def validateClosePayload : List UInt8 → Result
  | [] => .ok ()
  | [_] => .error ⟨.protocolError,"Close payload must be 0 or at least 2 bytes"⟩
  | high::low::reason =>
    let closeCode := ByteOrder.big.value [high,low]
    if closeCode < 1000 ∨ (closeCode ≥ 1004 ∧ closeCode ≤ 1006) ∨
        (closeCode ≥ 1012 ∧ closeCode ≤ 2999) then
      .error ⟨.protocolError,s!"Invalid close code: {closeCode}"⟩
    else if reason.length > 0 ∧ !isValidUtf8 reason then
      .error ⟨.invalidPayload,"Close reason contains invalid UTF-8"⟩
    else .ok ()

end WebSocketValidator

structure WebSocketConnection where
  validator : WebSocketValidator
  deriving DecidableEq

namespace WebSocketConnection

def new (isServer : Bool) : WebSocketConnection := ⟨.new isServer⟩

def validateAndProcess (c : WebSocketConnection) (header : FrameHeader) (payload : List UInt8) :
    WebSocketConnection × Result :=
  match c.validator.validateFrameHeader header with
  | (v,.error violation) => (⟨v⟩,.error violation)
  | (v,.ok ()) =>
    match header.opcode with
    | .text => (⟨v⟩,WebSocketValidator.validateTextPayload payload)
    | .close => (⟨v⟩,WebSocketValidator.validateClosePayload payload)
    | .continuation | .binary | .ping | .pong => (⟨v⟩,.ok ())

def closeConnection (c : WebSocketConnection) : WebSocketConnection :=
  ⟨⟨c.validator.state.resetFragmentation⟩⟩

/-- A violation is reported and closes the connection. -/
def processFrame (c : WebSocketConnection) (header : FrameHeader) (payload : List UInt8) :
    WebSocketConnection :=
  match c.validateAndProcess header payload with
  | (c,.ok ()) => c
  | (c,.error _) => c.closeConnection

end WebSocketConnection

/-! ## What a header must satisfy -/

/-- The checks that look at one header only. -/
structure FrameHeader.WellFormed (isServer extensionsNegotiated : Bool) (header : FrameHeader) :
    Prop where
  rsv : extensionsNegotiated = true ∨
    header.rsv1 = false ∧ header.rsv2 = false ∧ header.rsv3 = false
  masked_eq : header.masked = isServer
  control : header.opcode.isControl = true → header.fin = true ∧ header.payloadLength ≤ 125

/-- The checks in the form the validators make them. -/
theorem FrameHeader.wellFormed_iff {isServer extensionsNegotiated : Bool} {header : FrameHeader} :
    header.WellFormed isServer extensionsNegotiated ↔
      ¬ (!extensionsNegotiated && (header.rsv1 || header.rsv2 || header.rsv3)) = true ∧
      ¬ (header.opcode.isControl && !header.fin) = true ∧
      ¬ (header.opcode.isControl && header.payloadLength > 125) = true ∧
      header.masked = isServer := by
  have hrsv : ¬ (!extensionsNegotiated && (header.rsv1 || header.rsv2 || header.rsv3)) = true ↔
      extensionsNegotiated = true ∨
        header.rsv1 = false ∧ header.rsv2 = false ∧ header.rsv3 = false := by
    cases extensionsNegotiated <;> simp [and_assoc]
  rw [hrsv]
  constructor
  · intro h
    refine ⟨h.rsv,?_,?_,h.masked_eq⟩
    · cases hcontrol : header.opcode.isControl with
      | false => simp
      | true => simp [(h.control hcontrol).1]
    · cases hcontrol : header.opcode.isControl with
      | false => simp
      | true => simpa using (h.control hcontrol).2
  · rintro ⟨hclear,hfin,hlength,hmasked⟩
    refine ⟨hclear,hmasked,?_⟩
    intro hcontrol
    simp only [hcontrol,Bool.true_and] at hfin hlength
    exact ⟨by simpa using hfin,by simpa using hlength⟩

instance (isServer extensionsNegotiated : Bool) (header : FrameHeader) :
    Decidable (header.WellFormed isServer extensionsNegotiated) :=
  decidable_of_iff _ FrameHeader.wellFormed_iff.symm

/-- A data frame with its FIN bit: whether a message is open after it, and `none` where it may
not come. -/
def fragment : Bool → Opcode × Bool → Option Bool
  | true, (.continuation,fin) | false, (.text,fin) | false, (.binary,fin) => some (!fin)
  | false, (.continuation,_) | true, (.text,_) | true, (.binary,_)
  | _, (.close,_) | _, (.ping,_) | _, (.pong,_) => none

/-- The data frame that a header announces. -/
def FrameHeader.data? (header : FrameHeader) : Option (Opcode × Bool) :=
  if header.opcode.isControl then none else some (header.opcode,header.fin)

namespace WebSocketValidator

/-- The flag says that a message is open, and the opcode which one. -/
def Consistent (v : WebSocketValidator) : Prop :=
  v.state.inFragmentedMessage = true ↔
    v.state.fragmentedOpcode = some .text ∨ v.state.fragmentedOpcode = some .binary

variable {v : WebSocketValidator} {header : FrameHeader}

theorem validateMasking_ok :
    v.validateMasking header = .ok () ↔ header.masked = v.state.isServer := by
  cases hserver : v.state.isServer <;> cases hmasked : header.masked <;>
    simp [validateMasking,hserver,hmasked]

/-- Fragmentation of a data frame: the flag follows `fragment`, and a frame that may not come
changes nothing. -/
theorem validateFragmentation_data {d : Opcode × Bool} (hd : header.data? = some d) :
    (∃ next, fragment v.state.inFragmentedMessage d = some next ∧
      (v.validateFragmentation header).2 = .ok () ∧
      (v.validateFragmentation header).1.state.inFragmentedMessage = next) ∨
    fragment v.state.inFragmentedMessage d = none ∧
      (v.validateFragmentation header).2 ≠ .ok () := by
  obtain ⟨fin,rsv1,rsv2,rsv3,opcode,masked,payloadLength⟩ := header
  cases opcode <;> simp only [FrameHeader.data?,Opcode.isControl,Opcode.toU8] at hd <;>
    simp at hd <;> subst hd <;>
    cases hopen : v.state.inFragmentedMessage <;> cases fin <;>
    simp [validateFragmentation,fragment,hopen,ConnectionState.resetFragmentation]

theorem validateFragmentation_control (hd : header.data? = none) :
    v.validateFragmentation header = (v,.ok ()) := by
  obtain ⟨fin,rsv1,rsv2,rsv3,opcode,masked,payloadLength⟩ := header
  cases opcode <;> simp [FrameHeader.data?,Opcode.isControl,Opcode.toU8] at hd <;> rfl

theorem validateFragmentation_error (h : (v.validateFragmentation header).2 ≠ .ok ()) :
    (v.validateFragmentation header).1 = v := by
  revert h
  unfold validateFragmentation
  split <;> try split_ifs
  all_goals simp

/-- The checks of one header pass, and fragmentation decides, or the call fails and changes
nothing. -/
theorem validateFrameHeader_cases (v : WebSocketValidator) (header : FrameHeader) :
    header.WellFormed v.state.isServer v.state.extensionsNegotiated ∧
      v.validateFrameHeader header = v.validateFragmentation header ∨
    ¬ header.WellFormed v.state.isServer v.state.extensionsNegotiated ∧
      ∃ violation, v.validateFrameHeader header = (v,.error violation) := by
  rw [FrameHeader.wellFormed_iff]
  unfold validateFrameHeader
  split_ifs with hrsv hfin hlength
  · exact .inr ⟨fun h => h.1 hrsv,_,rfl⟩
  · exact .inr ⟨fun h => h.2.1 hfin,_,rfl⟩
  · exact .inr ⟨fun h => h.2.2.1 hlength,_,rfl⟩
  · cases hmask : v.validateMasking header with
    | error violation =>
      refine .inr ⟨?_,violation,rfl⟩
      intro h
      rw [validateMasking_ok.mpr h.2.2.2] at hmask
      cases hmask
    | ok u => exact .inl ⟨⟨hrsv,hfin,hlength,validateMasking_ok.mp hmask⟩,rfl⟩

theorem validateFrameHeader_error (h : (v.validateFrameHeader header).2 ≠ .ok ()) :
    (v.validateFrameHeader header).1 = v := by
  obtain ⟨-,heq⟩ | ⟨-,violation,heq⟩ := validateFrameHeader_cases v header
  · rw [heq] at h ⊢
    exact validateFragmentation_error h
  · rw [heq]

theorem validateFragmentation_consistent (h : v.Consistent) :
    (v.validateFragmentation header).1.Consistent := by
  unfold validateFragmentation
  split <;> try split_ifs
  all_goals simp_all [Consistent,ConnectionState.resetFragmentation]

theorem validateFrameHeader_consistent (h : v.Consistent) :
    (v.validateFrameHeader header).1.Consistent := by
  obtain ⟨-,heq⟩ | ⟨-,violation,heq⟩ := validateFrameHeader_cases v header
  · rw [heq]
    exact validateFragmentation_consistent h
  · rw [heq]
    exact h

/-- The role and the extensions of a connection do not change. -/
theorem validateFrameHeader_role (v : WebSocketValidator) (header : FrameHeader) :
    (v.validateFrameHeader header).1.state.isServer = v.state.isServer ∧
      (v.validateFrameHeader header).1.state.extensionsNegotiated =
        v.state.extensionsNegotiated := by
  obtain ⟨-,heq⟩ | ⟨-,violation,heq⟩ := validateFrameHeader_cases v header
  · rw [heq]
    unfold validateFragmentation
    split <;> try split_ifs
    all_goals exact ⟨rfl,rfl⟩
  · rw [heq]
    exact ⟨rfl,rfl⟩

end WebSocketValidator
end ViolationHandler
end UProtocols
