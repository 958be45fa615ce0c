import UProtocols.ViolationHandlerLanguage

/-!
# Text messages in fragments

`validate_and_process` checks the payload of a text frame and not those of the continuation
frames after it. What it accepts is right for the whole message unless the bytes go wrong in a
continuation frame or a character is cut at the end of the text frame.
-/

namespace UProtocols
namespace ViolationHandler

abbrev Frame := FrameHeader × List UInt8

namespace WebSocketConnection

/-- The connection after a sequence of frames, and what the calls returned. -/
def receive (c : WebSocketConnection) : List Frame → WebSocketConnection × List Result
  | [] => (c,[])
  | frame::frames =>
    let (next,result) := c.validateAndProcess frame.1 frame.2
    let (last,results) := next.receive frames
    (last,result::results)

theorem receive_cons (c : WebSocketConnection) (frame : Frame) (frames : List Frame) :
    c.receive (frame::frames) =
      (((c.validateAndProcess frame.1 frame.2).1.receive frames).1,
        (c.validateAndProcess frame.1 frame.2).2::
          ((c.validateAndProcess frame.1 frame.2).1.receive frames).2) := rfl

end WebSocketConnection

/-- The last frame of a message is final, and no other. -/
def LastFinal : List Frame → Prop
  | [] => False
  | [frame] => frame.1.fin = true
  | frame::frames => frame.1.fin = false ∧ LastFinal frames

/-- A text message in one text frame and continuation frames, with the headers that the validator
of a connection asks for. -/
structure TextMessage (isServer extensionsNegotiated : Bool) where
  text : Frame
  continuations : List Frame
  text_opcode : text.1.opcode = .text
  continuations_opcode : ∀ frame ∈ continuations, frame.1.opcode = .continuation
  wellFormed : ∀ frame ∈ text::continuations, frame.1.WellFormed isServer extensionsNegotiated
  lastFinal : LastFinal (text::continuations)

namespace TextMessage

variable {isServer extensionsNegotiated : Bool}

def frames (m : TextMessage isServer extensionsNegotiated) : List Frame := m.text::m.continuations

/-- The bytes of the continuation frames. -/
def later (m : TextMessage isServer extensionsNegotiated) : List UInt8 :=
  m.continuations.flatMap Prod.snd

def payload (m : TextMessage isServer extensionsNegotiated) : List UInt8 :=
  m.frames.flatMap Prod.snd

theorem payload_eq (m : TextMessage isServer extensionsNegotiated) :
    m.payload = m.text.2 ++ m.later := rfl

end TextMessage

namespace WebSocketConnection

variable {c : WebSocketConnection} {header : FrameHeader}

/-- A text or continuation frame that may come is accepted, but for the payload of a text frame,
and moves the flag. -/
theorem validateAndProcess_data {opcode : Opcode} {next : Bool} (payload : List UInt8)
    (hwf : header.WellFormed c.validator.state.isServer c.validator.state.extensionsNegotiated)
    (hopcode : header.opcode = opcode) (hdata : opcode.isControl = false)
    (hnext : fragment c.validator.state.inFragmentedMessage (opcode,header.fin) = some next) :
    ∃ v, c.validateAndProcess header payload =
        (⟨v⟩,if opcode = .text then WebSocketValidator.validateTextPayload payload else .ok ()) ∧
      v.state.inFragmentedMessage = next ∧ v.state.isServer = c.validator.state.isServer ∧
      v.state.extensionsNegotiated = c.validator.state.extensionsNegotiated := by
  have hd : header.data? = some (opcode,header.fin) := by
    simp [FrameHeader.data?,hopcode,hdata]
  have hexec : Runs.exec fragment c.validator.state.inFragmentedMessage header.data?.toList =
      some next := by
    simp [hd,Runs.exec,hnext]
  have hok : (c.validator.validateFrameHeader header).2 = .ok () := by
    rw [WebSocketValidator.validateFrameHeader_ok_iff,hexec]
    exact ⟨hwf,rfl⟩
  have hflag := WebSocketValidator.validateFrameHeader_flag hok
  have hvalidate : c.validator.validateFrameHeader header =
      ((c.validator.validateFrameHeader header).1,.ok ()) := Prod.ext rfl hok
  refine ⟨(c.validator.validateFrameHeader header).1,?_,?_,
    WebSocketValidator.validateFrameHeader_role c.validator header⟩
  · rw [validateAndProcess,hvalidate]
    simp only [hopcode]
    cases opcode with
    | text | continuation | binary => rfl
    | close | ping | pong => cases hdata
  · exact Option.some.inj (hflag.symm.trans hexec)

/-- The continuation frames of an open message are all accepted, whatever they hold. -/
theorem receive_continuations {frames : List Frame}
    (hopen : c.validator.state.inFragmentedMessage = true)
    (hopcode : ∀ frame ∈ frames, frame.1.opcode = .continuation)
    (hwf : ∀ frame ∈ frames, frame.1.WellFormed c.validator.state.isServer
      c.validator.state.extensionsNegotiated)
    (hlast : LastFinal frames) : ∀ result ∈ (c.receive frames).2, result = .ok () := by
  induction frames generalizing c with
  | nil => simp [receive]
  | cons frame frames ih =>
    obtain ⟨v,hcall,hflag,hserver,hextensions⟩ := validateAndProcess_data frame.2
      (hwf frame (by simp)) (hopcode frame (by simp)) rfl (by rw [hopen]; rfl)
    rw [receive_cons,hcall,List.forall_mem_cons]
    refine ⟨rfl,?_⟩
    cases frames with
    | nil => simp [receive]
    | cons frame' frames =>
      apply ih
      · rw [hflag,hlast.1]
        rfl
      · intro f hf
        exact hopcode f (by simp [hf])
      · intro f hf
        rw [hserver,hextensions]
        exact hwf f (by simp [hf])
      · exact hlast.2

/-- All frames of a message are accepted exactly when its text frame alone is valid UTF-8. -/
theorem receive_text {isServer extensionsNegotiated : Bool}
    (m : TextMessage isServer extensionsNegotiated)
    (hserver : c.validator.state.isServer = isServer)
    (hextensions : c.validator.state.extensionsNegotiated = extensionsNegotiated)
    (hclosed : c.validator.state.inFragmentedMessage = false) :
    (∀ result ∈ (c.receive m.frames).2, result = .ok ()) ↔ Utf8.Valid m.text.2 := by
  subst hserver hextensions
  obtain ⟨v,hcall,hflag,hserver,hextensions⟩ := validateAndProcess_data m.text.2
    (m.wellFormed m.text (by simp)) m.text_opcode rfl (by rw [hclosed]; rfl)
  have htext : WebSocketValidator.validateTextPayload m.text.2 = .ok () ↔
      Utf8.Valid m.text.2 := by
    by_cases hvalid : Utf8.Valid m.text.2 <;>
      simp [WebSocketValidator.validateTextPayload,isValidUtf8,hvalid]
  rw [TextMessage.frames,receive_cons,hcall,List.forall_mem_cons,if_pos rfl,htext]
  apply and_iff_left
  have hlast := m.lastFinal
  have hopcode := m.continuations_opcode
  have hwf := m.wellFormed
  cases hrest : m.continuations with
  | nil => simp [receive]
  | cons frame frames =>
    rw [hrest] at hlast hopcode hwf
    apply receive_continuations
    · rw [hflag,hlast.1]
      rfl
    · exact hopcode
    · intro f hf
      rw [hserver,hextensions]
      exact hwf f (by simp [hf])
    · exact hlast.2

/-- The calls accept a text message exactly when its bytes are valid UTF-8, unless the text frame
is valid and the continuation frames are not, or the end of the text frame cuts a character of a
valid message. -/
theorem text_message_iff {isServer extensionsNegotiated : Bool}
    (m : TextMessage isServer extensionsNegotiated)
    (hserver : c.validator.state.isServer = isServer)
    (hextensions : c.validator.state.extensionsNegotiated = extensionsNegotiated)
    (hclosed : c.validator.state.inFragmentedMessage = false) :
    ((∀ result ∈ (c.receive m.frames).2, result = .ok ()) ↔ Utf8.Valid m.payload) ↔
      ¬ (Utf8.Valid m.text.2 ∧ ¬ Utf8.Valid m.later) ∧ ¬ Utf8.Straddles m.text.2 m.later := by
  rw [receive_text m hserver hextensions hclosed,m.payload_eq]
  by_cases htext : Utf8.Valid m.text.2
  · have hwhole : ¬ Utf8.Straddles m.text.2 m.later := fun h => h.not_valid htext
    simp [htext.append_iff,htext,hwhole]
  · simp [Utf8.valid_append_of_not_valid htext,htext]

/-- A masked frame. -/
def maskedFrame (fin : Bool) (opcode : Opcode) (payload : List UInt8) : Frame :=
  (⟨fin,false,false,false,opcode,true,payload.length.toUInt64⟩,payload)

theorem text_message_iff_threeFrames :
    ∃ m : TextMessage true false, m.payload = [0x68,0xC3,0xA9,0xE2,0x82,0xAC] ∧
      ((∀ result ∈ ((new true).receive m.frames).2, result = .ok ()) ↔ Utf8.Valid m.payload) := by
  let m : TextMessage true false := {
    text := maskedFrame false .text [0x68,0xC3,0xA9]
    continuations := [maskedFrame false .continuation [0xE2],
      maskedFrame true .continuation [0x82,0xAC]]
    text_opcode := rfl
    continuations_opcode := by decide
    wellFormed := by decide
    lastFinal := ⟨rfl,rfl,rfl⟩}
  have htext : Utf8.Valid m.text.2 := by decide
  have hlater : Utf8.Valid m.later := by decide
  refine ⟨m,rfl,(text_message_iff m rfl rfl rfl).mpr ⟨fun h => h.2 hlater,fun h => ?_⟩⟩
  exact h.not_valid htext

/-- `é` cut between its two bytes is refused. -/
theorem text_message_iff_cutCharacter :
    ¬ ∀ m : TextMessage true false,
      (∀ result ∈ ((new true).receive m.frames).2, result = .ok ()) ↔ Utf8.Valid m.payload := by
  intro h
  let m : TextMessage true false := {
    text := maskedFrame false .text [0xC3]
    continuations := [maskedFrame true .continuation [0xA9]]
    text_opcode := rfl
    continuations_opcode := by decide
    wellFormed := by decide
    lastFinal := ⟨rfl,rfl⟩}
  have htext : ¬ Utf8.Valid m.text.2 := by decide
  have hpayload : Utf8.Valid m.payload := by decide
  exact htext ((receive_text m rfl rfl rfl).mp ((h m).mpr hpayload))

end WebSocketConnection
end ViolationHandler
end UProtocols
