import UProtocols.Runs
import UProtocols.ViolationHandler
import Mathlib.Computability.Language
import Mathlib.Order.CompletePartialOrder

/-!
# The frame sequences that the violation handler accepts

The data frames of an accepted sequence form complete messages, the last of which may still
be open.
-/

namespace UProtocols
namespace ViolationHandler

open Computability

/-! ## The language of messages -/

def initial (fin : Bool) : Language (Opcode × Bool) := {[(.text,fin)]} + {[(.binary,fin)]}

def continuation (fin : Bool) : Language (Opcode × Bool) := {[(.continuation,fin)]}

/-- `D_fin | D_nofin C_nofin* C_fin`. -/
def message : Language (Opcode × Bool) :=
  initial true + initial false * ((continuation false)∗ * continuation true)

/-- The data frames that lead from one value of the flag to another. -/
def between (before after : Bool) : Language (Opcode × Bool) :=
  {word | Runs.exec fragment before word = some after}

theorem cons_between {d : Opcode × Bool} {before during after : Bool} {word : List (Opcode × Bool)}
    (hd : fragment before d = some during) (hword : word ∈ between during after) :
    [d] ++ word ∈ between before after := Runs.exec_cons.mpr ⟨during,hd,hword⟩

theorem initial_mul_between (fin : Bool) : initial fin * between (!fin) false ≤ between false false := by
  rintro _ ⟨word,hword,rest,hrest,rfl⟩
  obtain rfl | rfl := hword
  · exact cons_between rfl hrest
  · exact cons_between rfl hrest

theorem continuation_mul_between (fin : Bool) :
    continuation fin * between (!fin) false ≤ between true false := by
  rintro _ ⟨_,rfl,rest,hrest,rfl⟩
  exact cons_between rfl hrest

theorem message_mul_between : message * between false false ≤ between false false := by
  unfold message
  rw [add_mul]
  apply add_le
  · exact initial_mul_between true
  · calc initial false * ((continuation false)∗ * continuation true) * between false false
        = initial false * ((continuation false)∗ * (continuation true * between false false)) := by
          simp only [mul_assoc]
      _ ≤ initial false * ((continuation false)∗ * between true false) := by
          gcongr
          exact continuation_mul_between true
      _ ≤ initial false * between true false := by
          gcongr
          exact kstar_mul_le_self (continuation_mul_between false)
      _ ≤ between false false := initial_mul_between false

theorem kstar_message_le : message∗ ≤ between false false := by
  apply kstar_le_of_mul_le_right _ message_mul_between
  intro word hword
  rw [(Language.mem_one word).mp hword]
  rfl

/-- What is left of an open message, and messages after it. -/
def rest : Language (Opcode × Bool) := (continuation false)∗ * continuation true * message∗

theorem initial_true_mul : initial true * message∗ ≤ message∗ := by
  calc initial true * message∗ ≤ message * message∗ := by
        gcongr
        exact le_add_of_nonneg_right bot_le
    _ ≤ message∗ := mul_kstar_le_kstar

theorem initial_false_mul : initial false * rest ≤ message∗ := by
  calc initial false * rest
      = initial false * ((continuation false)∗ * continuation true) * message∗ := by
        simp only [rest,mul_assoc]
    _ ≤ message * message∗ := by
        gcongr
        exact le_add_of_nonneg_left bot_le
    _ ≤ message∗ := mul_kstar_le_kstar

theorem continuation_true_mul : continuation true * message∗ ≤ rest := by
  calc continuation true * message∗ = 1 * continuation true * message∗ := by rw [one_mul]
    _ ≤ rest := by
        unfold rest
        gcongr
        exact one_le_kstar

theorem continuation_false_mul : continuation false * rest ≤ rest := by
  calc continuation false * rest
      = continuation false * (continuation false)∗ * continuation true * message∗ := by
        simp only [rest,mul_assoc]
    _ ≤ rest := by
        unfold rest
        gcongr
        exact mul_kstar_le_kstar

theorem mem_initial {d : Opcode × Bool} {next : Bool} (h : fragment false d = some next) :
    [d] ∈ initial (!next) := by
  obtain ⟨opcode,fin⟩ := d
  cases opcode <;> simp only [fragment,Option.some.injEq,reduceCtorEq] at h
  · subst h
    rw [Bool.not_not]
    exact .inl rfl
  · subst h
    rw [Bool.not_not]
    exact .inr rfl

theorem mem_continuation {d : Opcode × Bool} {next : Bool} (h : fragment true d = some next) :
    [d] ∈ continuation (!next) := by
  obtain ⟨opcode,fin⟩ := d
  cases opcode <;> simp only [fragment,Option.some.injEq,reduceCtorEq] at h
  subst h
  rw [Bool.not_not]
  rfl

theorem mem_of_between (word : List (Opcode × Bool)) :
    (word ∈ between false false → word ∈ message∗) ∧ (word ∈ between true false → word ∈ rest) := by
  induction word with
  | nil =>
    refine ⟨fun _ => Language.nil_mem_kstar _,?_⟩
    intro h
    cases h
  | cons d word ih =>
    constructor
    · intro h
      obtain ⟨next,hd,hword⟩ := Runs.exec_cons.mp h
      have hfirst := mem_initial hd
      cases next with
      | false => exact initial_true_mul (Language.append_mem_mul hfirst (ih.1 hword))
      | true => exact initial_false_mul (Language.append_mem_mul hfirst (ih.2 hword))
    · intro h
      obtain ⟨next,hd,hword⟩ := Runs.exec_cons.mp h
      have hfirst := mem_continuation hd
      cases next with
      | false => exact continuation_true_mul (Language.append_mem_mul hfirst (ih.1 hword))
      | true => exact continuation_false_mul (Language.append_mem_mul hfirst (ih.2 hword))

/-- The words of messages are those that leave no message open. -/
theorem between_eq : between false false = message∗ := by
  apply le_antisymm
  · intro word hword
    exact (mem_of_between word).1 hword
  · exact kstar_message_le

/-- Every open message can be completed, so what is defined is a prefix. -/
theorem exec_fragment_iff (word : List (Opcode × Bool)) :
    (Runs.exec fragment false word).isSome ↔ ∃ more, word ++ more ∈ message∗ := by
  rw [← between_eq]
  constructor
  · intro h
    obtain ⟨last,hlast⟩ := Option.isSome_iff_exists.mp h
    cases last with
    | false => exact ⟨[],Runs.exec_append.mpr ⟨false,hlast,rfl⟩⟩
    | true => exact ⟨[(.continuation,true)],Runs.exec_append.mpr ⟨true,hlast,rfl⟩⟩
  · rintro ⟨more,hmore⟩
    obtain ⟨last,hlast,-⟩ := Runs.exec_append.mp hmore
    rw [hlast]
    rfl

/-! ## Feeding headers -/

namespace WebSocketValidator

/-- The validator after a sequence of headers, and what the calls returned. -/
def feed (v : WebSocketValidator) : List FrameHeader → WebSocketValidator × List Result
  | [] => (v,[])
  | header::headers =>
    let (next,result) := v.validateFrameHeader header
    let (last,results) := next.feed headers
    (last,result::results)

variable {v : WebSocketValidator}

theorem feed_cons (v : WebSocketValidator) (header : FrameHeader) (headers : List FrameHeader) :
    v.feed (header::headers) =
      (((v.validateFrameHeader header).1.feed headers).1,
        (v.validateFrameHeader header).2::((v.validateFrameHeader header).1.feed headers).2) := rfl

theorem feed_consistent (headers : List FrameHeader) (h : v.Consistent) :
    (v.feed headers).1.Consistent := by
  induction headers generalizing v with
  | nil => exact h
  | cons header headers ih => exact ih (validateFrameHeader_consistent h)

/-- A call succeeds when the header is well formed and its data frame may come. -/
theorem validateFrameHeader_ok_iff (v : WebSocketValidator) (header : FrameHeader) :
    (v.validateFrameHeader header).2 = .ok () ↔
      header.WellFormed v.state.isServer v.state.extensionsNegotiated ∧
      (Runs.exec fragment v.state.inFragmentedMessage header.data?.toList).isSome := by
  obtain ⟨hwf,heq⟩ | ⟨hwf,violation,heq⟩ := validateFrameHeader_cases v header
  · rw [heq]
    cases hd : header.data? with
    | none => simp [validateFragmentation_control hd,hwf]
    | some d =>
      obtain ⟨next,hnext,hok,-⟩ | ⟨hnone,herror⟩ := validateFragmentation_data (v := v) hd
      · simp [Runs.exec,hwf,hnext,hok]
      · simp [Runs.exec,hnone,herror]
  · simp [heq,hwf]

/-- The flag then follows `fragment`. -/
theorem validateFrameHeader_flag {header : FrameHeader}
    (h : (v.validateFrameHeader header).2 = .ok ()) :
    Runs.exec fragment v.state.inFragmentedMessage header.data?.toList =
      some (v.validateFrameHeader header).1.state.inFragmentedMessage := by
  obtain ⟨-,heq⟩ | ⟨-,violation,heq⟩ := validateFrameHeader_cases v header
  · rw [heq] at h ⊢
    cases hd : header.data? with
    | none => simp [validateFragmentation_control hd]
    | some d =>
      obtain ⟨next,hnext,-,hflag⟩ | ⟨-,herror⟩ := validateFragmentation_data (v := v) hd
      · simp [Runs.exec,hnext,hflag]
      · exact absurd h herror
  · rw [heq] at h
    cases h

theorem feed_ok_iff (v : WebSocketValidator) (headers : List FrameHeader) :
    (∀ result ∈ (v.feed headers).2, result = .ok ()) ↔
      (∀ header ∈ headers,
        header.WellFormed v.state.isServer v.state.extensionsNegotiated) ∧
      (Runs.exec fragment v.state.inFragmentedMessage
        (headers.filterMap FrameHeader.data?)).isSome := by
  induction headers generalizing v with
  | nil => simp [feed]
  | cons header headers ih =>
    have hwords : (header::headers).filterMap FrameHeader.data? =
        header.data?.toList ++ headers.filterMap FrameHeader.data? := by
      cases hd : header.data? <;> simp [hd]
    obtain ⟨hserver,hextensions⟩ := validateFrameHeader_role v header
    rw [feed_cons,List.forall_mem_cons,ih,hserver,hextensions,hwords,List.forall_mem_cons]
    constructor
    · rintro ⟨hok,hall,hrest⟩
      obtain ⟨last,hlast⟩ := Option.isSome_iff_exists.mp hrest
      refine ⟨⟨((validateFrameHeader_ok_iff v header).mp hok).1,hall⟩,?_⟩
      rw [Runs.exec_append.mpr ⟨_,validateFrameHeader_flag hok,hlast⟩]
      rfl
    · rintro ⟨⟨hwf,hall⟩,hsome⟩
      obtain ⟨last,hlast⟩ := Option.isSome_iff_exists.mp hsome
      obtain ⟨next,hnext,hrest⟩ := Runs.exec_append.mp hlast
      have hok : (v.validateFrameHeader header).2 = .ok () := by
        rw [validateFrameHeader_ok_iff,hnext]
        exact ⟨hwf,rfl⟩
      cases Option.some.inj (hnext.symm.trans (validateFrameHeader_flag hok))
      refine ⟨hok,hall,?_⟩
      rw [hrest]
      rfl

/-- The accepted sequences are those of well-formed headers whose data frames are the beginning
of a sequence of messages. After every sequence, accepted or not, the flag agrees with the opcode,
and a call that fails leaves the validator as it was. -/
theorem frameSequence (isServer : Bool) (headers : List FrameHeader) :
    ((∀ result ∈ ((new isServer).feed headers).2, result = .ok ()) ↔
      (∀ header ∈ headers, header.rsv1 = false ∧ header.rsv2 = false ∧ header.rsv3 = false ∧
        header.masked = isServer ∧
        (header.opcode.isControl = true → header.fin = true ∧ header.payloadLength ≤ 125)) ∧
      ∃ more, headers.filterMap FrameHeader.data? ++ more ∈ message∗) ∧
    (((new isServer).feed headers).1.state.inFragmentedMessage = true ↔
      ((new isServer).feed headers).1.state.fragmentedOpcode = some .text ∨
      ((new isServer).feed headers).1.state.fragmentedOpcode = some .binary) ∧
    ∀ header, (((new isServer).feed headers).1.validateFrameHeader header).2 ≠ .ok () →
      (((new isServer).feed headers).1.validateFrameHeader header).1 =
        ((new isServer).feed headers).1 := by
  refine ⟨?_,?_,fun header h => validateFrameHeader_error h⟩
  · have hwf : ∀ header : FrameHeader, header.WellFormed isServer false ↔
        header.rsv1 = false ∧ header.rsv2 = false ∧ header.rsv3 = false ∧
        header.masked = isServer ∧
        (header.opcode.isControl = true → header.fin = true ∧ header.payloadLength ≤ 125) := by
      intro header
      constructor
      · intro h
        obtain hext | ⟨h1,h2,h3⟩ := h.rsv
        · cases hext
        · exact ⟨h1,h2,h3,h.masked_eq,h.control⟩
      · rintro ⟨h1,h2,h3,hmasked,hcontrol⟩
        exact ⟨.inr ⟨h1,h2,h3⟩,hmasked,hcontrol⟩
    rw [feed_ok_iff,← exec_fragment_iff]
    simp only [← hwf]
    rfl
  · apply feed_consistent
    simp [Consistent,new,ConnectionState.new]

end WebSocketValidator
end ViolationHandler
end UProtocols
