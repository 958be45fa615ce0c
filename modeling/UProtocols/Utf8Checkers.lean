import UProtocols.ViolationHandler

/-!
# The hand-written UTF-8 checkers

`is_valid_utf8` of `websocket_protocol_violation_handler.c`, `isValidUtf8` of
`websocket_protocol_violation_handler.cpp` and `isValidUTF8` of `websocket_input_validation.cpp`.
Each walks over the bytes with an index; every read is checked against the length.
-/

namespace UProtocols
namespace Utf8Checkers

open Utf8

/-- A read at or past the length, and a loop that takes more rounds than there are bytes. -/
inductive Fault
  | outOfBounds (i : ℕ)
  | stillRunning
  deriving DecidableEq

def readAt (data : List UInt8) (i : ℕ) : Except Fault UInt8 :=
  match data[i]? with
  | some byte => .ok byte
  | none => .error (.outOfBounds i)

/-- `while (i < length)` with a number of rounds to go. A round makes the checker return false, or
says where the next one starts. -/
def whileLoop (length : ℕ) (round : ℕ → Except Fault (Option ℕ)) : ℕ → ℕ → Except Fault Bool
  | 0, i => if i < length then .error .stillRunning else .ok true
  | rounds + 1, i =>
    if i < length then do
      match ← round i with
      | none => return false
      | some next => whileLoop length round rounds next
    else .ok true

/-! ## Stepping through the continuation bytes -/

def continuationBytes (byte : UInt8) : Option ℕ :=
  if byte &&& 0xE0 == 0xC0 then some 1
  else if byte &&& 0xF0 == 0xE0 then some 2
  else if byte &&& 0xF8 == 0xF0 then some 3
  else none

/-- The loop over the continuation bytes after index `i`: the index of the last one. -/
def checkContinuation (data : List UInt8) : ℕ → ℕ → Except Fault (Option ℕ)
  | 0, i => .ok (some i)
  | n + 1, i => do
    if i + 1 ≥ data.length then return none
    if (← readAt data (i + 1)) &&& 0xC0 != 0x80 then return none
    checkContinuation data n (i + 1)

def steppingRound (data : List UInt8) (i : ℕ) : Except Fault (Option ℕ) := do
  let byte ← readAt data i
  if byte &&& 0x80 == 0 then return some (i + 1)
  match continuationBytes byte with
  | none => return none
  | some n => return (← checkContinuation data n i).map (· + 1)

def C.isValidUtf8 (data : List UInt8) : Except Fault Bool :=
  whileLoop data.length (steppingRound data) data.length 0

def Cpp.isValidUtf8 (data : List UInt8) : Except Fault Bool :=
  whileLoop data.length (steppingRound data) data.length 0

/-! ## Looking ahead -/

/-- `(bytes[j] & 0xC0) != 0x80 || …` over the indices in turn. -/
def anyNotContinuation (bytes : List UInt8) : List ℕ → Except Fault Bool
  | [] => .ok false
  | j::js => do
    if (← readAt bytes j) &&& 0xC0 != 0x80 then return true
    anyNotContinuation bytes js

def lookaheadRound (bytes : List UInt8) (i : ℕ) : Except Fault (Option ℕ) := do
  let len := bytes.length
  let c ← readAt bytes i
  if c ≤ 0x7F then return some (i + 1)
  else if c &&& 0xE0 == 0xC0 then
    if i + 1 ≥ len then return none
    if ← anyNotContinuation bytes [i + 1] then return none
    return some (i + 2)
  else if c &&& 0xF0 == 0xE0 then
    if i + 2 ≥ len then return none
    if ← anyNotContinuation bytes [i + 1,i + 2] then return none
    return some (i + 3)
  else if c &&& 0xF8 == 0xF0 then
    if i + 3 ≥ len then return none
    if ← anyNotContinuation bytes [i + 1,i + 2,i + 3] then return none
    return some (i + 4)
  else return none

def InputValidator.isValidUTF8 (bytes : List UInt8) : Except Fault Bool :=
  whileLoop bytes.length (lookaheadRound bytes) bytes.length 0

/-! ## Bit tests on bytes -/

theorem forall_byte {P : UInt8 → Prop} (h : ∀ n < 256, P (UInt8.ofNat n)) (byte : UInt8) :
    P byte := by
  have hbyte := h byte.toNat byte.toNat_lt
  rwa [UInt8.ofNat_toNat] at hbyte

/-- How many continuation bytes a first byte asks for. -/
def extra (byte : UInt8) : Option ℕ := if byte ≤ 0x7F then some 0 else continuationBytes byte

theorem ascii_iff (byte : UInt8) : (byte &&& 0x80 == 0) = decide (byte ≤ 0x7F) :=
  forall_byte (P := fun byte => (byte &&& 0x80 == 0) = decide (byte ≤ 0x7F))
    (by decide +kernel) byte

theorem continuation_iff (byte : UInt8) : (byte &&& 0xC0 != 0x80) = !decide (tail.Has byte) :=
  forall_byte (P := fun byte => (byte &&& 0xC0 != 0x80) = !decide (tail.Has byte))
    (by decide +kernel) byte

theorem extra_of_has (byte : UInt8) :
    ∀ f ∈ shapes, f.1.Has byte → extra byte = some f.2.length :=
  forall_byte (P := fun byte => ∀ f ∈ shapes, f.1.Has byte → extra byte = some f.2.length)
    (by decide +kernel) byte

theorem has_of_extra (byte : UInt8) :
    ∀ n ∈ extra byte, ∃ f ∈ shapes, f.1.Has byte ∧ f.2 = List.replicate n tail :=
  forall_byte
    (P := fun byte => ∀ n ∈ extra byte, ∃ f ∈ shapes, f.1.Has byte ∧ f.2 = List.replicate n tail)
    (by decide +kernel) byte

theorem forall₂_replicate {n : ℕ} {c : List UInt8} :
    List.Forall₂ Range.Has (List.replicate n tail) c ↔ c.length = n ∧ ∀ x ∈ c, tail.Has x := by
  induction n generalizing c with
  | zero => cases c <;> simp
  | succ n ih =>
    cases c with
    | nil => simp [List.replicate_succ]
    | cons x c =>
      rw [List.replicate_succ,List.forall₂_cons,ih,List.length_cons,List.forall_mem_cons,
        Nat.add_right_cancel_iff]
      exact and_left_comm

theorem isSequence_cons {byte : UInt8} {c : List UInt8} :
    IsSequence (byte::c) ↔ extra byte = some c.length ∧ ∀ x ∈ c, tail.Has x := by
  constructor
  · rintro ⟨f,hf,hmatch⟩
    have hshape : ∀ f ∈ shapes, f.2 = List.replicate f.2.length tail := by decide
    cases hmatch with
    | cons hbyte hneeded =>
      rw [hshape f hf,forall₂_replicate] at hneeded
      exact ⟨hneeded.1 ▸ extra_of_has byte f hf hbyte,hneeded.2⟩
  · rintro ⟨hextra,hc⟩
    obtain ⟨f,hf,hbyte,hreplicate⟩ := has_of_extra byte c.length hextra
    refine ⟨f,hf,.cons hbyte ?_⟩
    rw [hreplicate,forall₂_replicate]
    exact ⟨rfl,hc⟩

/-! ## One round -/

/-- The string begins with `n` continuation bytes. -/
def continues (n : ℕ) (bytes : List UInt8) : Bool :=
  decide (n ≤ bytes.length) && (bytes.take n).all fun x => decide (tail.Has x)

theorem continues_iff {n : ℕ} {bytes : List UInt8} :
    continues n bytes = true ↔ n ≤ bytes.length ∧ ∀ x ∈ bytes.take n, tail.Has x := by
  simp only [continues,Bool.and_eq_true,decide_eq_true_eq,List.all_eq_true]

theorem continues_zero (bytes : List UInt8) : continues 0 bytes = true := by
  simp [continues]

theorem continues_cons (n : ℕ) (x : UInt8) (bytes : List UInt8) :
    continues (n + 1) (x::bytes) = (decide (tail.Has x) && continues n bytes) := by
  rw [Bool.eq_iff_iff,Bool.and_eq_true,continues_iff,continues_iff,decide_eq_true_eq,
    List.take_succ_cons,List.forall_mem_cons,List.length_cons,Nat.add_le_add_iff_right]
  exact and_left_comm

/-- The length of the sequence at the beginning of a string. -/
def sequenceLength : List UInt8 → Option ℕ
  | [] => none
  | byte::bytes => (extra byte).bind fun n => if continues n bytes then some (n + 1) else none

theorem sequenceLength_eq_some {bytes : List UInt8} {k : ℕ} :
    sequenceLength bytes = some k ↔ k ≤ bytes.length ∧ IsSequence (bytes.take k) := by
  cases bytes with
  | nil =>
    simp only [sequenceLength,List.take_nil,reduceCtorEq,false_iff]
    exact fun h => h.2.ne_nil rfl
  | cons byte bytes =>
    cases k with
    | zero =>
      refine iff_of_false ?_ fun h => h.2.ne_nil rfl
      simp [sequenceLength,Option.bind_eq_some_iff]
    | succ k =>
      rw [List.take_succ_cons,isSequence_cons,List.length_cons,Nat.add_le_add_iff_right]
      simp only [sequenceLength,Option.bind_eq_some_iff,Option.ite_none_right_eq_some,
        Option.some.injEq,continues_iff]
      constructor
      · rintro ⟨n,hextra,⟨hn,hall⟩,heq⟩
        obtain rfl : n = k := by omega
        exact ⟨hn,by rw [List.length_take_of_le hn,hextra],hall⟩
      · rintro ⟨hk,hextra,hall⟩
        rw [List.length_take_of_le hk] at hextra
        exact ⟨k,hextra,⟨hk,hall⟩,rfl⟩

theorem readAt_eq {data : List UInt8} {i : ℕ} {byte : UInt8} {bytes : List UInt8}
    (h : data.drop i = byte::bytes) : readAt data i = .ok byte := by
  have hget : data[i]? = some byte := by
    rw [← List.head?_drop,h]
    rfl
  rw [readAt,hget]

/-- The bytes after index `i`, one after the other. -/
theorem drop_succ_of_drop {data : List UInt8} {i : ℕ} {byte : UInt8} {bytes : List UInt8}
    (h : data.drop i = byte::bytes) : data.drop (i + 1) = bytes := by
  rw [← List.tail_drop,h]
  rfl

theorem length_of_drop {data bytes : List UInt8} {i : ℕ} {byte : UInt8}
    (h : data.drop i = byte::bytes) : data.length = i + 1 + bytes.length := by
  have hlength := congrArg List.length h
  rw [List.length_drop,List.length_cons] at hlength
  omega

theorem checkContinuation_eq (n : ℕ) {data bytes : List UInt8} {i : ℕ} {byte : UInt8}
    (h : data.drop i = byte::bytes) : checkContinuation data n i =
      .ok (if continues n bytes then some (i + n) else none) := by
  induction n generalizing i byte bytes with
  | zero => simp [checkContinuation,continues_zero]
  | succ n ih =>
    have hlength := length_of_drop h
    have hdrop := drop_succ_of_drop h
    cases bytes with
    | nil =>
      rw [List.length_nil] at hlength
      rw [checkContinuation,if_pos (by omega)]
      rfl
    | cons x bytes =>
      rw [List.length_cons] at hlength
      rw [checkContinuation,if_neg (by omega),readAt_eq hdrop,continues_cons]
      simp only [bind,Except.bind,continuation_iff,ih hdrop]
      cases decide (tail.Has x) with
      | true => rw [Nat.add_right_comm]; rfl
      | false => rfl

theorem anyNotContinuation_eq (n : ℕ) {bytes rest : List UInt8} {i : ℕ} {c : UInt8}
    (h : bytes.drop i = c::rest) (hn : n ≤ rest.length) :
    anyNotContinuation bytes (List.range' (i + 1) n) = .ok (!continues n rest) := by
  induction n generalizing i c rest with
  | zero => simp [anyNotContinuation,continues_zero]
  | succ n ih =>
    have hdrop := drop_succ_of_drop h
    cases rest with
    | nil => exact absurd hn (by simp)
    | cons x rest =>
      rw [List.length_cons,Nat.add_le_add_iff_right] at hn
      rw [List.range'_succ,anyNotContinuation,readAt_eq hdrop,continues_cons]
      simp only [bind,Except.bind,continuation_iff,ih hdrop hn]
      cases decide (tail.Has x) with
      | true => rfl
      | false => rfl

theorem steppingRound_eq {data : List UInt8} {i : ℕ} (hi : i < data.length) :
    steppingRound data i = .ok ((sequenceLength (data.drop i)).map (i + ·)) := by
  have hdrop := List.drop_eq_getElem_cons hi
  rw [steppingRound,readAt_eq hdrop,hdrop]
  simp only [bind,Except.bind,pure,Except.pure,ascii_iff,sequenceLength,extra]
  by_cases hascii : data[i] ≤ 0x7F
  · simp [hascii,continues_zero]
  · cases hextra : continuationBytes data[i] with
    | none => simp [hascii]
    | some n =>
      simp only [hascii,decide_false,Bool.false_eq_true,if_false,checkContinuation_eq n hdrop,
        Option.bind_some]
      split <;> rfl

/-- Reading ahead over `n` bytes, as each of the branches does. -/
theorem lookahead_eq (n : ℕ) {bytes rest : List UInt8} {i : ℕ} {c : UInt8}
    (h : bytes.drop i = c::rest) :
    (do
      if i + n ≥ bytes.length then return none
      if ← anyNotContinuation bytes (List.range' (i + 1) n) then return none
      return some (i + (n + 1)) : Except Fault (Option ℕ)) =
    .ok ((if continues n rest then some (n + 1) else none).map (i + ·)) := by
  have hlength := length_of_drop h
  by_cases hn : n ≤ rest.length
  · rw [if_neg (by omega),anyNotContinuation_eq n h hn]
    cases continues n rest with
    | true => rfl
    | false => rfl
  · have hshort : continues n rest = false := by
      rw [← Bool.not_eq_true,continues_iff]
      exact fun hboth => hn hboth.1
    rw [if_pos (by omega),hshort]
    rfl

theorem lookaheadRound_eq {bytes : List UInt8} {i : ℕ} (hi : i < bytes.length) :
    lookaheadRound bytes i = .ok ((sequenceLength (bytes.drop i)).map (i + ·)) := by
  have hdrop := List.drop_eq_getElem_cons hi
  rw [lookaheadRound,readAt_eq hdrop,hdrop]
  simp only [sequenceLength,extra,continuationBytes,bind,Except.bind]
  by_cases hascii : bytes[i] ≤ 0x7F
  · simp [hascii,continues_zero,pure,Except.pure]
  · by_cases hone : bytes[i] &&& 0xE0 == 0xC0
    · simp only [hascii,hone,if_true,if_false]
      exact lookahead_eq 1 hdrop
    · by_cases htwo : bytes[i] &&& 0xF0 == 0xE0
      · simp only [hascii,hone,htwo,if_true,if_false,Bool.false_eq_true]
        exact lookahead_eq 2 hdrop
      · by_cases hthree : bytes[i] &&& 0xF8 == 0xF0
        · simp only [hascii,hone,htwo,hthree,if_true,if_false,Bool.false_eq_true]
          exact lookahead_eq 3 hdrop
        · simp only [hascii,hone,htwo,hthree,if_false,Bool.false_eq_true]
          rfl

/-! ## The whole string -/

/-- A round that steps over one sequence makes a loop that asks for a string of sequences. -/
theorem whileLoop_eq {data : List UInt8} {round : ℕ → Except Fault (Option ℕ)}
    (hround : ∀ i < data.length, round i = .ok ((sequenceLength (data.drop i)).map (i + ·)))
    (rounds i : ℕ) (hi : data.length - i ≤ rounds) :
    ∃ b, whileLoop data.length round rounds i = .ok b ∧ (b = true ↔ Shaped (data.drop i)) := by
  induction rounds generalizing i with
  | zero =>
    have hdone : data.length ≤ i := by omega
    refine ⟨true,if_neg (by omega),?_⟩
    rw [List.drop_of_length_le hdone]
    exact iff_of_true rfl shaped_nil
  | succ rounds ih =>
    by_cases hlt : i < data.length
    · rw [whileLoop,if_pos hlt,hround i hlt]
      cases hsequence : sequenceLength (data.drop i) with
      | none =>
        refine ⟨false,rfl,iff_of_false Bool.false_ne_true fun hshaped => ?_⟩
        have hne : data.drop i ≠ [] := by
          rw [List.drop_eq_getElem_cons hlt]
          exact List.cons_ne_nil _ _
        obtain ⟨c,rest,heq,hc⟩ := hshaped.exists_append hne
        have hsome : sequenceLength (data.drop i) = some c.length :=
          sequenceLength_eq_some.mpr (by
            rw [heq,List.take_left']
            · exact ⟨by simp,hc⟩
            · rfl)
        rw [hsequence] at hsome
        exact Option.some_ne_none _ hsome.symm
      | some k =>
        obtain ⟨hk,hc⟩ := sequenceLength_eq_some.mp hsequence
        have hpos : 0 < k := by
          rw [Nat.pos_iff_ne_zero]
          rintro rfl
          exact hc.ne_nil rfl
        obtain ⟨b,hb,hiff⟩ := ih (i + k) (by omega)
        refine ⟨b,hb,?_⟩
        rw [hiff,← List.drop_drop]
        conv_rhs => rw [← List.take_append_drop k (data.drop i)]
        exact (shaped_append hc).symm
    · refine ⟨true,if_neg hlt,?_⟩
      rw [List.drop_of_length_le (by omega)]
      exact iff_of_true rfl shaped_nil

theorem C.isValidUtf8_eq (data : List UInt8) :
    ∃ b, C.isValidUtf8 data = .ok b ∧ (b = true ↔ Shaped data) :=
  whileLoop_eq (fun _ hi => steppingRound_eq hi) data.length 0 (Nat.le_refl _)

theorem Cpp.isValidUtf8_eq (data : List UInt8) :
    ∃ b, Cpp.isValidUtf8 data = .ok b ∧ (b = true ↔ Shaped data) :=
  whileLoop_eq (fun _ hi => steppingRound_eq hi) data.length 0 (Nat.le_refl _)

theorem InputValidator.isValidUTF8_eq (bytes : List UInt8) :
    ∃ b, InputValidator.isValidUTF8 bytes = .ok b ∧ (b = true ↔ Shaped bytes) :=
  whileLoop_eq (fun _ hi => lookaheadRound_eq hi) bytes.length 0 (Nat.le_refl _)

/-- The C checker asks for sequences only: it parts from the Rust check on the strings that have an
overlong one, a surrogate or one beyond the last code point. -/
theorem c_isValidUtf8_iff (data : List UInt8) :
    ∃ b, C.isValidUtf8 data = .ok b ∧ (b = true ↔ Shaped data) ∧
      (b = ViolationHandler.isValidUtf8 data ↔
        ∀ cs, Splits cs data → ∀ c ∈ cs, ¬ Overlong c ∧ ¬ Surrogate c ∧ ¬ TooLarge c) := by
  obtain ⟨b,hc,hb⟩ := C.isValidUtf8_eq data
  refine ⟨b,hc,hb,?_⟩
  rw [Bool.eq_iff_iff,hb,ViolationHandler.isValidUtf8,decide_eq_true_iff]
  constructor
  · intro hiff cs hcs c hmem
    have hvalid : Valid data := hiff.mp ⟨cs,hcs⟩
    exact ((isChar_iff c).mp (hcs.valid_iff.mp hvalid c hmem)).2
  · intro hproper
    refine ⟨fun ⟨cs,hcs⟩ => hcs.valid_iff.mpr fun c hmem => ?_,Valid.shaped⟩
    exact (isChar_iff c).mpr ⟨hcs.isSequence c hmem,hproper cs hcs c hmem⟩

/-- An overlong zero, a surrogate and the first number past the last code point. -/
theorem c_isValidUtf8_overlong :
    (C.isValidUtf8 [0xC0,0x80] = .ok true ∧ ViolationHandler.isValidUtf8 [0xC0,0x80] = false) ∧
    (C.isValidUtf8 [0xED,0xA0,0x80] = .ok true ∧
      ViolationHandler.isValidUtf8 [0xED,0xA0,0x80] = false) ∧
    (C.isValidUtf8 [0xF4,0x90,0x80,0x80] = .ok true ∧
      ViolationHandler.isValidUtf8 [0xF4,0x90,0x80,0x80] = false) := by decide

/-- The three checkers answer alike, without reading at or past the length, and none of them
refuses text. -/
theorem checkers_agree_and_accept (data : List UInt8) :
    ∃ b, C.isValidUtf8 data = .ok b ∧ Cpp.isValidUtf8 data = .ok b ∧
      InputValidator.isValidUTF8 data = .ok b ∧ (Valid data → b = true) := by
  obtain ⟨b,hc,hb⟩ := C.isValidUtf8_eq data
  obtain ⟨b',hcpp,hb'⟩ := Cpp.isValidUtf8_eq data
  obtain ⟨b'',hinput,hb''⟩ := InputValidator.isValidUTF8_eq data
  obtain rfl : b' = b := Bool.eq_iff_iff.mpr (hb'.trans hb.symm)
  obtain rfl : b'' = b' := Bool.eq_iff_iff.mpr (hb''.trans hb.symm)
  exact ⟨b'',hc,hcpp,hinput,fun hvalid => hb.mpr hvalid.shaped⟩

end Utf8Checkers
end UProtocols
