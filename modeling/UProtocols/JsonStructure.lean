import UProtocols.Brackets
import UProtocols.HtmlEscape

/-!
# The structure check for JSON

`isValidJSON` of `websocket_input_validation.cpp`: a basic check that keeps one counter for braces
and one for brackets. The counters are `int`s; counting past the largest one is undefined.
-/

namespace UProtocols
namespace JsonStructure

open Brackets
open HtmlEscape (byte)

inductive Kind
  | brace
  | bracket
  deriving DecidableEq

/-- `INT_MAX`. -/
def intMax : ℕ := 2147483647

inductive Fault
  | overflow
  deriving DecidableEq

structure Scan where
  braceCount : ℤ
  bracketCount : ℤ
  inString : Bool
  escaped : Bool
  deriving DecidableEq

/-- `count++` of an `int`. -/
def increment (count : ℤ) : Except Fault ℤ :=
  if count < intMax then .ok (count + 1) else .error .overflow

/-- The brackets that are counted outside of string literals. -/
def countBrackets (c : UInt8) (s : Scan) : Except Fault Scan :=
  if c = byte '\x7b' then return { s with braceCount := ← increment s.braceCount }
  else if c = byte '\x7d' then return { s with braceCount := s.braceCount - 1 }
  else if c = byte '[' then return { s with bracketCount := ← increment s.bracketCount }
  else if c = byte ']' then return { s with bracketCount := s.bracketCount - 1 }
  else return s

/-- The body of the loop; `none` where it returns false. -/
def scanByte (c : UInt8) (s : Scan) : Except Fault (Option Scan) := do
  if s.escaped then return some { s with escaped := false }
  if c = byte '\\' ∧ s.inString then return some { s with escaped := true }
  let s :=
    if c = byte '"' ∧ !s.inString then { s with inString := true }
    else if c = byte '"' ∧ s.inString then { s with inString := false }
    else s
  if !s.inString then
    let s ← countBrackets c s
    if s.braceCount < 0 ∨ s.bracketCount < 0 then return none
    return some s
  else return some s

def scan : List UInt8 → Scan → Except Fault Bool
  | [], s => return s.braceCount = 0 && s.bracketCount = 0 && !s.inString
  | c::json, s => do
    match ← scanByte c s with
    | none => return false
    | some s => scan json s

def isValidJSON (json : List UInt8) : Except Fault Bool := scan json ⟨0,0,false,false⟩

/-! ## What the text is made of -/

def symbol (c : UInt8) : Option (Symbol Kind) :=
  if c = byte '\x7b' then some (.opening .brace)
  else if c = byte '\x7d' then some (.closing .brace)
  else if c = byte '[' then some (.opening .bracket)
  else if c = byte ']' then some (.closing .bracket)
  else none

/-- The inside of a string literal: a backslash takes the next character with it. -/
inductive Body : List UInt8 → Prop
  | nil : Body []
  | char {c : UInt8} {body : List UInt8} (hquote : c ≠ byte '"') (hbackslash : c ≠ byte '\\')
    (hbody : Body body) : Body (c::body)
  | escape {body : List UInt8} (c : UInt8) (hbody : Body body) : Body (byte '\\'::c::body)

/-- A text in which every string literal is closed, and its brackets outside of them. -/
inductive Text : List UInt8 → List (Symbol Kind) → Prop
  | nil : Text [] []
  | outside {c : UInt8} {json : List UInt8} {w : List (Symbol Kind)} (hquote : c ≠ byte '"')
    (h : Text json w) : Text (c::json) ((symbol c).toList ++ w)
  | literal {body json : List UInt8} {w : List (Symbol Kind)} (hbody : Body body)
    (h : Text json w) : Text (byte '"'::body ++ byte '"'::json) w

/-- The rest of a literal, and the text after it. -/
def InLiteral (json : List UInt8) (w : List (Symbol Kind)) : Prop :=
  ∃ body rest, json = body ++ byte '"'::rest ∧ Body body ∧ Text rest w

theorem text_cons {c : UInt8} {json : List UInt8} {w : List (Symbol Kind)} (hc : c ≠ byte '"') :
    Text (c::json) w ↔ ∃ v, w = (symbol c).toList ++ v ∧ Text json v := by
  constructor
  · intro h
    cases h with
    | outside _ h => exact ⟨_,rfl,h⟩
    | literal _ _ => exact absurd rfl hc
  · rintro ⟨v,rfl,h⟩
    exact .outside hc h

theorem text_quote {json : List UInt8} {w : List (Symbol Kind)} :
    Text (byte '"'::json) w ↔ InLiteral json w := by
  constructor
  · intro h
    cases h with
    | outside hquote _ => exact absurd rfl hquote
    | literal hbody h => exact ⟨_,_,rfl,hbody,h⟩
  · rintro ⟨body,rest,rfl,hbody,h⟩
    exact .literal hbody h

theorem not_inLiteral_nil (w : List (Symbol Kind)) : ¬ InLiteral [] w := by
  rintro ⟨body,rest,heq,-,-⟩
  exact absurd heq.symm (List.append_ne_nil_of_right_ne_nil body (List.cons_ne_nil _ rest))

/-- The next byte of a literal closes it, takes another one with it, or is an ordinary one. -/
theorem inLiteral_cons_iff {c : UInt8} {json : List UInt8} {w : List (Symbol Kind)} :
    InLiteral (c::json) w ↔
      (c = byte '"' ∧ Text json w) ∨
      (c = byte '\\' ∧ ∃ d rest, json = d::rest ∧ InLiteral rest w) ∨
      (c ≠ byte '"' ∧ c ≠ byte '\\' ∧ InLiteral json w) := by
  constructor
  · rintro ⟨body,rest,heq,hbody,h⟩
    cases hbody with
    | nil =>
      obtain ⟨rfl,rfl⟩ := List.cons.inj heq
      exact .inl ⟨rfl,h⟩
    | char hquote hbackslash hbody =>
      obtain ⟨rfl,hjson⟩ := List.cons.inj heq
      exact .inr (.inr ⟨hquote,hbackslash,_,rest,hjson,hbody,h⟩)
    | escape d hbody =>
      obtain ⟨rfl,hjson⟩ := List.cons.inj heq
      exact .inr (.inl ⟨rfl,d,_,hjson,_,rest,rfl,hbody,h⟩)
  · rintro (⟨rfl,h⟩ | ⟨rfl,d,_,rfl,body,rest,rfl,hbody,h⟩ |
      ⟨hquote,hbackslash,body,rest,rfl,hbody,h⟩)
    · exact ⟨[],json,rfl,.nil,h⟩
    · exact ⟨byte '\\'::d::body,rest,rfl,.escape d hbody,h⟩
    · exact ⟨c::body,rest,rfl,.char hquote hbackslash hbody,h⟩

theorem quote_ne_backslash : byte '"' ≠ byte '\\' := by decide

theorem inLiteral_quote {json : List UInt8} {w : List (Symbol Kind)} :
    InLiteral (byte '"'::json) w ↔ Text json w := by
  simp [inLiteral_cons_iff,quote_ne_backslash]

theorem inLiteral_backslash {c : UInt8} {json : List UInt8} {w : List (Symbol Kind)} :
    InLiteral (byte '\\'::c::json) w ↔ InLiteral json w := by
  simp [inLiteral_cons_iff (c := byte '\\'),quote_ne_backslash.symm]

theorem not_inLiteral_backslash (w : List (Symbol Kind)) : ¬ InLiteral [byte '\\'] w := by
  simp [inLiteral_cons_iff,quote_ne_backslash.symm]

theorem inLiteral_cons {c : UInt8} {json : List UInt8} {w : List (Symbol Kind)}
    (hquote : c ≠ byte '"') (hbackslash : c ≠ byte '\\') :
    InLiteral (c::json) w ↔ InLiteral json w := by
  simp [inLiteral_cons_iff,hquote,hbackslash]

/-! ## One byte -/

/-- What a byte outside of the literals adds to the counter of a kind. -/
def weight (k : Kind) (c : UInt8) : ℤ := level k (symbol c).toList

/-- A byte that is not a bracket weighs nothing. -/
theorem weight_of_none {c : UInt8} (h : symbol c = none) (k : Kind) : weight k c = 0 := by
  rw [weight,h]
  rfl

theorem increment_eq {count : ℤ} (h : count ≤ intMax) :
    increment count = if count + 1 ≤ intMax then .ok (count + 1) else .error .overflow := by
  rw [increment]
  by_cases hlt : count < intMax
  · rw [if_pos hlt,if_pos (by omega)]
  · rw [if_neg hlt,if_neg (by omega)]

theorem countBrackets_eq {b k : ℤ} (hb : b ≤ intMax) (hk : k ≤ intMax) (c : UInt8)
    (inString escaped : Bool) :
    countBrackets c ⟨b,k,inString,escaped⟩ =
      if b + weight .brace c ≤ intMax ∧ k + weight .bracket c ≤ intMax then
        .ok ⟨b + weight .brace c,k + weight .bracket c,inString,escaped⟩
      else .error .overflow := by
  rw [countBrackets]
  by_cases hleftBrace : c = byte '\x7b'
  · have hbrace : weight .brace c = 1 := by rw [hleftBrace]; rfl
    have hbracket : weight .bracket c = 0 := by rw [hleftBrace]; rfl
    rw [if_pos hleftBrace,hbrace,hbracket,Int.add_zero,increment_eq hb]
    by_cases hlimit : b + 1 ≤ intMax
    · rw [if_pos hlimit,if_pos ⟨hlimit,hk⟩]
      rfl
    · rw [if_neg hlimit,if_neg fun h => hlimit h.1]
      rfl
  by_cases hrightBrace : c = byte '\x7d'
  · have hbrace : weight .brace c = -1 := by rw [hrightBrace]; rfl
    have hbracket : weight .bracket c = 0 := by rw [hrightBrace]; rfl
    rw [if_neg hleftBrace,if_pos hrightBrace,hbrace,hbracket,Int.add_zero,
      if_pos ⟨by omega,hk⟩]
    rfl
  by_cases hleftBracket : c = byte '['
  · have hbrace : weight .brace c = 0 := by rw [hleftBracket]; rfl
    have hbracket : weight .bracket c = 1 := by rw [hleftBracket]; rfl
    rw [if_neg hleftBrace,if_neg hrightBrace,if_pos hleftBracket,hbrace,hbracket,Int.add_zero,
      increment_eq hk]
    by_cases hlimit : k + 1 ≤ intMax
    · rw [if_pos hlimit,if_pos ⟨hb,hlimit⟩]
      rfl
    · rw [if_neg hlimit,if_neg fun h => hlimit h.2]
      rfl
  by_cases hrightBracket : c = byte ']'
  · have hbrace : weight .brace c = 0 := by rw [hrightBracket]; rfl
    have hbracket : weight .bracket c = -1 := by rw [hrightBracket]; rfl
    rw [if_neg hleftBrace,if_neg hrightBrace,if_neg hleftBracket,if_pos hrightBracket,hbrace,
      hbracket,Int.add_zero,if_pos ⟨hb,by omega⟩]
    rfl
  · have hsymbol : symbol c = none := by
      rw [symbol,if_neg hleftBrace,if_neg hrightBrace,if_neg hleftBracket,if_neg hrightBracket]
    rw [if_neg hleftBrace,if_neg hrightBrace,if_neg hleftBracket,if_neg hrightBracket,
      weight_of_none hsymbol,weight_of_none hsymbol,Int.add_zero,Int.add_zero,if_pos ⟨hb,hk⟩]
    rfl

theorem scan_outside {b k : ℤ} (hb : b ≤ intMax) (hk : k ≤ intMax) {c : UInt8}
    (hc : c ≠ byte '"') (json : List UInt8) :
    scan (c::json) ⟨b,k,false,false⟩ = .ok true ↔
      (0 ≤ b + weight .brace c ∧ b + weight .brace c ≤ intMax) ∧
      (0 ≤ k + weight .bracket c ∧ k + weight .bracket c ≤ intMax) ∧
      scan json ⟨b + weight .brace c,k + weight .bracket c,false,false⟩ = .ok true := by
  have hbyte : scanByte c ⟨b,k,false,false⟩ = (do
      let s ← countBrackets c ⟨b,k,false,false⟩
      if s.braceCount < 0 ∨ s.bracketCount < 0 then return none
      return some s) := by
    simp [scanByte,hc]
  rw [scan,hbyte,countBrackets_eq hb hk]
  by_cases hlimit : b + weight .brace c ≤ intMax ∧ k + weight .bracket c ≤ intMax
  · rw [if_pos hlimit]
    by_cases hneg : b + weight .brace c < 0 ∨ k + weight .bracket c < 0
    · simp [hneg,bind,Except.bind,pure,Except.pure]
      omega
    · obtain ⟨hbrace,hbracket⟩ := not_or.mp hneg
      simp [hneg,hlimit,Int.not_lt.mp hbrace,Int.not_lt.mp hbracket,bind,Except.bind,pure,
        Except.pure]
  · rw [if_neg hlimit]
    simp [bind,Except.bind]
    omega

theorem scan_open (json : List UInt8) (b k : ℤ) :
    scan (byte '"'::json) ⟨b,k,false,false⟩ = scan json ⟨b,k,true,false⟩ := rfl

theorem scan_close (json : List UInt8) {b k : ℤ} (hb : 0 ≤ b) (hk : 0 ≤ k) :
    scan (byte '"'::json) ⟨b,k,true,false⟩ = scan json ⟨b,k,false,false⟩ := by
  have hbyte : scanByte (byte '"') ⟨b,k,true,false⟩ =
      if b < 0 ∨ k < 0 then .ok none else .ok (some ⟨b,k,false,false⟩) := rfl
  rw [scan,hbyte,if_neg (by omega)]
  rfl

theorem scan_backslash (json : List UInt8) (b k : ℤ) :
    scan (byte '\\'::json) ⟨b,k,true,false⟩ = scan json ⟨b,k,true,true⟩ := rfl

theorem scan_escaped (c : UInt8) (json : List UInt8) (b k : ℤ) :
    scan (c::json) ⟨b,k,true,true⟩ = scan json ⟨b,k,true,false⟩ := rfl

theorem scan_inside {c : UInt8} (hquote : c ≠ byte '"') (hbackslash : c ≠ byte '\\')
    (json : List UInt8) (b k : ℤ) :
    scan (c::json) ⟨b,k,true,false⟩ = scan json ⟨b,k,true,false⟩ := by
  have hbyte : scanByte c ⟨b,k,true,false⟩ = .ok (some ⟨b,k,true,false⟩) := by
    simp [scanByte,hquote,hbackslash,pure,Except.pure]
  rw [scan,hbyte]
  rfl

/-! ## The whole text -/

/-- Both counters, from where they stand. -/
def CountsBoth (b k : ℤ) (w : List (Symbol Kind)) : Prop :=
  Counts intMax .brace b w ∧ Counts intMax .bracket k w

theorem counts_symbol {kind : Kind} {d : ℤ} (hd : 0 ≤ d ∧ d ≤ intMax) (c : UInt8)
    (w : List (Symbol Kind)) :
    Counts intMax kind d ((symbol c).toList ++ w) ↔ Counts intMax kind (d + weight kind c) w := by
  rw [weight]
  cases symbol c with
  | none => simp
  | some x =>
    rw [Option.toList_some,List.singleton_append,counts_cons,level_cons,level_nil,Int.add_zero]
    exact and_iff_right hd

/-- Outside of a literal, inside of one and after a backslash in it. -/
theorem scan_iff (json : List UInt8) {b k : ℤ} (hb : 0 ≤ b ∧ b ≤ intMax)
    (hk : 0 ≤ k ∧ k ≤ intMax) :
    (scan json ⟨b,k,false,false⟩ = .ok true ↔ ∃ w, Text json w ∧ CountsBoth b k w) ∧
      (scan json ⟨b,k,true,false⟩ = .ok true ↔ ∃ w, InLiteral json w ∧ CountsBoth b k w) ∧
      (scan json ⟨b,k,true,true⟩ = .ok true ↔
        ∃ w, InLiteral (byte '\\'::json) w ∧ CountsBoth b k w) := by
  induction json generalizing b k with
  | nil =>
    refine ⟨?_,?_,?_⟩
    · constructor
      · intro h
        have hzero : b = 0 ∧ k = 0 := by simpa [scan,pure,Except.pure] using h
        exact ⟨[],.nil,counts_nil.mpr hzero.1,counts_nil.mpr hzero.2⟩
      · rintro ⟨w,hw,hbrace,hbracket⟩
        cases hw
        simp [scan,counts_nil.mp hbrace,counts_nil.mp hbracket,pure,Except.pure]
    · refine iff_of_false (by simp [scan,pure,Except.pure]) ?_
      rintro ⟨w,hw,-⟩
      exact not_inLiteral_nil w hw
    · refine iff_of_false (by simp [scan,pure,Except.pure]) ?_
      rintro ⟨w,hw,-⟩
      exact not_inLiteral_backslash w hw
  | cons c json ih =>
    refine ⟨?_,?_,?_⟩
    · by_cases hc : c = byte '"'
      · rw [hc,scan_open,(ih hb hk).2.1]
        simp only [text_quote]
      · rw [scan_outside hb.2 hk.2 hc]
        constructor
        · rintro ⟨hb',hk',h⟩
          obtain ⟨w,hw,hbrace,hbracket⟩ := (ih hb' hk').1.mp h
          refine ⟨(symbol c).toList ++ w,.outside hc hw,?_,?_⟩
          · exact (counts_symbol hb c w).mpr hbrace
          · exact (counts_symbol hk c w).mpr hbracket
        · rintro ⟨w,hw,hbrace,hbracket⟩
          obtain ⟨v,rfl,hv⟩ := (text_cons hc).mp hw
          rw [counts_symbol hb] at hbrace
          rw [counts_symbol hk] at hbracket
          have hnext := (ih hbrace.bounds hbracket.bounds).1.mpr ⟨v,hv,hbrace,hbracket⟩
          exact ⟨hbrace.bounds,hbracket.bounds,hnext⟩
    · by_cases hquote : c = byte '"'
      · rw [hquote,scan_close json hb.1 hk.1,(ih hb hk).1]
        simp only [inLiteral_quote]
      · by_cases hbackslash : c = byte '\\'
        · rw [hbackslash,scan_backslash,(ih hb hk).2.2]
        · rw [scan_inside hquote hbackslash,(ih hb hk).2.1]
          simp only [inLiteral_cons hquote hbackslash]
    · rw [scan_escaped,(ih hb hk).2.1]
      simp only [inLiteral_backslash]

/-- The two counters find a text whose literals are closed and whose braces alone and brackets
alone are nested; braces and brackets may cross. -/
theorem isValidJSON_iff (json : List UInt8) :
    (isValidJSON json = .ok true ↔
      ∃ w, Text json w ∧ ∀ kind, Nested (only kind w) ∧ AtMost intMax kind w) ∧
    ∀ w, Text json w → Nested w → (∀ kind, AtMost intMax kind w) → isValidJSON json = .ok true := by
  have hzero : (0 : ℤ) ≤ 0 ∧ (0 : ℤ) ≤ intMax := by decide
  have hiff : isValidJSON json = .ok true ↔
      ∃ w, Text json w ∧ ∀ kind, Nested (only kind w) ∧ AtMost intMax kind w := by
    rw [isValidJSON,(scan_iff json hzero hzero).1]
    simp only [nested_only_iff]
    constructor
    · rintro ⟨w,hw,hbrace,hbracket⟩
      refine ⟨w,hw,fun kind => ?_⟩
      cases kind with
      | brace => exact hbrace
      | bracket => exact hbracket
    · rintro ⟨w,hw,hall⟩
      exact ⟨w,hw,hall .brace,hall .bracket⟩
  refine ⟨hiff,fun w hw hnested hlimit => ?_⟩
  exact hiff.mpr ⟨w,hw,fun kind => ⟨hnested.only kind,hlimit kind⟩⟩

/-- A brace closed inside a bracket that was opened after it. -/
theorem isValidJSON_crossing :
    isValidJSON [byte '\x7b',byte '[',byte '\x7d',byte ']'] = .ok true ∧
      ¬ ∃ w, Text [byte '\x7b',byte '[',byte '\x7d',byte ']'] w ∧ Nested w := by
  refine ⟨by decide,?_⟩
  rintro ⟨w,hw,hnested⟩
  obtain ⟨w₁,rfl,h₁⟩ := (text_cons (by decide)).mp hw
  obtain ⟨w₂,rfl,h₂⟩ := (text_cons (by decide)).mp h₁
  obtain ⟨w₃,rfl,h₃⟩ := (text_cons (by decide)).mp h₂
  obtain ⟨w₄,rfl,h₄⟩ := (text_cons (by decide)).mp h₃
  cases h₄
  exact absurd hnested (by decide)

end JsonStructure
end UProtocols
