import Mathlib.Data.List.Forall2

/-!
# UTF-8

The grammar of RFC 3629, section 4: a string of bytes is a sequence of characters, and a
character is a first byte and the bytes after it, each in a range. `scan` reads a string byte
by byte and keeps the ranges of the bytes that the character it is in still needs.
-/

namespace UProtocols
namespace Utf8

structure Range where
  low : UInt8
  high : UInt8
  deriving DecidableEq

def Range.Has (r : Range) (b : UInt8) : Prop := r.low ≤ b ∧ b ≤ r.high

instance (r : Range) (b : UInt8) : Decidable (r.Has b) := inferInstanceAs (Decidable (_ ∧ _))

def tail : Range := ⟨0x80,0xBF⟩

/-- The forms of a character: the range of its first byte and those of the other bytes. -/
def forms : List (Range × List Range) := [
  (⟨0x00,0x7F⟩,[]),
  (⟨0xC2,0xDF⟩,[tail]),
  (⟨0xE0,0xE0⟩,[⟨0xA0,0xBF⟩,tail]),
  (⟨0xE1,0xEC⟩,[tail,tail]),
  (⟨0xED,0xED⟩,[⟨0x80,0x9F⟩,tail]),
  (⟨0xEE,0xEF⟩,[tail,tail]),
  (⟨0xF0,0xF0⟩,[⟨0x90,0xBF⟩,tail,tail]),
  (⟨0xF1,0xF3⟩,[tail,tail,tail]),
  (⟨0xF4,0xF4⟩,[⟨0x80,0x8F⟩,tail,tail])]

def IsChar (c : List UInt8) : Prop := ∃ f ∈ forms, List.Forall₂ Range.Has (f.1::f.2) c

/-- A string of bytes is valid when it is a sequence of characters. -/
inductive Valid : List UInt8 → Prop
  | nil : Valid []
  | char {c bs : List UInt8} : IsChar c → Valid bs → Valid (c ++ bs)

/-! ## Reading byte by byte -/

/-- What the rest of a character that starts with `b` needs. -/
def lead (b : UInt8) : Option (List Range) := (forms.find? fun f => f.1.Has b).map (·.2)

/-- The ranges still needed after the bytes; `none` once a byte is out of its range. -/
def scan : List Range → List UInt8 → Option (List Range)
  | pending, [] => some pending
  | [], b::bs => (lead b).bind fun pending => scan pending bs
  | r::pending, b::bs => if r.Has b then scan pending bs else none

theorem scan_append (pending : List Range) (as bs : List UInt8) :
    scan pending (as ++ bs) = (scan pending as).bind fun needed => scan needed bs := by
  induction as generalizing pending with
  | nil => cases pending <;> simp [scan]
  | cons a as ih =>
    cases pending with
    | nil => cases hlead : lead a <;> simp [scan,hlead,ih]
    | cons r pending => by_cases ha : r.Has a <;> simp [scan,ha,ih]

theorem Range.not_has_of_lt {r r' : Range} {b : UInt8} (h : r.high < r'.low) (hb : r.Has b) :
    ¬ r'.Has b := by
  intro hb'
  exact UInt8.lt_irrefl _ (UInt8.lt_of_lt_of_le h (UInt8.le_trans hb'.1 hb.2))

/-- The ranges of the first bytes do not overlap. -/
theorem forms_disjoint : ∀ f ∈ forms, ∀ g ∈ forms,
    f = g ∨ f.1.high < g.1.low ∨ g.1.high < f.1.low := by decide

theorem lead_eq_some {b : UInt8} {needed : List Range} :
    lead b = some needed ↔ ∃ f ∈ forms, f.1.Has b ∧ f.2 = needed := by
  constructor
  · intro h
    obtain ⟨f,hf,rfl⟩ := Option.map_eq_some_iff.mp h
    have hb := List.find?_some hf
    exact ⟨f,List.mem_of_find?_eq_some hf,by simpa using hb,rfl⟩
  · rintro ⟨f,hf,hb,rfl⟩
    cases hfind : forms.find? fun f => f.1.Has b with
    | none =>
      have hnone := List.find?_eq_none.mp hfind f hf
      exact absurd hb (by simpa using hnone)
    | some g =>
      have hg := List.find?_some hfind
      have hgb : g.1.Has b := by simpa using hg
      obtain rfl | hlt | hlt := forms_disjoint f hf g (List.mem_of_find?_eq_some hfind)
      · simp [lead,hfind]
      · exact absurd hgb (Range.not_has_of_lt hlt hb)
      · exact absurd hb (Range.not_has_of_lt hlt hgb)

theorem valid_cons {b : UInt8} {bs : List UInt8} :
    Valid (b::bs) ↔ ∃ needed, lead b = some needed ∧
      ∃ c rest, bs = c ++ rest ∧ List.Forall₂ Range.Has needed c ∧ Valid rest := by
  constructor
  · intro h
    generalize hbs : b::bs = all at h
    cases h with
    | nil => cases hbs
    | @char c rest hc hrest =>
      obtain ⟨f,hf,hmatch⟩ := hc
      cases hmatch with
      | cons hb hneeded =>
        obtain ⟨rfl,rfl⟩ := List.cons.inj hbs
        exact ⟨f.2,lead_eq_some.mpr ⟨f,hf,hb,rfl⟩,_,rest,rfl,hneeded,hrest⟩
  · rintro ⟨needed,hlead,c,rest,rfl,hc,hrest⟩
    obtain ⟨f,hf,hb,rfl⟩ := lead_eq_some.mp hlead
    exact .char (c := b::c) ⟨f,hf,.cons hb hc⟩ hrest

theorem scan_eq_nil {pending : List Range} {bs : List UInt8} :
    scan pending bs = some [] ↔
      ∃ c rest, bs = c ++ rest ∧ List.Forall₂ Range.Has pending c ∧ Valid rest := by
  induction bs generalizing pending with
  | nil =>
    constructor
    · intro h
      obtain rfl : pending = [] := by simpa only [scan,Option.some.injEq] using h
      exact ⟨[],[],rfl,.nil,.nil⟩
    · rintro ⟨c,rest,hnil,hc,-⟩
      obtain ⟨rfl,-⟩ := List.append_eq_nil_iff.mp hnil.symm
      cases hc
      rfl
  | cons b bs ih =>
    cases pending with
    | nil =>
      have hscan : scan [] (b::bs) = some [] ↔ Valid (b::bs) := by
        simp only [scan,Option.bind_eq_some_iff,ih,valid_cons]
      rw [hscan]
      constructor
      · intro h
        exact ⟨[],b::bs,rfl,.nil,h⟩
      · rintro ⟨c,rest,hbs,hc,hrest⟩
        cases hc
        rw [hbs]
        exact hrest
    | cons r pending =>
      by_cases hb : r.Has b
      · rw [scan,if_pos hb,ih]
        constructor
        · rintro ⟨c,rest,rfl,hc,hrest⟩
          exact ⟨b::c,rest,rfl,.cons hb hc,hrest⟩
        · rintro ⟨c,rest,hbs,hc,hrest⟩
          cases hc with
          | cons hb hc =>
            obtain ⟨-,rfl⟩ := List.cons.inj hbs
            exact ⟨_,rest,rfl,hc,hrest⟩
      · rw [scan,if_neg hb]
        constructor
        · intro h
          cases h
        · rintro ⟨c,rest,hbs,hc,-⟩
          cases hc with
          | cons hb' hc =>
            obtain ⟨rfl,-⟩ := List.cons.inj hbs
            exact absurd hb' hb

theorem valid_iff {bs : List UInt8} : Valid bs ↔ scan [] bs = some [] := by
  rw [scan_eq_nil]
  constructor
  · intro h
    exact ⟨[],bs,rfl,.nil,h⟩
  · rintro ⟨c,rest,rfl,hc,hrest⟩
    cases hc
    exact hrest

instance (bs : List UInt8) : Decidable (Valid bs) := decidable_of_iff _ valid_iff.symm

/-! ## Splitting a string -/

/-- The boundary between the two strings lies inside a character. -/
def Straddles (as bs : List UInt8) : Prop :=
  ∃ before left right after, as = before ++ left ∧ bs = right ++ after ∧ left ≠ [] ∧ right ≠ [] ∧
    IsChar (left ++ right) ∧ Valid before ∧ Valid after

theorem Valid.append {as bs : List UInt8} (ha : Valid as) (hb : Valid bs) : Valid (as ++ bs) := by
  induction ha with
  | nil => exact hb
  | char hc _ ih =>
    rw [List.append_assoc]
    exact .char hc ih

theorem Straddles.valid {as bs : List UInt8} (h : Straddles as bs) : Valid (as ++ bs) := by
  obtain ⟨before,left,right,after,rfl,rfl,-,-,hc,hbefore,hafter⟩ := h
  have hall : before ++ left ++ (right ++ after) = before ++ ((left ++ right) ++ after) := by simp
  rw [hall]
  exact hbefore.append (.char hc hafter)

theorem scan_matched {needed : List Range} {as bs : List UInt8}
    (h : List.Forall₂ Range.Has needed (as ++ bs)) :
    scan needed as = some (needed.drop as.length) := by
  induction as generalizing needed with
  | nil => rfl
  | cons a as ih =>
    cases h with
    | cons ha hrest => simp [scan,ha,ih hrest]

/-- The beginning of a character is not valid. -/
theorem not_valid_of_isChar {left right : List UInt8} (hleft : left ≠ []) (hright : right ≠ [])
    (h : IsChar (left ++ right)) : ¬ Valid left := by
  obtain ⟨f,hf,hmatch⟩ := h
  cases left with
  | nil => exact absurd rfl hleft
  | cons b left =>
    cases hmatch with
    | cons hb hneeded =>
      have hlead : lead b = some f.2 := lead_eq_some.mpr ⟨f,hf,hb,rfl⟩
      have hlength : f.2.length = left.length + right.length := by
        rw [hneeded.length_eq]
        exact List.length_append
      have hpos := List.length_pos_iff.mpr hright
      rw [valid_iff,scan,hlead,Option.bind_some,scan_matched hneeded,Option.some.injEq,
        List.drop_eq_nil_iff]
      omega

theorem Valid.append_iff {as bs : List UInt8} (ha : Valid as) : Valid (as ++ bs) ↔ Valid bs := by
  rw [valid_iff,scan_append,valid_iff.mp ha,valid_iff]
  rfl

theorem Straddles.not_valid {as bs : List UInt8} (h : Straddles as bs) : ¬ Valid as := by
  obtain ⟨before,left,right,after,rfl,-,hleft,hright,hc,hbefore,-⟩ := h
  rw [hbefore.append_iff]
  exact not_valid_of_isChar hleft hright hc

/-- A valid string falls into two valid ones, or a character lies across the boundary. -/
theorem Valid.split {all as bs : List UInt8} (h : Valid all) (hall : all = as ++ bs) :
    Valid as ∨ Straddles as bs := by
  induction h generalizing as with
  | nil =>
    obtain ⟨rfl,-⟩ := List.append_eq_nil_iff.mp hall.symm
    exact .inl .nil
  | @char c rest hc hrest ih =>
    obtain ⟨more,rfl,hmore⟩ | ⟨more,rfl,rfl⟩ := List.append_eq_append_iff.mp hall
    · -- the first character lies in `as`
      obtain hvalid | ⟨before,left,right,after,rfl,hbs,hleft,hright,hlr,hbefore,hafter⟩ := ih hmore
      · exact .inl (.char hc hvalid)
      · refine .inr ⟨c ++ before,left,right,after,by simp,hbs,hleft,hright,hlr,?_,hafter⟩
        exact .char hc hbefore
    · cases as with
      | nil => exact .inl .nil
      | cons a as =>
        cases more with
        | nil =>
          rw [List.append_nil] at hc
          exact .inl (by simpa using Valid.char hc .nil)
        | cons m more =>
          exact .inr ⟨[],a::as,m::more,rest,rfl,rfl,by simp,by simp,hc,.nil,hrest⟩

theorem valid_append_of_not_valid {as bs : List UInt8} (ha : ¬ Valid as) :
    Valid (as ++ bs) ↔ Straddles as bs := by
  constructor
  · intro h
    obtain hvalid | hstraddles := h.split rfl
    · exact absurd hvalid ha
    · exact hstraddles
  · exact Straddles.valid

/-! ## Sequences

Text that is only as long as its first bytes say: a sequence may spell a code point that has a
shorter one, a surrogate, or a number beyond the last code point. -/

/-- The forms of a character by the leading bits of its bytes alone. -/
def shapes : List (Range × List Range) := [
  (⟨0x00,0x7F⟩,[]),
  (⟨0xC0,0xDF⟩,[tail]),
  (⟨0xE0,0xEF⟩,[tail,tail]),
  (⟨0xF0,0xF7⟩,[tail,tail,tail])]

def IsSequence (c : List UInt8) : Prop := ∃ f ∈ shapes, List.Forall₂ Range.Has (f.1::f.2) c

/-- The number that the payload bits of a sequence make up. -/
def codePoint : List UInt8 → ℕ
  | [a] => a.toNat
  | [a,b] => a.toNat % 32 * 64 + b.toNat % 64
  | [a,b,c] => a.toNat % 16 * 4096 + b.toNat % 64 * 64 + c.toNat % 64
  | [a,b,c,d] => a.toNat % 8 * 262144 + b.toNat % 64 * 4096 + c.toNat % 64 * 64 + d.toNat % 64
  | _ => 0

/-- The least code point that needs a sequence of this length. -/
def least : ℕ → ℕ
  | 2 => 0x80
  | 3 => 0x800
  | 4 => 0x10000
  | _ => 0

def Overlong (c : List UInt8) : Prop := codePoint c < least c.length

def Surrogate (c : List UInt8) : Prop := 0xD800 ≤ codePoint c ∧ codePoint c ≤ 0xDFFF

def TooLarge (c : List UInt8) : Prop := 0x10FFFF < codePoint c

theorem isChar_iff (c : List UInt8) :
    IsChar c ↔ IsSequence c ∧ ¬ Overlong c ∧ ¬ Surrogate c ∧ ¬ TooLarge c := by
  rcases c with _ | ⟨a,_ | ⟨b,_ | ⟨c,_ | ⟨d,_ | ⟨e,rest⟩⟩⟩⟩⟩
  all_goals simp [IsChar,IsSequence,forms,shapes,Range.Has,tail,UInt8.le_iff_toNat_le,Overlong,
    Surrogate,TooLarge,codePoint,least]
  -- for each length the ranges of the bytes against the code point
  all_goals omega

/-- A string of bytes cut into sequences. -/
structure Splits (cs : List (List UInt8)) (bs : List UInt8) : Prop where
  flatten_eq : cs.flatten = bs
  isSequence : ∀ c ∈ cs, IsSequence c

def Shaped (bs : List UInt8) : Prop := ∃ cs, Splits cs bs

/-- The first byte says how long a sequence is. -/
theorem IsSequence.length_eq {b : UInt8} {c c' : List UInt8} (h : IsSequence (b::c))
    (h' : IsSequence (b::c')) : c.length = c'.length := by
  obtain ⟨f,hf,hmatch⟩ := h
  obtain ⟨g,hg,hmatch'⟩ := h'
  have hdisjoint : ∀ f ∈ shapes, ∀ g ∈ shapes,
      f = g ∨ f.1.high < g.1.low ∨ g.1.high < f.1.low := by decide
  cases hmatch with
  | cons hb hneeded =>
    cases hmatch' with
    | cons hb' hneeded' =>
      obtain rfl | hlt | hlt := hdisjoint f hf g hg
      · rw [← hneeded.length_eq,← hneeded'.length_eq]
      · exact absurd hb' (Range.not_has_of_lt hlt hb)
      · exact absurd hb (Range.not_has_of_lt hlt hb')

theorem IsSequence.ne_nil {c : List UInt8} (h : IsSequence c) : c ≠ [] := by
  rintro rfl
  obtain ⟨f,-,hmatch⟩ := h
  cases hmatch

/-- A string begins with at most one sequence. -/
theorem IsSequence.append_inj {c c' rest rest' : List UInt8} (h : IsSequence c)
    (h' : IsSequence c') (heq : c ++ rest = c' ++ rest') : c = c' ∧ rest = rest' := by
  cases c with
  | nil => exact absurd rfl h.ne_nil
  | cons b c =>
    cases c' with
    | nil => exact absurd rfl h'.ne_nil
    | cons b' c' =>
      obtain ⟨rfl,-⟩ := List.cons.inj heq
      have hlength := h.length_eq h'
      exact List.append_inj heq (by rw [List.length_cons,List.length_cons,hlength])

theorem shaped_nil : Shaped [] := ⟨[],rfl,nofun⟩

theorem shaped_append {c bs : List UInt8} (hc : IsSequence c) : Shaped (c ++ bs) ↔ Shaped bs := by
  constructor
  · rintro ⟨cs,hflatten,hall⟩
    cases cs with
    | nil => exact absurd (List.append_eq_nil_iff.mp hflatten.symm).1 hc.ne_nil
    | cons d ds =>
      obtain ⟨hd,hds⟩ := List.forall_mem_cons.mp hall
      obtain ⟨-,hrest⟩ := hc.append_inj hd hflatten.symm
      exact ⟨ds,hrest.symm,hds⟩
  · rintro ⟨cs,hflatten,hall⟩
    refine ⟨c::cs,?_,List.forall_mem_cons.mpr ⟨hc,hall⟩⟩
    rw [List.flatten_cons,hflatten]

/-- A string that is not empty and falls into sequences begins with one. -/
theorem Shaped.exists_append {bs : List UInt8} (h : Shaped bs) (hne : bs ≠ []) :
    ∃ c rest, bs = c ++ rest ∧ IsSequence c := by
  obtain ⟨cs,hflatten,hall⟩ := h
  cases cs with
  | nil => exact absurd hflatten.symm hne
  | cons c cs => exact ⟨c,cs.flatten,hflatten.symm,hall c List.mem_cons_self⟩

theorem IsChar.isSequence {c : List UInt8} (h : IsChar c) : IsSequence c := ((isChar_iff c).mp h).1

/-- A string that falls into sequences is valid exactly if each of them is a character. -/
theorem Splits.valid_iff {cs : List (List UInt8)} {bs : List UInt8} (h : Splits cs bs) :
    Valid bs ↔ ∀ c ∈ cs, IsChar c := by
  obtain ⟨hflatten,hall⟩ := h
  constructor
  · intro hvalid
    induction hvalid generalizing cs with
    | nil =>
      intro c hc
      exact absurd (List.flatten_eq_nil_iff.mp hflatten c hc) (hall c hc).ne_nil
    | @char d rest hd hrest ih =>
      cases cs with
      | nil => exact absurd (List.append_eq_nil_iff.mp hflatten.symm).1 hd.isSequence.ne_nil
      | cons c cs =>
        obtain ⟨hc,hcs⟩ := List.forall_mem_cons.mp hall
        obtain ⟨rfl,htail⟩ := hc.append_inj hd.isSequence hflatten
        exact List.forall_mem_cons.mpr ⟨hd,ih htail hcs⟩
  · intro hchars
    rw [← hflatten]
    clear hflatten hall
    induction cs with
    | nil => exact .nil
    | cons c cs ih =>
      obtain ⟨hc,hcs⟩ := List.forall_mem_cons.mp hchars
      exact .char hc (ih hcs)

theorem Valid.shaped {bs : List UInt8} (h : Valid bs) : Shaped bs := by
  induction h with
  | nil => exact shaped_nil
  | char hc _ ih => exact (shaped_append hc.isSequence).mpr ih

end Utf8
end UProtocols
