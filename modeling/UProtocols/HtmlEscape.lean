import Mathlib.Data.Char
import UProtocols.Escaping

/-!
# Escaping for HTML

`html_escape` of `websocket_input_validation.rs` replaces the six characters one after the other in
a `str`; `htmlEscape` of `websocket_input_validation.cpp` goes once over the bytes of a
`std::string`.
-/

namespace UProtocols
namespace HtmlEscape

open Escaping

def Rust.htmlEscape (input : List Char) : List Char :=
  let input := replace '&' "&amp;".toList input
  let input := replace '<' "&lt;".toList input
  let input := replace '>' "&gt;".toList input
  let input := replace '"' "&quot;".toList input
  let input := replace '\'' "&#x27;".toList input
  replace '/' "&#x2F;".toList input

/-- The bytes of a `str`. -/
def utf8 (input : List Char) : List UInt8 := input.flatMap String.utf8EncodeChar

/-- A character literal of one byte. -/
def byte (c : Char) : UInt8 := UInt8.ofNat c.toNat

/-- What the `switch` appends for a character. -/
def Cpp.appended (c : UInt8) : List UInt8 :=
  if c = byte '&' then utf8 "&amp;".toList
  else if c = byte '<' then utf8 "&lt;".toList
  else if c = byte '>' then utf8 "&gt;".toList
  else if c = byte '"' then utf8 "&quot;".toList
  else if c = byte '\'' then utf8 "&#x27;".toList
  else if c = byte '/' then utf8 "&#x2F;".toList
  else [c]

def Cpp.htmlEscape (input : List UInt8) : List UInt8 :=
  input.foldl (fun escaped c => escaped ++ Cpp.appended c) []

/-! ## The two as tables -/

def entities : List (Char × List Char) := [
  ('&',"&amp;".toList),
  ('<',"&lt;".toList),
  ('>',"&gt;".toList),
  ('"',"&quot;".toList),
  ('\'',"&#x27;".toList),
  ('/',"&#x2F;".toList)]

def byteEntities : List (UInt8 × List UInt8) := entities.map fun e => (byte e.1,utf8 e.2)

theorem marked_entities : Marked '&' entities := by
  constructor <;> decide

theorem marked_byteEntities : Marked (byte '&') byteEntities := by
  constructor <;> decide

theorem Rust.htmlEscape_eq (input : List Char) : Rust.htmlEscape input = escape entities input := by
  have hlater : entities.Pairwise fun e f => f.1 ∉ e.2 := by decide
  rw [← replaceAll_eq_escape hlater]
  simp only [Rust.htmlEscape,replaceAll,entities,List.foldl_cons,List.foldl_nil]

theorem Cpp.appended_eq (c : UInt8) : Cpp.appended c = escapeSymbol byteEntities c := by
  simp only [Cpp.appended,byteEntities,entities,List.map_cons,List.map_nil,escapeSymbol_cons,
    escapeSymbol_nil]

theorem Cpp.htmlEscape_eq (input : List UInt8) :
    Cpp.htmlEscape input = escape byteEntities input := by
  rw [Cpp.htmlEscape,← List.flatMap_eq_foldl,escape]
  congr 1
  funext c
  exact Cpp.appended_eq c

/-! ## Characters and bytes -/

/-- A byte below 0x80 is a character of its own. -/
theorem eq_byte_of_mem {c : Char} {b : UInt8} (hb : b ∈ String.utf8EncodeChar c) (hlt : b < 0x80) :
    b = byte c ∧ c.toNat < 0x80 := by
  rw [UInt8.lt_iff_toNat_lt] at hlt
  change b.toNat < 128 at hlt
  have hval : c.val.toNat = c.toNat := rfl
  have hlow : ∀ n, b = UInt8.ofNat n → n % 256 < 128 := by
    rintro n rfl
    rwa [UInt8.toNat_ofNat'] at hlt
  rw [String.utf8EncodeChar,hval] at hb
  -- a character of more than one byte has a bit above the lowest seven in each
  split at hb
  · exact ⟨List.mem_singleton.mp hb,by omega⟩
  · split at hb
    · simp only [List.mem_cons,List.not_mem_nil,or_false] at hb
      rcases hb with hb | hb <;> have hsmall := hlow _ hb <;> omega
    · split at hb
      · simp only [List.mem_cons,List.not_mem_nil,or_false] at hb
        rcases hb with hb | hb | hb <;> have hsmall := hlow _ hb <;> omega
      · simp only [List.mem_cons,List.not_mem_nil,or_false] at hb
        rcases hb with hb | hb | hb | hb <;> have hsmall := hlow _ hb <;> omega

theorem byte_inj {c d : Char} (hc : c.toNat < 0x80) (hd : d.toNat < 0x80) (h : byte c = byte d) :
    c = d := by
  have hnat := congrArg UInt8.toNat h
  rw [byte,byte,UInt8.toNat_ofNat',UInt8.toNat_ofNat'] at hnat
  exact Char.toNat_inj.mp (by omega)

theorem escape_utf8EncodeChar (c : Char) :
    escape byteEntities (String.utf8EncodeChar c) = utf8 (escapeSymbol entities c) := by
  obtain ⟨hstays,hc⟩ | ⟨e,he,rfl,hword⟩ := escapeSymbol_cases entities c
  · have hbytes : ∀ e ∈ byteEntities, e.1 ∉ String.utf8EncodeChar c := by
      have hascii : ∀ e ∈ entities, byte e.1 < 0x80 ∧ e.1.toNat < 0x80 := by decide
      intro f hf hmem
      obtain ⟨e,he,rfl⟩ := List.mem_map.mp hf
      obtain ⟨heq,hlt⟩ := eq_byte_of_mem hmem (hascii e he).1
      exact hc e he (byte_inj (hascii e he).2 hlt heq)
    rw [escape_of_not_mem hbytes,hstays,utf8,List.flatMap_singleton]
  · rw [hword]
    have htable : ∀ e ∈ entities, escape byteEntities (String.utf8EncodeChar e.1) = utf8 e.2 := by
      decide
    exact htable e he

theorem escape_utf8 (input : List Char) :
    escape byteEntities (utf8 input) = utf8 (escape entities input) := by
  rw [escape,utf8,List.flatMap_assoc,utf8,escape,List.flatMap_assoc]
  congr 1
  funext c
  exact escape_utf8EncodeChar c

/-- Both functions give the same text, and each of them keeps what it escapes. -/
theorem htmlEscape_agree_and_escape :
    (∀ input, Cpp.htmlEscape (utf8 input) = utf8 (Rust.htmlEscape input)) ∧
      Escapes '&' entities Rust.htmlEscape ∧ Function.Injective Rust.htmlEscape ∧
      Escapes (byte '&') byteEntities Cpp.htmlEscape ∧ Function.Injective Cpp.htmlEscape := by
  have hrust : Rust.htmlEscape = escape entities := funext Rust.htmlEscape_eq
  have hcpp : Cpp.htmlEscape = escape byteEntities := funext Cpp.htmlEscape_eq
  rw [hrust,hcpp]
  have hchars := escapes_escape marked_entities
  have hbytes := escapes_escape marked_byteEntities
  exact ⟨escape_utf8,hchars,hchars.injective,hbytes,hbytes.injective⟩

end HtmlEscape
end UProtocols
