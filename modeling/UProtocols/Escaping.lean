import Mathlib.Data.List.Basic
import Mathlib.Data.List.Infix
import Mathlib.Logic.Function.Defs

/-!
# Escaping by a table

A table gives some symbols a word each. `replaceAll` replaces the symbols one after the other, so
that later replacements go over the words that earlier ones put in; `escape` replaces all of them
in one pass. Where every word begins with the same marker, `unescape` undoes the pass.
-/

namespace UProtocols
namespace Escaping

variable {α : Type}

/-- A table whose words begin with the marker, have no other key in them and none of which begins
another. -/
structure Marked (marker : α) (table : List (α × List α)) : Prop where
  isKey : marker ∈ table.map Prod.fst
  head_eq : ∀ e ∈ table, e.2.head? = some marker
  not_mem_tail : ∀ e ∈ table, ∀ f ∈ table, f.1 ∉ e.2.tail
  prefixFree : ∀ e ∈ table, ∀ f ∈ table, e.2 <+: f.2 → e = f

section Marked

variable {marker : α} {table : List (α × List α)} (h : Marked marker table)

include h

theorem Marked.word_eq {e : α × List α} (he : e ∈ table) : e.2 = marker::e.2.tail := by
  have hhead := h.head_eq e he
  cases hword : e.2 with
  | nil =>
    rw [hword] at hhead
    cases hhead
  | cons x word =>
    rw [hword] at hhead
    cases hhead
    rfl

theorem Marked.not_mem_word {e f : α × List α} (he : e ∈ table) (hf : f ∈ table)
    (hne : f.1 ≠ marker) : f.1 ∉ e.2 := by
  rw [h.word_eq he,List.mem_cons]
  exact not_or.mpr ⟨hne,h.not_mem_tail e he f hf⟩

theorem Marked.marker_not_mem_tail {e : α × List α} (he : e ∈ table) : marker ∉ e.2.tail := by
  obtain ⟨f,hf,hkey⟩ := List.mem_map.mp h.isKey
  rw [← hkey]
  exact h.not_mem_tail e he f hf

theorem Marked.ne_of_forall_ne {x : α} (hx : ∀ e ∈ table, e.1 ≠ x) : x ≠ marker := by
  obtain ⟨f,hf,hkey⟩ := List.mem_map.mp h.isKey
  rw [← hkey]
  exact (hx f hf).symm

/-- The word at the beginning of a string is the only one there. -/
theorem Marked.eq_of_prefix {e f : α × List α} (he : e ∈ table) (hf : f ∈ table) {xs : List α}
    (hexs : e.2 <+: xs) (hfxs : f.2 <+: xs) : e = f := by
  obtain hef | hfe := List.prefix_or_prefix_of_prefix hexs hfxs
  · exact h.prefixFree e he f hf hef
  · exact (h.prefixFree f hf e he hfe).symm

end Marked

variable [DecidableEq α]

/-- Put `word` in the place of every `key`. -/
def replace (key : α) (word xs : List α) : List α :=
  xs.flatMap fun x => if x = key then word else [x]

/-- Replace the keys of a table in the order of its entries. -/
def replaceAll (table : List (α × List α)) (xs : List α) : List α :=
  table.foldl (fun acc e => replace e.1 e.2 acc) xs

def escapeSymbol (table : List (α × List α)) (x : α) : List α :=
  match table.find? (·.1 = x) with
  | some e => e.2
  | none => [x]

def escape (table : List (α × List α)) (xs : List α) : List α := xs.flatMap (escapeSymbol table)

/-- Go through `xs` and put the key in the place of the word that begins at a position, after as
many symbols as the last word still takes. -/
def unescapeAfter (table : List (α × List α)) : ℕ → List α → List α
  | _, [] => []
  | skip + 1, _::xs => unescapeAfter table skip xs
  | 0, x::xs =>
    match table.find? fun e => e.2.isPrefixOf (x::xs) with
    | some e => e.1::unescapeAfter table (e.2.length - 1) xs
    | none => x::unescapeAfter table 0 xs

def unescape (table : List (α × List α)) (xs : List α) : List α := unescapeAfter table 0 xs

/-- The keys other than the marker do not occur in what `f` gives, every marker there begins a
word, and going over it once gives back what it was made from. -/
structure Escapes (marker : α) (table : List (α × List α)) (f : List α → List α) : Prop where
  not_mem : ∀ xs, ∀ e ∈ table, e.1 ≠ marker → e.1 ∉ f xs
  word_begins : ∀ xs before after, f xs = before ++ marker::after →
    ∃ e ∈ table, e.2 <+: marker::after
  unescape_eq : ∀ xs, unescape table (f xs) = xs

theorem Escapes.injective {marker : α} {table : List (α × List α)} {f : List α → List α}
    (h : Escapes marker table f) : Function.Injective f := by
  intro xs ys heq
  rw [← h.unescape_eq xs,heq,h.unescape_eq ys]

/-! ## One pass and several -/

theorem escapeSymbol_nil (x : α) : escapeSymbol [] x = [x] := rfl

theorem escapeSymbol_cons (e : α × List α) (table : List (α × List α)) (x : α) :
    escapeSymbol (e::table) x = if x = e.1 then e.2 else escapeSymbol table x := by
  by_cases hx : x = e.1
  · simp [escapeSymbol,hx]
  · simp [escapeSymbol,hx,Ne.symm hx]

theorem escapeSymbol_of_not_mem {table : List (α × List α)} {x : α}
    (h : ∀ e ∈ table, e.1 ≠ x) : escapeSymbol table x = [x] := by
  have hnone : table.find? (·.1 = x) = none := by
    rw [List.find?_eq_none]
    intro e he
    rw [decide_eq_true_eq]
    exact h e he
  rw [escapeSymbol,hnone]

/-- A symbol either stays or is a key, and its word takes its place. -/
theorem escapeSymbol_cases (table : List (α × List α)) (x : α) :
    (escapeSymbol table x = [x] ∧ ∀ e ∈ table, e.1 ≠ x) ∨
      ∃ e ∈ table, e.1 = x ∧ escapeSymbol table x = e.2 := by
  cases hfind : table.find? (·.1 = x) with
  | none =>
    have hall : ∀ e ∈ table, e.1 ≠ x := by simpa [List.find?_eq_none] using hfind
    exact .inl ⟨escapeSymbol_of_not_mem hall,hall⟩
  | some e =>
    refine .inr ⟨e,List.mem_of_find?_eq_some hfind,?_,by rw [escapeSymbol,hfind]⟩
    simpa using List.find?_some hfind

theorem escape_of_not_mem {table : List (α × List α)} {xs : List α}
    (h : ∀ e ∈ table, e.1 ∉ xs) : escape table xs = xs := by
  induction xs with
  | nil => rfl
  | cons x xs ih =>
    have hx : ∀ e ∈ table, e.1 ≠ x := fun e he heq => h e he (heq ▸ List.mem_cons_self)
    have hxs : ∀ e ∈ table, e.1 ∉ xs := fun e he hmem => h e he (List.mem_cons_of_mem x hmem)
    rw [escape,List.flatMap_cons,escapeSymbol_of_not_mem hx,List.singleton_append]
    exact congrArg (x::·) (ih hxs)

/-- Where no word has a later key in it, the replacements do not meddle with one another. -/
theorem replaceAll_eq_escape {table : List (α × List α)}
    (h : table.Pairwise fun e f => f.1 ∉ e.2) (xs : List α) :
    replaceAll table xs = escape table xs := by
  induction h generalizing xs with
  | nil => exact (List.flatMap_pure_eq_map id xs).trans (List.map_id xs) |>.symm
  | @cons e table he _ ih =>
    change replaceAll table (replace e.1 e.2 xs) = escape (e::table) xs
    rw [ih,replace,escape,List.flatMap_assoc,escape]
    congr 1
    funext x
    rw [escapeSymbol_cons]
    by_cases hx : x = e.1
    · rw [if_pos hx,if_pos hx]
      exact escape_of_not_mem he
    · rw [if_neg hx,if_neg hx,List.flatMap_cons,List.flatMap_nil,List.append_nil]

/-! ## What a marked table gives -/

section Marked

variable {marker : α} {table : List (α × List α)} (h : Marked marker table)

include h

theorem not_mem_escape (xs : List α) {f : α × List α} (hf : f ∈ table) (hne : f.1 ≠ marker) :
    f.1 ∉ escape table xs := by
  rw [escape,List.mem_flatMap]
  rintro ⟨x,-,hmem⟩
  obtain ⟨hstays,hx⟩ | ⟨e,he,-,hword⟩ := escapeSymbol_cases table x
  · rw [hstays,List.mem_singleton] at hmem
    exact hx f hf hmem
  · rw [hword] at hmem
    exact h.not_mem_word he hf hne hmem

/-- A marker inside the escape of one symbol is where its word begins. -/
theorem word_begins_symbol {x : α} {before after : List α}
    (heq : escapeSymbol table x = before ++ marker::after) :
    ∃ e ∈ table, e.2 = marker::after := by
  obtain ⟨hstays,hx⟩ | ⟨e,he,-,hword⟩ := escapeSymbol_cases table x
  · have hmem : marker ∈ [x] := by
      rw [← hstays,heq]
      exact List.mem_append_right before List.mem_cons_self
    exact absurd (List.mem_singleton.mp hmem).symm (h.ne_of_forall_ne hx)
  · rw [hword,h.word_eq he] at heq
    refine ⟨e,he,?_⟩
    cases before with
    | nil => rw [h.word_eq he,heq,List.nil_append]
    | cons y before =>
      refine absurd ?_ (h.marker_not_mem_tail he)
      rw [(List.cons.inj heq).2]
      exact List.mem_append_right before List.mem_cons_self

theorem word_begins_escape (xs : List α) {before after : List α}
    (heq : escape table xs = before ++ marker::after) : ∃ e ∈ table, e.2 <+: marker::after := by
  induction xs generalizing before with
  | nil => simp [escape] at heq
  | cons x xs ih =>
    rw [escape,List.flatMap_cons] at heq
    obtain ⟨front,hfront,hrest⟩ | ⟨back,hback,hrest⟩ := List.append_eq_append_iff.mp heq
    · exact ih hrest
    · cases back with
      | nil => exact @ih [] (by simpa [escape] using hrest.symm)
      | cons y back =>
        obtain ⟨rfl,rfl⟩ := List.cons.inj hrest
        obtain ⟨e,he,hword⟩ := word_begins_symbol h hback
        refine ⟨e,he,?_⟩
        rw [hword]
        exact List.prefix_append (marker::back) _

theorem unescape_word_append {e : α × List α} (he : e ∈ table) (xs : List α) :
    unescape table (e.2 ++ xs) = e.1::unescape table xs := by
  have hskip : ∀ word : List α,
      unescapeAfter table word.length (word ++ xs) = unescape table xs := by
    intro word
    induction word with
    | nil => rfl
    | cons y word ih => exact ih
  have hfind : table.find? (fun f => f.2.isPrefixOf (e.2 ++ xs)) = some e := by
    cases hsome : table.find? (fun f => f.2.isPrefixOf (e.2 ++ xs)) with
    | none =>
      have hnot := List.find?_eq_none.mp hsome e he
      exact absurd (List.isPrefixOf_iff_prefix.mpr (List.prefix_append e.2 xs)) hnot
    | some f =>
      have hprefix : f.2 <+: e.2 ++ xs := by simpa using List.find?_some hsome
      rw [h.eq_of_prefix (List.mem_of_find?_eq_some hsome) he hprefix (List.prefix_append e.2 xs)]
  have hword := h.word_eq he
  rw [hword] at hfind ⊢
  rw [unescape,List.cons_append,unescapeAfter,← List.cons_append,hfind]
  change e.1::unescapeAfter table (e.2.length - 1) (e.2.tail ++ xs) = _
  rw [← List.length_tail,hskip]

theorem unescape_cons_of_ne {x : α} (hx : x ≠ marker) (xs : List α) :
    unescape table (x::xs) = x::unescape table xs := by
  have hnone : table.find? (fun e => e.2.isPrefixOf (x::xs)) = none := by
    rw [List.find?_eq_none]
    intro e he hprefix
    rw [List.isPrefixOf_iff_prefix,h.word_eq he,List.cons_prefix_cons] at hprefix
    exact hx hprefix.1.symm
  rw [unescape,unescapeAfter,hnone]
  rfl

theorem unescape_escape (xs : List α) : unescape table (escape table xs) = xs := by
  induction xs with
  | nil => rfl
  | cons x xs ih =>
    change unescape table (escapeSymbol table x ++ escape table xs) = x::xs
    obtain ⟨hstays,hx⟩ | ⟨e,he,hkey,hword⟩ := escapeSymbol_cases table x
    · rw [hstays,List.singleton_append,unescape_cons_of_ne h (h.ne_of_forall_ne hx),ih]
    · rw [hword,unescape_word_append h he,ih,hkey]

theorem escapes_escape : Escapes marker table (escape table) where
  not_mem := fun xs _ he hne => not_mem_escape h xs he hne
  word_begins := fun xs _ _ heq => word_begins_escape h xs heq
  unescape_eq := unescape_escape h

end Marked

end Escaping
end UProtocols
