import Mathlib.Data.List.Basic

/-!
# Words joined by a separator

The words of a list joined by one symbol. A word without the symbol is found in the joined text
only within one of the words.
-/

namespace UProtocols
namespace JoinedWords

variable {α β : Type} {sep : α}

theorem not_prefix_cons {word rest : List α} (hne : word ≠ []) (hsep : sep ∉ word) :
    ¬ word <+: sep::rest := by
  intro h
  cases word with
  | nil => exact hne rfl
  | cons c word =>
    rw [(List.cons_prefix_cons.mp h).1] at hsep
    exact hsep List.mem_cons_self

theorem infix_intercalate_iff {word : List α} (hne : word ≠ []) (hsep : sep ∉ word)
    (words : List (List α)) :
    word <:+: [sep].intercalate words ↔ ∃ w ∈ words, word <:+: w := by
  induction words with
  | nil => simp [hne]
  | cons w words ih =>
    cases words with
    | nil => simp
    | cons v words =>
      rw [List.intercalate_cons_cons,List.append_assoc,List.singleton_append,
        List.infix_append_iff_ne_nil,List.infix_cons_iff,List.exists_mem_cons_iff]
      apply or_congr_right
      apply Iff.trans _ ih
      constructor
      · rintro ((h | h) | ⟨left,right,-,hright,rfl,-,h⟩)
        · exact absurd h (not_prefix_cons hne hsep)
        · exact h
        · have hmem : sep ∉ right := fun hright => hsep (List.mem_append_right _ hright)
          exact absurd h (not_prefix_cons hright hmem)
      · intro h
        exact Or.inl (Or.inr h)

/-- Words that are encoded symbol by symbol are joined by the encoded separator. -/
theorem flatMap_intercalate (f : α → List β) (words : List (List α)) :
    ([sep].intercalate words).flatMap f = (f sep).intercalate (words.map (List.flatMap f)) := by
  induction words with
  | nil => rfl
  | cons w words ih =>
    cases words with
    | nil => simp
    | cons v words =>
      simp only [List.intercalate_cons_cons,List.map_cons,List.flatMap_append] at ih ⊢
      rw [ih,List.flatMap_singleton]

end JoinedWords
end UProtocols
