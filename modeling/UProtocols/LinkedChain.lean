import Mathlib.Data.List.Nodup
import Mathlib.Logic.Function.Basic
import Mathlib.Logic.Relation

/-!
# Linked chains

A list in memory: distinct nodes, each with a pointer to the node behind it. A
position in the chain is written `chain[k]? = some a`; it never changes while the
chain only grows at its end.
-/

namespace UProtocols

variable {α : Type}

structure LinkedChain (next : α → Option α) (chain : List α) : Prop where
  nodup : chain.Nodup
  next_eq : ∀ {k : ℕ} {a : α}, chain[k]? = some a → next a = chain[k + 1]?

theorem getElem?_of_isPrefix {xs ys : List α} (h : xs <+: ys) {k : ℕ} {a : α}
    (hk : xs[k]? = some a) : ys[k]? = some a := by
  obtain ⟨zs,rfl⟩ := h
  rw [List.getElem?_append_left (List.getElem?_eq_some_iff.mp hk).1,hk]

/-- A value found in a table after one entry was replaced. -/
theorem update_eq_some {ι : Type} [DecidableEq ι] {table : ι → Option α} {i j : ι} {c : Option α}
    {d : α} (h : Function.update table i c j = some d) :
    (j = i ∧ c = some d) ∨ (j ≠ i ∧ table j = some d) := by
  by_cases hji : j = i
  · subst hji
    rw [Function.update_self] at h
    exact .inl ⟨rfl,h⟩
  · rw [Function.update_of_ne hji] at h
    exact .inr ⟨hji,h⟩

namespace LinkedChain

variable {next next' : α → Option α} {chain : List α} {a : α} {j k : ℕ}

theorem index_unique (h : LinkedChain next chain) (hj : chain[j]? = some a)
    (hk : chain[k]? = some a) : j = k :=
  (List.getElem?_inj (List.getElem?_eq_some_iff.mp hj).1 h.nodup).mp (hj.trans hk.symm)

/-- Only the last node points to nothing. -/
theorem length_of_next_none (h : LinkedChain next chain) (hk : chain[k]? = some a)
    (hnone : next a = none) : chain.length = k + 1 := by
  have hlt := (List.getElem?_eq_some_iff.mp hk).1
  rw [h.next_eq hk,List.getElem?_eq_none_iff] at hnone
  omega

theorem congr (h : LinkedChain next chain) (heq : ∀ a ∈ chain, next' a = next a) :
    LinkedChain next' chain where
  nodup := h.nodup
  next_eq := by
    intro k a hk
    rw [heq a (List.mem_of_getElem? hk),h.next_eq hk]

/-- Pointing the last node to a new one appends it. -/
theorem snoc [DecidableEq α] (h : LinkedChain next chain) (hk : chain[k]? = some a)
    (hnone : next a = none) {node : α} (hnode : node ∉ chain) (hnew : next node = none) :
    LinkedChain (Function.update next a (some node)) (chain ++ [node]) where
  nodup := by
    apply h.nodup.append (List.nodup_singleton node)
    simpa using hnode
  next_eq := by
    intro i b hi
    have hlen := h.length_of_next_none hk hnone
    have hne : node ≠ a := fun heq => hnode (heq ▸ List.mem_of_getElem? hk)
    by_cases hlt : i < chain.length
    · rw [List.getElem?_append_left hlt] at hi
      by_cases hb : b = a
      · subst hb
        have hik : i = k := h.index_unique hi hk
        subst hik
        simp [← hlen]
      · have hik : i ≠ k := by
          rintro rfl
          exact hb (Option.some.inj (hi.symm.trans hk))
        rw [Function.update_of_ne hb,h.next_eq hi,List.getElem?_append_left (by omega)]
    · have hi' := (List.getElem?_eq_some_iff.mp hi).1
      rw [List.length_append,List.length_singleton] at hi'
      have heq : i = chain.length := by omega
      subst heq
      have hb : b = node := by simpa using hi.symm
      subst hb
      rw [Function.update_of_ne hne,hnew]
      simp

/-- Freeing the first node leaves the chain of the others. -/
theorem tail {first : α} (h : LinkedChain next (first::chain)) : LinkedChain next chain where
  nodup := h.nodup.of_cons
  next_eq := fun hk => h.next_eq hk

theorem reaches (h : LinkedChain next chain) {b : α} (hj : chain[j]? = some a)
    (hk : chain[k]? = some b) (hjk : j ≤ k) :
    Relation.ReflTransGen (fun x y => next x = some y) a b := by
  obtain ⟨d,rfl⟩ := Nat.exists_eq_add_of_le hjk
  clear hjk
  induction d generalizing b with
  | zero =>
    cases hj.symm.trans hk
    exact .refl
  | succ d ih =>
    have hlt : j + d < chain.length := Nat.lt_of_succ_lt (List.getElem?_eq_some_iff.mp hk).1
    have hat : chain[j + d]? = some chain[j + d] := List.getElem?_eq_getElem hlt
    exact (ih hat).tail ((h.next_eq hat).trans hk)

/-- Pointers only lead on along the chain. -/
theorem index_of_reaches (h : LinkedChain next chain) {b : α} (hj : chain[j]? = some a)
    (hab : Relation.ReflTransGen (fun x y => next x = some y) a b) :
    ∃ k, j ≤ k ∧ chain[k]? = some b := by
  induction hab with
  | refl => exact ⟨j,Nat.le_refl j,hj⟩
  | tail _ hstep ih =>
    obtain ⟨k,hjk,hk⟩ := ih
    exact ⟨k + 1,Nat.le_succ_of_le hjk,(h.next_eq hk).symm.trans hstep⟩

end LinkedChain
end UProtocols
