import Mathlib.Logic.Relation
import Mathlib.Data.List.Basic
import Mathlib.Order.Basic
import Mathlib.Order.Lattice

/-!
# Ordered channels

What a numbered message channel is for, apart from any protocol: messages are put in
one after the other, and the receiver hands out the message under its next number
and moves on, possibly past messages it never hands out. `Ordered` holds of every
reachable channel; a channel that never skips hands out a prefix of what was put in.
-/

namespace UProtocols

/-- `next` is the first number not yet passed, `delivered` the numbers handed out. -/
structure Channel (α : Type) where
  sent : List α
  next : ℕ
  delivered : List ℕ

namespace Channel

variable {α : Type}

def empty : Channel α := ⟨[],0,[]⟩

inductive Step : Channel α → Channel α → Prop
  | put (c : Channel α) (x : α) : Step c { c with sent := c.sent ++ [x] }
  | deliver (c : Channel α) (n : ℕ) (hlt : c.next < n) (hle : n ≤ c.sent.length) :
      Step c { c with next := n, delivered := c.delivered ++ [c.next] }

structure Ordered (c : Channel α) : Prop where
  increasing : c.delivered.Pairwise (· < ·)
  passed : ∀ n ∈ c.delivered, n < c.next
  inSent : c.next ≤ c.sent.length

theorem ordered_empty : Ordered (empty : Channel α) :=
  ⟨List.Pairwise.nil,by simp [empty],Nat.le_refl 0⟩

theorem Ordered.step {c d : Channel α} (h : Ordered c) (hs : Step c d) : Ordered d := by
  cases hs with
  | put x => exact ⟨h.increasing,h.passed,le_trans h.inSent (by simp)⟩
  | deliver n hlt hle =>
    refine ⟨?_,fun k hk => ?_,hle⟩
    · exact List.pairwise_append.mpr ⟨h.increasing,List.pairwise_singleton _ _,fun a ha b hb => by
        rw [List.mem_singleton.mp hb]
        exact h.passed a ha⟩
    · rcases List.mem_append.mp hk with hk | hk
      · exact lt_trans (h.passed k hk) hlt
      · rw [List.mem_singleton.mp hk]
        exact hlt

/-- A stuttering simulation step also keeps the order. -/
theorem Ordered.reflGen {c d : Channel α} (h : Ordered c) (hs : Relation.ReflGen Step c d) :
    Ordered d := by
  cases hs with
  | refl => exact h
  | single hs => exact h.step hs

/-- Nothing was skipped so far. -/
def GapFree (c : Channel α) : Prop := c.delivered = List.range c.next

/-- The messages handed out. -/
def outputs (c : Channel α) : List α := c.delivered.filterMap fun n => c.sent[n]?

theorem filterMap_range_getElem? (xs : List α) (n : ℕ) :
    (List.range n).filterMap (fun k => xs[k]?) = xs.take n := by
  induction n with
  | zero => simp
  | succ n ih =>
    rw [List.range_succ,List.filterMap_append,ih,List.take_add_one]
    cases hn : xs[n]? <;> simp [hn]

theorem GapFree.outputs_isPrefix {c : Channel α} (h : GapFree c) : c.outputs <+: c.sent := by
  rw [outputs,h,filterMap_range_getElem?]
  exact List.take_prefix _ _

theorem GapFree.deliver_next {c : Channel α} (h : GapFree c) :
    GapFree { c with next := c.next + 1, delivered := c.delivered ++ [c.next] } := by
  have hdelivered : c.delivered = List.range c.next := h
  simp [GapFree,List.range_succ,hdelivered]

end Channel
end UProtocols
