import Mathlib.Data.List.Basic
import Mathlib.Data.Set.Lattice
import Mathlib.Order.CompletePartialOrder

/-!
# Spans of bytes in numbered blocks

A bump allocator hands out the bytes of a block from left to right and goes on in a block of a
higher number. Spans that it laid out so far lie before its next free byte and share no byte.
-/

namespace UProtocols
namespace Spans

/-- The `size` bytes of block `block` from `start` on. -/
structure Span where
  block : ℕ
  start : ℕ
  size : ℕ
  deriving DecidableEq

namespace Span

def stop (s : Span) : ℕ := s.start + s.size

/-- The bytes of a span, each by its block and its place there. -/
def cells (s : Span) : Set (ℕ × ℕ) := {p | p.1 = s.block ∧ s.start ≤ p.2 ∧ p.2 < s.stop}

/-- All bytes of the span come before byte `offset` of block `block`. -/
def Before (s : Span) (block offset : ℕ) : Prop :=
  s.block < block ∨ s.block = block ∧ s.stop ≤ offset

variable {s t : Span} {block offset : ℕ}

theorem Before.disjoint (h : s.Before t.block t.start) : Disjoint s.cells t.cells := by
  apply Set.disjoint_left.mpr
  intro p hs ht
  have hblock : s.block = t.block := hs.1.symm.trans ht.1
  cases h with
  | inl h => exact absurd hblock (Nat.ne_of_lt h)
  | inr h =>
    have hstart : t.start < t.start := calc
      t.start ≤ p.2 := ht.2.1
      _ < s.stop := hs.2.2
      _ ≤ t.start := h.2
    exact Nat.lt_irrefl _ hstart

theorem Before.mono {block' offset' : ℕ} (h : s.Before block offset)
    (hle : block < block' ∨ block = block' ∧ offset ≤ offset') : s.Before block' offset' := by
  unfold Before at h ⊢
  omega

end Span

/-- Spans with no byte in common, none of which reaches byte `offset` of block `block`. -/
structure Laid (spans : List Span) (block offset : ℕ) : Prop where
  disjoint : spans.Pairwise fun s t => Disjoint s.cells t.cells
  before : ∀ s ∈ spans, s.Before block offset

variable {spans : List Span} {block offset : ℕ}

theorem Laid.nil (block offset : ℕ) : Laid [] block offset where
  disjoint := List.Pairwise.nil
  before := nofun

/-- The next span starts at the next free byte or after it. -/
theorem Laid.snoc (h : Laid spans block offset) {s : Span}
    (hnext : block < s.block ∨ block = s.block ∧ offset ≤ s.start) :
    Laid (spans ++ [s]) s.block s.stop where
  disjoint := by
    apply List.pairwise_append.mpr
    refine ⟨h.disjoint,List.pairwise_singleton _ _,fun r hr q hq => ?_⟩
    cases List.mem_singleton.mp hq
    exact ((h.before r hr).mono hnext).disjoint
  before := by
    intro r hr
    rcases List.mem_append.mp hr with hr | hr
    · apply ((h.before r hr).mono hnext).mono
      exact Or.inr ⟨rfl,Nat.le_add_right _ _⟩
    · cases List.mem_singleton.mp hr
      exact Or.inr ⟨rfl,Nat.le_refl _⟩

end Spans
end UProtocols
