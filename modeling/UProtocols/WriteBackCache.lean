import Mathlib.Data.Nat.Notation
import Mathlib.Logic.Function.Basic

/-!
# A write-back cache beside a device

A processor reads and writes through a cache that keeps whole lines and may fill a line, write it
back or drop it whenever it likes. A device sees the memory only. Addresses are numbers, and `size`
of them make a line.
-/

namespace UProtocols
namespace WriteBackCache

structure Line (α : Type) where
  cells : ℕ → α
  dirty : Bool

structure Memory (α : Type) where
  ram : ℕ → α
  cache : ℕ → Option (Line α)

/-- What the cache does by itself, or on request. -/
inductive Move
  | fill (line : ℕ)
  | evict (line : ℕ)
  | clean (line : ℕ)
  deriving DecidableEq

def Move.line : Move → ℕ
  | .fill n | .evict n | .clean n => n

namespace Memory

variable {α : Type} (size : ℕ) (m : Memory α)

/-- What the processor reads. -/
def view (a : ℕ) : α :=
  match m.cache (a / size) with
  | some l => l.cells a
  | none => m.ram a

/-- The memory once the line has been written back. -/
def writtenBack (n a : ℕ) : α :=
  match m.cache n with
  | some ⟨cells,true⟩ => if a / size = n then cells a else m.ram a
  | _ => m.ram a

def move : Move → Memory α
  | .fill n =>
    match m.cache n with
    | some _ => m
    | none => {m with cache := Function.update m.cache n (some ⟨m.ram,false⟩)}
  | .evict n => ⟨m.writtenBack size n,Function.update m.cache n none⟩
  | .clean n =>
    ⟨m.writtenBack size n,
      Function.update m.cache n ((m.cache n).map fun l => {l with dirty := false})⟩

def invalidate (n : ℕ) : Memory α := {m with cache := Function.update m.cache n none}

/-- Without its line in the cache a write goes to the memory. -/
def write (a : ℕ) (v : α) : Memory α :=
  match m.cache (a / size) with
  | some l =>
    {m with cache := Function.update m.cache (a / size) (some ⟨Function.update l.cells a v,true⟩)}
  | none => {m with ram := Function.update m.ram a v}

def deviceWrite (a : ℕ) (v : α) : Memory α := {m with ram := Function.update m.ram a v}

/-- The line has nothing to write back. -/
def Clean (n : ℕ) : Prop := ∀ l, m.cache n = some l → l.dirty = false

/-- No line that has nothing to write back is stale. -/
def Fresh (n : ℕ) : Prop :=
  ∀ l, m.cache n = some l → l.dirty = false → ∀ a, a / size = n → l.cells a = m.ram a

/-- Nothing has changed but at the line. -/
structure Touches (n : ℕ) (m m' : Memory α) : Prop where
  cache : ∀ k, k ≠ n → m'.cache k = m.cache k
  ram : ∀ a, a / size ≠ n → m'.ram a = m.ram a

variable {size m} {m' : Memory α} {n k a b : ℕ} {v : α} {e : Move}

/-! ## Frames -/

theorem Touches.view (h : Touches size n m m') (ha : a / size ≠ n) :
    m'.view size a = m.view size a := by
  rw [Memory.view,Memory.view,h.cache _ ha,h.ram a ha]

theorem Touches.clean (h : Touches size n m m') (hk : k ≠ n) (hc : m.Clean k) : m'.Clean k := by
  rw [Clean,h.cache k hk]
  exact hc

theorem Touches.fresh (h : Touches size n m m') (hk : k ≠ n) (hf : m.Fresh size k) :
    m'.Fresh size k := by
  intro l hl hdirty a ha
  rw [h.cache k hk] at hl
  rw [h.ram a (ha ▸ hk)]
  exact hf l hl hdirty a ha

theorem touches_writtenBack (line : Option (Line α)) :
    Touches size n m ⟨m.writtenBack size n,Function.update m.cache n line⟩ where
  cache k hk := by simp [hk]
  ram a ha := by
    simp only [writtenBack]
    split
    · simp [ha]
    · rfl

theorem touches_move (m : Memory α) (e : Move) : Touches size e.line m (m.move size e) := by
  cases e with
  | fill n =>
    simp only [move]
    split
    · exact ⟨fun _ _ => rfl,fun _ _ => rfl⟩
    · exact ⟨fun k hk => by simp [show k ≠ n from hk],fun _ _ => rfl⟩
  | evict n => exact touches_writtenBack none
  | clean n => exact touches_writtenBack _

theorem touches_invalidate (m : Memory α) (n : ℕ) : Touches size n m (m.invalidate n) :=
  ⟨fun k hk => by simp [invalidate,hk],fun _ _ => rfl⟩

theorem touches_write (m : Memory α) (a : ℕ) (v : α) :
    Touches size (a / size) m (m.write size a v) := by
  simp only [write]
  split
  · exact ⟨fun k hk => by simp [hk],fun _ _ => rfl⟩
  · refine ⟨fun _ _ => rfl,fun b hb => Function.update_of_ne ?_ _ _⟩
    rintro rfl
    exact hb rfl

theorem touches_deviceWrite (m : Memory α) (a : ℕ) (v : α) :
    Touches size (a / size) m (m.deviceWrite a v) := by
  refine ⟨fun _ _ => rfl,fun b hb => Function.update_of_ne ?_ _ _⟩
  rintro rfl
  exact hb rfl

/-! ## Clean lines -/

theorem Clean.writtenBack (h : m.Clean n) : m.writtenBack size n = m.ram := by
  funext a
  simp only [Memory.writtenBack]
  split
  · next l heq => exact absurd (h _ heq) (by simp)
  · rfl

theorem clean_invalidate (m : Memory α) (n : ℕ) : (m.invalidate n).Clean n := by
  simp [Clean,invalidate]

theorem Clean.invalidate (h : m.Clean k) (n : ℕ) : (m.invalidate n).Clean k := by
  by_cases hk : k = n
  · exact hk ▸ clean_invalidate m k
  · exact ((touches_invalidate m n : Touches 0 n m _)).clean hk h

/-- A clean line stays clean whatever the cache does. -/
theorem Clean.move (h : m.Clean k) (e : Move) : (m.move size e).Clean k := by
  by_cases hk : k = e.line
  · subst hk
    cases e with
    | fill n =>
      simp only [Memory.move]
      split
      · exact h
      · simp [Clean,Move.line]
    | evict n => simp [Clean,Memory.move,Move.line]
    | clean n => simp [Clean,Memory.move,Move.line]
  · exact (touches_move m e).clean hk h

/-- While its line is clean the cache does not change what a device has written. -/
theorem Clean.move_ram (h : m.Clean (a / size)) (e : Move) : (m.move size e).ram a = m.ram a := by
  by_cases hk : a / size = e.line
  · rw [hk] at h
    cases e with
    | fill n =>
      simp only [Memory.move]
      split <;> rfl
    | evict n | clean n =>
      have hram : m.writtenBack size n = m.ram := h.writtenBack
      exact congrFun hram a
  · exact (touches_move m e).ram a hk

theorem Clean.deviceWrite (h : m.Clean k) (a : ℕ) (v : α) : (m.deviceWrite a v).Clean k := h

/-! ## Fresh lines -/

theorem fresh_invalidate (m : Memory α) (n : ℕ) : (m.invalidate n).Fresh size n := by
  simp [Fresh,invalidate]

theorem Fresh.invalidate (h : m.Fresh size k) (n : ℕ) : (m.invalidate n).Fresh size k := by
  by_cases hk : k = n
  · exact hk ▸ fresh_invalidate m k
  · exact (touches_invalidate m n).fresh hk h

/-- A line that is clean and fresh shows the memory. -/
theorem Fresh.view (h : m.Fresh size (a / size)) (hc : m.Clean (a / size)) :
    m.view size a = m.ram a := by
  simp only [Memory.view]
  split
  · next l hl => exact h l hl (hc l hl) a rfl
  · rfl

theorem Fresh.move (h : m.Fresh size k) (e : Move) : (m.move size e).Fresh size k := by
  by_cases hk : k = e.line
  · subst hk
    cases e with
    | fill n =>
      simp only [Memory.move]
      split
      · exact h
      · intro l hl
        simp only [Move.line,Function.update_self,Option.some.injEq] at hl
        subst hl
        exact fun _ _ _ => rfl
    | evict n => simp [Fresh,Memory.move,Move.line]
    | clean n =>
      intro l hl hdirty a ha
      simp only [Memory.move,Move.line,Function.update_self,Option.map_eq_some_iff] at hl
      obtain ⟨⟨cells,dirty⟩,hline,rfl⟩ := hl
      cases dirty with
      | true => simp only [Memory.move,Memory.writtenBack,hline,show a / size = n from ha,if_true]
      | false =>
        simp only [Memory.move,Memory.writtenBack,hline]
        exact h _ hline rfl a ha
  · exact (touches_move m e).fresh hk h

/-- A fresh line shows the processor the same whatever the cache does. -/
theorem Fresh.move_view (h : m.Fresh size (a / size)) (e : Move) :
    (m.move size e).view size a = m.view size a := by
  by_cases hk : a / size = e.line
  · cases hline : m.cache (a / size) with
    | none =>
      cases e with
      | fill n | evict n | clean n =>
        rw [hk,Move.line] at hline
        simp [Memory.view,Memory.move,Memory.writtenBack,hk,Move.line,hline]
    | some l =>
      obtain ⟨cells,dirty⟩ := l
      have hcells := h _ hline
      cases e with
      | fill n =>
        rw [hk,Move.line] at hline
        simp [Memory.view,Memory.move,hk,Move.line,hline]
      | clean n =>
        rw [hk,Move.line] at hline
        simp [Memory.view,Memory.move,hk,Move.line,hline]
      | evict n =>
        rw [hk,Move.line] at hline
        cases dirty with
        | true => simp [Memory.view,Memory.move,Memory.writtenBack,hk,Move.line,hline]
        | false =>
          simp [Memory.view,Memory.move,Memory.writtenBack,hk,Move.line,hline,
            (hcells rfl a rfl).symm]
  · exact (touches_move m e).view hk

theorem Fresh.write (h : m.Fresh size k) (a : ℕ) (v : α) : (m.write size a v).Fresh size k := by
  by_cases hk : k = a / size
  · subst hk
    intro l hl hdirty b hb
    simp only [Memory.write] at hl ⊢
    split at hl
    · simp only [Function.update_self,Option.some.injEq] at hl
      subst hl
      cases hdirty
    · next hnone => rw [hnone] at hl; cases hl
  · exact (touches_write m a v).fresh hk h

/-- The processor reads back what it has written. -/
theorem view_write (m : Memory α) (a : ℕ) (v : α) :
    (m.write size a v).view size = Function.update (m.view size) a v := by
  funext b
  by_cases hline : b / size = a / size
  · cases hcache : m.cache (a / size) with
    | none =>
      by_cases hb : b = a <;> simp [Memory.view,Memory.write,hline,hcache,hb]
    | some l => by_cases hb : b = a <;> simp [Memory.view,Memory.write,hline,hcache,hb]
  · have hb : b ≠ a := by
      rintro rfl
      exact hline rfl
    rw [(touches_write m a v).view hline,Function.update_of_ne hb]

end Memory
end WriteBackCache
end UProtocols
