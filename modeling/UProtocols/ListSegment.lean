import Mathlib.Data.List.AList

/-!
# Linked lists in memory

A memory maps the allocated addresses to cells, each with a value and a pointer to another
cell. `Seg mem p cells q` says that the pointers lead from `p` through the cells listed, with
their addresses, to `q`. An edit of one cell changes the list at one place as long as the
addresses are distinct.
-/

namespace UProtocols
namespace ListSegment

structure Cell (V : Type) where
  value : V
  next : Option ℕ
  deriving DecidableEq

abbrev Memory (V : Type) := AList fun _ : ℕ => Cell V

variable {V : Type}

def Seg (mem : Memory V) : Option ℕ → List (ℕ × V) → Option ℕ → Prop
  | p, [], q => p = q
  | p, (a,v)::cells, q => p = some a ∧ ∃ next, mem.lookup a = some ⟨v,next⟩ ∧ Seg mem next cells q

variable {mem mem' : Memory V} {p q : Option ℕ} {a b : ℕ} {v w : V} {next : Option ℕ}
  {cells cells' : List (ℕ × V)}

def addresses (cells : List (ℕ × V)) : List ℕ := cells.map Prod.fst

@[simp] theorem addresses_cons : addresses ((a,v)::cells) = a::addresses cells := rfl

@[simp] theorem addresses_append :
    addresses (cells ++ cells') = addresses cells ++ addresses cells' := List.map_append

theorem seg_append :
    Seg mem p (cells ++ cells') q ↔ ∃ m, Seg mem p cells m ∧ Seg mem m cells' q := by
  induction cells generalizing p with
  | nil => simp [Seg]
  | cons cell cells ih =>
    obtain ⟨a,v⟩ := cell
    simp only [List.cons_append,Seg,ih]
    constructor
    · rintro ⟨hp,next,hcell,m,hleft,hright⟩
      exact ⟨m,⟨hp,next,hcell,hleft⟩,hright⟩
    · rintro ⟨m,⟨hp,next,hcell,hleft⟩,hright⟩
      exact ⟨hp,next,hcell,m,hleft,hright⟩

/-- A segment does not depend on other cells. -/
theorem Seg.frame (h : Seg mem p cells q)
    (hsame : ∀ a ∈ addresses cells, mem'.lookup a = mem.lookup a) : Seg mem' p cells q := by
  induction cells generalizing p with
  | nil => exact h
  | cons cell cells ih =>
    obtain ⟨a,v⟩ := cell
    obtain ⟨hp,next,hcell,hrest⟩ := h
    refine ⟨hp,next,(hsame a (by simp)).trans hcell,ih hrest ?_⟩
    intro b hb
    exact hsame b (by simp [hb])

theorem Seg.insert_frame (h : Seg mem p cells q) {cell : Cell V} (ha : a ∉ addresses cells) :
    Seg (mem.insert a cell) p cells q := by
  apply h.frame
  intro b hb
  apply AList.lookup_insert_ne
  rintro rfl
  exact ha hb

theorem Seg.erase_frame (h : Seg mem p cells q) (ha : a ∉ addresses cells) :
    Seg (mem.erase a) p cells q := by
  apply h.frame
  intro b hb
  apply AList.lookup_erase_ne
  rintro rfl
  exact ha hb

theorem Seg.mem_of_mem (h : Seg mem p cells q) (ha : a ∈ addresses cells) : a ∈ mem := by
  induction cells generalizing p with
  | nil => cases ha
  | cons cell cells ih =>
    obtain ⟨b,v⟩ := cell
    obtain ⟨-,next,hcell,hrest⟩ := h
    cases ha with
    | head =>
      rw [← AList.lookup_isSome,hcell]
      rfl
    | tail _ ha => exact ih hrest ha

/-- The pointer to a list is the address of its first cell. -/
theorem Seg.eq_head (h : Seg mem p cells none) : p = (addresses cells).head? := by
  cases cells with
  | nil => exact h
  | cons cell cells => exact h.1

/-- A list is no longer than the memory is large. -/
theorem Seg.length_le (h : Seg mem p cells q) (hnodup : (addresses cells).Nodup) :
    cells.length ≤ mem.keys.length := by
  have hlength : (addresses cells).length = cells.length := List.length_map _
  rw [← hlength]
  apply (List.subperm_of_subset hnodup ?_).length_le
  intro a ha
  exact AList.mem_keys.mp (h.mem_of_mem ha)

/-! ## Edits -/

/-- A new cell before the first one. -/
theorem Seg.push (h : Seg mem p cells q) (ha : a ∉ mem) :
    Seg (mem.insert a ⟨v,p⟩) (some a) ((a,v)::cells) q := by
  refine ⟨rfl,p,AList.lookup_insert mem,h.insert_frame ?_⟩
  intro hmem
  exact ha (h.mem_of_mem hmem)

/-- The value of a cell is overwritten. -/
theorem Seg.write (h : Seg mem p (cells ++ (a,v)::cells') q)
    (hnodup : (addresses (cells ++ (a,v)::cells')).Nodup)
    (hcell : mem.lookup a = some ⟨v,next⟩) :
    Seg (mem.insert a ⟨w,next⟩) p (cells ++ (a,w)::cells') q := by
  obtain ⟨m,hleft,rfl,next',hcell',hright⟩ := seg_append.mp h
  cases hcell.symm.trans hcell'
  simp only [addresses_append,addresses_cons,List.nodup_append,List.nodup_cons] at hnodup
  apply seg_append.mpr
  refine ⟨some a,hleft.insert_frame ?_,rfl,next,AList.lookup_insert mem,
    hright.insert_frame hnodup.2.1.1⟩
  intro hmem
  exact hnodup.2.2 a hmem a (by simp) rfl

/-- The first cell is freed. -/
theorem Seg.free_head (h : Seg mem p ((a,v)::cells) q) (hnodup : (addresses ((a,v)::cells)).Nodup)
    (hcell : mem.lookup a = some ⟨v,next⟩) : Seg (mem.erase a) next cells q := by
  obtain ⟨-,next',hcell',hrest⟩ := h
  cases hcell.symm.trans hcell'
  exact hrest.erase_frame (List.nodup_cons.mp hnodup).1

/-- A cell is unlinked from the one before it and freed. -/
theorem Seg.unlink (h : Seg mem p (cells ++ (a,v)::(b,w)::cells') q)
    (hnodup : (addresses (cells ++ (a,v)::(b,w)::cells')).Nodup)
    (hcell : mem.lookup b = some ⟨w,next⟩) :
    Seg ((mem.insert a ⟨v,next⟩).erase b) p (cells ++ (a,v)::cells') q := by
  obtain ⟨m,hleft,rfl,_,-,rfl,next',hcell',hright⟩ := seg_append.mp h
  cases hcell.symm.trans hcell'
  simp only [addresses_append,addresses_cons,List.nodup_append,List.nodup_cons,
    List.mem_cons,not_or] at hnodup
  obtain ⟨-,⟨⟨hab,ha⟩,hb,-⟩,hdisjoint⟩ := hnodup
  apply seg_append.mpr
  refine ⟨some a,?_,rfl,next,?_,(hright.insert_frame ha).erase_frame hb⟩
  · apply (hleft.insert_frame ?_).erase_frame
    · intro hmem
      exact hdisjoint b hmem b (by simp) rfl
    · intro hmem
      exact hdisjoint a hmem a (by simp) rfl
  · rw [AList.lookup_erase_ne hab,AList.lookup_insert]

end ListSegment
end UProtocols
