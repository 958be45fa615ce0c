import UProtocols.Runs
import UProtocols.Spans

/-!
# The memory arena of the WebSocket memory pool

`MemoryArena` of `websocket_memory_pool.cpp`. A pointer is a block and an offset there. Sums and
differences of `size_t` wrap around; the caller passes an alignment that is not zero.
-/

namespace UProtocols
namespace MemoryArenas

open Spans

/-- `BLOCK_SIZE`. -/
def blockSize : UInt64 := 65536

structure Block where
  used : UInt64
  deriving DecidableEq

/-- `current_block_` points to one of the blocks. -/
structure MemoryArena where
  blocks : List Block
  currentBlock : ℕ
  current_lt : currentBlock < blocks.length
  deriving DecidableEq

namespace MemoryArena

def new : MemoryArena := ⟨[⟨0⟩],0,Nat.zero_lt_one⟩

def used (a : MemoryArena) : UInt64 := (a.blocks.get ⟨a.currentBlock,a.current_lt⟩).used

def padding (a : MemoryArena) (alignment : UInt64) : UInt64 :=
  (alignment - a.used % alignment) % alignment

/-- The block that `allocate` appends: it starts with the whole request. -/
def allocateNew (a : MemoryArena) (size : UInt64) : MemoryArena × Span :=
  (⟨a.blocks ++ [⟨size⟩],a.blocks.length,by simp⟩,⟨a.blocks.length,0,size.toNat⟩)

def allocateHere (a : MemoryArena) (size alignment : UInt64) : MemoryArena × Span :=
  (⟨a.blocks.set a.currentBlock ⟨a.used + (size + a.padding alignment)⟩,a.currentBlock,
      by simpa using a.current_lt⟩,
    ⟨a.currentBlock,a.used.toNat + (a.padding alignment).toNat,size.toNat⟩)

def allocate (a : MemoryArena) (size alignment : UInt64) : MemoryArena × Span :=
  let total := size + a.padding alignment
  if a.used + total > blockSize then a.allocateNew size else a.allocateHere size alignment

def reset (a : MemoryArena) : MemoryArena where
  blocks := a.blocks.map fun _ => ⟨0⟩
  currentBlock := 0
  current_lt := by simpa using Nat.zero_lt_of_lt a.current_lt

end MemoryArena

/-! ## Sequences of calls -/

inductive Request
  | allocate (size : UInt64) (alignment : {n : UInt64 // n ≠ 0})
  | reset
  deriving DecidableEq

/-- An arena with the ranges that it returned since the last reset. -/
structure State where
  arena : MemoryArena
  ranges : List Span
  deriving DecidableEq

namespace State

def new : State := ⟨MemoryArena.new,[]⟩

def step (s : State) : Request → Option State
  | .allocate size alignment =>
    let r := s.arena.allocate size alignment
    some ⟨r.1,s.ranges ++ [r.2]⟩
  | .reset => some ⟨s.arena.reset,[]⟩

/-- The ranges since the last reset lie in their blocks and share no byte. -/
structure InBounds (s : State) : Prop where
  disjoint : s.ranges.Pairwise fun r q => Disjoint r.cells q.cells
  within : ∀ r ∈ s.ranges, r.block < s.arena.blocks.length ∧ r.stop ≤ blockSize.toNat

/-- The request fits in a block, and rounding up to the alignment does not wrap: it rounds only
where something is in use. -/
def Fits (s : State) : Request → Prop
  | .allocate size alignment =>
    size ≤ blockSize ∧
      (s.arena.used = 0 ∨ alignment.val.toNat + size.toNat < UInt64.size)
  | .reset => True

end State

/-! ## Rounding up -/

namespace MemoryArena

variable {a : MemoryArena} {size alignment : UInt64}

theorem toNat_pos {n : UInt64} (h : n ≠ 0) : 0 < n.toNat := by
  apply Nat.pos_of_ne_zero
  intro hzero
  exact h (UInt64.toNat_inj.mp hzero)

theorem padding_toNat (a : MemoryArena) (h : alignment ≠ 0) :
    (a.padding alignment).toNat =
      (alignment.toNat - a.used.toNat % alignment.toNat) % alignment.toNat := by
  have hpos := toNat_pos h
  have hle : a.used % alignment ≤ alignment := by
    rw [UInt64.le_iff_toNat_le,UInt64.toNat_mod]
    exact Nat.le_of_lt (Nat.mod_lt _ hpos)
  rw [padding,UInt64.toNat_mod,UInt64.toNat_sub_of_le _ _ hle,UInt64.toNat_mod]

/-- The start of a range is either near the bytes in use or, where the alignment is larger than
these, at the alignment. -/
theorem start_cases (h : alignment ≠ 0) (hused : a.used.toNat ≤ 65536) :
    a.used.toNat + (a.padding alignment).toNat ≤ 131072 ∧
        (a.used = 0 ∨ alignment.toNat ≤ 65536) ∨
      a.used ≠ 0 ∧ a.used.toNat + (a.padding alignment).toNat = alignment.toNat := by
  have hpos := toNat_pos h
  have hrest := Nat.mod_lt a.used.toNat hpos
  rw [a.padding_toNat h]
  rcases Nat.lt_or_ge a.used.toNat alignment.toNat with hlt | hge
  · rw [Nat.mod_eq_of_lt hlt]
    by_cases hzero : a.used = 0
    · left
      rw [hzero,UInt64.toNat_zero,Nat.sub_zero,Nat.mod_self]
      exact ⟨Nat.zero_le _,Or.inl rfl⟩
    · right
      rw [Nat.mod_eq_of_lt (Nat.sub_lt hpos (toNat_pos hzero))]
      exact ⟨hzero,Nat.add_sub_of_le (Nat.le_of_lt hlt)⟩
  · left
    have hpadding := Nat.mod_lt (alignment.toNat - a.used.toNat % alignment.toNat) hpos
    exact ⟨by omega,Or.inr (hge.trans hused)⟩

/-- The sum that is compared with the size of a block. -/
theorem used_add_toNat (a : MemoryArena) (size alignment : UInt64) :
    (a.used + (size + a.padding alignment)).toNat =
      (a.used.toNat + (a.padding alignment).toNat + size.toNat) % UInt64.size := by
  rw [UInt64.toNat_add,UInt64.toNat_add,Nat.add_mod_mod,Nat.add_assoc,
    Nat.add_comm (a.padding alignment).toNat]

/-- The two ways that a call of `allocate` goes. -/
theorem allocate_cases (a : MemoryArena) (size alignment : UInt64) :
    65536 < (a.used.toNat + (a.padding alignment).toNat + size.toNat) % UInt64.size ∧
        a.allocate size alignment = a.allocateNew size ∨
      (a.used.toNat + (a.padding alignment).toNat + size.toNat) % UInt64.size ≤ 65536 ∧
        a.allocate size alignment = a.allocateHere size alignment := by
  rw [← a.used_add_toNat size alignment]
  by_cases hfull : a.used + (size + a.padding alignment) > blockSize
  · exact Or.inl ⟨UInt64.lt_iff_toNat_lt.mp hfull,if_pos hfull⟩
  · exact Or.inr ⟨UInt64.le_iff_toNat_le.mp (UInt64.not_lt.mp hfull),if_neg hfull⟩

theorem used_reset (a : MemoryArena) : a.reset.used = 0 := by
  simp [used,reset]

theorem used_allocateNew (a : MemoryArena) (size : UInt64) :
    (a.allocateNew size).1.used = size := by
  simp [used,allocateNew]

theorem used_allocateHere (a : MemoryArena) (size alignment : UInt64) :
    (a.allocateHere size alignment).1.used = a.used + (size + a.padding alignment) := by
  simp [used,allocateHere]

/-- A range lies in the current block of the new arena, behind the bytes that were in use. -/
theorem allocate_block (a : MemoryArena) (size alignment : UInt64) :
    (a.allocate size alignment).1.currentBlock = (a.allocate size alignment).2.block ∧
      a.blocks.length ≤ (a.allocate size alignment).1.blocks.length ∧
      (a.currentBlock < (a.allocate size alignment).2.block ∨
        a.currentBlock = (a.allocate size alignment).2.block ∧
          a.used.toNat ≤ (a.allocate size alignment).2.start) := by
  obtain ⟨-,h⟩ | ⟨-,h⟩ := a.allocate_cases size alignment
  · rw [h]
    refine ⟨rfl,?_,Or.inl a.current_lt⟩
    rw [allocateNew,List.length_append]
    exact Nat.le_add_right _ _
  · rw [h]
    refine ⟨rfl,?_,Or.inr ⟨rfl,Nat.le_add_right _ _⟩⟩
    rw [allocateHere,List.length_set]

/-- A range that lies in its block ends where the bytes in use end. -/
theorem used_allocate (h : (a.allocate size alignment).2.stop ≤ 65536) :
    (a.allocate size alignment).1.used.toNat = (a.allocate size alignment).2.stop := by
  obtain ⟨-,hcase⟩ | ⟨-,hcase⟩ := a.allocate_cases size alignment
  · rw [hcase,used_allocateNew]
    exact (Nat.zero_add _).symm
  · rw [hcase] at h ⊢
    rw [used_allocateHere,used_add_toNat]
    apply Nat.mod_eq_of_lt
    exact Nat.lt_of_le_of_lt h (by decide)

theorem stop_allocate_le_iff (hal : alignment ≠ 0) (hused : a.used.toNat ≤ 65536) :
    (a.allocate size alignment).2.stop ≤ 65536 ↔
      size.toNat ≤ 65536 ∧ (a.used = 0 ∨ alignment.toNat + size.toNat < UInt64.size) := by
  have hstart := a.start_cases hal hused
  have halignment := alignment.toNat_lt
  have hzero : a.used = 0 ↔ a.used.toNat = 0 := UInt64.toNat_inj.symm
  have hwrap : UInt64.size = 18446744073709551616 := rfl
  rw [Ne,hzero] at hstart
  rw [hzero,hwrap]
  obtain ⟨hsum,hcase⟩ | ⟨hsum,hcase⟩ := a.allocate_cases size alignment
  · rw [hwrap] at hsum
    have hstop : (a.allocate size alignment).2.stop = size.toNat := by
      rw [hcase]
      exact Nat.zero_add _
    rw [hstop]
    constructor
    · intro hsize
      refine ⟨hsize,?_⟩
      omega
    · exact And.left
  · rw [hwrap] at hsum
    have hstop : (a.allocate size alignment).2.stop =
        a.used.toNat + (a.padding alignment).toNat + size.toNat := by
      rw [hcase]
      rfl
    rw [hstop]
    omega

end MemoryArena

/-! ## Bounds -/

namespace State

variable {s t : State} {request : Request}

/-- The bytes in use end in the current block, behind all ranges. -/
structure Good (s : State) : Prop where
  used_le : s.arena.used.toNat ≤ 65536
  laid : Laid s.ranges s.arena.currentBlock s.arena.used.toNat

/-- What holds of every state: the blocks of the ranges exist, and the state is good as long as
the ranges are. -/
structure Kept (s : State) : Prop where
  block_lt : ∀ r ∈ s.ranges, r.block < s.arena.blocks.length
  good : s.InBounds → s.Good

theorem kept_new : new.Kept where
  block_lt := nofun
  good := fun _ => ⟨Nat.zero_le _,Laid.nil _ _⟩

theorem Kept.reset (s : State) : Kept ⟨s.arena.reset,[]⟩ where
  block_lt := nofun
  good := by
    intro _
    refine ⟨?_,Laid.nil _ _⟩
    rw [MemoryArena.used_reset]
    exact Nat.zero_le _

/-- Before a call that appends a range, the ranges were in bounds. -/
theorem InBounds.before_allocate (hkept : s.Kept) {b : MemoryArena} {r : Span}
    (h : InBounds ⟨b,s.ranges ++ [r]⟩) : s.InBounds where
  disjoint := (List.pairwise_append.mp h.disjoint).1
  within := by
    intro q hq
    exact ⟨hkept.block_lt q hq,(h.within q (List.mem_append_left _ hq)).2⟩

theorem Kept.allocate (h : s.Kept) (size alignment : UInt64) :
    Kept ⟨(s.arena.allocate size alignment).1,
      s.ranges ++ [(s.arena.allocate size alignment).2]⟩ := by
  obtain ⟨hcurrent,hlength,hnext⟩ := s.arena.allocate_block size alignment
  refine ⟨?_,?_⟩
  · intro r hr
    rcases List.mem_append.mp hr with hr | hr
    · exact Nat.lt_of_lt_of_le (h.block_lt r hr) hlength
    · cases List.mem_singleton.mp hr
      rw [← hcurrent]
      exact (s.arena.allocate size alignment).1.current_lt
  · intro hbounds
    have hgood := h.good (hbounds.before_allocate h)
    have hstop : (s.arena.allocate size alignment).2.stop ≤ 65536 :=
      (hbounds.within _ (List.mem_append_right _ (List.mem_singleton_self _))).2
    have hused := MemoryArena.used_allocate hstop
    refine ⟨?_,?_⟩
    · rw [hused]
      exact hstop
    · rw [hused,hcurrent]
      exact hgood.laid.snoc hnext

theorem Kept.step (h : s.Kept) (hstep : s.step request = some t) : t.Kept := by
  cases request with
  | reset =>
    cases hstep
    exact Kept.reset s
  | allocate size alignment =>
    cases hstep
    exact h.allocate size alignment

/-- A request keeps the ranges in bounds exactly when it fits. -/
theorem inBounds_step_iff (h : s.Kept) (hbounds : s.InBounds) (hstep : s.step request = some t) :
    t.InBounds ↔ s.Fits request := by
  cases request with
  | reset =>
    cases hstep
    exact iff_of_true ⟨List.Pairwise.nil,nofun⟩ trivial
  | allocate size alignment =>
    cases hstep
    have hgood := h.good hbounds
    have hkept := h.allocate size alignment.val
    obtain ⟨-,-,hnext⟩ := s.arena.allocate_block size alignment.val
    rw [Fits,UInt64.le_iff_toNat_le]
    apply Iff.trans _ (MemoryArena.stop_allocate_le_iff alignment.property hgood.used_le)
    constructor
    · intro ht
      exact (ht.within _ (List.mem_append_right _ (List.mem_singleton_self _))).2
    · intro hstop
      refine ⟨(hgood.laid.snoc hnext).disjoint,fun r hr => ⟨hkept.block_lt r hr,?_⟩⟩
      rcases List.mem_append.mp hr with hr | hr
      · exact (hbounds.within r hr).2
      · cases List.mem_singleton.mp hr
        exact hstop

/-- In every run the ranges stay in bounds exactly when each request fits. -/
theorem memoryArena_in_bounds_iff (requests : List Request) :
    (∀ earlier s, earlier <+: requests → Runs.exec step new earlier = some s → s.InBounds) ↔
      Runs.Along step Fits new requests := by
  have htotal : ∀ s request, ∃ t, step s request = some t := by
    intro s request
    cases request <;> exact ⟨_,rfl⟩
  obtain ⟨t,hrun⟩ := Runs.exec_total htotal new requests
  have hnew : new.InBounds := ⟨List.Pairwise.nil,nofun⟩
  rw [Runs.forall_reached_iff (I := Kept) (F := InBounds) (fun _ _ _ hstep h => h.step hstep)
    (fun _ _ _ hstep h hbounds => inBounds_step_iff h hbounds hstep) hrun kept_new]
  exact and_iff_right hnew

/-- A request of 64 KiB and one byte. -/
theorem memoryArena_oversized :
    ¬ ∀ earlier s, earlier <+: [Request.allocate 65537 ⟨16,by decide⟩] →
      Runs.exec step new earlier = some s → s.InBounds := by
  intro h
  have hbounds := h [Request.allocate 65537 ⟨16,by decide⟩] _ (List.prefix_refl _) rfl
  have hstop := (hbounds.within ⟨1,0,65537⟩ (by decide)).2
  exact absurd hstop (by decide)

end State
end MemoryArenas
end UProtocols
