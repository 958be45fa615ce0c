import Mathlib.Algebra.Ring.Nat
import UProtocols.Runs
import UProtocols.Spans

/-!
# The arena of the WebSocket memory pool

`Arena` of `websocket_memory_pool.rs`. A slice is told by the bytes it covers; an index of a
missing block and a range beyond the end of one panic in the source: such a call has no result
here. A vector holds less than 2^63 bytes, so an offset and a size of at most `block_size`
do not overflow when they are added.
-/

namespace UProtocols
namespace MemoryPool

open Spans

structure Arena where
  blocks : List (List UInt8)
  currentBlock : ℕ
  currentOffset : ℕ
  blockSize : ℕ
  deriving DecidableEq

namespace Arena

def new (blockSize : ℕ) : Arena where
  blocks := [List.replicate blockSize 0]
  currentBlock := 0
  currentOffset := 0
  blockSize

/-- The new block that `allocate` appends when the current one is too full. -/
def makeRoom (a : Arena) (size : ℕ) : Arena :=
  if a.blockSize < a.currentOffset + size then
    {a with blocks := a.blocks ++ [List.replicate a.blockSize 0]
            currentBlock := a.currentBlock + 1
            currentOffset := 0}
  else a

def allocate (a : Arena) (size : ℕ) : Option (Arena × Span) :=
  let b := a.makeRoom size
  let start := b.currentOffset
  match b.blocks[b.currentBlock]? with
  | none => none
  | some block =>
    if start + size ≤ block.length then
      some ({b with currentOffset := start + size},⟨b.currentBlock,start,size⟩)
    else none

def reset (a : Arena) : Arena := {a with currentBlock := 0, currentOffset := 0}

def totalAllocated (a : Arena) : ℕ := a.blocks.length * a.blockSize

end Arena

/-! ## Sequences of calls -/

inductive Request (blockSize : ℕ)
  | allocate (size : Fin (blockSize + 1))
  | reset
  deriving DecidableEq

/-- An arena with the slices that it returned since the last reset. -/
structure ArenaState where
  arena : Arena
  slices : List Span
  deriving DecidableEq

namespace ArenaState

variable {blockSize : ℕ}

def new (blockSize : ℕ) : ArenaState := ⟨Arena.new blockSize,[]⟩

def step (s : ArenaState) : Request blockSize → Option ArenaState
  | .allocate size => (s.arena.allocate size).map fun r => ⟨r.1,s.slices ++ [r.2]⟩
  | .reset => some ⟨s.arena.reset,[]⟩

def run (requests : List (Request blockSize)) : Option ArenaState :=
  Runs.exec step (new blockSize) requests

/-- What `total_allocated` returns after the requests. -/
def totalAfter (requests : List (Request blockSize)) : Option ℕ :=
  (run requests).map fun s => s.arena.totalAllocated

end ArenaState

namespace Request

variable {blockSize : ℕ}

/-- The sizes asked for since the last reset. -/
def asked (sizes : List ℕ) : Request blockSize → List ℕ
  | .allocate size => sizes ++ [size.val]
  | .reset => []

/-- The same allocations `n` times more, each time after a reset. -/
def rounds (sizes : List (Fin (blockSize + 1))) : ℕ → List (Request blockSize)
  | 0 => sizes.map .allocate
  | n + 1 => rounds sizes n ++ .reset::sizes.map .allocate

end Request

/-! ## One call -/

namespace Arena

variable {a : Arena} {blockSize size : ℕ}

/-- The current block exists and has the bytes up to the offset. -/
structure Ready (blockSize : ℕ) (a : Arena) : Prop where
  size_eq : a.blockSize = blockSize
  blocks : ∀ block ∈ a.blocks, block.length = blockSize
  current : a.currentBlock < a.blocks.length
  offset : a.currentOffset ≤ blockSize

theorem ready_new (blockSize : ℕ) : (new blockSize).Ready blockSize where
  size_eq := rfl
  blocks := by
    intro block hblock
    rw [List.mem_singleton.mp hblock,List.length_replicate]
  current := Nat.zero_lt_one
  offset := Nat.zero_le _

theorem Ready.reset (h : a.Ready blockSize) : a.reset.Ready blockSize where
  size_eq := h.size_eq
  blocks := h.blocks
  current := Nat.zero_lt_of_lt h.current
  offset := Nat.zero_le _

/-- What `allocate` does before it takes the bytes: afterwards there is room. -/
theorem Ready.makeRoom (h : a.Ready blockSize) (hsize : size ≤ blockSize) :
    (a.makeRoom size).Ready blockSize ∧ (a.makeRoom size).currentOffset + size ≤ blockSize := by
  unfold Arena.makeRoom
  split
  case isTrue hfull =>
    refine ⟨⟨h.size_eq,?_,?_,Nat.zero_le _⟩,?_⟩
    · intro block hblock
      rcases List.mem_append.mp hblock with hblock | hblock
      · exact h.blocks block hblock
      · rw [List.mem_singleton.mp hblock,List.length_replicate,h.size_eq]
    · have hcurrent := h.current
      simp only [List.length_append,List.length_singleton]
      omega
    · show 0 + size ≤ blockSize
      omega
  case isFalse hroom =>
    have hsize_eq := h.size_eq
    exact ⟨h,by omega⟩

/-- The arena after a call of `allocate` that succeeds. -/
def advance (a : Arena) (size : ℕ) : Arena :=
  {a.makeRoom size with currentOffset := (a.makeRoom size).currentOffset + size}

/-- The slice that such a call returns. -/
def slice (a : Arena) (size : ℕ) : Span :=
  ⟨(a.makeRoom size).currentBlock,(a.makeRoom size).currentOffset,size⟩

theorem Ready.advance (h : a.Ready blockSize) (hsize : size ≤ blockSize) :
    (a.advance size).Ready blockSize where
  size_eq := (h.makeRoom hsize).1.size_eq
  blocks := (h.makeRoom hsize).1.blocks
  current := (h.makeRoom hsize).1.current
  offset := (h.makeRoom hsize).2

theorem Ready.allocate (h : a.Ready blockSize) (hsize : size ≤ blockSize) :
    a.allocate size = some (a.advance size,a.slice size) := by
  obtain ⟨hready,hroom⟩ := h.makeRoom hsize
  have hblock := List.getElem?_eq_getElem hready.current
  have hlength := hready.blocks _ (List.getElem_mem hready.current)
  simp only [Arena.allocate,hblock,hlength,if_pos hroom]
  rfl

/-- A block that is started has a higher number than all that were used since the reset. -/
theorem slice_next (a : Arena) (size : ℕ) :
    a.currentBlock < (a.slice size).block ∨
      a.currentBlock = (a.slice size).block ∧ a.currentOffset ≤ (a.slice size).start := by
  unfold slice Arena.makeRoom
  split
  · exact Or.inl (Nat.lt_succ_self _)
  · exact Or.inr ⟨rfl,Nat.le_refl _⟩

/-- The number of blocks grows when the current one is too full. -/
theorem length_advance (a : Arena) (size : ℕ) :
    (a.advance size).blocks.length =
      if a.blockSize < a.currentOffset + size then a.blocks.length + 1 else a.blocks.length := by
  unfold advance Arena.makeRoom
  split
  · exact List.length_append
  · rfl

theorem offset_advance (a : Arena) (size : ℕ) :
    (a.advance size).currentOffset =
      if a.blockSize < a.currentOffset + size then size else a.currentOffset + size := by
  unfold advance Arena.makeRoom
  split
  · exact Nat.zero_add size
  · rfl

end Arena

/-! ## Slices since the last reset -/

namespace ArenaState

variable {blockSize : ℕ} {s : ArenaState} {sizes : List ℕ}

structure Sound (blockSize : ℕ) (sizes : List ℕ) (s : ArenaState) : Prop where
  ready : s.arena.Ready blockSize
  laid : Laid s.slices s.arena.currentBlock s.arena.currentOffset
  within : ∀ r ∈ s.slices, r.block < s.arena.blocks.length ∧ r.stop ≤ blockSize
  sizes_eq : s.slices.map Span.size = sizes

theorem sound_new (blockSize : ℕ) : Sound blockSize [] (new blockSize) where
  ready := Arena.ready_new blockSize
  laid := Laid.nil _ _
  within := nofun
  sizes_eq := rfl

theorem Sound.step (h : Sound blockSize sizes s) (request : Request blockSize) :
    ∃ t, s.step request = some t ∧ Sound blockSize (request.asked sizes) t := by
  cases request with
  | reset =>
    refine ⟨_,rfl,h.ready.reset,Laid.nil _ _,?_,rfl⟩
    nofun
  | allocate size =>
    have hsize : size.val ≤ blockSize := Nat.le_of_lt_succ size.isLt
    have hready := h.ready.advance hsize
    have hstep : s.step (.allocate size) =
        some ⟨s.arena.advance size,s.slices ++ [s.arena.slice size]⟩ := by
      simp only [ArenaState.step,h.ready.allocate hsize,Option.map_some]
    refine ⟨_,hstep,hready,h.laid.snoc (s.arena.slice_next size),?_,?_⟩
    · intro r hr
      rcases List.mem_append.mp hr with hr | hr
      · obtain ⟨hblock,hstop⟩ := h.within r hr
        have hnext : r.block < (s.arena.advance size).blocks.length := by
          rw [Arena.length_advance]
          split
          · exact Nat.lt_succ_of_lt hblock
          · exact hblock
        exact ⟨hnext,hstop⟩
      · cases List.mem_singleton.mp hr
        exact ⟨hready.current,hready.offset⟩
    · rw [List.map_append,h.sizes_eq]
      rfl

/-- No call panics, and the slices since the last reset have the lengths asked for, lie in their
blocks and share no byte. -/
theorem arena_slices_disjoint (blockSize : ℕ) (requests : List (Request blockSize)) :
    ∃ s, run requests = some s ∧
      s.slices.Pairwise (fun r q => Disjoint r.cells q.cells) ∧
      (∀ r ∈ s.slices, ∃ block, s.arena.blocks[r.block]? = some block ∧ r.stop ≤ block.length) ∧
      s.slices.map Span.size = requests.foldl Request.asked [] := by
  obtain ⟨s,hrun,hsound⟩ := Runs.exec_simulates (R := Sound blockSize)
    (fun _ _ request h => h.step request) (sound_new blockSize) requests
  refine ⟨s,hrun,hsound.laid.disjoint,fun r hr => ?_,hsound.sizes_eq⟩
  obtain ⟨hblock,hstop⟩ := hsound.within r hr
  have hlength := hsound.ready.blocks _ (List.getElem_mem hblock)
  exact ⟨_,List.getElem?_eq_getElem hblock,by rwa [hlength]⟩

/-! ## Blocks over many resets -/

/-- The offset of the current block and the number of blocks. -/
structure Usage where
  offset : ℕ
  blocks : ℕ

/-- What a call does to them: a block that is too full is followed by a new one, even where an
earlier round left one behind. -/
def Usage.step (u : Usage) : Request blockSize → Usage
  | .allocate size =>
    if blockSize < u.offset + size then ⟨size,u.blocks + 1⟩ else ⟨u.offset + size,u.blocks⟩
  | .reset => ⟨0,u.blocks⟩

structure Uses (blockSize : ℕ) (u : Usage) (s : ArenaState) : Prop where
  ready : s.arena.Ready blockSize
  offset_eq : s.arena.currentOffset = u.offset
  blocks_eq : s.arena.blocks.length = u.blocks

theorem uses_new (blockSize : ℕ) : Uses blockSize ⟨0,1⟩ (new blockSize) where
  ready := Arena.ready_new blockSize
  offset_eq := rfl
  blocks_eq := rfl

theorem Uses.step {u : Usage} (h : Uses blockSize u s) (request : Request blockSize) :
    ∃ t, s.step request = some t ∧ Uses blockSize (u.step request) t := by
  cases request with
  | reset => exact ⟨_,rfl,h.ready.reset,rfl,h.blocks_eq⟩
  | allocate size =>
    have hsize : size.val ≤ blockSize := Nat.le_of_lt_succ size.isLt
    have hstep : s.step (.allocate size) =
        some ⟨s.arena.advance size,s.slices ++ [s.arena.slice size]⟩ := by
      simp only [ArenaState.step,h.ready.allocate hsize,Option.map_some]
    have hoffset := s.arena.offset_advance size
    have hlength := s.arena.length_advance size
    rw [h.ready.size_eq,h.offset_eq] at hoffset hlength
    rw [h.blocks_eq] at hlength
    refine ⟨_,hstep,h.ready.advance hsize,?_,?_⟩
    · rw [hoffset,Usage.step]
      split <;> rfl
    · rw [hlength,Usage.step]
      split <;> rfl

/-- How many times a list of allocations moves on to a new block. -/
def switches (blockSize : ℕ) : ℕ → List ℕ → ℕ
  | _, [] => 0
  | offset, size::sizes =>
    if blockSize < offset + size then switches blockSize size sizes + 1
    else switches blockSize (offset + size) sizes

theorem switches_eq_zero_iff {offset : ℕ} (hoffset : offset ≤ blockSize) (sizes : List ℕ) :
    switches blockSize offset sizes = 0 ↔ offset + sizes.sum ≤ blockSize := by
  induction sizes generalizing offset with
  | nil =>
    rw [List.sum_nil]
    exact iff_of_true rfl hoffset
  | cons size sizes ih =>
    rw [switches,List.sum_cons]
    split
    case isTrue hfull => exact iff_of_false (Nat.succ_ne_zero _) (by omega)
    case isFalse hroom => rw [ih (Nat.le_of_not_lt hroom),Nat.add_assoc]

theorem blocks_allocations (sizes : List (Fin (blockSize + 1))) (u : Usage) :
    ((sizes.map Request.allocate).foldl Usage.step u).blocks =
      u.blocks + switches blockSize u.offset (sizes.map Fin.val) := by
  induction sizes generalizing u with
  | nil => rfl
  | cons size sizes ih =>
    simp only [List.map_cons,List.foldl_cons,ih,switches,Usage.step]
    split
    · exact Nat.succ_add_eq_add_succ _ _
    · rfl

/-- Each round leaves behind as many blocks as it started. -/
theorem blocks_rounds (sizes : List (Fin (blockSize + 1))) (n : ℕ) :
    ((Request.rounds sizes n).foldl Usage.step ⟨0,1⟩).blocks =
      1 + (n + 1) * switches blockSize 0 (sizes.map Fin.val) := by
  induction n with
  | zero => rw [Request.rounds,blocks_allocations,Nat.zero_add,Nat.one_mul]
  | succ n ih =>
    rw [Request.rounds,List.foldl_append,List.foldl_cons,blocks_allocations]
    simp only [Usage.step,ih]
    rw [Nat.succ_mul (n + 1),Nat.add_assoc]

theorem totalAfter_rounds (sizes : List (Fin (blockSize + 1))) (n : ℕ) :
    totalAfter (Request.rounds sizes n) =
      some ((1 + (n + 1) * switches blockSize 0 (sizes.map Fin.val)) * blockSize) := by
  obtain ⟨s,hrun,huses⟩ := Runs.exec_simulates (R := Uses blockSize)
    (fun _ _ request h => h.step request) (uses_new blockSize) (Request.rounds sizes n)
  rw [totalAfter,run,hrun,Option.map_some,Arena.totalAllocated,huses.blocks_eq,huses.ready.size_eq,
    blocks_rounds]

theorem sum_val_le (sizes : List (Fin (blockSize + 1))) :
    (sizes.map Fin.val).sum ≤ sizes.length * blockSize := by
  induction sizes with
  | nil => exact Nat.zero_le _
  | cons size sizes ih =>
    have hsize : size.val ≤ blockSize := Nat.le_of_lt_succ size.isLt
    rw [List.map_cons,List.sum_cons,List.length_cons,Nat.succ_mul]
    omega

/-- The arena keeps its size when the same allocations are repeated exactly when one block holds
them all. -/
theorem arena_reuse_iff (blockSize : ℕ) (sizes : List (Fin (blockSize + 1))) :
    (∃ total, ∀ n, totalAfter (Request.rounds sizes n) = some total) ↔
      (sizes.map Fin.val).sum ≤ blockSize := by
  have hzero := switches_eq_zero_iff (Nat.zero_le blockSize) (sizes.map Fin.val)
  rw [Nat.zero_add] at hzero
  rw [← hzero]
  simp only [totalAfter_rounds,Option.some.injEq]
  constructor
  · rintro ⟨total,htotal⟩
    have hsame := (htotal 0).trans (htotal 1).symm
    rcases Nat.eq_zero_or_pos blockSize with rfl | hpos
    · exact hzero.mpr (sum_val_le sizes)
    · have hblocks := Nat.eq_of_mul_eq_mul_right hpos hsame
      omega
  · intro hswitches
    exact ⟨blockSize,fun n => by rw [hswitches,Nat.mul_zero,Nat.add_zero,Nat.one_mul]⟩

/-- Three allocations that fill two blocks: each round appends one more. -/
theorem arena_reuse_leaks :
    ¬ ∃ total, ∀ n, totalAfter (Request.rounds ([1,1,1] : List (Fin 3)) n) = some total := by
  rintro ⟨total,htotal⟩
  have hsame := (htotal 0).trans (htotal 1).symm
  have hleak : totalAfter (Request.rounds ([1,1,1] : List (Fin 3)) 0) ≠
      totalAfter (Request.rounds ([1,1,1] : List (Fin 3)) 1) := by
    decide
  exact hleak hsame

end ArenaState
end MemoryPool
end UProtocols
