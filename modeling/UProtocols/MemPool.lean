import Mathlib.Data.Int.Notation
import Mathlib.Data.List.Nodup
import UProtocols.Runs

/-!
# The memory pool of the WebSocket frame buffers

`mempool_create`, `mempool_alloc` and `mempool_free` of `websocket_memory_pool.c`. Addresses
are numbers and `NULL` is zero. What `malloc` answers is an input: any address for which the
new region overlaps none that is allocated. The nodes of the three chains are list entries.
-/

namespace UProtocols
namespace FramePool

/-- A block that `malloc` returned. -/
structure Region where
  addr : ℕ
  size : ℕ
  deriving DecidableEq

def Region.Disjoint (r q : Region) : Prop :=
  r.addr + r.size ≤ q.addr ∨ q.addr + q.size ≤ r.addr

instance (r q : Region) : Decidable (r.Disjoint q) := inferInstanceAs (Decidable (_ ∨ _))

/-- The regions that are allocated, the latest first. -/
abbrev Heap := List Region

/-- `malloc(size)` answers with `addr`, which must be fresh. -/
def malloc (heap : Heap) (size addr : ℕ) : Option Heap :=
  if 0 < addr ∧ ∀ r ∈ heap, Region.Disjoint ⟨addr,size⟩ r then some (⟨addr,size⟩::heap) else none

/-- `free(ptr)`. -/
def free (heap : Heap) (ptr : ℕ) : Heap := heap.filter fun r => r.addr != ptr

structure MemBlock where
  data : ℕ
  size : ℕ
  inUse : Bool
  deriving DecidableEq

structure MemPool where
  smallBlocks : List MemBlock
  mediumBlocks : List MemBlock
  largeBlocks : List MemBlock
  allocations : ℕ
  deallocations : ℕ
  deriving DecidableEq

inductive SizeClass
  | small | medium | large
  deriving DecidableEq

namespace SizeClass

/-- `SMALL_FRAME_SIZE`, `MEDIUM_FRAME_SIZE` and `LARGE_FRAME_SIZE`. -/
def frameSize : SizeClass → ℕ
  | small => 128
  | medium => 1024
  | large => 4096

/-- The first class that is large enough, if there is one. -/
def select (size : ℕ) : Option SizeClass :=
  if size ≤ small.frameSize then some small
  else if size ≤ medium.frameSize then some medium
  else if size ≤ large.frameSize then some large
  else none

theorem le_frameSize {size : ℕ} {c : SizeClass} (h : select size = some c) :
    size ≤ c.frameSize := by
  unfold select at h
  split_ifs at h with hsmall hmedium hlarge
  · cases h
    exact hsmall
  · cases h
    exact hmedium
  · cases h
    exact hlarge

theorem frameSize_pos (c : SizeClass) : 0 < c.frameSize := by
  cases c <;> decide

theorem pos_of_select_none {size : ℕ} (h : select size = none) : 0 < size := by
  unfold select at h
  split_ifs at h with hsmall
  omega

end SizeClass

namespace MemPool

def list (p : MemPool) : SizeClass → List MemBlock
  | .small => p.smallBlocks
  | .medium => p.mediumBlocks
  | .large => p.largeBlocks

def setList (p : MemPool) (c : SizeClass) (blocks : List MemBlock) : MemPool :=
  match c with
  | .small => {p with smallBlocks := blocks}
  | .medium => {p with mediumBlocks := blocks}
  | .large => {p with largeBlocks := blocks}

def empty : MemPool := ⟨[],[],[],0,0⟩

/-- One loop of `mempool_create`, a block for each answer of `malloc`. -/
def preallocate (c : SizeClass) : List ℕ → Heap → MemPool → Option (Heap × MemPool)
  | [], heap, p => some (heap,p)
  | answer::answers, heap, p => do
    let heap ← malloc heap c.frameSize answer
    preallocate c answers heap (p.setList c (⟨answer,c.frameSize,false⟩::p.list c))

/-- The numbers of blocks are the lengths of the answers. -/
def mempoolCreate (small medium large : List ℕ) : Option (Heap × MemPool) := do
  let first ← preallocate .small small [] empty
  let second ← preallocate .medium medium first.1 first.2
  preallocate .large large second.1 second.2

/-- The loop that looks for a free block and takes it. -/
def takeFree : List MemBlock → Option (ℕ × List MemBlock)
  | [] => none
  | b::rest =>
    if !b.inUse then some (b.data,{b with inUse := true}::rest)
    else (takeFree rest).map fun result => (result.1,b::result.2)

def mempoolAlloc (heap : Heap) (p : MemPool) (size answer : ℕ) : Option (Heap × MemPool × ℕ) :=
  match SizeClass.select size with
  | none => (malloc heap size answer).map fun heap =>
    (heap,{p with allocations := p.allocations + 1},answer)
  | some c =>
    match takeFree (p.list c) with
    | some (ptr,blocks) =>
      some (heap,{p.setList c blocks with allocations := p.allocations + 1},ptr)
    | none => (malloc heap c.frameSize answer).map fun heap =>
      (heap,{p.setList c (⟨answer,c.frameSize,true⟩::p.list c) with
        allocations := p.allocations + 1},answer)

/-- The inner loop of `mempool_free`: the first block at `ptr` is free again. -/
def markFree (ptr : ℕ) : List MemBlock → Option (List MemBlock)
  | [] => none
  | b::rest =>
    if b.data = ptr then some ({b with inUse := false}::rest)
    else (markFree ptr rest).map (b::·)

/-- The outer loop, over the lists that remain. -/
def markFreeIn (p : MemPool) (ptr : ℕ) : List SizeClass → Option MemPool
  | [] => none
  | c::rest =>
    match markFree ptr (p.list c) with
    | some blocks => some {p.setList c blocks with deallocations := p.deallocations + 1}
    | none => markFreeIn p ptr rest

def mempoolFree (heap : Heap) (p : MemPool) (ptr : ℕ) : Heap × MemPool :=
  if ptr = 0 then (heap,p)
  else
    match p.markFreeIn ptr [.small,.medium,.large] with
    | some q => (heap,q)
    | none => (free heap ptr,{p with deallocations := p.deallocations + 1})

end MemPool

/-! ## Histories -/

/-- The pointers that were returned and not yet freed, with the sizes asked for. -/
structure State where
  heap : Heap
  pool : MemPool
  live : List (ℕ × ℕ)
  deriving DecidableEq

inductive Event
  | alloc (size answer : ℕ)
  | free (ptr : ℕ)
  deriving DecidableEq

namespace State

def pointers (s : State) : List ℕ := s.live.map Prod.fst

/-- A pointer is freed while it is live; `NULL` may always be freed. -/
def step (s : State) : Event → Option State
  | .alloc size answer => (MemPool.mempoolAlloc s.heap s.pool size answer).map fun result =>
    ⟨result.1,result.2.1,(result.2.2,size)::s.live⟩
  | .free ptr =>
    if ptr = 0 ∨ ptr ∈ s.pointers then
      let result := MemPool.mempoolFree s.heap s.pool ptr
      some ⟨result.1,result.2,s.live.filter fun entry => entry.1 != ptr⟩
    else none

def run (small medium large : List ℕ) (events : List Event) : Option State :=
  (MemPool.mempoolCreate small medium large).bind fun result =>
    Runs.exec step ⟨result.1,result.2,[]⟩ events

end State

/-- The blocks of the three lists. -/
def MemPool.blocks (p : MemPool) : List MemBlock :=
  p.smallBlocks ++ (p.mediumBlocks ++ p.largeBlocks)

/-- A region is in use unless it is a block that the pool may hand out again. -/
def InUse (heap : Heap) (p : MemPool) (r : Region) : Prop :=
  r ∈ heap ∧ ∀ b ∈ p.blocks, b.data = r.addr → b.inUse

/-! ## The searches -/

/-- The flag of the blocks at `ptr` becomes `used`. -/
def MemBlock.setUse (ptr : ℕ) (used : Bool) (b : MemBlock) : MemBlock :=
  if b.data = ptr then {b with inUse := used} else b

@[simp] theorem MemBlock.data_setUse (ptr : ℕ) (used : Bool) (b : MemBlock) :
    (b.setUse ptr used).data = b.data := by
  unfold setUse
  split <;> rfl

@[simp] theorem MemBlock.size_setUse (ptr : ℕ) (used : Bool) (b : MemBlock) :
    (b.setUse ptr used).size = b.size := by
  unfold setUse
  split <;> rfl

theorem MemBlock.setUse_self {ptr : ℕ} {b : MemBlock} (h : b.data = ptr) (used : Bool) :
    b.setUse ptr used = {b with inUse := used} := if_pos h

theorem MemBlock.setUse_ne {ptr : ℕ} {b : MemBlock} (h : b.data ≠ ptr) (used : Bool) :
    b.setUse ptr used = b := if_neg h

/-- The addresses of a list of blocks. -/
def addresses (l : List MemBlock) : List ℕ := l.map MemBlock.data

theorem map_setUse_of_notMem {l : List MemBlock} {ptr : ℕ} (h : ptr ∉ addresses l) (used : Bool) :
    l.map (MemBlock.setUse ptr used) = l := by
  induction l with
  | nil => rfl
  | cons b rest ih =>
    simp only [addresses,List.map_cons,List.mem_cons,not_or] at h
    rw [List.map_cons,MemBlock.setUse_ne (Ne.symm h.1),ih h.2]

theorem addresses_map_setUse (l : List MemBlock) (ptr : ℕ) (used : Bool) :
    addresses (l.map (MemBlock.setUse ptr used)) = addresses l := by
  simp [addresses,Function.comp_def]

namespace MemPool

theorem takeFree_eq {l blocks : List MemBlock} {ptr : ℕ} (hnodup : (addresses l).Nodup)
    (h : takeFree l = some (ptr,blocks)) :
    blocks = l.map (MemBlock.setUse ptr true) ∧ ∃ b ∈ l, b.data = ptr ∧ b.inUse = false := by
  induction l generalizing blocks with
  | nil => cases h
  | cons b rest ih =>
    simp only [addresses,List.map_cons,List.nodup_cons] at hnodup
    cases hused : b.inUse with
    | false =>
      simp only [takeFree,hused,Bool.not_false,if_true,Option.some.injEq,Prod.mk.injEq] at h
      obtain ⟨rfl,rfl⟩ := h
      rw [List.map_cons,MemBlock.setUse_self rfl,map_setUse_of_notMem hnodup.1]
      exact ⟨rfl,b,List.mem_cons_self,rfl,hused⟩
    | true =>
      simp only [takeFree,hused,Bool.not_true,Bool.false_eq_true,if_false,Option.map_eq_some_iff,
        Prod.mk.injEq] at h
      obtain ⟨⟨found,after⟩,hfound,rfl,rfl⟩ := h
      obtain ⟨hafter,c,hc,hdata,hfree⟩ := ih hnodup.2 hfound
      have hne : b.data ≠ found := by
        intro heq
        exact hnodup.1 (List.mem_map.mpr ⟨c,hc,hdata.trans heq.symm⟩)
      refine ⟨?_,c,List.mem_cons_of_mem b hc,hdata,hfree⟩
      rw [List.map_cons,MemBlock.setUse_ne hne,← hafter]

theorem markFree_of_notMem {l : List MemBlock} {ptr : ℕ} (h : ptr ∉ addresses l) :
    markFree ptr l = none := by
  induction l with
  | nil => rfl
  | cons b rest ih =>
    simp only [addresses,List.map_cons,List.mem_cons,not_or] at h
    rw [markFree,if_neg (Ne.symm h.1),ih h.2,Option.map_none]

theorem markFree_of_mem {l : List MemBlock} {ptr : ℕ} (hnodup : (addresses l).Nodup)
    (h : ptr ∈ addresses l) : markFree ptr l = some (l.map (MemBlock.setUse ptr false)) := by
  induction l with
  | nil => cases h
  | cons b rest ih =>
    simp only [addresses,List.map_cons,List.nodup_cons] at hnodup
    by_cases heq : b.data = ptr
    · subst heq
      rw [markFree,if_pos rfl,List.map_cons,MemBlock.setUse_self rfl,
        map_setUse_of_notMem hnodup.1]
    · have hrest : ptr ∈ addresses rest := by
        simpa [addresses,Ne.symm heq] using h
      rw [markFree,if_neg heq,ih hnodup.2 hrest,List.map_cons,MemBlock.setUse_ne heq,
        Option.map_some]

/-! ## The pool as a whole -/

def mapBlocks (p : MemPool) (f : MemBlock → MemBlock) : MemPool :=
  {p with smallBlocks := p.smallBlocks.map f, mediumBlocks := p.mediumBlocks.map f,
          largeBlocks := p.largeBlocks.map f}

variable {p : MemPool} {c : SizeClass} {b : MemBlock} {ptr : ℕ}

theorem mem_blocks : b ∈ p.blocks ↔ ∃ c, b ∈ p.list c := by
  simp only [blocks,List.mem_append]
  constructor
  · rintro (h | h | h)
    · exact ⟨.small,h⟩
    · exact ⟨.medium,h⟩
    · exact ⟨.large,h⟩
  · rintro ⟨c,h⟩
    cases c with
    | small => exact .inl h
    | medium => exact .inr (.inl h)
    | large => exact .inr (.inr h)

theorem blocks_mapBlocks (p : MemPool) (f : MemBlock → MemBlock) :
    (p.mapBlocks f).blocks = p.blocks.map f := by
  simp [blocks,mapBlocks]

theorem list_mapBlocks (p : MemPool) (f : MemBlock → MemBlock) (c : SizeClass) :
    (p.mapBlocks f).list c = (p.list c).map f := by
  cases c <;> rfl

/-- Growth of one list, up to order. -/
theorem blocks_cons_perm (p : MemPool) (c : SizeClass) (b : MemBlock) :
    (p.setList c (b::p.list c)).blocks.Perm (b::p.blocks) := by
  cases c with
  | small => exact .refl _
  | medium => exact List.perm_middle
  | large =>
    simp only [blocks,setList,list]
    rw [← List.append_assoc,← List.append_assoc]
    exact List.perm_middle

theorem list_setList_cons {d : SizeClass} {x : MemBlock}
    (h : b ∈ (p.setList c (x::p.list c)).list d) : b ∈ p.list d ∨ d = c ∧ b = x := by
  cases c <;> cases d <;> simp_all [setList,list] <;> tauto

/-- An address lies in one list only. -/
theorem notMem_other_list (hnodup : (addresses p.blocks).Nodup) {d : SizeClass} (hd : d ≠ c)
    (hmem : ptr ∈ addresses (p.list c)) : ptr ∉ addresses (p.list d) := by
  simp only [addresses,blocks,List.map_append,List.nodup_append,List.mem_append] at hnodup
  obtain ⟨-,⟨-,-,hmedium⟩,hsmall⟩ := hnodup
  intro hother
  cases c <;> cases d <;> simp only [list,addresses] at hmem hother
  all_goals first
    | exact hd rfl
    | exact hsmall _ hmem _ (.inl hother) rfl
    | exact hsmall _ hmem _ (.inr hother) rfl
    | exact hsmall _ hother _ (.inl hmem) rfl
    | exact hsmall _ hother _ (.inr hmem) rfl
    | exact hmedium _ hmem _ hother rfl
    | exact hmedium _ hother _ hmem rfl

/-- A change of the flag in the list that holds the address is one in the whole pool. -/
theorem setList_setUse (hnodup : (addresses p.blocks).Nodup) (hmem : ptr ∈ addresses (p.list c))
    (used : Bool) :
    p.setList c ((p.list c).map (MemBlock.setUse ptr used)) =
      p.mapBlocks (MemBlock.setUse ptr used) := by
  have hkeep : ∀ d, d ≠ c → (p.list d).map (MemBlock.setUse ptr used) = p.list d :=
    fun d hd => map_setUse_of_notMem (notMem_other_list hnodup hd hmem) used
  have hsmall := hkeep .small
  have hmedium := hkeep .medium
  have hlarge := hkeep .large
  cases c <;> simp_all [setList,mapBlocks,list]

theorem nodup_list (hnodup : (addresses p.blocks).Nodup) (c : SizeClass) :
    (addresses (p.list c)).Nodup := by
  simp only [addresses,blocks,List.map_append,List.nodup_append] at hnodup
  obtain ⟨hsmall,⟨hmedium,hlarge,-⟩,-⟩ := hnodup
  cases c with
  | small => exact hsmall
  | medium => exact hmedium
  | large => exact hlarge

/-- The three ways through `mempool_alloc`. -/
theorem mempoolAlloc_cases {heap : Heap} {size answer : ℕ} {result : Heap × MemPool × ℕ}
    (hnodup : (addresses p.blocks).Nodup) (h : mempoolAlloc heap p size answer = some result) :
    (∃ c, ∃ b ∈ p.list c, SizeClass.select size = some c ∧ b.inUse = false ∧
      result = (heap,{p.mapBlocks (MemBlock.setUse b.data true) with
        allocations := p.allocations + 1},b.data)) ∨
    (∃ c grown, SizeClass.select size = some c ∧ malloc heap c.frameSize answer = some grown ∧
      result = (grown,{p.setList c (⟨answer,c.frameSize,true⟩::p.list c) with
        allocations := p.allocations + 1},answer)) ∨
    (∃ grown, SizeClass.select size = none ∧ malloc heap size answer = some grown ∧
      result = (grown,{p with allocations := p.allocations + 1},answer)) := by
  unfold mempoolAlloc at h
  cases hselect : SizeClass.select size with
  | none =>
    simp only [hselect,Option.map_eq_some_iff] at h
    obtain ⟨grown,hgrown,rfl⟩ := h
    exact .inr (.inr ⟨grown,rfl,hgrown,rfl⟩)
  | some c =>
    simp only [hselect] at h
    cases hfree : takeFree (p.list c) with
    | none =>
      simp only [hfree,Option.map_eq_some_iff] at h
      obtain ⟨grown,hgrown,rfl⟩ := h
      exact .inr (.inl ⟨c,grown,rfl,hgrown,rfl⟩)
    | some found =>
      obtain ⟨ptr,blocks⟩ := found
      obtain ⟨hblocks,b,hb,rfl,hunused⟩ := takeFree_eq (nodup_list hnodup c) hfree
      have hmem : b.data ∈ addresses (p.list c) := List.mem_map.mpr ⟨b,hb,rfl⟩
      simp only [hfree,hblocks,setList_setUse hnodup hmem,Option.some.injEq] at h
      exact .inl ⟨c,b,hb,rfl,hunused,h.symm⟩

theorem markFreeIn_of_notMem {classes : List SizeClass}
    (h : ∀ c ∈ classes, ptr ∉ addresses (p.list c)) : p.markFreeIn ptr classes = none := by
  induction classes with
  | nil => rfl
  | cons c rest ih =>
    rw [List.forall_mem_cons] at h
    rw [markFreeIn,markFree_of_notMem h.1]
    exact ih h.2

theorem markFreeIn_of_mem (hnodup : (addresses p.blocks).Nodup) {classes : List SizeClass}
    (hc : c ∈ classes) (hmem : ptr ∈ addresses (p.list c)) :
    p.markFreeIn ptr classes = some {p.mapBlocks (MemBlock.setUse ptr false) with
      deallocations := p.deallocations + 1} := by
  induction classes with
  | nil => cases hc
  | cons d rest ih =>
    by_cases heq : d = c
    · subst heq
      simp only [markFreeIn,markFree_of_mem (nodup_list hnodup d) hmem,
        setList_setUse hnodup hmem]
    · have hrest : c ∈ rest := List.mem_of_ne_of_mem (Ne.symm heq) hc
      rw [markFreeIn,markFree_of_notMem (notMem_other_list hnodup heq hmem)]
      exact ih hrest

theorem mem_addresses_blocks : ptr ∈ addresses p.blocks ↔ ∃ c, ptr ∈ addresses (p.list c) := by
  simp only [addresses,List.mem_map,mem_blocks]
  constructor
  · rintro ⟨b,⟨c,hb⟩,rfl⟩
    exact ⟨c,b,hb,rfl⟩
  · rintro ⟨c,b,hb,rfl⟩
    exact ⟨b,⟨c,hb⟩,rfl⟩

/-- `mempool_free` of a block of the pool, and of a pointer that came from `malloc` directly. -/
theorem mempoolFree_block {heap : Heap} (hnodup : (addresses p.blocks).Nodup) (hptr : ptr ≠ 0)
    (hmem : ptr ∈ addresses p.blocks) :
    mempoolFree heap p ptr = (heap,{p.mapBlocks (MemBlock.setUse ptr false) with
      deallocations := p.deallocations + 1}) := by
  obtain ⟨c,hc⟩ := mem_addresses_blocks.mp hmem
  have hclasses : c ∈ [SizeClass.small,.medium,.large] := by
    cases c <;> simp
  rw [mempoolFree,if_neg hptr,markFreeIn_of_mem hnodup hclasses hc]

theorem mempoolFree_direct {heap : Heap} (hptr : ptr ≠ 0) (hmem : ptr ∉ addresses p.blocks) :
    mempoolFree heap p ptr = (free heap ptr,{p with deallocations := p.deallocations + 1}) := by
  have hnone : ∀ c ∈ [SizeClass.small,.medium,.large], ptr ∉ addresses (p.list c) :=
    fun c _ hc => hmem (mem_addresses_blocks.mpr ⟨c,hc⟩)
  rw [mempoolFree,if_neg hptr,markFreeIn_of_notMem hnone]

end MemPool

/-! ## Blocks and regions -/

theorem malloc_eq_some {heap grown : Heap} {size addr : ℕ}
    (h : malloc heap size addr = some grown) :
    grown = ⟨addr,size⟩::heap ∧ 0 < addr ∧ ∀ r ∈ heap, Region.Disjoint ⟨addr,size⟩ r := by
  simp only [malloc,Option.ite_none_right_eq_some,Option.some.injEq] at h
  exact ⟨h.2.symm,h.1⟩

/-- Allocated regions are disjoint and every block of the pool is one of them. -/
structure Layout (heap : Heap) (p : MemPool) : Prop where
  disjoint : heap.Pairwise Region.Disjoint
  positive : ∀ r ∈ heap, 0 < r.addr ∧ 0 < r.size
  nodup : (addresses p.blocks).Nodup
  region : ∀ b ∈ p.blocks, ⟨b.data,b.size⟩ ∈ heap
  size_eq : ∀ c, ∀ b ∈ p.list c, b.size = c.frameSize

namespace Layout

variable {heap grown : Heap} {p : MemPool} {c : SizeClass} {size addr ptr : ℕ}

theorem empty : Layout [] MemPool.empty where
  disjoint := .nil
  positive := nofun
  nodup := List.nodup_nil
  region := nofun
  size_eq := by
    intro c b hb
    cases c <;> cases hb

/-- Counters are no part of the layout. -/
theorem congr {q : MemPool} (h : Layout heap p) (hlist : ∀ c, q.list c = p.list c) :
    Layout heap q := by
  have hblocks : q.blocks = p.blocks := by
    have hsmall := hlist .small
    have hmedium := hlist .medium
    have hlarge := hlist .large
    simp only [MemPool.list] at hsmall hmedium hlarge
    simp only [MemPool.blocks,hsmall,hmedium,hlarge]
  exact { disjoint := h.disjoint
          positive := h.positive
          nodup := hblocks ▸ h.nodup
          region := hblocks ▸ h.region
          size_eq := fun c => hlist c ▸ h.size_eq c }

/-- No region of the heap starts where `malloc` puts a new one. -/
theorem addr_ne (h : Layout heap p) (hmalloc : malloc heap size addr = some grown) (hpos : 0 < size)
    {r : Region} (hr : r ∈ heap) : r.addr ≠ addr := by
  obtain ⟨-,-,hfresh⟩ := malloc_eq_some hmalloc
  have hdisjoint := hfresh r hr
  have hsize := (h.positive r hr).2
  simp only [Region.Disjoint] at hdisjoint
  omega

theorem notMem_addresses (h : Layout heap p) (hmalloc : malloc heap size addr = some grown)
    (hpos : 0 < size) : addr ∉ addresses p.blocks := by
  intro hmem
  obtain ⟨b,hb,rfl⟩ := List.mem_map.mp hmem
  exact h.addr_ne hmalloc hpos (h.region b hb) rfl

theorem malloc (h : Layout heap p) (hmalloc : malloc heap size addr = some grown)
    (hpos : 0 < size) : Layout grown p := by
  obtain ⟨rfl,haddr,hfresh⟩ := malloc_eq_some hmalloc
  exact {h with disjoint := List.pairwise_cons.mpr ⟨hfresh,h.disjoint⟩
                positive := List.forall_mem_cons.mpr ⟨⟨haddr,hpos⟩,h.positive⟩
                region := fun b hb => List.mem_cons_of_mem _ (h.region b hb)}

/-- A new block of the size of its list. -/
theorem addBlock (h : Layout heap p) (hmalloc : FramePool.malloc heap c.frameSize addr = some grown)
    (used : Bool) : Layout grown (p.setList c (⟨addr,c.frameSize,used⟩::p.list c)) := by
  have hnew := h.malloc hmalloc c.frameSize_pos
  obtain ⟨rfl,-,-⟩ := malloc_eq_some hmalloc
  have hperm := p.blocks_cons_perm c ⟨addr,c.frameSize,used⟩
  refine {hnew with nodup := ?_, region := fun b hb => ?_, size_eq := fun d b hb => ?_}
  · refine (hperm.map MemBlock.data).nodup_iff.mpr ?_
    exact List.nodup_cons.mpr ⟨h.notMem_addresses hmalloc c.frameSize_pos,h.nodup⟩
  · rcases List.mem_cons.mp (hperm.mem_iff.mp hb) with rfl | hold
    · exact List.mem_cons_self
    · exact hnew.region b hold
  · rcases MemPool.list_setList_cons hb with hold | ⟨rfl,rfl⟩
    · exact h.size_eq d b hold
    · rfl

theorem setUse (h : Layout heap p) (ptr : ℕ) (used : Bool) :
    Layout heap (p.mapBlocks (MemBlock.setUse ptr used)) := by
  refine {h with nodup := ?_, region := fun b hb => ?_, size_eq := fun c b hb => ?_}
  · rw [MemPool.blocks_mapBlocks,addresses_map_setUse]
    exact h.nodup
  · rw [MemPool.blocks_mapBlocks] at hb
    obtain ⟨old,hold,rfl⟩ := List.mem_map.mp hb
    simpa using h.region old hold
  · rw [MemPool.list_mapBlocks] at hb
    obtain ⟨old,hold,rfl⟩ := List.mem_map.mp hb
    simpa using h.size_eq c old hold

theorem free (h : Layout heap p) (hptr : ptr ∉ addresses p.blocks) :
    Layout (free heap ptr) p := by
  refine {h with disjoint := h.disjoint.filter _, positive := fun r hr => ?_,
                 region := fun b hb => ?_}
  · exact h.positive r (List.mem_of_mem_filter hr)
  · refine List.mem_filter.mpr ⟨h.region b hb,?_⟩
    have hne : b.data ≠ ptr := fun heq => hptr (List.mem_map.mpr ⟨b,hb,heq⟩)
    simpa using hne

theorem preallocate {answers : List ℕ} (h : Layout heap p) {result : Heap × MemPool}
    (hresult : MemPool.preallocate c answers heap p = some result) :
    Layout result.1 result.2 ∧ result.2.allocations = p.allocations ∧
      result.2.deallocations = p.deallocations := by
  induction answers generalizing heap p with
  | nil =>
    cases hresult
    exact ⟨h,rfl,rfl⟩
  | cons answer answers ih =>
    obtain ⟨grown,hgrown,hrest⟩ := Option.bind_eq_some_iff.mp hresult
    obtain ⟨hlayout,halloc,hdealloc⟩ := ih (h.addBlock hgrown false) hrest
    refine ⟨hlayout,halloc.trans ?_,hdealloc.trans ?_⟩
    · cases c <;> rfl
    · cases c <;> rfl

theorem mempoolCreate {small medium large : List ℕ} {result : Heap × MemPool}
    (hresult : MemPool.mempoolCreate small medium large = some result) :
    Layout result.1 result.2 ∧ result.2.allocations = 0 ∧ result.2.deallocations = 0 := by
  obtain ⟨first,hfirst,hrest⟩ := Option.bind_eq_some_iff.mp hresult
  obtain ⟨second,hsecond,hthird⟩ := Option.bind_eq_some_iff.mp hrest
  obtain ⟨hlayout₁,halloc₁,hdealloc₁⟩ := empty.preallocate hfirst
  obtain ⟨hlayout₂,halloc₂,hdealloc₂⟩ := hlayout₁.preallocate hsecond
  obtain ⟨hlayout₃,halloc₃,hdealloc₃⟩ := hlayout₂.preallocate hthird
  exact ⟨hlayout₃,halloc₃.trans (halloc₂.trans halloc₁),hdealloc₃.trans (hdealloc₂.trans hdealloc₁)⟩

end Layout

/-! ## What is in use -/

section InUse

variable {heap grown : Heap} {p : MemPool} {r : Region} {ptr : ℕ}

theorem inUse_markFree (hmem : ptr ∈ addresses p.blocks) :
    InUse heap (p.mapBlocks (MemBlock.setUse ptr false)) r ↔
      InUse heap p r ∧ r.addr ≠ ptr := by
  obtain ⟨x,hx,hdata⟩ := List.mem_map.mp hmem
  simp only [InUse,MemPool.blocks_mapBlocks,List.forall_mem_map,MemBlock.data_setUse]
  constructor
  · rintro ⟨hr,hused⟩
    have hne : r.addr ≠ ptr := by
      intro heq
      have hx' := hused x hx (hdata.trans heq.symm)
      rw [MemBlock.setUse_self hdata] at hx'
      cases hx'
    refine ⟨⟨hr,fun b hb hbr => ?_⟩,hne⟩
    have hb' := hused b hb hbr
    rwa [MemBlock.setUse_ne (hbr ▸ hne)] at hb'
  · rintro ⟨⟨hr,hused⟩,hne⟩
    refine ⟨hr,fun b hb hbr => ?_⟩
    rw [MemBlock.setUse_ne (hbr ▸ hne)]
    exact hused b hb hbr

/-- Taking a block keeps what is in use, and the region of that block is. -/
theorem inUse_take (hr : r ∈ heap) (h : InUse heap p r ∨ r.addr = ptr) :
    InUse heap (p.mapBlocks (MemBlock.setUse ptr true)) r := by
  simp only [InUse,MemPool.blocks_mapBlocks,List.forall_mem_map,MemBlock.data_setUse]
  refine ⟨hr,fun b hb hbr => ?_⟩
  by_cases heq : b.data = ptr
  · rw [MemBlock.setUse_self heq]
  · rw [MemBlock.setUse_ne heq]
    exact (h.resolve_right fun haddr => heq (hbr.trans haddr)).2 b hb hbr

theorem inUse_free : InUse (free heap ptr) p r ↔ InUse heap p r ∧ r.addr ≠ ptr := by
  simp only [InUse,free,List.mem_filter,bne_iff_ne]
  constructor
  · rintro ⟨⟨hr,hne⟩,hused⟩
    exact ⟨⟨hr,hused⟩,hne⟩
  · rintro ⟨⟨hr,hused⟩,hne⟩
    exact ⟨⟨hr,hne⟩,hused⟩

/-- A new region in the heap, whether or not a used block of the pool lies there. -/
theorem inUse_grow {q : MemPool} {size : ℕ} (hlayout : Layout heap p)
    (hmalloc : malloc heap size ptr = some grown) (hpos : 0 < size)
    (hblocks : ∀ b ∈ q.blocks, b.inUse ∨ b ∈ p.blocks)
    (h : InUse heap p r ∨ r = ⟨ptr,size⟩) : InUse grown q r := by
  have hfresh := hlayout.notMem_addresses hmalloc hpos
  obtain ⟨rfl,-,-⟩ := malloc_eq_some hmalloc
  rcases h with ⟨hr,hused⟩ | rfl
  · refine ⟨List.mem_cons_of_mem _ hr,fun b hb hbr => ?_⟩
    rcases hblocks b hb with hnew | hold
    · exact hnew
    · exact hused b hold hbr
  · refine ⟨List.mem_cons_self,fun b hb hbr => ?_⟩
    rcases hblocks b hb with hnew | hold
    · exact hnew
    · exact absurd (List.mem_map.mpr ⟨b,hold,hbr⟩) hfresh

end InUse

/-! ## Histories keep the pool sound -/

namespace State

/-- Live pointers are distinct and each has a region in use of the size asked for. -/
structure Sound (s : State) : Prop where
  layout : Layout s.heap s.pool
  nodup : s.pointers.Nodup
  region : ∀ entry ∈ s.live, ∃ r, InUse s.heap s.pool r ∧ r.addr = entry.1 ∧ entry.2 ≤ r.size
  counts : s.pool.allocations = s.pool.deallocations + s.live.length

variable {s t : State} {ptr size answer : ℕ}

theorem Sound.pos (h : s.Sound) (hptr : ptr ∈ s.pointers) : ptr ≠ 0 := by
  obtain ⟨entry,hentry,rfl⟩ := List.mem_map.mp hptr
  obtain ⟨r,hr,haddr,-⟩ := h.region entry hentry
  have hpos := (h.layout.positive r hr.1).1
  omega

/-- A pointer that had no region in use joins the live ones. -/
theorem Sound.join (h : s.Sound) {heap : Heap} {p : MemPool} (hlayout : Layout heap p)
    (hfresh : ptr ∉ s.pointers) (hkeep : ∀ r, InUse s.heap s.pool r → InUse heap p r)
    {r : Region} (hr : InUse heap p r) (haddr : r.addr = ptr) (hsize : size ≤ r.size)
    (halloc : p.allocations = s.pool.allocations + 1)
    (hdealloc : p.deallocations = s.pool.deallocations) :
    Sound ⟨heap,p,(ptr,size)::s.live⟩ where
  layout := hlayout
  nodup := List.nodup_cons.mpr ⟨hfresh,h.nodup⟩
  region := by
    refine List.forall_mem_cons.mpr ⟨⟨r,hr,haddr,hsize⟩,fun entry hentry => ?_⟩
    obtain ⟨q,hq,hrest⟩ := h.region entry hentry
    exact ⟨q,hkeep q hq,hrest⟩
  counts := by
    have hcounts := h.counts
    rw [List.length_cons,halloc,hdealloc]
    omega

theorem Sound.alloc (h : s.Sound) {result : Heap × MemPool × ℕ}
    (hresult : MemPool.mempoolAlloc s.heap s.pool size answer = some result) :
    Sound ⟨result.1,result.2.1,(result.2.2,size)::s.live⟩ := by
  have hlayout := h.layout
  -- the address of a live pointer has a region, so `malloc` does not answer with it
  have hfresh : ∀ {n : ℕ} {grown : Heap}, malloc s.heap n answer = some grown → 0 < n →
      answer ∉ s.pointers := by
    intro n grown hmalloc hpos hmem
    obtain ⟨entry,hentry,heq⟩ := List.mem_map.mp hmem
    obtain ⟨r,hr,haddr,-⟩ := h.region entry hentry
    exact hlayout.addr_ne hmalloc hpos hr.1 (haddr.trans heq)
  rcases MemPool.mempoolAlloc_cases hlayout.nodup hresult with
    ⟨c,b,hb,hselect,hunused,rfl⟩ | ⟨c,grown,hselect,hgrown,rfl⟩ | ⟨grown,hselect,hgrown,rfl⟩
  · have hblock : b ∈ s.pool.blocks := MemPool.mem_blocks.mpr ⟨c,hb⟩
    have hregion := hlayout.region b hblock
    refine h.join ((hlayout.setUse b.data true).congr ?_) (fun hmem => ?_)
      (fun r hr => inUse_take hr.1 (.inl hr)) (inUse_take hregion (.inr rfl)) rfl ?_ rfl rfl
    · intro c
      cases c <;> rfl
    · obtain ⟨entry,hentry,heq⟩ := List.mem_map.mp hmem
      obtain ⟨r,hr,haddr,-⟩ := h.region entry hentry
      have hused := hr.2 b hblock (heq.symm.trans haddr.symm)
      rw [hunused] at hused
      cases hused
    · show size ≤ b.size
      rw [hlayout.size_eq c b hb]
      exact SizeClass.le_frameSize hselect
  · have hpos := c.frameSize_pos
    have hblocks : ∀ x ∈ (s.pool.setList c (⟨answer,c.frameSize,true⟩::s.pool.list c)).blocks,
        x.inUse ∨ x ∈ s.pool.blocks := by
      intro x hx
      rcases List.mem_cons.mp ((s.pool.blocks_cons_perm c _).mem_iff.mp hx) with rfl | hold
      · exact .inl rfl
      · exact .inr hold
    refine h.join ((hlayout.addBlock hgrown true).congr ?_) (hfresh hgrown hpos)
      (fun r hr => inUse_grow hlayout hgrown hpos hblocks (.inl hr))
      (inUse_grow hlayout hgrown hpos hblocks (.inr rfl)) rfl
      (SizeClass.le_frameSize hselect) rfl ?_
    · intro d
      cases c <;> cases d <;> rfl
    · cases c <;> rfl
  · have hpos := SizeClass.pos_of_select_none hselect
    have hblocks : ∀ x ∈ s.pool.blocks, x.inUse ∨ x ∈ s.pool.blocks := fun x hx => .inr hx
    refine h.join ((hlayout.malloc hgrown hpos).congr ?_) (hfresh hgrown hpos)
      (fun r hr => inUse_grow hlayout hgrown hpos hblocks (.inl hr))
      (inUse_grow hlayout hgrown hpos hblocks (.inr rfl)) rfl (Nat.le_refl _) rfl rfl
    intro c
    cases c <;> rfl

/-- `mempool_free` of a live pointer: of all regions in use just the one at the pointer is no
longer. -/
theorem Sound.free_inUse (h : s.Sound) (hptr : ptr ∈ s.pointers) (r : Region) :
    InUse (MemPool.mempoolFree s.heap s.pool ptr).1 (MemPool.mempoolFree s.heap s.pool ptr).2 r ↔
      InUse s.heap s.pool r ∧ r.addr ≠ ptr := by
  by_cases hmem : ptr ∈ addresses s.pool.blocks
  · rw [MemPool.mempoolFree_block h.layout.nodup (h.pos hptr) hmem]
    exact inUse_markFree hmem
  · rw [MemPool.mempoolFree_direct (h.pos hptr) hmem]
    exact inUse_free

/-- A block of the pool is then one that `mempool_alloc` may take. -/
theorem Sound.free_reusable (h : s.Sound) (hptr : ptr ∈ s.pointers) {c : SizeClass} {b : MemBlock}
    (hb : b ∈ s.pool.list c) (hdata : b.data = ptr) :
    {b with inUse := false} ∈ (MemPool.mempoolFree s.heap s.pool ptr).2.list c := by
  have hmem : ptr ∈ addresses s.pool.blocks :=
    List.mem_map.mpr ⟨b,MemPool.mem_blocks.mpr ⟨c,hb⟩,hdata⟩
  rw [MemPool.mempoolFree_block h.layout.nodup (h.pos hptr) hmem]
  have hmapped : b.setUse ptr false ∈ (s.pool.mapBlocks (MemBlock.setUse ptr false)).list c := by
    rw [MemPool.list_mapBlocks]
    exact List.mem_map_of_mem hb
  rw [MemBlock.setUse_self hdata] at hmapped
  cases c <;> exact hmapped

theorem Sound.free_layout (h : s.Sound) (hptr : ptr ∈ s.pointers) :
    Layout (MemPool.mempoolFree s.heap s.pool ptr).1 (MemPool.mempoolFree s.heap s.pool ptr).2 ∧
      (MemPool.mempoolFree s.heap s.pool ptr).2.allocations = s.pool.allocations ∧
      (MemPool.mempoolFree s.heap s.pool ptr).2.deallocations = s.pool.deallocations + 1 := by
  by_cases hmem : ptr ∈ addresses s.pool.blocks
  · rw [MemPool.mempoolFree_block h.layout.nodup (h.pos hptr) hmem]
    refine ⟨(h.layout.setUse ptr false).congr fun c => ?_,rfl,rfl⟩
    cases c <;> rfl
  · rw [MemPool.mempoolFree_direct (h.pos hptr) hmem]
    refine ⟨(h.layout.free hmem).congr fun c => ?_,rfl,rfl⟩
    cases c <;> rfl

theorem length_filter_ne {live : List (ℕ × ℕ)} (hnodup : (live.map Prod.fst).Nodup)
    (hptr : ptr ∈ live.map Prod.fst) :
    (live.filter fun entry => entry.1 != ptr).length + 1 = live.length := by
  have herase : ((live.map Prod.fst).erase ptr).length + 1 = live.length := by
    rw [List.length_erase_of_mem hptr,List.length_map]
    have hpos : 0 < live.length := by
      rw [← List.length_map Prod.fst]
      exact List.length_pos_of_mem hptr
    omega
  rw [← herase,hnodup.erase_eq_filter,List.filter_map,List.length_map]
  rfl

theorem Sound.free (h : s.Sound) (hptr : ptr ∈ s.pointers) :
    Sound ⟨(MemPool.mempoolFree s.heap s.pool ptr).1,(MemPool.mempoolFree s.heap s.pool ptr).2,
      s.live.filter fun entry => entry.1 != ptr⟩ := by
  obtain ⟨hlayout,halloc,hdealloc⟩ := h.free_layout hptr
  have hlength := length_filter_ne h.nodup hptr
  have hcounts := h.counts
  refine ⟨hlayout,?_,fun entry hentry => ?_,?_⟩
  · exact ((List.filter_sublist).map Prod.fst).nodup h.nodup
  · obtain ⟨hlive,hne⟩ := List.mem_filter.mp hentry
    obtain ⟨r,hr,haddr,hsize⟩ := h.region entry hlive
    refine ⟨r,(h.free_inUse hptr r).mpr ⟨hr,?_⟩,haddr,hsize⟩
    rw [haddr]
    simpa using hne
  · simp only [halloc,hdealloc]
    omega

theorem Sound.step {e : Event} (hstep : s.step e = some t) (h : s.Sound) : t.Sound := by
  cases e with
  | alloc size answer =>
    obtain ⟨result,hresult,rfl⟩ := Option.map_eq_some_iff.mp hstep
    exact h.alloc hresult
  | free ptr =>
    simp only [State.step,Option.ite_none_right_eq_some,Option.some.injEq] at hstep
    obtain ⟨hallowed,rfl⟩ := hstep
    by_cases hlive : ptr ∈ s.pointers
    · exact h.free hlive
    · -- `NULL` is never live, and freeing it changes nothing
      have hnull : ptr = 0 := hallowed.resolve_right hlive
      have hfilter : (s.live.filter fun entry => entry.1 != ptr) = s.live := by
        refine List.filter_eq_self.mpr fun entry hentry => ?_
        have hne : entry.1 ≠ ptr := fun heq => hlive (List.mem_map.mpr ⟨entry,hentry,heq⟩)
        simpa using hne
      rw [hfilter,hnull]
      exact h

end State

/-- In every history of allocations and of frees of live pointers: live pointers are distinct,
each has a region in use of at least the size asked for, freeing one makes its block reusable and
ends the use of exactly its region, and the counters differ by the number of live pointers. -/
theorem memPool_sound (small medium large : List ℕ) (events : List Event) {s : State}
    (hrun : State.run small medium large events = some s) :
    s.pointers.Nodup ∧
      (∀ entry ∈ s.live, ∃ r, InUse s.heap s.pool r ∧ r.addr = entry.1 ∧ entry.2 ≤ r.size) ∧
      (∀ ptr ∈ s.pointers, ∃ t, s.step (.free ptr) = some t ∧
        (∀ c, ∀ b ∈ s.pool.list c, b.data = ptr → {b with inUse := false} ∈ t.pool.list c) ∧
        ∀ r, InUse t.heap t.pool r ↔ InUse s.heap s.pool r ∧ r.addr ≠ ptr) ∧
      (s.pool.allocations : ℤ) - s.pool.deallocations = s.live.length ∧
      s.heap.Pairwise Region.Disjoint := by
  obtain ⟨created,hcreated,hexec⟩ := Option.bind_eq_some_iff.mp hrun
  obtain ⟨hlayout,halloc,hdealloc⟩ := Layout.mempoolCreate hcreated
  have hinit : State.Sound ⟨created.1,created.2,[]⟩ :=
    ⟨hlayout,List.nodup_nil,nofun,halloc.trans hdealloc.symm⟩
  have hsound : s.Sound := Runs.exec_invariant (fun s e t hstep h => h.step hstep) hexec hinit
  refine ⟨hsound.nodup,hsound.region,fun ptr hptr => ?_,?_,hsound.layout.disjoint⟩
  · refine ⟨_,if_pos (.inr hptr),fun c b hb hdata => ?_,hsound.free_inUse hptr⟩
    exact hsound.free_reusable hptr hb hdata
  · have hcounts := hsound.counts
    omega

/-- A reused block, a grown list and a direct allocation, one of them freed. -/
theorem memPool_sound_mixed :
    ∃ s, State.run [1000] [] [] [.alloc 100 0,.alloc 60 2000,.alloc 5000 9000,.free 1000,
        .alloc 128 0] = some s ∧
      s.live = [(1000,128),(9000,5000),(2000,60)] ∧ s.pointers.Nodup := by
  have hlive : (State.run [1000] [] [] [.alloc 100 0,.alloc 60 2000,.alloc 5000 9000,.free 1000,
      .alloc 128 0]).map State.live = some [(1000,128),(9000,5000),(2000,60)] := by decide
  obtain ⟨s,hs,hlist⟩ := Option.map_eq_some_iff.mp hlive
  exact ⟨s,hs,hlist,(memPool_sound [1000] [] [] _ hs).1⟩

end FramePool
end UProtocols
