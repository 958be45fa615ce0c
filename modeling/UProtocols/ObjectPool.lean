import Mathlib.Data.Int.Notation
import Mathlib.Data.List.Nodup
import UProtocols.Runs

/-!
# The object pool of the WebSocket memory management

`ObjectPool`, `ThreadSafePool` and their handles of `websocket_memory_pool.rs`. A pool hands out
the indices of its objects; a plain handle is given back by `release` and one that is dropped
without it keeps its object in use for ever, a thread-safe handle is given back by its drop. The
mutex makes every call one step. An index outside a vector panics in the source: such a call
has no result here.
-/

namespace UProtocols
namespace MemoryPool

variable {T : Type}

structure ObjectPool (T : Type) where
  objects : List T
  available : List ℕ
  inUse : List Bool
  maxSize : ℕ
  allocations : ℕ
  deallocations : ℕ
  deriving DecidableEq

structure PooledObject where
  index : ℕ
  deriving DecidableEq

namespace ObjectPool

/-- The loop of `new` appends an object, its index and its flag `initial_size` times. -/
def new [Inhabited T] (initialSize maxSize : ℕ) : ObjectPool T where
  objects := List.replicate initialSize default
  available := List.range initialSize
  inUse := List.replicate initialSize false
  maxSize
  allocations := 0
  deallocations := 0

def acquire [Inhabited T] (p : ObjectPool T) : Option (ObjectPool T × Option PooledObject) :=
  match p.available with
  | idx::rest =>
    if idx < p.inUse.length then
      some ({p with available := rest, inUse := p.inUse.set idx true,
                    allocations := p.allocations + 1},some ⟨idx⟩)
    else none
  | [] =>
    if p.objects.length < p.maxSize then
      some ({p with objects := p.objects ++ [default], inUse := p.inUse ++ [true],
                    allocations := p.allocations + 1},some ⟨p.objects.length⟩)
    else some (p,none)

/-- The lines that `release` and the drop of a thread-safe handle share. -/
def giveBack (p : ObjectPool T) (idx : ℕ) : ObjectPool T :=
  if p.inUse.getD idx false then
    {p with available := p.available ++ [idx], inUse := p.inUse.set idx false,
            deallocations := p.deallocations + 1}
  else p

def release (p : ObjectPool T) (obj : PooledObject) : ObjectPool T := p.giveBack obj.index

/-- The object behind a handle; the length that is checked is not the one of `in_use`. -/
def getMut (p : ObjectPool T) (obj : PooledObject) : Option (Option T) :=
  if obj.index < p.objects.length then
    (p.inUse[obj.index]?).map fun used => if used then p.objects[obj.index]? else none
  else some none

end ObjectPool

structure ThreadSafePooledObject where
  inner : PooledObject
  deriving DecidableEq

def ThreadSafePooledObject.drop (obj : ThreadSafePooledObject) (p : ObjectPool T) : ObjectPool T :=
  p.giveBack obj.inner.index

inductive Handle
  | plain (obj : PooledObject)
  | threadSafe (obj : ThreadSafePooledObject)
  deriving DecidableEq

namespace Handle

def object : Handle → PooledObject
  | plain obj => obj
  | threadSafe obj => obj.inner

/-- A plain handle has no drop code. -/
def drop (p : ObjectPool T) : Handle → ObjectPool T
  | plain _ => p
  | threadSafe obj => obj.drop p

def wrap (isThreadSafe : Bool) (obj : PooledObject) : Handle :=
  if isThreadSafe then threadSafe ⟨obj⟩ else plain obj

@[simp] theorem object_wrap (isThreadSafe : Bool) (obj : PooledObject) :
    (wrap isThreadSafe obj).object = obj := by
  cases isThreadSafe <;> rfl

end Handle

/-! ## Histories -/

/-- A pool and the handles on it that are alive. -/
structure State (T : Type) where
  pool : ObjectPool T
  live : List Handle
  deriving DecidableEq

inductive Event
  | acquire (isThreadSafe : Bool)
  | release (k : ℕ)
  | drop (k : ℕ)
  deriving DecidableEq

namespace State

/-- `release` takes a plain handle by value, so neither it nor a drop leaves the handle alive. -/
def step [Inhabited T] (s : State T) : Event → Option (State T)
  | .acquire isThreadSafe => s.pool.acquire.map fun result =>
    ⟨result.1,s.live ++ (result.2.map (Handle.wrap isThreadSafe)).toList⟩
  | .release k =>
    match s.live[k]? with
    | some (.plain obj) => some ⟨s.pool.release obj,s.live.eraseIdx k⟩
    | _ => none
  | .drop k =>
    match s.live[k]? with
    | some handle => some ⟨handle.drop s.pool,s.live.eraseIdx k⟩
    | none => none

def run (T : Type) [Inhabited T] (initialSize maxSize : ℕ) (events : List Event) :
    Option (State T) :=
  Runs.exec step ⟨ObjectPool.new initialSize maxSize,[]⟩ events

def indices (s : State T) : List ℕ := s.live.map fun handle => handle.object.index

end State

/-! ## The pool -/

namespace ObjectPool

/-- The three collections agree, and the counters with them. -/
structure Balanced (p : ObjectPool T) (initialSize maxSize : ℕ) : Prop where
  length_inUse : p.inUse.length = p.objects.length
  maxSize_eq : p.maxSize = maxSize
  size_le : p.objects.length ≤ max initialSize maxSize
  available_nodup : p.available.Nodup
  mem_available : ∀ i, i ∈ p.available ↔ p.inUse[i]? = some false
  counts : p.deallocations + p.inUse.count true = p.allocations

theorem balanced_new [Inhabited T] (initialSize maxSize : ℕ) :
    (new initialSize maxSize : ObjectPool T).Balanced initialSize maxSize where
  length_inUse := by simp [new]
  maxSize_eq := rfl
  size_le := by
    rw [new,List.length_replicate]
    exact Nat.le_max_left _ _
  available_nodup := List.nodup_range
  mem_available := by
    intro i
    simp [new,List.getElem?_replicate]
  counts := by simp [new,List.count_replicate]

variable {p : ObjectPool T} {initialSize maxSize idx : ℕ}

/-- The three ways through `acquire`. -/
theorem acquire_cons [Inhabited T] {rest : List ℕ} (hqueue : p.available = idx::rest)
    (hlt : idx < p.inUse.length) :
    p.acquire = some ({p with available := rest, inUse := p.inUse.set idx true,
                              allocations := p.allocations + 1},some ⟨idx⟩) := by
  simp [acquire,hqueue,hlt]

theorem acquire_grow [Inhabited T] (hqueue : p.available = [])
    (hroom : p.objects.length < p.maxSize) :
    p.acquire = some ({p with objects := p.objects ++ [default], inUse := p.inUse ++ [true],
                              allocations := p.allocations + 1},some ⟨p.objects.length⟩) := by
  simp [acquire,hqueue,hroom]

theorem acquire_exhausted [Inhabited T] (hqueue : p.available = [])
    (hfull : ¬ p.objects.length < p.maxSize) : p.acquire = some (p,none) := by
  simp [acquire,hqueue,hfull]

/-- An index that is not in use is taken from the queue. -/
theorem Balanced.take (h : p.Balanced initialSize maxSize) {rest : List ℕ}
    (hqueue : p.available = idx::rest) :
    Balanced {p with available := rest, inUse := p.inUse.set idx true,
                     allocations := p.allocations + 1} initialSize maxSize := by
  have hunused : p.inUse[idx]? = some false := by
    rw [← h.mem_available,hqueue]
    exact List.mem_cons_self
  obtain ⟨hlt,hget⟩ := List.getElem?_eq_some_iff.mp hunused
  have hnodup := h.available_nodup
  rw [hqueue,List.nodup_cons] at hnodup
  refine {h with length_inUse := ?_, available_nodup := hnodup.2, mem_available := ?_, counts := ?_}
  · rw [List.length_set]
    exact h.length_inUse
  · intro i
    have hmem := h.mem_available i
    rw [hqueue,List.mem_cons] at hmem
    by_cases heq : i = idx
    · subst heq
      simp [List.getElem?_set_self hlt,hnodup.1]
    · rw [List.getElem?_set_ne (Ne.symm heq),← hmem]
      simp [heq]
  · have hcounts := h.counts
    have hcount : (p.inUse.set idx true).count true = p.inUse.count true + 1 := by
      simp [List.count_set hlt,hget]
    simp only [hcount]
    omega

/-- The growth branch of `acquire`, when the queue is empty. -/
theorem Balanced.grow [Inhabited T] (h : p.Balanced initialSize maxSize)
    (hroom : p.objects.length < p.maxSize) :
    Balanced {p with objects := p.objects ++ [default], inUse := p.inUse ++ [true],
                     allocations := p.allocations + 1} initialSize maxSize := by
  have hmax := h.maxSize_eq
  refine {h with length_inUse := ?_, size_le := ?_, mem_available := ?_, counts := ?_}
  · simp [h.length_inUse]
  · rw [List.length_append,List.length_singleton]
    omega
  · intro i
    rw [h.mem_available i,List.getElem?_append]
    by_cases hlt : i < p.inUse.length
    · simp [hlt]
    · simp [hlt,List.getElem?_singleton]
  · have hcounts := h.counts
    simp only [List.count_append,List.count_singleton_self]
    omega

theorem giveBack_eq (hused : p.inUse[idx]? = some true) :
    p.giveBack idx = {p with available := p.available ++ [idx], inUse := p.inUse.set idx false,
                             deallocations := p.deallocations + 1} := by
  simp [giveBack,hused]

theorem Balanced.giveBack (h : p.Balanced initialSize maxSize) (hused : p.inUse[idx]? = some true) :
    (p.giveBack idx).Balanced initialSize maxSize := by
  obtain ⟨hlt,hget⟩ := List.getElem?_eq_some_iff.mp hused
  have hfresh : idx ∉ p.available := by
    rw [h.mem_available,hused]
    simp
  rw [giveBack_eq hused]
  refine {h with length_inUse := ?_, available_nodup := ?_, mem_available := ?_, counts := ?_}
  · rw [List.length_set]
    exact h.length_inUse
  · rw [← List.concat_eq_append,List.nodup_concat]
    exact ⟨hfresh,h.available_nodup⟩
  · intro i
    rw [List.mem_append,List.mem_singleton,h.mem_available i]
    by_cases heq : i = idx
    · subst heq
      simp [List.getElem?_set_self hlt]
    · rw [List.getElem?_set_ne (Ne.symm heq)]
      simp [heq]
  · have hcounts := h.counts
    have hpos : 0 < p.inUse.count true := List.count_pos_iff.mpr (List.mem_of_getElem? hused)
    have hcount : (p.inUse.set idx false).count true = p.inUse.count true - 1 := by
      simp [List.count_set hlt,hget]
    simp only [hcount]
    omega

end ObjectPool

/-! ## The handles -/

namespace State

/-- Live handles point to objects in use, no two of them to the same. -/
structure Owned (s : State T) (initialSize maxSize : ℕ) : Prop where
  balanced : s.pool.Balanced initialSize maxSize
  indices_nodup : s.indices.Nodup
  used : ∀ i : ℕ, i ∈ s.indices → s.pool.inUse[i]? = some true

variable {s t : State T} {initialSize maxSize : ℕ}

theorem Owned.used_object (h : s.Owned initialSize maxSize) {handle : Handle}
    (hlive : handle ∈ s.live) : s.pool.inUse[handle.object.index]? = some true :=
  h.used _ (List.mem_map.mpr ⟨handle,hlive,rfl⟩)

/-- A new handle on an object that was not in use joins the others. -/
theorem Owned.join (h : s.Owned initialSize maxSize) {p : ObjectPool T}
    (hp : p.Balanced initialSize maxSize) {handle : Handle}
    (hfresh : s.pool.inUse[handle.object.index]? ≠ some true)
    (hnew : p.inUse[handle.object.index]? = some true)
    (hkeep : ∀ i : ℕ, s.pool.inUse[i]? = some true → p.inUse[i]? = some true) :
    Owned ⟨p,s.live ++ [handle]⟩ initialSize maxSize := by
  have hindices : indices ⟨p,s.live ++ [handle]⟩ = s.indices ++ [handle.object.index] := by
    simp [indices]
  refine ⟨hp,?_,fun i hi => ?_⟩
  · rw [hindices,← List.concat_eq_append,List.nodup_concat]
    exact ⟨fun hmem => hfresh (h.used _ hmem),h.indices_nodup⟩
  · rw [hindices,List.mem_append,List.mem_singleton] at hi
    rcases hi with hold | rfl
    · exact hkeep i (h.used i hold)
    · exact hnew

/-- A handle leaves; the objects of the others stay in use. -/
theorem Owned.leave (h : s.Owned initialSize maxSize) {p : ObjectPool T}
    (hp : p.Balanced initialSize maxSize) {k : ℕ} {handle : Handle}
    (hk : s.live[k]? = some handle)
    (hkeep : ∀ i : ℕ, i ≠ handle.object.index → p.inUse[i]? = s.pool.inUse[i]?) :
    Owned ⟨p,s.live.eraseIdx k⟩ initialSize maxSize := by
  have hsub : (indices ⟨p,s.live.eraseIdx k⟩).Sublist s.indices :=
    (List.eraseIdx_sublist s.live k).map _
  refine ⟨hp,hsub.nodup h.indices_nodup,fun i hi => ?_⟩
  rw [hkeep i,h.used i (hsub.mem hi)]
  obtain ⟨other,hother,rfl⟩ := List.mem_map.mp hi
  obtain ⟨j,hj,hjk⟩ := List.mem_eraseIdx_iff_getElem?.mp hother
  intro heq
  have hpos : s.indices[j]? = s.indices[k]? := by simp [indices,hjk,hk,heq]
  have hlt : j < s.indices.length := by
    rw [indices,List.length_map]
    exact (List.getElem?_eq_some_iff.mp hjk).1
  exact hj ((List.getElem?_inj hlt h.indices_nodup).mp hpos)

theorem Owned.acquire [Inhabited T] (h : s.Owned initialSize maxSize) (isThreadSafe : Bool) :
    ∃ result, s.pool.acquire = some result ∧
      Owned ⟨result.1,s.live ++ (result.2.map (Handle.wrap isThreadSafe)).toList⟩
        initialSize maxSize ∧
      (result.2 = none → s.pool.maxSize ≤ s.pool.objects.length ∧ s.pool.available = []) := by
  have hbalanced := h.balanced
  cases hqueue : s.pool.available with
  | cons idx rest =>
    have hunused : s.pool.inUse[idx]? = some false := by
      rw [← hbalanced.mem_available,hqueue]
      exact List.mem_cons_self
    have hlt : idx < s.pool.inUse.length := (List.getElem?_eq_some_iff.mp hunused).1
    refine ⟨_,ObjectPool.acquire_cons hqueue hlt,?_,fun hnone => nomatch hnone⟩
    refine h.join (hbalanced.take hqueue) ?_ ?_ fun i hi => ?_
    · simp [hunused]
    · simp [hlt]
    · by_cases heq : i = idx
      · simp [heq,hlt]
      · simpa [Ne.symm heq] using hi
  | nil =>
    by_cases hroom : s.pool.objects.length < s.pool.maxSize
    · refine ⟨_,ObjectPool.acquire_grow hqueue hroom,?_,fun hnone => nomatch hnone⟩
      have hlength := hbalanced.length_inUse
      refine h.join (hbalanced.grow hroom) ?_ ?_ fun i hi => ?_
      · simp [← hlength]
      · simp [← hlength]
      · have hlt := (List.getElem?_eq_some_iff.mp hi).1
        rwa [List.getElem?_append_left hlt]
    · refine ⟨_,ObjectPool.acquire_exhausted hqueue hroom,?_,fun _ => ?_⟩
      · simpa using h
      · exact ⟨Nat.le_of_not_lt hroom,rfl⟩

/-- Giving back the object of a live handle, which is then no longer alive. -/
theorem Owned.giveBack (h : s.Owned initialSize maxSize) {k : ℕ} {handle : Handle}
    (hk : s.live[k]? = some handle) :
    Owned ⟨s.pool.giveBack handle.object.index,s.live.eraseIdx k⟩ initialSize maxSize := by
  have hused := h.used_object (List.mem_of_getElem? hk)
  refine h.leave (h.balanced.giveBack hused) hk fun i hi => ?_
  rw [ObjectPool.giveBack_eq hused]
  exact List.getElem?_set_ne (Ne.symm hi)

theorem Owned.step [Inhabited T] {e : Event} (hstep : s.step e = some t)
    (h : s.Owned initialSize maxSize) : t.Owned initialSize maxSize := by
  cases e with
  | acquire isThreadSafe =>
    obtain ⟨result,hresult,howned,-⟩ := h.acquire isThreadSafe
    rw [State.step,hresult] at hstep
    cases hstep
    exact howned
  | release k =>
    cases hk : s.live[k]? with
    | none => simp [State.step,hk] at hstep
    | some handle =>
      cases handle with
      | plain obj =>
        simp only [State.step,hk] at hstep
        cases hstep
        exact h.giveBack hk
      | threadSafe obj => simp [State.step,hk] at hstep
  | drop k =>
    cases hk : s.live[k]? with
    | none => simp [State.step,hk] at hstep
    | some handle =>
      simp only [State.step,hk] at hstep
      cases hstep
      cases handle with
      | plain obj => exact h.leave h.balanced hk fun _ _ => rfl
      | threadSafe obj => exact h.giveBack hk

end State

/-- A live handle always reaches its object. -/
theorem getMut_live {s : State T} {initialSize maxSize : ℕ}
    (h : s.Owned initialSize maxSize) {handle : Handle} (hlive : handle ∈ s.live) :
    ∃ x, s.pool.getMut handle.object = some (some x) := by
  have hused := h.used_object hlive
  have hlt : handle.object.index < s.pool.objects.length := by
    rw [← h.balanced.length_inUse]
    exact (List.getElem?_eq_some_iff.mp hused).1
  exact ⟨s.pool.objects[handle.object.index],by simp [ObjectPool.getMut,hlt,hused]⟩

/-- In every history of acquired, released and dropped handles: the queue holds exactly the
indices that are not in use, each once; live handles have objects of their own; the counters
differ by the objects in use; `acquire` fails only when all of at least `maxSize` objects are in
use; the pool keeps within its bound; and a release, or the drop of a thread-safe handle, puts the
index into the queue again. -/
theorem objectPool_intact (T : Type) [Inhabited T] (initialSize maxSize : ℕ) (events : List Event)
    {s : State T} (hrun : State.run T initialSize maxSize events = some s) :
    s.pool.available.Nodup ∧
      (∀ i : ℕ, i ∈ s.pool.available ↔
        i < s.pool.objects.length ∧ s.pool.inUse[i]? = some false) ∧
      s.indices.Nodup ∧ (∀ i ∈ s.indices, i < s.pool.objects.length) ∧
      (s.pool.allocations : ℤ) - s.pool.deallocations = s.pool.inUse.count true ∧
      (∃ result, s.pool.acquire = some result ∧
        (result.2 = none → maxSize ≤ s.pool.objects.length ∧
          ∀ i : ℕ, i < s.pool.objects.length → s.pool.inUse[i]? = some true)) ∧
      s.pool.objects.length ≤ max initialSize maxSize ∧
      (∀ obj, .plain obj ∈ s.live →
        (s.pool.release obj).available = s.pool.available ++ [obj.index]) ∧
      ∀ obj, .threadSafe obj ∈ s.live →
        (obj.drop s.pool).available = s.pool.available ++ [obj.inner.index] := by
  have howned : s.Owned initialSize maxSize := by
    refine Runs.exec_invariant (I := fun s => s.Owned initialSize maxSize)
      (fun s e t hstep h => h.step hstep) hrun ?_
    exact ⟨ObjectPool.balanced_new initialSize maxSize,List.nodup_nil,nofun⟩
  have hbalanced := howned.balanced
  have hlength := hbalanced.length_inUse
  refine ⟨hbalanced.available_nodup,fun i => ?_,howned.indices_nodup,fun i hi => ?_,?_,?_,
    hbalanced.size_le,fun obj hlive => ?_,fun obj hlive => ?_⟩
  · rw [hbalanced.mem_available i]
    refine ⟨fun hunused => ⟨?_,hunused⟩,And.right⟩
    rw [← hlength]
    exact (List.getElem?_eq_some_iff.mp hunused).1
  · rw [← hlength]
    exact (List.getElem?_eq_some_iff.mp (howned.used i hi)).1
  · have hcounts := hbalanced.counts
    omega
  · obtain ⟨result,hresult,-,hnone⟩ := howned.acquire true
    refine ⟨result,hresult,fun hfails => ?_⟩
    obtain ⟨hfull,hempty⟩ := hnone hfails
    refine ⟨hbalanced.maxSize_eq ▸ hfull,fun i hi => ?_⟩
    -- an index that were not in use would be in the queue
    have hnot := hbalanced.mem_available i
    rw [hempty] at hnot
    rw [← hlength] at hi
    simpa [List.getElem?_eq_getElem hi] using hnot
  · exact congrArg ObjectPool.available (ObjectPool.giveBack_eq (howned.used_object hlive))
  · exact congrArg ObjectPool.available (ObjectPool.giveBack_eq (howned.used_object hlive))

/-- A pool of one that grows to two: both are given back and taken again, and a plain handle that
is dropped keeps its object. -/
theorem objectPool_intact_two :
    ∃ s, State.run ℕ 1 2 [.acquire true,.acquire false,.drop 0,.release 0,.acquire true,
        .acquire false,.drop 1] = some s ∧
      s.indices = [0] ∧ s.indices.Nodup ∧
      (s.pool.allocations : ℤ) - s.pool.deallocations = s.pool.inUse.count true := by
  have hindices : (State.run ℕ 1 2 [.acquire true,.acquire false,.drop 0,.release 0,.acquire true,
      .acquire false,.drop 1]).map State.indices = some [0] := by decide
  obtain ⟨s,hs,hlist⟩ := Option.map_eq_some_iff.mp hindices
  have hintact := objectPool_intact ℕ 1 2 _ hs
  exact ⟨s,hs,hlist,hintact.2.2.1,hintact.2.2.2.2.1⟩

end MemoryPool
end UProtocols
