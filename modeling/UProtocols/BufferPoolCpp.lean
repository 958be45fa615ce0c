import Mathlib.Data.List.Nodup
import UProtocols.Runs

/-!
# The C++ buffer pool of the WebSocket buffer management

`BufferPool` of `websocket_buffer_management.cpp`. A pointer is the index of a vector in the heap:
`release` moves the vector behind its argument into a new one and leaves an empty one there, so a
pointer may be used and released again. Memory that nothing points to stays in the list.
-/

namespace UProtocols
namespace BufferPoolCpp

abbrev Heap := List (List UInt8)

structure BufferPool where
  pool : List ℕ
  bufferSize : ℕ
  maxPoolSize : ℕ
  deriving DecidableEq

namespace BufferPool

def new (bufferSize initialCount maxPoolSize : ℕ) : Heap × BufferPool :=
  (List.replicate initialCount (List.replicate bufferSize 0),
    ⟨List.range initialCount,bufferSize,maxPoolSize⟩)

/-- The front of the queue, or a new vector when the queue is empty. -/
def acquire (heap : Heap) (p : BufferPool) : Heap × BufferPool × ℕ :=
  match p.pool with
  | buffer::rest => (heap,{p with pool := rest},buffer)
  | [] => (heap ++ [List.replicate p.bufferSize 0],p,heap.length)

/-- `clear` and `reserve` leave a vector of size zero, which is moved behind a new pointer. -/
def release (heap : Heap) (p : BufferPool) (buffer : ℕ) : Heap × BufferPool :=
  if p.pool.length < p.maxPoolSize then
    (heap.set buffer [] ++ [[]],{p with pool := p.pool ++ [heap.length]})
  else (heap,p)

def poolSize (p : BufferPool) : ℕ := p.pool.length

end BufferPool

/-! ## Histories -/

/-- What a call of `acquire` returned, with the size that the vector had then. -/
structure Acquired where
  buffer : ℕ
  size : ℕ
  deriving DecidableEq

structure State where
  heap : Heap
  pool : BufferPool
  acquired : List Acquired
  deriving DecidableEq

/-- A client may put any bytes into a vector it acquired, before or after its release. -/
inductive Event
  | acquire
  | use (handle : ℕ) (bytes : List UInt8)
  | release (handle : ℕ)
  deriving DecidableEq

namespace State

def new (bufferSize initialCount maxPoolSize : ℕ) : State :=
  let start := BufferPool.new bufferSize initialCount maxPoolSize
  ⟨start.1,start.2,[]⟩

def step (s : State) : Event → Option State
  | .acquire =>
    let r := s.pool.acquire s.heap
    some ⟨r.1,r.2.1,s.acquired ++ [⟨r.2.2,(r.1.getD r.2.2 []).length⟩]⟩
  | .use handle bytes =>
    (s.acquired[handle]?).map fun a => {s with heap := s.heap.set a.buffer bytes}
  | .release handle =>
    (s.acquired[handle]?).map fun a =>
      let r := s.pool.release s.heap a.buffer
      {s with heap := r.1, pool := r.2}

/-- Every vector that `acquire` returned had the size of the pool. -/
def Usable (bufferSize : ℕ) (s : State) : Prop := ∀ a ∈ s.acquired, a.size = bufferSize

/-- An `acquire` takes one of the initial vectors or a new one. -/
def Fresh (bufferSize initialCount : ℕ) (s : State) : Event → Prop
  | .acquire => s.acquired.length < initialCount ∨ s.pool.pool = [] ∨ bufferSize = 0
  | .use .. | .release _ => True

instance (bufferSize initialCount : ℕ) (s : State) :
    ∀ e, Decidable (s.Fresh bufferSize initialCount e)
  | .acquire => inferInstanceAs (Decidable (_ ∨ _ ∨ _))
  | .use .. | .release _ => isTrue trivial

end State

/-! ## Sizes in the heap -/

/-- The vector behind a pointer exists and has the size. -/
def HasSize (heap : Heap) (size buffer : ℕ) : Prop :=
  ∃ v, heap[buffer]? = some v ∧ v.length = size

variable {heap : Heap} {size buffer : ℕ}

theorem HasSize.lt (h : HasSize heap size buffer) : buffer < heap.length := by
  obtain ⟨v,hv,-⟩ := h
  exact (List.getElem?_eq_some_iff.mp hv).1

theorem HasSize.append (h : HasSize heap size buffer) (vs : Heap) :
    HasSize (heap ++ vs) size buffer := by
  obtain ⟨v,hv,hsize⟩ := h
  exact ⟨v,by rw [List.getElem?_append_left (HasSize.lt ⟨v,hv,hsize⟩),hv],hsize⟩

theorem HasSize.set (h : HasSize heap size buffer) {other : ℕ} (hne : other ≠ buffer)
    (v : List UInt8) : HasSize (heap.set other v) size buffer := by
  obtain ⟨w,hw,hsize⟩ := h
  exact ⟨w,by rw [List.getElem?_set_ne hne,hw],hsize⟩

theorem HasSize.length_getD (h : HasSize heap size buffer) :
    (heap.getD buffer []).length = size := by
  obtain ⟨v,hv,hsize⟩ := h
  rw [List.getD_eq_getElem?_getD,hv,Option.getD_some,hsize]

theorem hasSize_length (heap : Heap) (v : List UInt8) :
    HasSize (heap ++ [v]) v.length heap.length :=
  ⟨v,List.getElem?_concat_length,rfl⟩

/-! ## What every history keeps -/

namespace State

variable {bufferSize initialCount maxPoolSize : ℕ} {s t : State} {e : Event}

/-- The queue holds what is left of the initial vectors, then the released ones, which are empty;
no client points to any of them. -/
structure Kept (bufferSize initialCount : ℕ) (s : State) : Prop where
  size_eq : s.pool.bufferSize = bufferSize
  queue : ∃ initial recycled, s.pool.pool = initial ++ recycled ∧
    initial.length = initialCount - s.acquired.length ∧
    (∀ p ∈ initial, HasSize s.heap bufferSize p) ∧ ∀ p ∈ recycled, HasSize s.heap 0 p
  nodup : s.pool.pool.Nodup
  known : ∀ a ∈ s.acquired, a.buffer < s.heap.length
  apart : ∀ a ∈ s.acquired, a.buffer ∉ s.pool.pool

theorem kept_new (bufferSize initialCount maxPoolSize : ℕ) :
    (new bufferSize initialCount maxPoolSize).Kept bufferSize initialCount where
  size_eq := rfl
  queue := by
    refine ⟨List.range initialCount,[],(List.append_nil _).symm,List.length_range,?_,nofun⟩
    intro p hp
    have hlt : p < initialCount := List.mem_range.mp hp
    exact ⟨List.replicate bufferSize 0,List.getElem?_replicate_of_lt hlt,List.length_replicate⟩
  nodup := List.nodup_range
  known := nofun
  apart := nofun

/-- A client changes a vector that it acquired. -/
theorem Kept.set (h : s.Kept bufferSize initialCount) {a : Acquired} (ha : a ∈ s.acquired)
    (v : List UInt8) :
    Kept bufferSize initialCount {s with heap := s.heap.set a.buffer v} where
  size_eq := h.size_eq
  queue := by
    obtain ⟨initial,recycled,hpool,hlength,hinitial,hrecycled⟩ := h.queue
    have hne : ∀ p ∈ s.pool.pool, a.buffer ≠ p := by
      intro p hp heq
      exact h.apart a ha (heq ▸ hp)
    rw [hpool] at hne
    refine ⟨initial,recycled,hpool,hlength,?_,?_⟩
    · intro p hp
      exact (hinitial p hp).set (hne p (List.mem_append_left _ hp)) v
    · intro p hp
      exact (hrecycled p hp).set (hne p (List.mem_append_right _ hp)) v
  nodup := h.nodup
  known := by
    intro b hb
    rw [List.length_set]
    exact h.known b hb
  apart := h.apart

theorem Kept.pool_lt (h : s.Kept bufferSize initialCount) :
    ∀ p ∈ s.pool.pool, p < s.heap.length := by
  obtain ⟨initial,recycled,hpool,-,hinitial,hrecycled⟩ := h.queue
  intro p hp
  rw [hpool] at hp
  rcases List.mem_append.mp hp with hp | hp
  · exact (hinitial p hp).lt
  · exact (hrecycled p hp).lt

/-- A released vector comes back empty. -/
theorem Kept.push (h : s.Kept bufferSize initialCount) :
    Kept bufferSize initialCount {s with
      heap := s.heap ++ [[]]
      pool := {s.pool with pool := s.pool.pool ++ [s.heap.length]}} where
  size_eq := h.size_eq
  queue := by
    obtain ⟨initial,recycled,hpool,hlength,hinitial,hrecycled⟩ := h.queue
    refine ⟨initial,recycled ++ [s.heap.length],?_,hlength,?_,?_⟩
    · rw [← List.append_assoc,← hpool]
    · intro p hp
      exact (hinitial p hp).append _
    · intro p hp
      rcases List.mem_append.mp hp with hp | hp
      · exact (hrecycled p hp).append _
      · rw [List.mem_singleton.mp hp]
        exact hasSize_length s.heap []
  nodup := by
    apply List.nodup_append.mpr
    refine ⟨h.nodup,List.nodup_singleton _,fun p hp q hq => ?_⟩
    rw [List.mem_singleton.mp hq]
    exact Nat.ne_of_lt (h.pool_lt p hp)
  known := by
    intro a ha
    rw [List.length_append]
    exact Nat.lt_add_right _ (h.known a ha)
  apart := by
    intro a ha hmem
    rcases List.mem_append.mp hmem with hmem | hmem
    · exact h.apart a ha hmem
    · exact absurd (List.mem_singleton.mp hmem) (Nat.ne_of_lt (h.known a ha))

theorem Kept.release (h : s.Kept bufferSize initialCount) {a : Acquired} (ha : a ∈ s.acquired) :
    Kept bufferSize initialCount
      {s with heap := (s.pool.release s.heap a.buffer).1
              pool := (s.pool.release s.heap a.buffer).2} := by
  unfold BufferPool.release
  split
  · have hpush := (h.set ha []).push
    rw [List.length_set] at hpush
    exact hpush
  · exact h

theorem acquire_pop {p : ℕ} {rest : List ℕ} (hpool : s.pool.pool = p::rest) {size : ℕ}
    (hsize : HasSize s.heap size p) :
    s.step .acquire =
      some ⟨s.heap,{s.pool with pool := rest},s.acquired ++ [⟨p,size⟩]⟩ := by
  have hacquire : s.pool.acquire s.heap = (s.heap,{s.pool with pool := rest},p) := by
    rw [BufferPool.acquire,hpool]
  rw [step,hacquire,hsize.length_getD]

/-- The front of the queue goes to a client; what is left of it is given. -/
theorem Kept.pop (h : s.Kept bufferSize initialCount) {p : ℕ} {rest : List ℕ}
    (hpool : s.pool.pool = p::rest) (size : ℕ)
    (hqueue : ∃ initial recycled, rest = initial ++ recycled ∧
      initial.length = initialCount - (s.acquired.length + 1) ∧
      (∀ p ∈ initial, HasSize s.heap bufferSize p) ∧ ∀ p ∈ recycled, HasSize s.heap 0 p) :
    Kept bufferSize initialCount
      ⟨s.heap,{s.pool with pool := rest},s.acquired ++ [⟨p,size⟩]⟩ where
  size_eq := h.size_eq
  queue := by
    rw [List.length_append,List.length_singleton]
    exact hqueue
  nodup := by
    have hnodup := h.nodup
    rw [hpool] at hnodup
    exact hnodup.tail
  known := by
    intro a ha
    rcases List.mem_append.mp ha with ha | ha
    · exact h.known a ha
    · rw [List.mem_singleton.mp ha]
      exact h.pool_lt p (hpool ▸ List.mem_cons_self)
  apart := by
    intro a ha hmem
    rcases List.mem_append.mp ha with ha | ha
    · exact h.apart a ha (hpool ▸ List.mem_cons_of_mem p hmem)
    · rw [List.mem_singleton.mp ha] at hmem
      have hnodup := h.nodup
      rw [hpool] at hnodup
      exact (List.nodup_cons.mp hnodup).1 hmem

theorem Kept.fresh (h : s.Kept bufferSize initialCount) (hpool : s.pool.pool = []) (size : ℕ) :
    Kept bufferSize initialCount
      ⟨s.heap ++ [List.replicate s.pool.bufferSize 0],s.pool,
        s.acquired ++ [⟨s.heap.length,size⟩]⟩ where
  size_eq := h.size_eq
  queue := by
    obtain ⟨initial,recycled,hsplit,hlength,-⟩ := h.queue
    rw [hpool] at hsplit
    have hinitial : initial = [] := (List.append_eq_nil_iff.mp hsplit.symm).1
    rw [hinitial,List.length_nil] at hlength
    refine ⟨[],[],hpool,?_,nofun,nofun⟩
    rw [List.length_append,List.length_singleton,List.length_nil]
    omega
  nodup := h.nodup
  known := by
    intro a ha
    rw [List.length_append,List.length_singleton]
    rcases List.mem_append.mp ha with ha | ha
    · exact Nat.lt_succ_of_lt (h.known a ha)
    · rw [List.mem_singleton.mp ha]
      exact Nat.lt_succ_self _
  apart := by
    intro a _ hmem
    rw [hpool] at hmem
    exact absurd hmem List.not_mem_nil

theorem Kept.acquire_new (h : s.Kept bufferSize initialCount) (hpool : s.pool.pool = []) :
    s.step .acquire = some ⟨s.heap ++ [List.replicate s.pool.bufferSize 0],s.pool,
      s.acquired ++ [⟨s.heap.length,bufferSize⟩]⟩ := by
  have hacquire : s.pool.acquire s.heap =
      (s.heap ++ [List.replicate s.pool.bufferSize 0],s.pool,s.heap.length) := by
    rw [BufferPool.acquire,hpool]
  have hsize := (hasSize_length s.heap (List.replicate s.pool.bufferSize 0)).length_getD
  rw [List.length_replicate,h.size_eq] at hsize
  rw [step,hacquire,h.size_eq,hsize]

/-- With vectors in the pool and none of the initial ones left, only size zero is right. -/
theorem fresh_recycled_iff {p : ℕ} {rest : List ℕ} (hpool : s.pool.pool = p::rest)
    (hcount : initialCount ≤ s.acquired.length) :
    0 = bufferSize ↔ s.Fresh bufferSize initialCount .acquire := by
  rw [Fresh,hpool]
  constructor
  · exact fun hzero => Or.inr (Or.inr hzero.symm)
  · rintro (hlt | hnil | hzero)
    · omega
    · cases hnil
    · exact hzero.symm

/-- The size that the next `acquire` sees tells whether its vector is fresh. -/
theorem Kept.acquire (h : s.Kept bufferSize initialCount) :
    ∃ t a, s.step .acquire = some t ∧ t.Kept bufferSize initialCount ∧
      t.acquired = s.acquired ++ [a] ∧
      (a.size = bufferSize ↔ s.Fresh bufferSize initialCount .acquire) := by
  obtain ⟨initial,recycled,hpool,hlength,hinitial,hrecycled⟩ := h.queue
  cases initial with
  | cons p initial =>
    have hcount : initial.length + 1 = initialCount - s.acquired.length := hlength
    have hstep := acquire_pop hpool (hinitial p List.mem_cons_self)
    refine ⟨_,_,hstep,?_,rfl,iff_of_true rfl (Or.inl (by omega))⟩
    refine h.pop hpool bufferSize ⟨initial,recycled,rfl,by omega,?_,hrecycled⟩
    exact fun q hq => hinitial q (List.mem_cons_of_mem p hq)
  | nil =>
    have hcount : 0 = initialCount - s.acquired.length := hlength
    cases recycled with
    | nil =>
      exact ⟨_,_,h.acquire_new hpool,h.fresh hpool bufferSize,rfl,
        iff_of_true rfl (Or.inr (Or.inl hpool))⟩
    | cons p recycled =>
      have hstep := acquire_pop hpool (hrecycled p List.mem_cons_self)
      refine ⟨_,_,hstep,?_,rfl,fresh_recycled_iff hpool (by omega)⟩
      refine h.pop hpool 0 ⟨[],recycled,rfl,?_,nofun,?_⟩
      · rw [List.length_nil]
        omega
      · exact fun q hq => hrecycled q (List.mem_cons_of_mem p hq)

theorem Kept.step (h : s.Kept bufferSize initialCount) (hstep : s.step e = some t) :
    t.Kept bufferSize initialCount := by
  cases e with
  | acquire =>
    obtain ⟨u,a,hu,hkept,-⟩ := h.acquire
    cases hu.symm.trans hstep
    exact hkept
  | use handle bytes =>
    obtain ⟨a,ha,rfl⟩ := Option.map_eq_some_iff.mp hstep
    exact h.set (List.mem_of_getElem? ha) bytes
  | release handle =>
    obtain ⟨a,ha,rfl⟩ := Option.map_eq_some_iff.mp hstep
    exact h.release (List.mem_of_getElem? ha)

theorem usable_step_iff (h : s.Kept bufferSize initialCount) (husable : s.Usable bufferSize)
    (hstep : s.step e = some t) : t.Usable bufferSize ↔ s.Fresh bufferSize initialCount e := by
  cases e with
  | acquire =>
    obtain ⟨u,a,hu,-,hacquired,hiff⟩ := h.acquire
    cases hu.symm.trans hstep
    rw [← hiff,Usable,hacquired]
    constructor
    · intro hall
      exact hall a (List.mem_append_right _ (List.mem_singleton_self a))
    · intro hsize b hb
      rcases List.mem_append.mp hb with hb | hb
      · exact husable b hb
      · rw [List.mem_singleton.mp hb]
        exact hsize
  | use handle bytes =>
    obtain ⟨a,-,rfl⟩ := Option.map_eq_some_iff.mp hstep
    exact iff_of_true husable trivial
  | release handle =>
    obtain ⟨a,-,rfl⟩ := Option.map_eq_some_iff.mp hstep
    exact iff_of_true husable trivial

/-- In every history the vectors have the size of the pool exactly when none of them was
released before. -/
theorem bufferPool_usable_iff (bufferSize initialCount maxPoolSize : ℕ) (events : List Event)
    (t : State) (hrun : Runs.exec step (new bufferSize initialCount maxPoolSize) events = some t) :
    (∀ earlier s, earlier <+: events →
        Runs.exec step (new bufferSize initialCount maxPoolSize) earlier = some s →
        s.Usable bufferSize) ↔
      Runs.Along step (Fresh bufferSize initialCount)
        (new bufferSize initialCount maxPoolSize) events := by
  rw [Runs.forall_reached_iff (I := Kept bufferSize initialCount) (F := Usable bufferSize)
    (fun _ _ _ hstep h => h.step hstep)
    (fun _ _ _ hstep h husable => usable_step_iff h husable hstep) hrun
    (kept_new bufferSize initialCount maxPoolSize)]
  exact and_iff_right nofun

/-- The first of two vectors is released before the second one is taken. -/
theorem bufferPool_usable_two :
    ∃ s, Runs.exec step (new 2 2 100) [.acquire,.use 0 [7],.release 0,.acquire] = some s ∧
      s.acquired = [⟨0,2⟩,⟨1,2⟩] ∧
      ∀ earlier t, earlier <+: [Event.acquire,.use 0 [7],.release 0,.acquire] →
        Runs.exec step (new 2 2 100) earlier = some t → t.Usable 2 := by
  have hrun : Runs.exec step (new 2 2 100) [.acquire,.use 0 [7],.release 0,.acquire] =
      some ⟨[[],[0,0],[]],⟨[2],2,100⟩,[⟨0,2⟩,⟨1,2⟩]⟩ := by decide
  exact ⟨_,hrun,rfl,(bufferPool_usable_iff 2 2 100 _ _ hrun).mpr (by decide +kernel)⟩

/-- The vector that was released comes back with size zero. -/
theorem bufferPool_recycled :
    ¬ ∀ earlier s, earlier <+: [Event.acquire,.release 0,.acquire] →
      Runs.exec step (new 1024 0 100) earlier = some s → s.Usable 1024 := by
  intro h
  have husable := h [Event.acquire,.release 0,.acquire] _ (List.prefix_refl _) rfl
  exact absurd (husable ⟨1,0⟩ (by decide)) (by decide)

end State
end BufferPoolCpp
end UProtocols
