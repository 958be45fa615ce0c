import UProtocols.Runs

/-!
# The buffer pool of the WebSocket buffer management

`BufferPool` and `PooledBuffer` of `websocket_buffer_management.rs`. The capacity that a new
vector gets beyond its length is up to the allocator and an input here. Every access to the pool
is made under its mutex, so each call is one step. Writes through `as_mut_slice` replace the
bytes of a buffer and cannot change their number.
-/

namespace UProtocols
namespace BufferManagement

/-- A `Vec<u8>`: its bytes and the room they have. -/
structure ByteVec where
  bytes : List UInt8
  capacity : ℕ
  length_le : bytes.length ≤ capacity
  deriving DecidableEq

namespace ByteVec

/-- `vec![0; size]`, with `spare` bytes of capacity beyond what was asked for. -/
def zeros (size spare : ℕ) : ByteVec where
  bytes := List.replicate size 0
  capacity := size + spare
  length_le := by simp

def clear (v : ByteVec) : ByteVec := ⟨[],v.capacity,Nat.zero_le _⟩

/-- `resize` within the capacity, where nothing is reallocated. -/
def resize (v : ByteVec) (newLen : ℕ) (value : UInt8) (h : newLen ≤ v.capacity) : ByteVec where
  bytes := v.bytes.take newLen ++ List.replicate (newLen - v.bytes.length) value
  capacity := v.capacity
  length_le := by
    simp only [List.length_append,List.length_take,List.length_replicate]
    omega

/-- `buffer.clear(); buffer.resize(buffer.capacity(), 0)`. -/
def recycle (v : ByteVec) : ByteVec := v.clear.resize v.clear.capacity 0 (Nat.le_refl _)

theorem recycle_bytes (v : ByteVec) : v.recycle.bytes = List.replicate v.capacity 0 := by
  simp [recycle,resize,clear]

/-- Only zero bytes, and at least `size` of them. -/
def Blank (size : ℕ) (v : ByteVec) : Prop := (∀ byte ∈ v.bytes, byte = 0) ∧ size ≤ v.bytes.length

instance (size : ℕ) (v : ByteVec) : Decidable (v.Blank size) := inferInstanceAs (Decidable (_ ∧ _))

theorem blank_zeros (size spare : ℕ) : (zeros size spare).Blank size :=
  ⟨fun _ hbyte => List.eq_of_mem_replicate hbyte,by simp [zeros]⟩

/-- A vector with `size` bytes is blank once it is recycled, whatever was written to it. -/
theorem blank_recycle {size : ℕ} {v : ByteVec} (h : size ≤ v.bytes.length) :
    v.recycle.Blank size := by
  refine ⟨fun byte hbyte => ?_,?_⟩
  · rw [recycle_bytes] at hbyte
    exact List.eq_of_mem_replicate hbyte
  · rw [recycle_bytes,List.length_replicate]
    exact Nat.le_trans h v.length_le

end ByteVec

structure BufferPool where
  pool : List ByteVec
  bufferSize : ℕ
  maxPoolSize : ℕ
  deriving DecidableEq

/-- The pool that a buffer belongs to is shared with the `BufferPool`. -/
structure PooledBuffer where
  buffer : Option ByteVec
  maxPoolSize : ℕ
  deriving DecidableEq

namespace BufferPool

/-- The `k`-th initial buffer gets `spare k` bytes of capacity beyond `bufferSize`. -/
def new (bufferSize initialCount maxPoolSize : ℕ) (spare : ℕ → ℕ) : BufferPool where
  pool := (List.range initialCount).map fun k => ByteVec.zeros bufferSize (spare k)
  bufferSize
  maxPoolSize

/-- The oldest idle buffer, or a new one when there is none. -/
def acquire (p : BufferPool) (spare : ℕ) : BufferPool × PooledBuffer :=
  match p.pool with
  | [] => (p,⟨some (ByteVec.zeros p.bufferSize spare),p.maxPoolSize⟩)
  | v::rest => ({p with pool := rest},⟨some v,p.maxPoolSize⟩)

def poolSize (p : BufferPool) : ℕ := p.pool.length

end BufferPool

namespace PooledBuffer

/-- Other bytes of the same number, written through `as_mut_slice`. -/
def write (b : PooledBuffer) (bytes : List UInt8) : Option PooledBuffer :=
  match b.buffer with
  | none => none
  | some v =>
    if h : bytes.length = v.bytes.length then
      some {b with buffer := some ⟨bytes,v.capacity,h ▸ v.length_le⟩}
    else none

/-- The vector goes back to the pool unless the pool is full. -/
def drop (b : PooledBuffer) (p : BufferPool) : BufferPool × PooledBuffer :=
  match b.buffer with
  | none => (p,b)
  | some v =>
    if p.pool.length < b.maxPoolSize then
      ({p with pool := p.pool ++ [v.recycle]},{b with buffer := none})
    else (p,{b with buffer := none})

end PooledBuffer

/-! ## Histories -/

/-- A pool and the buffers acquired from it so far, in order; a dropped one has no vector. -/
structure PoolState where
  pool : BufferPool
  acquired : List PooledBuffer
  deriving DecidableEq

inductive PoolEvent
  | acquire (spare : ℕ)
  | write (handle : ℕ) (bytes : List UInt8)
  | drop (handle : ℕ)
  deriving DecidableEq

namespace PoolState

def step (s : PoolState) : PoolEvent → Option PoolState
  | .acquire spare =>
    let result := s.pool.acquire spare
    some ⟨result.1,s.acquired ++ [result.2]⟩
  | .write handle bytes => do
    let b ← s.acquired[handle]?
    let b ← b.write bytes
    return {s with acquired := s.acquired.set handle b}
  | .drop handle => do
    let b ← s.acquired[handle]?
    let result := b.drop s.pool
    return ⟨result.1,s.acquired.set handle result.2⟩

def run (bufferSize initialCount maxPoolSize : ℕ) (spare : ℕ → ℕ) (events : List PoolEvent) :
    Option PoolState :=
  Runs.exec step ⟨BufferPool.new bufferSize initialCount maxPoolSize spare,[]⟩ events

end PoolState

/-- A buffer that was acquired keeps the length it had, and the limit of its pool. -/
def PooledBuffer.Sound (bufferSize bound : ℕ) (b : PooledBuffer) : Prop :=
  b.maxPoolSize ≤ bound ∧ ∀ v ∈ b.buffer, bufferSize ≤ v.bytes.length

namespace PoolState

/-- Idle buffers are blank and not too many. -/
structure Safe (bufferSize bound : ℕ) (s : PoolState) : Prop where
  bufferSize_eq : s.pool.bufferSize = bufferSize
  max_le : s.pool.maxPoolSize ≤ bound
  idle_le : s.pool.poolSize ≤ bound
  idle_blank : ∀ v ∈ s.pool.pool, v.Blank bufferSize
  sound : ∀ b ∈ s.acquired, b.Sound bufferSize bound

variable {s t : PoolState} {bufferSize bound : ℕ}

theorem safe_new (bufferSize initialCount maxPoolSize : ℕ) (spare : ℕ → ℕ) :
    Safe bufferSize (max initialCount maxPoolSize)
      ⟨BufferPool.new bufferSize initialCount maxPoolSize spare,[]⟩ where
  bufferSize_eq := rfl
  max_le := Nat.le_max_right _ _
  idle_le := by
    simp only [BufferPool.new,BufferPool.poolSize,List.length_map,List.length_range]
    exact Nat.le_max_left _ _
  idle_blank := by
    intro v hv
    obtain ⟨k,-,rfl⟩ := List.mem_map.mp hv
    exact ByteVec.blank_zeros _ _
  sound := nofun

/-- What `acquire` hands out, and the pool it leaves. -/
theorem Safe.acquire (h : s.Safe bufferSize bound) (spare : ℕ) :
    (∃ v, (s.pool.acquire spare).2 = ⟨some v,s.pool.maxPoolSize⟩ ∧ v.Blank bufferSize) ∧
      Safe bufferSize bound ⟨(s.pool.acquire spare).1,s.acquired⟩ := by
  cases hpool : s.pool.pool with
  | nil =>
    have hacquire : s.pool.acquire spare =
        (s.pool,⟨some (ByteVec.zeros bufferSize spare),s.pool.maxPoolSize⟩) := by
      simp [BufferPool.acquire,hpool,h.bufferSize_eq]
    rw [hacquire]
    exact ⟨⟨_,rfl,ByteVec.blank_zeros _ _⟩,h⟩
  | cons v rest =>
    have hacquire : s.pool.acquire spare =
        ({s.pool with pool := rest},⟨some v,s.pool.maxPoolSize⟩) := by
      simp [BufferPool.acquire,hpool]
    have hblank := h.idle_blank
    have hidle := h.idle_le
    rw [BufferPool.poolSize,hpool,List.length_cons] at hidle
    rw [hpool,List.forall_mem_cons] at hblank
    rw [hacquire]
    exact ⟨⟨v,rfl,hblank.1⟩,{h with idle_le := Nat.le_of_succ_le hidle, idle_blank := hblank.2}⟩

/-- Replacing a buffer in use by a sound one keeps the invariant. -/
theorem Safe.set (h : s.Safe bufferSize bound) (handle : ℕ) {b : PooledBuffer}
    (hb : b.Sound bufferSize bound) :
    Safe bufferSize bound {s with acquired := s.acquired.set handle b} := by
  refine {h with sound := fun c hc => ?_}
  rcases List.mem_or_eq_of_mem_set hc with hold | rfl
  · exact h.sound c hold
  · exact hb

theorem Safe.drop (h : s.Safe bufferSize bound) {b : PooledBuffer} (hb : b ∈ s.acquired) :
    Safe bufferSize bound ⟨(b.drop s.pool).1,s.acquired⟩ ∧
      (b.drop s.pool).2.Sound bufferSize bound := by
  obtain ⟨hmax,hlength⟩ := h.sound b hb
  cases hbuffer : b.buffer with
  | none =>
    simp only [PooledBuffer.drop,hbuffer]
    exact ⟨h,h.sound b hb⟩
  | some v =>
    have hdropped : PooledBuffer.Sound bufferSize bound {b with buffer := none} := ⟨hmax,nofun⟩
    by_cases hroom : s.pool.pool.length < b.maxPoolSize
    · simp only [PooledBuffer.drop,hbuffer,hroom,if_true]
      refine ⟨{h with idle_le := ?_, idle_blank := ?_},hdropped⟩
      · simp only [BufferPool.poolSize,List.length_append,List.length_singleton]
        omega
      · intro w hw
        rcases List.mem_append.mp hw with hold | hnew
        · exact h.idle_blank w hold
        · cases List.mem_singleton.mp hnew
          exact ByteVec.blank_recycle (hlength v hbuffer)
    · simp only [PooledBuffer.drop,hbuffer,hroom,if_false]
      exact ⟨h,hdropped⟩

theorem Safe.step {e : PoolEvent} (hstep : s.step e = some t) (h : s.Safe bufferSize bound) :
    t.Safe bufferSize bound := by
  cases e with
  | acquire spare =>
    obtain ⟨⟨v,hv,hblank⟩,hpool⟩ := h.acquire spare
    cases hstep
    refine {hpool with sound := fun b hb => ?_}
    rcases List.mem_append.mp hb with hold | hnew
    · exact h.sound b hold
    · cases List.mem_singleton.mp hnew
      rw [hv]
      exact ⟨h.max_le,fun w hw => by cases hw; exact hblank.2⟩
  | write handle bytes =>
    obtain ⟨b,hb,hwrite⟩ := Option.bind_eq_some_iff.mp hstep
    obtain ⟨c,hc,ht⟩ := Option.bind_eq_some_iff.mp hwrite
    cases ht
    obtain ⟨hmax,hlength⟩ := h.sound b (List.mem_of_getElem? hb)
    cases hbuffer : b.buffer with
    | none => simp [PooledBuffer.write,hbuffer] at hc
    | some v =>
      simp only [PooledBuffer.write,hbuffer,Option.dite_none_right_eq_some] at hc
      obtain ⟨heq,hc⟩ := hc
      cases hc
      refine h.set handle ⟨hmax,fun w hw => ?_⟩
      cases hw
      exact heq ▸ hlength v hbuffer
  | drop handle =>
    obtain ⟨b,hb,ht⟩ := Option.bind_eq_some_iff.mp hstep
    cases ht
    obtain ⟨hpool,hsound⟩ := h.drop (List.mem_of_getElem? hb)
    exact hpool.set handle hsound

end PoolState

/-- After every history the idle pool is within its bound, and the buffer that `acquire` returns
next holds zeros only, at least `bufferSize` of them. -/
theorem bufferPool_blank (bufferSize initialCount maxPoolSize : ℕ) (initialSpare : ℕ → ℕ)
    (events : List PoolEvent) {s : PoolState}
    (hrun : PoolState.run bufferSize initialCount maxPoolSize initialSpare events = some s) :
    s.pool.poolSize ≤ max initialCount maxPoolSize ∧
      ∀ spare, ∃ v, (s.pool.acquire spare).2.buffer = some v ∧ v.Blank bufferSize := by
  have hsafe : s.Safe bufferSize (max initialCount maxPoolSize) :=
    Runs.exec_invariant (fun s e t hstep h => h.step hstep) hrun
      (PoolState.safe_new bufferSize initialCount maxPoolSize initialSpare)
  refine ⟨hsafe.idle_le,fun spare => ?_⟩
  obtain ⟨⟨v,hv,hblank⟩,-⟩ := hsafe.acquire spare
  exact ⟨v,by rw [hv],hblank⟩

/-- A used buffer comes back to the pool and is acquired a second time. -/
theorem bufferPool_blank_reused :
    ∃ s, PoolState.run 2 1 3 (fun _ => 1) [.acquire 0,.write 0 [7,8],.drop 0] = some s ∧
      s.pool.poolSize = 1 ∧
      ∀ spare, ∃ v, (s.pool.acquire spare).2.buffer = some v ∧ v.Blank 2 := by
  have hsize : (PoolState.run 2 1 3 (fun _ => 1)
      [.acquire 0,.write 0 [7,8],.drop 0]).map (fun s => s.pool.poolSize) = some 1 := by decide
  obtain ⟨s,hs,hone⟩ := Option.map_eq_some_iff.mp hsize
  exact ⟨s,hs,hone,(bufferPool_blank 2 1 3 (fun _ => 1) _ hs).2⟩

end BufferManagement
end UProtocols
