import UProtocols.RingSlots
import UProtocols.Runs

/-!
# The circular buffer of the WebSocket buffer management

`CircularBuffer` of `websocket_buffer_management.rs`. An index outside a slice, a remainder by
zero and a subtraction below zero panic in the source: such a call has no result here. The
slices that `read` and `peek` fill are arguments and come back with their first bytes replaced.
-/

namespace UProtocols
namespace BufferManagement

structure CircularBuffer where
  buffer : List UInt8
  capacity : ℕ
  head : ℕ
  tail : ℕ
  size : ℕ
  deriving DecidableEq

namespace CircularBuffer

def new (capacity : ℕ) : CircularBuffer where
  buffer := List.replicate capacity 0
  capacity
  head := 0
  tail := 0
  size := 0

/-- `a - b` on `usize`. -/
def checkedSub (a b : ℕ) : Option ℕ := if b ≤ a then some (a - b) else none

/-- `(index + 1) % capacity`. -/
def nextIndex (capacity index : ℕ) : Option ℕ :=
  if capacity = 0 then none else some ((index + 1) % capacity)

/-- `slice[index] = byte`. -/
def store (slice : List UInt8) (index : ℕ) (byte : UInt8) : Option (List UInt8) :=
  if index < slice.length then some (slice.set index byte) else none

/-- The loop of `write`: `n` more bytes of `data`, from index `i` on. -/
def writeLoop (data : List UInt8) : ℕ → ℕ → CircularBuffer → Option CircularBuffer
  | 0, _, s => some s
  | n + 1, i, s => do
    let byte ← data[i]?
    let buffer ← store s.buffer s.head byte
    let head ← nextIndex s.capacity s.head
    writeLoop data n (i + 1) {s with buffer, head, size := s.size + 1}

def write (s : CircularBuffer) (data : List UInt8) : Option (CircularBuffer × ℕ) := do
  let available ← checkedSub s.capacity s.size
  let toWrite := min data.length available
  let t ← writeLoop data toWrite 0 s
  return (t,toWrite)

/-- The loop of `read`: `n` more bytes into `data`, from index `i` on. -/
def readLoop : ℕ → ℕ → CircularBuffer → List UInt8 → Option (CircularBuffer × List UInt8)
  | 0, _, s, data => some (s,data)
  | n + 1, i, s, data => do
    let byte ← s.buffer[s.tail]?
    let data ← store data i byte
    let tail ← nextIndex s.capacity s.tail
    let size ← checkedSub s.size 1
    readLoop n (i + 1) {s with tail, size} data

def read (s : CircularBuffer) (data : List UInt8) :
    Option (CircularBuffer × ℕ × List UInt8) := do
  let toRead := min data.length s.size
  let result ← readLoop toRead 0 s data
  return (result.1,toRead,result.2)

/-- The loop of `peek`, which moves a position of its own. -/
def peekLoop (s : CircularBuffer) : ℕ → ℕ → ℕ → List UInt8 → Option (List UInt8)
  | 0, _, _, data => some data
  | n + 1, i, pos, data => do
    let byte ← s.buffer[pos]?
    let data ← store data i byte
    let pos ← nextIndex s.capacity pos
    peekLoop s n (i + 1) pos data

def peek (s : CircularBuffer) (data : List UInt8) : Option (ℕ × List UInt8) := do
  let toPeek := min data.length s.size
  let filled ← peekLoop s toPeek 0 s.tail data
  return (toPeek,filled)

def available (s : CircularBuffer) : Option ℕ := checkedSub s.capacity s.size

def isEmpty (s : CircularBuffer) : Bool := s.size == 0

def isFull (s : CircularBuffer) : Bool := s.size == s.capacity

def clear (s : CircularBuffer) : CircularBuffer := {s with head := 0, tail := 0, size := 0}

end CircularBuffer

/-! ## Sequences of calls -/

inductive Call
  | write (data : List UInt8)
  | read (data : List UInt8)
  | peek (data : List UInt8)
  | clear
  deriving DecidableEq

/-- What a call returns; `read` and `peek` also return the slice they were given. -/
inductive Answer
  | wrote (count : ℕ)
  | filled (count : ℕ) (data : List UInt8)
  | cleared
  deriving DecidableEq

/-- A buffer and what its calls returned so far. -/
structure State where
  ring : CircularBuffer
  answers : List Answer
  deriving DecidableEq

namespace State

def answer (s : State) (ring : CircularBuffer) (a : Answer) : State :=
  ⟨ring,s.answers ++ [a]⟩

def step (s : State) : Call → Option State
  | .write data => (s.ring.write data).map fun result => s.answer result.1 (.wrote result.2)
  | .read data => (s.ring.read data).map fun result =>
    s.answer result.1 (.filled result.2.1 result.2.2)
  | .peek data => (s.ring.peek data).map fun result =>
    s.answer s.ring (.filled result.1 result.2)
  | .clear => some (s.answer s.ring.clear .cleared)

def run (capacity : ℕ) (calls : List Call) : Option State :=
  Runs.exec step ⟨CircularBuffer.new capacity,[]⟩ calls

end State

/-- What the buffer is for: a queue of at most `capacity` bytes. -/
structure Fifo where
  bytes : List UInt8
  answers : List Answer
  deriving DecidableEq

namespace Fifo

/-- The oldest bytes replace the first ones of the slice, as many as there are of both. -/
def oldest (bytes data : List UInt8) : Answer :=
  let count := min data.length bytes.length
  .filled count (bytes.take count ++ data.drop count)

def step (capacity : ℕ) (f : Fifo) : Call → Fifo
  | .write data =>
    let count := min data.length (capacity - f.bytes.length)
    ⟨f.bytes ++ data.take count,f.answers ++ [.wrote count]⟩
  | .read data =>
    ⟨f.bytes.drop (min data.length f.bytes.length),f.answers ++ [oldest f.bytes data]⟩
  | .peek data => ⟨f.bytes,f.answers ++ [oldest f.bytes data]⟩
  | .clear => ⟨[],f.answers ++ [.cleared]⟩

def run (capacity : ℕ) (calls : List Call) : Fifo := calls.foldl (step capacity) ⟨[],[]⟩

end Fifo

/-! ## The ring holds the queue -/

open RingSlots

namespace CircularBuffer

/-- The bytes `q` lie in the ring from `tail` on. With capacity zero both indices are zero. -/
structure Represents (s : CircularBuffer) (capacity : ℕ) (q : List UInt8) : Prop where
  capacity_eq : s.capacity = capacity
  length_buffer : s.buffer.length = capacity
  size_eq : s.size = q.length
  fits : q.length ≤ capacity
  tail_mod : s.tail % capacity = s.tail
  head_eq : s.head = (s.tail + q.length) % capacity
  holds : Holds s.buffer s.tail q

variable {s : CircularBuffer} {capacity : ℕ} {q : List UInt8} {byte : UInt8}

theorem represents_new (capacity : ℕ) : (new capacity).Represents capacity [] where
  capacity_eq := rfl
  length_buffer := List.length_replicate
  size_eq := rfl
  fits := Nat.zero_le _
  tail_mod := Nat.zero_mod _
  head_eq := (Nat.zero_mod _).symm
  holds := holds_nil _ _

theorem nextIndex_pos (h : 0 < capacity) (index : ℕ) :
    nextIndex capacity index = some ((index + 1) % capacity) := by
  have hne : capacity ≠ 0 := by omega
  simp [nextIndex,hne]

namespace Represents

theorem checkedSub_eq (h : s.Represents capacity q) :
    checkedSub s.capacity s.size = some (capacity - q.length) := by
  have hle := h.fits
  simp [checkedSub,h.capacity_eq,h.size_eq,hle]

/-- Full and empty are told apart by `size`; the two indices are equal in both. -/
theorem isEmpty_iff (h : s.Represents capacity q) : s.isEmpty ↔ q = [] := by
  simp [isEmpty,h.size_eq]

theorem isFull_iff (h : s.Represents capacity q) : s.isFull ↔ q.length = capacity := by
  simp [isFull,h.size_eq,h.capacity_eq]

theorem clear (h : s.Represents capacity q) : s.clear.Represents capacity [] where
  capacity_eq := h.capacity_eq
  length_buffer := h.length_buffer
  size_eq := rfl
  fits := Nat.zero_le _
  tail_mod := Nat.zero_mod _
  head_eq := (Nat.zero_mod _).symm
  holds := holds_nil _ _

/-- One round of the loop of `write`, while there is room. -/
theorem snoc (h : s.Represents capacity q) (hroom : q.length < capacity) (byte : UInt8) :
    ∃ buffer head, store s.buffer s.head byte = some buffer ∧
      nextIndex s.capacity s.head = some head ∧
      Represents {s with buffer, head, size := s.size + 1} capacity (q ++ [byte]) := by
  have hpos : 0 < capacity := by omega
  have hlt : s.head < s.buffer.length := by
    rw [h.head_eq,h.length_buffer]
    exact Nat.mod_lt _ hpos
  have hslot : s.head = (s.tail + q.length) % s.buffer.length := by
    rw [h.head_eq,h.length_buffer]
  refine ⟨s.buffer.set s.head byte,(s.head + 1) % capacity,by simp [store,hlt],?_,?_⟩
  · rw [h.capacity_eq]
    exact nextIndex_pos hpos _
  · exact
      { capacity_eq := h.capacity_eq
        length_buffer := by simp [h.length_buffer]
        size_eq := by simp [h.size_eq]
        fits := by
          simp only [List.length_append,List.length_singleton]
          omega
        tail_mod := h.tail_mod
        head_eq := by
          simp only [List.length_append,List.length_singleton,h.head_eq,Nat.mod_add_mod]
          rw [Nat.add_assoc]
        holds := by
          have hroom' : q.length < s.buffer.length := h.length_buffer ▸ hroom
          have hkeep := h.holds.set (Nat.le_refl _) hroom' byte
          rw [← hslot] at hkeep
          refine hkeep.snoc ?_
          rw [List.length_set,← hslot]
          exact List.getElem?_set_self hlt }

/-- The slot at `tail` holds the oldest byte. -/
theorem head_slot (h : s.Represents capacity (byte::q)) : s.buffer[s.tail]? = some byte := by
  have hslot := h.holds.head
  rwa [h.length_buffer,h.tail_mod] at hslot

/-- One round of the loop of `read`. -/
theorem tail (h : s.Represents capacity (byte::q)) :
    ∃ tail size, nextIndex s.capacity s.tail = some tail ∧ checkedSub s.size 1 = some size ∧
      Represents {s with tail, size} capacity q := by
  have hfits := h.fits
  have hsize := h.size_eq
  rw [List.length_cons] at hfits hsize
  have hpos : 0 < capacity := by omega
  have hone : 1 ≤ s.size := by omega
  refine ⟨(s.tail + 1) % capacity,s.size - 1,?_,by simp [checkedSub,hone],?_⟩
  · rw [h.capacity_eq]
    exact nextIndex_pos hpos _
  · exact
      { capacity_eq := h.capacity_eq
        length_buffer := h.length_buffer
        size_eq := by
          show s.size - 1 = q.length
          omega
        fits := by omega
        tail_mod := Nat.mod_mod _ _
        head_eq := by
          show s.head = ((s.tail + 1) % capacity + q.length) % capacity
          rw [h.head_eq,Nat.mod_add_mod,List.length_cons]
          congr 1
          omega
        holds := by
          have htail := h.holds.tail
          rw [← holds_mod,h.length_buffer] at htail
          exact htail }

end Represents

/-! ## The loops -/

/-- Filling a slice at index `i` and going on leaves the bytes before `i` and after the last. -/
theorem filled_cons (data bytes : List UInt8) {i n : ℕ} (hi : i < data.length) (byte : UInt8) :
    (data.set i byte).take (i + 1) ++ bytes.take n ++ (data.set i byte).drop (i + 1 + n) =
      data.take i ++ (byte::bytes).take (n + 1) ++ data.drop (i + (n + 1)) := by
  have htake : (data.set i byte).take (i + 1) = data.take i ++ [byte] := by
    rw [List.take_add_one,List.take_set_of_le (Nat.le_refl i),List.getElem?_set_self hi]
    rfl
  have hdrop : (data.set i byte).drop (i + 1 + n) = data.drop (i + (n + 1)) := by
    rw [List.drop_set_of_lt (by omega)]
    congr 1
    omega
  rw [htake,hdrop]
  simp

theorem writeLoop_ok (h : s.Represents capacity q) (data : List UInt8) {n i : ℕ}
    (hdata : i + n ≤ data.length) (hroom : q.length + n ≤ capacity) :
    ∃ t, writeLoop data n i s = some t ∧ t.Represents capacity (q ++ (data.drop i).take n) := by
  induction n generalizing i s q with
  | zero => exact ⟨s,rfl,by simpa using h⟩
  | succ n ih =>
    have hi : i < data.length := by omega
    obtain ⟨buffer,head,hstore,hhead,hnext⟩ := h.snoc (by omega) data[i]
    obtain ⟨t,ht,hrep⟩ := ih hnext (i := i + 1) (by omega) (by simp; omega)
    refine ⟨t,?_,?_⟩
    · simp [writeLoop,List.getElem?_eq_getElem hi,hstore,hhead,ht]
    · rw [List.append_assoc,List.singleton_append] at hrep
      rwa [List.drop_eq_getElem_cons hi,List.take_succ_cons]

theorem readLoop_ok (h : s.Represents capacity q) (data : List UInt8) {n i : ℕ}
    (hdata : i + n ≤ data.length) (hn : n ≤ q.length) :
    ∃ t, readLoop n i s data = some (t,data.take i ++ q.take n ++ data.drop (i + n)) ∧
      t.Represents capacity (q.drop n) := by
  induction n generalizing i s q data with
  | zero => exact ⟨s,by simp [readLoop],h⟩
  | succ n ih =>
    cases q with
    | nil => exact absurd hn (Nat.not_succ_le_zero n)
    | cons byte q =>
      have hi : i < data.length := by omega
      obtain ⟨tail,size,htail,hsize,hnext⟩ := h.tail
      have hlength : i + 1 + n ≤ (data.set i byte).length := by
        rw [List.length_set]
        omega
      obtain ⟨t,ht,hrep⟩ := ih hnext _ hlength (Nat.le_of_succ_le_succ hn)
      refine ⟨t,?_,hrep⟩
      rw [filled_cons data q hi byte] at ht
      simp [readLoop,h.head_slot,store,hi,htail,hsize,ht]

/-- `peek` walks the same slots as `read` of a buffer whose tail is at its position. -/
theorem peekLoop_eq (s : CircularBuffer) {n size : ℕ} (hn : n ≤ size) (i pos : ℕ)
    (data : List UInt8) :
    peekLoop s n i pos data = (readLoop n i {s with tail := pos, size} data).map Prod.snd := by
  induction n generalizing i pos size data with
  | zero => rfl
  | succ n ih =>
    have hsub : checkedSub size 1 = some (size - 1) := by
      have hone : 1 ≤ size := by omega
      simp [checkedSub,hone]
    rw [peekLoop,readLoop,hsub]
    cases s.buffer[pos]? with
    | none => rfl
    | some byte =>
      cases hstore : store data i byte with
      | none => simp [hstore]
      | some filled =>
        cases nextIndex s.capacity pos with
        | none => simp
        | some next => simpa [hstore] using ih (Nat.le_sub_of_add_le hn) (i + 1) next filled

namespace Represents

theorem write_ok (h : s.Represents capacity q) (data : List UInt8) :
    ∃ t, s.write data = some (t,min data.length (capacity - q.length)) ∧
      t.Represents capacity (q ++ data.take (min data.length (capacity - q.length))) := by
  have hfits := h.fits
  obtain ⟨t,ht,hrep⟩ := writeLoop_ok h data (i := 0)
    (n := min data.length (capacity - q.length)) (by omega) (by omega)
  exact ⟨t,by simp [write,h.checkedSub_eq,ht],hrep⟩

theorem read_ok (h : s.Represents capacity q) (data : List UInt8) :
    ∃ t, s.read data = some (t,min data.length q.length,
        q.take (min data.length q.length) ++ data.drop (min data.length q.length)) ∧
      t.Represents capacity (q.drop (min data.length q.length)) := by
  obtain ⟨t,ht,hrep⟩ := readLoop_ok h data (i := 0)
    (n := min data.length q.length) (by omega) (by omega)
  rw [List.take_zero,List.nil_append,Nat.zero_add] at ht
  exact ⟨t,by simp [read,h.size_eq,ht],hrep⟩

theorem peek_ok (h : s.Represents capacity q) (data : List UInt8) :
    s.peek data = some (min data.length q.length,
      q.take (min data.length q.length) ++ data.drop (min data.length q.length)) := by
  obtain ⟨t,ht,-⟩ := readLoop_ok h data (i := 0)
    (n := min data.length q.length) (by omega) (by omega)
  have hle : min data.length q.length ≤ s.size := by
    rw [h.size_eq]
    omega
  have hwalk := peekLoop_eq s hle 0 s.tail data
  rw [ht,List.take_zero,List.nil_append,Nat.zero_add] at hwalk
  simp [peek,h.size_eq,hwalk]

end Represents
end CircularBuffer

/-! ## Refinement -/

/-- The ring holds the bytes of the queue and both returned the same. -/
structure Refines (capacity : ℕ) (f : Fifo) (s : State) : Prop where
  represents : s.ring.Represents capacity f.bytes
  answers_eq : s.answers = f.answers

theorem Refines.answer {capacity : ℕ} {f : Fifo} {s : State} (h : Refines capacity f s)
    {ring : CircularBuffer} {bytes : List UInt8} (hring : ring.Represents capacity bytes)
    (a : Answer) : Refines capacity ⟨bytes,f.answers ++ [a]⟩ (s.answer ring a) :=
  ⟨hring,by rw [State.answer,h.answers_eq]⟩

theorem Refines.step {capacity : ℕ} {f : Fifo} {s : State} (h : Refines capacity f s)
    (call : Call) : ∃ t, s.step call = some t ∧ Refines capacity (f.step capacity call) t := by
  have hrep := h.represents
  cases call with
  | write data =>
    obtain ⟨t,ht,hnext⟩ := hrep.write_ok data
    exact ⟨_,by rw [State.step,ht]; rfl,h.answer hnext _⟩
  | read data =>
    obtain ⟨t,ht,hnext⟩ := hrep.read_ok data
    exact ⟨_,by rw [State.step,ht]; rfl,h.answer hnext _⟩
  | peek data =>
    exact ⟨_,by rw [State.step,hrep.peek_ok data]; rfl,h.answer hrep _⟩
  | clear => exact ⟨_,rfl,h.answer hrep.clear _⟩

/-- Every sequence of calls runs without a panic, returns what the bounded queue returns and
leaves the ring with the bytes of the queue. -/
theorem circularBuffer_refines_fifo (capacity : ℕ) (calls : List Call) :
    ∃ s, State.run capacity calls = some s ∧
      s.answers = (Fifo.run capacity calls).answers ∧
      s.ring.Represents capacity (Fifo.run capacity calls).bytes ∧
      ∃ free, s.ring.available = some free ∧ s.ring.size + free = capacity := by
  have hinit : Refines capacity ⟨[],[]⟩ ⟨CircularBuffer.new capacity,[]⟩ :=
    ⟨CircularBuffer.represents_new capacity,rfl⟩
  obtain ⟨s,hs,hrefines⟩ : ∃ s, State.run capacity calls = some s ∧
      Refines capacity (Fifo.run capacity calls) s :=
    Runs.exec_simulates (R := Refines capacity) (fun f s call h => h.step call) hinit calls
  have hrep := hrefines.represents
  refine ⟨s,hs,hrefines.answers_eq,hrep,_,hrep.checkedSub_eq,?_⟩
  have hfits := hrep.fits
  rw [hrep.size_eq]
  omega

example : ((State.run 4 [.write [1,2,3],.read [0,0],.write [4,5,6,7],.peek [0,0,0,0,9]]).map
    State.answers) = some [.wrote 3,.filled 2 [1,2],.wrote 3,.filled 4 [3,4,5,6,9]] := by decide

end BufferManagement
end UProtocols
