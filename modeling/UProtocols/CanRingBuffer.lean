import Mathlib.Data.List.Basic
import UProtocols.RingSlots
import UProtocols.Runs

/-!
# The CAN ring buffer

`RingBuffer<T, N>` of `CAN_Ring_Buffer.rs`, one atomic operation or slot access a step:
a producer that calls `push` and a consumer that calls `pop`, `peek` and `clear`. Both
sides tell full and empty by `count` alone, which each updates after its index. `usize`
has 64 bits.
-/

namespace UProtocols
namespace CanRingBuffer

variable {T : Type}

structure RingBuffer (T : Type) where
  buffer : List T
  head : ℕ
  tail : ℕ
  count : UInt64

namespace RingBuffer

def new (T : Type) [Inhabited T] (N : UInt64) : RingBuffer T where
  buffer := List.replicate N.toNat default
  head := 0
  tail := 0
  count := 0

def isEmpty (b : RingBuffer T) : Bool := b.count == 0

def isFull (b : RingBuffer T) (N : UInt64) : Bool := b.count ≥ N

def len (b : RingBuffer T) : UInt64 := b.count

end RingBuffer

/-- The operation that a `push` call takes next. -/
inductive PushStep
  | checkFull
  | loadHead
  | writeSlot (head : ℕ)
  | storeHead (head : ℕ)
  | addCount
  deriving DecidableEq

structure Push (T : Type) where
  item : T
  step : PushStep
  deriving DecidableEq

def Push.goto (c : Push T) (next : PushStep) : Push T := {c with step := next}

/-- The operation that a call of the consumer takes next. -/
inductive Call (T : Type)
  | popCheck
  | popTail
  | popSlot (tail : ℕ)
  | popStore (tail : ℕ) (item : T)
  | popCount (item : T)
  | peekCheck
  | peekTail
  | peekSlot (tail : ℕ)
  | clearHead
  | clearTail
  | clearCount
  deriving DecidableEq

inductive PushOutcome (T : Type)
  | goesOn (next : Push T)
  | ok (item : T)
  | err (item : T)
  deriving DecidableEq

inductive Outcome (T : Type)
  | goesOn (next : Call T)
  | popped (result : Option T)
  | peeked (result : Option T)
  | cleared
  deriving DecidableEq

/-- One operation of `push`; a remainder by zero or an index outside the buffer panics. -/
def Push.advance (N : UInt64) (b : RingBuffer T) (c : Push T) :
    Option (RingBuffer T × PushOutcome T) :=
  match c.step with
  | .checkFull =>
    if b.isFull N then some (b,.err c.item) else some (b,.goesOn (c.goto .loadHead))
  | .loadHead => some (b,.goesOn (c.goto (.writeSlot b.head)))
  | .writeSlot head =>
    if head < b.buffer.length then
      some ({b with buffer := b.buffer.set head c.item},.goesOn (c.goto (.storeHead head)))
    else none
  | .storeHead head =>
    if N = 0 then none
    else some ({b with head := (head + 1) % N.toNat},.goesOn (c.goto .addCount))
  | .addCount => some ({b with count := b.count + 1},.ok c.item)

/-- One operation of `pop`, `peek` or `clear`. -/
def Call.advance (N : UInt64) (b : RingBuffer T) : Call T → Option (RingBuffer T × Outcome T)
  | .popCheck => if b.isEmpty then some (b,.popped none) else some (b,.goesOn .popTail)
  | .popTail => some (b,.goesOn (.popSlot b.tail))
  | .popSlot tail => (b.buffer[tail]?).map fun item => (b,.goesOn (.popStore tail item))
  | .popStore tail item =>
    if N = 0 then none
    else some ({b with tail := (tail + 1) % N.toNat},.goesOn (.popCount item))
  | .popCount item => some ({b with count := b.count - 1},.popped (some item))
  | .peekCheck => if b.isEmpty then some (b,.peeked none) else some (b,.goesOn .peekTail)
  | .peekTail => some (b,.goesOn (.peekSlot b.tail))
  | .peekSlot tail => (b.buffer[tail]?).map fun item => (b,.peeked (some item))
  | .clearHead => some ({b with head := 0},.goesOn .clearTail)
  | .clearTail => some ({b with tail := 0},.goesOn .clearCount)
  | .clearCount => some ({b with count := 0},.cleared)

/-- The buffer and its two threads, with the items pushed and popped so far, those pushed
and neither popped nor cleared, and for each item peeked at how many were popped before. -/
structure State (T : Type) where
  ring : RingBuffer T
  producer : Option (Push T)
  consumer : Option (Call T)
  pushed : List T
  popped : List T
  queue : List T
  peeked : List (ℕ × T)

inductive Event (T : Type)
  | startPush (item : T)
  | producer
  | startPop
  | startPeek
  | startClear
  | consumer
  deriving DecidableEq

namespace State

def new (T : Type) [Inhabited T] (N : UInt64) : State T where
  ring := RingBuffer.new T N
  producer := none
  consumer := none
  pushed := []
  popped := []
  queue := []
  peeked := []

def produce (s : State T) (b : RingBuffer T) : PushOutcome T → State T
  | .goesOn next => {s with ring := b, producer := some next}
  | .ok item => {s with
      ring := b
      producer := none
      pushed := s.pushed ++ [item]
      queue := s.queue ++ [item]}
  | .err _ => {s with ring := b, producer := none}

def consume (s : State T) (b : RingBuffer T) : Outcome T → State T
  | .goesOn next => {s with ring := b, consumer := some next}
  | .popped none => {s with ring := b, consumer := none}
  | .popped (some item) => {s with
      ring := b
      consumer := none
      popped := s.popped ++ [item]
      queue := s.queue.tail}
  | .peeked none => {s with ring := b, consumer := none}
  | .peeked (some item) => {s with
      ring := b
      consumer := none
      peeked := s.peeked ++ [(s.popped.length,item)]}
  | .cleared => {s with ring := b, consumer := none, queue := []}

/-- An idle consumer starts a call. -/
def start (s : State T) (call : Call T) : Option (State T) :=
  match s.consumer with
  | none => some {s with consumer := some call}
  | some _ => none

def step (N : UInt64) (s : State T) : Event T → Option (State T)
  | .startPush item =>
    match s.producer with
    | none => some {s with producer := some ⟨item,.checkFull⟩}
    | some _ => none
  | .producer => s.producer.bind fun c => (c.advance N s.ring).map fun r => s.produce r.1 r.2
  | .startPop => s.start .popCheck
  | .startPeek => s.start .peekCheck
  | .startClear => s.start .clearHead
  | .consumer => s.consumer.bind fun d => (d.advance N s.ring).map fun r => s.consume r.1 r.2

def run [Inhabited T] (N : UInt64) (events : List (Event T)) : Option (State T) :=
  Runs.exec (step N) (new T N) events

/-- No operation is in progress. -/
def Idle (s : State T) : Prop := s.producer = none ∧ s.consumer = none

end State
end CanRingBuffer
end UProtocols
