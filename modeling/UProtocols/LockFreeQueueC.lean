import Mathlib.Data.Finset.Basic
import Mathlib.Data.Fintype.Basic
import UProtocols.LinkedChain
import UProtocols.Runs

/-!
# The MPSC queue in C

`queue_enqueue` and `queue_dequeue` of `lock_free_queue_for_websocket_messages.cpp`, one
atomic operation a step, for `n` producers and one consumer. Unlike its counterpart in
Rust, `queue_dequeue` never looks at `q->tail`. Memory is as `malloc` and `free` leave
it: a node may be placed wherever nothing is allocated, with the old contents of the
memory, also where a node was freed.
-/

namespace UProtocols
namespace LockFreeQueueC

structure WsMessage where
  data : List UInt8
  connectionId : Int32
  deriving DecidableEq

abbrev Addr := ℕ

/-- The message is absent as long as it is uninitialised. -/
structure QueueNode where
  message : Option WsMessage
  next : Option Addr
  deriving DecidableEq

/-- The operation that a `queue_enqueue` call takes next. -/
inductive EnqueueStep
  | storeNull
  | loadTail
  | linkNext (prevTail : Addr)
  | loadNext (prevTail : Addr)
  | helpTail (prevTail next : Addr)
  | swingTail (prevTail : Addr)
  | addCount
  deriving DecidableEq

namespace EnqueueStep

/-- The node of the call has not been linked yet. -/
def unlinked : EnqueueStep → Bool
  | swingTail _ => false
  | addCount => false
  | _ => true

/-- The call has stored `NULL` behind its node. -/
def cleared : EnqueueStep → Bool
  | storeNull => false
  | _ => true

/-- The node that the call holds as `prev_tail`. -/
def prevTail : EnqueueStep → Option Addr
  | linkNext prevTail => some prevTail
  | loadNext prevTail => some prevTail
  | helpTail prevTail _ => some prevTail
  | swingTail prevTail => some prevTail
  | _ => none

end EnqueueStep

structure Enqueue where
  node : Addr
  step : EnqueueStep
  deriving DecidableEq

def Enqueue.goto (c : Enqueue) (next : EnqueueStep) : Enqueue := {c with step := next}

/-- The operation that a `queue_dequeue` call takes next. -/
inductive Dequeue
  | loadHead
  | loadNext (head : Addr)
  | copyMessage (head next : Addr)
  | storeHead (head next : Addr) (message : Option WsMessage)
  | subCount (head : Addr) (message : Option WsMessage)
  | freeHead (head : Addr) (message : Option WsMessage)
  deriving DecidableEq

/-- `lockfree_queue_t` and the nodes in memory. -/
structure Queue where
  heap : Addr → QueueNode
  allocated : Finset Addr
  head : Addr
  tail : Addr
  count : UInt64

namespace Queue

/-- `queue_create`, with the dummy node at address 0. -/
def create : Queue where
  heap := fun _ => ⟨none,none⟩
  allocated := {0}
  head := 0
  tail := 0
  count := 0

/-- `malloc` of a node, filled with the message; `next` is still what the memory held. -/
def malloc (q : Queue) (node : Addr) (msg : WsMessage) : Queue :=
  {q with
    heap := Function.update q.heap node {q.heap node with message := some msg}
    allocated := insert node q.allocated}

def setNext (q : Queue) (a : Addr) (next : Option Addr) : Queue :=
  {q with heap := Function.update q.heap a {q.heap a with next := next}}

/-- `atomic_compare_exchange_strong(&q->tail, &old, new)`. -/
def casTail (q : Queue) (old new : Addr) : Queue :=
  if q.tail = old then {q with tail := new} else q

def free (q : Queue) (a : Addr) : Queue := {q with allocated := q.allocated.erase a}

def size (q : Queue) : UInt64 := q.count

/-- Node `b` is reachable from node `a` through `next` links. -/
def Reaches (q : Queue) (a b : Addr) : Prop :=
  Relation.ReflTransGen (fun x y => (q.heap x).next = some y) a b

end Queue

/-- One atomic operation of a `queue_enqueue` call: the queue after it, and the call
unless it returns. A weak compare-exchange may fail spuriously. -/
def Enqueue.advance (q : Queue) (c : Enqueue) (spurious : Bool) : Queue × Option Enqueue :=
  match c.step with
  | .storeNull => (q.setNext c.node none,some (c.goto .loadTail))
  | .loadTail => (q,some (c.goto (.linkNext q.tail)))
  | .linkNext prevTail =>
    if (q.heap prevTail).next = none ∧ spurious = false then
      (q.setNext prevTail (some c.node),some (c.goto (.swingTail prevTail)))
    else (q,some (c.goto (.loadNext prevTail)))
  | .loadNext prevTail =>
    match (q.heap prevTail).next with
    | some next => (q,some (c.goto (.helpTail prevTail next)))
    | none => (q,some (c.goto .loadTail))
  | .helpTail prevTail next => (q.casTail prevTail next,some (c.goto .loadTail))
  | .swingTail prevTail => (q.casTail prevTail c.node,some (c.goto .addCount))
  | .addCount => ({q with count := q.count + 1},none)

/-- One operation of `queue_dequeue`: the queue after it, and the call that goes on or
the message it returns. -/
def Dequeue.advance (q : Queue) : Dequeue → Queue × (Dequeue ⊕ Option WsMessage)
  | .loadHead => (q,.inl (.loadNext q.head))
  | .loadNext head =>
    match (q.heap head).next with
    | none => (q,.inr none)
    | some next => (q,.inl (.copyMessage head next))
  | .copyMessage head next => (q,.inl (.storeHead head next (q.heap next).message))
  | .storeHead head next message => ({q with head := next},.inl (.subCount head message))
  | .subCount head message => ({q with count := q.count - 1},.inl (.freeHead head message))
  | .freeHead head message => (q.free head,.inr message)

/-- The queue, its threads, and what `queue_dequeue` has returned. -/
structure State (n : ℕ) where
  queue : Queue
  producers : Fin n → Option Enqueue
  consumer : Option Dequeue
  results : List (Option WsMessage)

/-- Starting `queue_enqueue` allocates the node at the address that `malloc` returns; the
call fails at once when one of its two `malloc`s does. -/
inductive Event (n : ℕ)
  | startEnqueue (producer : Fin n) (msg : WsMessage) (node : Addr)
  | failEnqueue (producer : Fin n) (msg : WsMessage)
  | producer (producer : Fin n) (spurious : Bool)
  | startDequeue
  | consumer
  deriving DecidableEq

variable {n : ℕ}

namespace State

def create (n : ℕ) : State n where
  queue := Queue.create
  producers := fun _ => none
  consumer := none
  results := []

def startEnqueue (s : State n) (i : Fin n) (msg : WsMessage) (node : Addr) : State n :=
  {s with
    queue := s.queue.malloc node msg
    producers := Function.update s.producers i (some ⟨node,.storeNull⟩)}

def produce (s : State n) (i : Fin n) (r : Queue × Option Enqueue) : State n :=
  {s with queue := r.1, producers := Function.update s.producers i r.2}

def consume (s : State n) (r : Queue × (Dequeue ⊕ Option WsMessage)) : State n :=
  match r.2 with
  | .inl next => {s with queue := r.1, consumer := some next}
  | .inr result => {s with queue := r.1, consumer := none, results := s.results ++ [result]}

/-- One atomic operation of a thread, or the start of a call of an idle one. -/
def step (s : State n) : Event n → Option (State n)
  | .startEnqueue i msg node =>
    match s.producers i with
    | none => if node ∈ s.queue.allocated then none else some (s.startEnqueue i msg node)
    | some _ => none
  | .failEnqueue i _ =>
    match s.producers i with
    | none => some s
    | some _ => none
  | .producer i spurious =>
    match s.producers i with
    | none => none
    | some c => some (s.produce i (c.advance s.queue spurious))
  | .startDequeue =>
    match s.consumer with
    | none => some {s with consumer := some .loadHead}
    | some _ => none
  | .consumer =>
    match s.consumer with
    | none => none
    | some d => some (s.consume (d.advance s.queue))

def run (events : List (Event n)) : Option (State n) := Runs.exec step (create n) events

end State
end LockFreeQueueC
end UProtocols
