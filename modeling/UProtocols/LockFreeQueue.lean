import UProtocols.Runs

/-!
# The lock-free MPSC queue

`LockFreeQueue` of `lock_free_queue_for_websocket_messages.rs`, one atomic operation
a step. Any number of producers run `enqueue` calls and one consumer runs `dequeue`
calls; a thread in a call is the operation it takes next with the locals it still
needs. Operations are sequentially consistent, addresses are never reused, and a
dropped node keeps its contents, so that a read of it stays visible.
-/

namespace UProtocols
namespace LockFreeQueue

structure WebSocketMessage where
  data : List UInt8
  connectionId : ℕ
  deriving DecidableEq

abbrev Addr := ℕ

structure QueueNode where
  message : Option WebSocketMessage
  next : Option Addr
  deriving DecidableEq

namespace QueueNode

def new (message : WebSocketMessage) : QueueNode := ⟨some message,none⟩

def dummy : QueueNode := ⟨none,none⟩

end QueueNode

/-- The operation that an `enqueue` call takes next. -/
inductive EnqueueStep
  | loadTail
  | loadNext (tail : Addr)
  | recheckTail (tail : Addr) (next : Option Addr)
  | linkNext (tail : Addr)
  | swingTail (tail : Addr)
  | helpTail (tail next : Addr)
  | addCount
  deriving DecidableEq

/-- The node of the call has not been linked yet. -/
def EnqueueStep.unlinked : EnqueueStep → Bool
  | swingTail _ => false
  | addCount => false
  | _ => true

structure Enqueue where
  message : WebSocketMessage
  node : Addr
  step : EnqueueStep
  deriving DecidableEq

def Enqueue.goto (c : Enqueue) (next : EnqueueStep) : Enqueue := {c with step := next}

/-- The operation that a `dequeue` call takes next. -/
inductive Dequeue
  | loadHead
  | loadTail (head : Addr)
  | loadNext (head tail : Addr)
  | recheckHead (head tail : Addr) (next : Option Addr)
  | helpTail (tail next : Addr)
  | readMessage (head : Addr) (next : Option Addr)
  | swingHead (head next : Addr) (message : Option WebSocketMessage)
  | subCount (head : Addr) (message : Option WebSocketMessage)
  | dropHead (head : Addr) (message : Option WebSocketMessage)
  deriving DecidableEq

/-- A successful link: which producer put which message into which node. -/
structure Link where
  producer : ℕ
  node : Addr
  message : WebSocketMessage
  deriving DecidableEq

/-- The memory of the queue, with the log of its successful links and the number of
times `head` was swung. -/
structure Queue where
  heap : Addr → QueueNode
  fresh : Addr
  head : Addr
  tail : Addr
  count : UInt64
  linked : List Link
  dequeued : ℕ

namespace Queue

def new : Queue where
  heap := fun _ => QueueNode.dummy
  fresh := 1
  head := 0
  tail := 0
  count := 0
  linked := []
  dequeued := 0

/-- The dummy node and the linked nodes, from the first to the last. -/
def chain (q : Queue) : List Addr := 0 :: q.linked.map Link.node

/-- `Box::into_raw(Box::new(QueueNode::new(message)))`. -/
def alloc (q : Queue) (message : WebSocketMessage) : Queue :=
  {q with heap := Function.update q.heap q.fresh (QueueNode.new message), fresh := q.fresh + 1}

/-- A successful `(*tail).next.compare_exchange(null, node)`. -/
def link (q : Queue) (tail : Addr) (l : Link) : Queue :=
  {q with
    heap := Function.update q.heap tail {q.heap tail with next := some l.node}
    linked := q.linked ++ [l]}

/-- `self.tail.compare_exchange(old, new)`. -/
def casTail (q : Queue) (old new : Addr) : Queue :=
  if q.tail = old then {q with tail := new} else q

/-- A successful `self.head.compare_exchange(head, next)`. -/
def swingHead (q : Queue) (next : Addr) : Queue :=
  {q with head := next, dequeued := q.dequeued + 1}

def len (q : Queue) : UInt64 := q.count

def isEmpty (q : Queue) : Bool := q.len == 0

end Queue

/-- One atomic operation of producer `i` in the call `c`: the queue after it, and the
call unless it returns. -/
def Enqueue.advance (q : Queue) (i : ℕ) (c : Enqueue) : Queue × Option Enqueue :=
  match c.step with
  | .loadTail => (q,some (c.goto (.loadNext q.tail)))
  | .loadNext tail => (q,some (c.goto (.recheckTail tail (q.heap tail).next)))
  | .recheckTail tail next =>
    if tail = q.tail then
      match next with
      | none => (q,some (c.goto (.linkNext tail)))
      | some next => (q,some (c.goto (.helpTail tail next)))
    else (q,some (c.goto .loadTail))
  | .linkNext tail =>
    if (q.heap tail).next = none then
      (q.link tail ⟨i,c.node,c.message⟩,some (c.goto (.swingTail tail)))
    else (q,some (c.goto .loadTail))
  | .swingTail tail => (q.casTail tail c.node,some (c.goto .addCount))
  | .helpTail tail next => (q.casTail tail next,some (c.goto .loadTail))
  | .addCount => ({q with count := q.count + 1},none)

/-- How an operation of `dequeue` ends: the call goes on, returns, or drops the old head
and returns. -/
inductive Outcome
  | goesOn (next : Dequeue)
  | returns (result : Option WebSocketMessage)
  | drops (head : Addr) (result : Option WebSocketMessage)
  deriving DecidableEq

/-- One atomic operation of the consumer. A null `next` has no message to read, and
the call would not go on. -/
def Dequeue.advance (q : Queue) : Dequeue → Option (Queue × Outcome)
  | .loadHead => some (q,.goesOn (.loadTail q.head))
  | .loadTail head => some (q,.goesOn (.loadNext head q.tail))
  | .loadNext head tail => some (q,.goesOn (.recheckHead head tail (q.heap head).next))
  | .recheckHead head tail next =>
    if head = q.head then
      if head = tail then
        match next with
        | none => some (q,.returns none)
        | some next => some (q,.goesOn (.helpTail tail next))
      else some (q,.goesOn (.readMessage head next))
    else some (q,.goesOn .loadHead)
  | .helpTail tail next => some (q.casTail tail next,.goesOn .loadHead)
  | .readMessage head next =>
    next.map fun next => (q,.goesOn (.swingHead head next (q.heap next).message))
  | .swingHead head next message =>
    if q.head = head then some (q.swingHead next,.goesOn (.subCount head message))
    else some (q,.goesOn .loadHead)
  | .subCount head message =>
    some ({q with count := q.count - 1},.goesOn (.dropHead head message))
  | .dropHead head message => some (q,.drops head message)

/-- The queue, its threads, and what they have been asked and have answered. -/
structure State where
  queue : Queue
  producers : ℕ → Option Enqueue
  consumer : Option Dequeue
  started : List (ℕ × WebSocketMessage)
  results : List (Option WebSocketMessage)
  retired : List Addr

inductive Event
  | startEnqueue (producer : ℕ) (message : WebSocketMessage)
  | producer (producer : ℕ)
  | startDequeue
  | consumer
  deriving DecidableEq

namespace State

def new : State where
  queue := Queue.new
  producers := fun _ => none
  consumer := none
  started := []
  results := []
  retired := []

def startEnqueue (s : State) (i : ℕ) (message : WebSocketMessage) : State :=
  {s with
    queue := s.queue.alloc message
    producers := Function.update s.producers i (some ⟨message,s.queue.fresh,.loadTail⟩)
    started := s.started ++ [(i,message)]}

def produce (s : State) (i : ℕ) (q : Queue) (c : Option Enqueue) : State :=
  {s with queue := q, producers := Function.update s.producers i c}

def consume (s : State) (q : Queue) : Outcome → State
  | .goesOn next => {s with queue := q, consumer := some next}
  | .returns result => {s with queue := q, consumer := none, results := s.results ++ [result]}
  | .drops head result => {s with
      queue := q
      consumer := none
      results := s.results ++ [result]
      retired := head :: s.retired}

/-- One atomic operation of a thread, or the start of a call of an idle one. -/
def step (s : State) : Event → Option State
  | .startEnqueue i message =>
    match s.producers i with
    | none => some (s.startEnqueue i message)
    | some _ => none
  | .producer i =>
    match s.producers i with
    | none => none
    | some c => some (s.produce i (c.advance s.queue i).1 (c.advance s.queue i).2)
  | .startDequeue =>
    match s.consumer with
    | none => some {s with consumer := some .loadHead}
    | some _ => none
  | .consumer =>
    match s.consumer with
    | none => none
    | some d => (d.advance s.queue).map fun r => s.consume r.1 r.2

def run (events : List Event) : Option State := Runs.exec step new events

end State
end LockFreeQueue
end UProtocols
