import Mathlib.Data.List.ReduceOption
import UProtocols.Channel
import UProtocols.LockFreeQueue
import UProtocols.RingSlots

/-!
# The lock-free SPSC ring buffer

`LockFreeRingBuffer` of `lock_free_queue_for_websocket_messages.rs`, one load, slot
access or store a step, for one producer and one consumer. The indices wrap at
`capacity`; one slot stays free, so that equal indices mean an empty buffer. The unread
messages lie in the slots from `read_pos` on, all but the one that a running `pop` has
taken out.
-/

namespace UProtocols
namespace LockFreeRingBuffer

open LockFreeQueue (WebSocketMessage)

structure RingBuffer where
  buffer : List (Option WebSocketMessage)
  capacity : ℕ
  writePos : ℕ
  readPos : ℕ

namespace RingBuffer

def new (capacity : ℕ) : RingBuffer where
  buffer := List.replicate capacity none
  capacity := capacity
  writePos := 0
  readPos := 0

def len (b : RingBuffer) : ℕ :=
  if b.writePos ≥ b.readPos then b.writePos - b.readPos
  else b.capacity - b.readPos + b.writePos

end RingBuffer

/-- The operation that a `push` call takes next. -/
inductive PushStep
  | loadWrite
  | loadRead (w : ℕ)
  | writeSlot (w nextW : ℕ)
  | storeWrite (nextW : ℕ)
  deriving DecidableEq

structure Push where
  message : WebSocketMessage
  step : PushStep
  deriving DecidableEq

def Push.goto (c : Push) (next : PushStep) : Push := {c with step := next}

/-- The operation that a `pop` call takes next. -/
inductive Pop
  | loadRead
  | loadWrite (r : ℕ)
  | takeSlot (r : ℕ)
  | storeRead (nextR : ℕ) (message : Option WebSocketMessage)
  deriving DecidableEq

/-- How an operation of `push` ends: the call goes on, or returns `Ok` or `Err`. -/
inductive PushOutcome
  | goesOn (next : Push)
  | ok (message : WebSocketMessage)
  | err (message : WebSocketMessage)
  deriving DecidableEq

/-- One operation of the producer; a remainder by zero or an index outside the buffer
panics. -/
def Push.advance (b : RingBuffer) (c : Push) : Option (RingBuffer × PushOutcome) :=
  match c.step with
  | .loadWrite => some (b,.goesOn (c.goto (.loadRead b.writePos)))
  | .loadRead w =>
    if b.capacity = 0 then none
    else if (w + 1) % b.capacity = b.readPos then some (b,.err c.message)
    else some (b,.goesOn (c.goto (.writeSlot w ((w + 1) % b.capacity))))
  | .writeSlot w nextW =>
    if w < b.buffer.length then
      some ({b with buffer := b.buffer.set w (some c.message)},
        .goesOn (c.goto (.storeWrite nextW)))
    else none
  | .storeWrite nextW => some ({b with writePos := nextW},.ok c.message)

/-- One operation of the consumer: the call goes on or returns. -/
def Pop.advance (b : RingBuffer) : Pop → Option (RingBuffer × (Pop ⊕ Option WebSocketMessage))
  | .loadRead => some (b,.inl (.loadWrite b.readPos))
  | .loadWrite r => if r = b.writePos then some (b,.inr none) else some (b,.inl (.takeSlot r))
  | .takeSlot r =>
    if b.capacity = 0 then none
    else (b.buffer[r]?).map fun message =>
      ({b with buffer := b.buffer.set r none},.inl (.storeRead ((r + 1) % b.capacity) message))
  | .storeRead nextR message => some ({b with readPos := nextR},.inr message)

/-- The buffer, its two threads, and what their calls have returned. -/
structure State where
  ring : RingBuffer
  producer : Option Push
  consumer : Option Pop
  pushed : List WebSocketMessage
  rejected : List WebSocketMessage
  results : List (Option WebSocketMessage)

inductive Event
  | startPush (message : WebSocketMessage)
  | producer
  | startPop
  | consumer
  deriving DecidableEq

namespace State

def new (capacity : ℕ) : State where
  ring := RingBuffer.new capacity
  producer := none
  consumer := none
  pushed := []
  rejected := []
  results := []

def produce (s : State) (b : RingBuffer) : PushOutcome → State
  | .goesOn next => {s with ring := b, producer := some next}
  | .ok message => {s with ring := b, producer := none, pushed := s.pushed ++ [message]}
  | .err message => {s with ring := b, producer := none, rejected := s.rejected ++ [message]}

def consume (s : State) (b : RingBuffer) : Pop ⊕ Option WebSocketMessage → State
  | .inl next => {s with ring := b, consumer := some next}
  | .inr result => {s with ring := b, consumer := none, results := s.results ++ [result]}

def step (s : State) : Event → Option State
  | .startPush message =>
    match s.producer with
    | none => some {s with producer := some ⟨message,.loadWrite⟩}
    | some _ => none
  | .producer => s.producer.bind fun c => (c.advance s.ring).map fun r => s.produce r.1 r.2
  | .startPop =>
    match s.consumer with
    | none => some {s with consumer := some .loadRead}
    | some _ => none
  | .consumer => s.consumer.bind fun d => (d.advance s.ring).map fun r => s.consume r.1 r.2

def run (capacity : ℕ) (events : List Event) : Option State := Runs.exec step (new capacity) events

/-- The messages that `pop` has returned. -/
def popped (s : State) : List WebSocketMessage := s.results.reduceOption

/-- The messages that were pushed and that no `pop` has returned yet. -/
def unread (s : State) : List WebSocketMessage := s.pushed.drop s.popped.length

end State

/-! ## The invariant -/

variable {b : RingBuffer} {q : List WebSocketMessage}

/-- What the locals of a `push` call say of the buffer with the unread messages `q`. -/
def Push.Placed (b : RingBuffer) (q : List WebSocketMessage) (c : Push) : Prop :=
  match c.step with
  | .loadWrite => True
  | .loadRead w => w = b.writePos
  | .writeSlot w nextW =>
    w = b.writePos ∧ nextW = (b.writePos + 1) % b.capacity ∧ q.length + 1 < b.capacity
  | .storeWrite nextW =>
    nextW = (b.writePos + 1) % b.capacity ∧ q.length + 1 < b.capacity ∧
      b.buffer[b.writePos]? = some (some c.message)

def Pop.Placed (b : RingBuffer) (q : List WebSocketMessage) : Pop → Prop
  | .loadRead => True
  | .loadWrite r => r = b.readPos
  | .takeSlot r => r = b.readPos ∧ q ≠ []
  | .storeRead nextR message =>
    nextR = (b.readPos + 1) % b.capacity ∧ ∃ m rest, q = m::rest ∧ message = some m

/-- The number of slots that a `pop` call has emptied and not yet given back. -/
def Pop.taken : Pop → ℕ
  | .storeRead _ _ => 1
  | _ => 0

/-- The unread messages `q` lie around the ring from `read_pos` to `write_pos`, the first
`taken` of them already out of their slots. -/
structure RingBuffer.Layout (b : RingBuffer) (q : List WebSocketMessage) (taken : ℕ) : Prop where
  length : b.buffer.length = b.capacity
  room : q.length < b.capacity
  taken_le : taken ≤ q.length
  read_lt : b.readPos < b.capacity
  write : b.writePos = (b.readPos + q.length) % b.capacity
  held : RingSlots.Holds b.buffer (b.readPos + taken) ((q.drop taken).map some)

namespace RingBuffer.Layout

variable {taken : ℕ}

theorem write_lt (h : b.Layout q taken) : b.writePos < b.capacity := by
  rw [h.write]
  exact Nat.mod_lt _ (by have := h.room; omega)

/-- `push` finds the buffer full exactly when all slots but one hold an unread message. -/
theorem full_iff (h : b.Layout q taken) :
    (b.writePos + 1) % b.capacity = b.readPos ↔ q.length + 1 = b.capacity := by
  have hroom := h.room
  have hread : b.readPos = (b.readPos + 0) % b.capacity := (Nat.mod_eq_of_lt h.read_lt).symm
  rw [h.write,Nat.mod_add_mod,Nat.add_assoc]
  constructor
  · intro heq
    by_contra hne
    have hzero : q.length + 1 = 0 :=
      RingSlots.add_mod_inj (by omega) (by omega) (heq.trans hread)
    omega
  · intro heq
    rw [heq,Nat.add_mod_right]
    exact Nat.mod_eq_of_lt h.read_lt

/-- `pop` finds the buffer empty exactly when nothing is unread. -/
theorem empty_iff (h : b.Layout q taken) : b.readPos = b.writePos ↔ q = [] := by
  have hroom := h.room
  have hread : b.readPos = (b.readPos + 0) % b.capacity := (Nat.mod_eq_of_lt h.read_lt).symm
  rw [h.write,← List.length_eq_zero_iff]
  constructor
  · intro heq
    exact (RingSlots.add_mod_inj (by omega) (by omega) (hread.symm.trans heq)).symm
  · intro heq
    rw [heq]
    exact hread

theorem len_eq (h : b.Layout q taken) : b.len = q.length := by
  have hroom := h.room
  have hread := h.read_lt
  rw [len,h.write]
  by_cases hlt : b.readPos + q.length < b.capacity
  · rw [Nat.mod_eq_of_lt hlt,if_pos (by omega)]
    omega
  · have hmod : (b.readPos + q.length) % b.capacity = b.readPos + q.length - b.capacity := by
      rw [Nat.mod_eq_sub_mod (by omega)]
      exact Nat.mod_eq_of_lt (by omega)
    rw [hmod,if_neg (by omega)]
    omega

/-- The free slot that `push` writes. -/
theorem writeSlot (h : b.Layout q taken) (x : Option WebSocketMessage) :
    Layout {b with buffer := b.buffer.set b.writePos x} q taken where
  length := by
    rw [List.length_set]
    exact h.length
  room := h.room
  taken_le := h.taken_le
  read_lt := h.read_lt
  write := h.write
  held := by
    have hroom := h.room
    have htaken := h.taken_le
    have hpos : b.writePos = (b.readPos + taken + (q.length - taken)) % b.buffer.length := by
      rw [h.write,h.length]
      congr 1
      omega
    rw [hpos]
    apply h.held.set
    · rw [List.length_map,List.length_drop]
    · rw [h.length]
      omega

/-- Publishing the slot that was written. -/
theorem storeWrite (h : b.Layout q taken) {m : WebSocketMessage}
    (hroom : q.length + 1 < b.capacity) (hslot : b.buffer[b.writePos]? = some (some m)) :
    Layout {b with writePos := (b.writePos + 1) % b.capacity} (q ++ [m]) taken where
  length := h.length
  room := by
    rw [List.length_append,List.length_singleton]
    exact hroom
  taken_le := by
    rw [List.length_append]
    exact Nat.le_add_right_of_le h.taken_le
  read_lt := h.read_lt
  write := by
    show (b.writePos + 1) % b.capacity = _
    rw [h.write,Nat.mod_add_mod,List.length_append,List.length_singleton,Nat.add_assoc]
  held := by
    have htaken := h.taken_le
    rw [List.drop_append_of_le_length htaken,List.map_append]
    apply h.held.snoc
    rw [List.length_map,List.length_drop,h.length,
      show b.readPos + taken + (q.length - taken) = b.readPos + q.length by omega,← h.write]
    exact hslot

/-- Taking the first message out of its slot. -/
theorem takeSlot {m : WebSocketMessage} {rest : List WebSocketMessage}
    (h : b.Layout (m::rest) 0) : Layout {b with buffer := b.buffer.set b.readPos none}
      (m::rest) 1 where
  length := by
    rw [List.length_set]
    exact h.length
  room := h.room
  taken_le := Nat.succ_le_succ (Nat.zero_le _)
  read_lt := h.read_lt
  write := h.write
  held := by
    have hroom := h.room
    have hread := h.read_lt
    rw [List.length_cons] at hroom
    have hpos : b.readPos = (b.readPos + 1 + (b.capacity - 1)) % b.buffer.length := by
      rw [h.length,show b.readPos + 1 + (b.capacity - 1) = b.readPos + b.capacity by omega,
        Nat.add_mod_right,Nat.mod_eq_of_lt hread]
    have htail : RingSlots.Holds b.buffer (b.readPos + 1) (rest.map some) := h.held.tail
    have hset := htail.set (j := b.capacity - 1) (by rw [List.length_map]; omega)
      (by rw [h.length]; omega) none
    rw [← hpos] at hset
    exact hset

/-- Giving the emptied slot back. -/
theorem storeRead {m : WebSocketMessage} {rest : List WebSocketMessage}
    (h : b.Layout (m::rest) 1) :
    Layout {b with readPos := (b.readPos + 1) % b.capacity} rest 0 where
  length := h.length
  room := Nat.lt_of_succ_lt h.room
  taken_le := Nat.zero_le _
  read_lt := Nat.mod_lt _ (by have := h.read_lt; omega)
  write := by
    show b.writePos = ((b.readPos + 1) % b.capacity + rest.length) % b.capacity
    rw [h.write,Nat.mod_add_mod,List.length_cons]
    congr 1
    omega
  held := by
    show RingSlots.Holds b.buffer ((b.readPos + 1) % b.capacity) (rest.map some)
    rw [← h.length]
    exact RingSlots.holds_mod.mpr h.held

theorem slot_read {m : WebSocketMessage} {rest : List WebSocketMessage}
    (h : b.Layout (m::rest) 0) : b.buffer[b.readPos]? = some (some m) := by
  have hhead := h.held.head
  rw [h.length,Nat.add_zero,Nat.mod_eq_of_lt h.read_lt] at hhead
  exact hhead

end RingBuffer.Layout

/-- Everything that an operation of `push` can do in its place. -/
theorem Push.advance_cases {c : Push} {r : RingBuffer} {o : PushOutcome} {taken : ℕ}
    (hb : b.Layout q taken) (hc : c.Placed b q) (h : c.advance b = some (r,o)) :
    (∃ st, r = b ∧ o = .goesOn (c.goto st) ∧ (c.goto st).Placed b q) ∨
    (c.step = .loadRead b.writePos ∧ q.length + 1 = b.capacity ∧ r = b ∧
      o = .err c.message) ∨
    (∃ nextW, c.step = .writeSlot b.writePos nextW ∧
      r = {b with buffer := b.buffer.set b.writePos (some c.message)} ∧
      o = .goesOn (c.goto (.storeWrite nextW)) ∧ (c.goto (.storeWrite nextW)).Placed r q) ∨
    (q.length + 1 < b.capacity ∧ b.buffer[b.writePos]? = some (some c.message) ∧
      r = {b with writePos := (b.writePos + 1) % b.capacity} ∧ o = .ok c.message) := by
  have hroom := hb.room
  have hpos : b.capacity ≠ 0 := by omega
  rw [Push.Placed] at hc
  cases hstep : c.step with
  | loadWrite =>
    simp only [Push.advance,hstep,Option.some.injEq,Prod.mk.injEq] at h
    obtain ⟨rfl,rfl⟩ := h
    left
    exact ⟨_,rfl,rfl,rfl⟩
  | loadRead w =>
    simp only [hstep] at hc
    subst hc
    simp only [Push.advance,hstep,if_neg hpos] at h
    by_cases hfull : (b.writePos + 1) % b.capacity = b.readPos
    · rw [if_pos hfull] at h
      cases h
      right
      left
      exact ⟨rfl,hb.full_iff.mp hfull,rfl,rfl⟩
    · rw [if_neg hfull] at h
      cases h
      left
      have hne := mt hb.full_iff.mpr hfull
      exact ⟨_,rfl,rfl,rfl,rfl,by omega⟩
  | writeSlot w nextW =>
    simp only [hstep] at hc
    obtain ⟨rfl,hnext,hlt⟩ := hc
    have hw : b.writePos < b.buffer.length := by
      rw [hb.length]
      exact hb.write_lt
    simp only [Push.advance,hstep,if_pos hw,Option.some.injEq,Prod.mk.injEq] at h
    obtain ⟨rfl,rfl⟩ := h
    right
    right
    left
    exact ⟨nextW,rfl,rfl,rfl,hnext,hlt,List.getElem?_set_self hw⟩
  | storeWrite nextW =>
    simp only [hstep] at hc
    obtain ⟨rfl,hlt,hslot⟩ := hc
    simp only [Push.advance,hstep,Option.some.injEq,Prod.mk.injEq] at h
    obtain ⟨rfl,rfl⟩ := h
    right
    right
    right
    exact ⟨hlt,hslot,rfl,rfl⟩

/-- Everything that an operation of `pop` can do in its place. -/
theorem Pop.advance_cases {d : Pop} {r : RingBuffer} {o : Pop ⊕ Option WebSocketMessage}
    (hb : b.Layout q d.taken) (hd : d.Placed b q) (h : d.advance b = some (r,o)) :
    (∃ e, r = b ∧ o = .inl e ∧ d.taken = 0 ∧ e.taken = 0 ∧ e.Placed b q) ∨
    (q = [] ∧ r = b ∧ o = .inr none) ∨
    (∃ m rest, q = m::rest ∧ d = .takeSlot b.readPos ∧
      r = {b with buffer := b.buffer.set b.readPos none} ∧
      o = .inl (.storeRead ((b.readPos + 1) % b.capacity) (some m))) ∨
    (∃ m rest, q = m::rest ∧ d = .storeRead ((b.readPos + 1) % b.capacity) (some m) ∧
      r = {b with readPos := (b.readPos + 1) % b.capacity} ∧ o = .inr (some m)) := by
  have hroom := hb.room
  have hpos : b.capacity ≠ 0 := by omega
  cases d with
  | loadRead =>
    cases h
    left
    exact ⟨_,rfl,rfl,rfl,rfl,rfl⟩
  | loadWrite r' =>
    cases hd
    simp only [Pop.advance] at h
    by_cases hempty : b.readPos = b.writePos
    · rw [if_pos hempty] at h
      cases h
      right
      left
      exact ⟨hb.empty_iff.mp hempty,rfl,rfl⟩
    · rw [if_neg hempty] at h
      cases h
      left
      exact ⟨_,rfl,rfl,rfl,rfl,rfl,mt hb.empty_iff.mpr hempty⟩
  | takeSlot r' =>
    obtain ⟨rfl,hne⟩ := hd
    obtain ⟨m,rest,rfl⟩ := List.exists_cons_of_ne_nil hne
    simp only [Pop.advance,if_neg hpos,hb.slot_read,Option.map_some,Option.some.injEq,
      Prod.mk.injEq] at h
    obtain ⟨rfl,rfl⟩ := h
    right
    right
    left
    exact ⟨m,rest,rfl,rfl,rfl,rfl⟩
  | storeRead nextR message =>
    obtain ⟨rfl,m,rest,rfl,rfl⟩ := hd
    cases h
    right
    right
    right
    exact ⟨m,rest,rfl,rfl,rfl,rfl⟩

/-- A `pop` call does not mind that the producer adds messages. -/
theorem Pop.Placed.grow {r : RingBuffer} {q' : List WebSocketMessage} {d : Pop}
    (h : d.Placed b q) (hpre : q <+: q') (hcap : r.capacity = b.capacity)
    (hread : r.readPos = b.readPos) : d.Placed r q' := by
  obtain ⟨more,rfl⟩ := hpre
  cases d with
  | loadRead => trivial
  | loadWrite r' => exact h.trans hread.symm
  | takeSlot r' => exact ⟨h.1.trans hread.symm,List.append_ne_nil_of_left_ne_nil h.2 _⟩
  | storeRead nextR message =>
    obtain ⟨hnext,m,rest,rfl,hm⟩ := h
    exact ⟨by rw [hnext,hcap,hread],m,rest ++ more,rfl,hm⟩

/-- A `push` call does not mind that the consumer takes messages away. -/
theorem Push.Placed.shrink {r : RingBuffer} {q' : List WebSocketMessage} {c : Push}
    (h : c.Placed b q) (hcap : r.capacity = b.capacity) (hwrite : r.writePos = b.writePos)
    (hlen : q'.length ≤ q.length)
    (hslot : r.buffer[b.writePos]? = b.buffer[b.writePos]?) : c.Placed r q' := by
  rw [Push.Placed] at h ⊢
  rw [hcap,hwrite]
  cases hstep : c.step with
  | loadWrite => trivial
  | loadRead w =>
    simp only [hstep] at h
    exact h
  | writeSlot w nextW =>
    simp only [hstep] at h
    exact ⟨h.1,h.2.1,by omega⟩
  | storeWrite nextW =>
    simp only [hstep] at h
    exact ⟨h.1,by omega,hslot.trans h.2.2⟩

namespace State

/-- The layout of the ring with both threads in their places. -/
structure Shape (s : State) (capacity : ℕ) (q : List WebSocketMessage) : Prop where
  capacity_eq : s.ring.capacity = capacity
  layout : s.ring.Layout q (s.consumer.elim 0 Pop.taken)
  pushed_eq : s.pushed = s.popped ++ q
  producer : ∀ c, s.producer = some c → c.Placed s.ring q
  consumer : ∀ d, s.consumer = some d → d.Placed s.ring q

variable {s t : State} {capacity : ℕ}

theorem shape_new (h : 1 ≤ capacity) : (new capacity).Shape capacity [] where
  capacity_eq := rfl
  layout := by
    refine ⟨List.length_replicate,h,Nat.le_refl 0,h,?_,RingSlots.holds_nil _ _⟩
    exact (Nat.zero_mod _).symm
  pushed_eq := rfl
  producer := nofun
  consumer := nofun

theorem Shape.unread_eq (h : s.Shape capacity q) : s.unread = q := by
  rw [unread,h.pushed_eq,List.drop_left]

theorem Shape.produce (h : s.Shape capacity q) {c : Push} {r : RingBuffer} {o : PushOutcome}
    (hc : s.producer = some c) (hadv : c.advance s.ring = some (r,o)) :
    (s.produce r o).Shape capacity q ∨
      ∃ m, o = .ok m ∧ (s.produce r o).Shape capacity (q ++ [m]) := by
  obtain ⟨st,rfl,rfl,hplaced⟩ | ⟨-,-,rfl,rfl⟩ | ⟨nextW,-,rfl,rfl,hplaced⟩ |
    ⟨hroom,hslot,rfl,rfl⟩ := Push.advance_cases h.layout (h.producer c hc) hadv
  · left
    refine ⟨h.capacity_eq,h.layout,h.pushed_eq,?_,h.consumer⟩
    rintro c' ⟨⟩
    exact hplaced
  · left
    exact ⟨h.capacity_eq,h.layout,h.pushed_eq,nofun,h.consumer⟩
  · left
    refine ⟨h.capacity_eq,h.layout.writeSlot _,h.pushed_eq,?_,?_⟩
    · rintro c' ⟨⟩
      exact hplaced
    · exact fun d hd => (h.consumer d hd).grow (List.prefix_refl _) rfl rfl
  · right
    refine ⟨c.message,rfl,h.capacity_eq,h.layout.storeWrite hroom hslot,?_,nofun,?_⟩
    · show s.pushed ++ [c.message] = s.popped ++ (q ++ [c.message])
      rw [h.pushed_eq,List.append_assoc]
    · exact fun d hd => (h.consumer d hd).grow (List.prefix_append _ _) rfl rfl

theorem Shape.consume (h : s.Shape capacity q) {d : Pop} {r : RingBuffer}
    {o : Pop ⊕ Option WebSocketMessage} (hd : s.consumer = some d)
    (hadv : d.advance s.ring = some (r,o)) :
    (s.consume r o).Shape capacity q ∨
      ∃ m rest, q = m::rest ∧ o = .inr (some m) ∧ (s.consume r o).Shape capacity rest := by
  have hlayout := h.layout
  rw [hd] at hlayout
  obtain ⟨e,rfl,rfl,hzero,hzero',hplaced⟩ | ⟨rfl,rfl,rfl⟩ | ⟨m,rest,rfl,rfl,rfl,rfl⟩ |
    ⟨m,rest,rfl,rfl,rfl,rfl⟩ := Pop.advance_cases hlayout (h.consumer d hd) hadv
  · left
    refine ⟨h.capacity_eq,?_,h.pushed_eq,h.producer,?_⟩
    · show s.ring.Layout q e.taken
      rw [hzero']
      rw [Option.elim,hzero] at hlayout
      exact hlayout
    · rintro e' ⟨⟩
      exact hplaced
  · left
    refine ⟨h.capacity_eq,?_,?_,h.producer,nofun⟩
    · exact ⟨hlayout.length,hlayout.room,Nat.zero_le _,hlayout.read_lt,hlayout.write,
        RingSlots.holds_nil _ _⟩
    · simpa [popped,State.consume,List.reduceOption_append] using h.pushed_eq
  · left
    refine ⟨h.capacity_eq,hlayout.takeSlot,h.pushed_eq,?_,?_⟩
    · intro c hc
      have hne : s.ring.readPos ≠ s.ring.writePos := fun heq => nomatch hlayout.empty_iff.mp heq
      exact (h.producer c hc).shrink rfl rfl (Nat.le_refl _) (List.getElem?_set_ne hne)
    · rintro e ⟨⟩
      exact ⟨rfl,m,rest,rfl,rfl⟩
  · right
    refine ⟨m,rest,rfl,rfl,h.capacity_eq,hlayout.storeRead,?_,?_,nofun⟩
    · have hpushed := h.pushed_eq
      simp [popped,State.consume,List.reduceOption_append,List.reduceOption_singleton] at hpushed ⊢
      exact hpushed
    · intro c hc
      exact (h.producer c hc).shrink rfl rfl (Nat.le_succ _) rfl

/-- The four kinds of step. -/
theorem step_cases {e : Event} (h : step s e = some t) :
    (∃ m, e = .startPush m ∧ s.producer = none ∧
      t = {s with producer := some ⟨m,.loadWrite⟩}) ∨
    (∃ c r o, e = .producer ∧ s.producer = some c ∧ c.advance s.ring = some (r,o) ∧
      t = s.produce r o) ∨
    (e = .startPop ∧ s.consumer = none ∧ t = {s with consumer := some .loadRead}) ∨
    (∃ d r o, e = .consumer ∧ s.consumer = some d ∧ d.advance s.ring = some (r,o) ∧
      t = s.consume r o) := by
  cases e with
  | startPush m =>
    left
    simp only [step] at h
    cases hc : s.producer with
    | none =>
      simp only [hc,Option.some.injEq] at h
      exact ⟨m,rfl,rfl,h.symm⟩
    | some c => simp [hc] at h
  | producer =>
    right
    left
    simp only [step,Option.bind_eq_some_iff,Option.map_eq_some_iff] at h
    obtain ⟨c,hc,⟨r,o⟩,hadv,ht⟩ := h
    exact ⟨c,r,o,rfl,hc,hadv,ht.symm⟩
  | startPop =>
    right
    right
    left
    simp only [step] at h
    cases hd : s.consumer with
    | none =>
      simp only [hd,Option.some.injEq] at h
      exact ⟨rfl,rfl,h.symm⟩
    | some d => simp [hd] at h
  | consumer =>
    right
    right
    right
    simp only [step,Option.bind_eq_some_iff,Option.map_eq_some_iff] at h
    obtain ⟨d,hd,⟨r,o⟩,hadv,ht⟩ := h
    exact ⟨d,r,o,rfl,hd,hadv,ht.symm⟩

theorem Shape.step {e : Event} (h : s.Shape capacity q) (hstep : State.step s e = some t) :
    ∃ q', t.Shape capacity q' := by
  obtain ⟨m,-,-,rfl⟩ | ⟨c,r,o,-,hc,hadv,rfl⟩ | ⟨-,hd,rfl⟩ | ⟨d,r,o,-,hd,hadv,rfl⟩ :=
    step_cases hstep
  · refine ⟨q,h.capacity_eq,h.layout,h.pushed_eq,?_,h.consumer⟩
    rintro c ⟨⟩
    trivial
  · obtain h' | ⟨m,-,h'⟩ := h.produce hc hadv
    · exact ⟨q,h'⟩
    · exact ⟨q ++ [m],h'⟩
  · have hlayout := h.layout
    rw [hd] at hlayout
    refine ⟨q,h.capacity_eq,hlayout,h.pushed_eq,h.producer,?_⟩
    rintro d ⟨⟩
    trivial
  · obtain h' | ⟨m,rest,-,-,h'⟩ := h.consume hd hadv
    · exact ⟨q,h'⟩
    · exact ⟨rest,h'⟩

theorem shape_run (hcap : 1 ≤ capacity) {events : List Event} (h : run capacity events = some s) :
    ∃ q, s.Shape capacity q :=
  Runs.exec_invariant (I := fun s => ∃ q, s.Shape capacity q)
    (fun _ _ _ hstep ⟨_,hs⟩ => hs.step hstep) h ⟨[],shape_new hcap⟩

/-! ## Refinement of the channel -/

/-- The channel that the buffer implements. -/
def channel (s : State) : Channel WebSocketMessage where
  sent := s.pushed
  next := s.popped.length
  delivered := List.range s.popped.length

theorem channel_produce (s : State) (r : RingBuffer) (o : PushOutcome) :
    Relation.ReflGen Channel.Step s.channel (s.produce r o).channel := by
  cases o with
  | goesOn next => exact .refl
  | ok m => exact .single (.put s.channel m)
  | err m => exact .refl

theorem Shape.channel_consume (h : s.Shape capacity q) {d : Pop} {r : RingBuffer}
    {o : Pop ⊕ Option WebSocketMessage} (hd : s.consumer = some d)
    (hadv : d.advance s.ring = some (r,o)) :
    Relation.ReflGen Channel.Step s.channel (s.consume r o).channel := by
  have hlayout := h.layout
  rw [hd] at hlayout
  obtain ⟨e,rfl,rfl,-⟩ | ⟨-,rfl,rfl⟩ | ⟨m,rest,-,-,rfl,rfl⟩ | ⟨m,rest,rfl,-,rfl,rfl⟩ :=
    Pop.advance_cases hlayout (h.consumer d hd) hadv
  · exact .refl
  · have heq : (s.consume s.ring (.inr none)).channel = s.channel := by
      simp [channel,popped,State.consume,List.reduceOption_append]
    rw [heq]
  · exact .refl
  · have heq : (s.consume {s.ring with readPos := (s.ring.readPos + 1) % s.ring.capacity}
        (.inr (some m))).channel =
        {s.channel with
          next := s.channel.next + 1
          delivered := s.channel.delivered ++ [s.channel.next]} := by
      simp [channel,popped,State.consume,List.reduceOption_append,List.range_succ]
    rw [heq]
    have hle : s.channel.next + 1 ≤ s.channel.sent.length := by
      show s.popped.length + 1 ≤ s.pushed.length
      rw [h.pushed_eq,List.length_append,List.length_cons]
      omega
    exact .single (.deliver _ _ (Nat.lt_succ_self _) hle)

/-- Every step is at most one step of the channel. -/
theorem Shape.step_refines {e : Event} (h : s.Shape capacity q)
    (hstep : State.step s e = some t) :
    Relation.ReflGen Channel.Step s.channel t.channel := by
  obtain ⟨m,-,-,rfl⟩ | ⟨c,r,o,-,-,-,rfl⟩ | ⟨-,-,rfl⟩ | ⟨d,r,o,-,hd,hadv,rfl⟩ := step_cases hstep
  · exact .refl
  · exact channel_produce s r o
  · exact .refl
  · exact h.channel_consume hd hadv

theorem run_refines (hcap : 1 ≤ capacity) {events : List Event}
    (h : run capacity events = some s) :
    Relation.ReflTransGen Channel.Step Channel.empty s.channel := by
  have hinv := Runs.exec_invariant
    (I := fun s => (∃ q, s.Shape capacity q) ∧
      Relation.ReflTransGen Channel.Step Channel.empty s.channel)
    (fun _ _ _ hstep ⟨⟨_,hs⟩,href⟩ =>
      ⟨hs.step hstep,href.trans (hs.step_refines hstep).to_reflTransGen⟩)
    h ⟨⟨[],shape_new hcap⟩,.refl⟩
  exact hinv.2

/-- `pop` returns `None` only when nothing is unread. -/
theorem Shape.unread_of_none (h : s.Shape capacity q) (hstep : State.step s .consumer = some t)
    (hnone : t.results = s.results ++ [none]) : q = [] := by
  obtain ⟨m,he,-⟩ | ⟨c,r,o,he,-⟩ | ⟨he,-⟩ | ⟨d,r,o,-,hd,hadv,rfl⟩ := step_cases hstep
  · cases he
  · cases he
  · cases he
  · have hlayout := h.layout
    rw [hd] at hlayout
    obtain ⟨e,rfl,rfl,-⟩ | ⟨hq,-⟩ | ⟨m,rest,-,-,rfl,rfl⟩ | ⟨m,rest,-,-,rfl,rfl⟩ :=
      Pop.advance_cases hlayout (h.consumer d hd) hadv
    · simp [State.consume] at hnone
    · exact hq
    · simp [State.consume] at hnone
    · simp [State.consume] at hnone

/-- `push` fails at its load of `read_pos`, with all slots but one unread. -/
theorem Shape.full_of_rejected (h : s.Shape capacity q) {m : WebSocketMessage}
    (hstep : State.step s .producer = some t) (hrej : t.rejected = s.rejected ++ [m]) :
    (∃ w, s.producer = some ⟨m,.loadRead w⟩) ∧ q.length = capacity - 1 := by
  obtain ⟨m,he,-⟩ | ⟨c,r,o,-,hc,hadv,rfl⟩ | ⟨he,-⟩ | ⟨d,r,o,he,-⟩ := step_cases hstep
  · cases he
  · obtain ⟨st,rfl,rfl,-⟩ | ⟨hload,hfull,rfl,rfl⟩ | ⟨nextW,-,rfl,rfl,-⟩ | ⟨-,-,rfl,rfl⟩ :=
      Push.advance_cases h.layout (h.producer c hc) hadv
    · simp [State.produce] at hrej
    · have hm : c.message = m := by simpa [State.produce] using hrej
      subst hm
      refine ⟨?_,by rw [← h.capacity_eq]; omega⟩
      refine ⟨s.ring.writePos,?_⟩
      rw [hc,← hload]
    · simp [State.produce] at hrej
    · simp [State.produce] at hrej
  · cases he
  · cases he

/-- No remainder by zero, no index outside the buffer. -/
theorem Shape.enabled (h : s.Shape capacity q) :
    (s.producer.isSome → (State.step s .producer).isSome) ∧
      (s.consumer.isSome → (State.step s .consumer).isSome) := by
  have hroom := h.layout.room
  have hpos : s.ring.capacity ≠ 0 := by omega
  constructor
  · intro hsome
    obtain ⟨⟨m,st⟩,hc⟩ := Option.isSome_iff_exists.mp hsome
    have hplaced := h.producer _ hc
    have hadv : (Push.advance s.ring ⟨m,st⟩).isSome := by
      cases st with
      | loadWrite => rfl
      | loadRead w =>
        simp only [Push.advance,if_neg hpos]
        split_ifs <;> rfl
      | writeSlot w nextW =>
        have hw : w < s.ring.buffer.length := by
          rw [hplaced.1,h.layout.length]
          exact h.layout.write_lt
        simp [Push.advance,hw]
      | storeWrite nextW => rfl
    simp [State.step,hc,hadv]
  · intro hsome
    obtain ⟨d,hd⟩ := Option.isSome_iff_exists.mp hsome
    have hplaced := h.consumer d hd
    have hadv : (d.advance s.ring).isSome := by
      cases d with
      | loadRead => rfl
      | loadWrite r =>
        simp only [Pop.advance]
        split_ifs <;> rfl
      | takeSlot r =>
        have hr : r < s.ring.buffer.length := by
          rw [hplaced.1,h.layout.length]
          exact h.layout.read_lt
        simp [Pop.advance,hpos,hr]
      | storeRead nextR message => rfl
    simp [State.step,hd,hadv]

/-- What a run of the buffer has to show for itself. -/
structure SpscQueue (capacity : ℕ) (s : State) : Prop where
  refines : Relation.ReflTransGen Channel.Step Channel.empty s.channel
  popped_isPrefix : s.popped <+: s.pushed
  unread_le : s.unread.length ≤ capacity - 1
  none_empty : ∀ t, step s .consumer = some t → t.results = s.results ++ [none] →
    s.unread = []
  err_full : ∀ t m, step s .producer = some t → t.rejected = s.rejected ++ [m] →
    (∃ w, s.producer = some ⟨m,.loadRead w⟩) ∧ s.unread.length = capacity - 1
  len_eq : s.producer = none → s.consumer = none → s.ring.len = s.unread.length
  /-- Neither thread ever panics. -/
  enabled : (s.producer.isSome → (step s .producer).isSome) ∧
    (s.consumer.isSome → (step s .consumer).isSome)

/-- Every run of one producer and one consumer is a run of a bounded queue. -/
theorem spscQueue_run (hcap : 1 ≤ capacity) {events : List Event}
    (h : run capacity events = some s) : SpscQueue capacity s := by
  obtain ⟨q,hshape⟩ := shape_run hcap h
  have hunread := hshape.unread_eq
  have hroom := hshape.layout.room
  rw [hshape.capacity_eq] at hroom
  constructor
  · exact run_refines hcap h
  · rw [hshape.pushed_eq]
    exact List.prefix_append _ _
  · rw [hunread]
    omega
  · intro t hstep hnone
    rw [hunread]
    exact hshape.unread_of_none hstep hnone
  · intro t m hstep hrej
    rw [hunread]
    exact hshape.full_of_rejected hstep hrej
  · intro _ _
    rw [hunread]
    exact hshape.layout.len_eq
  · exact hshape.enabled

/-- With room for two messages, the third `push` fails and the wrapped fourth succeeds. -/
def wrapsAround : List Event :=
  (Event.startPush ⟨[65],0⟩ :: List.replicate 4 Event.producer) ++
    (Event.startPush ⟨[66],1⟩ :: List.replicate 4 Event.producer) ++
    (Event.startPush ⟨[67],2⟩ :: List.replicate 2 Event.producer) ++
    (Event.startPop :: List.replicate 4 Event.consumer) ++
    (Event.startPush ⟨[68],3⟩ :: List.replicate 4 Event.producer) ++
    (Event.startPop :: List.replicate 4 Event.consumer)

theorem spscQueue_run_wrapsAround : ∃ s, run 3 wrapsAround = some s ∧ SpscQueue 3 s ∧
    s.popped = [⟨[65],0⟩,⟨[66],1⟩] ∧ s.rejected = [⟨[67],2⟩] ∧ s.ring.writePos = 0 := by
  have hrun : (run 3 wrapsAround).map (fun s => (s.popped,s.rejected,s.ring.writePos)) =
      some ([⟨[65],0⟩,⟨[66],1⟩],[⟨[67],2⟩],0) := by decide +kernel
  obtain ⟨s,hs,hval⟩ := Option.map_eq_some_iff.mp hrun
  simp only [Prod.mk.injEq] at hval
  exact ⟨s,hs,spscQueue_run (by decide) hs,hval⟩

end State
end LockFreeRingBuffer
end UProtocols
