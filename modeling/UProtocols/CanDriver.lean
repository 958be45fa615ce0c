import UProtocols.CanMailbox
import UProtocols.CanRingBufferSpsc

/-!
# The CAN driver between its main loop and its interrupts

`can_send_message` and `can_receive_message` of `CAN_Ring_Buffer.c`, run by the main loop one
operation at a time, with `CAN_TX_IRQHandler` and `CAN_RX_IRQHandler`, which come in at any point.
The main loop waits while a handler is active; the handlers may interrupt each other. The rings are
those of `CanRingBuffer`: `can_ring_push` and `can_ring_pop` take the same operations in the same
order as `push` and `pop` there.
-/

namespace UProtocols
namespace CanDriver

open CanMailbox CanRingBuffer Runs

def txBufferSize : UInt64 := 32

def rxBufferSize : UInt64 := 64

instance : Inhabited CanMsg := ⟨blank⟩

/-- What the main loop is in: `can_ring_push` of `can_send_message`, the line after it that enables
the interrupt, or `can_ring_pop` of `can_receive_message`. -/
inductive MainLoop
  | idle | pushing | enabling | receiving
  deriving DecidableEq

/-- What `CAN_TX_IRQHandler` is in. -/
inductive TxHandler
  | idle | popping
  | loading (msg : CanMsg)
  | disabling
  deriving DecidableEq

def TxHandler.inHand : TxHandler → List CanMsg
  | .loading msg => [msg]
  | _ => []

/-- The driver, with what the transmit mailbox has to send, what it has sent, and the messages that
were read from the receive FIFO. -/
structure Driver where
  tx : State CanMsg
  rx : State CanMsg
  mainLoop : MainLoop
  txHandler : TxHandler
  /-- `CAN_IER_TMEIE`. -/
  tmeie : Bool
  mailbox : Option Mailbox
  wire : List Mailbox
  arrived : List CanMsg
  rxOverflowCount : ℕ

inductive Event
  | send (id : UInt32) (data : List UInt8)
  | receive
  | mainLoop
  | txInterrupt
  | txHandler
  | transmitted
  | rxInterrupt (fifo : Mailbox) (stack : CanMsg) (tick : UInt32)
  | rxHandler

/-- The message that `can_send_message` makes. -/
def message (id : UInt32) (data : List UInt8) : CanMsg where
  id := id
  dlc := data.length.toUInt8
  data := Vector.ofFn fun i => data.getD i 0
  timestamp := 0
  isExtended := false
  isRtr := false

namespace Driver

def start : Driver :=
  ⟨.new CanMsg txBufferSize,.new CanMsg rxBufferSize,.idle,.idle,false,none,[],[],0⟩

/-- No handler is active. -/
def quiet (s : Driver) : Bool := s.txHandler = .idle ∧ s.rx.producer.isNone

/-- The next operation of the main loop. The bits that `CAN->IER |= CAN_IER_TMEIE` has loaded do not
matter here: it sets this one. -/
def stepMainLoop (s : Driver) : Option Driver :=
  match s.mainLoop with
  | .idle => none
  | .pushing => s.tx.producer.bind fun c => (c.advance txBufferSize s.tx.ring).map fun (r,o) =>
    {s with
      tx := s.tx.produce r o
      mainLoop := match o with
        | .goesOn _ => .pushing
        | .ok _ => .enabling
        | .err _ => .idle}
  | .enabling => some {s with tmeie := true, mainLoop := .idle}
  | .receiving => s.rx.consumer.bind fun d => (d.advance rxBufferSize s.rx.ring).map fun (r,o) =>
    {s with
      rx := s.rx.consume r o
      mainLoop := match o with
        | .goesOn _ => .receiving
        | _ => .idle}

/-- The next operation of `CAN_TX_IRQHandler`. -/
def stepTxHandler (s : Driver) : Option Driver :=
  match s.txHandler with
  | .idle => none
  | .popping => s.tx.consumer.bind fun d => (d.advance txBufferSize s.tx.ring).map fun (r,o) =>
    {s with
      tx := s.tx.consume r o
      txHandler := match o with
        | .goesOn _ => .popping
        | .popped (some msg) => .loading msg
        | _ => .disabling}
  | .loading msg => some {s with mailbox := some (loadMailbox msg), txHandler := .idle}
  | .disabling => some {s with tmeie := false, txHandler := .idle}

/-- The next operation of `CAN_RX_IRQHandler`. -/
def stepRxHandler (s : Driver) : Option Driver :=
  s.rx.producer.bind fun c => (c.advance rxBufferSize s.rx.ring).map fun (r,o) =>
    {s with
      rx := s.rx.produce r o
      rxOverflowCount := match o with
        | .err _ => s.rxOverflowCount + 1
        | _ => s.rxOverflowCount}

/-- More than eight bytes would be copied beyond the message. The transmit interrupt comes while it
is enabled and the mailbox is free. -/
def step (s : Driver) : Event → Option Driver
  | .send id data =>
    if s.mainLoop = .idle ∧ s.quiet ∧ data.length ≤ 8 then
      (s.tx.step txBufferSize (.startPush (message id data))).map fun tx =>
        {s with tx, mainLoop := .pushing}
    else none
  | .receive =>
    if s.mainLoop = .idle ∧ s.quiet then
      (s.rx.step rxBufferSize .startPop).map fun rx => {s with rx, mainLoop := .receiving}
    else none
  | .mainLoop => if s.quiet then s.stepMainLoop else none
  | .txInterrupt =>
    if s.tmeie ∧ s.mailbox.isNone ∧ s.txHandler = .idle then
      (s.tx.step txBufferSize .startPop).map fun tx => {s with tx, txHandler := .popping}
    else none
  | .txHandler => s.stepTxHandler
  | .transmitted => s.mailbox.map fun m => {s with mailbox := none, wire := s.wire ++ [m]}
  | .rxInterrupt fifo stack tick =>
    (s.rx.step rxBufferSize (.startPush (readFifo fifo stack tick))).map fun rx =>
      {s with rx, arrived := s.arrived ++ [readFifo fifo stack tick]}
  | .rxHandler => s.stepRxHandler

end Driver

/-! ## The operations of the rings -/

/-- How many operations of a `pop` are left, at most. -/
def popsLeft : Call CanMsg → ℕ
  | .popCheck => 5
  | .popTail => 4
  | .popSlot _ => 3
  | .popStore .. => 2
  | .popCount _ => 1
  | _ => 0

section Rings

variable {N : UInt64} {s : State CanMsg} {r : RingBuffer CanMsg} {c : Push CanMsg}
  {d : Call CanMsg}

/-- An operation of `pop` goes on, finds the ring empty, or gives its first message back. -/
theorem pop_cases (h : s.Fifo N) (hd : s.consumer = some d)
    (hpop : 0 < popsLeft d) {o : Outcome CanMsg} (hadv : d.advance N s.ring = some (r,o)) :
    (∃ e, o = .goesOn e ∧ 0 < popsLeft e ∧ popsLeft e < popsLeft d) ∨
      (o = .popped none ∧ s.queue = []) ∨
      (∃ msg, o = .popped (some msg) ∧ s.queue = msg::s.queue.tail) := by
  have hlayout := h.settled.layout
  cases d with
  | popCheck =>
    simp only [Call.advance] at hadv
    split at hadv
    · cases hadv
      exact .inr (.inl ⟨rfl,hlayout.isEmpty_iff.mp ‹_›⟩)
    · cases hadv
      exact .inl ⟨_,rfl,by simp [popsLeft]⟩
  | popTail =>
    cases hadv
    exact .inl ⟨_,rfl,by simp [popsLeft]⟩
  | popSlot =>
    simp only [Call.advance,Option.map_eq_some_iff,Prod.mk.injEq] at hadv
    obtain ⟨_,-,-,rfl⟩ := hadv
    exact .inl ⟨_,rfl,by simp [popsLeft]⟩
  | popStore =>
    simp only [Call.advance] at hadv
    split at hadv
    · simp at hadv
    · cases hadv
      exact .inl ⟨_,rfl,by simp [popsLeft]⟩
  | popCount =>
    have hhead := h.settled.consumer _ hd
    cases hadv
    obtain ⟨rest,hq⟩ := List.head?_eq_some_iff.mp hhead
    exact .inr (.inr ⟨_,rfl,by rw [hq]; rfl⟩)
  | _ => simp [popsLeft] at hpop

/-- An operation of `push` goes on with its item, is the last one, or finds the ring full. -/
theorem push_cases {o : PushOutcome CanMsg} (hadv : c.advance N s.ring = some (r,o)) :
    (∃ next, o = .goesOn next ∧ next.item = c.item) ∨ o = .ok c.item ∨ o = .err c.item := by
  obtain ⟨item,step⟩ := c
  cases step with
  | checkFull =>
    simp only [Push.advance] at hadv
    split at hadv <;> cases hadv <;> simp [Push.goto]
  | loadHead =>
    cases hadv
    simp [Push.goto]
  | writeSlot | storeHead =>
    simp only [Push.advance] at hadv
    split at hadv <;> cases hadv
    simp [Push.goto]
  | addCount =>
    cases hadv
    simp

end Rings

/-! ## Runs -/

namespace Driver

/-- The invariant of the driver. -/
structure Sound (s : Driver) : Prop where
  tx : s.tx.Fifo txBufferSize
  rx : s.rx.Fifo rxBufferSize
  pushing : s.tx.producer.isSome ↔ s.mainLoop = .pushing
  popping : s.tx.consumer.isSome ↔ s.txHandler = .popping
  receiving : s.rx.consumer.isSome ↔ s.mainLoop = .receiving
  txPops : ∀ d, s.tx.consumer = some d → 0 < popsLeft d
  rxPops : ∀ d, s.rx.consumer = some d → 0 < popsLeft d
  sent : s.tx.popped.map loadMailbox =
    s.wire ++ s.mailbox.toList ++ s.txHandler.inHand.map loadMailbox
  busy : s.txHandler ≠ .idle → s.mailbox = none ∧ s.tmeie
  awake : s.tx.queue ≠ [] → s.tmeie ∨ s.mainLoop = .enabling
  emptied : s.txHandler = .disabling → s.tx.queue = []
  kept : (s.rx.pushed ++ (s.rx.producer.map Push.item).toList).Sublist s.arrived
  counted : s.arrived.length = s.rx.pushed.length + s.rx.producer.toList.length + s.rxOverflowCount

variable {s s' : Driver} {e : Event} {events : List Event}

theorem sound_start : Sound start := by
  refine ⟨State.fifo_new _,State.fifo_new _,?_,?_,?_,?_,?_,?_,?_,?_,?_,?_,?_⟩ <;>
    simp [start,State.new,TxHandler.inHand]

theorem Sound.send (h : Sound s) {id : UInt32} {data : List UInt8}
    (hstep : step s (.send id data) = some s') : Sound s' := by
  simp only [step] at hstep
  split at hstep
  · rename_i hidle
    obtain ⟨tx,htx,rfl⟩ := Option.map_eq_some_iff.mp hstep
    have hfifo := h.tx.step (by decide) (by simp) htx
    simp only [State.step] at htx
    split at htx
    · cases htx
      have hreceiving := h.receiving
      have hawake := h.awake
      simp only [hidle.1] at hreceiving hawake
      exact ⟨hfifo,h.rx,by simp,h.popping,by simpa using hreceiving,h.txPops,h.rxPops,h.sent,
        h.busy,by simpa using hawake,h.emptied,h.kept,h.counted⟩
    · simp at htx
  · simp at hstep

theorem Sound.receive (h : Sound s) (hstep : step s .receive = some s') : Sound s' := by
  simp only [step] at hstep
  split at hstep
  · rename_i hidle
    obtain ⟨rx,hrx,rfl⟩ := Option.map_eq_some_iff.mp hstep
    have hfifo := h.rx.step (by decide) (by simp) hrx
    simp only [State.step,State.start] at hrx
    split at hrx
    · cases hrx
      have hpushing := h.pushing
      have hawake := h.awake
      simp only [hidle.1] at hpushing hawake
      exact ⟨h.tx,hfifo,by simpa using hpushing,h.popping,by simp,h.txPops,by simp [popsLeft],
        h.sent,h.busy,by simpa using hawake,h.emptied,h.kept,h.counted⟩
    · simp at hrx
  · simp at hstep

theorem Sound.txInterrupt (h : Sound s) (hstep : step s .txInterrupt = some s') : Sound s' := by
  simp only [step] at hstep
  split at hstep
  · rename_i hready
    obtain ⟨htmeie,hmailbox,hhandler⟩ := hready
    obtain ⟨tx,htx,rfl⟩ := Option.map_eq_some_iff.mp hstep
    have hfifo := h.tx.step (by decide) (by simp) htx
    simp only [State.step,State.start] at htx
    split at htx
    · cases htx
      have hsent := h.sent
      simp only [hhandler] at hsent
      exact ⟨hfifo,h.rx,h.pushing,by simp,h.receiving,by simp [popsLeft],h.rxPops,
        by simpa [TxHandler.inHand] using hsent,fun _ => ⟨by simpa using hmailbox,htmeie⟩,h.awake,
        by simp,h.kept,h.counted⟩
    · simp at htx
  · simp at hstep

theorem Sound.transmitted (h : Sound s) (hstep : step s .transmitted = some s') : Sound s' := by
  obtain ⟨m,hm,rfl⟩ := Option.map_eq_some_iff.mp hstep
  have hsent := h.sent
  rw [hm] at hsent
  refine ⟨h.tx,h.rx,h.pushing,h.popping,h.receiving,h.txPops,h.rxPops,by simpa using hsent,
    fun hhandler => ?_,h.awake,h.emptied,h.kept,h.counted⟩
  simp [(h.busy hhandler).1] at hm

theorem Sound.rxInterrupt (h : Sound s) {fifo : Mailbox} {stack : CanMsg} {tick : UInt32}
    (hstep : step s (.rxInterrupt fifo stack tick) = some s') : Sound s' := by
  obtain ⟨rx,hrx,rfl⟩ := Option.map_eq_some_iff.mp hstep
  have hfifo := h.rx.step (by decide) (by simp) hrx
  simp only [State.step] at hrx
  split at hrx
  · rename_i hnone
    cases hrx
    have hkept := h.kept
    have hcounted := h.counted
    simp only [hnone,Option.map_none,Option.toList_none,List.append_nil] at hkept
    simp only [hnone,Option.toList_none,List.length_nil] at hcounted
    refine ⟨h.tx,hfifo,h.pushing,h.popping,h.receiving,h.txPops,h.rxPops,h.sent,h.busy,h.awake,
      h.emptied,by simpa using hkept,?_⟩
    simp only [List.length_append,Option.toList_some,List.length_singleton]
    omega
  · simp at hrx

theorem Sound.stepRxHandler (h : Sound s) (hstep : s.stepRxHandler = some s') : Sound s' := by
  obtain ⟨c,hc,hstep⟩ := Option.bind_eq_some_iff.mp hstep
  obtain ⟨⟨r,o⟩,hadv,rfl⟩ := Option.map_eq_some_iff.mp hstep
  have hfifo := h.rx.produce hc hadv
  have hkept := h.kept
  have hcounted := h.counted
  simp only [hc,Option.map_some,Option.toList_some,List.length_singleton] at hkept hcounted
  obtain ⟨next,rfl,hitem⟩ | rfl | rfl := push_cases hadv
  · exact ⟨h.tx,hfifo,h.pushing,h.popping,h.receiving,h.txPops,h.rxPops,h.sent,h.busy,h.awake,
      h.emptied,by simpa [State.produce,hitem] using hkept,by simpa [State.produce] using hcounted⟩
  · exact ⟨h.tx,hfifo,h.pushing,h.popping,h.receiving,h.txPops,h.rxPops,h.sent,h.busy,h.awake,
      h.emptied,by simpa [State.produce] using hkept,by simpa [State.produce] using hcounted⟩
  · refine ⟨h.tx,hfifo,h.pushing,h.popping,h.receiving,h.txPops,h.rxPops,h.sent,h.busy,h.awake,
      h.emptied,?_,?_⟩
    · simpa [State.produce] using (List.sublist_append_left _ _).trans hkept
    · simp only [State.produce,Option.toList_none,List.length_nil]
      omega

theorem Sound.stepTxHandler (h : Sound s) (hstep : s.stepTxHandler = some s') : Sound s' := by
  unfold Driver.stepTxHandler at hstep
  split at hstep
  · simp at hstep
  · rename_i hhandler
    obtain ⟨d,hd,hstep⟩ := Option.bind_eq_some_iff.mp hstep
    obtain ⟨⟨r,o⟩,hadv,rfl⟩ := Option.map_eq_some_iff.mp hstep
    have hfifo := h.tx.consume (by decide) hd hadv
    have hbusy := h.busy (by simp [hhandler])
    have hsent := h.sent
    simp only [hhandler,TxHandler.inHand,List.map_nil,List.append_nil] at hsent
    obtain ⟨next,rfl,hleft,-⟩ | ⟨rfl,hempty⟩ | ⟨msg,rfl,hqueue⟩ :=
      pop_cases h.tx hd (h.txPops d hd) hadv
    · exact ⟨hfifo,h.rx,h.pushing,by simp [State.consume],h.receiving,
        by simpa [State.consume] using hleft,h.rxPops,
        by simpa [State.consume,TxHandler.inHand] using hsent,fun _ => hbusy,h.awake,by simp,
        h.kept,h.counted⟩
    · exact ⟨hfifo,h.rx,h.pushing,by simp [State.consume],h.receiving,by simp [State.consume],
        h.rxPops,by simpa [State.consume,TxHandler.inHand] using hsent,fun _ => hbusy,h.awake,
        fun _ => hempty,h.kept,h.counted⟩
    · refine ⟨hfifo,h.rx,h.pushing,by simp [State.consume],h.receiving,by simp [State.consume],
        h.rxPops,by simp [State.consume,TxHandler.inHand,hsent],fun _ => hbusy,fun _ => ?_,
        by simp,h.kept,h.counted⟩
      exact h.awake (by rw [hqueue]; simp)
  · rename_i msg hhandler
    cases hstep
    have hfree := (h.busy (by simp [hhandler])).1
    have hpopping := h.popping
    have hsent := h.sent
    simp only [hhandler,hfree,TxHandler.inHand] at hpopping hsent
    exact ⟨h.tx,h.rx,h.pushing,by simpa using hpopping,h.receiving,h.txPops,h.rxPops,
      by simpa [TxHandler.inHand] using hsent,by simp,h.awake,by simp,h.kept,h.counted⟩
  · rename_i hhandler
    cases hstep
    have hempty := h.emptied hhandler
    have hpopping := h.popping
    have hsent := h.sent
    simp only [hhandler,TxHandler.inHand] at hpopping hsent
    exact ⟨h.tx,h.rx,h.pushing,by simpa using hpopping,h.receiving,h.txPops,h.rxPops,
      by simpa [TxHandler.inHand] using hsent,by simp,fun hne => absurd hempty hne,by simp,h.kept,
      h.counted⟩

theorem Sound.stepMainLoop (h : Sound s) (hquiet : s.quiet) (hstep : s.stepMainLoop = some s') :
    Sound s' := by
  obtain ⟨hhandler,hproducer⟩ : s.txHandler = .idle ∧ s.rx.producer = none := by
    simpa [quiet] using hquiet
  have hpushing := h.pushing
  have hreceiving := h.receiving
  have hawake := h.awake
  unfold Driver.stepMainLoop at hstep
  split at hstep
  · simp at hstep
  · rename_i hmain
    obtain ⟨c,hc,hstep⟩ := Option.bind_eq_some_iff.mp hstep
    obtain ⟨⟨r,o⟩,hadv,rfl⟩ := Option.map_eq_some_iff.mp hstep
    have hfifo := h.tx.produce hc hadv
    simp only [hmain] at hreceiving hawake
    obtain ⟨next,rfl,-⟩ | rfl | rfl := push_cases hadv
    · exact ⟨hfifo,h.rx,by simp [State.produce],h.popping,by simpa using hreceiving,h.txPops,
        h.rxPops,h.sent,h.busy,by simpa [State.produce] using hawake,h.emptied,h.kept,h.counted⟩
    · exact ⟨hfifo,h.rx,by simp [State.produce],h.popping,by simpa using hreceiving,h.txPops,
        h.rxPops,h.sent,h.busy,by simp,by simp [hhandler],h.kept,h.counted⟩
    · exact ⟨hfifo,h.rx,by simp [State.produce],h.popping,by simpa using hreceiving,h.txPops,
        h.rxPops,h.sent,h.busy,by simpa [State.produce] using hawake,h.emptied,h.kept,h.counted⟩
  · rename_i hmain
    cases hstep
    simp only [hmain] at hpushing hreceiving
    exact ⟨h.tx,h.rx,by simpa using hpushing,h.popping,by simpa using hreceiving,h.txPops,h.rxPops,
      h.sent,by simp [hhandler],by simp,h.emptied,h.kept,h.counted⟩
  · rename_i hmain
    obtain ⟨d,hd,hstep⟩ := Option.bind_eq_some_iff.mp hstep
    obtain ⟨⟨r,o⟩,hadv,rfl⟩ := Option.map_eq_some_iff.mp hstep
    have hfifo := h.rx.consume (by decide) hd hadv
    simp only [hmain] at hpushing hawake
    obtain ⟨next,rfl,hleft,-⟩ | ⟨rfl,-⟩ | ⟨msg,rfl,-⟩ :=
      pop_cases h.rx hd (h.rxPops d hd) hadv
    · exact ⟨h.tx,hfifo,by simpa using hpushing,h.popping,by simp [State.consume],h.txPops,
        by simpa [State.consume] using hleft,h.sent,h.busy,by simpa using hawake,h.emptied,h.kept,
        h.counted⟩
    · exact ⟨h.tx,hfifo,by simpa using hpushing,h.popping,by simp [State.consume],h.txPops,
        by simp [State.consume],h.sent,h.busy,by simpa using hawake,h.emptied,h.kept,h.counted⟩
    · exact ⟨h.tx,hfifo,by simpa using hpushing,h.popping,by simp [State.consume],h.txPops,
        by simp [State.consume],h.sent,h.busy,by simpa using hawake,h.emptied,h.kept,h.counted⟩

theorem Sound.step (h : Sound s) (hstep : step s e = some s') : Sound s' := by
  cases e with
  | send => exact h.send hstep
  | receive => exact h.receive hstep
  | mainLoop =>
    simp only [Driver.step] at hstep
    split at hstep
    · exact h.stepMainLoop ‹_› hstep
    · simp at hstep
  | txInterrupt => exact h.txInterrupt hstep
  | txHandler => exact h.stepTxHandler hstep
  | transmitted => exact h.transmitted hstep
  | rxInterrupt => exact h.rxInterrupt hstep
  | rxHandler => exact h.stepRxHandler hstep

theorem sound_run (h : exec step start events = some s) : Sound s :=
  exec_invariant (fun _ _ _ ht hs => hs.step ht) h sound_start

/-! ## What the handlers have to do -/

/-- The events of a transmission. -/
def transmits : Event → Bool
  | .txInterrupt | .txHandler | .transmitted => true
  | _ => false

/-- A bound on the events of transmission that are to come. -/
def work (s : Driver) : ℕ :=
  8 * s.tx.queue.length + 7 * s.tmeie.toNat + s.mailbox.toList.length +
    match s.txHandler with
    | .idle => 7
    | .popping => s.tx.consumer.elim 1 fun d => popsLeft d + 1
    | .loading _ => 9
    | .disabling => 1

theorem popsLeft_le (d : Call CanMsg) : popsLeft d ≤ 5 := by cases d <;> simp [popsLeft]

theorem work_le (s : Driver) : s.work ≤ 8 * s.tx.queue.length + 17 := by
  have htmeie : s.tmeie.toNat ≤ 1 := Bool.toNat_le _
  have hmailbox : s.mailbox.toList.length ≤ 1 := by cases s.mailbox <;> simp
  unfold work
  cases s.txHandler with
  | popping =>
    cases hd : s.tx.consumer with
    | none =>
      simp only [Option.elim_none]
      omega
    | some d =>
      have hleft := popsLeft_le d
      simp only [Option.elim_some]
      omega
  | _ =>
    simp only
    omega

/-- Each event of transmission does some of the work and takes no message. -/
theorem Sound.transmit (h : Sound s) (he : transmits e) (hstep : s.step e = some s') :
    s'.work < s.work ∧ s'.tx.pushed = s.tx.pushed ∧ s'.mainLoop = s.mainLoop := by
  cases e with
  | txInterrupt =>
    simp only [Driver.step] at hstep
    split at hstep
    · rename_i hready
      obtain ⟨tx,htx,rfl⟩ := Option.map_eq_some_iff.mp hstep
      simp only [State.step,State.start] at htx
      split at htx <;> cases htx
      simp [work,hready.2.2,popsLeft]
    · simp at hstep
  | transmitted =>
    obtain ⟨m,hm,rfl⟩ := Option.map_eq_some_iff.mp hstep
    refine ⟨?_,rfl,rfl⟩
    simp only [work,hm,Option.toList_some,Option.toList_none,List.length_singleton,List.length_nil]
    omega
  | txHandler =>
    simp only [Driver.step,Driver.stepTxHandler] at hstep
    split at hstep
    · simp at hstep
    · rename_i hhandler
      obtain ⟨d,hd,hstep⟩ := Option.bind_eq_some_iff.mp hstep
      obtain ⟨⟨r,o⟩,hadv,rfl⟩ := Option.map_eq_some_iff.mp hstep
      have hleft := h.txPops d hd
      obtain ⟨next,rfl,-,hless⟩ | ⟨rfl,-⟩ | ⟨msg,rfl,hqueue⟩ := pop_cases h.tx hd hleft hadv
      · refine ⟨?_,rfl,rfl⟩
        simp only [work,State.consume,hhandler,hd,Option.elim_some]
        omega
      · refine ⟨?_,rfl,rfl⟩
        simp only [work,State.consume,hhandler,hd,Option.elim_some]
        omega
      · refine ⟨?_,rfl,rfl⟩
        have hlength : s.tx.queue.length = s.tx.queue.tail.length + 1 := by rw [hqueue]; simp
        simp only [work,State.consume,hhandler,hd,Option.elim_some]
        omega
    · rename_i hhandler
      cases hstep
      have hfree := (h.busy (by simp [hhandler])).1
      simp [work,hhandler,hfree]
    · rename_i hhandler
      cases hstep
      have htmeie := (h.busy (by simp [hhandler])).2
      refine ⟨?_,rfl,rfl⟩
      simp only [work,hhandler,htmeie,Bool.toNat_true,Bool.toNat_false]
      omega
  | _ => simp [transmits] at he

/-- A handler that is active has a next operation. -/
theorem Sound.exists_stepTxHandler (h : Sound s) (hhandler : s.txHandler ≠ .idle) :
    ∃ t, s.step .txHandler = some t := by
  simp only [Driver.step,Driver.stepTxHandler]
  cases hs : s.txHandler with
  | idle => exact absurd hs hhandler
  | loading | disabling => exact ⟨_,rfl⟩
  | popping =>
    obtain ⟨d,hd⟩ := Option.isSome_iff_exists.mp (h.popping.mpr hs)
    have henabled := (h.tx.settled.enabled (by decide)).2 (by simp [hd])
    simp only [State.step,hd,Option.bind_some,Option.isSome_map] at henabled
    obtain ⟨⟨r,o⟩,hadv⟩ := Option.isSome_iff_exists.mp henabled
    simp [hd,hadv]

/-- Where nothing of a transmission is left to happen, everything accepted is on the wire. -/
theorem Sound.rest (h : Sound s) (hmain : s.mainLoop ≠ .enabling)
    (hrest : ∀ e, transmits e → s.step e = none) :
    s.wire = s.tx.pushed.map loadMailbox ∧ s.tx.queue = [] := by
  have hhandler : s.txHandler = .idle := by
    by_contra hne
    obtain ⟨t,ht⟩ := h.exists_stepTxHandler hne
    simp [hrest .txHandler rfl] at ht
  have hmailbox : s.mailbox = none := by simpa [Driver.step] using hrest .transmitted rfl
  have hconsumer : s.tx.consumer = none := by
    simpa [hhandler] using h.popping
  have htmeie : s.tmeie = false := by
    simpa [Driver.step,hhandler,hmailbox,State.step,State.start,hconsumer] using
      hrest .txInterrupt rfl
  have hempty : s.tx.queue = [] := by
    by_contra hne
    have hawake := h.awake hne
    simp [htmeie,hmain] at hawake
  have hsent := h.sent
  have hpushed := h.tx.pushed_eq
  rw [hempty,List.append_nil] at hpushed
  rw [hpushed,hsent]
  simp [hmailbox,hhandler,TxHandler.inHand,hempty]

/-- In every run, whatever the handlers interrupt: the messages go to the wire in the order in
which they were accepted. Once the interrupt is enabled after the last of them, the events of
transmission alone, of which there are at most eight for a message and a few more, bring out all
that was accepted: no message stays in the ring with the interrupt disabled. -/
theorem transmission_drains (h : exec step start events = some s) :
    s.wire ++ s.mailbox.toList ++ (s.txHandler.inHand ++ s.tx.queue).map loadMailbox =
      s.tx.pushed.map loadMailbox ∧
    (s.mainLoop ≠ .enabling → ∀ fs t, (∀ f ∈ fs, transmits f) → exec step s fs = some t →
      fs.length ≤ 8 * s.tx.queue.length + 17 ∧
      ((∀ e, transmits e → step t e = none) → t.wire = s.tx.pushed.map loadMailbox)) := by
  have hsound := sound_run h
  constructor
  · rw [hsound.tx.pushed_eq]
    simp [hsound.sent]
  · intro hmain fs t hfs ht
    have hrun : Sound t ∧ t.work + fs.length ≤ s.work ∧ t.tx.pushed = s.tx.pushed ∧
        t.mainLoop = s.mainLoop := by
      clear hmain h
      induction fs generalizing s with
      | nil =>
        cases ht
        exact ⟨hsound,by simp⟩
      | cons f fs ih =>
        obtain ⟨u,hu,ht⟩ := exec_cons.mp ht
        rw [List.forall_mem_cons] at hfs
        obtain ⟨hwork,hpushed,hmainLoop⟩ := hsound.transmit hfs.1 hu
        obtain ⟨hlast,hworks,hpusheds,hmainLoops⟩ := ih (hsound.step hu) hfs.2 ht
        refine ⟨hlast,?_,hpusheds.trans hpushed,hmainLoops.trans hmainLoop⟩
        rw [List.length_cons]
        omega
    obtain ⟨hlast,hwork,hpushed,hmainLoop⟩ := hrun
    have hle := s.work_le
    refine ⟨by omega,fun hrest => ?_⟩
    rw [← hpushed]
    exact (hlast.rest (hmainLoop ▸ hmain) hrest).1

/-- The handler finds the ring empty while the main loop is about to push. -/
def lateMessage : List Event :=
  [Event.send 1 [7]] ++ List.replicate 6 Event.mainLoop ++ [Event.txInterrupt] ++
    List.replicate 6 Event.txHandler ++ [Event.transmitted,Event.send 2 [8]] ++
    List.replicate 4 Event.mainLoop ++
    [Event.txInterrupt,Event.txHandler,Event.txHandler,Event.mainLoop,Event.mainLoop]

theorem transmission_drains_lateMessage : ∃ s, exec step start lateMessage = some s ∧
    s.wire = [loadMailbox (message 1 [7])] ∧ s.tx.queue = [message 2 [8]] ∧ s.tmeie = true ∧
    ∀ fs t, (∀ f ∈ fs, transmits f) → exec step s fs = some t → fs.length ≤ 25 := by
  refine ⟨_,rfl,rfl,rfl,rfl,fun fs t hfs ht => ?_⟩
  have hrun : exec step start lateMessage = some _ := rfl
  exact ((transmission_drains hrun).2 (by decide) fs t hfs ht).1

/-- In every run: what the main loop has received and what waits for it are, in order, messages
that were read from the FIFO, and those that are missing were counted as overflow. -/
theorem received_or_counted (h : exec step start events = some s) :
    s.rx.popped ++ s.rx.queue = s.rx.pushed ∧ s.rx.pushed.Sublist s.arrived ∧
    s.arrived.length = s.rx.pushed.length + s.rx.producer.toList.length + s.rxOverflowCount := by
  have hsound := sound_run h
  exact ⟨hsound.rx.pushed_eq.symm,(List.sublist_append_left _ _).trans hsound.kept,hsound.counted⟩

/-- A message comes while the main loop takes the one before. -/
def nextMessage : List Event :=
  [Event.rxInterrupt (loadMailbox (message 1 [7])) blank 9] ++ List.replicate 5 Event.rxHandler ++
    [Event.receive,Event.mainLoop,Event.mainLoop,
      Event.rxInterrupt (loadMailbox (message 2 [8])) blank 9] ++
    List.replicate 5 Event.rxHandler ++ List.replicate 3 Event.mainLoop

theorem received_or_counted_nextMessage : ∃ s, exec step start nextMessage = some s ∧
    s.rx.popped.map CanMsg.id = [1] ∧ s.rx.queue.map CanMsg.id = [2] ∧
    s.rx.popped ++ s.rx.queue = s.rx.pushed :=
  ⟨_,rfl,rfl,rfl,(received_or_counted (show exec step start nextMessage = some _ from rfl)).1⟩

end Driver
end CanDriver
end UProtocols
