import Mathlib.Data.Nat.Notation

/-!
# The SPI master and its scratch arrays

`transfer_byte`, `transfer`, `write` and `read` of `SPIMaster` in `SPI/src/2/2.rs`, on a peripheral
that exchanges one byte for each write of the data register. How many polls its flags take to change
is up to the slave's timing; the delays between the calls are left out.
-/

namespace UProtocols
namespace SpiMaster

/-- What can be seen on CS, MOSI and MISO. -/
inductive BusEvent
  | select
  | exchange (mosi miso : UInt8)
  | deselect
  deriving DecidableEq

/-- The slave's next byte may depend on all that was on the bus before, and so may the number of
polls after a write until each flag changes. -/
structure Slave where
  reply : List BusEvent → UInt8
  txWait : List BusEvent → ℕ
  rxWait : List BusEvent → ℕ
  bsyWait : List BusEvent → ℕ

/-- The bus so far, the received byte, and the polls until TXE, RXNE and BSY change. -/
structure Peripheral where
  log : List BusEvent
  received : Option UInt8
  txWait : ℕ
  rxWait : ℕ
  bsyWait : ℕ
  deriving DecidableEq

namespace Peripheral

def reset : Peripheral := ⟨[],none,0,0,0⟩

/-- A read of the status register lets the time of a poll pass. -/
def poll (p : Peripheral) : Peripheral :=
  { p with txWait := p.txWait - 1, rxWait := p.rxWait - 1, bsyWait := p.bsyWait - 1 }

def txe (p : Peripheral) : Bool := p.txWait = 0

def rxne (p : Peripheral) : Bool := p.received.isSome && decide (p.rxWait = 0)

def bsy (p : Peripheral) : Bool := p.bsyWait ≠ 0

/-- A byte that is not read is not overwritten. -/
def writeDr (slave : Slave) (data : UInt8) (p : Peripheral) : Peripheral where
  log := p.log ++ [.exchange data (slave.reply p.log)]
  received := some (p.received.getD (slave.reply p.log))
  txWait := slave.txWait p.log
  rxWait := slave.rxWait p.log
  bsyWait := slave.bsyWait p.log

def drive (e : BusEvent) (p : Peripheral) : Peripheral := { p with log := p.log ++ [e] }

end Peripheral

/-- A call that never returns has no result. -/
abbrev Master := StateT Peripheral Option

/-- A loop of polls, for `n` of them. -/
def spin (flag : Peripheral → Bool) : ℕ → Master Unit
  | 0 => fun _ => none
  | n + 1 => do
    let p ← get
    set p.poll
    if flag p then return () else spin flag n

/-- After so many polls no flag changes any more, and a loop that goes on goes on for ever. -/
def wait (flag : Peripheral → Bool) : Master Unit := do
  let p ← get
  spin flag (p.txWait + p.rxWait + p.bsyWait + 1)

def waitTxEmpty : Master Unit := wait Peripheral.txe

def waitRxReady : Master Unit := wait Peripheral.rxne

def waitNotBusy : Master Unit := wait fun p => !p.bsy

def select : Master Unit := modify (Peripheral.drive .select)

def deselect : Master Unit := modify (Peripheral.drive .deselect)

/-- An empty data register reads as zero. -/
def readDr : Master UInt8 := do
  let p ← get
  set { p with received := none }
  return p.received.getD 0

section Methods

variable (slave : Slave)

def transferByte (txByte : UInt8) : Master UInt8 := do
  waitTxEmpty
  modify (Peripheral.writeDr slave txByte)
  waitRxReady
  readDr

/-- The loop of `transfer`: the bytes for `rx_data`. -/
def transferBytes : List UInt8 → Master (List UInt8)
  | [] => return []
  | txByte::rest => do
    let rxByte ← transferByte slave txByte
    return rxByte :: (← transferBytes rest)

/-- What is returned, and the contents of `rx_data`. -/
def transfer (txData rxData : List UInt8) : Master (Except String Unit × List UInt8) := do
  if txData.length ≠ rxData.length then return (.error "Buffer length mismatch",rxData)
  else
    select
    let received ← transferBytes slave txData
    waitNotBusy
    deselect
    return (.ok (),received)

def write (data : List UInt8) : Master (Except String Unit) := do
  let dummy := List.replicate 256 (0 : UInt8)
  let len := min data.length 256
  let (result,_) ← transfer slave (data.take len) (dummy.take len)
  return result

/-- What is returned, and the contents of the buffer. -/
def read (buffer : List UInt8) : Master (Except String Unit × List UInt8) :=
  let dummyTx := List.replicate 256 (0xFF : UInt8)
  let len := min buffer.length 256
  transfer slave (dummyTx.take len) buffer

/-- The peripherals that a program can have got to, `transaction` and bare chip selects included. -/
inductive Reached : Peripheral → Prop
  | reset : Reached .reset
  | select {p q : Peripheral} (h : Reached p) (hq : select p = some ((),q)) : Reached q
  | deselect {p q : Peripheral} (h : Reached p) (hq : deselect p = some ((),q)) : Reached q
  | waitNotBusy {p q : Peripheral} (h : Reached p) (hq : waitNotBusy p = some ((),q)) : Reached q
  | transferByte {p q : Peripheral} {txByte rxByte : UInt8} (h : Reached p)
      (hq : transferByte slave txByte p = some (rxByte,q)) : Reached q
  | transfer {p q : Peripheral} {txData rxData : List UInt8}
      {result : Except String Unit × List UInt8} (h : Reached p)
      (hq : transfer slave txData rxData p = some (result,q)) : Reached q

end Methods

variable {slave : Slave} {p q : Peripheral}

/-! ## Waiting -/

/-- Polls leave the bus and the received byte alone. -/
structure Waited (p q : Peripheral) : Prop where
  log_eq : q.log = p.log
  received_eq : q.received = p.received

theorem Waited.poll (h : Waited p.poll q) : Waited p q := ⟨h.log_eq,h.received_eq⟩

theorem spin_succ (flag : Peripheral → Bool) (n : ℕ) (p : Peripheral) :
    spin flag (n + 1) p = if flag p then some ((),p.poll) else spin flag n p.poll := by
  change (if flag p then (pure () : Master Unit) else spin flag n) p.poll = _
  split <;> rfl

/-- A loop for a flag that changes at the end of a countdown returns. -/
theorem spin_returns {flag : Peripheral → Bool} (count : Peripheral → ℕ)
    (hcount : ∀ p : Peripheral, count p.poll = count p - 1) {received : Option UInt8}
    (hflag : ∀ p : Peripheral, p.received = received → count p = 0 → flag p = true)
    (hp : p.received = received) {n : ℕ} (hn : count p < n) :
    ∃ q, spin flag n p = some ((),q) ∧ Waited p q := by
  induction n generalizing p with
  | zero => exact absurd hn (Nat.not_lt_zero _)
  | succ n ih =>
    cases h : flag p with
    | true =>
      refine ⟨p.poll,?_,rfl,rfl⟩
      rw [spin_succ,h,if_pos rfl]
    | false =>
      have hpositive : count p ≠ 0 := by
        intro hzero
        rw [hflag p hp hzero] at h
        cases h
      have hless : count p.poll < n := by
        rw [hcount]
        omega
      obtain ⟨q,hq,hwaited⟩ := ih (p := p.poll) hp hless
      refine ⟨q,?_,hwaited.poll⟩
      rw [spin_succ,h]
      exact hq

theorem waitTxEmpty_returns (p : Peripheral) : ∃ q, waitTxEmpty p = some ((),q) ∧ Waited p q :=
  spin_returns Peripheral.txWait (fun _ => rfl) (fun _ _ h => decide_eq_true h) rfl
    (by omega)

theorem waitNotBusy_returns (p : Peripheral) : ∃ q, waitNotBusy p = some ((),q) ∧ Waited p q :=
  spin_returns Peripheral.bsyWait (fun _ => rfl)
    (fun p _ h => by rw [Peripheral.bsy,h]; rfl) rfl (by omega)

theorem waitRxReady_returns {byte : UInt8} (hp : p.received = some byte) :
    ∃ q, waitRxReady p = some ((),q) ∧ Waited p q :=
  spin_returns Peripheral.rxWait (fun _ => rfl)
    (fun p hp h => by rw [Peripheral.rxne,hp,h]; rfl) hp (by omega)

theorem run_bind {α β : Type} {m : Master α} {f : α → Master β} {a : α} (h : m p = some (a,q)) :
    (m >>= f) p = f a q := by
  change (m p).bind (fun result => f result.1 result.2) = _
  rw [h]
  rfl

/-! ## Transfers -/

/-- A byte goes out, and the byte that comes in at the same time is returned. -/
theorem transferByte_returns (slave : Slave) (txByte : UInt8) (hp : p.received = none) :
    ∃ rxByte q, transferByte slave txByte p = some (rxByte,q) ∧ q.received = none ∧
      q.log = p.log ++ [.exchange txByte rxByte] := by
  obtain ⟨u,hu,hempty⟩ := waitTxEmpty_returns p
  have hreceived : (u.writeDr slave txByte).received = some (slave.reply u.log) := by
    rw [Peripheral.writeDr,hempty.received_eq,hp]
    rfl
  obtain ⟨v,hv,hready⟩ := waitRxReady_returns hreceived
  refine ⟨slave.reply u.log,{ v with received := none },?_,rfl,?_⟩
  · rw [transferByte,run_bind hu,run_bind (q := u.writeDr slave txByte) rfl,run_bind hv]
    change some (v.received.getD 0,_) = _
    rw [hready.received_eq,hreceived]
    rfl
  · change v.log = _
    rw [hready.log_eq]
    change u.log ++ _ = _
    rw [hempty.log_eq]

/-- The exchanges of two byte strings of the same length. -/
def exchanges : List UInt8 → List UInt8 → List BusEvent := List.zipWith BusEvent.exchange

theorem transferBytes_returns (slave : Slave) (txData : List UInt8) (hp : p.received = none) :
    ∃ rxData q, transferBytes slave txData p = some (rxData,q) ∧ q.received = none ∧
      rxData.length = txData.length ∧ q.log = p.log ++ exchanges txData rxData := by
  induction txData generalizing p with
  | nil => exact ⟨[],p,rfl,hp,rfl,(List.append_nil _).symm⟩
  | cons txByte rest ih =>
    obtain ⟨rxByte,u,hbyte,hu,hlog⟩ := transferByte_returns slave txByte hp
    obtain ⟨rxRest,v,hrest,hv,hlength,hlog'⟩ := ih hu
    refine ⟨rxByte::rxRest,v,?_,hv,congrArg Nat.succ hlength,?_⟩
    · rw [transferBytes,run_bind hbyte,run_bind hrest]
      rfl
    · rw [hlog',hlog,List.append_assoc]
      rfl

/-- A transfer with buffers of the same length is one selection with all its bytes. -/
theorem transfer_returns (slave : Slave) {txData rxData : List UInt8} (hp : p.received = none)
    (hlength : txData.length = rxData.length) :
    ∃ received q, transfer slave txData rxData p = some ((.ok (),received),q) ∧
      q.received = none ∧ received.length = txData.length ∧
      q.log = p.log ++ .select::exchanges txData received ++ [.deselect] := by
  obtain ⟨received,u,hbytes,hu,hreceived,hlog⟩ :=
    transferBytes_returns slave txData (p := p.drive .select) hp
  obtain ⟨v,hv,hwaited⟩ := waitNotBusy_returns u
  refine ⟨received,v.drive .deselect,?_,hwaited.received_eq.trans hu,hreceived,?_⟩
  · rw [transfer,if_neg (not_not_intro hlength),run_bind (q := p.drive .select) rfl,
      run_bind hbytes,run_bind hv]
    rfl
  · change v.log ++ _ = _
    rw [hwaited.log_eq,hlog]
    change p.log ++ [_] ++ _ ++ _ = _
    rw [List.append_assoc p.log]
    rfl

/-- Between the calls no byte is left in the data register. -/
theorem Reached.received (h : Reached slave p) : p.received = none := by
  induction h with
  | reset => rfl
  | select _ hq ih | deselect _ hq ih =>
    cases hq
    exact ih
  | @waitNotBusy p q _ hq ih =>
    obtain ⟨v,hv,hwaited⟩ := waitNotBusy_returns p
    cases hq.symm.trans hv
    exact hwaited.received_eq.trans ih
  | @transferByte p q txByte rxByte _ hq ih =>
    obtain ⟨b,v,hv,hnone,-⟩ := transferByte_returns slave txByte ih
    cases hq.symm.trans hv
    exact hnone
  | @transfer p q txData rxData result _ hq ih =>
    by_cases hlength : txData.length = rxData.length
    · obtain ⟨received,v,hv,hnone,-⟩ := transfer_returns slave ih hlength
      cases hq.symm.trans hv
      exact hnone
    · rw [SpiMaster.transfer,if_pos hlength] at hq
      cases hq
      exact ih

/-! ## Writing and reading -/

/-- `write` sends what fits its scratch array. -/
theorem write_returns (slave : Slave) (data : List UInt8) (hp : p.received = none) :
    ∃ received q, write slave data p = some (.ok (),q) ∧ received.length = min data.length 256 ∧
      q.log = p.log ++ .select::exchanges (data.take (min data.length 256)) received ++
        [.deselect] := by
  have hdata : (data.take (min data.length 256)).length = min data.length 256 := by
    rw [List.length_take]
    omega
  have hlength : (data.take (min data.length 256)).length =
      ((List.replicate 256 (0 : UInt8)).take (min data.length 256)).length := by
    rw [hdata,List.length_take,List.length_replicate]
    omega
  obtain ⟨received,q,hq,-,hreceived,hlog⟩ := transfer_returns slave hp hlength
  refine ⟨received,q,?_,hreceived.trans hdata,hlog⟩
  rw [write]
  dsimp only
  rw [run_bind hq]
  rfl

/-- The bytes of `data` in order, within one selection. -/
def Sent (data : List UInt8) (p q : Peripheral) : Prop :=
  ∃ received : List UInt8, received.length = data.length ∧
    q.log = p.log ++ .select::exchanges data received ++ [.deselect]

theorem sent_iff {data received : List UInt8} (hreceived : received.length = min data.length 256)
    (hlog : q.log = p.log ++ .select::exchanges (data.take (min data.length 256)) received ++
      [.deselect]) : Sent data p q ↔ data.length ≤ 256 := by
  constructor
  · intro ⟨others,hothers,hsent⟩
    have hcount := congrArg List.length (hlog.symm.trans hsent)
    simp only [exchanges,List.length_append,List.length_cons,List.length_zipWith,
      List.length_take,List.length_nil,hreceived,hothers] at hcount
    omega
  · intro hshort
    rw [Nat.min_eq_left hshort] at hreceived hlog
    rw [List.take_length] at hlog
    exact ⟨received,hreceived,hlog⟩

theorem read_short (slave : Slave) {buffer : List UInt8} (hp : p.received = none)
    (hshort : buffer.length ≤ 256) :
    ∃ received q, read slave buffer p = some ((.ok (),received),q) ∧
      received.length = buffer.length ∧
      q.log = p.log ++ .select::exchanges (List.replicate buffer.length 0xFF) received ++
        [.deselect] := by
  have hdummy : (List.replicate 256 (0xFF : UInt8)).take (min buffer.length 256) =
      List.replicate buffer.length 0xFF := by
    rw [Nat.min_eq_left hshort,List.take_replicate,Nat.min_eq_left hshort]
  have hlength : (List.replicate buffer.length (0xFF : UInt8)).length = buffer.length :=
    List.length_replicate
  obtain ⟨received,q,hq,-,hreceived,hlog⟩ := transfer_returns slave hp hlength
  refine ⟨received,q,?_,hreceived.trans hlength,hlog⟩
  rw [read,hdummy]
  exact hq

/-- A buffer that is longer than the scratch array is refused. -/
theorem read_long (slave : Slave) {buffer : List UInt8} (p : Peripheral)
    (hlong : 256 < buffer.length) :
    read slave buffer p = some ((.error "Buffer length mismatch",buffer),p) := by
  have hlength : ((List.replicate 256 (0xFF : UInt8)).take (min buffer.length 256)).length ≠
      buffer.length := by
    rw [List.length_take,List.length_replicate]
    omega
  rw [read,transfer,if_pos hlength]
  rfl

/-- `write` always returns `Ok`, and has sent all the data exactly if there are 256 bytes at most.
`read` returns `Ok` with a buffer full of what came in exactly for the same lengths. -/
theorem write_read_iff (h : Reached slave p) :
    (∀ data, ∃ q, write slave data p = some (.ok (),q) ∧ (Sent data p q ↔ data.length ≤ 256)) ∧
    ∀ buffer, (∃ received q, read slave buffer p = some ((.ok (),received),q) ∧
        received.length = buffer.length ∧
        q.log = p.log ++ .select::exchanges (List.replicate buffer.length 0xFF) received ++
          [.deselect]) ↔
      buffer.length ≤ 256 := by
  constructor
  · intro data
    obtain ⟨received,q,hq,hreceived,hlog⟩ := write_returns slave data h.received
    exact ⟨q,hq,sent_iff hreceived hlog⟩
  · intro buffer
    constructor
    · intro ⟨received,q,hq,_⟩
      apply Nat.le_of_not_lt
      intro hlong
      rw [read_long slave p hlong] at hq
      cases hq
    · exact read_short slave h.received

/-- A slave that answers with zeros at once. -/
def silent : Slave := ⟨fun _ => 0,fun _ => 0,fun _ => 0,fun _ => 0⟩

/-- One byte more than the scratch array: `write` drops it and returns `Ok`, `read` fails. -/
theorem write_read_257 : Reached silent .reset ∧
    (∃ q, write silent (List.replicate 257 1) .reset = some (.ok (),q) ∧
      ¬ Sent (List.replicate 257 1) .reset q) ∧
    read silent (List.replicate 257 0) .reset =
      some ((.error "Buffer length mismatch",List.replicate 257 0),.reset) := by
  refine ⟨.reset,?_,read_long silent .reset (by rw [List.length_replicate]; decide)⟩
  obtain ⟨received,q,hq,hreceived,hlog⟩ :=
    write_returns silent (List.replicate 257 1) (p := .reset) rfl
  refine ⟨q,hq,?_⟩
  rw [sent_iff hreceived hlog,List.length_replicate]
  decide

theorem write_read_two : Reached silent .reset ∧
    ∃ received q, read silent [7,8] .reset = some ((.ok (),received),q) ∧
      received.length = 2 := by
  obtain ⟨received,q,hq,hlength,-⟩ :=
    ((write_read_iff (.reset : Reached silent .reset)).2 [7,8]).mpr (by decide)
  exact ⟨.reset,received,q,hq,hlength⟩

end SpiMaster
end UProtocols
