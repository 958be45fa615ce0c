import UProtocols.Interaction

/-!
# The register-level I2C bus

`I2cBus` of `I2C/src/28/28.rs`: `write`, `write_read` and what they call, as the accesses that they
make to the registers and the readings of the tick counter. A read that changes bits of a register
is one access with the write that follows. The waiting loops have a bound on their rounds, past
which a method is still running.
-/

namespace UProtocols
namespace I2cErrorDetection

open Interaction

inductive I2cError
  | nack
  | timeout
  | arbitrationLost
  | busError
  | busy
  | overflow
  | invalidParam
  | clockStretchTimeout
  deriving DecidableEq

inductive I2cState
  | idle
  | transmit
  | receive
  | error
  deriving DecidableEq

/-! ## Bits of the registers -/

def startBit : UInt32 := 0x0001
def addressSent : UInt32 := 0x0002
def byteTransferFinished : UInt32 := 0x0004
def rxNotEmpty : UInt32 := 0x0040
def txEmpty : UInt32 := 0x0080
def busErrorFlag : UInt32 := 0x0100
def arbitrationLostFlag : UInt32 := 0x0200
def ackFailure : UInt32 := 0x0400

def cr1Start : UInt32 := 0x0100
def cr1Stop : UInt32 := 0x0200
def cr1Ack : UInt32 := 0x0400

/-- Bit 1 of SR2. -/
def sr2Busy : UInt32 := 0x0002

/-- The places that wait or check: START, the address, the bytes of `write` and of `write_read`, the
end of the last byte, and the bytes that are read. -/
inductive Site
  | start
  | address
  | transmit
  | transmitCombined
  | finished
  | receive (last : Bool)
  deriving DecidableEq

/-- What a read of SR1 is for. -/
inductive Check
  | ack
  | arbitration
  | busError
  | flag
  | clearAddr
  deriving DecidableEq

/-- The accesses to the registers and the readings of the tick counter, at the beginning of a wait
and in its rounds. -/
inductive HalCall
  | readSr1 (site : Site) (check : Check)
  | readSr2
  | readDr
  | clearSr1 (mask : UInt32)
  | setCr1 (mask : UInt32)
  | clearCr1 (mask : UInt32)
  | writeDr (value : UInt32)
  | firstTick
  | nextTick (site : Site)
  deriving DecidableEq

abbrev Answer : HalCall → Type
  | .readSr1 .. | .readSr2 | .readDr | .firstTick | .nextTick _ => UInt32
  | .clearSr1 _ | .setCr1 _ | .clearCr1 _ | .writeDr _ => Unit

/-- Methods may not have returned yet. -/
inductive Failure
  | err (e : I2cError)
  | running
  deriving DecidableEq

/-- The state, and the buffer that the caller lends to a read. -/
structure I2cBus where
  state : I2cState
  buffer : List UInt8
  deriving DecidableEq

abbrev I2c := Driver HalCall Answer I2cBus Failure

def setState (state : I2cState) : I2c Unit := modify fun self => { self with state }

/-- Clear the error flag, note the state and return the error. -/
def fail (mask : UInt32) (e : I2cError) : I2c Unit := do
  Driver.perform (HalCall.clearSr1 mask)
  setState .error
  throw (.err e)

def checkAckError (site : Site) : I2c Unit := do
  let sr1 ← Driver.perform (HalCall.readSr1 site .ack)
  if sr1 &&& ackFailure ≠ 0 then
    Driver.perform (HalCall.clearSr1 ackFailure)
    -- generate STOP to release the bus
    Driver.perform (HalCall.setCr1 cr1Stop)
    setState .error
    throw (.err .nack)
  else return ()

def checkArbitrationError (site : Site) : I2c Unit := do
  let sr1 ← Driver.perform (HalCall.readSr1 site .arbitration)
  if sr1 &&& arbitrationLostFlag ≠ 0 then fail arbitrationLostFlag .arbitrationLost else return ()

def checkBusError (site : Site) : I2c Unit := do
  let sr1 ← Driver.perform (HalCall.readSr1 site .busError)
  if sr1 &&& busErrorFlag ≠ 0 then fail busErrorFlag .busError else return ()

def isBusy : I2c Bool := do
  let sr2 ← Driver.perform HalCall.readSr2
  return decide (sr2 &&& sr2Busy ≠ 0)

def stop : I2c Unit := do
  Driver.perform (HalCall.setCr1 cr1Stop)
  setState .idle

section Methods

variable (timeoutMs : UInt32) (rounds : ℕ)

def timeoutTicks : UInt32 := timeoutMs * 1000

/-- The time is over in a wait that began at the tick `start`. -/
def Expired (start tick : UInt32) : Prop := tick - start ≥ timeoutTicks timeoutMs

instance (start tick : UInt32) : Decidable (Expired timeoutMs start tick) :=
  inferInstanceAs (Decidable (_ ≥ _))

def timeOut : I2c Unit := do
  setState .error
  throw (.err .timeout)

/-- The loop of `wait_flag`. -/
def waitRounds (site : Site) (flag : UInt32) (state : Bool) (start : UInt32) : ℕ → I2c Unit
  | 0 => throw .running
  | n + 1 => do
    checkAckError site
    checkArbitrationError site
    checkBusError site
    let sr1 ← Driver.perform (HalCall.readSr1 site .flag)
    if decide (sr1 &&& flag ≠ 0) = state then return ()
    else
      let tick ← Driver.perform (HalCall.nextTick site)
      if Expired timeoutMs start tick then timeOut else waitRounds site flag state start n

def waitFlag (site : Site) (flag : UInt32) (state : Bool) : I2c Unit := do
  let start ← Driver.perform HalCall.firstTick
  waitRounds timeoutMs site flag state start rounds

def stopIf (c : Bool) : I2c Unit := if c then stop else return ()

/-- A wait with a `map_err` that calls `stop` for some errors. -/
def waitOrStop (site : Site) (flag : UInt32) (stops : Failure → Bool) : I2c Unit := do
  match ← Driver.attempt (waitFlag timeoutMs rounds site flag true) with
  | .ok () => return ()
  | .error e => do
    stopIf (stops e)
    throw e

def start : I2c Unit := do
  if ← isBusy then throw (.err .busy)
  else
    Driver.perform (HalCall.setCr1 cr1Start)
    waitFlag timeoutMs rounds .start startBit true

def sendAddress (address : UInt8) (read : Bool) : I2c Unit := do
  Driver.perform (HalCall.writeDr ((address <<< 1) ||| if read then 1 else 0).toUInt32)
  -- no acknowledge of the address: the slave is not present
  waitOrStop timeoutMs rounds .address addressSent fun e => e = .err .timeout ∨ e = .err .nack
  let _ ← Driver.perform (HalCall.readSr1 .address .clearAddr)
  let _ ← Driver.perform HalCall.readSr2
  return ()

/-- The loop of `write`: whatever the error, the wait stops. A call that is still running has not
come to its `map_err`. -/
def transmitBytes : List UInt8 → I2c Unit
  | [] => return ()
  | byte::rest => do
    waitOrStop timeoutMs rounds .transmit txEmpty fun e => e ≠ .running
    Driver.perform (HalCall.writeDr byte.toUInt32)
    checkAckError .transmit
    transmitBytes rest

def write (address : UInt8) (data : List UInt8) : I2c Unit := do
  if data.isEmpty then throw (.err .invalidParam)
  else
    setState .transmit
    start timeoutMs rounds
    sendAddress timeoutMs rounds address false
    transmitBytes timeoutMs rounds data
    waitFlag timeoutMs rounds .finished byteTransferFinished true
    stop

/-- The loop of `write_read` over the bytes that are written. -/
def transmitCombinedBytes : List UInt8 → I2c Unit
  | [] => return ()
  | byte::rest => do
    waitFlag timeoutMs rounds .transmitCombined txEmpty true
    Driver.perform (HalCall.writeDr byte.toUInt32)
    checkAckError .transmitCombined
    transmitCombinedBytes rest

/-- Before the last byte, ACK is disabled and STOP is requested. -/
def beforeByte (last : Bool) : I2c Unit :=
  if last then do
    Driver.perform (HalCall.clearCr1 cr1Ack)
    Driver.perform (HalCall.setCr1 cr1Stop)
  else return ()

/-- The loop of `write_read` over the read buffer, from place `k` on. -/
def receiveBytes : ℕ → List UInt8 → I2c Unit
  | _, [] => return ()
  | k, _::rest => do
    beforeByte rest.isEmpty
    waitFlag timeoutMs rounds (.receive rest.isEmpty) rxNotEmpty true
    let dr ← Driver.perform HalCall.readDr
    modify fun self => { self with buffer := self.buffer.set k dr.toUInt8 }
    receiveBytes (k + 1) rest

/-- The part of `write_read` after its checks. -/
def combined (address : UInt8) (writeData readBuffer : List UInt8) : I2c Unit := do
  start timeoutMs rounds
  sendAddress timeoutMs rounds address false
  transmitCombinedBytes timeoutMs rounds writeData
  waitFlag timeoutMs rounds .finished byteTransferFinished true
  -- repeated START
  start timeoutMs rounds
  sendAddress timeoutMs rounds address true
  receiveBytes timeoutMs rounds 0 readBuffer
  setState .idle

/-- `write_read` into the buffer of the object. -/
def writeRead (address : UInt8) (writeData : List UInt8) : I2c Unit := do
  let self ← get
  if writeData.isEmpty || self.buffer.isEmpty then throw (.err .invalidParam)
  else combined timeoutMs rounds address writeData self.buffer

end Methods

/-! ## Watching a call -/

/-- The waits whose failure comes with a STOP: the error is mapped, or STOP was requested before. -/
def Site.released : Site → I2cError → Bool
  | .transmit, _ | .receive true, _ | .address, .timeout => true
  | _, _ => false

/-- Whether a START was requested and no STOP since, whether a wait that comes without a STOP has
met a bus error or has timed out, whether SR2 has shown a free bus between START and STOP, and the
tick at which the wait has begun. -/
structure Watch where
  held : Bool
  lost : Bool
  denied : Bool
  startTick : UInt32
  deriving DecidableEq

def Watch.fresh : Watch := ⟨false,false,false,0⟩

def after (timeoutMs : UInt32) (t : Watch) : (e : HalCall) → Answer e → Watch
  | .setCr1 mask, _ =>
    { t with held := if mask = cr1Start then true else if mask = cr1Stop then false else t.held }
  | .readSr1 site .busError, sr1 =>
    { t with lost := t.lost || decide (sr1 &&& busErrorFlag ≠ 0) && !site.released .busError }
  | .nextTick site, tick =>
    { t with lost := t.lost ||
        decide (Expired timeoutMs t.startTick tick) && !site.released .timeout }
  | .readSr2, sr2 => { t with denied := t.denied || t.held && decide (sr2 &&& sr2Busy = 0) }
  | .firstTick, tick => { t with startTick := tick }
  | _, _ => t

section Follows

variable {timeoutMs : UInt32} {rounds : ℕ} {α β : Type} {t t₀ : Watch}

abbrev Follows (timeoutMs : UInt32) (m : I2c α) (t : Watch) (Q : Watch → Except Failure α → Prop) :
    Prop :=
  Driver.Follows (Program.tracking (after timeoutMs)) m t Q

/-- A check that passes leaves the watch as it is. -/
theorem follows_checkAckError (site : Site) :
    Follows timeoutMs (checkAckError site) t fun t' result => match result with
      | .ok _ => t' = t
      | .error f => f = .err .nack ∧ t'.held = false ∧ t'.lost = t.lost := by
  refine .call fun sr1 => ?_
  split
  · exact .call fun _ => .call fun _ => .modify_bind (.throw ⟨rfl,rfl,rfl⟩)
  · exact .pure rfl

theorem follows_checkArbitrationError (site : Site) :
    Follows timeoutMs (checkArbitrationError site) t fun t' result => match result with
      | .ok _ => t' = t
      | .error f => f = .err .arbitrationLost ∧ t'.lost = t.lost := by
  refine .call fun sr1 => ?_
  split
  · exact .call fun _ => .modify_bind (.throw ⟨rfl,rfl⟩)
  · exact .pure rfl

theorem follows_checkBusError (site : Site) (ht : t.lost = false) :
    Follows timeoutMs (checkBusError site) t fun t' result => match result with
      | .ok _ => t' = t
      | .error f => f = .err .busError ∧ t'.held = t.held ∧ t'.lost = !site.released .busError := by
  refine .call fun sr1 => ?_
  split
  · rename_i hbit
    refine .call fun _ => .modify_bind (.throw ⟨rfl,rfl,?_⟩)
    simp [after,ht,hbit]
  · rename_i hbit
    refine .pure ?_
    obtain ⟨held,lost,denied,tick⟩ := t
    simp [after,Decidable.not_not.mp hbit]

/-- What a wait at `site` leaves of the watch `t₀`. -/
def WaitEnds (site : Site) (t₀ t : Watch) : Except Failure Unit → Prop
  | .ok _ => t.held = t₀.held ∧ t.lost = false ∧ t.denied = t₀.denied
  | .error (.err .nack) => t.held = false ∧ t.lost = false
  | .error (.err .busError) => t.held = t₀.held ∧ t.lost = !site.released .busError
  | .error (.err .timeout) => t.held = t₀.held ∧ t.lost = !site.released .timeout
  | .error _ => t.lost = false

theorem follows_waitRounds (site : Site) (flag : UInt32) (state : Bool) (n : ℕ)
    (ht : t.lost = false) :
    Follows timeoutMs (waitRounds timeoutMs site flag state t.startTick n) t
      (WaitEnds site t) := by
  induction n with
  | zero => exact .throw ht
  | succ n ih =>
    refine (follows_checkAckError site).bind (fun t' _ h => ?_) (fun t' f h => ?_)
    · cases h
      refine (follows_checkArbitrationError site).bind (fun t' _ h => ?_) (fun t' f h => ?_)
      · cases h
        refine (follows_checkBusError site ht).bind (fun t' _ h => ?_) (fun t' f h => ?_)
        · cases h
          refine .call fun sr1 => ?_
          split
          · exact .pure ⟨rfl,ht,rfl⟩
          · refine .call fun tick => ?_
            split
            · rename_i hexpired
              refine .modify_bind (.throw ⟨rfl,?_⟩)
              simp [after,ht,hexpired]
            · rename_i hexpired
              have hsame : after timeoutMs (after timeoutMs t (.readSr1 site .flag) sr1)
                  (.nextTick site) tick = t := by
                obtain ⟨held,lost,denied,start⟩ := t
                simp [after,hexpired]
              rw [hsame]
              exact ih
        · obtain ⟨rfl,hheld,hlost⟩ := h
          exact ⟨hheld,hlost⟩
      · obtain ⟨rfl,hlost⟩ := h
        exact hlost.trans ht
    · obtain ⟨rfl,hheld,hlost⟩ := h
      exact ⟨hheld,hlost.trans ht⟩

theorem follows_waitFlag (site : Site) (flag : UInt32) (state : Bool) (ht : t.lost = false) :
    Follows timeoutMs (waitFlag timeoutMs rounds site flag state) t (WaitEnds site t) := by
  refine .call fun tick => ?_
  exact follows_waitRounds (t := { t with startTick := tick }) site flag state rounds ht

/-! ## Between START and STOP -/

/-- The errors after which the bus has to be free. -/
def Claimed : Failure → Prop
  | .err .nack | .err .timeout | .err .busError => True
  | _ => False

/-- A wait that fails has lost nothing, or it has met a bus error or has timed out. -/
theorem waitEnds_error {site : Site} {f : Failure} (h : WaitEnds site t₀ t (.error f)) :
    t.lost = false ∧ (Claimed f → t.held = false) ∨
      ∃ e, (e = .busError ∨ e = .timeout) ∧ f = .err e ∧ Claimed f ∧ t.held = t₀.held ∧
        t.lost = !site.released e := by
  match f with
  | .err .nack => exact .inl ⟨h.2,fun _ => h.1⟩
  | .err .busError => exact .inr ⟨.busError,.inl rfl,rfl,trivial,h⟩
  | .err .timeout => exact .inr ⟨.timeout,.inr rfl,rfl,trivial,h⟩
  | .running | .err .arbitrationLost | .err .busy | .err .overflow | .err .invalidParam
  | .err .clockStretchTimeout => exact .inl ⟨h,False.elim⟩

/-- A call that fails has released the bus, unless it was lost. -/
def Fails (t : Watch) (f : Failure) : Prop :=
  t.lost = false ∧ (Claimed f → t.held = false) ∨ t.lost = true ∧ Claimed f ∧ t.held = true

/-- The bus is held and nothing has gone wrong; if `D`, SR2 has shown it free. -/
structure Going (D : Prop) (t : Watch) : Prop where
  held : t.held = true
  kept : t.lost = false
  denied : D → t.denied = true

variable {D : Prop} {m : I2c α} {f : α → I2c β}

def Through (D : Prop) (t : Watch) : Except Failure α → Prop
  | .ok _ => Going D t
  | .error f => Fails t f

/-- A part of a call that holds the bus all the time, unless it fails. -/
def Passes (timeoutMs : UInt32) (D : Prop) (m : I2c α) : Prop :=
  ∀ t, Going D t → Follows timeoutMs m t (Through D)

theorem passes_bind (hm : Passes timeoutMs D m) (hf : ∀ a, Passes timeoutMs D (f a)) :
    Passes timeoutMs D (m >>= f) :=
  fun t ht => (hm t ht).bind (fun t a h => hf a t h) (fun _ _ h => h)

theorem passes_pure (a : α) : Passes timeoutMs D (pure a) := fun _ ht => .pure ht

/-- An access that the watch does not look at. -/
theorem passes_call {e : HalCall} {f : Answer e → I2c β}
    (he : ∀ t r, Going D t → Going D (after timeoutMs t e r))
    (hf : ∀ r, Passes timeoutMs D (f r)) : Passes timeoutMs D (Driver.perform e >>= f) :=
  fun t ht => .call fun r => hf r _ (he t r ht)

theorem passes_checkAckError (site : Site) : Passes timeoutMs D (checkAckError site) := by
  intro t ht
  refine (follows_checkAckError site).mono ?_
  intro t' result h
  cases result with
  | ok _ =>
    cases h
    exact ht
  | error f =>
    obtain ⟨rfl,hheld,hlost⟩ := h
    exact .inl ⟨hlost.trans ht.kept,fun _ => hheld⟩

/-- The error of a wait, after a STOP for the errors that are mapped. -/
theorem fails_of_mapped {site : Site} {c : Bool} {f : Failure} (ht : t₀.held = true)
    (h : WaitEnds site t₀ t (.error f))
    (hc : ∀ e, e = .busError ∨ e = .timeout → f = .err e → c = site.released e) :
    Fails (if c then { t with held := false } else t) f := by
  rcases waitEnds_error h with ⟨hlost,hreleased⟩ | ⟨e,he,hf,hclaimed,hheld,hlost⟩
  · cases c with
    | true => exact .inl ⟨hlost,fun _ => rfl⟩
    | false => exact .inl ⟨hlost,hreleased⟩
  · rw [← hc e he hf] at hlost
    cases c with
    | true => exact .inl ⟨hlost,fun _ => rfl⟩
    | false => exact .inr ⟨hlost,hclaimed,hheld.trans ht⟩

/-- A wait where no STOP follows an error. -/
theorem passes_waitFlag {site : Site} (hsite : ∀ e, site.released e = false) (flag : UInt32)
    (state : Bool) : Passes timeoutMs D (waitFlag timeoutMs rounds site flag state) := by
  intro t ht
  refine (follows_waitFlag site flag state ht.kept).mono ?_
  intro t' result h
  cases result with
  | ok _ => exact ⟨h.1.trans ht.held,h.2.1,fun hD => h.2.2.trans (ht.denied hD)⟩
  | error f => exact fails_of_mapped (c := false) ht.held h fun e _ _ => (hsite e).symm

theorem follows_stop : Follows timeoutMs stop t fun t' result =>
    result = .ok () ∧ t' = { t with held := false } :=
  .call fun _ => .modify ⟨rfl,rfl⟩

theorem follows_stopIf (c : Bool) : Follows timeoutMs (stopIf c) t fun t' result =>
    result = .ok () ∧ t' = if c then { t with held := false } else t := by
  cases c with
  | true => exact follows_stop
  | false => exact .pure ⟨rfl,rfl⟩

theorem passes_waitOrStop {site : Site} {stops : Failure → Bool}
    (hbus : stops (.err .busError) = site.released .busError)
    (htime : stops (.err .timeout) = site.released .timeout) (flag : UInt32) :
    Passes timeoutMs D (waitOrStop timeoutMs rounds site flag stops) := by
  intro t ht
  refine (follows_waitFlag site flag true ht.kept).attempt.bind ?_ ?_
  · intro t' answer h
    obtain ⟨answer',heq,h⟩ := h
    cases heq
    cases answer with
    | ok _ =>
      exact .pure ⟨h.1.trans ht.held,h.2.1,fun hD => h.2.2.trans (ht.denied hD)⟩
    | error f =>
      have hmapped : ∀ e, e = .busError ∨ e = .timeout → f = .err e →
          stops f = site.released e := by
        intro e he hf
        rw [hf]
        cases he with
        | inl he => exact he ▸ hbus
        | inr he => exact he ▸ htime
      have hfails := fails_of_mapped ht.held h hmapped
      refine (follows_stopIf (stops f)).bind ?_ ?_
      · intro t'' _ hstop
        rw [hstop.2]
        exact .throw hfails
      · intro t'' f' hstop
        cases hstop.1
  · intro t' f h
    obtain ⟨answer',heq,-⟩ := h
    cases heq

/-- A busy bus ends the call, and a bus that is free while it is held is noted. -/
theorem follows_start (ht : t.lost = false) (hD : D → t.held = true) :
    Follows timeoutMs (start timeoutMs rounds) t (Through D) := by
  have hbusy : Follows timeoutMs isBusy t fun t' result => ∃ busy, result = .ok busy ∧
      t' = { t with denied := t.denied || t.held && !busy } := by
    refine .call fun sr2 => .pure ⟨_,rfl,?_⟩
    simp [after]
  refine hbusy.bind ?_ ?_
  · intro t' busy h
    obtain ⟨busy',heq,rfl⟩ := h
    cases heq
    cases busy with
    | true => exact .throw (.inl ⟨ht,False.elim⟩)
    | false =>
      refine .call fun _ => passes_waitFlag (fun _ => rfl) _ _ _ ⟨rfl,ht,fun h => ?_⟩
      change (t.denied || t.held && !false) = true
      rw [hD h]
      exact Bool.or_true _
  · intro t' f h
    obtain ⟨busy,heq,-⟩ := h
    cases heq

theorem passes_sendAddress (address : UInt8) (read : Bool) :
    Passes timeoutMs D (sendAddress timeoutMs rounds address read) := by
  refine passes_call (fun _ _ ht => ht) fun _ => ?_
  refine passes_bind (passes_waitOrStop rfl rfl _) fun _ => ?_
  refine passes_call (fun _ _ ht => ht) fun _ => passes_call (fun t sr2 ht => ?_) fun _ =>
    passes_pure ()
  refine ⟨ht.held,ht.kept,fun hD => ?_⟩
  change (t.denied || _) = true
  rw [ht.denied hD]
  rfl

theorem passes_transmitBytes (data : List UInt8) :
    Passes timeoutMs D (transmitBytes timeoutMs rounds data) := by
  induction data with
  | nil => exact passes_pure ()
  | cons byte rest ih =>
    refine passes_bind (passes_waitOrStop rfl rfl _) fun _ => ?_
    refine passes_call (fun _ _ ht => ht) fun _ => ?_
    exact passes_bind (passes_checkAckError _) fun _ => ih

theorem passes_transmitCombinedBytes (data : List UInt8) :
    Passes timeoutMs D (transmitCombinedBytes timeoutMs rounds data) := by
  induction data with
  | nil => exact passes_pure ()
  | cons byte rest ih =>
    refine passes_bind (passes_waitFlag (fun _ => rfl) _ _) fun _ => ?_
    refine passes_call (fun _ _ ht => ht) fun _ => ?_
    exact passes_bind (passes_checkAckError _) fun _ => ih

/-! ## Whole calls -/

/-- The end of a call that may have requested STOP. -/
def Ends (D : Prop) (t : Watch) : Except Failure α → Prop
  | .ok _ => t.lost = false ∧ (D → t.denied = true)
  | .error f => Fails t f

variable {D' : Prop}

theorem through_ends (hm : Follows timeoutMs m t (Through D))
    (hf : ∀ a t, Going D t → Follows timeoutMs (f a) t (Ends D')) :
    Follows timeoutMs (m >>= f) t (Ends D') :=
  hm.bind (fun t a h => hf a t h) (fun _ _ h => h)

theorem passes_ends (hm : Passes timeoutMs D m) (ht : Going D t)
    (hf : ∀ a t, Going D t → Follows timeoutMs (f a) t (Ends D')) :
    Follows timeoutMs (m >>= f) t (Ends D') := through_ends (hm t ht) hf

/-- The wait for the last byte, when STOP has been requested. -/
theorem follows_lastWait (flag : UInt32) (state : Bool) (hheld : t.held = false)
    (hlost : t.lost = false) (hD : D → t.denied = true) :
    Follows timeoutMs (waitFlag timeoutMs rounds (.receive true) flag state) t (Ends D) := by
  refine (follows_waitFlag _ flag state hlost).mono ?_
  intro t' result h
  cases result with
  | ok _ => exact ⟨h.2.1,fun h' => h.2.2.trans (hD h')⟩
  | error f =>
    rcases waitEnds_error h with hreleased | ⟨e,-,-,-,hheld',hlost'⟩
    · exact .inl hreleased
    · exact .inl ⟨hlost',fun _ => hheld'.trans hheld⟩

theorem follows_beforeByte (last : Bool) : Follows timeoutMs (beforeByte last) t
    fun t' result => result = .ok () ∧ t' = if last then { t with held := false } else t := by
  cases last with
  | true => exact .call fun _ => .perform fun _ => ⟨_,rfl,rfl,rfl⟩
  | false => exact .pure ⟨rfl,rfl⟩

theorem follows_receiveBytes (k : ℕ) (byte : UInt8) (rest : List UInt8) (ht : Going D t) :
    Follows timeoutMs (receiveBytes timeoutMs rounds k (byte::rest)) t (Ends D) := by
  induction rest generalizing k byte t with
  | nil =>
    refine (follows_beforeByte true).bind ?_ (fun _ _ h => nomatch h.1)
    intro t' _ h
    rw [h.2]
    refine (follows_lastWait (t := { t with held := false }) (D := D) _ _ rfl ht.kept
      ht.denied).bind ?_ (fun _ _ h => h)
    intro t' _ h
    exact .call fun _ => .modify_bind (.pure h)
  | cons next rest ih =>
    refine (follows_beforeByte false).bind ?_ (fun _ _ h => nomatch h.1)
    intro t' _ h
    rw [h.2]
    refine passes_ends (passes_waitFlag (fun _ => rfl) _ _) ht fun _ t ht => ?_
    exact .call fun _ => .modify_bind (ih (k + 1) next ht)

theorem follows_write (address : UInt8) (data : List UInt8) :
    Follows timeoutMs (write timeoutMs rounds address data) .fresh (Ends False) := by
  rw [write]
  split
  · exact .throw (.inl ⟨rfl,False.elim⟩)
  · refine .modify_bind (through_ends (follows_start (D := False) rfl False.elim) fun _ t ht => ?_)
    refine passes_ends (passes_sendAddress address false) ht fun _ t ht => ?_
    refine passes_ends (passes_transmitBytes data) ht fun _ t ht => ?_
    refine passes_ends (passes_waitFlag (fun _ => rfl) _ _) ht fun _ t ht => ?_
    exact .call fun _ => .modify ⟨ht.kept,False.elim⟩

/-- A combined transaction that returns `Ok` has seen a free bus between its two STARTs. -/
theorem follows_combined (address : UInt8) (writeData : List UInt8) (byte : UInt8)
    (rest : List UInt8) :
    Follows timeoutMs (combined timeoutMs rounds address writeData (byte::rest)) .fresh
      (Ends True) := by
  refine through_ends (follows_start (D := False) rfl False.elim) fun _ t ht => ?_
  refine passes_ends (passes_sendAddress address false) ht fun _ t ht => ?_
  refine passes_ends (passes_transmitCombinedBytes writeData) ht fun _ t ht => ?_
  refine passes_ends (passes_waitFlag (fun _ => rfl) _ _) ht fun _ t ht => ?_
  -- the repeated START reads SR2 while the bus is held
  refine through_ends (follows_start (D := True) ht.kept fun _ => ht.held) fun _ t ht => ?_
  refine passes_ends (passes_sendAddress address true) ht fun _ t ht => ?_
  refine (follows_receiveBytes 0 byte rest ht).bind (fun t _ h => ?_) (fun _ _ h => h)
  exact .modify h

theorem follows_writeRead (address : UInt8) (writeData : List UInt8) :
    Follows timeoutMs (writeRead timeoutMs rounds address writeData) .fresh (Ends True) := by
  refine .get_bind fun self => ?_
  split
  · exact .throw (.inl ⟨rfl,False.elim⟩)
  · rename_i hempty
    cases hbuffer : self.buffer with
    | nil => simp [hbuffer] at hempty
    | cons byte rest => exact follows_combined address writeData byte rest

/-- The errors of a call that has ended. -/
theorem released_iff_of_ends {result : Except Failure Unit} (h : Ends D t result) :
    (∀ e, e = .nack ∨ e = .timeout ∨ e = .busError → result = .error (.err e) →
      t.held = false) ↔ t.lost = false := by
  cases result with
  | ok _ => exact iff_of_true (fun _ _ h => nomatch h) h.1
  | error f =>
    cases h with
    | inl hreleased =>
      refine iff_of_true (fun e he hf => hreleased.2 ?_) hreleased.1
      cases hf
      rcases he with rfl | rfl | rfl <;> trivial
    | inr hlost =>
      obtain ⟨hlost,hclaimed,hheld⟩ := hlost
      rw [hlost,hheld]
      refine iff_of_false (fun hall => ?_) Bool.noConfusion
      match f with
      | .err .nack => cases hall .nack (.inl rfl) rfl
      | .err .timeout => cases hall .timeout (.inr (.inl rfl)) rfl
      | .err .busError => cases hall .busError (.inr (.inr rfl)) rfl

end Follows

/-- In every world and for every state of the object: if the call returns one of the three errors,
a STOP was requested after the last START, exactly if no wait that comes without a STOP has met a
bus error or has timed out. -/
def ReleasedUnlessLost (timeoutMs : UInt32) (m : I2c Unit) : Prop :=
  ∀ (ω : Type) (handle : (e : HalCall) → ω → Answer e × ω) (self : I2cBus) (w : ω),
    let run := m.exec (Program.watched (after timeoutMs) handle) self (w,.fresh)
    (∀ e, e = .nack ∨ e = .timeout ∨ e = .busError → run.1.1 = .error (.err e) →
      run.2.2.held = false) ↔ run.2.2.lost = false

/-- Both calls give the bus back after an error, unless they end in a wait without a STOP. -/
theorem write_writeRead_released_iff (timeoutMs : UInt32) (rounds : ℕ) (address : UInt8)
    (data : List UInt8) :
    ReleasedUnlessLost timeoutMs (write timeoutMs rounds address data) ∧
      ReleasedUnlessLost timeoutMs (writeRead timeoutMs rounds address data) :=
  ⟨fun _ handle self w =>
      released_iff_of_ends ((follows_write address data).exec_watched handle self w),
    fun _ handle self w =>
      released_iff_of_ends ((follows_writeRead address data).exec_watched handle self w)⟩

/-- A peripheral that sets no flag, while every reading of the counter comes a second later. -/
def noStartBit : (e : HalCall) → UInt32 → Answer e × UInt32
  | .readSr1 .., w | .readSr2, w | .readDr, w => (0,w)
  | .firstTick, w | .nextTick _, w => (w,w + 1000000)
  | .clearSr1 _, w | .setCr1 _, w | .clearCr1 _, w | .writeDr _, w => ((),w)

/-- START is requested and does not come about: the call times out and leaves the bus as it is. -/
theorem write_writeRead_released_noStartBit :
    let run := (write 100 1 0x50 [1]).exec (Program.watched (after 100) noStartBit) ⟨.idle,[]⟩
      (0,.fresh)
    run.1.1 = .error (.err .timeout) ∧ run.2.2.held = true :=
  ⟨rfl,rfl⟩

/-! ## Combined transactions -/

/-- START takes the bus, and STOP gives it back. -/
def busyAfter (busy : Bool) : HalCall → Bool
  | .setCr1 mask => if mask = cr1Start then true else if mask = cr1Stop then false else busy
  | _ => busy

/-- A peripheral whose SR2 shows the bus busy from START to STOP. -/
structure Peripheral (ω : Type) where
  handle : (e : HalCall) → ω → Answer e × ω
  busy : ω → Bool
  sr2 : ∀ w, (handle .readSr2 w).1 &&& sr2Busy ≠ 0 ↔ busy w = true
  busy_after : ∀ e w, busy (handle e w).2 = busyAfter (busy w) e

namespace Peripheral

variable {ω : Type} (peripheral : Peripheral ω) {w : ω} {t : Watch}

/-- The watch sees the bus as it is. -/
structure Agrees (w : ω) (t : Watch) : Prop where
  busy : peripheral.busy w = t.held
  denied : t.denied = false

theorem agrees_after (timeoutMs : UInt32) (e : HalCall) (h : peripheral.Agrees w t) :
    peripheral.Agrees (peripheral.handle e w).2
      (after timeoutMs t e (peripheral.handle e w).1) := by
  have hbusy := peripheral.busy_after e w
  rw [h.busy] at hbusy
  cases e with
  | readSr2 =>
    refine ⟨hbusy,?_⟩
    have hsr2 := peripheral.sr2 w
    rw [h.busy] at hsr2
    change (t.denied || t.held && decide _) = false
    cases hheld : t.held with
    | false =>
      rw [h.denied]
      rfl
    | true =>
      rw [h.denied,decide_eq_false (hsr2.mpr hheld)]
      rfl
  | readSr1 site check => cases check <;> exact ⟨hbusy,h.denied⟩
  | setCr1 | readDr | clearSr1 | clearCr1 | writeDr | firstTick | nextTick =>
    exact ⟨hbusy,h.denied⟩

end Peripheral

/-- Whatever else the peripheral does, as long as SR2 shows the bus busy from START to STOP, a
combined transaction on an idle bus does not return `Ok`. -/
theorem writeRead_never_ok {ω : Type} (peripheral : Peripheral ω) (timeoutMs : UInt32)
    (rounds : ℕ) (address : UInt8) (writeData : List UInt8) (self : I2cBus) (w : ω)
    (hidle : peripheral.busy w = false) :
    ((writeRead timeoutMs rounds address writeData).exec peripheral.handle self w).1.1 ≠
      .ok () := by
  intro hok
  have hagrees : peripheral.Agrees w .fresh := ⟨hidle,rfl⟩
  have hfollows : Follows timeoutMs (writeRead timeoutMs rounds address writeData) .fresh
      (Ends True) := follows_writeRead address writeData
  have hend := hfollows.exec_watched peripheral.handle self w
  have hdenied := (Program.run_watched_invariant (I := peripheral.Agrees)
    (fun e _ _ => peripheral.agrees_after timeoutMs e)
    ((writeRead timeoutMs rounds address writeData).program self) hagrees).denied
  rw [Driver.exec,Program.run_watched (after timeoutMs) _ w .fresh] at hok
  rw [Driver.exec,hok] at hend
  rw [hend.2 trivial] at hdenied
  cases hdenied

/-- A peripheral that sets every awaited flag at once, with a slave that sends 0x71. -/
def prompt : Peripheral Bool where
  handle
    | .readSr1 .., busy => (0xC7,busy)
    | .readSr2, busy => (if busy then sr2Busy else 0,busy)
    | .readDr, busy => (0x71,busy)
    | .firstTick, busy | .nextTick _, busy => (0,busy)
    | .setCr1 mask, busy => ((),busyAfter busy (.setCr1 mask))
    | .clearSr1 _, busy | .clearCr1 _, busy | .writeDr _, busy => ((),busy)
  busy := id
  sr2 := by
    intro w
    cases w <;> decide
  busy_after := by
    intro e w
    cases e <;> rfl

/-- The second START finds the bus busy with the call's own transaction. -/
theorem writeRead_never_ok_prompt :
    ((writeRead 100 1 0x68 [0x75]).exec prompt.handle ⟨.idle,[0]⟩ false).1.1 =
      .error (.err .busy) := rfl

theorem writeRead_never_ok_witness : prompt.busy false = false ∧
    ((writeRead 100 9 0x68 [0x75]).exec prompt.handle ⟨.idle,[0]⟩ false).1.1 ≠ .ok () :=
  ⟨rfl,writeRead_never_ok prompt 100 9 0x68 [0x75] ⟨.idle,[0]⟩ false rfl⟩

end I2cErrorDetection
end UProtocols
