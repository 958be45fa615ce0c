import UProtocols.ByteBits
import UProtocols.Interaction

/-!
# The multi-master I2C driver

`I2cMultiMaster` of `09.rs`: every method is the sequence of the calls that it makes on the two
lines. A write of SDA also names the part of a transfer that it belongs to, which has no effect on
the lines.
-/

namespace UProtocols
namespace MultiMasterI2c

open Interaction ByteBits

inductive ArbitrationResult
  | won
  | lost
  | inProgress
  deriving DecidableEq

inductive I2cError
  | arbitrationLost
  | nack
  | busBusy
  | timeout
  | maxRetriesExceeded
  deriving DecidableEq

/-- A method ends early with an error, or with an index computation that underflows. -/
inductive Failure
  | err (e : I2cError)
  | panic
  deriving DecidableEq

inductive Place
  | start
  | bit
  | acknowledge
  | read
  | stop
  deriving DecidableEq

/-- The trait `I2cHal`. -/
inductive HalCall
  | sdaWrite (place : Place) (state : Bool)
  | sdaRead
  | sclWrite (state : Bool)
  | sclRead
  | delay
  deriving DecidableEq

abbrev Answer : HalCall → Type
  | .sdaRead | .sclRead => Bool
  | .sdaWrite _ _ | .sclWrite _ | .delay => Unit

structure I2cMultiMaster where
  arbState : ArbitrationResult
  retryCount : ℕ
  maxRetries : ℕ
  isMaster : Bool
  deriving DecidableEq

def I2cMultiMaster.new (maxRetries : ℕ) : I2cMultiMaster where
  arbState := .inProgress
  retryCount := 0
  maxRetries := maxRetries
  isMaster := true

abbrev I2c := Driver HalCall Answer I2cMultiMaster Failure

def sdaWrite (place : Place) (state : Bool) : I2c Unit :=
  Driver.perform (HalCall.sdaWrite place state)

def sdaRead : I2c Bool := Driver.perform HalCall.sdaRead

def sclWrite (state : Bool) : I2c Unit := Driver.perform (HalCall.sclWrite state)

def sclRead : I2c Bool := Driver.perform HalCall.sclRead

def delay : I2c Unit := Driver.perform HalCall.delay

/-- The loop that waits for clock stretching, with the number of polls that are left. -/
def waitForClock : ℕ → I2c Unit
  | 0 => throw (.err .timeout)
  | timeout + 1 => do
    if ← sclRead then pure () else waitForClock timeout

/-- The second half of a bit, once it is on the line. -/
def checkBit (bit actualBit : Bool) : I2c Unit := do
  if bit && !actualBit then
    modify fun self => {self with arbState := .lost, isMaster := false}
    throw (.err .arbitrationLost)
  else
    sclWrite false
    delay

def writeBitWithArbitration (bit : Bool) : I2c Unit := do
  sclWrite true
  delay
  waitForClock 1000
  sdaWrite .bit bit
  delay
  checkBit bit (← sdaRead)

/-- Both lines are read high; SCL is only read when SDA is. -/
def busIdle : I2c Bool := do
  if ← sdaRead then sclRead else pure false

def start : I2c Unit := do
  sdaWrite .start true
  sclWrite true
  delay
  if ← busIdle then
    sdaWrite .start false
    delay
    sclWrite false
    delay
    modify fun self => {self with arbState := .inProgress}
  else throw (.err .busBusy)

/-- The bits of a byte in the order of `(0..8).rev()`. -/
def msbFirst (byte : UInt8) : List Bool := [7,6,5,4,3,2,1,0].map (bit byte)

/-- The loop of `write_byte`. -/
def writeBits : List Bool → I2c Unit
  | [] => pure ()
  | bit::rest => do
    writeBitWithArbitration bit
    writeBits rest

/-- The slot of the acknowledgement. -/
def readAck : I2c Bool := do
  sclWrite true
  sdaWrite .acknowledge true
  delay
  let ack := !(← sdaRead)
  sclWrite false
  delay
  if ack then modify fun self => {self with arbState := .won}
  return ack

def writeByte (byte : UInt8) : I2c Bool := do
  writeBits (msbFirst byte)
  readAck

/-- The loop of `read_byte`. -/
def readBits : ℕ → UInt8 → I2c UInt8
  | 0, byte => pure byte
  | n + 1, byte => do
    sclWrite true
    delay
    let level ← sdaRead
    sclWrite false
    delay
    readBits n (if level then byte <<< 1 ||| 0x01 else byte <<< 1)

def readByte (sendAck : Bool) : I2c UInt8 := do
  sdaWrite .read true
  let byte ← readBits 8 0
  sdaWrite .read !sendAck
  sclWrite true
  delay
  sclWrite false
  delay
  return byte

def stop : I2c Unit := do
  sdaWrite .stop false
  delay
  sclWrite true
  delay
  sdaWrite .stop true
  delay
  modify fun self => {self with isMaster := true}

def refuse {α : Type} : I2c α := do
  stop
  throw (.err .nack)

/-- The loop of `write_internal` over the data. -/
def writeData : List UInt8 → I2c Unit
  | [] => stop
  | byte::rest => do
    if ← writeByte byte then writeData rest else refuse

def writeInternal (addr : UInt8) (data : List UInt8) : I2c Unit := do
  start
  let ack ← writeByte (addr <<< 1 ||| 0)
  if ack then writeData data else refuse

/-- The loop of `read_internal`; the last byte is not acknowledged. -/
def readData : ℕ → I2c (List UInt8)
  | 0 => do
    stop
    return []
  | n + 1 => do
    let byte ← readByte (n != 0)
    return byte :: (← readData n)

/-- The buffer is given by its length; `buffer.len() - 1` underflows for an empty one. -/
def readInternal (addr : UInt8) (length : ℕ) : I2c (List UInt8) := do
  start
  let ack ← writeByte (addr <<< 1 ||| 1)
  if ack then
    if length = 0 then throw .panic else readData length
  else refuse

/-- The loop of both methods with retries, with the number of attempts that are left. -/
def retrying {α : Type} (attempt : I2c α) : ℕ → I2c α
  | 0 => throw (.err .maxRetriesExceeded)
  | n + 1 => do
    match ← Driver.attempt attempt with
    | .ok a => return a
    | .error (.err .arbitrationLost) | .error (.err .busBusy) =>
      modify fun self => {self with retryCount := self.retryCount + 1}
      delay
      retrying attempt n
    | .error e => throw e

def withRetry {α : Type} (attempt : I2c α) : I2c α := do
  modify fun self => {self with retryCount := 0}
  retrying attempt (← get).maxRetries

def writeWithRetry (addr : UInt8) (data : List UInt8) : I2c Unit :=
  withRetry (writeInternal addr data)

def readWithRetry (addr : UInt8) (length : ℕ) : I2c (List UInt8) :=
  withRetry (readInternal addr length)

/-! ## What the master does to SDA -/

/-- The levels that the master drives, what the rest of the bus does to a line at each read, and
the changes of SDA that were made while SCL was released. -/
structure Lines where
  scl : Bool
  sda : Bool
  external : ℕ → Bool
  reads : ℕ
  changes : List (Place × Bool)

/-- A line is high when no one pulls it low. -/
def handle : (e : HalCall) → Lines → Answer e × Lines
  | .sdaWrite place state, w =>
    ((),{w with
      sda := state
      changes := if w.scl && w.sda != state then w.changes ++ [(place,state)] else w.changes})
  | .sdaRead, w => (w.sda && w.external w.reads,{w with reads := w.reads + 1})
  | .sclWrite state, w => ((),{w with scl := state})
  | .sclRead, w => (w.scl && w.external w.reads,{w with reads := w.reads + 1})
  | .delay, w => ((),w)

/-- SDA only falls for a START and rises for a STOP. -/
def Lines.Stable (w : Lines) : Prop :=
  ∀ change ∈ w.changes, change = (.start,false) ∨ change = (.stop,true)

instance (w : Lines) : Decidable w.Stable :=
  inferInstanceAs (Decidable (∀ change ∈ w.changes, _))

theorem stable_nil (scl sda : Bool) (external : ℕ → Bool) (reads : ℕ) :
    (⟨scl,sda,external,reads,[]⟩ : Lines).Stable := by
  simp [Lines.Stable]

theorem changes_handle (e : HalCall) (w : Lines) : w.changes <+: (handle e w).2.changes := by
  cases e with
  | sdaWrite place state =>
    rw [handle]
    split
    · exact List.prefix_append _ _
    · exact List.prefix_rfl
  | sdaRead => exact List.prefix_rfl
  | sclWrite state => exact List.prefix_rfl
  | sclRead => exact List.prefix_rfl
  | delay => exact List.prefix_rfl

theorem changes_run {α : Type} (p : Program HalCall Answer α) (w : Lines) :
    w.changes <+: (p.run handle w).2.changes := by
  induction p generalizing w with
  | done a => exact List.prefix_rfl
  | call e k ih => exact (changes_handle e w).trans (ih _ _)

section Stable

variable {α β : Type} {m : I2c α} {f : α → I2c β} {s : I2cMultiMaster} {w : Lines}

/-- A change at the wrong time is not undone. -/
theorem stable_of_exec (h : (m.exec handle s w).2.Stable) : w.Stable := by
  intro change hchange
  exact h change ((changes_run (m.program s) w).subset hchange)

theorem stable_of_bind (h : ((m >>= f).exec handle s w).2.Stable) :
    (m.exec handle s w).2.Stable := by
  rw [Driver.exec_bind] at h
  split at h
  · rename_i a t v hm
    rw [hm]
    exact stable_of_exec h
  · rename_i e t v hm
    rw [hm]
    exact h

end Stable

/-- The read at which a stretched clock is found released, if it is within `n` polls. -/
def clockReleased (external : ℕ → Bool) : ℕ → ℕ → Option ℕ
  | 0, _ => none
  | n + 1, i => if external i then some (i + 1) else clockReleased external n (i + 1)

/-- The wait for the clock gives up before the first one among these bits is on the line. -/
def stalls (external : ℕ → Bool) : List Bool → ℕ → Bool
  | [], _ => false
  | bit::rest, i =>
    match clockReleased external 1000 i with
    | none => true
    | some j => !bit && stalls external rest (j + 1)

/-- The bus is busy at every attempt, up to one that stalls. -/
def keptOff (external : ℕ → Bool) (bits : List Bool) : ℕ → ℕ → Bool
  | 0, _ => true
  | n + 1, i =>
    if external i then
      if external (i + 1) then stalls external bits (i + 2)
      else keptOff external bits n (i + 2)
    else keptOff external bits n (i + 1)

section Methods

variable (external : ℕ → Bool) (changes : List (Place × Bool))

theorem exec_waitForClock (n i : ℕ) (s : I2cMultiMaster) (sda : Bool) :
    (waitForClock n).exec handle s ⟨true,sda,external,i,changes⟩ =
      match clockReleased external n i with
      | none => ((.error (.err .timeout),s),⟨true,sda,external,i + n,changes⟩)
      | some j => ((.ok (),s),⟨true,sda,external,j,changes⟩) := by
  induction n generalizing i with
  | zero => rfl
  | succ n ih =>
    have hread : sclRead.exec handle s ⟨true,sda,external,i,changes⟩ =
      ((.ok (external i),s),⟨true,sda,external,i + 1,changes⟩) := rfl
    rw [waitForClock,Driver.exec_bind_ok hread,clockReleased]
    cases external i with
    | true => rfl
    | false =>
      rw [if_neg Bool.false_ne_true,if_neg Bool.false_ne_true,ih,Nat.add_assoc,Nat.add_comm 1 n]

variable {external}

/-- A bit begins with the release of SCL. -/
theorem exec_writeBit (bit : Bool) (s : I2cMultiMaster) (sda : Bool) (i : ℕ) :
    (writeBitWithArbitration bit).exec handle s ⟨false,sda,external,i,changes⟩ =
      (do
        waitForClock 1000
        sdaWrite .bit bit
        delay
        checkBit bit (← sdaRead)).exec handle s ⟨true,sda,external,i,changes⟩ := rfl

/-- A bit whose clock is not released in time. -/
theorem exec_writeBit_stalled {i : ℕ} (h : clockReleased external 1000 i = none) (bit : Bool)
    (s : I2cMultiMaster) (sda : Bool) :
    (writeBitWithArbitration bit).exec handle s ⟨false,sda,external,i,changes⟩ =
      ((.error (.err .timeout),s),⟨true,sda,external,i + 1000,changes⟩) := by
  have hclock := exec_waitForClock external changes 1000 i s sda
  rw [h] at hclock
  rw [exec_writeBit,Driver.exec_bind_error hclock]

/-- Before its first one the master leaves SDA low. -/
theorem exec_writeBit_zero {i j : ℕ} (h : clockReleased external 1000 i = some j)
    (s : I2cMultiMaster) :
    (writeBitWithArbitration false).exec handle s ⟨false,false,external,i,changes⟩ =
      ((.ok (),s),⟨false,false,external,j + 1,changes⟩) := by
  have hclock := exec_waitForClock external changes 1000 i s false
  rw [h] at hclock
  rw [exec_writeBit,Driver.exec_bind_ok hclock]
  rfl

theorem not_stable_append (place : Place) (hplace : place ≠ .stop) (scl sda : Bool) (i : ℕ) :
    ¬ (⟨scl,sda,external,i,changes ++ [(place,true)]⟩ : Lines).Stable := by
  intro hstable
  have hlast := hstable (place,true) (List.mem_append_right _ (List.mem_singleton.mpr rfl))
  simp [hplace] at hlast

/-- The first one raises SDA after SCL. -/
theorem not_stable_writeBit_one {i j : ℕ} (h : clockReleased external 1000 i = some j)
    (s : I2cMultiMaster) :
    ¬ ((writeBitWithArbitration true).exec handle s ⟨false,false,external,i,changes⟩).2.Stable := by
  have hclock := exec_waitForClock external changes 1000 i s false
  rw [h] at hclock
  have hwrite : (sdaWrite .bit true).exec handle s ⟨true,false,external,j,changes⟩ =
    ((.ok (),s),⟨true,true,external,j,changes ++ [(.bit,true)]⟩) := rfl
  rw [exec_writeBit,Driver.exec_bind_ok hclock,Driver.exec_bind_ok hwrite]
  intro hstable
  exact not_stable_append changes .bit nofun true true j (stable_of_exec hstable)

/-- So does the slot of the acknowledgement when all bits were zero. -/
theorem not_stable_readAck (s : I2cMultiMaster) (i : ℕ) :
    ¬ (readAck.exec handle s ⟨false,false,external,i,changes⟩).2.Stable := by
  have hclock : (sclWrite true).exec handle s ⟨false,false,external,i,changes⟩ =
    ((.ok (),s),⟨true,false,external,i,changes⟩) := rfl
  have hwrite : (sdaWrite .acknowledge true).exec handle s ⟨true,false,external,i,changes⟩ =
    ((.ok (),s),⟨true,true,external,i,changes ++ [(.acknowledge,true)]⟩) := rfl
  rw [readAck,Driver.exec_bind_ok hclock,Driver.exec_bind_ok hwrite]
  intro hstable
  exact not_stable_append changes .acknowledge nofun true true i (stable_of_exec hstable)

/-- Bits that stall end in a timeout with SDA untouched. -/
theorem exec_writeBits_stalls {bits : List Bool} {i : ℕ} (h : stalls external bits i = true)
    (s : I2cMultiMaster) :
    ∃ v, (writeBits bits).exec handle s ⟨false,false,external,i,changes⟩ =
      ((.error (.err .timeout),s),v) ∧ v.changes = changes := by
  induction bits generalizing i with
  | nil => cases h
  | cons bit rest ih =>
    rw [writeBits]
    cases hclock : clockReleased external 1000 i with
    | none =>
      have hstalled := exec_writeBit_stalled changes hclock bit s false
      exact ⟨_,Driver.exec_bind_error hstalled,rfl⟩
    | some j =>
      simp only [stalls,hclock,Bool.and_eq_true,Bool.not_eq_true'] at h
      rw [h.1,Driver.exec_bind_ok (exec_writeBit_zero changes hclock s)]
      exact ih h.2

/-- Other bits change SDA while SCL is high, or are all zero. -/
theorem writeBits_cases {bits : List Bool} {i : ℕ} (h : stalls external bits i = false)
    (s : I2cMultiMaster) :
    ¬ ((writeBits bits).exec handle s ⟨false,false,external,i,changes⟩).2.Stable ∨
      ∃ j, (writeBits bits).exec handle s ⟨false,false,external,i,changes⟩ =
        ((.ok (),s),⟨false,false,external,j,changes⟩) := by
  induction bits generalizing i with
  | nil => exact .inr ⟨i,rfl⟩
  | cons bit rest ih =>
    rw [writeBits]
    cases hclock : clockReleased external 1000 i with
    | none => simp [stalls,hclock] at h
    | some j =>
      cases bit with
      | false =>
        simp only [stalls,hclock,Bool.not_false,Bool.true_and] at h
        rw [Driver.exec_bind_ok (exec_writeBit_zero changes hclock s)]
        exact ih h
      | true =>
        left
        intro hstable
        exact not_stable_writeBit_one changes hclock s (stable_of_bind hstable)

theorem exec_writeByte_stalls {byte : UInt8} {i : ℕ}
    (h : stalls external (msbFirst byte) i = true) (s : I2cMultiMaster) :
    ∃ v, (writeByte byte).exec handle s ⟨false,false,external,i,changes⟩ =
      ((.error (.err .timeout),s),v) ∧ v.changes = changes := by
  obtain ⟨v,hv,hchanges⟩ := exec_writeBits_stalls changes h s
  exact ⟨v,Driver.exec_bind_error hv,hchanges⟩

theorem not_stable_writeByte {byte : UInt8} {i : ℕ}
    (h : stalls external (msbFirst byte) i = false) (s : I2cMultiMaster) :
    ¬ ((writeByte byte).exec handle s ⟨false,false,external,i,changes⟩).2.Stable := by
  obtain hunstable | ⟨j,hzeros⟩ := writeBits_cases changes h s
  · intro hstable
    exact hunstable (stable_of_bind hstable)
  · rw [writeByte,Driver.exec_bind_ok hzeros]
    exact not_stable_readAck changes s j

/-! ## Attempts -/

/-- Where an attempt can begin without a change of SDA: SCL is not released alone. -/
def Settled (scl sda : Bool) : Prop := scl = true → sda = true

theorem exec_busIdle (i : ℕ) (s : I2cMultiMaster) :
    busIdle.exec handle s ⟨true,true,external,i,changes⟩ =
      if external i then ((.ok (external (i + 1)),s),⟨true,true,external,i + 2,changes⟩)
      else ((.ok false,s),⟨true,true,external,i + 1,changes⟩) := by
  have hread : sdaRead.exec handle s ⟨true,true,external,i,changes⟩ =
    ((.ok (external i),s),⟨true,true,external,i + 1,changes⟩) := rfl
  rw [busIdle,Driver.exec_bind_ok hread]
  cases external i <;> rfl

/-- An attempt begins with a START or finds the bus busy. -/
theorem exec_start {scl sda : Bool} (h : Settled scl sda) (i : ℕ) (s : I2cMultiMaster) :
    start.exec handle s ⟨scl,sda,external,i,changes⟩ =
      if external i then
        if external (i + 1) then
          ((.ok (),{s with arbState := .inProgress}),
            ⟨false,false,external,i + 2,changes ++ [(.start,false)]⟩)
        else ((.error (.err .busBusy),s),⟨true,true,external,i + 2,changes⟩)
      else ((.error (.err .busBusy),s),⟨true,true,external,i + 1,changes⟩) := by
  have hrelease : (sdaWrite .start true).exec handle s ⟨scl,sda,external,i,changes⟩ =
      ((.ok (),s),⟨scl,true,external,i,changes⟩) := by
    cases scl <;> cases sda <;> first | rfl | exact absurd (h rfl) Bool.false_ne_true
  have hclock : (sclWrite true).exec handle s ⟨scl,true,external,i,changes⟩ =
    ((.ok (),s),⟨true,true,external,i,changes⟩) := rfl
  have hdelay : delay.exec handle s ⟨true,true,external,i,changes⟩ =
    ((.ok (),s),⟨true,true,external,i,changes⟩) := rfl
  rw [start,Driver.exec_bind_ok hrelease,Driver.exec_bind_ok hclock,Driver.exec_bind_ok hdelay]
  have hidle := @exec_busIdle external changes i s
  cases hsda : external i with
  | false =>
    rw [hsda,if_neg Bool.false_ne_true] at hidle
    rw [Driver.exec_bind_ok hidle]
    rfl
  | true =>
    rw [hsda,if_pos rfl] at hidle
    rw [Driver.exec_bind_ok hidle]
    cases external (i + 1) <;> rfl

/-- SCL released alone: the first thing that an attempt does is a change of SDA. -/
theorem not_stable_start (i : ℕ) (s : I2cMultiMaster) :
    ¬ (start.exec handle s ⟨true,false,external,i,changes⟩).2.Stable := by
  have hrelease : (sdaWrite .start true).exec handle s ⟨true,false,external,i,changes⟩ =
    ((.ok (),s),⟨true,true,external,i,changes ++ [(.start,true)]⟩) := rfl
  rw [start,Driver.exec_bind_ok hrelease]
  intro hstable
  exact not_stable_append changes .start nofun true true i (stable_of_exec hstable)

end Methods

section Retrying

variable {α : Type} {m : I2c α} {n : ℕ} {s t : I2cMultiMaster} {w v : Lines}

theorem exec_retrying_busy (h : m.exec handle s w = ((.error (.err .busBusy),t),v)) :
    (retrying m (n + 1)).exec handle s w =
      (retrying m n).exec handle {t with retryCount := t.retryCount + 1} v := by
  have hattempt := @Driver.exec_attempt _ _ _ _ _ _ handle m s w
  rw [h] at hattempt
  rw [retrying,Driver.exec_bind_ok hattempt]
  rfl

theorem exec_retrying_timeout (h : m.exec handle s w = ((.error (.err .timeout),t),v)) :
    (retrying m (n + 1)).exec handle s w = ((.error (.err .timeout),t),v) := by
  have hattempt := @Driver.exec_attempt _ _ _ _ _ _ handle m s w
  rw [h] at hattempt
  rw [retrying,Driver.exec_bind_ok hattempt]
  rfl

theorem stable_of_retrying (h : ((retrying m (n + 1)).exec handle s w).2.Stable) :
    (m.exec handle s w).2.Stable := by
  have hattempt := stable_of_bind h
  rw [Driver.exec_attempt] at hattempt
  exact hattempt

end Retrying

/-- Both methods write a byte after the START; whatever they do with its acknowledgement, the
attempts leave SDA alone exactly when they are kept off the bus. -/
theorem retrying_stable_iff {α : Type} (byte : UInt8) (rest : Bool → I2c α)
    {external : ℕ → Bool} (n : ℕ) {i : ℕ} {scl sda : Bool} {changes : List (Place × Bool)}
    (hlines : Settled scl sda) (hchanges : (⟨scl,sda,external,i,changes⟩ : Lines).Stable)
    (s : I2cMultiMaster) :
    ((retrying (start >>= fun _ => writeByte byte >>= rest) n).exec handle s
      ⟨scl,sda,external,i,changes⟩).2.Stable ↔ keptOff external (msbFirst byte) n i = true := by
  induction n generalizing i scl sda s with
  | zero => exact iff_of_true hchanges rfl
  | succ n ih =>
    have hstart := @exec_start external changes scl sda hlines i s
    rw [keptOff]
    cases hsda : external i with
    | false =>
      rw [hsda,if_neg Bool.false_ne_true] at hstart
      rw [exec_retrying_busy (Driver.exec_bind_error hstart),if_neg Bool.false_ne_true]
      exact ih (fun _ => rfl) hchanges _
    | true =>
      rw [hsda,if_pos rfl] at hstart
      rw [if_pos rfl]
      cases hscl : external (i + 1) with
      | false =>
        rw [hscl,if_neg Bool.false_ne_true] at hstart
        rw [exec_retrying_busy (Driver.exec_bind_error hstart),if_neg Bool.false_ne_true]
        exact ih (fun _ => rfl) hchanges _
      | true =>
        rw [hscl,if_pos rfl] at hstart
        rw [if_pos rfl]
        cases hstalls : stalls external (msbFirst byte) (i + 2) with
        | true =>
          -- the address is not on the bus when the wait for the clock gives up
          obtain ⟨v,hv,hv_changes⟩ := exec_writeByte_stalls (changes ++ [(.start,false)]) hstalls
            {s with arbState := .inProgress}
          have hattempt := (Driver.exec_bind_ok (f := fun _ => writeByte byte >>= rest)
            hstart).trans (Driver.exec_bind_error hv)
          rw [exec_retrying_timeout hattempt]
          refine iff_of_true ?_ rfl
          intro change hchange
          rw [hv_changes,List.mem_append,List.mem_singleton] at hchange
          exact hchange.elim (hchanges change) .inl
        | false =>
          refine iff_of_false ?_ Bool.false_ne_true
          intro hstable
          have hattempt := stable_of_retrying hstable
          rw [Driver.exec_bind_ok hstart] at hattempt
          exact not_stable_writeByte _ hstalls _ (stable_of_bind hattempt)

theorem withRetry_stable_iff {α : Type} (byte : UInt8) (rest : Bool → I2c α) (scl sda : Bool)
    (external : ℕ → Bool) (s : I2cMultiMaster) :
    ((withRetry (start >>= fun _ => writeByte byte >>= rest)).exec handle s
      ⟨scl,sda,external,0,[]⟩).2.Stable ↔
      s.maxRetries = 0 ∨
        Settled scl sda ∧ keptOff external (msbFirst byte) s.maxRetries 0 = true := by
  have hloop : (withRetry (start >>= fun _ => writeByte byte >>= rest)).exec handle s
      ⟨scl,sda,external,0,[]⟩ =
    (retrying (start >>= fun _ => writeByte byte >>= rest) s.maxRetries).exec handle
      {s with retryCount := 0} ⟨scl,sda,external,0,[]⟩ := rfl
  rw [hloop]
  by_cases hlines : Settled scl sda
  · rw [retrying_stable_iff byte rest _ hlines (stable_nil scl sda external 0)]
    constructor
    · intro h
      exact .inr ⟨hlines,h⟩
    · intro h
      obtain hnone | h := h
      · rw [hnone]
        rfl
      · exact h.2
  · have hlow : scl = true ∧ sda = false := by
      cases scl <;> cases sda <;> simp_all [Settled]
    obtain ⟨rfl,rfl⟩ := hlow
    cases s.maxRetries with
    | zero => exact iff_of_true (stable_nil true false external 0) (.inl rfl)
    | succ n =>
      refine iff_of_false ?_ (by simp [hlines])
      intro hstable
      exact not_stable_start [] 0 _ (stable_of_bind (stable_of_retrying hstable))

/-- A call of either method changes SDA under a released SCL only for its START and STOP exactly
when it makes no attempt at all, or when it finds the lines settled and all its attempts are kept
off the bus: busy, up to one whose clock is stretched too long before the first one of the address
byte (or all its zeros) could be written. -/
theorem dataStable_iff (s : I2cMultiMaster) (scl sda : Bool) (external : ℕ → Bool) (addr : UInt8)
    (data : List UInt8) (length : ℕ) :
    (((writeWithRetry addr data).exec handle s ⟨scl,sda,external,0,[]⟩).2.Stable ↔
      s.maxRetries = 0 ∨
        Settled scl sda ∧ keptOff external (msbFirst (addr <<< 1 ||| 0)) s.maxRetries 0 = true) ∧
    (((readWithRetry addr length).exec handle s ⟨scl,sda,external,0,[]⟩).2.Stable ↔
      s.maxRetries = 0 ∨
        Settled scl sda ∧ keptOff external (msbFirst (addr <<< 1 ||| 1)) s.maxRetries 0 = true) :=
  ⟨withRetry_stable_iff _ _ scl sda external s,withRetry_stable_iff _ _ scl sda external s⟩

/-- On a free bus the address alone changes SDA four times under a released SCL, and the slot of
its acknowledgement once more. -/
theorem dataStable_lost :
    let w := ((writeWithRetry 0x50 []).exec handle (.new 3) ⟨true,true,fun _ => true,0,[]⟩).2
    ¬ w.Stable ∧
      w.changes = [(.start,false),(.bit,true),(.bit,false),(.bit,true),(.bit,false),
        (.acknowledge,true),(.stop,true)] := by
  decide +kernel

end MultiMasterI2c
end UProtocols
