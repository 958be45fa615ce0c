import UProtocols.SpiTimeout

/-!
# The non-blocking transfer

The state machine `NonBlockingSpi` of `spi_timeout_management.rs`. A poll is given the reading of
the clock, the flags it finds and the byte that a read of the peripheral returns.
-/

namespace UProtocols
namespace SpiTimeout

inductive TransferState
  | idle
  | waitingTxEmpty
  | transmitting
  | waitingRxData
  | complete
  | timedOut
  deriving DecidableEq

structure NonBlockingSpi where
  state : TransferState
  startTime : ℕ
  timeoutMs : ℕ
  currentIndex : ℕ
  deriving DecidableEq

/-- Accesses to the data register. -/
inductive Access
  | write (data : UInt8)
  | read (data : UInt8)
  deriving DecidableEq

def Access.written : Access → Option UInt8
  | write data => some data
  | read _ => none

def Access.received : Access → Option UInt8
  | write _ => none
  | read data => some data

/-- What the hardware shows to a poll. -/
structure Sight where
  now : ℕ
  status : StatusFlags
  incoming : UInt8
  deriving DecidableEq

/-- The driver after a poll, the receive buffer, the accesses made and the result. -/
structure Polled where
  spi : NonBlockingSpi
  rxData : List UInt8
  accesses : List Access
  result : Except SpiError Bool

namespace NonBlockingSpi

def new (timeoutMs : ℕ) : NonBlockingSpi where
  state := .idle
  startTime := 0
  timeoutMs := timeoutMs
  currentIndex := 0

/-- The length is not used. -/
def startTransfer (now _txLen : ℕ) (s : NonBlockingSpi) : NonBlockingSpi × Except SpiError Unit :=
  if s.state ≠ .idle then (s,.error .busy)
  else ({s with state := .waitingTxEmpty, startTime := now, currentIndex := 0},.ok ())

def poll (sight : Sight) (txData rxData : List UInt8) (s : NonBlockingSpi) : Polled :=
  if s.timeoutMs ≤ sight.now - s.startTime then
    ⟨{s with state := .timedOut},rxData,[],.error .timeout⟩
  else match s.state with
  | .idle => ⟨s,rxData,[],.ok true⟩
  | .waitingTxEmpty =>
    if sight.status.txe then
      match txData[s.currentIndex]? with
      | some data => ⟨{s with state := .waitingRxData},rxData,[.write data],.ok false⟩
      | none => ⟨s,rxData,[],.ok false⟩
    else ⟨s,rxData,[],.ok false⟩
  | .waitingRxData =>
    if sight.status.rxne then
      if s.currentIndex < rxData.length then
        let rxData := rxData.set s.currentIndex sight.incoming
        let s := {s with currentIndex := s.currentIndex + 1}
        if txData.length ≤ s.currentIndex then
          ⟨{s with state := .complete},rxData,[.read sight.incoming],.ok true⟩
        else ⟨{s with state := .waitingTxEmpty},rxData,[.read sight.incoming],.ok false⟩
      else ⟨s,rxData,[],.ok false⟩
    else ⟨s,rxData,[],.ok false⟩
  | .complete => ⟨s,rxData,[],.ok true⟩
  | .timedOut => ⟨s,rxData,[],.ok true⟩
  | .transmitting => ⟨s,rxData,[],.ok false⟩

def isComplete (s : NonBlockingSpi) : Bool :=
  s.state = .complete

def reset (s : NonBlockingSpi) : NonBlockingSpi :=
  {s with state := .idle, currentIndex := 0}

end NonBlockingSpi

/-! ## Later polls -/

/-- A call of `poll`. -/
structure PollCall where
  sight : Sight
  txData : List UInt8
  rxData : List UInt8
  deriving DecidableEq

inductive Call
  | startTransfer (now txLen : ℕ)
  | poll (call : PollCall)
  | reset
  deriving DecidableEq

namespace NonBlockingSpi

def afterPoll (s : NonBlockingSpi) (call : PollCall) : NonBlockingSpi :=
  (s.poll call.sight call.txData call.rxData).spi

def afterCall (s : NonBlockingSpi) : Call → NonBlockingSpi
  | .startTransfer now txLen => (s.startTransfer now txLen).1
  | .poll call => s.afterPoll call
  | .reset => s.reset

/-- A poll comes before the timeout, counted from the last start. -/
def InTime (s : NonBlockingSpi) (call : PollCall) : Prop :=
  call.sight.now - s.startTime < s.timeoutMs

instance (s : NonBlockingSpi) (call : PollCall) : Decidable (s.InTime call) :=
  inferInstanceAs (Decidable (_ < _))

/-- Complete, or idle so that a transfer can be started. -/
def StaysAs (s t : NonBlockingSpi) : Prop :=
  (s.state = .complete → t.isComplete = true) ∧
  (s.state = .idle → t.state = .idle ∧ ∀ now txLen, (t.startTransfer now txLen).2 = .ok ())

theorem staysAs_iff {s t : NonBlockingSpi} (h : s.state = .complete ∨ s.state = .idle) :
    StaysAs s t ↔ t.state = s.state := by
  obtain h | h := h
  · simp [StaysAs,h,isComplete]
  · simp +contextual [StaysAs,h,startTransfer]

theorem afterPoll_of_inTime {s : NonBlockingSpi} {call : PollCall}
    (h : s.state = .complete ∨ s.state = .idle) (htime : s.InTime call) :
    s.afterPoll call = s := by
  have htimeout : ¬ s.timeoutMs ≤ call.sight.now - s.startTime := Nat.not_le.mpr htime
  obtain h | h := h <;> simp [afterPoll,poll,htimeout,h]

theorem afterPoll_of_not_inTime {s : NonBlockingSpi} {call : PollCall} (htime : ¬ s.InTime call) :
    (s.afterPoll call).state = .timedOut := by
  have htimeout : s.timeoutMs ≤ call.sight.now - s.startTime := Nat.not_lt.mp htime
  simp [afterPoll,poll,htimeout]

/-- The first late poll is the end of a finished or idle transfer. -/
theorem polls_state_iff {s : NonBlockingSpi} (h : s.state = .complete ∨ s.state = .idle)
    (calls : List PollCall) :
    (∀ earlier, earlier <+: calls → (earlier.foldl afterPoll s).state = s.state) ↔
      ∀ call ∈ calls, s.InTime call := by
  induction calls with
  | nil => simp
  | cons call rest ih =>
    rw [List.forall_mem_cons]
    constructor
    · intro hall
      have hfirst : s.InTime call := by
        by_cases htime : s.InTime call
        · exact htime
        · -- one call later the state is the one of a timeout
          have hlate := hall [call] ⟨rest,rfl⟩
          simp only [List.foldl_cons,List.foldl_nil,afterPoll_of_not_inTime htime] at hlate
          simp [← hlate] at h
      refine ⟨hfirst,ih.mp fun earlier hearlier => ?_⟩
      have hnext := hall (call::earlier) ((List.prefix_cons_inj call).mpr hearlier)
      rwa [List.foldl_cons,afterPoll_of_inTime h hfirst] at hnext
    · intro hall earlier hearlier
      cases earlier with
      | nil => rfl
      | cons call' earlier =>
        obtain ⟨rfl,hrest⟩ := List.cons_prefix_cons.mp hearlier
        rw [List.foldl_cons,afterPoll_of_inTime h hall.1]
        exact ih.mpr hall.2 earlier hrest

end NonBlockingSpi

open NonBlockingSpi in
/-- Whatever calls led to a complete or idle driver, later polls leave it so exactly when each of
them comes before the timeout, counted from the start time that is in the state. -/
theorem finished_stays_iff (timeoutMs : ℕ) (calls : List Call) (polls : List PollCall)
    (h : (calls.foldl afterCall (new timeoutMs)).state = .complete ∨
      (calls.foldl afterCall (new timeoutMs)).state = .idle) :
    (∀ earlier, earlier <+: polls →
      StaysAs (calls.foldl afterCall (new timeoutMs))
        (earlier.foldl afterPoll (calls.foldl afterCall (new timeoutMs)))) ↔
      ∀ call ∈ polls, (calls.foldl afterCall (new timeoutMs)).InTime call := by
  rw [← polls_state_iff h]
  exact forall_congr' fun earlier => imp_congr_right fun _ => staysAs_iff h

/-- A transfer of one byte that was started at time 5 and polled twice. -/
theorem finished_stays_iff_completed :
    let sight : Sight := ⟨6,⟨true,true,false⟩,0x42⟩
    let calls : List Call := [.startTransfer 5 1,.poll ⟨sight,[1],[0]⟩,.poll ⟨sight,[1],[0]⟩]
    let polls : List PollCall := [⟨⟨104,⟨true,true,false⟩,0⟩,[1],[0x42]⟩]
    ∀ earlier, earlier <+: polls →
      (calls.foldl NonBlockingSpi.afterCall (.new 100)).StaysAs
        (earlier.foldl NonBlockingSpi.afterPoll
          (calls.foldl NonBlockingSpi.afterCall (.new 100))) := by
  intro sight calls polls
  refine (finished_stays_iff 100 calls polls (.inl rfl)).mpr ?_
  intro call hcall
  rw [List.mem_singleton.mp hcall]
  decide

/-- The start time of a driver that never started a transfer is zero. -/
theorem idle_times_out :
    let s := (NonBlockingSpi.new 100).afterPoll ⟨⟨100,⟨true,false,false⟩,0⟩,[],[]⟩
    (NonBlockingSpi.new 100).state = .idle ∧ s.state = .timedOut ∧
      (s.startTransfer 101 1).2.toBool = false := by
  decide

/-! ## A whole transfer -/

/-- The driver, the receive buffer and the accesses since the start. -/
structure Transfer where
  spi : NonBlockingSpi
  rxData : List UInt8
  accesses : List Access
  deriving DecidableEq

def Transfer.poll (txData : List UInt8) (t : Transfer) (sight : Sight) : Transfer :=
  let polled := t.spi.poll sight txData t.rxData
  ⟨polled.spi,polled.rxData,t.accesses ++ polled.accesses⟩

/-- Bytes written and read in turn. -/
def exchanged (txData rxData : List UInt8) : List Access :=
  (txData.zip rxData).flatMap fun bytes => [.write bytes.1,.read bytes.2]

/-- How far a transfer has come in the accesses and the receive buffer. -/
structure Progress (txData : List UInt8) (t : Transfer) : Prop where
  fits : txData.length ≤ t.rxData.length
  accesses_eq : match t.spi.state with
    | .waitingTxEmpty => t.spi.currentIndex < txData.length ∧
        t.accesses = exchanged (txData.take t.spi.currentIndex) t.rxData
    | .waitingRxData => ∃ data, txData[t.spi.currentIndex]? = some data ∧
        t.accesses = exchanged (txData.take t.spi.currentIndex) t.rxData ++ [.write data]
    | .complete => t.accesses = exchanged txData t.rxData
    | .timedOut => True
    | .idle => False
    | .transmitting => False

theorem exchanged_cons (data byte : UInt8) (txData rxData : List UInt8) :
    exchanged (data::txData) (byte::rxData) =
      .write data :: .read byte :: exchanged txData rxData := rfl

/-- A byte that is stored behind those already exchanged comes after them. -/
theorem exchanged_take_succ {txData rxData : List UInt8} {i : ℕ} {data : UInt8}
    (hdata : txData[i]? = some data) (hi : i < rxData.length) (incoming : UInt8) :
    exchanged (txData.take (i + 1)) (rxData.set i incoming) =
      exchanged (txData.take i) rxData ++ [.write data,.read incoming] := by
  induction i generalizing txData rxData with
  | zero =>
    cases txData with
    | nil => cases hdata
    | cons first txData =>
      cases rxData with
      | nil => cases hi
      | cons byte rxData =>
        cases hdata
        rfl
  | succ i ih =>
    cases txData with
    | nil => cases hdata
    | cons first txData =>
      cases rxData with
      | nil => cases hi
      | cons byte rxData =>
        rw [List.take_succ_cons,List.set_cons_succ,exchanged_cons,List.take_succ_cons,
          exchanged_cons,ih (by simpa using hdata) (by simpa using hi)]
        rfl

theorem written_exchanged {txData rxData : List UInt8} (h : txData.length ≤ rxData.length) :
    (exchanged txData rxData).filterMap Access.written = txData := by
  induction txData generalizing rxData with
  | nil => rfl
  | cons data txData ih =>
    cases rxData with
    | nil => cases h
    | cons byte rxData =>
      rw [exchanged_cons]
      exact congrArg (data :: ·) (ih (Nat.le_of_succ_le_succ h))

theorem received_exchanged (txData rxData : List UInt8) :
    (exchanged txData rxData).filterMap Access.received = rxData.take txData.length := by
  induction txData generalizing rxData with
  | nil => rfl
  | cons data txData ih =>
    cases rxData with
    | nil => rfl
    | cons byte rxData =>
      rw [exchanged_cons]
      exact congrArg (byte :: ·) (ih rxData)

theorem Progress.poll {txData : List UInt8} {t : Transfer} (h : Progress txData t)
    (sight : Sight) : Progress txData (t.poll txData sight) := by
  obtain ⟨⟨state,startTime,timeoutMs,i⟩,rxData,accesses⟩ := t
  have hfits := h.fits
  have haccesses := h.accesses_eq
  simp only [Transfer.poll,NonBlockingSpi.poll]
  split
  · exact ⟨hfits,trivial⟩
  cases state with
  | idle => exact haccesses.elim
  | transmitting => exact haccesses.elim
  | timedOut => exact ⟨hfits,trivial⟩
  | complete => exact ⟨hfits,by simpa using haccesses⟩
  | waitingTxEmpty =>
    simp only at haccesses ⊢
    split
    · rw [List.getElem?_eq_getElem haccesses.1]
      refine ⟨hfits,txData[i],List.getElem?_eq_getElem haccesses.1,?_⟩
      simpa using haccesses.2
    · exact ⟨hfits,by simpa using haccesses⟩
  | waitingRxData =>
    simp only at haccesses ⊢
    obtain ⟨data,hdata,haccesses⟩ := haccesses
    have hi : i < txData.length := (List.getElem?_eq_some_iff.mp hdata).1
    have hnext := exchanged_take_succ hdata (Nat.lt_of_lt_of_le hi hfits) sight.incoming
    split
    · rw [if_pos (Nat.lt_of_lt_of_le hi hfits)]
      have hlogged : accesses ++ [.read sight.incoming] =
          exchanged (txData.take (i + 1)) (rxData.set i sight.incoming) := by
        rw [hnext,haccesses]
        simp
      split
      · -- this was the last byte
        rename_i hlast
        rw [List.take_of_length_le hlast] at hlogged
        exact ⟨by simpa using hfits,hlogged⟩
      · rename_i hmore
        exact ⟨by simpa using hfits,Nat.lt_of_not_le hmore,hlogged⟩
    · exact ⟨hfits,data,hdata,by simpa using haccesses⟩

/-- Whichever polls find the hardware not ready, a transfer that completes has written the bytes
of `txData` in order and has read one byte after each of them, which are in the receive buffer. -/
theorem transfer_completes (s : NonBlockingSpi) (now txLen : ℕ) {started : NonBlockingSpi}
    (hstart : s.startTransfer now txLen = (started,.ok ())) {txData rxData : List UInt8}
    (htx : txData ≠ []) (hfits : txData.length ≤ rxData.length) (polls : List Sight)
    (hdone : (polls.foldl (Transfer.poll txData) ⟨started,rxData,[]⟩).spi.isComplete = true) :
    let t := polls.foldl (Transfer.poll txData) ⟨started,rxData,[]⟩
    t.accesses.filterMap Access.written = txData ∧
    t.accesses.filterMap Access.received = t.rxData.take txData.length ∧
    t.accesses = exchanged txData t.rxData := by
  have hprogress : Progress txData ⟨started,rxData,[]⟩ := by
    simp only [NonBlockingSpi.startTransfer] at hstart
    split at hstart
    · cases hstart
    · cases hstart
      exact ⟨hfits,List.length_pos_iff.mpr htx,rfl⟩
  have hrun : Progress txData (polls.foldl (Transfer.poll txData) ⟨started,rxData,[]⟩) := by
    refine List.foldlRecOn polls (Transfer.poll txData) hprogress ?_
    intro t ht sight _
    exact ht.poll sight
  intro t
  have haccesses := hrun.accesses_eq
  rw [of_decide_eq_true hdone] at haccesses
  have hall : t.accesses = exchanged txData t.rxData := haccesses
  rw [hall]
  exact ⟨written_exchanged hrun.fits,received_exchanged txData t.rxData,rfl⟩

/-- Two bytes, with polls that find the hardware not ready in between. -/
theorem transfer_completes_slowly :
    let ready : StatusFlags := ⟨true,true,false⟩
    let busy : StatusFlags := ⟨false,false,true⟩
    let polls : List Sight := [⟨0,busy,0⟩,⟨1,ready,0⟩,⟨2,busy,0⟩,⟨3,ready,7⟩,⟨3,ready,0⟩,
      ⟨4,ready,8⟩]
    let t := polls.foldl (Transfer.poll [1,2]) ⟨((NonBlockingSpi.new 100).startTransfer 0 2).1,
      [0,0,0],[]⟩
    t.accesses.filterMap Access.written = [1,2] ∧
      t.accesses.filterMap Access.received = t.rxData.take 2 ∧
      t.accesses = exchanged [1,2] t.rxData := by
  intro ready busy polls
  exact transfer_completes (.new 100) 0 2 rfl (by decide) (by decide) polls (by decide)

end SpiTimeout
end UProtocols
