import Mathlib.Algebra.GroupWithZero.Nat
import Mathlib.Logic.Function.Iterate

/-!
# SPI with timeouts

`SpiDriver` and `SpiFlash` of `spi_timeout_management.rs`, on a peripheral with a receive register
for one byte: each byte that is written clocks one in, some polls later, which is lost while the
register is full. What the polls of the other status flags find is a list; a call that has not
returned when it is used up has no result. The clock is any sequence of readings.
-/

namespace UProtocols
namespace SpiTimeout

inductive SpiError
  | timeout
  | busy
  | hardware
  | invalidParameter
  | transferIncomplete
  deriving DecidableEq

structure StatusFlags where
  txe : Bool
  rxne : Bool
  bsy : Bool
  deriving DecidableEq

structure TimeoutConfig where
  totalTimeoutMs : ℕ
  byteTimeoutMs : ℕ
  deriving DecidableEq

/-- The receive register, and the bytes that are being clocked in with the polls that each of them
takes after the one before it. -/
structure Receiver where
  register : Option UInt8
  shifting : List (UInt8 × ℕ)
  deriving DecidableEq

/-- What has been clocked in at a poll. A byte that finds the register full is discarded. -/
def clockInto : Option UInt8 → List (UInt8 × ℕ) → Receiver
  | register,[] => ⟨register,[]⟩
  | register,(byte,0)::rest => clockInto (some (register.getD byte)) rest
  | register,(byte,left + 1)::rest => ⟨register,(byte,left)::rest⟩

def Receiver.clockIn (r : Receiver) : Receiver := clockInto r.register r.shifting

/-- A byte that is written is clocked in after the others. -/
def Receiver.send (r : Receiver) (byte : UInt8) (delay : ℕ) : Receiver :=
  {r with shifting := r.shifting ++ [(byte,delay)]}

/-- What was written, the receiver, the polls that the answer to each byte takes, `txe` at the next
polls and whether they find the peripheral busy anyway, and the readings of the clock with the
number of those already made. -/
structure Peripheral where
  written : List UInt8
  receiver : Receiver
  delays : ℕ → ℕ
  polls : List (Bool × Bool)
  clock : ℕ → ℕ
  readings : ℕ

/-- Methods that may fail, and may not have returned yet. -/
abbrev Spi := ExceptT SpiError (StateT Peripheral Option)

def now : Spi ℕ := do
  let p ← get
  set {p with readings := p.readings + 1}
  return p.clock p.readings

/-- `elapsed_ms`, which saturates. -/
def elapsedMs (start : ℕ) : Spi ℕ := do
  return (← now) - start

/-- The byte that the slave shifts out may depend on all bytes before it. -/
def Peripheral.write (reply : List UInt8 → UInt8) (data : UInt8) (p : Peripheral) : Peripheral :=
  {p with
    receiver := p.receiver.send (reply p.written) (p.delays p.written.length)
    written := p.written ++ [data]}

def writeData (reply : List UInt8 → UInt8) (data : UInt8) : Spi Unit :=
  modify (Peripheral.write reply data)

/-- An empty register reads as zero. -/
def readData : Spi UInt8 := do
  let p ← get
  set {p with receiver.register := none}
  return p.receiver.register.getD 0

/-- `status`: the peripheral is busy as long as a byte is being clocked in. -/
def status (txe bsy : Bool) (rest : List (Bool × Bool)) : Spi StatusFlags := do
  let p ← get
  let receiver := p.receiver.clockIn
  set {p with receiver := receiver, polls := rest}
  return ⟨txe,receiver.register.isSome,bsy || !receiver.shifting.isEmpty⟩

/-- The loop of `wait_for_flag`, over what the polls find. -/
def waitLoop (check : StatusFlags → Bool) (timeoutMs start : ℕ) : List (Bool × Bool) → Spi Unit
  | [] => fun _ => none
  | (txe,bsy)::rest => do
    if check (← status txe bsy rest) then return ()
    if timeoutMs ≤ (← elapsedMs start) then throw .timeout
    waitLoop check timeoutMs start rest

def waitForFlag (check : StatusFlags → Bool) (timeoutMs : ℕ) : Spi Unit := do
  let start ← now
  waitLoop check timeoutMs start (← get).polls

section Driver

variable (config : TimeoutConfig) (reply : List UInt8 → UInt8)

def transmitByte (data : UInt8) : Spi Unit := do
  waitForFlag StatusFlags.txe config.byteTimeoutMs
  writeData reply data
  waitForFlag (fun s => !s.bsy) config.byteTimeoutMs

/-- A byte for a byte, as `receive_byte` and the loop of `transfer` have it. -/
def exchangeByte (data : UInt8) : Spi UInt8 := do
  waitForFlag StatusFlags.txe config.byteTimeoutMs
  writeData reply data
  waitForFlag StatusFlags.rxne config.byteTimeoutMs
  readData

def receiveByte : Spi UInt8 := exchangeByte config reply 0xFF

/-- The loop of `transmit`. -/
def transmitBytes (start : ℕ) : List UInt8 → Spi Unit
  | [] => return ()
  | byte::rest => do
    if config.totalTimeoutMs ≤ (← elapsedMs start) then throw .timeout
    transmitByte config reply byte
    transmitBytes start rest

def transmit (data : List UInt8) : Spi Unit := do
  if data.isEmpty then throw .invalidParameter
  transmitBytes config reply (← now) data

def flashCmdRead : UInt8 := 0x03

def readCommand (address : UInt32) : List UInt8 :=
  [flashCmdRead,((address >>> 16) &&& 0xFF).toUInt8,((address >>> 8) &&& 0xFF).toUInt8,
    (address &&& 0xFF).toUInt8]

/-- The loop of `SpiFlash::read`: the bytes for a buffer. -/
def receiveBytes : ℕ → Spi (List UInt8)
  | 0 => return []
  | n + 1 => do
    let byte ← receiveByte config reply
    return byte :: (← receiveBytes n)

/-- `SpiFlash::read` into a buffer of the given length. -/
def read (address : UInt32) (length : ℕ) : Spi (List UInt8) := do
  transmit config reply (readCommand address)
  receiveBytes config reply length

end Driver

/-! ## Calls that return -/

/-- A call returns, with or without an error. -/
def Ends {α : Type} (m : Spi α) (p : Peripheral) (result : Except SpiError α) (q : Peripheral) :
    Prop := m p = some (result,q)

/-- A call returns `a`. -/
def Returns {α : Type} (m : Spi α) (p : Peripheral) (a : α) (q : Peripheral) : Prop :=
  Ends m p (.ok a) q

section Primitives

variable {α β : Type} {m : Spi α} {f : α → Spi β} {p q : Peripheral}

theorem ends_bind {result : Except SpiError β} : Ends (m >>= f) p result q ↔
    (∃ a v, Returns m p a v ∧ Ends (f a) v result q) ∨
      ∃ e, Ends m p (.error e) q ∧ result = .error e := by
  have hbind : (m >>= f) p = (m p).bind fun answer => match answer with
      | (.ok a,v) => f a v
      | (.error e,v) => some (.error e,v) := by
    refine congrArg (Option.bind (m p)) ?_
    funext answer
    obtain ⟨answer,v⟩ := answer
    cases answer <;> rfl
  simp only [Returns,Ends,hbind,Option.bind_eq_some_iff]
  constructor
  · rintro ⟨⟨a | e,v⟩,hm,hrest⟩
    · cases hrest
      exact .inr ⟨_,hm,rfl⟩
    · exact .inl ⟨_,v,hm,hrest⟩
  · rintro (⟨a,v,hm,hf⟩ | ⟨e,hm,rfl⟩)
    · exact ⟨(.ok a,v),hm,hf⟩
    · exact ⟨(.error e,q),hm,rfl⟩

theorem returns_bind {b : β} :
    Returns (m >>= f) p b q ↔ ∃ a v, Returns m p a v ∧ Returns (f a) v b q := by
  refine ends_bind.trans (or_iff_left ?_)
  rintro ⟨e,-,he⟩
  cases he

theorem ends_pure {a : α} {result : Except SpiError α} :
    Ends (pure a) p result q ↔ result = .ok a ∧ q = p := by
  constructor
  · intro h
    cases h
    exact ⟨rfl,rfl⟩
  · rintro ⟨rfl,rfl⟩
    rfl

theorem returns_pure {a b : α} : Returns (pure a) p b q ↔ a = b ∧ p = q := by
  constructor
  · intro h
    cases h
    exact ⟨rfl,rfl⟩
  · rintro ⟨rfl,rfl⟩
    rfl

theorem returns_get {r : Peripheral} : Returns get p r q ↔ p = r ∧ p = q := returns_pure (a := p)

theorem ends_throw {e : SpiError} {result : Except SpiError α} :
    Ends (throw e) p result q ↔ result = .error e ∧ q = p := by
  constructor
  · intro h
    cases h
    exact ⟨rfl,rfl⟩
  · rintro ⟨rfl,rfl⟩
    rfl

theorem not_returns_throw {e : SpiError} {a : α} : ¬ Returns (throw e) p a q := nofun

theorem returns_ite {c : Prop} [Decidable c] {m n : Spi α} {a : α} :
    Returns (if c then m else n) p a q ↔ if c then Returns m p a q else Returns n p a q := by
  split <;> exact Iff.rfl

end Primitives

/-! ## The receiver -/

namespace Receiver

/-- The receiver once the first of its bytes has arrived. -/
def front : Receiver → Receiver
  | ⟨some byte,rest⟩ => ⟨some byte,rest⟩
  | ⟨none,[]⟩ => ⟨none,[]⟩
  | ⟨none,(byte,_)::rest⟩ => ⟨some byte,rest⟩

/-- The polls that the bytes in it still take. -/
def countdown (r : Receiver) : ℕ := (r.shifting.map Prod.snd).sum

theorem clockInto_some (byte : UInt8) (shifting : List (UInt8 × ℕ)) :
    (clockInto (some byte) shifting).register = some byte := by
  induction shifting with
  | nil => rfl
  | cons head rest ih =>
    obtain ⟨_,_ | left⟩ := head
    · exact ih
    · rfl

theorem front_of_some {r : Receiver} {byte : UInt8} (h : r.register = some byte) : r.front = r := by
  obtain ⟨register,shifting⟩ := r
  cases h
  rfl

theorem front_of_nil {r : Receiver} (h : r.shifting = []) : r.front = r := by
  obtain ⟨_ | _,shifting⟩ := r
  all_goals
    cases h
    rfl

/-- A full register stays as it is until it is read, so its byte is decided when it is sent. -/
theorem front_register_clockIn (r : Receiver) : r.clockIn.front.register = r.front.register := by
  obtain ⟨_ | byte,shifting⟩ := r
  · obtain _ | ⟨⟨byte,_ | left⟩,rest⟩ := shifting
    · rfl
    · have hsome := clockInto_some byte rest
      exact (congrArg register (front_of_some hsome)).trans hsome
    · rfl
  · have hsome := clockInto_some byte shifting
    exact (congrArg register (front_of_some hsome)).trans hsome

/-- Nothing is discarded behind a single byte. -/
theorem front_clockIn {r : Receiver} (h : r.front.shifting = []) : r.clockIn.front = r.front := by
  obtain ⟨_ | byte,shifting⟩ := r
  · obtain _ | ⟨⟨byte,_ | left⟩,rest⟩ := shifting
    · rfl
    · cases h
      rfl
    · rfl
  · cases h
    rfl

theorem front_clockIn_of_none {r : Receiver} (h : r.clockIn.register = none) :
    r.clockIn.front = r.front := by
  obtain ⟨_ | byte,shifting⟩ := r
  · obtain _ | ⟨⟨byte,_ | left⟩,rest⟩ := shifting
    · rfl
    · cases (clockInto_some byte rest).symm.trans h
    · rfl
  · cases (clockInto_some byte shifting).symm.trans h

theorem clockIn_of_some {r : Receiver} {byte : UInt8} (h : r.clockIn.register = some byte) :
    r.clockIn = r.front.clockIn := by
  obtain ⟨_ | _,_ | ⟨⟨_,_ | left⟩,rest⟩⟩ := r
  all_goals first | rfl | cases h

/-- The first poll that finds the register full. -/
theorem iterate_clockIn {k : ℕ} {r : Receiver}
    (hnone : ∀ j < k, (clockIn^[j + 1] r).register = none)
    (hsome : (clockIn^[k + 1] r).register ≠ none) : clockIn^[k + 1] r = r.front.clockIn := by
  induction k generalizing r with
  | zero =>
    obtain ⟨byte,hbyte⟩ := Option.ne_none_iff_exists'.mp hsome
    exact clockIn_of_some hbyte
  | succ k ih =>
    have hfirst := hnone 0 (Nat.succ_pos k)
    rw [← front_clockIn_of_none hfirst]
    exact ih (fun j hj => hnone (j + 1) (Nat.succ_lt_succ hj)) hsome

theorem front_register_send (r : Receiver) (byte : UInt8) (delay : ℕ) :
    (r.send byte delay).front.register = some (r.front.register.getD byte) := by
  obtain ⟨_ | _,_ | ⟨_,_⟩⟩ := r
  all_goals rfl

/-- A single byte is read before the new one, which is discarded when it comes in by the poll
that finds it. -/
theorem front_exchange {r : Receiver} (hsingle : r.front.shifting = []) (byte : UInt8)
    (delay : ℕ) :
    (r.send byte delay).front.clockIn.register = some (r.front.register.getD byte) ∧
      front {(r.send byte delay).front.clockIn with register := none} =
        ⟨if r.front.register.isSome ∧ 0 < delay then some byte else none,[]⟩ := by
  obtain ⟨_ | _,_ | ⟨_,rest⟩⟩ := r
  · exact ⟨rfl,rfl⟩
  · cases hsingle
    cases delay <;> exact ⟨rfl,rfl⟩
  · cases delay <;> exact ⟨rfl,rfl⟩
  · cases hsingle

theorem countdown_send (r : Receiver) (byte : UInt8) (delay : ℕ) :
    (r.send byte delay).countdown = r.countdown + delay := by
  simp [send,countdown]

theorem countdown_clockInto (register : Option UInt8) (shifting : List (UInt8 × ℕ)) :
    (clockInto register shifting).shifting = [] ∨
      (clockInto register shifting).countdown + 1 = countdown ⟨register,shifting⟩ := by
  induction shifting generalizing register with
  | nil => exact .inl rfl
  | cons head rest ih =>
    obtain ⟨byte,_ | left⟩ := head
    · refine (ih (some (register.getD byte))).imp_right fun h => h.trans ?_
      simp [countdown]
    · right
      simp only [clockInto,countdown,List.map_cons,List.sum_cons]
      omega

/-- A poll that leaves bytes to come in has brought the first of them nearer. -/
theorem countdown_clockIn (r : Receiver) :
    r.clockIn.shifting = [] ∨ r.clockIn.countdown + 1 = r.countdown :=
  countdown_clockInto r.register r.shifting

end Receiver

/-! ## Waits -/

/-- Polls and readings of the clock write nothing. -/
structure Waited (p q : Peripheral) : Prop where
  written_eq : q.written = p.written
  delays_eq : q.delays = p.delays
  receiver_eq : ∃ k, q.receiver = Receiver.clockIn^[k] p.receiver

namespace Waited

variable {p q r : Peripheral}

theorem trans (h : Waited p q) (h' : Waited q r) : Waited p r := by
  obtain ⟨k,hk⟩ := h.receiver_eq
  obtain ⟨l,hl⟩ := h'.receiver_eq
  refine ⟨h'.written_eq.trans h.written_eq,h'.delays_eq.trans h.delays_eq,l + k,?_⟩
  rw [hl,hk,Function.iterate_add_apply]

theorem receiver_induction {motive : Receiver → Prop} (h : Waited p q)
    (hstart : motive p.receiver) (hstep : ∀ r : Receiver, motive r → motive r.clockIn) :
    motive q.receiver := by
  obtain ⟨k,hk⟩ := h.receiver_eq
  rw [hk]
  exact Function.Iterate.rec motive hstart hstep k

theorem front_register (h : Waited p q) :
    q.receiver.front.register = p.receiver.front.register :=
  h.receiver_induction (motive := fun r => r.front.register = p.receiver.front.register) rfl
    fun r hr => r.front_register_clockIn.trans hr

theorem front_eq (h : Waited p q) (hsingle : p.receiver.front.shifting = []) :
    q.receiver.front = p.receiver.front :=
  h.receiver_induction (motive := fun r => r.front = p.receiver.front) rfl
    fun _ hr => (Receiver.front_clockIn (hr ▸ hsingle)).trans hr

end Waited

/-- A poll that finds the receiver like that may pass the check, or fail it. -/
def Finds (check : StatusFlags → Bool) (r : Receiver) (passed : Bool) : Prop :=
  ∃ txe bsy, check ⟨txe,r.register.isSome,bsy || !r.shifting.isEmpty⟩ = passed

/-- A wait ends with the first poll that passes the check, or fails before it. -/
structure Awaited (check : StatusFlags → Bool) (p q : Peripheral) (passed : Bool) : Prop where
  written_eq : q.written = p.written
  delays_eq : q.delays = p.delays
  receiver_eq : ∃ k, q.receiver = Receiver.clockIn^[k + 1] p.receiver ∧
    (∀ j < k, Finds check (Receiver.clockIn^[j + 1] p.receiver) false) ∧
      Finds check q.receiver passed

namespace Awaited

variable {check : StatusFlags → Bool} {passed : Bool} {p p' q : Peripheral}

theorem waited (h : Awaited check p q passed) : Waited p q := by
  obtain ⟨k,hk,-⟩ := h.receiver_eq
  exact ⟨h.written_eq,h.delays_eq,k + 1,hk⟩

theorem finds (h : Awaited check p q passed) : Finds check q.receiver passed := by
  obtain ⟨k,-,-,hfinds⟩ := h.receiver_eq
  exact hfinds

/-- A wait that goes on after a poll. -/
theorem after_poll (h : Awaited check p' q passed) (hwritten : p'.written = p.written)
    (hdelays : p'.delays = p.delays) (hreceiver : p'.receiver = p.receiver.clockIn)
    (hfails : Finds check p.receiver.clockIn false) : Awaited check p q passed := by
  refine ⟨h.written_eq.trans hwritten,h.delays_eq.trans hdelays,?_⟩
  obtain ⟨k,hk,hfinds,hlast⟩ := h.receiver_eq
  rw [hreceiver] at hk hfinds
  refine ⟨k + 1,hk,fun j hj => ?_,hlast⟩
  cases j with
  | zero => exact hfails
  | succ j => exact hfinds j (Nat.lt_of_succ_lt_succ hj)

/-- A wait for a byte ends as soon as it has arrived. -/
theorem rxne (h : Awaited StatusFlags.rxne p q true) :
    q.receiver = p.receiver.front.clockIn ∧ q.receiver.register ≠ none := by
  obtain ⟨k,hk,hfinds,txe,bsy,hlast⟩ := h.receiver_eq
  have hfull : q.receiver.register ≠ none := Option.isSome_iff_ne_none.mp hlast
  refine ⟨?_,hfull⟩
  rw [hk] at hfull ⊢
  refine Receiver.iterate_clockIn (fun j hj => ?_) hfull
  obtain ⟨txe,bsy,hrxne⟩ := hfinds j hj
  exact Option.not_isSome_iff_eq_none.mp (ne_true_of_eq_false hrxne)

end Awaited

section Waits

variable {check : StatusFlags → Bool} {timeoutMs start : ℕ} {polls : List (Bool × Bool)}
  {p q : Peripheral} {result : Except SpiError Unit}

theorem ends_now {t : Except SpiError ℕ} (h : Ends now p t q) : (∃ n, t = .ok n) ∧ Waited p q := by
  cases h
  exact ⟨⟨_,rfl⟩,rfl,rfl,0,rfl⟩

theorem ends_elapsedMs {t : Except SpiError ℕ} :
    Ends (elapsedMs start) p t q ↔ t = .ok (p.clock p.readings - start) ∧
      q = {p with readings := p.readings + 1} := by
  constructor
  · intro h
    cases h
    exact ⟨rfl,rfl⟩
  · rintro ⟨rfl,rfl⟩
    rfl

/-- What a poll leaves. -/
def Peripheral.polled (p : Peripheral) (rest : List (Bool × Bool)) : Peripheral :=
  {p with receiver := p.receiver.clockIn, polls := rest}

theorem ends_status {txe bsy : Bool} {rest : List (Bool × Bool)} {flags : Except SpiError StatusFlags} :
    Ends (status txe bsy rest) p flags q ↔
      flags = .ok ⟨txe,p.receiver.clockIn.register.isSome,
        bsy || !p.receiver.clockIn.shifting.isEmpty⟩ ∧ q = p.polled rest := by
  constructor
  · intro h
    cases h
    exact ⟨rfl,rfl⟩
  · rintro ⟨rfl,rfl⟩
    rfl

theorem ends_waitLoop (h : Ends (waitLoop check timeoutMs start polls) p result q) :
    Awaited check p q result.isOk := by
  induction polls generalizing p with
  | nil => cases h
  | cons poll rest ih =>
    obtain ⟨txe,bsy⟩ := poll
    obtain ⟨flags,u,hstatus,hrest⟩ | ⟨e,hstatus,-⟩ := ends_bind.mp h
    · obtain ⟨hflags,rfl⟩ := ends_status.mp hstatus
      cases hflags
      split at hrest
      next hcheck =>
        obtain ⟨rfl,rfl⟩ := ends_pure.mp hrest
        exact ⟨rfl,rfl,0,rfl,nofun,txe,bsy,hcheck⟩
      next hcheck =>
        have hfails : Finds check p.receiver.clockIn false :=
          ⟨txe,bsy,eq_false_of_ne_true hcheck⟩
        obtain ⟨elapsed,v,helapsed,hrest⟩ | ⟨e,helapsed,-⟩ := ends_bind.mp hrest
        · obtain ⟨-,rfl⟩ := ends_elapsedMs.mp helapsed
          split at hrest
          · obtain ⟨_,_,hthrow,-⟩ | ⟨e,hthrow,rfl⟩ := ends_bind.mp hrest
            · exact absurd hthrow not_returns_throw
            · obtain ⟨-,rfl⟩ := ends_throw.mp hthrow
              exact ⟨rfl,rfl,0,rfl,nofun,hfails⟩
          · exact (ih hrest).after_poll rfl rfl rfl hfails
        · cases (ends_elapsedMs.mp helapsed).1
    · cases (ends_status.mp hstatus).1

theorem ends_waitForFlag (h : Ends (waitForFlag check timeoutMs) p result q) :
    Awaited check p q result.isOk := by
  have hloop := ends_waitLoop (p := {p with readings := p.readings + 1}) h
  exact ⟨hloop.written_eq,hloop.delays_eq,hloop.receiver_eq⟩

end Waits

/-! ## What is in the receive register -/

section Register

variable {config : TimeoutConfig} {reply : List UInt8 → UInt8} {p q : Peripheral}

/-- The byte that is read first after the next write: the first one that is in the register or
being clocked in already, if any. -/
def Peripheral.arriving (reply : List UInt8 → UInt8) (p : Peripheral) : UInt8 :=
  p.receiver.front.register.getD (reply p.written)

theorem Waited.arriving (h : Waited p q) : q.arriving reply = p.arriving reply := by
  rw [Peripheral.arriving,Peripheral.arriving,h.front_register,h.written_eq]

/-- A byte that is transmitted fills the register, and nothing is left to come in. -/
theorem transmitByte_ok {data : UInt8} (h : Returns (transmitByte config reply data) p () q) :
    q.written = p.written ++ [data] ∧ q.delays = p.delays ∧
      q.receiver = ⟨some (p.arriving reply),[]⟩ := by
  simp only [transmitByte,returns_bind] at h
  obtain ⟨_,u,htxe,_,v,hwrite,hbsy⟩ := h
  have hu := (ends_waitForFlag htxe).waited
  have hq := ends_waitForFlag hbsy
  cases hwrite
  have hidle : q.receiver.shifting = [] := by
    obtain ⟨txe,bsy,hcheck⟩ := hq.finds
    have hbusy := (Bool.not_inj hcheck : (bsy || !q.receiver.shifting.isEmpty) = false)
    simpa using (Bool.or_eq_false_iff.mp hbusy).2
  have hfront : q.receiver.front.register = some (u.arriving reply) :=
    hq.waited.front_register.trans (Receiver.front_register_send _ _ _)
  refine ⟨?_,hq.delays_eq.trans hu.delays_eq,?_⟩
  · rw [hq.written_eq,Peripheral.write,hu.written_eq]
  · rw [Receiver.front_of_nil hidle] at hfront
    rw [← hu.arriving,← hfront,← hidle]

theorem exchangeByte_ok {data byte : UInt8} (hsingle : p.receiver.front.shifting = [])
    (h : Returns (exchangeByte config reply data) p byte q) :
    byte = p.arriving reply ∧ q.written = p.written ++ [data] ∧ q.delays = p.delays ∧
      q.receiver.front = ⟨if p.receiver.front.register.isSome ∧ 0 < p.delays p.written.length then
        some (reply p.written) else none,[]⟩ := by
  simp only [exchangeByte,returns_bind] at h
  obtain ⟨_,u,htxe,_,v,hwrite,_,w,hrxne,hread⟩ := h
  have hu := (ends_waitForFlag htxe).waited
  have hw := ends_waitForFlag hrxne
  cases hwrite
  cases hread
  have hfront := hu.front_eq hsingle
  have hexchange := Receiver.front_exchange (hfront ▸ hsingle) (reply u.written)
    (u.delays u.written.length)
  have hreceiver : w.receiver = (u.receiver.send (reply u.written)
      (u.delays u.written.length)).front.clockIn := hw.rxne.1
  rw [← hreceiver] at hexchange
  refine ⟨?_,?_,hw.delays_eq.trans hu.delays_eq,?_⟩
  · rw [hexchange.1,← hu.arriving]
    rfl
  · rw [← hu.written_eq]
    exact hw.written_eq
  · rw [← hu.written_eq,← hu.delays_eq,← hfront]
    exact hexchange.2

/-- The first byte that is clocked in stays in the register for the whole of a command. -/
theorem transmitBytes_ok {start : ℕ} {data : List UInt8}
    (h : Returns (transmitBytes config reply start data) p () q) :
    q.written = p.written ++ data ∧ q.delays = p.delays ∧
      (data ≠ [] → q.receiver = ⟨some (p.arriving reply),[]⟩) := by
  induction data generalizing p with
  | nil =>
    obtain ⟨-,rfl⟩ := returns_pure.mp h
    exact ⟨(List.append_nil _).symm,rfl,fun h => absurd rfl h⟩
  | cons byte rest ih =>
    simp only [transmitBytes,returns_bind,returns_ite] at h
    obtain ⟨elapsed,u,helapsed,hrest⟩ := h
    obtain ⟨-,rfl⟩ := ends_elapsedMs.mp helapsed
    split at hrest
    · obtain ⟨_,_,hthrow,-⟩ := hrest
      exact absurd hthrow not_returns_throw
    · obtain ⟨_,v,hbyte,hrest⟩ := hrest
      obtain ⟨hwritten,hdelays,hreceiver⟩ := transmitByte_ok hbyte
      obtain ⟨hall,hdelays',hlast⟩ := ih hrest
      refine ⟨?_,hdelays'.trans hdelays,fun _ => ?_⟩
      · rw [hall,hwritten,List.append_assoc,List.singleton_append]
      · cases rest with
        | nil =>
          obtain ⟨-,rfl⟩ := returns_pure.mp hrest
          exact hreceiver
        | cons byte' rest =>
          rw [hlast (List.cons_ne_nil _ _),Peripheral.arriving,hreceiver]
          rfl

theorem transmit_ok {data : List UInt8} (h : Returns (transmit config reply data) p () q) :
    q.written = p.written ++ data ∧ q.delays = p.delays ∧
      q.receiver = ⟨some (p.arriving reply),[]⟩ := by
  simp only [transmit,returns_bind,returns_ite] at h
  split at h
  · obtain ⟨_,_,hthrow,-⟩ := h
    exact absurd hthrow not_returns_throw
  · rename_i hdata
    obtain ⟨start,u,hnow,hbytes⟩ := h
    have hu := (ends_now hnow).2
    obtain ⟨hwritten,hdelays,hreceiver⟩ := transmitBytes_ok hbytes
    rw [hwritten,hu.written_eq,hreceiver (by simpa using hdata),hu.arriving]
    exact ⟨rfl,hdelays.trans hu.delays_eq,rfl⟩

/-! ## What is read -/

/-- What the slave shifts out for reads of `n` bytes after those written so far. -/
def shiftedOut (reply : List UInt8 → UInt8) (written : List UInt8) (n : ℕ) : List UInt8 :=
  (List.range n).map fun i => reply (written ++ List.replicate i 0xFF)

theorem shiftedOut_succ (reply : List UInt8 → UInt8) (written : List UInt8) (n : ℕ) :
    shiftedOut reply written (n + 1) =
      reply written :: shiftedOut reply (written ++ [0xFF]) n := by
  simp [shiftedOut,List.range_succ_eq_map,List.replicate_succ]

/-- What is read when a byte may be there already: as long as the answers take a poll or more,
each of them is read in the place of the next. -/
def readBack (reply : List UInt8 → UInt8) (delays : ℕ → ℕ) :
    Option UInt8 → List UInt8 → ℕ → List UInt8
  | _,_,0 => []
  | front,written,n + 1 =>
    front.getD (reply written) ::
      readBack reply delays
        (if front.isSome ∧ 0 < delays written.length then some (reply written) else none)
        (written ++ [0xFF]) n

theorem receiveBytes_ok {n : ℕ} {bytes : List UInt8} (hsingle : p.receiver.front.shifting = [])
    (h : Returns (receiveBytes config reply n) p bytes q) :
    bytes = readBack reply p.delays p.receiver.front.register p.written n := by
  induction n generalizing p q bytes with
  | zero =>
    obtain ⟨rfl,-⟩ := returns_pure.mp h
    rfl
  | succ n ih =>
    simp only [receiveBytes,returns_bind,returns_pure] at h
    obtain ⟨byte,u,hbyte,rest,v,hrest,rfl,-⟩ := h
    obtain ⟨hfirst,hwritten,hdelays,hfront⟩ := exchangeByte_ok hsingle hbyte
    rw [hfirst,ih (by rw [hfront]) hrest,readBack,hwritten,hdelays,hfront]
    rfl

theorem readBack_none (reply : List UInt8 → UInt8) (delays : ℕ → ℕ) (written : List UInt8)
    (n : ℕ) : readBack reply delays none written n = shiftedOut reply written n := by
  induction n generalizing written with
  | zero => rfl
  | succ n ih =>
    rw [shiftedOut_succ,← ih]
    rfl

/-- The first answer is looked at in any case, the others only when the first one takes a poll. -/
theorem forall_awaited_succ {delays : ℕ → ℕ} {written n : ℕ} {P : ℕ → Prop} :
    (∀ i < n + 1, (∀ j < i, 0 < delays (written + j)) → P i) ↔
      P 0 ∧ (0 < delays written →
        ∀ i < n, (∀ j < i, 0 < delays (written + 1 + j)) → P (i + 1)) := by
  constructor
  · intro h
    refine ⟨h 0 (Nat.succ_pos n) nofun,fun hdelay i hi hbefore => ?_⟩
    refine h (i + 1) (Nat.succ_lt_succ hi) fun j hj => ?_
    cases j with
    | zero => exact hdelay
    | succ j =>
      have hprev := hbefore j (Nat.lt_of_succ_lt_succ hj)
      rwa [Nat.add_right_comm] at hprev
  · rintro ⟨hfirst,hrest⟩ i hi hbefore
    cases i with
    | zero => exact hfirst
    | succ i =>
      refine hrest (hbefore 0 (Nat.succ_pos i)) i (Nat.lt_of_succ_lt_succ hi) fun j hj => ?_
      have hnext := hbefore (j + 1) (Nat.succ_lt_succ hj)
      rwa [Nat.add_right_comm]

theorem readBack_some_iff (reply : List UInt8 → UInt8) (delays : ℕ → ℕ) (byte : UInt8)
    (written : List UInt8) (n : ℕ) :
    readBack reply delays (some byte) written n = shiftedOut reply written n ↔
      ∀ i < n, (∀ j < i, 0 < delays (written.length + j)) →
        reply (written ++ List.replicate i 0xFF) = byte := by
  induction n generalizing byte written with
  | zero => exact iff_of_true rfl nofun
  | succ n ih =>
    have hshift : ∀ i, written ++ List.replicate (i + 1) 0xFF =
        written ++ [0xFF] ++ List.replicate i 0xFF := by
      intro i
      rw [List.replicate_succ,List.append_assoc,List.singleton_append]
    have hlength : (written ++ [(0xFF : UInt8)]).length = written.length + 1 :=
      List.length_append
    rw [forall_awaited_succ,readBack,shiftedOut_succ,List.cons_eq_cons]
    simp only [Option.getD_some,Option.isSome_some,true_and,List.replicate_zero,List.append_nil,
      hshift]
    rw [eq_comm (a := byte)]
    refine and_congr_right fun hfirst => ?_
    by_cases hdelay : 0 < delays written.length
    · -- the answer is read in the place of the next one
      rw [if_pos hdelay,ih,hlength,hfirst]
      exact (imp_iff_right hdelay).symm
    · rw [if_neg hdelay,readBack_none]
      exact iff_of_true rfl fun h => absurd h hdelay

end Register

/-! ## Calls return when the peripheral gets ready in time -/

/-- Polls that find the transmit buffer empty and the peripheral not busy otherwise. -/
def readyPolls (polls : List (Bool × Bool)) : ℕ :=
  polls.countP fun poll => poll.1 && !poll.2

/-- The polls that the answers to the next `n` bytes take. -/
def awaitedPolls (delays : ℕ → ℕ) (written : ℕ) : ℕ → ℕ
  | 0 => 0
  | n + 1 => delays written + awaitedPolls delays (written + 1) n

theorem awaitedPolls_add (delays : ℕ → ℕ) (written m n : ℕ) :
    awaitedPolls delays written (m + n) =
      awaitedPolls delays written m + awaitedPolls delays (written + m) n := by
  induction m generalizing written with
  | zero => simp [awaitedPolls]
  | succ m ih =>
    rw [Nat.succ_add,awaitedPolls,awaitedPolls,ih,Nat.add_assoc written,Nat.add_comm 1 m,
      Nat.add_assoc]

/-- No two readings of the clock are a timeout apart, and `n` polls find the peripheral ready
besides those that the bytes in the receiver take. -/
structure Prompt (config : TimeoutConfig) (clock : ℕ → ℕ) (n : ℕ) (p : Peripheral) : Prop where
  clock_eq : p.clock = clock
  byte_lt : ∀ i j, clock j - clock i < config.byteTimeoutMs
  total_lt : ∀ i j, clock j - clock i < config.totalTimeoutMs
  ready : n + p.receiver.countdown ≤ readyPolls p.polls

section Prompt

variable {config : TimeoutConfig} {clock : ℕ → ℕ} {p : Peripheral}

theorem countdown_clockIn_le (r : Receiver) : r.clockIn.countdown ≤ r.countdown := by
  obtain hnone | hless := r.countdown_clockIn
  · rw [Receiver.countdown,hnone]
    exact Nat.zero_le _
  · omega

/-- When a ready poll fails, a byte is still on its way. -/
theorem countdown_of_fails {check : StatusFlags → Bool} {r : Receiver}
    (hcheck : check ⟨true,r.front.register.isSome,false⟩ = true)
    (hfails : ¬ check ⟨true,r.clockIn.register.isSome,false || !r.clockIn.shifting.isEmpty⟩ = true) :
    r.clockIn.countdown + 1 = r.countdown := by
  refine r.countdown_clockIn.resolve_left fun hnone => hfails ?_
  have hfront := r.front_register_clockIn
  rw [Receiver.front_of_nil hnone] at hfront
  rw [hfront,hnone]
  exact hcheck

/-- A ready poll that finds nothing on its way passes the check; the others bring the bytes that
are being clocked in nearer. -/
theorem waitLoop_returns {check : StatusFlags → Bool} {n timeoutMs start : ℕ}
    {polls : List (Bool × Bool)}
    (hcheck : check ⟨true,p.receiver.front.register.isSome,false⟩ = true)
    (hclock : ∀ j, p.clock j - start < timeoutMs)
    (hready : n + 1 + p.receiver.countdown ≤ readyPolls polls) :
    ∃ q, Returns (waitLoop check timeoutMs start polls) p () q ∧ q.clock = p.clock ∧
      n + q.receiver.countdown ≤ readyPolls q.polls := by
  induction polls generalizing p with
  | nil => cases Nat.le_trans (Nat.le_add_right _ _) hready
  | cons poll rest ih =>
    obtain ⟨txe,bsy⟩ := poll
    have hcount : readyPolls ((txe,bsy)::rest) = readyPolls rest + if txe && !bsy then 1 else 0 :=
      List.countP_cons
    have hle := countdown_clockIn_le p.receiver
    simp only [waitLoop,returns_bind,returns_ite]
    by_cases hpoll : check ⟨txe,p.receiver.clockIn.register.isSome,
        bsy || !p.receiver.clockIn.shifting.isEmpty⟩ = true
    · refine ⟨p.polled rest,⟨_,_,rfl,?_⟩,rfl,?_⟩
      · rw [if_pos hpoll]
        exact returns_pure.mpr ⟨rfl,rfl⟩
      · show n + p.receiver.clockIn.countdown ≤ readyPolls rest
        split at hcount <;> omega
    · have hrest : n + 1 + p.receiver.clockIn.countdown ≤ readyPolls rest := by
        split at hcount
        next hboth =>
          obtain ⟨rfl,hbsy⟩ := Bool.and_eq_true_iff.mp hboth
          obtain rfl := Bool.not_eq_true' bsy |>.mp hbsy
          have hless := countdown_of_fails hcheck hpoll
          omega
        next => omega
      obtain ⟨q,hq,hclock',hle'⟩ := ih
        (p := {p.polled rest with readings := p.readings + 1})
        (by simpa [Peripheral.polled,Receiver.front_register_clockIn] using hcheck) hclock hrest
      refine ⟨q,⟨_,_,rfl,?_⟩,hclock',hle'⟩
      rw [if_neg hpoll]
      refine ⟨p.clock p.readings - start,_,rfl,?_⟩
      rw [if_neg (Nat.not_le.mpr (hclock _))]
      exact hq

theorem waitForFlag_returns (check : StatusFlags → Bool) {n : ℕ}
    (hp : Prompt config clock (n + 1) p)
    (hcheck : check ⟨true,p.receiver.front.register.isSome,false⟩ = true) :
    ∃ q, Returns (waitForFlag check config.byteTimeoutMs) p () q ∧ Prompt config clock n q := by
  have hbyte : ∀ j, p.clock j - p.clock p.readings < config.byteTimeoutMs := by
    intro j
    rw [hp.clock_eq]
    exact hp.byte_lt _ _
  obtain ⟨q,hq,hclock,hready⟩ := waitLoop_returns (p := {p with readings := p.readings + 1}) hcheck
    hbyte hp.ready
  refine ⟨q,?_,hclock.trans hp.clock_eq,hp.byte_lt,hp.total_lt,hready⟩
  simp only [waitForFlag,returns_bind,returns_get]
  exact ⟨_,_,rfl,_,_,⟨rfl,rfl⟩,hq⟩

variable (reply : List UInt8 → UInt8)

/-- A byte that is written takes the polls of its answer. -/
theorem Prompt.write {n : ℕ} (hp : Prompt config clock (n + p.delays p.written.length) p)
    (data : UInt8) : Prompt config clock n (p.write reply data) where
  clock_eq := hp.clock_eq
  byte_lt := hp.byte_lt
  total_lt := hp.total_lt
  ready := by
    have hready := hp.ready
    simp only [Peripheral.write,Receiver.countdown_send]
    omega

theorem transmitByte_returns {n : ℕ}
    (hp : Prompt config clock (n + 1 + p.delays p.written.length + 1) p) (data : UInt8) :
    ∃ q, Returns (transmitByte config reply data) p () q ∧ Prompt config clock n q := by
  obtain ⟨u,htxe,hu⟩ := waitForFlag_returns StatusFlags.txe hp rfl
  have hwaited := (ends_waitForFlag htxe).waited
  rw [← hwaited.delays_eq,← hwaited.written_eq] at hu
  obtain ⟨q,hbsy,hq⟩ := waitForFlag_returns (fun s => !s.bsy) (hu.write reply data) rfl
  refine ⟨q,?_,hq⟩
  simp only [transmitByte,returns_bind]
  exact ⟨_,u,htxe,_,_,rfl,hbsy⟩

theorem exchangeByte_returns {n : ℕ}
    (hp : Prompt config clock (n + 1 + p.delays p.written.length + 1) p) (data : UInt8) :
    ∃ byte q, Returns (exchangeByte config reply data) p byte q ∧ Prompt config clock n q := by
  obtain ⟨u,htxe,hu⟩ := waitForFlag_returns StatusFlags.txe hp rfl
  have hwaited := (ends_waitForFlag htxe).waited
  rw [← hwaited.delays_eq,← hwaited.written_eq] at hu
  obtain ⟨w,hrxne,hw⟩ := waitForFlag_returns StatusFlags.rxne (hu.write reply data) (by
    show Option.isSome _ = true
    rw [Peripheral.write,Receiver.front_register_send]
    rfl)
  refine ⟨w.receiver.register.getD 0,{w with receiver.register := none},?_,
    hw.clock_eq,hw.byte_lt,hw.total_lt,hw.ready⟩
  simp only [exchangeByte,returns_bind]
  exact ⟨_,u,htxe,_,_,rfl,_,w,hrxne,rfl⟩

theorem transmitBytes_returns {n : ℕ} (data : List UInt8) (i : ℕ)
    (hp : Prompt config clock (n + (2 * data.length +
      awaitedPolls p.delays p.written.length data.length)) p) :
    ∃ q, Returns (transmitBytes config reply (clock i) data) p () q ∧ Prompt config clock n q := by
  induction data generalizing p with
  | nil => exact ⟨p,rfl,hp⟩
  | cons byte rest ih =>
    have htotal : p.clock p.readings - clock i < config.totalTimeoutMs := by
      rw [hp.clock_eq]
      exact hp.total_lt _ _
    have hready : n + (2 * rest.length +
        awaitedPolls p.delays (p.written.length + 1) rest.length) + 1 +
          p.delays p.written.length + 1 + p.receiver.countdown ≤ readyPolls p.polls := by
      have hall := hp.ready
      simp only [List.length_cons,awaitedPolls] at hall
      omega
    obtain ⟨u,hbyte,hu⟩ := transmitByte_returns reply (p := {p with readings := p.readings + 1})
      ⟨hp.clock_eq,hp.byte_lt,hp.total_lt,hready⟩ byte
    obtain ⟨hwritten,hdelays,-⟩ := transmitByte_ok hbyte
    obtain ⟨q,hrest,hq⟩ := ih (p := u) (by rw [hdelays,hwritten]; simpa using hu)
    refine ⟨q,?_,hq⟩
    simp only [transmitBytes,returns_bind,returns_ite]
    refine ⟨p.clock p.readings - clock i,_,rfl,?_⟩
    rw [if_neg (Nat.not_le.mpr htotal)]
    exact ⟨_,u,hbyte,hrest⟩

theorem receiveBytes_returns {n : ℕ} (hsingle : p.receiver.front.shifting = [])
    (hp : Prompt config clock (2 * n + awaitedPolls p.delays p.written.length n) p) :
    ∃ bytes q, Returns (receiveBytes config reply n) p bytes q := by
  induction n generalizing p with
  | zero => exact ⟨[],p,rfl⟩
  | succ n ih =>
    have hready : 2 * n + awaitedPolls p.delays (p.written.length + 1) n + 1 +
        p.delays p.written.length + 1 + p.receiver.countdown ≤ readyPolls p.polls := by
      have hall := hp.ready
      simp only [awaitedPolls] at hall
      omega
    obtain ⟨byte,u,hbyte,hu⟩ := exchangeByte_returns reply
      ⟨hp.clock_eq,hp.byte_lt,hp.total_lt,hready⟩ 0xFF
    obtain ⟨-,hwritten,hdelays,hfront⟩ := exchangeByte_ok hsingle hbyte
    obtain ⟨rest,v,hrest⟩ := ih (p := u) (by rw [hfront]) (by rw [hdelays,hwritten]; simpa using hu)
    refine ⟨byte::rest,v,?_⟩
    simp only [receiveBytes,returns_bind,returns_pure]
    exact ⟨byte,u,hbyte,rest,v,hrest,rfl,rfl⟩

/-- Two polls for each byte on the wire are enough, besides those that the answers take. -/
theorem read_returns (address : UInt32) (length : ℕ)
    (hp : Prompt config clock
      (2 * (4 + length) + awaitedPolls p.delays p.written.length (4 + length)) p) :
    ∃ buffer q, Returns (read config reply address length) p buffer q := by
  have hready : 2 * length + awaitedPolls p.delays (p.written.length + 4) length +
      (2 * 4 + awaitedPolls p.delays p.written.length 4) + p.receiver.countdown ≤
        readyPolls p.polls := by
    have hall := hp.ready
    rw [awaitedPolls_add] at hall
    omega
  obtain ⟨u,hcommand,hu⟩ := transmitBytes_returns reply (readCommand address) p.readings
    (p := {p with readings := p.readings + 1}) ⟨hp.clock_eq,hp.byte_lt,hp.total_lt,hready⟩
  rw [← hp.clock_eq] at hcommand
  have htransmit : Returns (transmit config reply (readCommand address)) p () u := by
    simp only [transmit,returns_bind,returns_ite]
    exact ⟨_,_,rfl,hcommand⟩
  obtain ⟨hwritten,hdelays,hreceiver⟩ := transmit_ok htransmit
  obtain ⟨bytes,q,hbytes⟩ := receiveBytes_returns reply (p := u) (n := length)
    (by rw [hreceiver]; rfl) (by rw [hdelays,hwritten,List.length_append]; exact hu)
  refine ⟨bytes,q,?_⟩
  simp only [read,returns_bind]
  exact ⟨(),u,htransmit,hbytes⟩

end Prompt

theorem read_ok (config : TimeoutConfig) (reply : List UInt8 → UInt8) (address : UInt32)
    {length : ℕ} {p q : Peripheral} {buffer : List UInt8}
    (h : Returns (read config reply address length) p buffer q) :
    buffer = shiftedOut reply (p.written ++ readCommand address) length ↔
      ∀ i < length, (∀ j < i, 0 < p.delays (p.written.length + 4 + j)) →
        reply (p.written ++ readCommand address ++ List.replicate i 0xFF) = p.arriving reply := by
  simp only [read,returns_bind] at h
  obtain ⟨_,u,htransmit,hreceive⟩ := h
  obtain ⟨hwritten,hdelays,hreceiver⟩ := transmit_ok htransmit
  have hfront : u.receiver.front = ⟨some (p.arriving reply),[]⟩ := by
    rw [hreceiver]
    rfl
  have hbuffer := receiveBytes_ok (by rw [hfront]) hreceive
  rw [hfront,hwritten,hdelays] at hbuffer
  have hiff := readBack_some_iff reply p.delays (p.arriving reply)
    (p.written ++ readCommand address) length
  rw [List.length_append] at hiff
  rw [hbuffer]
  exact hiff

/-- An idle peripheral that is ready at every poll and answers after some of them. -/
def idlePeripheral (polls : ℕ) (delays : ℕ → ℕ) : Peripheral where
  written := []
  receiver := ⟨none,[]⟩
  delays := delays
  polls := List.replicate polls (true,false)
  clock := fun _ => 0
  readings := 0

/-- A slave that is silent during the command and then counts. -/
def countingFlash (written : List UInt8) : UInt8 :=
  if written.length < 4 then 0xFF else written.length.toUInt8 - 4

end SpiTimeout
end UProtocols
