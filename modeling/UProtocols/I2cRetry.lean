import UProtocols.I2cArbitration
import UProtocols.Runs

/-!
# Masters that retry after they have lost arbitration

Two masters in `write_with_retry`, whose calls on the lines come in any order. The slaves may pull
a line low whenever it is read. A master that has read low after it wrote a one has lost, until
the other one has completed a STOP.
-/

namespace UProtocols
namespace MultiMasterI2c

open Interaction

/-! ## The calls of one master -/

/-- What is known about a master from its calls: the levels that it drives, whether the last thing
it wrote to SDA was a one of a byte, and whether it has lost since it last read SCL high. -/
structure Watch where
  wires : Wires
  one : Bool
  off : Bool
  deriving DecidableEq

def isOne : Place → Bool → Bool
  | .bit, state => state
  | .start, _ | .acknowledge, _ | .read, _ | .stop, _ => false

namespace Watch

/-- A master that is off the bus pulls no line low, and it has released SCL when it finds that it
has lost. -/
def next (t : Watch) : (e : HalCall) → Answer e → Option Watch
  | .sdaWrite place state, _ =>
    if t.off && !state then none
    else some {t with wires := t.wires.drive (.sdaWrite place state), one := isOne place state}
  | .sclWrite state, _ =>
    if t.off && !state then none else some {t with wires := t.wires.drive (.sclWrite state)}
  | .sdaRead, level =>
    if t.one && !level then if t.wires.scl then some {t with off := true} else none
    else some t
  | .sclRead, level => some (if level then {t with off := false} else t)
  | .delay, _ => some t

/-- Off the bus exactly after the error for lost arbitration. -/
def OffAfter {α : Type} (t : Watch) (result : Except Failure α) : Prop :=
  t.off = true ↔ result = .error (.err .arbitrationLost)

end Watch

section Follows

variable {α β : Type} {t : Watch}

abbrev Follows (m : I2c α) (t : Watch) (Q : Watch → Except Failure α → Prop) : Prop :=
  Driver.Follows Watch.next m t Q

/-- A call in front of a method. -/
theorem follows_call {e : HalCall} {f : Answer e → I2c β} {Q : Watch → Except Failure β → Prop}
    (h : ∀ r, ∃ t', t.next e r = some t' ∧ Follows (f r) t' Q) :
    Follows (Driver.perform e >>= f) t Q := by
  intro s r
  obtain ⟨t',hnext,hrest⟩ := h r
  exact ⟨t',hnext,hrest s⟩

theorem follows_waitForClock (n : ℕ) (ht : t.off = false) :
    Follows (waitForClock n) t fun t' result => t' = t ∧
      result ≠ .error (.err .arbitrationLost) := by
  induction n with
  | zero => exact .throw ⟨rfl,nofun⟩
  | succ n ih =>
    refine follows_call fun level => ?_
    cases level with
    | true =>
      refine ⟨t,?_,.pure ⟨rfl,nofun⟩⟩
      obtain ⟨wires,one,off⟩ := t
      cases ht
      rfl
    | false => exact ⟨t,rfl,ih⟩

theorem offAfter_of_on {result : Except Failure α} (ht : t.off = false)
    (hresult : result ≠ .error (.err .arbitrationLost)) : t.OffAfter result := by
  refine iff_of_false ?_ hresult
  rw [ht]
  exact Bool.false_ne_true

theorem on_of_offAfter_ok {a : α} (h : t.OffAfter (.ok a : Except Failure α)) : t.off = false := by
  cases hoff : t.off with
  | false => rfl
  | true => cases h.mp hoff

/-- Methods that only go on while the master is on the bus. -/
theorem follows_bind {m : I2c α} {f : α → I2c β} (hm : Follows m t Watch.OffAfter)
    (hf : ∀ t a, t.off = false → Follows (f a) t Watch.OffAfter) :
    Follows (m >>= f) t Watch.OffAfter := by
  refine hm.bind ?_ ?_
  · intro t a h
    exact hf t a (on_of_offAfter_ok h)
  · intro t e h
    refine h.trans ?_
    constructor
    · intro heq
      cases heq
      rfl
    · intro heq
      cases heq
      rfl

/-- A line that is released, or pulled low by a master that is on the bus. -/
theorem not_pulls_off {state : Bool} (h : t.off = true → state = true) :
    (t.off && !state) = false := by
  cases hoff : t.off with
  | false => rfl
  | true =>
    rw [h hoff]
    rfl

theorem next_sdaWrite {place : Place} {state : Bool} (h : t.off = true → state = true) (r : Unit) :
    t.next (.sdaWrite place state) r = some
      {t with wires := t.wires.drive (.sdaWrite place state), one := isOne place state} := by
  simp [Watch.next,not_pulls_off h]

theorem next_sclWrite {state : Bool} (h : t.off = true → state = true) (r : Unit) :
    t.next (.sclWrite state) r = some {t with wires := t.wires.drive (.sclWrite state)} := by
  simp [Watch.next,not_pulls_off h]

theorem follows_sdaWrite {place : Place} {state : Bool} {f : Unit → I2c β}
    {Q : Watch → Except Failure β → Prop} (h : t.off = true → state = true)
    (hf : Follows (f ())
      {t with wires := t.wires.drive (.sdaWrite place state), one := isOne place state} Q) :
    Follows (sdaWrite place state >>= f) t Q :=
  follows_call fun r => ⟨_,next_sdaWrite h r,hf⟩

theorem follows_sclWrite {state : Bool} {f : Unit → I2c β} {Q : Watch → Except Failure β → Prop}
    (h : t.off = true → state = true)
    (hf : Follows (f ()) {t with wires := t.wires.drive (.sclWrite state)} Q) :
    Follows (sclWrite state >>= f) t Q :=
  follows_call fun r => ⟨_,next_sclWrite h r,hf⟩

theorem follows_delay {f : Unit → I2c β} {Q : Watch → Except Failure β → Prop}
    (hf : Follows (f ()) t Q) : Follows (delay >>= f) t Q :=
  follows_call fun _ => ⟨t,rfl,hf⟩

theorem follows_checkBit {bit level : Bool} (ht : t.off = (bit && !level)) :
    Follows (checkBit bit level) t Watch.OffAfter := by
  rw [checkBit]
  cases hlost : bit && !level with
  | true =>
    rw [hlost] at ht
    intro s
    exact iff_of_true ht rfl
  | false =>
    rw [hlost] at ht
    refine follows_sclWrite (fun h => ?_) ?_
    · rw [ht] at h
      cases h
    · exact .perform fun _ => ⟨_,rfl,offAfter_of_on ht nofun⟩

/-- A bit ends with the loss of arbitration exactly if the master is then off the bus. -/
theorem follows_writeBit (bit : Bool) (ht : t.off = false) :
    Follows (writeBitWithArbitration bit) t Watch.OffAfter := by
  obtain ⟨wires,one,off⟩ := t
  cases ht
  refine follows_sclWrite nofun (follows_delay ?_)
  refine (follows_waitForClock 1000 (t := ⟨wires.drive (.sclWrite true),one,false⟩) rfl).bind ?_ ?_
  · rintro t _ ⟨rfl,-⟩
    refine follows_sdaWrite nofun (follows_delay (follows_call fun level => ?_))
    -- SCL is released, so a one that is read low is the only way off the bus
    cases bit with
    | false => exact ⟨_,rfl,follows_checkBit rfl⟩
    | true => cases level <;> exact ⟨_,rfl,follows_checkBit rfl⟩
  · rintro t e ⟨rfl,herror⟩
    refine offAfter_of_on rfl ?_
    intro heq
    cases heq
    exact herror rfl

theorem follows_writeBits (bits : List Bool) (ht : t.off = false) :
    Follows (writeBits bits) t Watch.OffAfter := by
  induction bits generalizing t with
  | nil => exact .pure (offAfter_of_on ht nofun)
  | cons bit rest ih => exact follows_bind (follows_writeBit bit ht) fun _ _ => ih

theorem follows_readAck (ht : t.off = false) : Follows readAck t Watch.OffAfter := by
  obtain ⟨wires,one,off⟩ := t
  cases ht
  refine follows_sclWrite nofun (follows_sdaWrite nofun (follows_delay ?_))
  refine follows_call fun level => ⟨_,rfl,?_⟩
  refine follows_sclWrite nofun (follows_delay ?_)
  cases level with
  | false =>
    intro s
    exact offAfter_of_on rfl nofun
  | true =>
    intro s
    exact offAfter_of_on rfl nofun

theorem follows_writeByte (byte : UInt8) (ht : t.off = false) :
    Follows (writeByte byte) t Watch.OffAfter :=
  follows_bind (follows_writeBits (msbFirst byte) ht) fun _ _ => follows_readAck

theorem follows_stop (ht : t.off = false) : Follows stop t Watch.OffAfter := by
  obtain ⟨wires,one,off⟩ := t
  cases ht
  refine follows_sdaWrite nofun (follows_delay (follows_sclWrite nofun (follows_delay ?_)))
  refine follows_sdaWrite nofun (follows_delay (.modify ?_))
  exact offAfter_of_on rfl nofun

theorem follows_refuse (ht : t.off = false) : Follows (refuse : I2c α) t Watch.OffAfter :=
  follows_bind (follows_stop ht) fun _ _ ht => .throw (offAfter_of_on ht nofun)

theorem follows_writeData (data : List UInt8) (ht : t.off = false) :
    Follows (writeData data) t Watch.OffAfter := by
  induction data generalizing t with
  | nil => exact follows_stop ht
  | cons byte rest ih =>
    refine follows_bind (follows_writeByte byte ht) fun t ack ht => ?_
    cases ack with
    | true => exact ih ht
    | false => exact follows_refuse ht

theorem follows_busIdle (ht : t.one = false) : Follows busIdle t fun t result =>
    result = .ok true → t.off = false := by
  refine follows_call fun level => ⟨t,?_,?_⟩
  · simp [Watch.next,ht]
  · cases level with
    | false => exact .pure nofun
    | true =>
      refine .perform fun level => ⟨_,rfl,?_⟩
      intro h
      cases h
      rfl

/-- A START is only made after SCL was read high, also by a master that was off the bus. -/
theorem follows_start (t : Watch) : Follows start t fun t result =>
    result = .ok () → t.off = false := by
  refine follows_sdaWrite (fun _ => rfl) (follows_sclWrite (fun _ => rfl) (follows_delay ?_))
  refine (follows_busIdle rfl).bind ?_ ?_
  · intro t idle hidle
    cases idle with
    | false => exact .throw nofun
    | true =>
      have ht := hidle rfl
      have hon : t.off = true → false = true := by
        rw [ht]
        exact id
      refine follows_sdaWrite hon (follows_delay (follows_sclWrite hon (follows_delay ?_)))
      exact .modify fun _ => ht
  · intro t e _
    nofun

theorem follows_writeInternal (addr : UInt8) (data : List UInt8) (t : Watch) :
    Follows (writeInternal addr data) t fun _ _ => True := by
  refine (follows_start t).bind ?_ fun _ _ _ => trivial
  intro t _ hstart
  have hbytes : Follows (do
      let ack ← writeByte (addr <<< 1 ||| 0)
      if ack then writeData data else refuse) t Watch.OffAfter := by
    refine follows_bind (follows_writeByte (addr <<< 1 ||| 0) (hstart rfl)) fun t ack ht => ?_
    cases ack with
    | true => exact follows_writeData data ht
    | false => exact follows_refuse ht
  exact hbytes.mono fun _ _ _ => trivial

theorem follows_retrying {m : I2c α} (hm : ∀ t, Follows m t fun _ _ => True) (n : ℕ) (t : Watch) :
    Follows (retrying m n) t fun _ _ => True := by
  induction n generalizing t with
  | zero => exact .throw trivial
  | succ n ih =>
    refine (hm t).attempt.bind ?_ fun _ _ _ => trivial
    intro t result _
    have hagain : Follows (do
        modify fun self => {self with retryCount := self.retryCount + 1}
        delay
        retrying m n) t fun _ _ => True := by
      refine (Driver.Follows.modify (Q := fun _ _ => True) trivial).bind ?_ fun _ _ _ => trivial
      intro t _ _
      exact follows_delay (ih t)
    cases result with
    | ok a => exact .pure trivial
    | error failure =>
      cases failure with
      | panic => exact .throw trivial
      | err e =>
        cases e with
        | arbitrationLost => exact hagain
        | busBusy => exact hagain
        | nack => exact .throw trivial
        | timeout => exact .throw trivial
        | maxRetriesExceeded => exact .throw trivial

/-- The calls of `write_with_retry`: from the loss of arbitration to a busy check that finds SCL
high, the master pulls no line low. -/
theorem follows_writeWithRetry (addr : UInt8) (data : List UInt8) (t : Watch) :
    Follows (writeWithRetry addr data) t fun _ _ => True := by
  refine (Driver.Follows.modify (Q := fun _ _ => True) trivial).bind ?_ fun _ _ _ => trivial
  intro t _ _
  exact .get_bind fun s => follows_retrying (follows_writeInternal addr data) s.maxRetries t

end Follows

/-! ## Two masters -/

abbrev Calls := Program HalCall Answer (Except Failure Unit × I2cMultiMaster)

/-- The calls that a master has still to make, the levels that it drives, whether the last thing
it wrote to SDA was a one of a byte, and whether it has lost arbitration. -/
structure Master where
  rest : Calls
  wires : Wires
  one : Bool
  lost : Bool

/-- A line is high when neither master pulls it low and the slaves do not. -/
def answer (mine other : Wires) (slaves : Bool) : (e : HalCall) → Answer e
  | .sdaRead => mine.sda && other.sda && slaves
  | .sclRead => mine.scl && other.scl && slaves
  | .sdaWrite _ _ | .sclWrite _ | .delay => ()

/-- The check of `write_bit_with_arbitration`: a one was written and SDA is low. -/
def loses (one : Bool) : (e : HalCall) → Answer e → Bool
  | .sdaRead, level => one && !level
  | .sclRead, _ | .sdaWrite _ _, _ | .sclWrite _, _ | .delay, _ => false

/-- The last write of a STOP. -/
def completesStop : HalCall → Bool
  | .sdaWrite .stop true => true
  | _ => false

def lastOne (one : Bool) : HalCall → Bool
  | .sdaWrite place state => isOne place state
  | .sdaRead | .sclWrite _ | .sclRead | .delay => one

/-- A read of SCL that finds it high. -/
def findsHigh : (e : HalCall) → Answer e → Bool
  | .sclRead, level => level
  | .sdaRead, _ | .sdaWrite _ _, _ | .sclWrite _, _ | .delay, _ => false

def pullsLow : HalCall → Bool
  | .sdaWrite _ state | .sclWrite state => !state
  | .sdaRead | .sclRead | .delay => false

namespace Watch

variable {t t' : Watch} {e : HalCall} {r : Answer e}

theorem off_of_allowed {off state : Bool} (h : ¬ (off && !state) = true)
    (hlow : (!state) = true) : off = false := by
  rw [hlow,Bool.and_true] at h
  exact Bool.eq_false_iff.mpr h

/-- All that an allowed call does to the monitor, and what it is allowed for. -/
theorem next_eq (h : t.next e r = some t') :
    t' = ⟨t.wires.drive e,lastOne t.one e,(t.off || loses t.one e r) && !findsHigh e r⟩ ∧
      (pullsLow e = true → t.off = false) ∧ (loses t.one e r = true → t.wires.scl = true) := by
  obtain ⟨wires,one,off⟩ := t
  cases e with
  | sdaWrite place state =>
    simp only [next] at h
    split at h
    · cases h
    · next hallowed =>
      cases h
      exact ⟨by simp [lastOne,loses,findsHigh],off_of_allowed hallowed,by simp [loses]⟩
  | sclWrite state =>
    simp only [next] at h
    split at h
    · cases h
    · next hallowed =>
      cases h
      exact ⟨by simp [lastOne,loses,findsHigh],off_of_allowed hallowed,by simp [loses]⟩
  | sdaRead =>
    cases hlow : one && !r with
    | false =>
      simp only [next,hlow] at h
      cases h
      exact ⟨by simp [Wires.drive,lastOne,loses,findsHigh,hlow],by simp [pullsLow],
        by simp [loses,hlow]⟩
    | true =>
      simp only [next,hlow,if_true] at h
      split at h
      · next hscl =>
        cases h
        exact ⟨by simp [Wires.drive,lastOne,loses,findsHigh,hlow],by simp [pullsLow],
          fun _ => hscl⟩
      · cases h
  | sclRead =>
    cases r <;> cases h <;>
      exact ⟨by simp [Wires.drive,lastOne,loses,findsHigh],by simp [pullsLow],by simp [loses]⟩
  | delay =>
    cases h
    exact ⟨by simp [Wires.drive,lastOne,loses,findsHigh],by simp [pullsLow],by simp [loses]⟩

/-- Off the bus both lines are released, and so is SDA after a one. -/
def Sound (t : Watch) : Prop :=
  (t.off = true → t.wires = ⟨true,true⟩) ∧ (t.one = true → t.wires.sda = true)

theorem drive_released (h : pullsLow e = false) :
    Wires.drive ⟨true,true⟩ e = ⟨true,true⟩ := by
  cases e with
  | sdaWrite place state => cases state <;> first | rfl | cases h
  | sclWrite state => cases state <;> first | rfl | cases h
  | sdaRead => rfl
  | sclRead => rfl
  | delay => rfl

theorem drive_sda_of_lastOne {wires : Wires} {one : Bool} (hone : one = true → wires.sda = true)
    (h : lastOne one e = true) : (wires.drive e).sda = true := by
  cases e with
  | sdaWrite place state => cases place <;> first | exact h | cases h
  | sclWrite state => exact hone h
  | sdaRead => exact hone h
  | sclRead => exact hone h
  | delay => exact hone h

/-- Only a read of SDA can find that a one was lost. -/
theorem of_loses {one : Bool} (h : loses one e r = true) :
    pullsLow e = false ∧ findsHigh e r = false ∧ one = true := by
  cases e with
  | sdaRead =>
    simp only [loses,Bool.and_eq_true] at h
    exact ⟨rfl,rfl,h.1⟩
  | sdaWrite place state => cases h
  | sclWrite state => cases h
  | sclRead => cases h
  | delay => cases h

/-- A call that is allowed keeps the monitor sound. -/
theorem Sound.next (hs : t.Sound) (h : t.next e r = some t') : t'.Sound := by
  obtain ⟨wires,one,off⟩ := t
  obtain ⟨hwires,hone⟩ := hs
  obtain ⟨rfl,hpull,hscl⟩ := next_eq h
  refine ⟨?_,drive_sda_of_lastOne hone⟩
  intro hoff
  dsimp only at hwires hone hpull hscl hoff ⊢
  rw [Bool.and_eq_true,Bool.or_eq_true] at hoff
  cases hoff.1 with
  | inl hoff =>
    rw [hwires hoff]
    apply drive_released
    cases hlow : pullsLow e with
    | false => rfl
    | true => cases (hpull hlow).symm.trans hoff
  | inr hloses =>
    -- both lines were released when the one was read low
    obtain ⟨hlow,-,htrue⟩ := of_loses hloses
    have hreleased : wires = ⟨wires.scl,wires.sda⟩ := rfl
    rw [hscl hloses,hone htrue] at hreleased
    rw [hreleased]
    exact drive_released hlow

end Watch

namespace Master

/-- The next call of a master, and what it means for the other one. -/
def act (me other : Master) (slaves : Bool) : Option (Master × Master) :=
  match me.rest with
  | .done _ => none
  | .call e k =>
    let r := answer me.wires other.wires slaves e
    some ({
      rest := k r
      wires := me.wires.drive e
      one := lastOne me.one e
      lost := me.lost || loses me.one e r},
      {other with lost := other.lost && !completesStop e})

/-- A master that has lost drives no line. -/
def Quiet (m : Master) : Prop := m.lost = true → m.wires = ⟨true,true⟩

/-- A master that has lost does not read SCL high, as it does when its busy check finds both lines
high. -/
def FindsBusy (me other : Master) (slaves : Bool) : Prop :=
  match me.rest with
  | .done _ => True
  | .call e _ => me.lost = true → findsHigh e (answer me.wires other.wires slaves e) = false

instance (me other : Master) (slaves : Bool) : Decidable (me.FindsBusy other slaves) :=
  match h : me.rest with
  | .done _ => isTrue (by simp [FindsBusy,h])
  | .call e _ =>
    decidable_of_iff
      (me.lost = true → findsHigh e (answer me.wires other.wires slaves e) = false)
      (by simp [FindsBusy,h])

/-- The calls that are left are those of a master that stays off the bus as long as it has lost. -/
def Restrained (m : Master) : Prop :=
  ∃ off, Program.Conforms Watch.next ⟨m.wires,m.one,off⟩ m.rest (fun _ _ => True) ∧
    Watch.Sound ⟨m.wires,m.one,off⟩ ∧ (m.lost = true → off = true)

theorem Restrained.quiet {m : Master} (h : m.Restrained) : m.Quiet := by
  obtain ⟨off,-,hsound,hlost⟩ := h
  intro h
  exact hsound.1 (hlost h)

/-- A call of a restrained master leaves it restrained. -/
theorem Restrained.act {me other me' other' : Master} {slaves : Bool} (h : me.Restrained)
    (hbusy : me.FindsBusy other slaves) (hact : me.act other slaves = some (me',other')) :
    me'.Restrained := by
  obtain ⟨rest,wires,one,lost⟩ := me
  obtain ⟨off,hcalls,hsound,hlost⟩ := h
  cases rest with
  | done result => cases hact
  | call e k =>
    cases hact
    obtain ⟨t,hnext,hrest⟩ := hcalls (answer wires other.wires slaves e)
    have hsound' := Watch.Sound.next hsound hnext
    obtain ⟨rfl,-,-⟩ := Watch.next_eq hnext
    refine ⟨_,hrest,hsound',?_⟩
    dsimp only at hlost ⊢
    intro h
    rw [Bool.or_eq_true] at h
    cases h with
    | inl h =>
      rw [hlost h,show findsHigh e _ = false from hbusy h,Bool.true_or]
      rfl
    | inr h =>
      rw [h,(Watch.of_loses h).2.1,Bool.or_true]
      rfl

theorem Restrained.acted {me other me' other' : Master} {slaves : Bool} (h : other.Restrained)
    (hact : me.act other slaves = some (me',other')) : other'.Restrained := by
  obtain ⟨rest,wires,one,lost⟩ := me
  obtain ⟨off,hcalls,hsound,hlost⟩ := h
  cases rest with
  | done result => cases hact
  | call e k =>
    cases hact
    refine ⟨off,hcalls,hsound,?_⟩
    intro h
    rw [Bool.and_eq_true] at h
    exact hlost h.1

end Master

structure Contest where
  first : Master
  second : Master

/-- Which master makes its next call, and the level that the slaves leave on the line it reads. -/
structure Event where
  first : Bool
  slaves : Bool
  deriving DecidableEq

namespace Contest

def step (s : Contest) (ev : Event) : Option Contest :=
  if ev.first then (s.first.act s.second ev.slaves).map fun r => ⟨r.1,r.2⟩
  else (s.second.act s.first ev.slaves).map fun r => ⟨r.2,r.1⟩

/-- No master drives a line that it has lost. -/
def Quiet (s : Contest) : Prop := s.first.Quiet ∧ s.second.Quiet

def FindsBusy (s : Contest) (ev : Event) : Prop :=
  if ev.first then s.first.FindsBusy s.second ev.slaves
  else s.second.FindsBusy s.first ev.slaves

instance (s : Contest) (ev : Event) : Decidable (s.FindsBusy ev) :=
  if h : ev.first then
    decidable_of_iff (s.first.FindsBusy s.second ev.slaves) (by simp [FindsBusy,h])
  else decidable_of_iff (s.second.FindsBusy s.first ev.slaves) (by simp [FindsBusy,h])

theorem step_restrained {s s' : Contest} {ev : Event} (hstep : s.step ev = some s')
    (hbusy : s.FindsBusy ev) (h : s.first.Restrained ∧ s.second.Restrained) :
    s'.first.Restrained ∧ s'.second.Restrained := by
  rw [step] at hstep
  rw [FindsBusy] at hbusy
  split at hstep
  · next hfirst =>
    rw [if_pos hfirst] at hbusy
    obtain ⟨r,hact,rfl⟩ := Option.map_eq_some_iff.mp hstep
    exact ⟨h.1.act hbusy hact,h.2.acted hact⟩
  · next hsecond =>
    rw [if_neg hsecond] at hbusy
    obtain ⟨r,hact,rfl⟩ := Option.map_eq_some_iff.mp hstep
    exact ⟨h.1.acted hact,h.2.act hbusy hact⟩

end Contest

/-- A master at the beginning of a call of `write_with_retry`. -/
def launch (s : I2cMultiMaster) (wires : Wires) (addr : UInt8) (data : List UInt8) : Master where
  rest := (writeWithRetry addr data).program s
  wires := wires
  one := false
  lost := false

theorem launch_restrained (s : I2cMultiMaster) (wires : Wires) (addr : UInt8)
    (data : List UInt8) : (launch s wires addr data).Restrained :=
  ⟨false,follows_writeWithRetry addr data ⟨wires,false,false⟩ s,⟨nofun,nofun⟩,nofun⟩

namespace Contest

/-- Two masters that begin to write. -/
def start (s t : I2cMultiMaster) (v w : Wires) (addr addr' : UInt8) (data data' : List UInt8) :
    Contest :=
  ⟨launch s v addr data,launch t w addr' data'⟩

/-- In every order of the calls of two masters, if no busy check of a master that has lost finds
the bus idle before the other one has completed its STOP, then no such master ever pulls a line
low. -/
theorem quiet_of_findsBusy (s t : I2cMultiMaster) (v w : Wires) (addr addr' : UInt8)
    (data data' : List UInt8) (events : List Event) (u : Contest)
    (hrun : Runs.exec step (start s t v w addr addr' data data') events = some u)
    (hbusy : Runs.Along step FindsBusy (start s t v w addr addr' data data') events) :
    u.Quiet := by
  have hstart : (start s t v w addr addr' data data').first.Restrained ∧
      (start s t v w addr addr' data data').second.Restrained :=
    ⟨launch_restrained s v addr data,launch_restrained t w addr' data'⟩
  have hend := Runs.exec_invariant_of_along
    (I := fun s : Contest => s.first.Restrained ∧ s.second.Restrained)
    (fun s ev s' hstep hbusy h => step_restrained hstep hbusy h) hrun hbusy hstart
  exact ⟨hend.1.quiet,hend.2.quiet⟩

/-- Two masters on an idle bus, for addresses that differ in their third bit. -/
def thirdBit : Contest := start (.new 3) (.new 3) ⟨true,true⟩ ⟨true,true⟩ 0x50 0x48 [] []

/-- Call by call in turns, up to the loss of the first master. -/
def turns : List Event := (List.replicate 31 [⟨true,true⟩,⟨false,true⟩]).flatten

/-- The first master retries at once and finds SDA low. -/
def retryDuringZero : List Event := turns ++ List.replicate 5 ⟨true,true⟩

/-- It retries when the second one has just written a one, which goes on afterwards. -/
def retryDuringOne : List Event :=
  turns ++ List.replicate 6 ⟨false,true⟩ ++ List.replicate 7 ⟨true,true⟩ ++
    List.replicate 2 ⟨false,true⟩

theorem quiet_retryDuringZero :
    ∃ u, Runs.exec step thirdBit retryDuringZero = some u ∧ u.first.lost = true ∧ u.Quiet := by
  have hrun : (Runs.exec step thirdBit retryDuringZero).any (fun u => u.first.lost) = true := by
    decide +kernel
  obtain ⟨u,hu,hlost⟩ := (Option.any_eq_true _ _).mp hrun
  refine ⟨u,hu,hlost,?_⟩
  exact quiet_of_findsBusy (.new 3) (.new 3) ⟨true,true⟩ ⟨true,true⟩ 0x50 0x48 [] []
    retryDuringZero u hu (by decide +kernel)

/-- Both lines are high, so the first master pulls SDA low for its START, and the second one finds
that it has lost as well. -/
theorem not_quiet_retryDuringOne :
    ∃ u, Runs.exec step thirdBit retryDuringOne = some u ∧ u.first.lost = true ∧
      u.first.wires.sda = false ∧ u.second.lost = true ∧ ¬ u.Quiet := by
  have hrun : (Runs.exec step thirdBit retryDuringOne).any
      (fun u => u.first.lost && !u.first.wires.sda && u.second.lost) = true := by
    decide +kernel
  obtain ⟨u,hu,hend⟩ := (Option.any_eq_true _ _).mp hrun
  simp only [Bool.and_eq_true,Bool.not_eq_true'] at hend
  obtain ⟨⟨hlost,hsda⟩,hsecond⟩ := hend
  refine ⟨u,hu,hlost,hsda,hsecond,?_⟩
  intro hquiet
  have hwires := hquiet.1 hlost
  rw [hwires] at hsda
  cases hsda

end Contest

end MultiMasterI2c
end UProtocols
