import UProtocols.I2cMultiMaster

/-!
# Arbitration between two masters

Two masters send bytes at the same time: each call on the lines is one step for both. A line is
high when neither master and no slave pulls it low. A slave counts the falling edges of SCL and
answers in the ninth slot after a START and in every ninth one after it, and what the bus carries
is the level of SDA at each falling edge of SCL.
-/

namespace UProtocols
namespace MultiMasterI2c

open Interaction ByteBits

/-- The levels that a master drives. -/
structure Wires where
  scl : Bool
  sda : Bool
  deriving DecidableEq

def Wires.drive (d : Wires) : HalCall → Wires
  | .sdaWrite _ state => {d with sda := state}
  | .sclWrite state => {d with scl := state}
  | .sdaRead | .sclRead | .delay => d

/-- The two masters, the level that the slaves leave on SDA, the number of falling edges of SCL
and what SDA was at each of them. -/
structure Bus where
  first : Wires
  second : Wires
  slave : Bool
  falls : ℕ
  samples : List Bool
  deriving DecidableEq

namespace Bus

def scl (b : Bus) : Bool := b.first.scl && b.second.scl

def sda (b : Bus) : Bool := b.first.sda && b.second.sda && b.slave

def answer (b : Bus) : (e : HalCall) → Answer e
  | .sdaRead => b.sda
  | .sclRead => b.scl
  | .sdaWrite _ _ | .sclWrite _ | .delay => ()

def swap (b : Bus) : Bus := {b with first := b.second, second := b.first}

end Bus

/-- No one drives a line. -/
def idleBus : Bus := ⟨⟨true,true⟩,⟨true,true⟩,true,0,[]⟩

section Bus

variable (acks : ℕ → Bool)

/-- SDA as the slaves leave it after so many falling edges, the first of which belongs to the
START: low in the ninth slot of an acknowledged byte. -/
def released (falls : ℕ) : Bool := !(falls != 0 && falls % 9 == 0 && acks (falls / 9 - 1))

/-- New levels of the masters. -/
def settle (b : Bus) (first second : Wires) : Bus :=
  if b.scl && !(first.scl && second.scl) then
    ⟨first,second,released acks (b.falls + 1),b.falls + 1,b.samples ++ [b.sda]⟩
  else {b with first := first, second := second}

def both (e f : HalCall) (b : Bus) : (Answer e × Answer f) × Bus :=
  let b := settle acks b (b.first.drive e) (b.second.drive f)
  ((b.answer e,b.answer f),b)

/-- A master that is done leaves its lines as they are. -/
def onlyFirst (e : HalCall) (b : Bus) : Answer e × Bus :=
  let b := settle acks b (b.first.drive e) b.second
  (b.answer e,b)

def onlySecond (e : HalCall) (b : Bus) : Answer e × Bus :=
  let b := settle acks b b.first (b.second.drive e)
  (b.answer e,b)

end Bus

/-- Calls of `write_byte`, with the acknowledgements that they return. -/
def writeBytes : List UInt8 → I2c (List Bool)
  | [] => pure []
  | byte::rest => do
    let ack ← writeByte byte
    return ack :: (← writeBytes rest)

def send (bytes : List UInt8) : I2c (List Bool) := do
  start
  writeBytes bytes

/-- Two masters that send at the same time on an idle bus. -/
def contend (acks : ℕ → Bool) (s t : I2cMultiMaster) (xs ys : List UInt8) :
    ((Except Failure (List Bool) × I2cMultiMaster) ×
      (Except Failure (List Bool) × I2cMultiMaster)) × Bus :=
  Program.lockstep (both acks) (onlyFirst acks) (onlySecond acks)
    ((send xs).program s) ((send ys).program t) idleBus

/-- How the first of two masters ends and the bus at that moment, if it is not the last to end. -/
def firstEnds (acks : ℕ → Bool) (s t : I2cMultiMaster) (xs ys : List UInt8) :
    Option ((Except Failure (List Bool) × I2cMultiMaster) × Bus) :=
  (Program.outlived (both acks) ((send xs).program s) ((send ys).program t) idleBus).map
    fun ends => (ends.1,ends.2.2)

def bits (bytes : List UInt8) : List Bool := bytes.flatMap msbFirst

/-- The falling edges before the slot of the `i`-th bit: that of the START, those of the bits
before it, and those of the acknowledgements. -/
def fallsBefore (i : ℕ) : ℕ := 1 + i + i / 8

/-- The acknowledgements of bytes from the `k`-th on. -/
def acksFrom (acks : ℕ → Bool) (k : ℕ) (bytes : List UInt8) : List Bool :=
  (List.range' k bytes.length).map acks

/-- Bytes from the `k`-th on as the bus carries them: after its bits the acknowledgement. -/
def framesFrom (acks : ℕ → Bool) : ℕ → List UInt8 → List Bool
  | _, [] => []
  | k, byte::rest => msbFirst byte ++ (!acks k) :: framesFrom acks (k + 1) rest

theorem append_framesFrom (acks : ℕ → Bool) (k : ℕ) (samples : List Bool) (byte : UInt8)
    (rest : List UInt8) :
    samples ++ (msbFirst byte ++ [!acks k]) ++ framesFrom acks (k + 1) rest =
      samples ++ framesFrom acks k (byte::rest) := by
  simp [framesFrom]

/-- What the bus carries from a START on. -/
def carried (acks : ℕ → Bool) (bytes : List UInt8) : List Bool :=
  false :: framesFrom acks 0 bytes

/-! ## Slots in lockstep -/

section Calls

variable (acks : ℕ → Bool) (s t : I2cMultiMaster)

theorem settle_keep (b : Bus) (x y : Bool) :
    settle acks b ⟨b.first.scl,x⟩ ⟨b.second.scl,y⟩ =
      {b with first := ⟨b.first.scl,x⟩, second := ⟨b.second.scl,y⟩} := by
  simp [settle,Bus.scl]

theorem both_eq {e f : HalCall} {b b' : Bus}
    (h : settle acks b (b.first.drive e) (b.second.drive f) = b') :
    both acks e f b = ((b'.answer e,b'.answer f),b') := by
  rw [both,h]

theorem together_delay (b : Bus) :
    Program.together (both acks) (delay.program s) (delay.program t) b =
      some (((.ok (),s),(.ok (),t)),b) := by
  rw [delay,Driver.together_perform,both_eq acks (settle_keep acks b _ _)]

theorem together_sdaRead (b : Bus) :
    Program.together (both acks) (sdaRead.program s) (sdaRead.program t) b =
      some (((.ok b.sda,s),(.ok b.sda,t)),b) := by
  rw [sdaRead,Driver.together_perform,both_eq acks (settle_keep acks b _ _)]
  rfl

theorem together_sclRead (b : Bus) :
    Program.together (both acks) (sclRead.program s) (sclRead.program t) b =
      some (((.ok b.scl,s),(.ok b.scl,t)),b) := by
  rw [sclRead,Driver.together_perform,both_eq acks (settle_keep acks b _ _)]
  rfl

theorem together_sdaWrite (p q : Place) (x y : Bool) (b : Bus) :
    Program.together (both acks) ((sdaWrite p x).program s) ((sdaWrite q y).program t) b =
      some (((.ok (),s),(.ok (),t)),
        {b with first := ⟨b.first.scl,x⟩, second := ⟨b.second.scl,y⟩}) := by
  rw [sdaWrite,sdaWrite,Driver.together_perform,both_eq acks (settle_keep acks b x y)]

theorem together_sclRise (b : Bus) :
    Program.together (both acks) ((sclWrite true).program s) ((sclWrite true).program t) b =
      some (((.ok (),s),(.ok (),t)),
        {b with first := ⟨true,b.first.sda⟩, second := ⟨true,b.second.sda⟩}) := by
  have hrise : settle acks b (b.first.drive (.sclWrite true)) (b.second.drive (.sclWrite true)) =
      {b with first := ⟨true,b.first.sda⟩, second := ⟨true,b.second.sda⟩} := by
    simp [settle,Wires.drive]
  rw [sclWrite,Driver.together_perform,both_eq acks hrise]

theorem together_sclFall (x y slave : Bool) (n : ℕ) (samples : List Bool) :
    Program.together (both acks) ((sclWrite false).program s) ((sclWrite false).program t)
      ⟨⟨true,x⟩,⟨true,y⟩,slave,n,samples⟩ =
      some (((.ok (),s),(.ok (),t)),⟨⟨false,x⟩,⟨false,y⟩,released acks (n + 1),n + 1,
        samples ++ [x && y && slave]⟩) := rfl

theorem together_waitForClock {b : Bus} (h : b.scl = true) (n : ℕ) :
    Program.together (both acks) ((waitForClock (n + 1)).program s)
      ((waitForClock (n + 1)).program t) b = some (((.ok (),s),(.ok (),t)),b) := by
  rw [waitForClock,Driver.together_bind_ok (together_sclRead acks s t b),h]
  rfl

end Calls

/-- The bus between two slots. -/
def between (acks : ℕ → Bool) (first second : Wires) (falls : ℕ) (samples : List Bool) : Bus :=
  ⟨first,second,released acks falls,falls,samples⟩

theorem between_cons (acks : ℕ → Bool) (first second : Wires) (n : ℕ) (samples : List Bool)
    (level : Bool) (rest : List Bool) :
    between acks first second (n + 1 + rest.length) (samples ++ [level] ++ rest) =
      between acks first second (n + (level::rest).length) (samples ++ level::rest) := by
  simp [Nat.add_assoc,Nat.add_comm 1]

/-- The state that an acknowledged byte leaves. -/
def I2cMultiMaster.noted (ack : Bool) (s : I2cMultiMaster) : I2cMultiMaster :=
  if ack then {s with arbState := .won} else s

section Slots

variable (acks : ℕ → Bool) (s t : I2cMultiMaster) (x y : Bool) (n : ℕ) (samples : List Bool)

/-- A slot ends; what was on SDA is carried. -/
theorem together_endSlot (slave : Bool) :
    Program.together (both acks) ((do sclWrite false; delay : I2c Unit).program s)
      ((do sclWrite false; delay : I2c Unit).program t) ⟨⟨true,x⟩,⟨true,y⟩,slave,n,samples⟩ =
    some (((.ok (),s),(.ok (),t)),
      between acks ⟨false,x⟩ ⟨false,y⟩ (n + 1) (samples ++ [x && y && slave])) := by
  rw [Driver.together_bind_ok (together_sclFall acks s t x y slave n samples)]
  exact together_delay acks s t _

theorem together_writeBit (bit : Bool) (h : released acks n = true) :
    Program.together (both acks) ((writeBitWithArbitration bit).program s)
      ((writeBitWithArbitration bit).program t) (between acks ⟨false,x⟩ ⟨false,y⟩ n samples) =
    some (((.ok (),s),(.ok (),t)),
      between acks ⟨false,bit⟩ ⟨false,bit⟩ (n + 1) (samples ++ [bit])) := by
  rw [between,h,writeBitWithArbitration,Driver.together_bind_ok (together_sclRise acks s t _),
    Driver.together_bind_ok (together_delay acks s t _),
    Driver.together_bind_ok (together_waitForClock acks s t rfl 999),
    Driver.together_bind_ok (together_sdaWrite acks s t .bit .bit bit bit _),
    Driver.together_bind_ok (together_delay acks s t _),
    Driver.together_bind_ok (together_sdaRead acks s t _)]
  have hend := together_endSlot acks s t bit bit n samples true
  cases bit <;> exact hend

theorem together_busIdle {b : Bus} (hsda : b.sda = true) (hscl : b.scl = true) :
    Program.together (both acks) (busIdle.program s) (busIdle.program t) b =
      some (((.ok true,s),(.ok true,t)),b) := by
  rw [busIdle,Driver.together_bind_ok (together_sdaRead acks s t b),hsda,if_pos rfl,
    together_sclRead,hscl]

theorem together_start (h : released acks n = true) :
    Program.together (both acks) (start.program s) (start.program t)
      (between acks ⟨true,true⟩ ⟨true,true⟩ n samples) =
    some (((.ok (),{s with arbState := .inProgress}),(.ok (),{t with arbState := .inProgress})),
      between acks ⟨false,false⟩ ⟨false,false⟩ (n + 1) (samples ++ [false])) := by
  rw [between,h,start,
    Driver.together_bind_ok (together_sdaWrite acks s t .start .start true true _),
    Driver.together_bind_ok (together_sclRise acks s t _),
    Driver.together_bind_ok (together_delay acks s t _),
    Driver.together_bind_ok (together_busIdle acks s t rfl rfl),if_pos rfl,
    Driver.together_bind_ok (together_sdaWrite acks s t .start .start false false _),
    Driver.together_bind_ok (together_delay acks s t _),
    Driver.together_bind_ok (together_sclFall acks s t false false true n samples),
    Driver.together_bind_ok (together_delay acks s t _)]
  rfl

theorem together_readAck :
    Program.together (both acks) (readAck.program s) (readAck.program t)
      (between acks ⟨false,x⟩ ⟨false,y⟩ n samples) =
    some (((.ok (!released acks n),s.noted (!released acks n)),
        (.ok (!released acks n),t.noted (!released acks n))),
      between acks ⟨false,true⟩ ⟨false,true⟩ (n + 1) (samples ++ [released acks n])) := by
  rw [between,readAck,Driver.together_bind_ok (together_sclRise acks s t _),
    Driver.together_bind_ok (together_sdaWrite acks s t .acknowledge .acknowledge true true _),
    Driver.together_bind_ok (together_delay acks s t _),
    Driver.together_bind_ok (together_sdaRead acks s t _),
    Driver.together_bind_ok (together_sclFall acks s t true true _ n samples),
    Driver.together_bind_ok (together_delay acks s t _)]
  cases released acks n <;> rfl

theorem rest_released {bit : Bool} {rest : List Bool} {n : ℕ}
    (h : ∀ i < (bit::rest).length, released acks (n + i) = true) :
    ∀ i < rest.length, released acks (n + 1 + i) = true := by
  intro i hi
  rw [Nat.add_assoc,Nat.add_comm 1 i]
  exact h (i + 1) (Nat.succ_lt_succ hi)

theorem released_bit (k : ℕ) {i : ℕ} (hi : i < 8) : released acks (9 * k + 1 + i) = true := by
  have hslot : (9 * k + 1 + i) % 9 ≠ 0 := by omega
  simp [released,hslot]

theorem released_ack (k : ℕ) : released acks (9 * k + 1 + 8) = !acks k := by
  have hslot : (9 * k + 1 + 8) % 9 = 0 := by omega
  have hbyte : (9 * k + 1 + 8) / 9 - 1 = k := by omega
  simp [released,hslot,hbyte]

theorem together_writeBits (levels : List Bool)
    (h : ∀ i < levels.length, released acks (n + i) = true) :
    ∃ x' y', Program.together (both acks) ((writeBits levels).program s)
      ((writeBits levels).program t) (between acks ⟨false,x⟩ ⟨false,y⟩ n samples) =
    some (((.ok (),s),(.ok (),t)),
      between acks ⟨false,x'⟩ ⟨false,y'⟩ (n + levels.length) (samples ++ levels)) := by
  induction levels generalizing x y n samples with
  | nil => exact ⟨x,y,by rw [List.append_nil]; rfl⟩
  | cons bit rest ih =>
    obtain ⟨x',y',hbits⟩ := ih bit bit (n + 1) (samples ++ [bit]) (rest_released acks h)
    have hfirst : released acks n = true := h 0 (Nat.succ_pos _)
    refine ⟨x',y',?_⟩
    rw [writeBits,Driver.together_bind_ok (together_writeBit acks s t x y n samples bit hfirst),
      hbits,between_cons]

theorem together_writeByte (k : ℕ) (byte : UInt8) :
    Program.together (both acks) ((writeByte byte).program s) ((writeByte byte).program t)
      (between acks ⟨false,x⟩ ⟨false,y⟩ (9 * k + 1) samples) =
    some (((.ok (acks k),s.noted (acks k)),(.ok (acks k),t.noted (acks k))),
      between acks ⟨false,true⟩ ⟨false,true⟩ (9 * (k + 1) + 1)
        (samples ++ (msbFirst byte ++ [!acks k]))) := by
  obtain ⟨x',y',hbits⟩ := together_writeBits acks s t x y (9 * k + 1) samples (msbFirst byte)
    fun i hi => released_bit acks k hi
  rw [writeByte,Driver.together_bind_ok hbits]
  have hack := together_readAck acks s t x' y' (9 * k + 1 + 8) (samples ++ msbFirst byte)
  rw [released_ack,Bool.not_not] at hack
  exact hack.trans (by rw [List.append_assoc]; rfl)

end Slots

/-! ## Slots of a master alone -/

section Alone

variable (acks : ℕ → Bool) (t : I2cMultiMaster) (c y slave : Bool) (n : ℕ) (samples : List Bool)

theorem exec_delay_alone : delay.exec (onlySecond acks) t ⟨⟨true,true⟩,⟨c,y⟩,slave,n,samples⟩ =
    ((.ok (),t),⟨⟨true,true⟩,⟨c,y⟩,slave,n,samples⟩) := by
  cases c <;> rfl

theorem exec_sclRise_alone :
    (sclWrite true).exec (onlySecond acks) t ⟨⟨true,true⟩,⟨false,y⟩,slave,n,samples⟩ =
    ((.ok (),t),⟨⟨true,true⟩,⟨true,y⟩,slave,n,samples⟩) := rfl

theorem exec_sclFall_alone :
    (sclWrite false).exec (onlySecond acks) t ⟨⟨true,true⟩,⟨true,y⟩,slave,n,samples⟩ =
    ((.ok (),t),⟨⟨true,true⟩,⟨false,y⟩,released acks (n + 1),n + 1,samples ++ [y && slave]⟩) := rfl

theorem exec_sdaWrite_alone (p : Place) (z : Bool) :
    (sdaWrite p z).exec (onlySecond acks) t ⟨⟨true,true⟩,⟨true,y⟩,slave,n,samples⟩ =
    ((.ok (),t),⟨⟨true,true⟩,⟨true,z⟩,slave,n,samples⟩) := rfl

theorem exec_sdaRead_alone :
    sdaRead.exec (onlySecond acks) t ⟨⟨true,true⟩,⟨true,y⟩,slave,n,samples⟩ =
    ((.ok (y && slave),t),⟨⟨true,true⟩,⟨true,y⟩,slave,n,samples⟩) := rfl

theorem exec_waitForClock_alone (polls : ℕ) :
    (waitForClock (polls + 1)).exec (onlySecond acks) t ⟨⟨true,true⟩,⟨true,y⟩,slave,n,samples⟩ =
    ((.ok (),t),⟨⟨true,true⟩,⟨true,y⟩,slave,n,samples⟩) := rfl

/-- A bit on which no one else is. -/
theorem exec_writeBit_alone (bit : Bool) (h : released acks n = true) :
    (writeBitWithArbitration bit).exec (onlySecond acks) t
      (between acks ⟨true,true⟩ ⟨false,y⟩ n samples) =
    ((.ok (),t),between acks ⟨true,true⟩ ⟨false,bit⟩ (n + 1) (samples ++ [bit])) := by
  rw [between,h,writeBitWithArbitration,
    Driver.exec_bind_ok (exec_sclRise_alone acks t y true n samples),
    Driver.exec_bind_ok (exec_delay_alone acks t true y true n samples),
    Driver.exec_bind_ok (exec_waitForClock_alone acks t y true n samples 999),
    Driver.exec_bind_ok (exec_sdaWrite_alone acks t y true n samples .bit bit),
    Driver.exec_bind_ok (exec_delay_alone acks t true bit true n samples),
    Driver.exec_bind_ok (exec_sdaRead_alone acks t bit true n samples)]
  cases bit <;> rfl

theorem exec_readAck_alone :
    readAck.exec (onlySecond acks) t (between acks ⟨true,true⟩ ⟨false,y⟩ n samples) =
    ((.ok (!released acks n),t.noted (!released acks n)),
      between acks ⟨true,true⟩ ⟨false,true⟩ (n + 1) (samples ++ [released acks n])) := by
  rw [between,readAck,Driver.exec_bind_ok (exec_sclRise_alone acks t y _ n samples),
    Driver.exec_bind_ok (exec_sdaWrite_alone acks t y _ n samples .acknowledge true),
    Driver.exec_bind_ok (exec_delay_alone acks t true true _ n samples),
    Driver.exec_bind_ok (exec_sdaRead_alone acks t true _ n samples),
    Driver.exec_bind_ok (exec_sclFall_alone acks t true _ n samples),
    Driver.exec_bind_ok (exec_delay_alone acks t false true _ (n + 1) _)]
  cases released acks n <;> rfl

theorem exec_writeBits_alone (levels : List Bool)
    (h : ∀ i < levels.length, released acks (n + i) = true) :
    ∃ y', (writeBits levels).exec (onlySecond acks) t
      (between acks ⟨true,true⟩ ⟨false,y⟩ n samples) =
    ((.ok (),t),between acks ⟨true,true⟩ ⟨false,y'⟩ (n + levels.length) (samples ++ levels)) := by
  induction levels generalizing y n samples with
  | nil => exact ⟨y,by rw [List.append_nil]; rfl⟩
  | cons bit rest ih =>
    obtain ⟨y',hbits⟩ := ih bit (n + 1) (samples ++ [bit]) (rest_released acks h)
    have hfirst : released acks n = true := h 0 (Nat.succ_pos _)
    refine ⟨y',?_⟩
    rw [writeBits,Driver.exec_bind_ok (exec_writeBit_alone acks t y n samples bit hfirst),hbits,
      between_cons]

theorem exec_writeByte_alone (k : ℕ) (byte : UInt8) :
    (writeByte byte).exec (onlySecond acks) t
      (between acks ⟨true,true⟩ ⟨false,y⟩ (9 * k + 1) samples) =
    ((.ok (acks k),t.noted (acks k)),between acks ⟨true,true⟩ ⟨false,true⟩ (9 * (k + 1) + 1)
      (samples ++ (msbFirst byte ++ [!acks k]))) := by
  obtain ⟨y',hbits⟩ := exec_writeBits_alone acks t y (9 * k + 1) samples (msbFirst byte)
    fun i hi => released_bit acks k hi
  rw [writeByte,Driver.exec_bind_ok hbits]
  have hack := exec_readAck_alone acks t y' (9 * k + 1 + 8) (samples ++ msbFirst byte)
  rw [released_ack,Bool.not_not] at hack
  exact hack.trans (by rw [List.append_assoc]; rfl)

/-- Once the other has given up, all bytes go over the bus as they are. -/
theorem exec_writeBytes_alone (k : ℕ) (bytes : List UInt8) :
    ∃ t' b, (writeBytes bytes).exec (onlySecond acks) t
      (between acks ⟨true,true⟩ ⟨false,y⟩ (9 * k + 1) samples) =
      ((.ok (acksFrom acks k bytes),t'),b) ∧ b.samples = samples ++ framesFrom acks k bytes := by
  induction bytes generalizing t y k samples with
  | nil => exact ⟨t,_,rfl,by rw [framesFrom,List.append_nil]; rfl⟩
  | cons byte rest ih =>
    obtain ⟨t',b,hrest,hsamples⟩ := ih (t.noted (acks k)) true
      (samples ++ (msbFirst byte ++ [!acks k])) (k + 1)
    refine ⟨t',b,?_,?_⟩
    · rw [writeBytes,Driver.exec_bind_ok (exec_writeByte_alone acks t y samples k byte),
        Driver.exec_bind_ok hrest]
      rfl
    · rw [hsamples,append_framesFrom]

end Alone

/-! ## The first differing bit -/

section Difference

variable (acks : ℕ → Bool) (s t : I2cMultiMaster) (x y : Bool) (n : ℕ) (samples : List Bool)

/-- The slot in which the masters differ, when both have written their bits. -/
def contested (n : ℕ) (samples : List Bool) : Bus := ⟨⟨true,true⟩,⟨true,false⟩,true,n,samples⟩

/-- What the loser is left with. -/
def I2cMultiMaster.beaten (s : I2cMultiMaster) : I2cMultiMaster :=
  {s with arbState := .lost, isMaster := false}

theorem contested_cons (n : ℕ) (samples : List Bool) (level : Bool) (rest : List Bool) :
    contested (n + 1 + rest.length) (samples ++ [level] ++ rest) =
      contested (n + (level::rest).length) (samples ++ level::rest) := by
  simp [Nat.add_assoc,Nat.add_comm 1]

/-- The master that sends a one reads a zero and gives up; the other has not noticed. -/
theorem outlived_writeBit (h : released acks n = true) :
    Driver.Outlived (both acks) (onlySecond acks) (writeBitWithArbitration true)
      (writeBitWithArbitration false) s t (between acks ⟨false,x⟩ ⟨false,y⟩ n samples)
      (.error (.err .arbitrationLost),s.beaten) (contested n samples)
      ((.ok (),t),between acks ⟨true,true⟩ ⟨false,false⟩ (n + 1) (samples ++ [false])) := by
  rw [between,h]
  refine Driver.Outlived.of_together (together_sclRise acks s t _) ?_
  refine Driver.Outlived.of_together (together_delay acks s t _) ?_
  refine Driver.Outlived.of_together (together_waitForClock acks s t rfl 999) ?_
  refine Driver.Outlived.of_together (together_sdaWrite acks s t .bit .bit true false _) ?_
  refine Driver.Outlived.of_together (together_delay acks s t _) ?_
  refine Driver.Outlived.of_together (together_sdaRead acks s t _) ?_
  exact ⟨_,rfl,rfl⟩

theorem outlived_writeBits (q d e : List Bool)
    (h : ∀ i < (q ++ false::e).length, released acks (n + i) = true) :
    ∃ y', Driver.Outlived (both acks) (onlySecond acks) (writeBits (q ++ true::d))
      (writeBits (q ++ false::e)) s t (between acks ⟨false,x⟩ ⟨false,y⟩ n samples)
      (.error (.err .arbitrationLost),s.beaten) (contested (n + q.length) (samples ++ q))
      ((.ok (),t),between acks ⟨true,true⟩ ⟨false,y'⟩ (n + (q ++ false::e).length)
        (samples ++ (q ++ false::e))) := by
  induction q generalizing x y n samples with
  | nil =>
    have hbit := outlived_writeBit acks s t x y n samples (h 0 (Nat.succ_pos _))
    obtain ⟨y',halone⟩ := exec_writeBits_alone acks t false (n + 1) (samples ++ [false]) e
      (rest_released acks h)
    rw [between_cons] at halone
    rw [List.append_nil]
    exact ⟨y',hbit.bind_ok rfl halone⟩
  | cons bit q ih =>
    have hbit := together_writeBit acks s t x y n samples bit (h 0 (Nat.succ_pos _))
    obtain ⟨y',hrest⟩ := ih bit bit (n + 1) (samples ++ [bit]) (rest_released acks h)
    rw [between_cons,contested_cons] at hrest
    exact ⟨y',Driver.Outlived.of_together hbit hrest⟩

theorem outlived_writeByte (k : ℕ) {byte byte' : UInt8} {q d e : List Bool}
    (hone : msbFirst byte = q ++ true::d) (hzero : msbFirst byte' = q ++ false::e) :
    Driver.Outlived (both acks) (onlySecond acks) (writeByte byte) (writeByte byte') s t
      (between acks ⟨false,x⟩ ⟨false,y⟩ (9 * k + 1) samples)
      (.error (.err .arbitrationLost),s.beaten)
      (contested (9 * k + 1 + q.length) (samples ++ q))
      ((.ok (acks k),t.noted (acks k)),between acks ⟨true,true⟩ ⟨false,true⟩ (9 * (k + 1) + 1)
        (samples ++ (msbFirst byte' ++ [!acks k]))) := by
  have hreleased : ∀ i < (q ++ false::e).length, released acks (9 * k + 1 + i) = true := by
    rw [← hzero]
    intro i hi
    exact released_bit acks k hi
  obtain ⟨y',hbits⟩ := outlived_writeBits acks s t x y (9 * k + 1) samples q d e hreleased
  rw [← hone,← hzero] at hbits
  have hack := exec_readAck_alone acks t y' (9 * k + 1 + 8) (samples ++ msbFirst byte')
  rw [released_ack,Bool.not_not] at hack
  exact hbits.bind_ok rfl (hack.trans (by rw [List.append_assoc]; rfl))

theorem msbFirst_injective {a b : UInt8} (h : msbFirst a = msbFirst b) : a = b := by
  apply eq_of_bit_eq
  intro i hi
  have hbits : ∀ i ∈ [7,6,5,4,3,2,1,0], bit a i = bit b i := List.map_inj_left.mp h
  refine hbits i ?_
  simp only [List.mem_cons,List.not_mem_nil,or_false]
  omega

/-- A sequence that begins with a byte and has `level` after `q`: the level is in that byte or
comes later. -/
theorem msbFirst_append_cases {a : UInt8} {q u xs : List Bool} {level : Bool}
    (h : msbFirst a ++ xs = q ++ level::u) :
    (∃ d, msbFirst a = q ++ level::d) ∨ ∃ q', q = msbFirst a ++ q' ∧ xs = q' ++ level::u := by
  obtain ⟨q',hq,hxs⟩ | ⟨c,ha,hc⟩ := List.append_eq_append_iff.mp h
  · exact .inr ⟨q',hq,hxs⟩
  · cases c with
    | nil => exact .inr ⟨[],by simpa using ha.symm,by simpa using hc.symm⟩
    | cons level' d =>
      obtain ⟨rfl,-⟩ := List.cons.inj hc
      exact .inl ⟨d,ha⟩

/-- The first differing bit is in the first byte, or the first bytes are the same. -/
theorem first_difference {a b : UInt8} {q u v xs ys : List Bool}
    (hone : msbFirst a ++ xs = q ++ true::u) (hzero : msbFirst b ++ ys = q ++ false::v) :
    (∃ d e, msbFirst a = q ++ true::d ∧ msbFirst b = q ++ false::e) ∨
      a = b ∧ ∃ q', q = msbFirst a ++ q' ∧ xs = q' ++ true::u ∧ ys = q' ++ false::v := by
  obtain ⟨d,hd⟩ | ⟨q',rfl,hxs⟩ := msbFirst_append_cases hone
  · obtain ⟨e,he⟩ | ⟨q',rfl,-⟩ := msbFirst_append_cases hzero
    · exact .inl ⟨d,e,hd,he⟩
    · -- a whole byte does not fit before a bit of another
      have hlength := congrArg List.length hd
      simp [msbFirst] at hlength
  · rw [List.append_assoc] at hzero
    obtain ⟨hbyte,hys⟩ := List.append_inj hzero rfl
    exact .inr ⟨msbFirst_injective hbyte.symm,q',rfl,hxs,hys⟩

/-- From the first differing bit on the bus belongs to the master that sends the zero. -/
theorem outlived_writeBytes (k : ℕ) {xs ys : List UInt8} {q u v : List Bool}
    (hone : bits xs = q ++ true::u) (hzero : bits ys = q ++ false::v) :
    ∃ s' t' b b', Driver.Outlived (both acks) (onlySecond acks) (writeBytes xs) (writeBytes ys) s t
      (between acks ⟨false,x⟩ ⟨false,y⟩ (9 * k + 1) samples)
      (.error (.err .arbitrationLost),s') b ((.ok (acksFrom acks k ys),t'),b') ∧
      s'.arbState = .lost ∧ b.falls = 9 * k + fallsBefore q.length ∧
      b'.samples = samples ++ framesFrom acks k ys := by
  induction xs generalizing ys q k s t x y samples with
  | nil => simp [bits] at hone
  | cons byte xs ih =>
    cases ys with
    | nil => simp [bits] at hzero
    | cons byte' ys =>
      obtain ⟨d,e,hd,he⟩ | ⟨rfl,q',rfl,hxs,hys⟩ := first_difference hone hzero
      · have hfirst : q.length / 8 = 0 := by
          have hlength := congrArg List.length hd
          simp [msbFirst] at hlength
          omega
        have hbyte := outlived_writeByte acks s t x y samples k hd he
        obtain ⟨t',b',hrest,hsamples⟩ := exec_writeBytes_alone acks (t.noted (acks k)) true
          (samples ++ (msbFirst byte' ++ [!acks k])) (k + 1) ys
        refine ⟨s.beaten,t',_,b',hbyte.bind_ok rfl ?_,rfl,?_,?_⟩
        · rw [Driver.exec_bind_ok hrest]
          rfl
        · have hfalls : (contested (9 * k + 1 + q.length) (samples ++ q)).falls =
            9 * k + 1 + q.length := rfl
          rw [hfalls,fallsBefore,hfirst]
          omega
        · rw [hsamples,append_framesFrom]
      · have hbyte := together_writeByte acks s t x y samples k byte
        obtain ⟨s',t',b,b',hrest,hlost,hfalls,hsamples⟩ := ih (s.noted (acks k))
          (t.noted (acks k)) true true (samples ++ (msbFirst byte ++ [!acks k])) (k + 1) hxs hys
        refine ⟨s',t',b,b',.of_together hbyte (hrest.bind_ok rfl rfl),hlost,?_,?_⟩
        · have hlength : (msbFirst byte ++ q').length = 8 + q'.length := List.length_append
          rw [hfalls,fallsBefore,fallsBefore,hlength]
          omega
        · rw [hsamples,append_framesFrom]

end Difference

/-! ## One sequence is the beginning of the other -/

section Agreement

variable (acks : ℕ → Bool) (s t : I2cMultiMaster) (x y slave : Bool) (n : ℕ)
  (samples : List Bool)

/-- A master that is done after a byte holds SCL low. -/
theorem exec_waitForClock_held (polls : ℕ) :
    (waitForClock polls).exec (onlySecond acks) t ⟨⟨false,x⟩,⟨true,y⟩,slave,n,samples⟩ =
      ((.error (.err .timeout),t),⟨⟨false,x⟩,⟨true,y⟩,slave,n,samples⟩) := by
  induction polls with
  | zero => rfl
  | succ polls ih =>
    have hread : sclRead.exec (onlySecond acks) t ⟨⟨false,x⟩,⟨true,y⟩,slave,n,samples⟩ =
      ((.ok false,t),⟨⟨false,x⟩,⟨true,y⟩,slave,n,samples⟩) := rfl
    rw [waitForClock,Driver.exec_bind_ok hread]
    exact ih

/-- The other one waits in vain then, and nothing more is carried. -/
theorem exec_writeBytes_held (byte : UInt8) (rest : List UInt8) :
    ∃ b, (writeBytes (byte::rest)).exec (onlySecond acks) t
        (between acks ⟨false,x⟩ ⟨false,y⟩ n samples) = ((.error (.err .timeout),t),b) ∧
      b.samples = samples := by
  have hrise : (sclWrite true).exec (onlySecond acks) t
      ⟨⟨false,x⟩,⟨false,y⟩,released acks n,n,samples⟩ =
    ((.ok (),t),⟨⟨false,x⟩,⟨true,y⟩,released acks n,n,samples⟩) := rfl
  have hdelay : delay.exec (onlySecond acks) t
      ⟨⟨false,x⟩,⟨true,y⟩,released acks n,n,samples⟩ =
    ((.ok (),t),⟨⟨false,x⟩,⟨true,y⟩,released acks n,n,samples⟩) := rfl
  have hbit : (writeBitWithArbitration (bit byte 7)).exec (onlySecond acks) t
      ⟨⟨false,x⟩,⟨false,y⟩,released acks n,n,samples⟩ =
      ((.error (.err .timeout),t),⟨⟨false,x⟩,⟨true,y⟩,released acks n,n,samples⟩) := by
    rw [writeBitWithArbitration,Driver.exec_bind_ok hrise,Driver.exec_bind_ok hdelay]
    exact Driver.exec_bind_error (exec_waitForClock_held acks t x y (released acks n) n samples _)
  have hbyte : (writeByte byte).exec (onlySecond acks) t
      ⟨⟨false,x⟩,⟨false,y⟩,released acks n,n,samples⟩ =
      ((.error (.err .timeout),t),⟨⟨false,x⟩,⟨true,y⟩,released acks n,n,samples⟩) :=
    Driver.exec_bind_error (Driver.exec_bind_error hbit)
  refine ⟨⟨⟨false,x⟩,⟨true,y⟩,released acks n,n,samples⟩,?_,rfl⟩
  rw [writeBytes,between,Driver.exec_bind_error hbyte]

/-- Both masters send the shorter sequence to its end, and a longer one ends there. -/
theorem outlived_of_isPrefix (k : ℕ) {xs ys : List UInt8} (h : xs <+: ys) :
    ∃ s' b r, Driver.Outlived (both acks) (onlySecond acks) (writeBytes xs) (writeBytes ys) s t
      (between acks ⟨false,x⟩ ⟨false,y⟩ (9 * k + 1) samples) (.ok (acksFrom acks k xs),s') b r ∧
      r.2.samples = samples ++ framesFrom acks k xs ∧
      (xs ≠ ys → r.1.1 = .error (.err .timeout)) := by
  induction xs generalizing ys k s t x y samples with
  | nil =>
    refine ⟨s,_,_,⟨_,rfl,rfl⟩,?_⟩
    rw [framesFrom,List.append_nil]
    cases ys with
    | nil => exact ⟨rfl,fun hne => absurd rfl hne⟩
    | cons byte rest =>
      obtain ⟨b,hb,hsamples⟩ := exec_writeBytes_held acks t x y (9 * k + 1) samples byte rest
      have hrun : (Driver.program (writeBytes (byte::rest)) t).run (onlySecond acks)
          (between acks ⟨false,x⟩ ⟨false,y⟩ (9 * k + 1) samples) =
        ((.error (.err .timeout),t),b) := hb
      rw [hrun]
      exact ⟨hsamples,fun _ => rfl⟩
  | cons byte xs ih =>
    cases ys with
    | nil => simp at h
    | cons byte' ys =>
      obtain ⟨rfl,hrest⟩ := List.cons_prefix_cons.mp h
      have hbyte := together_writeByte acks s t x y samples k byte
      obtain ⟨s',b,r,hrest,hsamples,htimeout⟩ := ih (s.noted (acks k)) (t.noted (acks k)) true true
        (samples ++ (msbFirst byte ++ [!acks k])) (k + 1) hrest
      refine ⟨s',b,_,.of_together hbyte (hrest.bind rfl),?_⟩
      obtain ⟨⟨answer,t'⟩,b'⟩ := r
      rw [append_framesFrom] at hsamples
      have htail : byte::xs ≠ byte::ys → xs ≠ ys := fun hne heq => hne (heq ▸ rfl)
      cases answer with
      | ok => exact ⟨hsamples,fun hne => absurd (htimeout (htail hne)) nofun⟩
      | error failure =>
        refine ⟨hsamples,fun hne => ?_⟩
        obtain rfl := Except.error.inj (htimeout (htail hne))
        rfl

end Agreement

/-! ## The outcome -/

theorem settle_swap (acks : ℕ → Bool) (b : Bus) (first second : Wires) :
    settle acks b.swap second first = (settle acks b first second).swap := by
  simp only [settle,Bus.scl,Bus.sda,Bus.swap,Bool.and_comm]
  split <;> rfl

theorem Bus.answer_swap (b : Bus) (e : HalCall) : b.swap.answer e = b.answer e := by
  cases e <;> simp [Bus.answer,Bus.scl,Bus.sda,Bus.swap,Bool.and_comm]

/-- It does not matter which master is the first. -/
theorem contend_swap (acks : ℕ → Bool) (s t : I2cMultiMaster) (xs ys : List UInt8) :
    contend acks t s ys xs = (((contend acks s t xs ys).1.2,(contend acks s t xs ys).1.1),
      (contend acks s t xs ys).2.swap) := by
  have hboth : ∀ e f b, both acks f e b.swap =
      (((both acks e f b).1.2,(both acks e f b).1.1),(both acks e f b).2.swap) := by
    intro e f b
    rw [both_eq acks (settle_swap acks b (b.first.drive e) (b.second.drive f)),Bus.answer_swap,
      Bus.answer_swap]
    rfl
  have hfirst : ∀ e b, onlySecond acks e b.swap =
      ((onlyFirst acks e b).1,(onlyFirst acks e b).2.swap) := by
    intro e b
    have h := settle_swap acks b (b.first.drive e) b.second
    exact (congrArg (fun b => (b.answer e,b)) h).trans (by rw [Bus.answer_swap])
  have hsecond : ∀ e b, onlyFirst acks e b.swap =
      ((onlySecond acks e b).1,(onlySecond acks e b).2.swap) := by
    intro e b
    have h := settle_swap acks b b.first (b.second.drive e)
    exact (congrArg (fun b => (b.answer e,b)) h).trans (by rw [Bus.answer_swap])
  have hidle : idleBus.swap = idleBus := rfl
  have hrun := Program.lockstep_swap Bus.swap hboth hfirst hsecond ((send xs).program s)
    ((send ys).program t) idleBus
  rw [hidle] at hrun
  unfold contend
  exact hrun

section Outcome

variable (acks : ℕ → Bool) (s t : I2cMultiMaster) {xs ys : List UInt8}

/-- Both masters get past the START. -/
theorem outlived_send {x : Except Failure (List Bool) × I2cMultiMaster} {b : Bus}
    {r : (Except Failure (List Bool) × I2cMultiMaster) × Bus}
    (h : Driver.Outlived (both acks) (onlySecond acks) (writeBytes xs) (writeBytes ys)
      {s with arbState := .inProgress} {t with arbState := .inProgress}
      (between acks ⟨false,false⟩ ⟨false,false⟩ 1 [false]) x b r) :
    firstEnds acks s t xs ys = some (x,b) ∧ contend acks s t xs ys = ((x,r.1),r.2) := by
  have hstart := together_start acks s t 0 [] rfl
  have hsend : Driver.Outlived (both acks) (onlySecond acks) (send xs) (send ys) s t idleBus
      x b r := .of_together hstart h
  refine ⟨?_,hsend.lockstep⟩
  obtain ⟨rest,hrest,-⟩ := hsend
  rw [firstEnds,hrest]
  rfl

theorem contend_agree (h : xs <+: ys) :
    (contend acks s t xs ys).1.1.1 = .ok (acksFrom acks 0 xs) ∧
      (contend acks s t xs ys).2.samples = carried acks xs ∧
      (xs ≠ ys → (contend acks s t xs ys).1.2.1 = .error (.err .timeout)) := by
  obtain ⟨s',b,r,hr,hsamples,htimeout⟩ := outlived_of_isPrefix acks
    {s with arbState := .inProgress} {t with arbState := .inProgress} false false [false] 0 h
  rw [(outlived_send acks s t hr).2]
  exact ⟨rfl,hsamples,htimeout⟩

theorem contend_differ {q u v : List Bool} (hone : bits xs = q ++ true::u)
    (hzero : bits ys = q ++ false::v) :
    ∃ s' t' b b', firstEnds acks s t xs ys = some ((.error (.err .arbitrationLost),s'),b) ∧
      b.falls = fallsBefore q.length ∧
      contend acks s t xs ys =
        (((.error (.err .arbitrationLost),s'),(.ok (acksFrom acks 0 ys),t')),b') ∧
      s'.arbState = .lost ∧ b'.samples = carried acks ys := by
  obtain ⟨s',t',b,b',hr,hlost,hfalls,hsamples⟩ := outlived_writeBytes acks
    {s with arbState := .inProgress} {t with arbState := .inProgress} false false [false] 0
    hone hzero
  obtain ⟨hends,hrun⟩ := outlived_send acks s t hr
  rw [Nat.mul_zero,Nat.zero_add] at hfalls
  exact ⟨s',t',b,b',hends,hfalls,hrun,hlost,hsamples⟩

end Outcome

/-- Two masters send at the same time. While their bits agree both go on, to the end of the shorter
sequence; a longer one has been sent just as far, and ends there with a timeout, as the other
master then holds SCL low. In the slot of the first bit in which they differ the one that sends a
one returns `ArbitrationLost`; the other sends all its bytes, and the bus carries these and nothing
else. -/
theorem arbitration_winner (acks : ℕ → Bool) (s t : I2cMultiMaster) (xs ys : List UInt8) :
    (xs <+: ys →
      (contend acks s t xs ys).1.1.1 = .ok (acksFrom acks 0 xs) ∧
      (contend acks s t xs ys).2.samples = carried acks xs ∧
      (xs ≠ ys → (contend acks s t xs ys).1.2.1 = .error (.err .timeout))) ∧
    (ys <+: xs →
      (contend acks s t xs ys).1.2.1 = .ok (acksFrom acks 0 ys) ∧
      (contend acks s t xs ys).2.samples = carried acks ys ∧
      (ys ≠ xs → (contend acks s t xs ys).1.1.1 = .error (.err .timeout))) ∧
    (∀ q u v, bits xs = q ++ true::u → bits ys = q ++ false::v →
      ∃ s' t' b b', firstEnds acks s t xs ys = some ((.error (.err .arbitrationLost),s'),b) ∧
        b.falls = fallsBefore q.length ∧
        contend acks s t xs ys =
          (((.error (.err .arbitrationLost),s'),(.ok (acksFrom acks 0 ys),t')),b') ∧
        s'.arbState = .lost ∧ b'.samples = carried acks ys) ∧
    (∀ q u v, bits xs = q ++ false::u → bits ys = q ++ true::v →
      ∃ s' t' b b', firstEnds acks t s ys xs = some ((.error (.err .arbitrationLost),t'),b) ∧
        b.falls = fallsBefore q.length ∧
        contend acks s t xs ys =
          (((.ok (acksFrom acks 0 xs),s'),(.error (.err .arbitrationLost),t')),b') ∧
        t'.arbState = .lost ∧ b'.samples = carried acks xs) := by
  refine ⟨contend_agree acks s t,?_,?_,?_⟩
  · intro h
    rw [contend_swap acks t s ys xs]
    dsimp only [Bus.swap]
    exact contend_agree acks t s h
  · intro q u v hone hzero
    exact contend_differ acks s t hone hzero
  · intro q u v hzero hone
    obtain ⟨t',s',b,b',hends,hfalls,hrun,hlost,hsamples⟩ := contend_differ acks t s hone hzero
    refine ⟨s',t',b,b'.swap,hends,hfalls,?_,hlost,hsamples⟩
    rw [contend_swap acks t s ys xs,hrun]

/-- Two addresses that differ in their fourth bit. -/
theorem arbitration_winner_lowerAddress :
    ∃ s' t' b b', firstEnds (fun _ => true) (.new 3) (.new 3) [0xB0,0x01] [0xA0,0xFF] =
        some ((.error (.err .arbitrationLost),s'),b) ∧
      b.falls = fallsBefore 3 ∧
      contend (fun _ => true) (.new 3) (.new 3) [0xB0,0x01] [0xA0,0xFF] =
        (((.error (.err .arbitrationLost),s'),
          (.ok (acksFrom (fun _ => true) 0 [0xA0,0xFF]),t')),b') ∧
      s'.arbState = .lost ∧ b'.samples = carried (fun _ => true) [0xA0,0xFF] := by
  have hone : bits [0xB0,0x01] = [true,false,true] ++
      true::[false,false,false,false,false,false,false,false,false,false,false,true] := by decide
  have hzero : bits [0xA0,0xFF] = [true,false,true] ++
      false::[false,false,false,false,true,true,true,true,true,true,true,true] := by decide
  exact (arbitration_winner _ _ _ _ _).2.2.1 _ _ _ hone hzero

end MultiMasterI2c
end UProtocols
