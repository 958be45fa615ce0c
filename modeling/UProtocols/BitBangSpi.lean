import UProtocols.ByteBits
import UProtocols.Interaction

/-!
# The bit-banged SPI master

`BitBangSpi` of `bit_banging_spi_implementation.rs`: its initialization, `transfer_byte` and
`transfer` as the calls that they make on four pins, each of which may fail. At the other end of
the wires is a slave of the same mode and bit order, which reacts to the edges of SCK and CS.
-/

namespace UProtocols
namespace BitBangSpi

open Interaction ByteBits

inductive SpiMode
  | mode0
  | mode1
  | mode2
  | mode3
  deriving DecidableEq

def SpiMode.cpol : SpiMode → Bool
  | mode2 | mode3 => true
  | mode0 | mode1 => false

def SpiMode.cpha : SpiMode → Bool
  | mode1 | mode3 => true
  | mode0 | mode2 => false

structure SpiConfig where
  mode : SpiMode
  delayUs : UInt64
  msbFirst : Bool
  deriving DecidableEq

/-- `set_high` and `set_low` of the three output pins, `is_high` of MISO, and sleeping. -/
inductive PinCall
  | setMosi (high : Bool)
  | setSck (high : Bool)
  | setCs (high : Bool)
  | misoIsHigh
  | sleep (us : UInt64)
  deriving DecidableEq

/-- Each pin has its own type of errors. -/
inductive SpiError (MosiE MisoE SckE CsE : Type)
  | mosi (e : MosiE)
  | miso (e : MisoE)
  | sck (e : SckE)
  | cs (e : CsE)
  deriving DecidableEq

variable {MosiE MisoE SckE CsE : Type}

abbrev Answer (MosiE MisoE SckE CsE : Type) : PinCall → Type
  | .setMosi _ => Except MosiE Unit
  | .setSck _ => Except SckE Unit
  | .setCs _ => Except CsE Unit
  | .misoIsHigh => Except MisoE Bool
  | .sleep _ => Unit

/-- The configuration, and the buffer that the caller lends to a transfer. -/
structure Master where
  config : SpiConfig
  data : List UInt8
  deriving DecidableEq

abbrev Spi (MosiE MisoE SckE CsE : Type) :=
  Driver PinCall (Answer MosiE MisoE SckE CsE) Master (SpiError MosiE MisoE SckE CsE)

section Methods

def setMosi (high : Bool) : Spi MosiE MisoE SckE CsE Unit := do
  match ← Driver.perform (PinCall.setMosi high) with
  | .ok () => return ()
  | .error e => throw (.mosi e)

def setSck (high : Bool) : Spi MosiE MisoE SckE CsE Unit := do
  match ← Driver.perform (PinCall.setSck high) with
  | .ok () => return ()
  | .error e => throw (.sck e)

def setCs (high : Bool) : Spi MosiE MisoE SckE CsE Unit := do
  match ← Driver.perform (PinCall.setCs high) with
  | .ok () => return ()
  | .error e => throw (.cs e)

def misoIsHigh : Spi MosiE MisoE SckE CsE Bool := do
  match ← Driver.perform PinCall.misoIsHigh with
  | .ok high => return high
  | .error e => throw (.miso e)

def sleep (us : UInt64) : Spi MosiE MisoE SckE CsE Unit := Driver.perform (PinCall.sleep us)

def delay : Spi MosiE MisoE SckE CsE Unit := do
  let self ← get
  sleep self.config.delayUs

def clockFirstEdge : Spi MosiE MisoE SckE CsE Unit := do
  let self ← get
  if self.config.mode.cpol then setSck false else setSck true

def clockSecondEdge : Spi MosiE MisoE SckE CsE Unit := do
  let self ← get
  if self.config.mode.cpol then setSck true else setSck false

/-- `initialize`. -/
def initializePins : Spi MosiE MisoE SckE CsE Unit := do
  let self ← get
  setMosi false
  setCs true
  if self.config.mode.cpol then setSck true else setSck false

def bitIndex (msbFirst : Bool) (i : ℕ) : ℕ := if msbFirst then 7 - i else i

/-- The clock cycle of a bit: MISO is read after the first edge or after the second one. -/
def clockCycle : Spi MosiE MisoE SckE CsE Bool := do
  let self ← get
  if !self.config.mode.cpha then
    delay
    clockFirstEdge
    let high ← misoIsHigh
    delay
    clockSecondEdge
    return high
  else
    delay
    clockFirstEdge
    delay
    clockSecondEdge
    misoIsHigh

/-- One round of the loop of `transfer_byte`. -/
def transferBit (dataOut : UInt8) (i : ℕ) (dataIn : UInt8) : Spi MosiE MisoE SckE CsE UInt8 := do
  let self ← get
  let index := bitIndex self.config.msbFirst i
  if bit dataOut index then setMosi true else setMosi false
  let high ← clockCycle
  return if high then setBit dataIn index else dataIn

/-- The rounds from bit `i` on. -/
def transferBits (dataOut : UInt8) : List ℕ → UInt8 → Spi MosiE MisoE SckE CsE UInt8
  | [], dataIn => return dataIn
  | i::is, dataIn => do
    let dataIn ← transferBit dataOut i dataIn
    transferBits dataOut is dataIn

def transferByte (dataOut : UInt8) : Spi MosiE MisoE SckE CsE UInt8 :=
  transferBits dataOut (List.range 8) 0

/-- The loop of `transfer` from place `k` of the buffer on. -/
def transferBytes : ℕ → List UInt8 → Spi MosiE MisoE SckE CsE Unit
  | _, [] => return ()
  | k, byte::rest => do
    let answer ← transferByte byte
    modify fun self => {self with data := self.data.set k answer}
    transferBytes (k + 1) rest

def transfer : Spi MosiE MisoE SckE CsE Unit := do
  let self ← get
  setCs false
  sleep 1
  transferBytes 0 self.data
  sleep 1
  setCs true

end Methods

/-! ## A slave -/

/-- The bytes that a slave has received, the bits of the one under way, and the level of MISO. -/
structure Slave where
  received : List UInt8
  shift : UInt8
  count : ℕ
  miso : Bool
  deriving DecidableEq

/-- The levels of the wires, and the slave. -/
structure Bus where
  mosi : Bool
  sck : Bool
  cs : Bool
  slave : Slave
  deriving DecidableEq

section Wires

variable (config : SpiConfig) (reply : List UInt8 → UInt8)

namespace Slave

/-- Put the next bit of the byte that answers what was received so far on MISO. -/
def present (s : Slave) : Slave :=
  {s with miso := bit (reply s.received) (bitIndex config.msbFirst s.count)}

/-- Take a bit from MOSI; the eighth one completes a byte. -/
def sample (mosi : Bool) (s : Slave) : Slave :=
  let shift := if mosi then setBit s.shift (bitIndex config.msbFirst s.count) else s.shift
  if s.count = 7 then {s with received := s.received ++ [shift], shift := 0, count := 0}
  else {s with shift := shift, count := s.count + 1}

def firstEdge (mosi : Bool) (s : Slave) : Slave :=
  if config.mode.cpha then s.present config reply else s.sample config mosi

def secondEdge (mosi : Bool) (s : Slave) : Slave :=
  if config.mode.cpha then s.sample config mosi else s.present config reply

/-- CS falls: a new byte begins, and with CPHA=0 its first bit is on the line. -/
def select (s : Slave) : Slave :=
  let s := {s with shift := 0, count := 0}
  if config.mode.cpha then s else s.present config reply

end Slave

namespace Bus

def setSck (high : Bool) (b : Bus) : Bus :=
  if high = b.sck then b
  else if b.cs then {b with sck := high}
  else if high = config.mode.cpol then
    {b with sck := high, slave := b.slave.secondEdge config reply b.mosi}
  else {b with sck := high, slave := b.slave.firstEdge config reply b.mosi}

def setCs (high : Bool) (b : Bus) : Bus :=
  if high = b.cs then b
  else if high then {b with cs := true}
  else {b with cs := false, slave := b.slave.select config reply}

/-- Pins that do not fail. -/
def handle : (call : PinCall) → Bus → Answer MosiE MisoE SckE CsE call × Bus
  | .setMosi high, b => (.ok (),{b with mosi := high})
  | .setSck high, b => (.ok (),b.setSck config reply high)
  | .setCs high, b => (.ok (),b.setCs config reply high)
  | .misoIsHigh, b => (.ok b.slave.miso,b)
  | .sleep _, b => ((),b)

end Bus

end Wires

/-! ## A bit -/

section Exchange

variable {config : SpiConfig} {reply : List UInt8 → UInt8}

/-- A selected slave between two bits, with the next one on the line where the mode wants it. -/
structure Ready (config : SpiConfig) (reply : List UInt8 → UInt8) (b : Bus) : Prop where
  sck_idle : b.sck = config.mode.cpol
  selected : b.cs = false
  presents : config.mode.cpha = false →
    b.slave.miso = bit (reply b.slave.received) (bitIndex config.msbFirst b.slave.count)

/-- What a clock does to the slave. -/
def Slave.cycle (config : SpiConfig) (reply : List UInt8 → UInt8) (mosi : Bool) (s : Slave) :
    Slave :=
  (s.firstEdge config reply mosi).secondEdge config reply mosi

section Pins

variable (data : List UInt8) {b : Bus}

theorem exec_clockFirstEdge (h : Ready config reply b) :
    (clockFirstEdge : Spi MosiE MisoE SckE CsE Unit).exec (Bus.handle config reply)
        ⟨config,data⟩ b =
      ((.ok (),⟨config,data⟩),{b with
        sck := !config.mode.cpol, slave := b.slave.firstEdge config reply b.mosi}) := by
  obtain ⟨mode,delayUs,msbFirst⟩ := config
  obtain ⟨mosi,sck,cs,slave⟩ := b
  obtain ⟨hsck,hcs,-⟩ := h
  simp only at hsck hcs
  subst hsck hcs
  cases mode <;> rfl

theorem exec_clockSecondEdge (hcs : b.cs = false) (slave : Slave) :
    (clockSecondEdge : Spi MosiE MisoE SckE CsE Unit).exec (Bus.handle config reply)
        ⟨config,data⟩ {b with sck := !config.mode.cpol, slave} =
      ((.ok (),⟨config,data⟩),{b with
        sck := config.mode.cpol, slave := slave.secondEdge config reply b.mosi}) := by
  obtain ⟨mode,delayUs,msbFirst⟩ := config
  obtain ⟨mosi,sck,cs,slave⟩ := b
  subst hcs
  cases mode <;> rfl

theorem exec_setMosi (high : Bool) :
    (setMosi high : Spi MosiE MisoE SckE CsE Unit).exec (Bus.handle config reply)
        ⟨config,data⟩ b = ((.ok (),⟨config,data⟩),{b with mosi := high}) := rfl

theorem exec_setCs (high : Bool) :
    (setCs high : Spi MosiE MisoE SckE CsE Unit).exec (Bus.handle config reply)
        ⟨config,data⟩ b = ((.ok (),⟨config,data⟩),b.setCs config reply high) := rfl

theorem exec_sleep (us : UInt64) :
    (sleep us : Spi MosiE MisoE SckE CsE Unit).exec (Bus.handle config reply) ⟨config,data⟩ b =
      ((.ok (),⟨config,data⟩),b) := rfl

theorem exec_delay : (delay : Spi MosiE MisoE SckE CsE Unit).exec (Bus.handle config reply)
    ⟨config,data⟩ b = ((.ok (),⟨config,data⟩),b) := rfl

theorem exec_misoIsHigh :
    (misoIsHigh : Spi MosiE MisoE SckE CsE Bool).exec (Bus.handle config reply) ⟨config,data⟩ b =
      ((.ok b.slave.miso,⟨config,data⟩),b) := rfl

theorem Slave.miso_sample (mosi : Bool) (s : Slave) : (s.sample config mosi).miso = s.miso := by
  simp only [Slave.sample]
  split <;> rfl

/-- The master sees the bit that the slave presents, whichever edge it is presented on. -/
theorem exec_clockCycle (h : Ready config reply b) :
    (clockCycle : Spi MosiE MisoE SckE CsE Bool).exec (Bus.handle config reply)
        ⟨config,data⟩ b =
      ((.ok (bit (reply b.slave.received) (bitIndex config.msbFirst b.slave.count)),
          ⟨config,data⟩),
        {b with slave := b.slave.cycle config reply b.mosi}) := by
  have hsck := h.sck_idle
  cases hcpha : config.mode.cpha with
  | false =>
    have hmiso : (b.slave.firstEdge config reply b.mosi).miso =
        bit (reply b.slave.received) (bitIndex config.msbFirst b.slave.count) := by
      rw [Slave.firstEdge,hcpha,← h.presents hcpha]
      exact Slave.miso_sample _ _
    rw [clockCycle,Driver.exec_bind_ok (Driver.exec_get _ _)]
    simp only [hcpha,Bool.not_false,if_true]
    rw [Driver.exec_bind_ok (exec_delay data),Driver.exec_bind_ok (exec_clockFirstEdge data h),
      Driver.exec_bind_ok (exec_misoIsHigh data),Driver.exec_bind_ok (exec_delay data),
      Driver.exec_bind_ok (exec_clockSecondEdge data h.selected _),Driver.exec_pure,hmiso,← hsck]
    rfl
  | true =>
    have hmiso : (b.slave.cycle config reply b.mosi).miso =
        bit (reply b.slave.received) (bitIndex config.msbFirst b.slave.count) := by
      simp [Slave.cycle,Slave.firstEdge,Slave.secondEdge,hcpha,Slave.miso_sample,Slave.present]
    rw [clockCycle,Driver.exec_bind_ok (Driver.exec_get _ _)]
    simp only [hcpha,Bool.not_true,Bool.false_eq_true,if_false]
    rw [Driver.exec_bind_ok (exec_delay data),Driver.exec_bind_ok (exec_clockFirstEdge data h),
      Driver.exec_bind_ok (exec_delay data),
      Driver.exec_bind_ok (exec_clockSecondEdge data h.selected _),exec_misoIsHigh,← hsck,← hmiso]
    rfl

end Pins

theorem exec_transferBit {b : Bus} (h : Ready config reply b) (data : List UInt8)
    (dataOut : UInt8) (dataIn : UInt8) :
    (transferBit dataOut b.slave.count dataIn : Spi MosiE MisoE SckE CsE UInt8).exec
        (Bus.handle config reply) ⟨config,data⟩ b =
      ((.ok (if bit (reply b.slave.received) (bitIndex config.msbFirst b.slave.count)
          then setBit dataIn (bitIndex config.msbFirst b.slave.count) else dataIn),⟨config,data⟩),
        {b with
          mosi := bit dataOut (bitIndex config.msbFirst b.slave.count)
          slave := b.slave.cycle config reply
            (bit dataOut (bitIndex config.msbFirst b.slave.count))}) := by
  have hset : ∀ mosi, Ready config reply {b with mosi} := fun mosi =>
    ⟨h.sck_idle,h.selected,h.presents⟩
  rw [transferBit,Driver.exec_bind_ok (Driver.exec_get _ _)]
  cases hbit : bit dataOut (bitIndex config.msbFirst b.slave.count) with
  | false =>
    simp only [hbit,Bool.false_eq_true,if_false]
    rw [Driver.exec_bind_ok (exec_setMosi data false),
      Driver.exec_bind_ok (exec_clockCycle data (hset false))]
    rfl
  | true =>
    simp only [hbit,if_true]
    rw [Driver.exec_bind_ok (exec_setMosi data true),
      Driver.exec_bind_ok (exec_clockCycle data (hset true))]
    rfl

/-- Presenting a bit changes only MISO, so a clock takes in what `sample` takes in. -/
theorem Slave.cycle_cases (config : SpiConfig) (reply : List UInt8 → UInt8) (mosi : Bool)
    (s : Slave) :
    (s.cycle config reply mosi).received = (s.sample config mosi).received ∧
      (s.cycle config reply mosi).shift = (s.sample config mosi).shift ∧
      (s.cycle config reply mosi).count = (s.sample config mosi).count := by
  cases hcpha : config.mode.cpha with
  | false => simp [cycle,firstEdge,secondEdge,hcpha,present]
  | true =>
    simp only [cycle,firstEdge,secondEdge,hcpha,if_true,sample,present]
    split <;> exact ⟨rfl,rfl,rfl⟩

/-- The eighth bit completes the byte. -/
theorem Slave.cycle_last (config : SpiConfig) (reply : List UInt8 → UInt8) (mosi : Bool)
    {s : Slave} (h : s.count = 7) :
    (s.cycle config reply mosi).received = s.received ++
        [if mosi then setBit s.shift (bitIndex config.msbFirst s.count) else s.shift] ∧
      (s.cycle config reply mosi).shift = 0 ∧ (s.cycle config reply mosi).count = 0 := by
  obtain ⟨hreceived,hshift,hcount⟩ := Slave.cycle_cases config reply mosi s
  rw [hreceived,hshift,hcount,sample,if_pos h]
  exact ⟨rfl,rfl,rfl⟩

theorem Slave.cycle_next (config : SpiConfig) (reply : List UInt8 → UInt8) (mosi : Bool)
    {s : Slave} (h : s.count ≠ 7) :
    (s.cycle config reply mosi).received = s.received ∧
      (s.cycle config reply mosi).shift =
        (if mosi then setBit s.shift (bitIndex config.msbFirst s.count) else s.shift) ∧
      (s.cycle config reply mosi).count = s.count + 1 := by
  obtain ⟨hreceived,hshift,hcount⟩ := Slave.cycle_cases config reply mosi s
  rw [hreceived,hshift,hcount,sample,if_neg h]
  exact ⟨rfl,rfl,rfl⟩

theorem Ready.cycle {b : Bus} (h : Ready config reply b) (mosi : Bool) :
    Ready config reply {b with mosi, slave := b.slave.cycle config reply mosi} where
  sck_idle := h.sck_idle
  selected := h.selected
  presents := by
    intro hcpha
    simp [Slave.cycle,Slave.firstEdge,Slave.secondEdge,hcpha,Slave.present]

/-! ## A byte -/

/-- The positions of the bits from number `i` on, in the order of the wire. -/
def positions (msbFirst : Bool) (i n : ℕ) : List ℕ := (List.range' i n).map (bitIndex msbFirst)

/-- The rest of a byte. The induction is on the bits after the next one: the last bit of the
byte is the one that the slave completes it with. -/
theorem exec_transferBits {n : ℕ} {b : Bus} (h : Ready config reply b)
    (hcount : b.slave.count + n = 7) (data : List UInt8) (dataOut dataIn : UInt8) :
    ∃ v, (transferBits dataOut (List.range' b.slave.count (n + 1)) dataIn :
          Spi MosiE MisoE SckE CsE UInt8).exec (Bus.handle config reply) ⟨config,data⟩ b =
        ((.ok (gather (bit (reply b.slave.received))
          (positions config.msbFirst b.slave.count (n + 1)) dataIn),⟨config,data⟩),v) ∧
      Ready config reply v ∧ v.slave.count = 0 ∧ v.slave.shift = 0 ∧
      v.slave.received = b.slave.received ++ [gather (bit dataOut)
        (positions config.msbFirst b.slave.count (n + 1)) b.slave.shift] := by
  induction n generalizing b dataIn with
  | zero =>
    have hlast := Slave.cycle_last config reply
      (bit dataOut (bitIndex config.msbFirst b.slave.count)) hcount
    refine ⟨_,?_,h.cycle _,hlast.2.2,hlast.2.1,hlast.1⟩
    rw [List.range'_one,transferBits,Driver.exec_bind_ok (exec_transferBit h data dataOut dataIn)]
    rfl
  | succ n ih =>
    have hmore : b.slave.count ≠ 7 := by omega
    obtain ⟨hreceived,hshift,hnext⟩ := Slave.cycle_next config reply
      (bit dataOut (bitIndex config.msbFirst b.slave.count)) hmore
    have hrest := ih (h.cycle (bit dataOut (bitIndex config.msbFirst b.slave.count)))
    simp only [hnext,hreceived,hshift] at hrest
    obtain ⟨v,hv,hready,hzero,hempty,hall⟩ := hrest (by omega)
      (if bit (reply b.slave.received) (bitIndex config.msbFirst b.slave.count)
        then setBit dataIn (bitIndex config.msbFirst b.slave.count) else dataIn)
    refine ⟨v,?_,hready,hzero,hempty,hall⟩
    rw [List.range'_succ,transferBits,
      Driver.exec_bind_ok (exec_transferBit h data dataOut dataIn),hv]
    rfl

theorem mem_positions (msbFirst : Bool) {i : ℕ} (hi : i < 8) : i ∈ positions msbFirst 0 8 := by
  decide +revert

theorem positions_lt (msbFirst : Bool) : ∀ i ∈ positions msbFirst 0 8, i < 8 := by
  cases msbFirst <;> decide

/-- A slave at the start of a byte. -/
structure AtByte (config : SpiConfig) (reply : List UInt8 → UInt8) (b : Bus) : Prop
    extends Ready config reply b where
  count_eq : b.slave.count = 0
  shift_eq : b.slave.shift = 0

/-- Master and slave exchange their bytes. -/
theorem exec_transferByte {b : Bus} (h : AtByte config reply b) (data : List UInt8)
    (dataOut : UInt8) :
    ∃ v, (transferByte dataOut : Spi MosiE MisoE SckE CsE UInt8).exec (Bus.handle config reply)
          ⟨config,data⟩ b = ((.ok (reply b.slave.received),⟨config,data⟩),v) ∧
      AtByte config reply v ∧ v.slave.received = b.slave.received ++ [dataOut] := by
  have hcount : b.slave.count + 7 = 7 := by rw [h.count_eq]
  obtain ⟨v,hv,hready,hzero,hempty,hall⟩ := exec_transferBits h.toReady hcount data dataOut 0
  rw [h.count_eq,gather_bit (positions_lt _) (fun _ => mem_positions _)] at hv
  rw [h.count_eq,h.shift_eq,gather_bit (positions_lt _) (fun _ => mem_positions _)] at hall
  exact ⟨v,hv,⟨hready,hzero,hempty⟩,hall⟩

/-! ## A transfer -/

/-- The slave's answers to bytes in turn. -/
def replies (reply : List UInt8 → UInt8) : List UInt8 → List UInt8 → List UInt8
  | _, [] => []
  | past, byte::rest => reply past :: replies reply (past ++ [byte]) rest

theorem exec_transferBytes {b : Bus} (h : AtByte config reply b) (filled rest : List UInt8) :
    ∃ v, (transferBytes filled.length rest : Spi MosiE MisoE SckE CsE Unit).exec
          (Bus.handle config reply) ⟨config,filled ++ rest⟩ b =
        ((.ok (),⟨config,filled ++ replies reply b.slave.received rest⟩),v) ∧
      AtByte config reply v ∧ v.slave.received = b.slave.received ++ rest := by
  induction rest generalizing b filled with
  | nil => exact ⟨b,rfl,h,(List.append_nil _).symm⟩
  | cons byte rest ih =>
    obtain ⟨u,hu,hbyte,hreceived⟩ := exec_transferByte h (filled ++ byte::rest) byte
    obtain ⟨v,hv,hready,hall⟩ := ih hbyte (filled ++ [reply b.slave.received])
    rw [hreceived] at hv hall
    refine ⟨v,?_,hready,?_⟩
    · rw [transferBytes,Driver.exec_bind_ok hu,Driver.exec_bind_ok (Driver.exec_modify _ _ _)]
      simpa [replies] using hv
    · simpa using hall

/-- No transfer is under way. -/
structure Idle (config : SpiConfig) (b : Bus) : Prop where
  sck_idle : b.sck = config.mode.cpol
  unselected : b.cs = true

/-- The pins are idle once they are set up, whatever they were. -/
theorem exec_initializePins (data : List UInt8) (b : Bus) :
    ∃ v, (initializePins : Spi MosiE MisoE SckE CsE Unit).exec (Bus.handle config reply)
        ⟨config,data⟩ b = ((.ok (),⟨config,data⟩),v) ∧ Idle config v := by
  obtain ⟨mode,delayUs,msbFirst⟩ := config
  obtain ⟨mosi,sck,cs,slave⟩ := b
  cases mode <;> cases sck <;> cases cs <;> exact ⟨_,rfl,rfl,rfl⟩

theorem atByte_select (reply : List UInt8 → UInt8) {b : Bus} (h : Idle config b) :
    AtByte config reply (b.setCs config reply false) ∧
      (b.setCs config reply false).slave.received = b.slave.received := by
  have hcs := h.unselected
  cases hcpha : config.mode.cpha with
  | false =>
    simp only [Bus.setCs,hcs,Slave.select,hcpha,Slave.present]
    exact ⟨⟨⟨h.sck_idle,rfl,fun _ => rfl⟩,rfl,rfl⟩,rfl⟩
  | true =>
    simp only [Bus.setCs,hcs,Slave.select,hcpha]
    exact ⟨⟨⟨h.sck_idle,rfl,fun h' => absurd (hcpha.symm.trans h') (by decide)⟩,rfl,rfl⟩,rfl⟩

end Exchange

/-- In every mode and bit order, with a slave whose answers may depend on all that it got before:
a transfer leaves the slave's bytes in the buffer and the buffer's bytes with the slave, and the
pins idle. -/
theorem transfer_exchanges (MosiE MisoE SckE CsE : Type) (config : SpiConfig)
    (reply : List UInt8 → UInt8) (data : List UInt8) {b : Bus} (h : Idle config b) :
    ∃ v, (transfer : Spi MosiE MisoE SckE CsE Unit).exec (Bus.handle config reply)
          ⟨config,data⟩ b = ((.ok (),⟨config,replies reply b.slave.received data⟩),v) ∧
      v.slave.received = b.slave.received ++ data ∧ v.sck = config.mode.cpol ∧ v.cs = true := by
  obtain ⟨hselect,hkept⟩ := atByte_select reply h
  obtain ⟨u,hu,hbytes,hall⟩ :=
    @exec_transferBytes MosiE MisoE SckE CsE config reply _ hselect [] data
  rw [hkept] at hu hall
  have hdeselect : u.setCs config reply true = {u with cs := true} := by
    simp [Bus.setCs,hbytes.selected]
  refine ⟨{u with cs := true},?_,hall,hbytes.sck_idle,rfl⟩
  rw [transfer,Driver.exec_bind_ok (Driver.exec_get _ _),
    Driver.exec_bind_ok (exec_setCs data false),Driver.exec_bind_ok (exec_sleep data 1)]
  refine (Driver.exec_bind_ok hu).trans ?_
  rw [Driver.exec_bind_ok (exec_sleep _ 1),exec_setCs,hdeselect]
  rfl

/-- A slave that answers with the number of bytes that it got and echoes the first of them. -/
def echoFirst (past : List UInt8) : UInt8 := UInt8.ofNat past.length ^^^ past.headD 0x80

theorem transfer_exchanges_mode3 :
    ∃ v, (transfer : Spi Empty Empty Empty Empty Unit).exec
          (Bus.handle ⟨.mode3,1,false⟩ echoFirst) ⟨⟨.mode3,1,false⟩,[0xA5,0x3C,0x01]⟩
          ⟨false,true,true,⟨[],0,0,false⟩⟩ =
        ((.ok (),⟨⟨.mode3,1,false⟩,[0x80,0xA4,0xA7]⟩),v) ∧
      v.slave.received = [0xA5,0x3C,0x01] ∧ v.sck = true ∧ v.cs = true :=
  transfer_exchanges Empty Empty Empty Empty ⟨.mode3,1,false⟩ echoFirst [0xA5,0x3C,0x01]
    ⟨rfl,rfl⟩

end BitBangSpi
end UProtocols
