import UProtocols.ByteBits
import UProtocols.Interaction

/-!
# The bit-banged I2C master

`I2cMaster` of `08.rs`: every method is the sequence of the calls that it makes on its pins. A
monitor reads the levels that the master drives as the bus rules do: a change of SDA while SCL is
high is a START or a STOP, and a high phase of SCL without one is a data bit.
-/

namespace UProtocols
namespace BitBangI2c

open Interaction ByteBits

/-- The delays that the methods use, in nanoseconds. -/
structure I2cTiming where
  tSuDat : UInt32
  tHdDat : UInt32
  tHdSta : UInt32
  tSuSta : UInt32
  tSuSto : UInt32
  tBuf : UInt32
  tLow : UInt32
  tHigh : UInt32
  deriving DecidableEq

/-- The trait `I2cPins`. -/
inductive PinCall
  | setScl (high : Bool)
  | setSda (high : Bool)
  | readSda
  | delayNs (ns : UInt32)
  deriving DecidableEq

abbrev Answer : PinCall → Type
  | .readSda => Bool
  | .setScl _ | .setSda _ | .delayNs _ => Unit

inductive I2cError
  | nack
  | arbitrationLost
  | timeout
  | invalidTiming
  deriving DecidableEq

structure I2cMaster where
  timing : I2cTiming
  started : Bool
  deriving DecidableEq

abbrev I2c := Driver PinCall Answer I2cMaster I2cError

def setScl (high : Bool) : I2c Unit := Driver.perform (PinCall.setScl high)

def setSda (high : Bool) : I2c Unit := Driver.perform (PinCall.setSda high)

def readSda : I2c Bool := Driver.perform PinCall.readSda

def delayNs (ns : I2cTiming → UInt32) : I2c Unit := do
  let self ← get
  Driver.perform (PinCall.delayNs (ns self.timing))

def start : I2c Unit := do
  let self ← get
  if self.started then
    setSda true
    delayNs I2cTiming.tSuSta
    setScl true
    delayNs I2cTiming.tSuSta
  else
    delayNs I2cTiming.tBuf
    setScl true
    setSda true
    delayNs I2cTiming.tSuSta
  setSda false
  delayNs I2cTiming.tHdSta
  setScl false
  delayNs I2cTiming.tHdDat
  modify fun self => {self with started := true}

def stop : I2c Unit := do
  setScl false
  setSda false
  delayNs I2cTiming.tLow
  setScl true
  delayNs I2cTiming.tSuSto
  setSda true
  delayNs I2cTiming.tBuf
  modify fun self => {self with started := false}

def writeBit (b : Bool) : I2c Unit := do
  setScl false
  setSda b
  delayNs I2cTiming.tSuDat
  setScl true
  delayNs I2cTiming.tHigh
  setScl false
  delayNs I2cTiming.tHdDat

def readBit : I2c Bool := do
  setScl false
  setSda true
  delayNs I2cTiming.tSuDat
  setScl true
  delayNs fun timing => timing.tHigh / 2
  let b ← readSda
  delayNs fun timing => timing.tHigh / 2
  setScl false
  delayNs I2cTiming.tHdDat
  return b

/-- `(0..8).rev()`. -/
def msbFirst : List ℕ := [7,6,5,4,3,2,1,0]

/-- The loop of `write_byte`. -/
def writeBits (data : UInt8) : List ℕ → I2c Unit
  | [] => pure ()
  | i::is => do
    writeBit (bit data i)
    writeBits data is

def writeByte (data : UInt8) : I2c Bool := do
  writeBits data msbFirst
  return !(← readBit)

/-- The loop of `read_byte`. -/
def readBits : List ℕ → UInt8 → I2c UInt8
  | [], data => pure data
  | i::is, data => do
    let b ← readBit
    readBits is (if b then setBit data i else data)

def readByte (sendAck : Bool) : I2c UInt8 := do
  let data ← readBits msbFirst 0
  writeBit !sendAck
  return data

/-- What both register methods do with a byte that is not acknowledged. -/
def writeOrStop (data : UInt8) : I2c Unit := do
  if !(← writeByte data) then
    stop
    throw .nack

def writeRegister (devAddr regAddr value : UInt8) : I2c Unit := do
  start
  writeOrStop ((devAddr <<< 1) ||| 0)
  writeOrStop regAddr
  writeOrStop value
  stop

def readRegister (devAddr regAddr : UInt8) : I2c UInt8 := do
  start
  writeOrStop ((devAddr <<< 1) ||| 0)
  writeOrStop regAddr
  start
  writeOrStop ((devAddr <<< 1) ||| 1)
  let data ← readByte false
  stop
  return data

/-! ## The wire -/

/-- What the bus rules make of the levels of SCL and SDA. -/
inductive Symbol
  | start
  | stop
  | bit (level : Bool)
  deriving DecidableEq

/-- The levels, whether the high phase of SCL can still be a data bit, and the symbols so far. -/
structure Monitor where
  scl : Bool
  sda : Bool
  data : Bool
  symbols : List Symbol
  deriving DecidableEq

namespace Monitor

/-- Both lines high and no transfer under way. -/
def idle : Monitor := ⟨true,true,false,[]⟩

def setScl (m : Monitor) (high : Bool) : Monitor :=
  if high = m.scl then m
  else if high then {m with scl := true, data := true}
  else {m with scl := false, symbols := m.symbols ++ if m.data then [.bit m.sda] else []}

def setSda (m : Monitor) (high : Bool) : Monitor :=
  if high = m.sda then m
  else if m.scl then
    {m with sda := high, data := false,
            symbols := m.symbols ++ [if high then .stop else .start]}
  else {m with sda := high}

def observe (m : Monitor) : PinCall → Monitor
  | .setScl high => m.setScl high
  | .setSda high => m.setSda high
  | .readSda | .delayNs _ => m

end Monitor

/-- The calls on the pins so far, and the levels at which the slave leaves SDA when it is read. -/
structure Wire where
  calls : List PinCall
  responses : ℕ → Bool
  reads : ℕ

namespace Wire

def push (w : Wire) (call : PinCall) : Wire := {w with calls := w.calls ++ [call]}

def handle : (call : PinCall) → Wire → Answer call × Wire
  | .readSda, w => (w.responses w.reads,{w.push .readSda with reads := w.reads + 1})
  | .setScl high, w => ((),w.push (.setScl high))
  | .setSda high, w => ((),w.push (.setSda high))
  | .delayNs ns, w => ((),w.push (.delayNs ns))

def monitor (w : Wire) : Monitor := w.calls.foldl Monitor.observe .idle

end Wire

/-! ## What the monitor makes of the helpers -/

namespace Monitor

/-- A level that is set while SCL is low, and one clock. -/
theorem clock_bit {m : Monitor} (hlow : m.scl = false) (b : Bool) :
    ((((m.setScl false).setSda b).setScl true).setScl false) =
      ⟨false,b,true,m.symbols ++ [.bit b]⟩ := by
  obtain ⟨scl,sda,data,symbols⟩ := m
  subst hlow
  cases b <;> cases sda <;> simp [setScl,setSda]

theorem first_start {m : Monitor} (hscl : m.scl = true) (hsda : m.sda = true) :
    ((((m.setScl true).setSda true).setSda false).setScl false) =
      ⟨false,false,false,m.symbols ++ [.start]⟩ := by
  obtain ⟨scl,sda,data,symbols⟩ := m
  subst hscl hsda
  simp [setScl,setSda]

theorem repeated_start {m : Monitor} (hlow : m.scl = false) :
    ((((m.setSda true).setScl true).setSda false).setScl false) =
      ⟨false,false,false,m.symbols ++ [.start]⟩ := by
  obtain ⟨scl,sda,data,symbols⟩ := m
  subst hlow
  cases sda <;> simp [setScl,setSda]

theorem low_stop {m : Monitor} (hlow : m.scl = false) :
    ((((m.setScl false).setSda false).setScl true).setSda true) =
      ⟨true,true,false,m.symbols ++ [.stop]⟩ := by
  obtain ⟨scl,sda,data,symbols⟩ := m
  subst hlow
  cases sda <;> simp [setScl,setSda]

end Monitor

namespace Wire

@[simp] theorem monitor_handle (call : PinCall) (w : Wire) :
    (handle call w).2.monitor = w.monitor.observe call := by
  cases call <;> simp [handle,monitor,push]

end Wire

/-! ## The methods on the wire -/

/-- Symbols that were sent with SCL low at both ends, and the reads that this took. -/
structure Sends (w v : Wire) (reads : ℕ) (symbols : List Symbol) : Prop where
  responses_eq : v.responses = w.responses
  reads_eq : v.reads = w.reads + reads
  low : v.monitor.scl = false
  symbols_eq : v.monitor.symbols = w.monitor.symbols ++ symbols

theorem Sends.refl {w : Wire} (hlow : w.monitor.scl = false) : Sends w w 0 [] :=
  ⟨rfl,rfl,hlow,(List.append_nil _).symm⟩

theorem Sends.trans {w v u : Wire} {j k : ℕ} {as bs : List Symbol} (h : Sends w v j as)
    (h' : Sends v u k bs) : Sends w u (j + k) (as ++ bs) where
  responses_eq := h'.responses_eq.trans h.responses_eq
  reads_eq := by rw [h'.reads_eq,h.reads_eq,Nat.add_assoc]
  low := h'.low
  symbols_eq := by rw [h'.symbols_eq,h.symbols_eq,List.append_assoc]

/-- The level of SDA at the next read. -/
def Wire.next (w : Wire) : Bool := w.responses w.reads

section Helpers

variable (m : I2cMaster) {w : Wire}

theorem exec_writeBit (hlow : w.monitor.scl = false) (b : Bool) :
    ∃ v, (writeBit b).exec Wire.handle m w = ((.ok (),m),v) ∧ Sends w v 0 [.bit b] := by
  have hclock := Monitor.clock_bit hlow b
  refine ⟨_,rfl,rfl,rfl,?_,?_⟩
  · simp [Monitor.observe,hclock]
  · simp [Monitor.observe,hclock]

theorem exec_readBit (hlow : w.monitor.scl = false) :
    ∃ v, readBit.exec Wire.handle m w = ((.ok w.next,m),v) ∧ Sends w v 1 [.bit true] := by
  have hclock := Monitor.clock_bit hlow true
  refine ⟨_,rfl,rfl,rfl,?_,?_⟩
  · simp [Monitor.observe,hclock]
  · simp [Monitor.observe,hclock]

theorem exec_first_start (hm : m.started = false) (hscl : w.monitor.scl = true)
    (hsda : w.monitor.sda = true) :
    ∃ v, start.exec Wire.handle m w = ((.ok (),{m with started := true}),v) ∧
      Sends w v 0 [.start] := by
  obtain ⟨timing,started⟩ := m
  subst hm
  have hstart := Monitor.first_start hscl hsda
  refine ⟨_,rfl,rfl,rfl,?_,?_⟩
  · simp [Monitor.observe,hstart]
  · simp [Monitor.observe,hstart]

theorem exec_repeated_start (hm : m.started = true) (hlow : w.monitor.scl = false) :
    ∃ v, start.exec Wire.handle m w = ((.ok (),m),v) ∧ Sends w v 0 [.start] := by
  obtain ⟨timing,started⟩ := m
  subst hm
  have hstart := Monitor.repeated_start hlow
  refine ⟨_,rfl,rfl,rfl,?_,?_⟩
  · simp [Monitor.observe,hstart]
  · simp [Monitor.observe,hstart]

theorem exec_stop (hlow : w.monitor.scl = false) :
    ∃ v, stop.exec Wire.handle m w = ((.ok (),{m with started := false}),v) ∧
      v.monitor = ⟨true,true,false,w.monitor.symbols ++ [.stop]⟩ := by
  refine ⟨_,rfl,?_⟩
  simp [Monitor.observe,Monitor.low_stop hlow]

/-- The bits of a byte, and a slot in which SDA is released. -/
def byteSymbols (data : UInt8) : List Symbol :=
  msbFirst.map (fun i => .bit (bit data i)) ++ [.bit true]

theorem exec_writeBits (hlow : w.monitor.scl = false) (data : UInt8) (is : List ℕ) :
    ∃ v, (writeBits data is).exec Wire.handle m w = ((.ok (),m),v) ∧
      Sends w v 0 (is.map fun i => .bit (bit data i)) := by
  induction is generalizing w with
  | nil => exact ⟨w,rfl,.refl hlow⟩
  | cons i is ih =>
    obtain ⟨u,hu,hbit⟩ := exec_writeBit m hlow (bit data i)
    obtain ⟨v,hv,hrest⟩ := ih hbit.low
    refine ⟨v,?_,hbit.trans hrest⟩
    rw [writeBits,Driver.exec_bind_ok hu,hv]

theorem exec_writeByte (hlow : w.monitor.scl = false) (data : UInt8) :
    ∃ v, (writeByte data).exec Wire.handle m w = ((.ok !w.next,m),v) ∧
      Sends w v 1 (byteSymbols data) := by
  obtain ⟨u,hu,hbits⟩ := exec_writeBits m hlow data msbFirst
  obtain ⟨v,hv,hack⟩ := exec_readBit m hbits.low
  have hnext : u.next = w.next := by
    rw [Wire.next,hbits.responses_eq,hbits.reads_eq,Nat.add_zero,Wire.next]
  refine ⟨v,?_,hbits.trans hack⟩
  rw [writeByte,Driver.exec_bind_ok hu,Driver.exec_bind_ok hv,hnext]
  rfl

theorem exec_readBits (hlow : w.monitor.scl = false) (is : List ℕ) (f : ℕ → Bool)
    (hf : ∀ k (hk : k < is.length), f is[k] = w.responses (w.reads + k)) (data : UInt8) :
    ∃ v, (readBits is data).exec Wire.handle m w = ((.ok (gather f is data),m),v) ∧
      Sends w v is.length (List.replicate is.length (.bit true)) := by
  induction is generalizing w data with
  | nil => exact ⟨w,rfl,.refl hlow⟩
  | cons i is ih =>
    obtain ⟨u,hu,hbit⟩ := exec_readBit m hlow
    have hfirst : f i = w.next := hf 0 (Nat.zero_lt_succ _)
    have hothers : ∀ k (hk : k < is.length), f is[k] = u.responses (u.reads + k) := by
      intro k hk
      rw [hbit.responses_eq,hbit.reads_eq,Nat.add_assoc,Nat.add_comm 1 k]
      exact hf (k + 1) (Nat.succ_lt_succ hk)
    obtain ⟨v,hv,hrest⟩ := ih hbit.low hothers (if w.next then setBit data i else data)
    refine ⟨v,?_,?_⟩
    · rw [readBits,Driver.exec_bind_ok hu,hv,gather,hfirst]
    · rw [List.length_cons,List.replicate_succ,Nat.add_comm]
      exact hbit.trans hrest

/-- The byte that the slave puts on the line, from the given read on. -/
def Wire.byte (w : Wire) : UInt8 := gather (fun i => w.responses (w.reads + (7 - i))) msbFirst 0

theorem exec_readByte (hlow : w.monitor.scl = false) (sendAck : Bool) :
    ∃ v, (readByte sendAck).exec Wire.handle m w = ((.ok w.byte,m),v) ∧
      Sends w v 8 (List.replicate 8 (.bit true) ++ [.bit !sendAck]) := by
  have hplaces : ∀ k (hk : k < msbFirst.length), 7 - msbFirst[k] = k := by decide
  obtain ⟨u,hu,hbits⟩ := exec_readBits m hlow msbFirst
    (fun i => w.responses (w.reads + (7 - i))) (fun k hk => by rw [hplaces k hk]) 0
  obtain ⟨v,hv,hack⟩ := exec_writeBit m hbits.low !sendAck
  refine ⟨v,?_,hbits.trans hack⟩
  rw [readByte,Driver.exec_bind_ok hu,Driver.exec_bind_ok hv]
  rfl

theorem exec_writeOrStop_ack (hlow : w.monitor.scl = false) (hack : w.next = false)
    (data : UInt8) :
    ∃ v, (writeOrStop data).exec Wire.handle m w = ((.ok (),m),v) ∧
      Sends w v 1 (byteSymbols data) := by
  obtain ⟨v,hv,hbyte⟩ := exec_writeByte m hlow data
  rw [hack] at hv
  refine ⟨v,?_,hbyte⟩
  rw [writeOrStop,Driver.exec_bind_ok hv]
  rfl

theorem exec_writeOrStop_nack (hlow : w.monitor.scl = false) (hnack : w.next = true)
    (data : UInt8) :
    ∃ v, (writeOrStop data).exec Wire.handle m w =
        ((.error .nack,{m with started := false}),v) ∧
      v.monitor = ⟨true,true,false,w.monitor.symbols ++ byteSymbols data ++ [.stop]⟩ := by
  obtain ⟨u,hu,hbyte⟩ := exec_writeByte m hlow data
  rw [hnack] at hu
  obtain ⟨v,hv,hstop⟩ := exec_stop m hbyte.low
  refine ⟨v,?_,?_⟩
  · rw [writeOrStop,Driver.exec_bind_ok hu]
    simp only [Bool.not_true,Bool.not_false,if_true]
    rw [Driver.exec_bind_ok hv]
    rfl
  · rw [hstop,hbyte.symbols_eq]

end Helpers

/-! ## The register methods -/

/-- Bytes in turn, up to the first one whose slot, from read `n` on, the slave leaves high. -/
def sendSymbols (responses : ℕ → Bool) : ℕ → List UInt8 → List Symbol
  | _, [] => []
  | n, data::rest =>
    byteSymbols data ++ if responses n then [] else sendSymbols responses (n + 1) rest

/-- The address byte: seven bits and the direction. -/
def addressByte (devAddr : UInt8) (read : Bool) : UInt8 :=
  UInt8.ofNat (2 * devAddr.toNat + read.toNat)

theorem toNat_shl_one (devAddr : UInt8) : (devAddr <<< 1).toNat = 2 * devAddr.toNat % 256 := by
  rw [UInt8.toNat_shiftLeft]
  simp [Nat.shiftLeft_eq,Nat.mul_comm]

theorem addressByte_write (devAddr : UInt8) :
    (devAddr <<< 1) ||| 0 = addressByte devAddr false := by
  apply UInt8.toNat_inj.mp
  rw [UInt8.toNat_or,toNat_shl_one]
  simp [addressByte]

theorem addressByte_read (devAddr : UInt8) : (devAddr <<< 1) ||| 1 = addressByte devAddr true := by
  apply UInt8.toNat_inj.mp
  have hodd : (devAddr.toNat % 128) <<< 1 ||| 1 = (devAddr.toNat % 128) <<< 1 + 1 :=
    (Nat.shiftLeft_add_eq_or_of_lt (by decide) _).symm
  have heven : 2 * devAddr.toNat % 256 = (devAddr.toNat % 128) <<< 1 := by
    rw [Nat.shiftLeft_eq]
    omega
  rw [UInt8.toNat_or,toNat_shl_one,heven,UInt8.toNat_one,hodd,← heven,addressByte,
    UInt8.toNat_ofNat',Bool.toNat_true]
  omega

/-- A master that is not in a transfer. -/
def I2cMaster.new (timing : I2cTiming) : I2cMaster := ⟨timing,false⟩

/-- Idle lines, before a slave with the given responses. -/
def Wire.idle (responses : ℕ → Bool) : Wire := ⟨[],responses,0⟩

section Idle

variable {m : I2cMaster} {responses : ℕ → Bool} {w : Wire} {n : ℕ} {symbols : List Symbol}
  {α : Type}

/-- A byte that is not acknowledged ends the method with a STOP. -/
theorem exec_cut (h : Sends (.idle responses) w n symbols) (hnack : responses n = true)
    (data : UInt8) (k : Unit → I2c α) :
    ∃ v, (writeOrStop data >>= k).exec Wire.handle m w =
        ((.error .nack,{m with started := false}),v) ∧
      v.monitor = ⟨true,true,false,symbols ++ byteSymbols data ++ [.stop]⟩ := by
  have hnext : w.next = true := by
    rw [Wire.next,h.responses_eq,h.reads_eq]
    simpa [Wire.idle] using hnack
  obtain ⟨v,hv,hmonitor⟩ := exec_writeOrStop_nack m h.low hnext data
  refine ⟨v,Driver.exec_bind_error hv,?_⟩
  rw [hmonitor,h.symbols_eq]
  rfl

theorem exec_go (h : Sends (.idle responses) w n symbols) (hack : responses n = false)
    (data : UInt8) (k : Unit → I2c α) :
    ∃ v, (writeOrStop data >>= k).exec Wire.handle m w = (k ()).exec Wire.handle m v ∧
      Sends (.idle responses) v (n + 1) (symbols ++ byteSymbols data) := by
  have hnext : w.next = false := by
    rw [Wire.next,h.responses_eq,h.reads_eq]
    simpa [Wire.idle] using hack
  obtain ⟨v,hv,hbyte⟩ := exec_writeOrStop_ack m h.low hnext data
  exact ⟨v,Driver.exec_bind_ok hv,h.trans hbyte⟩

end Idle

/-- Both methods begin with the address and the register, and end there if one of the two bytes is
not acknowledged. -/
theorem exec_select {α : Type} (timing : I2cTiming) (responses : ℕ → Bool)
    (address register : UInt8) (k : Unit → I2c α) :
    ∃ v, (responses 0 || responses 1) = true ∧
        (start >>= fun _ => writeOrStop address >>= fun _ => writeOrStop register >>= k).exec
          Wire.handle (.new timing) (.idle responses) = ((.error .nack,.new timing),v) ∧
        v.monitor = ⟨true,true,false,[.start] ++ sendSymbols responses 0 [address,register] ++
          [.stop]⟩ ∨
      (responses 0 = false ∧ responses 1 = false) ∧
        (start >>= fun _ => writeOrStop address >>= fun _ => writeOrStop register >>= k).exec
          Wire.handle (.new timing) (.idle responses) =
            (k ()).exec Wire.handle {timing := timing, started := true} v ∧
        Sends (.idle responses) v 2 ([.start] ++ byteSymbols address ++ byteSymbols register) := by
  obtain ⟨w,hw,hstart⟩ := exec_first_start (.new timing) (w := .idle responses) rfl rfl rfl
  rw [Driver.exec_bind_ok hw]
  cases h0 : responses 0 with
  | true =>
    obtain ⟨v,hv,hmonitor⟩ := exec_cut hstart h0 address _
    exact ⟨v,.inl ⟨rfl,hv,by simp [hmonitor,sendSymbols,h0]⟩⟩
  | false =>
    obtain ⟨w₁,hw₁,hsent₁⟩ := exec_go hstart h0 address _
    rw [hw₁]
    cases h1 : responses 1 with
    | true =>
      obtain ⟨v,hv,hmonitor⟩ := exec_cut hsent₁ h1 register _
      exact ⟨v,.inl ⟨rfl,hv,by simp [hmonitor,sendSymbols,h0,h1]⟩⟩
    | false =>
      obtain ⟨w₂,hw₂,hsent₂⟩ := exec_go hsent₁ h1 register _
      exact ⟨w₂,.inr ⟨⟨rfl,rfl⟩,hw₂,hsent₂⟩⟩

/-- After a byte that is not acknowledged the later ones do not matter. -/
theorem sendSymbols_cut {responses : ℕ → Bool} (h : (responses 0 || responses 1) = true)
    (address register : UInt8) (rest : List UInt8) :
    sendSymbols responses 0 (address::register::rest) =
      sendSymbols responses 0 [address,register] := by
  cases h0 : responses 0 with
  | true => simp [sendSymbols,h0]
  | false =>
    rw [h0,Bool.false_or] at h
    simp [sendSymbols,h0,h]

theorem writeRegister_wire (timing : I2cTiming) (responses : ℕ → Bool)
    (devAddr regAddr value : UInt8) :
    ∃ v, (writeRegister devAddr regAddr value).exec Wire.handle (.new timing)
          (.idle responses) =
        ((if responses 0 || responses 1 || responses 2 then .error .nack else .ok (),.new timing),v) ∧
      v.monitor = ⟨true,true,false,[.start] ++
        sendSymbols responses 0 [addressByte devAddr false,regAddr,value] ++ [.stop]⟩ := by
  rw [writeRegister,addressByte_write]
  obtain ⟨w,⟨hnack,hw,hmonitor⟩ | ⟨⟨h0,h1⟩,hw,hsent⟩⟩ := exec_select timing responses
    (addressByte devAddr false) regAddr _
  · refine ⟨w,hw.trans (by rw [hnack]; rfl),?_⟩
    rw [sendSymbols_cut hnack,hmonitor]
  · cases h2 : responses 2 with
    | true =>
      obtain ⟨v,hv,hmonitor⟩ := exec_cut hsent h2 value _
      refine ⟨v,hw.trans (hv.trans (by simp [h0,h1]; rfl)),?_⟩
      simp [hmonitor,sendSymbols,h0,h1,h2]
    | false =>
      obtain ⟨w₃,hw₃,hsent₃⟩ := exec_go hsent h2 value _
      obtain ⟨v,hv,hmonitor⟩ := exec_stop {timing := timing, started := true} hsent₃.low
      refine ⟨v,hw.trans (hw₃.trans (hv.trans (by simp [h0,h1]; rfl))),?_⟩
      rw [hmonitor,hsent₃.symbols_eq]
      simp [sendSymbols,h0,h1,h2]
      rfl

/-- What a read sends after both bytes of its first part were acknowledged. -/
def readSymbols (responses : ℕ → Bool) (devAddr : UInt8) : List Symbol :=
  [.start] ++ byteSymbols (addressByte devAddr true) ++
    if responses 2 then [] else List.replicate 8 (.bit true) ++ [.bit true]

theorem readRegister_wire (timing : I2cTiming) (responses : ℕ → Bool) (devAddr regAddr : UInt8) :
    ∃ v, (readRegister devAddr regAddr).exec Wire.handle (.new timing) (.idle responses) =
        ((if responses 0 || responses 1 || responses 2 then .error .nack
          else .ok (gather (fun i => responses (3 + (7 - i))) msbFirst 0),.new timing),v) ∧
      v.monitor = ⟨true,true,false,[.start] ++
        sendSymbols responses 0 [addressByte devAddr false,regAddr] ++
        (if responses 0 || responses 1 then [] else readSymbols responses devAddr) ++ [.stop]⟩ := by
  rw [readRegister,addressByte_write,addressByte_read]
  obtain ⟨w,⟨hnack,hw,hmonitor⟩ | ⟨⟨h0,h1⟩,hw,hsent⟩⟩ := exec_select timing responses
    (addressByte devAddr false) regAddr _
  · refine ⟨w,hw.trans (by rw [hnack]; rfl),?_⟩
    rw [hmonitor,if_pos hnack,List.append_nil]
  · obtain ⟨w₃,hw₃,hstart⟩ := exec_repeated_start {timing := timing, started := true} rfl hsent.low
    have hsent₃ := hsent.trans hstart
    rw [hw.trans (Driver.exec_bind_ok hw₃)]
    cases h2 : responses 2 with
    | true =>
      obtain ⟨v,hv,hmonitor⟩ := exec_cut hsent₃ h2 (addressByte devAddr true) _
      refine ⟨v,hv.trans (by simp [h0,h1]; rfl),?_⟩
      simp [hmonitor,sendSymbols,readSymbols,h0,h1,h2]
    | false =>
      obtain ⟨w₄,hw₄,hsent₄⟩ := exec_go hsent₃ h2 (addressByte devAddr true) _
      obtain ⟨w₅,hw₅,hread⟩ := exec_readByte {timing := timing, started := true} hsent₄.low false
      have hsent₅ := hsent₄.trans hread
      obtain ⟨v,hv,hmonitor⟩ := exec_stop {timing := timing, started := true} hsent₅.low
      rw [hw₄,Driver.exec_bind_ok hw₅,Driver.exec_bind_ok hv]
      refine ⟨v,?_,?_⟩
      · rw [Wire.byte,hsent₄.responses_eq,hsent₄.reads_eq,h0,h1]
        rfl
      · rw [hmonitor,hsent₅.symbols_eq]
        simp [sendSymbols,readSymbols,h0,h1,h2]
        rfl

/-- For every slave and all addresses and values: the levels that the register methods drive are
START, the bytes with their slots up to the first one that is not acknowledged, with the repeated
START and the byte read where the method gets there, and STOP; the result is `Nack` exactly when
a byte was not acknowledged, and the master and its lines are idle again. -/
theorem registerMethods_wire (timing : I2cTiming) (responses : ℕ → Bool)
    (devAddr regAddr value : UInt8) :
    (∃ v, (writeRegister devAddr regAddr value).exec Wire.handle (.new timing)
          (.idle responses) =
        ((if responses 0 || responses 1 || responses 2 then .error .nack else .ok (),.new timing),v) ∧
      v.monitor = ⟨true,true,false,[.start] ++
        sendSymbols responses 0 [addressByte devAddr false,regAddr,value] ++ [.stop]⟩) ∧
    ∃ v, (readRegister devAddr regAddr).exec Wire.handle (.new timing) (.idle responses) =
        ((if responses 0 || responses 1 || responses 2 then .error .nack
          else .ok (gather (fun i => responses (3 + (7 - i))) msbFirst 0),.new timing),v) ∧
      v.monitor = ⟨true,true,false,[.start] ++
        sendSymbols responses 0 [addressByte devAddr false,regAddr] ++
        (if responses 0 || responses 1 then [] else readSymbols responses devAddr) ++ [.stop]⟩ :=
  ⟨writeRegister_wire timing responses devAddr regAddr value,
    readRegister_wire timing responses devAddr regAddr⟩

end BitBangI2c
end UProtocols
