import UProtocols.ByteOrder
import UProtocols.Runs

/-!
# The low-power I2C manager, its sensor and its periodic reader

`LowPowerI2C`, `LowPowerSensor` and `PeriodicReader` of `47.rs`. The peripheral and the delay are
any values with the operations of the HAL; the configuration is stored and never read. Counters
wrap, as in a build without overflow checks.
-/

namespace UProtocols
namespace LowPowerI2c

inductive PowerError
  | i2cError | invalidState | timeout
  deriving DecidableEq

inductive PowerState
  | active | lowPower | sleep | deepSleep
  deriving DecidableEq

/-- The operations of a peripheral `I` and a delay `D`. A transfer may change the buffer also
when it fails. -/
structure Hal (I D E : Type) where
  write : I → UInt8 → List UInt8 → Except E Unit × I
  writeRead : {n : ℕ} → I → UInt8 → List UInt8 → Vector UInt8 n →
    (Except E Unit × Vector UInt8 n) × I
  delayMs : D → UInt32 → D

structure LowPowerI2C (I D : Type) where
  i2c : Option I
  delay : D
  state : PowerState
  transactionCount : UInt32

variable {I D E : Type} {n : ℕ}

namespace LowPowerI2C

variable (hal : Hal I D E) (m : LowPowerI2C I D)

def new (i2c : I) (delay : D) : LowPowerI2C I D where
  i2c := some i2c
  delay := delay
  state := .active
  transactionCount := 0

def enable : Except PowerError Unit × LowPowerI2C I D :=
  match m.state with
  | .active => (.ok (),m)
  | _ => (.ok (),{m with state := .active, delay := hal.delayMs m.delay 1})

def disable : Except PowerError Unit × LowPowerI2C I D :=
  if m.state = .active then (.ok (),{m with state := .lowPower}) else (.error .invalidState,m)

/-- The result and the buffer after a read of `buffer.len()` bytes. -/
def burstRead (addr reg : UInt8) (buffer : Vector UInt8 n) :
    (Except PowerError Unit × Vector UInt8 n) × LowPowerI2C I D :=
  match m.enable hal with
  | (.error e,m) => ((.error e,buffer),m)
  | (.ok (),m) =>
    match m.i2c with
    | none => ((.error .invalidState,buffer),m)
    | some i2c =>
      match hal.writeRead i2c addr [reg] buffer with
      | ((.error _,buffer),i2c) => ((.error .i2cError,buffer),{m with i2c := some i2c})
      | ((.ok (),buffer),i2c) =>
        ((.ok (),buffer),{m with i2c := some i2c, transactionCount := m.transactionCount + 1})

def burstWrite (addr : UInt8) (data : List UInt8) : Except PowerError Unit × LowPowerI2C I D :=
  match m.enable hal with
  | (.error e,m) => (.error e,m)
  | (.ok (),m) =>
    match m.i2c with
    | none => (.error .invalidState,m)
    | some i2c =>
      match hal.write i2c addr data with
      | (.error _,i2c) => (.error .i2cError,{m with i2c := some i2c})
      | (.ok (),i2c) =>
        (.ok (),{m with i2c := some i2c, transactionCount := m.transactionCount + 1})

def readSensorLowPower (addr reg : UInt8) (buffer : Vector UInt8 n) :
    (Except PowerError Unit × Vector UInt8 n) × LowPowerI2C I D :=
  match m.enable hal with
  | (.error e,m) => ((.error e,buffer),m)
  | (.ok (),m) =>
    match m.burstRead hal addr reg buffer with
    | ((.error e,buffer),m) => ((.error e,buffer),m)
    | ((.ok (),buffer),m) => ((m.disable.1,buffer),m.disable.2)

/-- The peripheral goes to the caller; the state changes also when there is none to give. -/
def enterSleep : Except PowerError I × LowPowerI2C I D :=
  match m.i2c with
  | some i2c => (.ok i2c,{m with state := .sleep, i2c := none})
  | none => (.error .invalidState,{m with state := .sleep})

def wakeFromSleep (i2c : I) : LowPowerI2C I D := {m with i2c := some i2c, state := .active}

end LowPowerI2C

/-! ## The sensor and the reader -/

structure SensorData where
  temperature : Float32
  humidity : Float32
  pressure : Float32

def u16FromBeBytes (b₀ b₁ : UInt8) : UInt16 := UInt16.ofNat (ByteOrder.big.value [b₀,b₁])

def u32FromBeBytes (b₀ b₁ b₂ b₃ : UInt8) : UInt32 :=
  UInt32.ofNat (ByteOrder.big.value [b₀,b₁,b₂,b₃])

def SensorData.fromBytes (bytes : Vector UInt8 12) : SensorData where
  temperature := (u16FromBeBytes bytes[0] bytes[1]).toFloat32 * 0.0625
  humidity := (u16FromBeBytes bytes[4] bytes[5]).toFloat32 / 655.36
  pressure := (u32FromBeBytes 0 bytes[8] bytes[9] bytes[10]).toFloat32 / 100.0

structure LowPowerSensor (I D : Type) where
  i2cMgr : LowPowerI2C I D
  deviceAddr : UInt8

namespace LowPowerSensor

variable (hal : Hal I D E) (s : LowPowerSensor I D)

def new (i2c : I) (delay : D) (deviceAddr : UInt8) : LowPowerSensor I D where
  i2cMgr := .new i2c delay
  deviceAddr := deviceAddr

def readTemperature : Except PowerError Float32 × LowPowerSensor I D :=
  match s.i2cMgr.readSensorLowPower hal s.deviceAddr 0x00 (Vector.replicate 2 0) with
  | ((.error e,_),mgr) => (.error e,{s with i2cMgr := mgr})
  | ((.ok (),buffer),mgr) =>
    (.ok ((u16FromBeBytes buffer[0] buffer[1]).toFloat32 * 0.0625),{s with i2cMgr := mgr})

def readAllSensors : Except PowerError SensorData × LowPowerSensor I D :=
  match s.i2cMgr.readSensorLowPower hal s.deviceAddr 0x00 (Vector.replicate 12 0) with
  | ((.error e,_),mgr) => (.error e,{s with i2cMgr := mgr})
  | ((.ok (),buffer),mgr) => (.ok (.fromBytes buffer),{s with i2cMgr := mgr})

def configureLowPowerMode : Except PowerError Unit × LowPowerSensor I D :=
  let (result,mgr) := s.i2cMgr.burstWrite hal s.deviceAddr [0x01,0x20]
  (result,{s with i2cMgr := mgr})

def sleep : Except PowerError Unit × LowPowerSensor I D :=
  let (result,mgr) := s.i2cMgr.disable
  (result,{s with i2cMgr := mgr})

def wake : Except PowerError Unit × LowPowerSensor I D :=
  let (result,mgr) := s.i2cMgr.enable hal
  (result,{s with i2cMgr := mgr})

end LowPowerSensor

structure PeriodicReader (I D : Type) where
  sensor : LowPowerSensor I D
  intervalMs : UInt32
  readingCount : UInt32

namespace PeriodicReader

def new (sensor : LowPowerSensor I D) (intervalMs : UInt32) : PeriodicReader I D where
  sensor := sensor
  intervalMs := intervalMs
  readingCount := 0

def readCycle (hal : Hal I D E) (r : PeriodicReader I D) :
    Except PowerError SensorData × PeriodicReader I D :=
  match r.sensor.wake hal with
  | (.error e,sensor) => (.error e,{r with sensor := sensor})
  | (.ok (),sensor) =>
    match sensor.readAllSensors hal with
    | (.error e,sensor) => (.error e,{r with sensor := sensor})
    | (.ok data,sensor) =>
      match sensor.sleep with
      | (.error e,sensor) => (.error e,{r with sensor := sensor})
      | (.ok (),sensor) =>
        (.ok data,{r with sensor := sensor, readingCount := r.readingCount + 1})

end PeriodicReader

/-! ## What each method does -/

namespace LowPowerI2C

variable (hal : Hal I D E) {m : LowPowerI2C I D} {i2c : I}

theorem enable_eq (m : LowPowerI2C I D) :
    ∃ delay, m.enable hal = (.ok (),{m with state := .active, delay := delay}) := by
  obtain ⟨i2c,delay,state,count⟩ := m
  cases state with
  | active => exact ⟨delay,rfl⟩
  | lowPower => exact ⟨_,rfl⟩
  | sleep => exact ⟨_,rfl⟩
  | deepSleep => exact ⟨_,rfl⟩

/-- Without the peripheral a read fails, but the state is active. -/
theorem burstRead_none (h : m.i2c = none) (addr reg : UInt8) (buffer : Vector UInt8 n) :
    ∃ delay, m.burstRead hal addr reg buffer =
      ((.error .invalidState,buffer),{m with state := .active, delay := delay}) := by
  obtain ⟨delay,henable⟩ := enable_eq hal m
  refine ⟨delay,?_⟩
  simp only [burstRead,henable,h]

theorem burstWrite_none (h : m.i2c = none) (addr : UInt8) (data : List UInt8) :
    ∃ delay, m.burstWrite hal addr data =
      (.error .invalidState,{m with state := .active, delay := delay}) := by
  obtain ⟨delay,henable⟩ := enable_eq hal m
  refine ⟨delay,?_⟩
  simp only [burstWrite,henable,h]

theorem readSensorLowPower_none (h : m.i2c = none) (addr reg : UInt8) (buffer : Vector UInt8 n) :
    ∃ delay, m.readSensorLowPower hal addr reg buffer =
      ((.error .invalidState,buffer),{m with state := .active, delay := delay}) := by
  obtain ⟨delay,henable⟩ := enable_eq hal m
  obtain ⟨delay',hread⟩ := @burstRead_none I D E n hal
    {m with state := .active, delay := delay} h addr reg buffer
  refine ⟨delay',?_⟩
  simp only [readSensorLowPower,henable,hread]

/-- With the peripheral a read does what the bus does. -/
theorem burstRead_some (h : m.i2c = some i2c) (addr reg : UInt8) (buffer : Vector UInt8 n) :
    ∃ delay, m.burstRead hal addr reg buffer =
      match hal.writeRead i2c addr [reg] buffer with
      | ((.error _,buffer),i2c) => ((.error .i2cError,buffer),
          {m with state := .active, delay := delay, i2c := some i2c})
      | ((.ok (),buffer),i2c) => ((.ok (),buffer),
          {m with
            state := .active
            delay := delay
            i2c := some i2c
            transactionCount := m.transactionCount + 1}) := by
  obtain ⟨delay,henable⟩ := enable_eq hal m
  refine ⟨delay,?_⟩
  simp only [burstRead,henable,h]

theorem burstWrite_some (h : m.i2c = some i2c) (addr : UInt8) (data : List UInt8) :
    ∃ delay, m.burstWrite hal addr data =
      match hal.write i2c addr data with
      | (.error _,i2c) => (.error .i2cError,
          {m with state := .active, delay := delay, i2c := some i2c})
      | (.ok (),i2c) => (.ok (),
          {m with
            state := .active
            delay := delay
            i2c := some i2c
            transactionCount := m.transactionCount + 1}) := by
  obtain ⟨delay,henable⟩ := enable_eq hal m
  refine ⟨delay,?_⟩
  simp only [burstWrite,henable,h]

/-- A sensor read that succeeds has already left the active state. -/
theorem readSensorLowPower_some (h : m.i2c = some i2c) (addr reg : UInt8)
    (buffer : Vector UInt8 n) :
    ∃ delay, m.readSensorLowPower hal addr reg buffer =
      match hal.writeRead i2c addr [reg] buffer with
      | ((.error _,buffer),i2c) => ((.error .i2cError,buffer),
          {m with state := .active, delay := delay, i2c := some i2c})
      | ((.ok (),buffer),i2c) => ((.ok (),buffer),
          {m with
            state := .lowPower
            delay := delay
            i2c := some i2c
            transactionCount := m.transactionCount + 1}) := by
  obtain ⟨delay,henable⟩ := enable_eq hal m
  obtain ⟨delay',hread⟩ := @burstRead_some I D E n hal
    {m with state := .active, delay := delay} i2c h addr reg buffer
  refine ⟨delay',?_⟩
  simp only [readSensorLowPower,henable,hread]
  obtain ⟨⟨answer,buffer'⟩,i2c'⟩ := hal.writeRead i2c addr [reg] buffer
  cases answer <;> rfl

end LowPowerI2C

/-! ## Power state and peripheral -/

/-- The operations of the manager. -/
inductive Op (I : Type)
  | enable
  | disable
  | burstRead (addr reg : UInt8) {n : ℕ} (buffer : Vector UInt8 n)
  | burstWrite (addr : UInt8) (data : List UInt8)
  | readSensorLowPower (addr reg : UInt8) {n : ℕ} (buffer : Vector UInt8 n)
  | enterSleep
  | wakeFromSleep (i2c : I)

/-- The operations that begin with `enable`. -/
def Op.Enables : Op I → Prop
  | enable | burstRead .. | burstWrite .. | readSensorLowPower .. => True
  | disable | enterSleep | wakeFromSleep _ => False

namespace LowPowerI2C

/-- The result of an operation, without its data, and the manager after it. -/
def perform (hal : Hal I D E) (m : LowPowerI2C I D) :
    Op I → Except PowerError Unit × LowPowerI2C I D
  | .enable => m.enable hal
  | .disable => m.disable
  | .burstRead addr reg buffer =>
    let ((result,_),m) := m.burstRead hal addr reg buffer
    (result,m)
  | .burstWrite addr data => m.burstWrite hal addr data
  | .readSensorLowPower addr reg buffer =>
    let ((result,_),m) := m.readSensorLowPower hal addr reg buffer
    (result,m)
  | .enterSleep => (m.enterSleep.1.map fun _ => (),m.enterSleep.2)
  | .wakeFromSleep i2c => (.ok (),m.wakeFromSleep i2c)

/-- Active only with the peripheral, and asleep exactly without it. -/
def Matches (m : LowPowerI2C I D) : Prop :=
  (m.state = .active → m.i2c.isSome) ∧ (m.state = .sleep ↔ m.i2c = none)

variable {hal : Hal I D E} {m : LowPowerI2C I D} {op : Op I}

/-- Asleep, an operation that enables leaves an active manager without peripheral. -/
theorem perform_none (h : m.i2c = none) (hop : op.Enables) :
    (m.perform hal op).2.state = .active ∧ (m.perform hal op).2.i2c = none := by
  cases op with
  | enable =>
    obtain ⟨delay,heq⟩ := enable_eq hal m
    simp only [perform,heq,h,and_self]
  | burstRead addr reg buffer =>
    obtain ⟨delay,heq⟩ := burstRead_none hal h addr reg buffer
    simp only [perform,heq,h,and_self]
  | burstWrite addr data =>
    obtain ⟨delay,heq⟩ := burstWrite_none hal h addr data
    simp only [perform,heq,h,and_self]
  | readSensorLowPower addr reg buffer =>
    obtain ⟨delay,heq⟩ := readSensorLowPower_none hal h addr reg buffer
    simp only [perform,heq,h,and_self]
  | disable => exact hop.elim
  | enterSleep => exact hop.elim
  | wakeFromSleep i2c => exact hop.elim

/-- Awake, it keeps the peripheral and is never refused. -/
theorem perform_some {i2c : I} (h : m.i2c = some i2c) (hop : op.Enables) :
    ((m.perform hal op).2.state = .active ∨ (m.perform hal op).2.state = .lowPower) ∧
      (m.perform hal op).2.i2c.isSome ∧ (m.perform hal op).1 ≠ .error .invalidState := by
  cases op with
  | enable =>
    obtain ⟨delay,heq⟩ := enable_eq hal m
    simp [perform,heq,h]
  | burstRead addr reg buffer =>
    obtain ⟨delay,heq⟩ := burstRead_some hal h addr reg buffer
    simp only [perform,heq]
    obtain ⟨⟨answer,buffer'⟩,i2c'⟩ := hal.writeRead i2c addr [reg] buffer
    cases answer <;> simp
  | burstWrite addr data =>
    obtain ⟨delay,heq⟩ := burstWrite_some hal h addr data
    simp only [perform,heq]
    obtain ⟨answer,i2c'⟩ := hal.write i2c addr data
    cases answer <;> simp
  | readSensorLowPower addr reg buffer =>
    obtain ⟨delay,heq⟩ := readSensorLowPower_some hal h addr reg buffer
    simp only [perform,heq]
    obtain ⟨⟨answer,buffer'⟩,i2c'⟩ := hal.writeRead i2c addr [reg] buffer
    cases answer <;> simp
  | disable => exact hop.elim
  | enterSleep => exact hop.elim
  | wakeFromSleep i2c => exact hop.elim

/-- The other operations keep state and peripheral together, and a refusal changes nothing. -/
theorem perform_other (h : m.Matches) (hop : ¬ op.Enables) :
    (m.perform hal op).2.Matches ∧
      ((m.perform hal op).1 = .error .invalidState → (m.perform hal op).2.state = m.state) := by
  obtain ⟨hactive,hsleep⟩ := h
  cases op with
  | disable =>
    by_cases hstate : m.state = .active
    · have hsome := hactive hstate
      simp only [perform,disable,if_pos hstate,Matches]
      simp [Option.isSome_iff_ne_none.mp hsome]
    · simp only [perform,disable,if_neg hstate]
      exact ⟨⟨hactive,hsleep⟩,fun _ => trivial⟩
  | enterSleep =>
    cases hi2c : m.i2c with
    | none =>
      have hstate := hsleep.mpr hi2c
      simp [perform,enterSleep,hi2c,Matches,hstate]
    | some i2c => simp [perform,enterSleep,hi2c,Matches,Except.map]
  | wakeFromSleep i2c => simp [perform,wakeFromSleep,Matches]
  | enable => exact absurd trivial hop
  | burstRead addr reg buffer => exact absurd trivial hop
  | burstWrite addr data => exact absurd trivial hop
  | readSensorLowPower addr reg buffer => exact absurd trivial hop

end LowPowerI2C

/-- The manager after an operation, with the power state before it and its result. -/
structure Moment (I D : Type) where
  before : PowerState
  result : Except PowerError Unit
  manager : LowPowerI2C I D

namespace Moment

/-- State and peripheral match, and a refusal has not changed the state. -/
def Consistent (s : Moment I D) : Prop :=
  s.manager.Matches ∧ (s.result = .error .invalidState → s.manager.state = s.before)

def step (hal : Hal I D E) (s : Moment I D) (op : Op I) : Option (Moment I D) :=
  some ⟨s.manager.state,(s.manager.perform hal op).1,(s.manager.perform hal op).2⟩

/-- A new manager. -/
def start (i2c : I) (delay : D) : Moment I D := ⟨.active,.ok (),.new i2c delay⟩

/-- The peripheral is not asked for while it is handed out. -/
def Awake (s : Moment I D) (op : Op I) : Prop := s.manager.state = .sleep → ¬ op.Enables

theorem step_consistent_iff (hal : Hal I D E) {s t : Moment I D} {op : Op I}
    (hstep : step hal s op = some t) (hs : s.Consistent) : t.Consistent ↔ s.Awake op := by
  obtain ⟨hmatches,-⟩ := hs
  have ht := Option.some.inj hstep
  subst ht
  by_cases hop : op.Enables
  · cases hi2c : s.manager.i2c with
    | none =>
      -- asleep: the state turns active without the peripheral
      obtain ⟨hactive,hnone⟩ := @LowPowerI2C.perform_none I D E hal _ op hi2c hop
      refine iff_of_false ?_ fun h => h (hmatches.2.mpr hi2c) hop
      rintro ⟨⟨hheld,-⟩,-⟩
      have hsome := hheld hactive
      rw [hnone] at hsome
      cases hsome
    | some i2c =>
      obtain ⟨hstate,hsome,hresult⟩ := @LowPowerI2C.perform_some I D E hal _ op i2c hi2c hop
      have hawake : s.manager.state ≠ .sleep := by
        intro h
        rw [hmatches.2.mp h] at hi2c
        cases hi2c
      refine iff_of_true ⟨⟨fun _ => hsome,?_⟩,fun h => absurd h hresult⟩ fun h => absurd h hawake
      refine iff_of_false ?_ (Option.isSome_iff_ne_none.mp hsome)
      intro h
      cases hstate with
      | inl hactive => cases hactive.symm.trans h
      | inr hlow => cases hlow.symm.trans h
  · exact iff_of_true (LowPowerI2C.perform_other hmatches hop) fun _ => hop

/-- In every state that a run of the manager reaches, power state and peripheral match and
refusals change nothing, exactly when the run never enables it while it sleeps. -/
theorem consistent_iff_awake (hal : Hal I D E) (i2c : I) (delay : D) (ops : List (Op I)) :
    (∀ ops' t, ops' <+: ops → Runs.exec (step hal) (start i2c delay) ops' = some t →
      t.Consistent) ↔ Runs.Along (step hal) Awake (start i2c delay) ops := by
  have hstart : (start i2c delay).Consistent := by
    refine ⟨⟨fun _ => rfl,?_⟩,fun _ => rfl⟩
    exact iff_of_false (fun h => by cases h) (fun h => by cases h)
  have htotal : ∀ s op, ∃ t, step hal s op = some t := fun _ _ => ⟨_,rfl⟩
  obtain ⟨t,ht⟩ := Runs.exec_total htotal (start i2c delay) ops
  rw [Runs.forall_reached_iff (I := fun _ => True) (fun _ _ _ _ _ => trivial)
    (fun s op t hstep _ hs => step_consistent_iff hal hstep hs) ht trivial]
  exact and_iff_right hstart

/-- A bus on which every transfer succeeds and leaves the buffer as it is. -/
def quietBus : Hal Unit Unit Unit where
  write := fun i2c _ _ => (.ok (),i2c)
  writeRead := fun i2c _ _ buffer => ((.ok (),buffer),i2c)
  delayMs := fun delay _ => delay

/-- A read of a sleeping manager is refused and leaves it active without the peripheral. -/
theorem not_consistent_after_sleep :
    ∃ t, Runs.exec (step quietBus) (start () ())
        [.enterSleep,.burstRead 0x48 0x00 (Vector.replicate 2 0)] = some t ∧
      t.result = .error .invalidState ∧ t.before = .sleep ∧ t.manager.state = .active ∧
      t.manager.i2c = none ∧ ¬ t.Consistent := by
  refine ⟨_,rfl,rfl,rfl,rfl,rfl,?_⟩
  rintro ⟨⟨hheld,-⟩,-⟩
  exact absurd (hheld rfl) (by decide)

end Moment

/-! ## Reading cycles -/

/-- What an application can do with a sensor before the reader owns it. -/
inductive SensorCall
  | readTemperature | readAllSensors | configureLowPowerMode | sleep | wake
  deriving DecidableEq

/-- What the call does to the manager. -/
def SensorCall.op (deviceAddr : UInt8) : SensorCall → Op I
  | readTemperature => .readSensorLowPower deviceAddr 0x00 (Vector.replicate 2 0)
  | readAllSensors => .readSensorLowPower deviceAddr 0x00 (Vector.replicate 12 0)
  | configureLowPowerMode => .burstWrite deviceAddr [0x01,0x20]
  | sleep => .disable
  | wake => .enable

namespace LowPowerSensor

def perform (hal : Hal I D E) (s : LowPowerSensor I D) : SensorCall → LowPowerSensor I D
  | .readTemperature => (s.readTemperature hal).2
  | .readAllSensors => (s.readAllSensors hal).2
  | .configureLowPowerMode => (s.configureLowPowerMode hal).2
  | .sleep => s.sleep.2
  | .wake => (s.wake hal).2

variable (hal : Hal I D E) {s : LowPowerSensor I D} {i2c : I}

theorem perform_eq (s : LowPowerSensor I D) (c : SensorCall) :
    s.perform hal c = {s with i2cMgr := (s.i2cMgr.perform hal (c.op s.deviceAddr)).2} := by
  cases c with
  | readTemperature =>
    simp only [perform,readTemperature,LowPowerI2C.perform,SensorCall.op]
    obtain ⟨⟨answer,buffer⟩,mgr⟩ :=
      s.i2cMgr.readSensorLowPower hal s.deviceAddr 0x00 (Vector.replicate 2 0)
    cases answer <;> rfl
  | readAllSensors =>
    simp only [perform,readAllSensors,LowPowerI2C.perform,SensorCall.op]
    obtain ⟨⟨answer,buffer⟩,mgr⟩ :=
      s.i2cMgr.readSensorLowPower hal s.deviceAddr 0x00 (Vector.replicate 12 0)
    cases answer <;> rfl
  | configureLowPowerMode => rfl
  | sleep => rfl
  | wake => rfl

/-- No call of the sensor gives the peripheral away. -/
theorem perform_keeps (h : s.i2cMgr.i2c.isSome) (c : SensorCall) :
    (s.perform hal c).i2cMgr.i2c.isSome := by
  obtain ⟨i2c,hi2c⟩ := Option.isSome_iff_exists.mp h
  have henables (op : Op I) (hop : op.Enables) : (s.i2cMgr.perform hal op).2.i2c.isSome :=
    (LowPowerI2C.perform_some hi2c hop).2.1
  rw [perform_eq]
  cases c with
  | sleep =>
    simp only [SensorCall.op,LowPowerI2C.perform,LowPowerI2C.disable]
    split <;> exact h
  | readTemperature => exact henables _ trivial
  | readAllSensors => exact henables _ trivial
  | configureLowPowerMode => exact henables _ trivial
  | wake => exact henables _ trivial

/-- A sensor read is the bus read; a failed one leaves the manager active. -/
theorem readAllSensors_eq (h : s.i2cMgr.i2c = some i2c) :
    ∃ mgr : LowPowerI2C I D, s.readAllSensors hal =
      match hal.writeRead i2c s.deviceAddr [0x00] (Vector.replicate 12 0) with
      | ((.error _,_),i2c) =>
        (.error .i2cError,{s with i2cMgr := {mgr with i2c := some i2c, state := .active}})
      | ((.ok (),buffer),i2c) => (.ok (.fromBytes buffer),
          {s with i2cMgr := {mgr with i2c := some i2c, state := .lowPower}}) := by
  obtain ⟨delay,heq⟩ := LowPowerI2C.readSensorLowPower_some hal h s.deviceAddr 0x00
    (Vector.replicate 12 0)
  simp only [readAllSensors,heq]
  obtain ⟨⟨answer,buffer⟩,i2c'⟩ :=
    hal.writeRead i2c s.deviceAddr [0x00] (Vector.replicate 12 0)
  cases answer with
  | error e => exact ⟨{s.i2cMgr with delay := delay},rfl⟩
  | ok u =>
    exact ⟨{s.i2cMgr with delay := delay, transactionCount := s.i2cMgr.transactionCount + 1},rfl⟩

end LowPowerSensor

namespace PeriodicReader

variable (hal : Hal I D E) {r : PeriodicReader I D} {i2c : I}

/-- A cycle never returns data: after a good read `sleep` finds the manager no longer active, and
after a failed one it is not called. -/
theorem readCycle_eq (h : r.sensor.i2cMgr.i2c = some i2c) :
    ∃ mgr : LowPowerI2C I D, r.readCycle hal =
      match hal.writeRead i2c r.sensor.deviceAddr [0x00] (Vector.replicate 12 0) with
      | ((.error _,_),i2c) => (.error .i2cError,
          {r with sensor.i2cMgr := {mgr with i2c := some i2c, state := .active}})
      | ((.ok (),_),i2c) => (.error .invalidState,
          {r with sensor.i2cMgr := {mgr with i2c := some i2c, state := .lowPower}}) := by
  obtain ⟨delay,hwake⟩ := LowPowerI2C.enable_eq hal r.sensor.i2cMgr
  obtain ⟨mgr,hread⟩ := LowPowerSensor.readAllSensors_eq hal
    (s := {r.sensor with i2cMgr := {r.sensor.i2cMgr with state := .active, delay := delay}}) h
  refine ⟨mgr,?_⟩
  simp only [readCycle,LowPowerSensor.wake,hwake,hread]
  obtain ⟨⟨answer,buffer⟩,i2c'⟩ :=
    hal.writeRead i2c r.sensor.deviceAddr [0x00] (Vector.replicate 12 0)
  cases answer <;> rfl

/-- The cycle returns what the bus read, counts it, and ends in the low-power state. -/
def Delivers (r : PeriodicReader I D) : Prop :=
  (∀ i2c i2c' buffer, r.sensor.i2cMgr.i2c = some i2c →
      hal.writeRead i2c r.sensor.deviceAddr [0x00] (Vector.replicate 12 0) =
        ((.ok (),buffer),i2c') →
      (r.readCycle hal).1 = .ok (.fromBytes buffer) ∧
        (r.readCycle hal).2.readingCount = r.readingCount + 1) ∧
    (r.readCycle hal).2.sensor.i2cMgr.state = .lowPower

theorem not_delivers (h : r.sensor.i2cMgr.i2c = some i2c) : ¬ r.Delivers hal := by
  rintro ⟨hdata,hpower⟩
  obtain ⟨mgr,hcycle⟩ := readCycle_eq hal h
  cases hbus : hal.writeRead i2c r.sensor.deviceAddr [0x00] (Vector.replicate 12 0) with
  | mk result i2c' =>
    obtain ⟨answer,buffer⟩ := result
    rw [hbus] at hcycle
    cases answer with
    | error e =>
      rw [hcycle] at hpower
      cases hpower
    | ok u =>
      obtain ⟨hresult,-⟩ := hdata i2c i2c' buffer h hbus
      rw [hcycle] at hresult
      cases hresult

/-- Reading cycles one after the other. -/
def cycles : ℕ → PeriodicReader I D → PeriodicReader I D
  | 0, r => r
  | n + 1, r => cycles n (r.readCycle hal).2

theorem readCycle_keeps (h : r.sensor.i2cMgr.i2c.isSome) :
    (r.readCycle hal).2.sensor.i2cMgr.i2c.isSome := by
  obtain ⟨i2c,hi2c⟩ := Option.isSome_iff_exists.mp h
  obtain ⟨mgr,hcycle⟩ := readCycle_eq hal hi2c
  rw [hcycle]
  obtain ⟨⟨answer,buffer⟩,i2c'⟩ :=
    hal.writeRead i2c r.sensor.deviceAddr [0x00] (Vector.replicate 12 0)
  cases answer <;> rfl

theorem cycles_keeps (n : ℕ) (h : r.sensor.i2cMgr.i2c.isSome) :
    (r.cycles hal n).sensor.i2cMgr.i2c.isSome := by
  induction n generalizing r with
  | zero => exact h
  | succ n ih => exact ih (readCycle_keeps hal h)

theorem performs_keeps {s : LowPowerSensor I D} (h : s.i2cMgr.i2c.isSome)
    (calls : List SensorCall) :
    (calls.foldl (LowPowerSensor.perform hal) s).i2cMgr.i2c.isSome := by
  induction calls generalizing s with
  | nil => exact h
  | cons c calls ih => exact ih (LowPowerSensor.perform_keeps hal h c)

/-- A reader whose sensor was used before, after some cycles. -/
def reached (i2c : I) (delay : D) (deviceAddr : UInt8) (calls : List SensorCall)
    (intervalMs : UInt32) (n : ℕ) : PeriodicReader I D :=
  (new (calls.foldl (LowPowerSensor.perform hal) (.new i2c delay deviceAddr)) intervalMs).cycles
    hal n

/-- In no state that a reader can reach, and on no bus, does a cycle deliver its data and end in
the low-power state. -/
theorem reached_not_delivers (i2c : I) (delay : D) (deviceAddr : UInt8)
    (calls : List SensorCall) (intervalMs : UInt32) (n : ℕ) :
    ¬ (reached hal i2c delay deviceAddr calls intervalMs n).Delivers hal := by
  have hsensor := @performs_keeps I D E hal (.new i2c delay deviceAddr) rfl calls
  have hreader := @cycles_keeps I D E hal
    (new (calls.foldl (LowPowerSensor.perform hal) (.new i2c delay deviceAddr)) intervalMs) n
    hsensor
  obtain ⟨i2c',hi2c⟩ := Option.isSome_iff_exists.mp hreader
  exact not_delivers hal hi2c

/-- The first cycle on a bus that works: an error, nothing counted. -/
theorem readCycle_quietBus :
    ((new (.new () () 0x48) 60000).readCycle Moment.quietBus).1 = .error .invalidState ∧
    ((new (.new () () 0x48) 60000).readCycle Moment.quietBus).2.readingCount = 0 ∧
    (Moment.quietBus.writeRead () 0x48 [0x00] (Vector.replicate 12 0)).1.1 = .ok () :=
  ⟨rfl,rfl,rfl⟩

end PeriodicReader

end LowPowerI2c
end UProtocols
