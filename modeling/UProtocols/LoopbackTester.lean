import UProtocols.Runs

/-!
# The I2C loopback tester

`I2CLoopbackTester` of `44.rs` on registers that hold what was written to them, except that the
hardware may clear START and STOP in CR1. What each wait for a flag sees of SR1 before its timeout
is a list of values, and it succeeds if the flag is right in one of them. Durations are left out.
-/

namespace UProtocols
namespace LoopbackTester

def cr1Pe : UInt32 := 0x1
def cr1Start : UInt32 := 0x100
def cr1Stop : UInt32 := 0x200
def cr1Ack : UInt32 := 0x400
def cr1Loopback : UInt32 := 0x8000

def sr1Sb : UInt32 := 0x1
def sr1Addr : UInt32 := 0x2
def sr1Btf : UInt32 := 0x4
def sr1Rxne : UInt32 := 0x40
def sr1Txe : UInt32 := 0x80

def loopbackAddress : UInt8 := 0x50

inductive LoopbackError
  | timeout | dataMismatch | hardwareError | initFailed | notInitialized
  deriving DecidableEq

structure Statistics where
  testsPassed : UInt32
  testsFailed : UInt32
  timeouts : UInt32
  dataErrors : UInt32
  deriving DecidableEq

structure TestResult where
  status : Except LoopbackError Unit
  bytesTested : ℕ
  errorPositions : List ℕ

/-- What the hardware does next: at reads of CR1 (START cleared, STOP cleared), during waits, and
at reads of DR. -/
structure Hardware where
  cleared : ℕ → Bool × Bool
  samples : ℕ → List UInt32
  received : ℕ → UInt32

/-- The tester, the registers it writes, and the bytes it has put into DR. -/
structure Tester where
  cr1 : UInt32
  cr2 : UInt32
  oar1 : UInt32
  sent : List UInt8
  initialized : Bool
  stats : Statistics
  hardware : Hardware

abbrev Method := ExceptT LoopbackError (StateM Tester)

/-! ## Registers -/

def readCr1 : Method UInt32 := do
  let t ← get
  let (startCleared,stopCleared) := t.hardware.cleared 0
  let value := if startCleared then t.cr1 &&& ~~~cr1Start else t.cr1
  let value := if stopCleared then value &&& ~~~cr1Stop else value
  set {t with cr1 := value, hardware.cleared := fun i => t.hardware.cleared (i + 1)}
  return value

def writeCr1 (value : UInt32) : Method Unit := modify fun t => {t with cr1 := value}

def modifyCr1 (f : UInt32 → UInt32) : Method Unit := do
  let value ← readCr1
  writeCr1 (f value)

def writeDr (value : UInt8) : Method Unit := modify fun t => {t with sent := t.sent ++ [value]}

def readDr : Method UInt8 := do
  let t ← get
  set {t with hardware.received := fun i => t.hardware.received (i + 1)}
  return (t.hardware.received 0).toUInt8

/-- One of the values has the flag as it should be. -/
def succeeds (samples : List UInt32) (flag : UInt32) (set : Bool) : Bool :=
  samples.any fun sr1 => (sr1 &&& flag != 0) == set

def waitForFlag (flag : UInt32) (set : Bool) : Method Unit := do
  let t ← get
  modify fun t => {t with hardware.samples := fun i => t.hardware.samples (i + 1)}
  if succeeds (t.hardware.samples 0) flag set then return () else throw .timeout

/-! ## The methods -/

/-- `initialize`. -/
def setUp : Method Unit := do
  modifyCr1 (· &&& ~~~cr1Pe)
  modify fun t => {t with cr2 := 0x0010}
  modify fun t => {t with oar1 := loopbackAddress.toUInt32 <<< 1 ||| 0x8000}
  modifyCr1 (· ||| cr1Ack)
  modifyCr1 (· ||| cr1Loopback)
  modifyCr1 (· ||| cr1Pe)
  modify fun t => {t with initialized := true}

def requireInitialized : Method Unit := do
  if !(← get).initialized then throw .notInitialized

/-- The beginning of `write` and `read`: START, then the address byte. The reads of SR1 and SR2
that clear the ADDR flag have no effect here. -/
def address (byte : UInt8) : Method Unit := do
  modifyCr1 (· ||| cr1Start)
  waitForFlag sr1Sb true
  writeDr byte
  waitForFlag sr1Addr true

def writeBytes : List UInt8 → Method Unit
  | [] => return ()
  | byte::rest => do
    waitForFlag sr1Txe true
    writeDr byte
    writeBytes rest

def write (addr : UInt8) (data : List UInt8) : Method Unit := do
  requireInitialized
  address (addr <<< 1 ||| 0)
  writeBytes data
  waitForFlag sr1Btf true
  modifyCr1 (· ||| cr1Stop)

/-- What `read` does before a byte that `n` more follow: the last one is not acknowledged. -/
def prepareByte (n : ℕ) : Method Unit := do
  if n = 0 then
    modifyCr1 (· &&& ~~~cr1Ack)
    modifyCr1 (· ||| cr1Stop)

/-- The loop of `read`, with the number of bytes still to come. -/
def readBytes : ℕ → Method (List UInt8)
  | 0 => return []
  | n + 1 => do
    prepareByte n
    waitForFlag sr1Rxne true
    let byte ← readDr
    let bytes ← readBytes n
    return byte::bytes

/-- The bytes for a buffer of length `n`. -/
def read (addr : UInt8) (n : ℕ) : Method (List UInt8) := do
  requireInitialized
  address (addr <<< 1 ||| 1)
  let bytes ← readBytes n
  modifyCr1 (· ||| cr1Ack)
  return bytes

def updateStatsError (e : LoopbackError) (s : Statistics) : Statistics :=
  {s with
    testsFailed := s.testsFailed + 1
    timeouts := if e = .timeout then s.timeouts + 1 else s.timeouts}

/-- The positions at which two lists differ. -/
def mismatches (expected actual : List UInt8) : List ℕ :=
  (expected.zip actual).zipIdx.filterMap fun p => if p.1.1 = p.1.2 then none else some p.2

namespace Tester

/-- A method call. -/
def call {α : Type} (t : Tester) (m : Method α) : Except LoopbackError α × Tester := m.run.run t

/-- `test_pattern`. -/
def testPattern (t : Tester) (data : List UInt8) : TestResult × Tester :=
  match t.call (write loopbackAddress data) with
  | (.error e,t) => (⟨.error e,data.length,[]⟩,{t with stats := updateStatsError e t.stats})
  | (.ok (),t) =>
    match t.call (read loopbackAddress data.length) with
    | (.error e,t) => (⟨.error e,data.length,[]⟩,{t with stats := updateStatsError e t.stats})
    | (.ok readBuffer,t) =>
      let errorPositions := mismatches data readBuffer
      if errorPositions.isEmpty then
        (⟨.ok (),data.length,errorPositions⟩,
          {t with stats := {t.stats with testsPassed := t.stats.testsPassed + 1}})
      else
        (⟨.error .dataMismatch,data.length,errorPositions⟩,
          {t with stats := {t.stats with
            testsFailed := t.stats.testsFailed + 1
            dataErrors := t.stats.dataErrors + UInt32.ofNat errorPositions.length}})

end Tester

/-! ## Calls -/

section Calls

variable {α β : Type} {t : Tester}

theorem call_bind (m : Method α) (f : α → Method β) (t : Tester) : t.call (m >>= f) =
    match t.call m with
    | (.ok a,t) => t.call (f a)
    | (.error e,t) => (.error e,t) := by
  have hbind : t.call (m >>= f) = (ExceptT.bindCont (fun a => f a) (t.call m).1).run (t.call m).2 :=
    rfl
  rw [hbind]
  obtain ⟨answer,u⟩ := t.call m
  cases answer <;> rfl

theorem call_bind_ok {m : Method α} {f : α → Method β} {a : α} {u : Tester}
    (h : t.call m = (.ok a,u)) : t.call (m >>= f) = u.call (f a) := by
  rw [call_bind,h]

theorem call_bind_error {m : Method α} {f : α → Method β} {e : LoopbackError} {u : Tester}
    (h : t.call m = (.error e,u)) : t.call (m >>= f) = (.error e,u) := by
  rw [call_bind,h]

/-- CR1_ACK is set. -/
def Tester.Ack (t : Tester) : Prop := t.cr1 &&& cr1Ack ≠ 0

/-- The value that is read has the ACK bit as it was. -/
theorem modifyCr1_call (f : UInt32 → UInt32) (t : Tester) :
    ∃ value cleared, value &&& cr1Ack = t.cr1 &&& cr1Ack ∧
      t.call (modifyCr1 f) = (.ok (),{t with cr1 := f value, hardware.cleared := cleared}) := by
  have hstart (v : UInt32) : v &&& ~~~cr1Start &&& cr1Ack = v &&& cr1Ack := by
    rw [UInt32.and_assoc]
    rfl
  have hstop (v : UInt32) : v &&& ~~~cr1Stop &&& cr1Ack = v &&& cr1Ack := by
    rw [UInt32.and_assoc]
    rfl
  refine ⟨_,_,?_,rfl⟩
  split <;> split <;> simp only [hstart,hstop]

/-- `k` waits later, with ACK as it was. -/
structure After (k : ℕ) (t u : Tester) : Prop where
  initialized : u.initialized = t.initialized
  samples : u.hardware.samples = fun i => t.hardware.samples (i + k)
  ack : u.Ack ↔ t.Ack

theorem After.trans {j k : ℕ} {t u v : Tester} (h : After j t u) (h' : After k u v) :
    After (j + k) t v where
  initialized := h'.initialized.trans h.initialized
  samples := by
    rw [h'.samples,h.samples]
    funext i
    show t.hardware.samples (i + k + j) = _
    rw [Nat.add_assoc,Nat.add_comm k j]
  ack := h'.ack.trans h.ack

/-- The method keeps ACK; it succeeds exactly if what the waits will see satisfies `C`, after `k`
waits, and times out otherwise. -/
def Waits (m : Method α) (C : (ℕ → List UInt32) → Prop) (k : ℕ) : Prop :=
  ∀ t : Tester,
    (C t.hardware.samples → ∃ a u, t.call m = (.ok a,u) ∧ After k t u) ∧
    (¬ C t.hardware.samples → ∃ j u, t.call m = (.error .timeout,u) ∧ After j t u)

namespace Waits

variable {C C' : (ℕ → List UInt32) → Prop} {j k : ℕ}

theorem of_ok {m : Method α} (h : ∀ t, ∃ a u, t.call m = (.ok a,u) ∧ After 0 t u) :
    Waits m (fun _ => True) 0 := by
  intro t
  exact ⟨fun _ => h t,fun hnot => absurd trivial hnot⟩

theorem pure (a : α) : Waits (Pure.pure a : Method α) (fun _ => True) 0 :=
  of_ok fun t => ⟨a,t,rfl,rfl,rfl,Iff.rfl⟩

theorem writeDr (value : UInt8) : Waits (writeDr value) (fun _ => True) 0 :=
  of_ok fun _ => ⟨(),_,rfl,rfl,rfl,Iff.rfl⟩

theorem readDr : Waits readDr (fun _ => True) 0 := of_ok fun _ => ⟨_,_,rfl,rfl,rfl,Iff.rfl⟩

theorem modifyCr1 {f : UInt32 → UInt32}
    (hf : ∀ v w, v &&& cr1Ack = w &&& cr1Ack → f v &&& cr1Ack = w &&& cr1Ack) :
    Waits (modifyCr1 f) (fun _ => True) 0 := by
  refine of_ok fun t => ?_
  obtain ⟨value,cleared,hvalue,hcall⟩ := modifyCr1_call f t
  refine ⟨(),_,hcall,rfl,rfl,?_⟩
  simp only [Tester.Ack,hf value t.cr1 hvalue]

theorem waitForFlag (flag : UInt32) (set : Bool) :
    Waits (waitForFlag flag set) (fun samples => succeeds (samples 0) flag set) 1 := by
  intro t
  let u : Tester := {t with hardware.samples := fun i => t.hardware.samples (i + 1)}
  have hcall : t.call (LoopbackTester.waitForFlag flag set) =
      u.call (if succeeds (t.hardware.samples 0) flag set then return () else throw .timeout) := rfl
  have hu : After 1 t u := ⟨rfl,rfl,Iff.rfl⟩
  rw [hcall]
  constructor
  · intro h
    rw [if_pos h]
    exact ⟨(),u,rfl,hu⟩
  · intro h
    rw [if_neg h]
    exact ⟨1,u,rfl,hu⟩

/-- The waits of one method after those of another. -/
theorem bind {m : Method α} {f : α → Method β} (hm : Waits m C j) (hf : ∀ a, Waits (f a) C' k) :
    Waits (m >>= f) (fun samples => C samples ∧ C' fun i => samples (i + j)) (j + k) := by
  intro t
  by_cases h : C t.hardware.samples
  · obtain ⟨a,u,hcall,hu⟩ := (hm t).1 h
    dsimp only
    rw [call_bind_ok hcall,← hu.samples,and_iff_right h]
    constructor
    · intro h'
      obtain ⟨b,v,hrest,hv⟩ := (hf a u).1 h'
      exact ⟨b,v,hrest,hu.trans hv⟩
    · intro h'
      obtain ⟨i,v,hrest,hv⟩ := (hf a u).2 h'
      exact ⟨j + i,v,hrest,hu.trans hv⟩
  · obtain ⟨i,u,hcall,hu⟩ := (hm t).2 h
    refine ⟨fun h' => absurd h'.1 h,fun _ => ⟨i,u,?_,hu⟩⟩
    rw [call_bind_error hcall]

theorem congr {m : Method α} (hm : Waits m C j) (hk : j = k)
    (h : ∀ samples, C samples ↔ C' samples) : Waits m C' k := by
  have hC : C = C' := funext fun samples => propext (h samples)
  rw [← hC,← hk]
  exact hm

end Waits

/-! ## Transfers -/

/-- The next `n` waits find the flag set. -/
def AllSet (flag : UInt32) : ℕ → (ℕ → List UInt32) → Prop
  | 0, _ => True
  | n + 1, samples => succeeds (samples 0) flag true ∧ AllSet flag n fun i => samples (i + 1)

/-- START and the address byte are answered. -/
def Addressed (samples : ℕ → List UInt32) : Prop :=
  succeeds (samples 0) sr1Sb true ∧ succeeds (samples 1) sr1Addr true

/-- All waits of a write of `n` bytes succeed. -/
def Written (n : ℕ) (samples : ℕ → List UInt32) : Prop :=
  Addressed samples ∧ AllSet sr1Txe n (fun i => samples (i + 2)) ∧
    succeeds (samples (n + 2)) sr1Btf true

theorem or_keeps_ack {bits : UInt32} (h : bits &&& cr1Ack = 0) (v w : UInt32)
    (hv : v &&& cr1Ack = w &&& cr1Ack) : (v ||| bits) &&& cr1Ack = w &&& cr1Ack := by
  have hor : (v ||| bits) &&& cr1Ack = v &&& cr1Ack ||| bits &&& cr1Ack := by
    apply UInt32.toNat_inj.mp
    simp only [UInt32.toNat_and,UInt32.toNat_or]
    exact Nat.and_or_distrib_right _ _ _
  rw [hor,h,UInt32.or_zero,hv]

theorem waits_address (byte : UInt8) : Waits (address byte) Addressed 2 := by
  have hall := (Waits.modifyCr1 (or_keeps_ack (show cr1Start &&& cr1Ack = 0 by decide))).bind
    fun _ => (Waits.waitForFlag sr1Sb true).bind
      fun _ => (Waits.writeDr byte).bind fun _ => Waits.waitForFlag sr1Addr true
  refine hall.congr rfl fun samples => ?_
  simp [Addressed]

theorem waits_writeBytes (data : List UInt8) :
    Waits (writeBytes data) (AllSet sr1Txe data.length) data.length := by
  induction data with
  | nil => exact Waits.pure ()
  | cons byte rest ih =>
    have hall := (Waits.waitForFlag sr1Txe true).bind fun _ =>
      (Waits.writeDr byte).bind fun _ => ih
    refine hall.congr ?_ fun samples => ?_
    · rw [List.length_cons]
      omega
    · simp [AllSet]

theorem requireInitialized_call {t : Tester} (h : t.initialized = true) :
    t.call requireInitialized = (.ok (),t) := by
  have hcall : t.call requireInitialized =
      t.call (if !t.initialized then throw .notInitialized else return ()) := rfl
  rw [hcall,h]
  rfl

theorem write_call {t : Tester} (h : t.initialized = true) (addr : UInt8) (data : List UInt8) :
    (Written data.length t.hardware.samples →
      ∃ a u, t.call (write addr data) = (.ok a,u) ∧ After (data.length + 3) t u) ∧
    (¬ Written data.length t.hardware.samples →
      ∃ j u, t.call (write addr data) = (.error .timeout,u) ∧ After j t u) := by
  have hall := (waits_address (addr <<< 1 ||| 0)).bind fun _ =>
    (waits_writeBytes data).bind fun _ => (Waits.waitForFlag sr1Btf true).bind
      fun _ => Waits.modifyCr1 (or_keeps_ack (show cr1Stop &&& cr1Ack = 0 by decide))
  rw [write,call_bind_ok (requireInitialized_call h)]
  refine @Waits.congr _ _ (Written data.length) _ (data.length + 3) _ hall (by omega) ?_ t
  intro samples
  simp [Written]

/-- Before the last byte ACK is cleared. -/
theorem prepareByte_zero (t : Tester) : ∃ u, t.call (prepareByte 0) = (.ok (),u) ∧ ¬ u.Ack ∧
    u.initialized = t.initialized ∧ u.hardware.samples = t.hardware.samples := by
  obtain ⟨value,cleared,-,hclear⟩ := modifyCr1_call (· &&& ~~~cr1Ack) t
  have hnot : value &&& ~~~cr1Ack &&& cr1Ack = 0 := by
    rw [UInt32.and_assoc,show ~~~cr1Ack &&& cr1Ack = 0 by decide,UInt32.and_zero]
  have hstop := Waits.modifyCr1 (or_keeps_ack (show cr1Stop &&& cr1Ack = 0 by decide))
  obtain ⟨a,u,hcall,hu⟩ := (hstop _).1 trivial
  refine ⟨u,(call_bind_ok hclear).trans hcall,?_,hu.initialized,hu.samples⟩
  rw [hu.ack]
  exact fun h => h hnot

/-- A byte with what is before and behind it in the loop. -/
theorem readByte_call {t u : Tester} {n : ℕ} (h : t.call (prepareByte n) = (.ok (),u)) :
    (succeeds (u.hardware.samples 0) sr1Rxne true → ∃ byte v, After 1 u v ∧
      t.call (readBytes (n + 1)) = v.call (do
        let bytes ← readBytes n
        return byte::bytes)) ∧
    (¬ succeeds (u.hardware.samples 0) sr1Rxne true → ∃ j v, After j u v ∧
      t.call (readBytes (n + 1)) = (.error .timeout,v)) := by
  have hbyte := (Waits.waitForFlag sr1Rxne true) u
  rw [readBytes,call_bind_ok h]
  constructor
  · intro hset
    obtain ⟨a,v,hwait,hv⟩ := hbyte.1 hset
    obtain ⟨byte,w,hread,hw⟩ := (Waits.readDr v).1 trivial
    refine ⟨byte,w,hv.trans hw,?_⟩
    rw [call_bind_ok hwait,call_bind_ok hread]
  · intro hset
    obtain ⟨j,v,hwait,hv⟩ := hbyte.2 hset
    exact ⟨j,v,hv,call_bind_error hwait⟩

/-- The loop of a read of `n + 1` bytes. ACK is cleared exactly if the first `n` arrive. -/
theorem readBytes_call (n : ℕ) (t : Tester) :
    (AllSet sr1Rxne n t.hardware.samples → ∃ u, ¬ u.Ack ∧ u.initialized = t.initialized ∧
      (succeeds (t.hardware.samples n) sr1Rxne true →
        ∃ bytes, t.call (readBytes (n + 1)) = (.ok bytes,u)) ∧
      (¬ succeeds (t.hardware.samples n) sr1Rxne true →
        t.call (readBytes (n + 1)) = (.error .timeout,u))) ∧
    (¬ AllSet sr1Rxne n t.hardware.samples → ∃ u, (u.Ack ↔ t.Ack) ∧
      u.initialized = t.initialized ∧ t.call (readBytes (n + 1)) = (.error .timeout,u)) := by
  induction n generalizing t with
  | zero =>
    refine ⟨fun _ => ?_,fun h => absurd trivial h⟩
    obtain ⟨u,hprepare,hnot,hinit,hsamples⟩ := prepareByte_zero t
    have hbyte := readByte_call hprepare
    rw [hsamples] at hbyte
    by_cases hset : succeeds (t.hardware.samples 0) sr1Rxne true
    · obtain ⟨byte,v,hv,hcall⟩ := hbyte.1 hset
      refine ⟨v,?_,hv.initialized.trans hinit,fun _ => ⟨[byte],hcall⟩,fun h => absurd hset h⟩
      rw [hv.ack]
      exact hnot
    · obtain ⟨j,v,hv,hcall⟩ := hbyte.2 hset
      refine ⟨v,?_,hv.initialized.trans hinit,fun h => absurd h hset,fun _ => hcall⟩
      rw [hv.ack]
      exact hnot
  | succ n ih =>
    have hbyte := @readByte_call t t (n + 1) rfl
    by_cases hset : succeeds (t.hardware.samples 0) sr1Rxne true
    · -- the byte arrives and the loop goes on
      obtain ⟨byte,v,hv,hcall⟩ := hbyte.1 hset
      have hrest := ih v
      rw [hv.samples,hv.initialized,hv.ack] at hrest
      have hall : AllSet sr1Rxne (n + 1) t.hardware.samples ↔
          AllSet sr1Rxne n fun i => t.hardware.samples (i + 1) := and_iff_right hset
      rw [hall,hcall]
      constructor
      · intro hsome
        obtain ⟨u,hnot,hinit,hok,htimeout⟩ := hrest.1 hsome
        refine ⟨u,hnot,hinit,?_,?_⟩
        · intro hlast
          obtain ⟨bytes,hbytes⟩ := hok hlast
          exact ⟨byte::bytes,call_bind_ok hbytes⟩
        · intro hlast
          exact call_bind_error (htimeout hlast)
      · intro hsome
        obtain ⟨u,hkept,hinit,htimeout⟩ := hrest.2 hsome
        exact ⟨u,hkept,hinit,call_bind_error htimeout⟩
    · obtain ⟨j,v,hv,hcall⟩ := hbyte.2 hset
      refine ⟨fun h => absurd h.1 hset,fun _ => ⟨v,hv.ack,hv.initialized,hcall⟩⟩

/-- A read of `n` bytes waits in vain for its last one. -/
def LastByteLost : ℕ → (ℕ → List UInt32) → Prop
  | 0, _ => False
  | n + 1, samples => Addressed samples ∧ AllSet sr1Rxne n (fun i => samples (i + 2)) ∧
    ¬ succeeds (samples (n + 2)) sr1Rxne true

/-- `initialize` and the end of `read` set ACK. -/
theorem setAck_call (t : Tester) : ∃ u, t.call (modifyCr1 (· ||| cr1Ack)) = (.ok (),u) ∧ u.Ack ∧
    u.initialized = t.initialized := by
  obtain ⟨value,cleared,-,hcall⟩ := modifyCr1_call (· ||| cr1Ack) t
  refine ⟨_,hcall,?_,rfl⟩
  have hset : (value ||| cr1Ack) &&& cr1Ack = cr1Ack := by
    apply UInt32.toNat_inj.mp
    simp only [UInt32.toNat_and,UInt32.toNat_or]
    apply Nat.eq_of_testBit_eq
    intro i
    rw [Nat.testBit_and,Nat.testBit_or]
    cases value.toNat.testBit i <;> cases cr1Ack.toNat.testBit i <;> rfl
  rw [Tester.Ack,hset]
  decide

theorem setUp_call (t : Tester) : ∃ u, t.call setUp = (.ok (),u) ∧ u.Ack ∧
    u.initialized = true := by
  have hloopback := Waits.modifyCr1 (or_keeps_ack (show cr1Loopback &&& cr1Ack = 0 by decide))
  have hpe := Waits.modifyCr1 (or_keeps_ack (show cr1Pe &&& cr1Ack = 0 by decide))
  obtain ⟨value,cleared,-,hdisable⟩ := modifyCr1_call (· &&& ~~~cr1Pe) t
  obtain ⟨u,hset,hack,-⟩ := setAck_call {t with
    cr1 := value &&& ~~~cr1Pe
    hardware.cleared := cleared
    cr2 := 0x0010
    oar1 := loopbackAddress.toUInt32 <<< 1 ||| 0x8000}
  obtain ⟨a,v,hcall,hv⟩ := (hloopback u).1 trivial
  obtain ⟨b,w,hcall',hw⟩ := (hpe v).1 trivial
  refine ⟨{w with initialized := true},?_,hw.ack.mpr (hv.ack.mpr hack),rfl⟩
  calc
    t.call setUp = _ := call_bind_ok hdisable
    -- CR2 and OAR1
    _ = _ := call_bind_ok rfl
    _ = _ := call_bind_ok rfl
    _ = _ := call_bind_ok hset
    _ = _ := call_bind_ok hcall
    _ = _ := call_bind_ok hcall'
    _ = _ := rfl

/-- A read keeps ACK unless it waits in vain for its last byte. -/
theorem read_call {t : Tester} (h : t.initialized = true) (addr : UInt8) (n : ℕ) :
    (t.Ack → ((t.call (read addr n)).2.Ack ↔ ¬ LastByteLost n t.hardware.samples)) ∧
      (t.call (read addr n)).2.initialized = true := by
  have haddress := waits_address (addr <<< 1 ||| 1) t
  rw [read,call_bind_ok (requireInitialized_call h)]
  by_cases haddr : Addressed t.hardware.samples
  · obtain ⟨a,u,hcall,hu⟩ := haddress.1 haddr
    rw [call_bind_ok hcall]
    cases n with
    | zero =>
      obtain ⟨v,hset,hv,hinit⟩ := setAck_call u
      rw [call_bind_ok (show u.call (readBytes 0) = (.ok [],u) from rfl),call_bind_ok hset]
      exact ⟨fun _ => iff_of_true hv fun hlost => hlost,hinit.trans (hu.initialized.trans h)⟩
    | succ n =>
      have hbytes := readBytes_call n u
      rw [hu.samples,hu.initialized,hu.ack,h] at hbytes
      by_cases hall : AllSet sr1Rxne n fun i => t.hardware.samples (i + 2)
      · obtain ⟨v,hnot,hinit,hok,htimeout⟩ := hbytes.1 hall
        by_cases hlast : succeeds (t.hardware.samples (n + 2)) sr1Rxne true
        · obtain ⟨bytes,hread⟩ := hok hlast
          obtain ⟨w,hset,hw,hwinit⟩ := setAck_call v
          rw [call_bind_ok hread,call_bind_ok hset]
          exact ⟨fun _ => iff_of_true hw fun hlost => hlost.2.2 hlast,hwinit.trans hinit⟩
        · rw [call_bind_error (htimeout hlast)]
          exact ⟨fun _ => iff_of_false hnot fun hkept => hkept ⟨haddr,hall,hlast⟩,hinit⟩
      · obtain ⟨v,hkept,hinit,htimeout⟩ := hbytes.2 hall
        rw [call_bind_error htimeout]
        exact ⟨fun hack => iff_of_true (hkept.mpr hack) fun hlost => hall hlost.2.1,hinit⟩
  · obtain ⟨j,u,hcall,hu⟩ := haddress.2 haddr
    rw [call_bind_error hcall]
    refine ⟨fun hack => iff_of_true (hu.ack.mpr hack) ?_,hu.initialized.trans h⟩
    intro hlost
    cases n with
    | zero => exact hlost
    | succ n => exact haddr hlost.1

end Calls

/-! ## Runs -/

inductive Call
  | write (addr : UInt8) (data : List UInt8)
  | read (addr : UInt8) (n : ℕ)
  | testPattern (data : List UInt8)
  deriving DecidableEq

/-- The call comes to the last byte of a read and waits for it in vain. -/
def Call.LosesLastByte (samples : ℕ → List UInt32) : Call → Prop
  | write _ _ => False
  | read _ n => LastByteLost n samples
  | testPattern data => Written data.length samples ∧
    LastByteLost data.length fun i => samples (i + (data.length + 3))

namespace Tester

def perform (t : Tester) : Call → Tester
  | .write addr data => (t.call (write addr data)).2
  | .read addr n => (t.call (read addr n)).2
  | .testPattern data => (t.testPattern data).2

def step (t : Tester) (c : Call) : Option Tester := some (t.perform c)

theorem write_keeps {t : Tester} (h : t.initialized = true) (addr : UInt8) (data : List UInt8) :
    ((t.call (write addr data)).2.Ack ↔ t.Ack) ∧
      (t.call (write addr data)).2.initialized = true := by
  by_cases hwritten : Written data.length t.hardware.samples
  · obtain ⟨a,u,hcall,hu⟩ := (write_call h addr data).1 hwritten
    rw [hcall]
    exact ⟨hu.ack,hu.initialized.trans h⟩
  · obtain ⟨j,u,hcall,hu⟩ := (write_call h addr data).2 hwritten
    rw [hcall]
    exact ⟨hu.ack,hu.initialized.trans h⟩

/-- The statistics do not touch the registers: after a write that succeeds it is the read that
counts. -/
theorem testPattern_eq {t u : Tester} {data : List UInt8} {a : Unit}
    (h : t.call (write loopbackAddress data) = (.ok a,u)) :
    (t.testPattern data).2.cr1 = (u.call (read loopbackAddress data.length)).2.cr1 ∧
      (t.testPattern data).2.initialized =
        (u.call (read loopbackAddress data.length)).2.initialized := by
  simp only [testPattern,h]
  obtain ⟨answer,v⟩ := u.call (read loopbackAddress data.length)
  cases answer with
  | error e => exact ⟨rfl,rfl⟩
  | ok bytes =>
    dsimp only
    split <;> exact ⟨rfl,rfl⟩

/-- A call of an initialized tester, and what becomes of ACK in it. -/
theorem perform_ack {t : Tester} (h : t.initialized = true) (c : Call) :
    (t.Ack → ((t.perform c).Ack ↔ ¬ c.LosesLastByte t.hardware.samples)) ∧
      (t.perform c).initialized = true := by
  cases c with
  | write addr data =>
    obtain ⟨hkept,hinit⟩ := write_keeps h addr data
    exact ⟨fun hack => iff_of_true (hkept.mpr hack) fun hlost => hlost,hinit⟩
  | read addr n => exact read_call h addr n
  | testPattern data =>
    by_cases hwritten : Written data.length t.hardware.samples
    · obtain ⟨a,u,hcall,hu⟩ := (write_call h loopbackAddress data).1 hwritten
      obtain ⟨hcr1,hinit⟩ := testPattern_eq hcall
      have hread := read_call (hu.initialized.trans h) loopbackAddress data.length
      rw [hu.samples,hu.ack] at hread
      refine ⟨fun hack => ?_,hinit.trans hread.2⟩
      have hsame : (t.testPattern data).2.Ack ↔
          (u.call (LoopbackTester.read loopbackAddress data.length)).2.Ack := by
        rw [Ack,hcr1]
        exact Iff.rfl
      rw [perform,hsame,hread.1 hack]
      exact not_congr (and_iff_right hwritten).symm
    · obtain ⟨j,u,hcall,hu⟩ := (write_call h loopbackAddress data).2 hwritten
      have htest : (t.testPattern data).2 =
          {u with stats := updateStatsError .timeout u.stats} := by
        simp only [testPattern,hcall]
      rw [perform,htest]
      refine ⟨fun hack => iff_of_true (hu.ack.mpr hack) ?_,hu.initialized.trans h⟩
      exact fun hlost => hwritten hlost.1

/-- After `initialize`, ACK is set between all calls of a run exactly if no call waits in vain for
the last byte of a read. -/
theorem ack_iff_lastBytes (t : Tester) (calls : List Call) :
    (∀ calls' u, calls' <+: calls → Runs.exec step (t.call setUp).2 calls' = some u → u.Ack) ↔
      Runs.Along step (fun u c => ¬ c.LosesLastByte u.hardware.samples) (t.call setUp).2
        calls := by
  obtain ⟨s,hsetUp,hack,hinit⟩ := setUp_call t
  rw [hsetUp]
  have htotal : ∀ t c, ∃ u, step t c = some u := fun _ _ => ⟨_,rfl⟩
  obtain ⟨u,hu⟩ := Runs.exec_total htotal s calls
  rw [Runs.forall_reached_iff (I := fun t => t.initialized = true) ?_ ?_ hu hinit]
  · exact and_iff_right hack
  · intro t c u hstep ht
    rw [← Option.some.inj hstep]
    exact (perform_ack ht c).2
  · intro t c u hstep ht hack
    rw [← Option.some.inj hstep]
    exact (perform_ack ht c).1 hack

/-- A tester before `initialize`, with a slave that answers its address and sends nothing. -/
def silentSlave : Tester where
  cr1 := 0
  cr2 := 0
  oar1 := 0
  sent := []
  initialized := false
  stats := ⟨0,0,0,0⟩
  hardware := ⟨fun _ => (true,true),
    fun i => if i = 0 then [sr1Sb] else if i = 1 then [sr1Addr] else [0,0],fun _ => 0⟩

/-- One read of one byte that does not come: ACK stays cleared. -/
theorem ack_lost_silentSlave :
    ∃ u, Runs.exec step (silentSlave.call setUp).2 [.read loopbackAddress 1] = some u ∧
      ¬ u.Ack := by
  refine ⟨_,rfl,?_⟩
  intro h
  exact h (by decide)

end Tester

end LoopbackTester
end UProtocols
