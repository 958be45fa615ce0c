import Mathlib.Data.Nat.Notation
import UProtocols.Runs

/-!
# The batch manager over SPI, in C++

`SpiBatch::add`, `execute` and `SpiBatchManager` of `spi_transfer_batching.cpp`, with a flush
callback that only looks on and a device that does not throw. The device gets the receive vector
by reference, so it may leave any vector there. `flush` calls back before it transfers.
-/

namespace UProtocols
namespace SpiBatchingCpp

/-- `ISpiDevice`: `transfer` leaves a receive vector. -/
structure ISpiDevice (δ : Type) where
  transfer : δ → List UInt8 → List UInt8 → δ × List UInt8
  chipSelect : δ → Bool → δ

structure SpiBatch where
  txBuffer : List UInt8
  rxBuffer : List UInt8
  maxSize : ℕ
  deriving DecidableEq

/-- `std::vector::resize`; new elements are zero. -/
def resize (v : List UInt8) (size : ℕ) : List UInt8 :=
  v.take size ++ List.replicate (size - v.length) 0

/-- What `add` leaves, and whether it throws `std::overflow_error`. -/
def SpiBatch.add (b : SpiBatch) (data : List UInt8) : SpiBatch × Bool :=
  if b.maxSize < b.txBuffer.length + data.length then (b,true)
  else ({b with txBuffer := b.txBuffer ++ data},false)

section Manager

variable {δ : Type}

/-- A manager with its device, what the callback has seen, and the receive buffers of the batches
that were executed. -/
structure SpiBatchManager (δ : Type) where
  batch : SpiBatch
  flushThreshold : ℕ
  device : δ
  flushed : List (List UInt8)
  received : List (List UInt8)

namespace SpiBatchManager

def new (d : δ) (maxSize flushThreshold : ℕ) : SpiBatchManager δ :=
  ⟨⟨[],[],maxSize⟩,flushThreshold,d,[],[]⟩

/-- The transfer of `execute`: the device and the receive buffer after it. -/
def response (dev : ISpiDevice δ) (m : SpiBatchManager δ) : δ × List UInt8 :=
  dev.transfer (dev.chipSelect m.device true) m.batch.txBuffer
    (resize m.batch.rxBuffer m.batch.txBuffer.length)

def execute (dev : ISpiDevice δ) (m : SpiBatchManager δ) : SpiBatchManager δ :=
  if m.batch.txBuffer.isEmpty then m
  else
    let answer := m.response dev
    {m with
      batch := {m.batch with txBuffer := [], rxBuffer := answer.2}
      device := dev.chipSelect answer.1 false
      received := m.received ++ [answer.2]}

def flush (dev : ISpiDevice δ) (m : SpiBatchManager δ) : SpiBatchManager δ :=
  if m.batch.txBuffer.isEmpty then m
  else execute dev {m with flushed := m.flushed ++ [m.batch.rxBuffer]}

def add (dev : ISpiDevice δ) (m : SpiBatchManager δ) (data : List UInt8) :
    SpiBatchManager δ × Bool :=
  let m := if m.flushThreshold ≤ m.batch.txBuffer.length + data.length then m.flush dev else m
  let result := m.batch.add data
  ({m with batch := result.1},result.2)

end SpiBatchManager

inductive Call
  | add (data : List UInt8)
  | flush
  deriving DecidableEq

/-- A call that throws leaves the manager as it was when it did. -/
def step (dev : ISpiDevice δ) (m : SpiBatchManager δ) : Call → SpiBatchManager δ
  | .add data => (m.add dev data).1
  | .flush => m.flush dev

def run (dev : ISpiDevice δ) (d : δ) (maxSize flushThreshold : ℕ) (calls : List Call) :
    SpiBatchManager δ :=
  calls.foldl (step dev) (.new d maxSize flushThreshold)

/-- The call flushes and there is something to flush. -/
def Executes (m : SpiBatchManager δ) : Call → Prop
  | .add data =>
    m.batch.txBuffer ≠ [] ∧ m.flushThreshold ≤ m.batch.txBuffer.length + data.length
  | .flush => m.batch.txBuffer ≠ []

/-- If the call executes a batch, the device leaves an empty receive vector. -/
def Unanswered (dev : ISpiDevice δ) (m : SpiBatchManager δ) (call : Call) : Prop :=
  Executes m call → (m.response dev).2 = []

/-! ## Callbacks are one batch late -/

variable {dev : ISpiDevice δ} {m : SpiBatchManager δ}

namespace SpiBatchManager

theorem flush_nil (htx : m.batch.txBuffer = []) : m.flush dev = m := by
  simp [flush,htx]

theorem flush_cons (htx : m.batch.txBuffer ≠ []) :
    m.flush dev = {m with
      batch := {m.batch with txBuffer := [], rxBuffer := (m.response dev).2}
      device := dev.chipSelect (m.response dev).1 false
      flushed := m.flushed ++ [m.batch.rxBuffer]
      received := m.received ++ [(m.response dev).2]} := by
  simp [flush,execute,htx,response]

end SpiBatchManager

/-- A batch was executed between `m` and `t`. -/
structure Advanced (dev : ISpiDevice δ) (m t : SpiBatchManager δ) : Prop where
  flushed_eq : t.flushed = m.flushed ++ [m.batch.rxBuffer]
  received_eq : t.received = m.received ++ [(m.response dev).2]
  rxBuffer_eq : t.batch.rxBuffer = (m.response dev).2

/-- No batch was executed between `m` and `t`. -/
structure Unmoved (m t : SpiBatchManager δ) : Prop where
  flushed_eq : t.flushed = m.flushed
  received_eq : t.received = m.received
  rxBuffer_eq : t.batch.rxBuffer = m.batch.rxBuffer

theorem SpiBatch.rxBuffer_add (b : SpiBatch) (data : List UInt8) :
    (b.add data).1.rxBuffer = b.rxBuffer := by
  rw [add]
  split <;> rfl

theorem advanced_flush (dev : ISpiDevice δ) (htx : m.batch.txBuffer ≠ []) :
    Advanced dev m (m.flush dev) := by
  rw [SpiBatchManager.flush_cons htx]
  exact ⟨rfl,rfl,rfl⟩

theorem unmoved_flush (dev : ISpiDevice δ) (htx : m.batch.txBuffer = []) :
    Unmoved m (m.flush dev) := by
  rw [SpiBatchManager.flush_nil htx]
  exact ⟨rfl,rfl,rfl⟩

theorem step_add_of_le {data : List UInt8}
    (hle : m.flushThreshold ≤ m.batch.txBuffer.length + data.length) :
    step dev m (.add data) =
      {m.flush dev with batch := ((m.flush dev).batch.add data).1} := by
  simp [step,SpiBatchManager.add,hle]

theorem step_add_of_lt {data : List UInt8}
    (hlt : m.batch.txBuffer.length + data.length < m.flushThreshold) :
    step dev m (.add data) = {m with batch := (m.batch.add data).1} := by
  simp [step,SpiBatchManager.add,Nat.not_le.mpr hlt]

/-- What one call does to the two sequences. -/
theorem step_cases (dev : ISpiDevice δ) (m : SpiBatchManager δ) (call : Call) :
    Executes m call ∧ Advanced dev m (step dev m call) ∨
      ¬ Executes m call ∧ Unmoved m (step dev m call) := by
  by_cases htx : m.batch.txBuffer = []
  · have hflush := unmoved_flush dev htx
    refine .inr ⟨?_,?_⟩
    · cases call <;> simp [Executes,htx]
    · cases call with
      | flush => exact hflush
      | add data =>
        rcases Nat.lt_or_ge (m.batch.txBuffer.length + data.length) m.flushThreshold with hlt | hle
        · rw [step_add_of_lt hlt]
          exact ⟨rfl,rfl,SpiBatch.rxBuffer_add _ _⟩
        · rw [step_add_of_le hle]
          exact {hflush with rxBuffer_eq := (SpiBatch.rxBuffer_add _ _).trans hflush.rxBuffer_eq}
  · have hflush := advanced_flush dev htx
    cases call with
    | flush => exact .inl ⟨htx,hflush⟩
    | add data =>
      rcases Nat.lt_or_ge (m.batch.txBuffer.length + data.length) m.flushThreshold with hlt | hle
      · rw [step_add_of_lt hlt]
        exact .inr ⟨fun h => Nat.not_le.mpr hlt h.2,rfl,rfl,SpiBatch.rxBuffer_add _ _⟩
      · rw [step_add_of_le hle]
        refine .inl ⟨⟨htx,hle⟩,?_⟩
        exact {hflush with rxBuffer_eq := (SpiBatch.rxBuffer_add _ _).trans hflush.rxBuffer_eq}

/-- The callbacks and the buffer that waits for the next one: an empty buffer and the answers. -/
def Late (m : SpiBatchManager δ) : Prop := m.flushed ++ [m.batch.rxBuffer] = [] :: m.received

theorem Late.step (h : Late m) (call : Call) : Late (step dev m call) := by
  rcases step_cases dev m call with ⟨-,hnext⟩ | ⟨-,hsame⟩
  · rw [Late,hnext.flushed_eq,hnext.rxBuffer_eq,hnext.received_eq,h,List.cons_append]
  · rw [Late,hsame.flushed_eq,hsame.rxBuffer_eq,hsame.received_eq,h]

theorem late_run (dev : ISpiDevice δ) (d : δ) (maxSize flushThreshold : ℕ) (calls : List Call) :
    Late (run dev d maxSize flushThreshold calls) :=
  List.foldlRecOn calls _ rfl fun _ h call _ => h.step call

/-- Every batch so far was left unanswered, exactly when each call is of that kind. -/
theorem received_empty_iff (m : SpiBatchManager δ) (calls : List Call) :
    (∀ rx ∈ (calls.foldl (step dev) m).received, rx = []) ↔
      (∀ rx ∈ m.received, rx = []) ∧
        Runs.Along (fun m call => some (step dev m call)) (Unanswered dev) m calls := by
  induction calls generalizing m with
  | nil => simp [Runs.Along]
  | cons call calls ih =>
    rw [List.foldl_cons,ih]
    simp only [Runs.Along,Option.some.injEq,forall_eq',Unanswered]
    rcases step_cases dev m call with ⟨hexecutes,hnext⟩ | ⟨hexecutes,hsame⟩
    · rw [hnext.received_eq,List.forall_mem_append,List.forall_mem_singleton,and_assoc]
      simp only [hexecutes,true_imp_iff]
    · rw [hsame.received_eq]
      simp only [hexecutes,false_imp_iff,true_and]

end Manager

/-- A list that is one element behind another one is the same only if nothing ever changes. -/
theorem eq_iff_of_append_singleton {α : Type} {first last : α} {late now : List α}
    (h : late ++ [last] = first :: now) : late = now ↔ ∀ x ∈ now, x = first := by
  constructor
  · intro heq
    subst heq
    induction late with
    | nil => exact fun x hx => absurd hx List.not_mem_nil
    | cons y late ih =>
      rw [List.cons_append,List.cons.injEq] at h
      obtain ⟨rfl,hrest⟩ := h
      exact List.forall_mem_cons.mpr ⟨rfl,ih hrest⟩
  · intro hall
    have hnow := List.eq_replicate_of_mem hall
    rw [hnow,← List.replicate_succ,List.replicate_succ'] at h
    rw [hnow]
    exact (List.append_inj' h rfl).1

/-- The callback sees the receive buffers of the executed batches, exactly when every batch that a
call executes is left unanswered. -/
theorem flushCallback_iff {δ : Type} (dev : ISpiDevice δ) (d : δ) (maxSize flushThreshold : ℕ)
    (calls : List Call) :
    (run dev d maxSize flushThreshold calls).flushed =
        (run dev d maxSize flushThreshold calls).received ↔
      Runs.Along (fun m call => some (step dev m call)) (Unanswered dev)
        (.new d maxSize flushThreshold) calls := by
  rw [eq_iff_of_append_singleton (late_run dev d maxSize flushThreshold calls)]
  refine (received_empty_iff (.new d maxSize flushThreshold) calls).trans (and_iff_right ?_)
  exact fun rx hrx => absurd hrx List.not_mem_nil

/-- A device that answers every byte with the next one. -/
def echo : ISpiDevice Unit where
  transfer _ tx _ := ((),tx.map (· + 1))
  chipSelect _ _ := ()

/-- The first callback sees nothing, the second one the first answer; the second answer is lost. -/
theorem flushCallback_late :
    (run echo () 4 4 [.add [1,2],.flush,.add [3],.flush]).flushed = [[],[2,3]] ∧
      (run echo () 4 4 [.add [1,2],.flush,.add [3],.flush]).received = [[2,3],[4]] ∧
      (run echo () 4 4 [.add [1,2],.flush,.add [3],.flush]).flushed ≠
        (run echo () 4 4 [.add [1,2],.flush,.add [3],.flush]).received := by
  decide

/-- For devices that keep the length of the receive vector, no call may execute a batch. -/
theorem unanswered_iff {δ : Type} {dev : ISpiDevice δ}
    (hlength : ∀ d tx rx, (dev.transfer d tx rx).2.length = rx.length) (m : SpiBatchManager δ)
    (call : Call) : Unanswered dev m call ↔ ¬ Executes m call := by
  refine imp_congr_right fun hexecutes => iff_of_false ?_ id
  have htx : m.batch.txBuffer ≠ [] := by
    cases call with
    | add data => exact hexecutes.1
    | flush => exact hexecutes
  rw [← List.length_eq_zero_iff,SpiBatchManager.response,hlength]
  have hpos := List.length_pos_iff.mpr htx
  simp only [resize,List.length_append,List.length_take,List.length_replicate]
  omega

end SpiBatchingCpp
end UProtocols
