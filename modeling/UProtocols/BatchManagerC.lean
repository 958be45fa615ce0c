import Mathlib.Data.Int.Notation
import UProtocols.Runs

/-!
# The batch manager over SPI, in C

`spi_batch_add`, `spi_batch_execute` and the manager of `spi_transfer_batching.c`, for buffers
that were allocated. The transmit buffer is the list of its first `current_size` bytes. The
manager ignores what `spi_batch_add` returns.
-/

namespace UProtocols
namespace SpiBatchingC

structure SpiBatch where
  txBuffer : List UInt8
  capacity : ℕ
  deriving DecidableEq

def SpiBatch.currentSize (b : SpiBatch) : ℕ := b.txBuffer.length

inductive HalCall
  | csLow
  | transfer (txBuf : List UInt8)
  | csHigh
  deriving DecidableEq

def spiBatchInit (capacity : ℕ) : SpiBatch := ⟨[],capacity⟩

def spiBatchAdd (b : SpiBatch) (data : List UInt8) : SpiBatch × ℤ :=
  if b.capacity < b.currentSize + data.length then (b,-1)
  else ({b with txBuffer := b.txBuffer ++ data},0)

def spiBatchExecute (b : SpiBatch) (hal : List HalCall) : SpiBatch × List HalCall :=
  if b.currentSize = 0 then (b,hal)
  else ({b with txBuffer := []},hal ++ [.csLow,.transfer b.txBuffer,.csHigh])

/-- A manager and the calls that its hardware got. -/
structure SpiBatchManager where
  batch : SpiBatch
  hal : List HalCall
  flushThreshold : ℕ
  deriving DecidableEq

def spiManagerInit (capacity flushThreshold : ℕ) : SpiBatchManager :=
  ⟨spiBatchInit capacity,[],flushThreshold⟩

def spiManagerFlush (m : SpiBatchManager) : SpiBatchManager :=
  let result := spiBatchExecute m.batch m.hal
  {m with batch := result.1, hal := result.2}

def spiManagerAdd (m : SpiBatchManager) (data : List UInt8) : SpiBatchManager :=
  let m := if m.flushThreshold ≤ m.batch.currentSize + data.length then spiManagerFlush m else m
  {m with batch := (spiBatchAdd m.batch data).1}

/-- The bytes of all transfers. -/
def SpiBatchManager.transferred (m : SpiBatchManager) : List UInt8 :=
  m.hal.flatMap fun call => match call with
    | .transfer txBuf => txBuf
    | .csLow | .csHigh => []

/-- Adds and a flush at the end. -/
def sendAll (capacity flushThreshold : ℕ) (adds : List (List UInt8)) : SpiBatchManager :=
  spiManagerFlush (adds.foldl spiManagerAdd (spiManagerInit capacity flushThreshold))

/-- The data reaches the threshold, so that the buffer is emptied for it, or fits without. -/
def Fits (m : SpiBatchManager) (data : List UInt8) : Prop :=
  m.flushThreshold ≤ m.batch.currentSize + data.length ∨
    m.batch.currentSize + data.length ≤ m.batch.capacity

instance (m : SpiBatchManager) (data : List UInt8) : Decidable (Fits m data) :=
  inferInstanceAs (Decidable (_ ∨ _))

/-- Every add of a sequence finds room, in the state that the ones before it leave. -/
def AllFit (m : SpiBatchManager) (adds : List (List UInt8)) : Prop :=
  Runs.Along (fun m data => some (spiManagerAdd m data)) Fits m adds

/-! ## What is sent and what is pending -/

namespace SpiBatchManager

variable {m : SpiBatchManager} {data : List UInt8}

/-- The bytes that were transferred or are in the buffer. -/
def stream (m : SpiBatchManager) : List UInt8 := m.transferred ++ m.batch.txBuffer

theorem stream_flush (m : SpiBatchManager) : (spiManagerFlush m).stream = m.stream := by
  by_cases htx : m.batch.txBuffer = []
  · simp [spiManagerFlush,spiBatchExecute,SpiBatch.currentSize,htx]
  · simp [spiManagerFlush,spiBatchExecute,SpiBatch.currentSize,htx,stream,transferred]

theorem txBuffer_flush (m : SpiBatchManager) : (spiManagerFlush m).batch.txBuffer = [] := by
  by_cases htx : m.batch.txBuffer = []
  · simp [spiManagerFlush,spiBatchExecute,SpiBatch.currentSize,htx]
  · simp [spiManagerFlush,spiBatchExecute,SpiBatch.currentSize,htx]

theorem capacity_flush (m : SpiBatchManager) :
    (spiManagerFlush m).batch.capacity = m.batch.capacity := by
  by_cases htx : m.batch.txBuffer = []
  · simp [spiManagerFlush,spiBatchExecute,SpiBatch.currentSize,htx]
  · simp [spiManagerFlush,spiBatchExecute,SpiBatch.currentSize,htx]

theorem flushThreshold_add (m : SpiBatchManager) (data : List UInt8) :
    (spiManagerAdd m data).flushThreshold = m.flushThreshold := by
  simp only [spiManagerAdd]
  split <;> rfl

theorem capacity_add (m : SpiBatchManager) (data : List UInt8) :
    (spiManagerAdd m data).batch.capacity = m.batch.capacity := by
  simp only [spiManagerAdd,spiBatchAdd]
  split <;> split <;> simp [capacity_flush]

theorem stream_add (hlen : data.length ≤ m.batch.capacity) (hfits : Fits m data) :
    (spiManagerAdd m data).stream = m.stream ++ data := by
  by_cases hflush : m.flushThreshold ≤ m.batch.currentSize + data.length
  · have hroom : ¬ (spiManagerFlush m).batch.capacity <
        (spiManagerFlush m).batch.currentSize + data.length := by
      rw [SpiBatch.currentSize,txBuffer_flush,capacity_flush]
      simpa using hlen
    have hstream := stream_flush m
    simp only [spiManagerAdd,hflush,if_true,spiBatchAdd,hroom,if_false]
    rw [← hstream]
    simp [stream,transferred]
  · have hroom : ¬ m.batch.capacity < m.batch.currentSize + data.length :=
      Nat.not_lt.mpr (hfits.resolve_left hflush)
    simp [spiManagerAdd,hflush,spiBatchAdd,hroom,stream,transferred]

/-- The error of `spi_batch_add` is lost, and the data with it. -/
theorem add_lost (hfits : ¬ Fits m data) : spiManagerAdd m data = m := by
  obtain ⟨hflush,hroom⟩ := not_or.mp hfits
  simp [spiManagerAdd,hflush,spiBatchAdd,Nat.not_le.mp hroom]

/-- The buffer is never overrun. -/
theorem currentSize_spiBatchAdd_le {b : SpiBatch} (h : b.currentSize ≤ b.capacity) :
    (spiBatchAdd b data).1.currentSize ≤ b.capacity := by
  by_cases hfull : b.capacity < b.currentSize + data.length
  · simpa [spiBatchAdd,hfull] using h
  · rw [spiBatchAdd,if_neg hfull,SpiBatch.currentSize,List.length_append]
    exact Nat.not_lt.mp hfull

theorem currentSize_add_le (hpending : m.batch.currentSize ≤ m.batch.capacity) :
    (spiManagerAdd m data).batch.currentSize ≤ m.batch.capacity := by
  by_cases hflush : m.flushThreshold ≤ m.batch.currentSize + data.length
  · have hflushed : (spiManagerFlush m).batch.currentSize ≤ (spiManagerFlush m).batch.capacity := by
      rw [SpiBatch.currentSize,txBuffer_flush]
      exact Nat.zero_le _
    rw [← capacity_flush m]
    simpa [spiManagerAdd,hflush] using currentSize_spiBatchAdd_le hflushed
  · simpa [spiManagerAdd,hflush] using currentSize_spiBatchAdd_le hpending

theorem length_stream_add_le (m : SpiBatchManager) (data : List UInt8)
    (hlen : data.length ≤ m.batch.capacity) :
    (spiManagerAdd m data).stream.length ≤ m.stream.length + data.length := by
  by_cases hfits : Fits m data
  · exact Nat.le_of_eq (by rw [stream_add hlen hfits,List.length_append])
  · rw [add_lost hfits]
    exact Nat.le_add_right _ _

theorem length_stream_run_le {adds : List (List UInt8)}
    (hlen : ∀ data ∈ adds, data.length ≤ m.batch.capacity) :
    (adds.foldl spiManagerAdd m).stream.length ≤ m.stream.length + adds.flatten.length := by
  induction adds generalizing m with
  | nil => simp
  | cons data adds ih =>
    obtain ⟨hdata,hadds⟩ := List.forall_mem_cons.mp hlen
    rw [← capacity_add m data] at hadds
    have hfirst := length_stream_add_le m data hdata
    have hrest := ih hadds
    rw [List.flatten_cons,List.length_append]
    exact Nat.le_trans hrest (by omega)

/-- Data that does not fit is not empty, so nothing can make up for it. -/
theorem pos_of_not_fits (hpending : m.batch.currentSize ≤ m.batch.capacity)
    (hfits : ¬ Fits m data) : 0 < data.length := by
  obtain ⟨-,hroom⟩ := not_or.mp hfits
  omega

theorem stream_run_iff {adds : List (List UInt8)}
    (hlen : ∀ data ∈ adds, data.length ≤ m.batch.capacity)
    (hpending : m.batch.currentSize ≤ m.batch.capacity) :
    (adds.foldl spiManagerAdd m).stream = m.stream ++ adds.flatten ↔ AllFit m adds := by
  induction adds generalizing m with
  | nil => simp [AllFit,Runs.Along]
  | cons data adds ih =>
    obtain ⟨hdata,hadds⟩ := List.forall_mem_cons.mp hlen
    rw [← capacity_add m data] at hadds
    by_cases hfits : Fits m data
    · have hrest := ih hadds (by rw [capacity_add]; exact currentSize_add_le hpending)
      rw [stream_add hdata hfits,List.append_assoc] at hrest
      rw [List.foldl_cons,List.flatten_cons,hrest]
      simp [AllFit,Runs.Along,hfits]
    · refine iff_of_false ?_ fun h => hfits h.1
      intro heq
      have hpos := pos_of_not_fits hpending hfits
      have hshort := length_stream_run_le hadds
      rw [List.foldl_cons] at heq
      rw [heq,add_lost hfits,List.flatten_cons,List.length_append,List.length_append] at hshort
      omega

end SpiBatchManager

open SpiBatchManager

/-- Everything that is added is transferred in the end, exactly when each add reaches the
threshold or fits into what is left of the buffer. -/
theorem batchManager_sends_iff (capacity flushThreshold : ℕ) (adds : List (List UInt8))
    (hlen : ∀ data ∈ adds, data.length ≤ capacity) :
    (sendAll capacity flushThreshold adds).transferred = adds.flatten ↔
      AllFit (spiManagerInit capacity flushThreshold) adds := by
  rw [← stream_run_iff hlen (Nat.zero_le _)]
  have hstream := stream_flush (adds.foldl spiManagerAdd (spiManagerInit capacity flushThreshold))
  rw [stream,txBuffer_flush,List.append_nil] at hstream
  rw [sendAll,hstream]
  rfl

/-- The threshold is above the capacity, but every add reaches it or fits. -/
theorem batchManager_sends_iff_filled :
    (sendAll 4 6 [[1,2],[3,4],[5,6]]).transferred = [1,2,3,4,5,6] := by
  refine (batchManager_sends_iff 4 6 [[1,2],[3,4],[5,6]] (by decide)).mpr ?_
  simp [AllFit,Runs.Along]
  decide

/-- The second add exceeds the capacity but not the threshold, and its data is gone. -/
theorem batchManager_sends_iff_dropped :
    (∀ data ∈ [[1,2,3],[4,5]], data.length ≤ 4) ∧
      (sendAll 4 6 [[1,2,3],[4,5]]).transferred ≠ [[1,2,3],[4,5]].flatten := by
  decide

/-- Thresholds up to one above the capacity lose nothing, whatever is added. -/
theorem allFit_of_threshold_le {capacity flushThreshold : ℕ} (h : flushThreshold ≤ capacity + 1)
    (adds : List (List UInt8)) : AllFit (spiManagerInit capacity flushThreshold) adds := by
  refine Runs.Along.of_invariant (I := fun m => m.flushThreshold ≤ m.batch.capacity + 1)
    ?_ ?_ (Runs.along_of_forall (P := fun _ _ => True) (fun _ _ => trivial) _ adds) h
  · intro m data t hstep _ hle
    cases hstep
    rw [capacity_add,flushThreshold_add]
    exact hle
  · intro m data hle
    rw [Fits]
    omega

end SpiBatchingC
end UProtocols
