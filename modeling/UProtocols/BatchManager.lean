import UProtocols.RegisterBatch

/-!
# The batch manager over SPI

`SpiBatch::add`, `SpiBatch::execute` with its device, and `SpiBatchManager` of
`spi_transfer_batching.rs`. A device is any implementation of the trait; the port in front of it
keeps the calls that it got. `add` may flush first and fail afterwards.
-/

namespace UProtocols
namespace SpiBatching

/-- The trait: what a transfer leaves in the receive buffer and returns, and the chip select. -/
structure SpiDevice (δ : Type) where
  transfer : δ → List UInt8 → List UInt8 → δ × Transfer
  chipSelect : δ → Bool → δ

def SpiDevice.NeverFails {δ : Type} (dev : SpiDevice δ) : Prop :=
  ∀ d tx rx, (dev.transfer d tx rx).2.error = none

inductive DeviceCall
  | chipSelect (active : Bool)
  | transfer (txData : List UInt8)
  deriving DecidableEq

/-- A device and the calls made to it. -/
structure Port (δ : Type) where
  device : δ
  calls : List DeviceCall

namespace Port

variable {δ : Type}

def chipSelect (dev : SpiDevice δ) (p : Port δ) (active : Bool) : Port δ :=
  ⟨dev.chipSelect p.device active,p.calls ++ [.chipSelect active]⟩

def transfer (dev : SpiDevice δ) (p : Port δ) (txData rxData : List UInt8) : Port δ × Transfer :=
  let answer := dev.transfer p.device txData rxData
  (⟨answer.1,p.calls ++ [.transfer txData]⟩,answer.2)

/-- The level of the chip select after some calls; it is inactive before the first. -/
def selected (p : Port δ) : Bool :=
  p.calls.foldl (fun level call => match call with
    | .chipSelect active => active
    | .transfer _ => level) false

/-- The batches that were transferred. -/
def batches (p : Port δ) : List (List UInt8) :=
  p.calls.filterMap fun call => match call with
    | .chipSelect _ => none
    | .transfer txData => some txData

end Port

/-- `Vec::resize` with zeros. -/
def resize (v : List UInt8) (len : ℕ) : List UInt8 :=
  v.take len ++ List.replicate (len - v.length) 0

namespace SpiBatch

def add (b : SpiBatch) (data : List UInt8) : SpiBatch × Option SpiError :=
  if b.maxSize < b.txBuffer.length + data.length then (b,some .bufferOverflow)
  else ({b with txBuffer := b.txBuffer ++ data},none)

/-- `execute` with the device: the chip select goes back whether or not the transfer fails. -/
def executeOn {δ : Type} (dev : SpiDevice δ) (b : SpiBatch) (p : Port δ) :
    SpiBatch × Port δ × Option SpiError :=
  if b.txBuffer.isEmpty then (b,p,none)
  else
    let answer := (p.chipSelect dev true).transfer dev b.txBuffer
      (resize b.rxBuffer b.txBuffer.length)
    let result := b.execute answer.2
    (result.1,answer.1.chipSelect dev false,result.2)

end SpiBatch

structure SpiBatchManager where
  batch : SpiBatch
  flushThreshold : ℕ
  deriving DecidableEq

namespace SpiBatchManager

variable {δ : Type}

def new (maxSize flushThreshold : ℕ) : SpiBatchManager := ⟨⟨[],[],maxSize⟩,flushThreshold⟩

def flush (dev : SpiDevice δ) (m : SpiBatchManager) (p : Port δ) :
    SpiBatchManager × Port δ × Option SpiError :=
  let result := m.batch.executeOn dev p
  ({m with batch := result.1},result.2)

/-- The flush comes before the check for room. -/
def add (dev : SpiDevice δ) (m : SpiBatchManager) (p : Port δ) (data : List UInt8) :
    SpiBatchManager × Port δ × Option SpiError :=
  let flushed :=
    if m.flushThreshold ≤ m.batch.txBuffer.length + data.length then m.flush dev p else (m,p,none)
  match flushed with
  | (m,p,some error) => (m,p,some error)
  | (m,p,none) =>
    let result := m.batch.add data
    ({m with batch := result.1},p,result.2)

end SpiBatchManager

inductive ManagerCall
  | add (data : List UInt8)
  | flush
  deriving DecidableEq

/-- A manager on its device, and the data of the calls of `add` that returned `Ok`. -/
structure ManagerState (δ : Type) where
  manager : SpiBatchManager
  port : Port δ
  accepted : List (List UInt8)

namespace ManagerState

variable {δ : Type}

def step (dev : SpiDevice δ) (s : ManagerState δ) : ManagerCall → ManagerState δ
  | .add data =>
    let result := s.manager.add dev s.port data
    ⟨result.1,result.2.1,s.accepted ++ if result.2.2.isNone then [data] else []⟩
  | .flush =>
    let result := s.manager.flush dev s.port
    ⟨result.1,result.2.1,s.accepted⟩

def run (dev : SpiDevice δ) (d : δ) (maxSize flushThreshold : ℕ) (calls : List ManagerCall) :
    ManagerState δ :=
  calls.foldl (step dev) ⟨.new maxSize flushThreshold,⟨d,[]⟩,[]⟩

end ManagerState

/-! ## What a call does -/

section Calls

variable {δ : Type} {dev : SpiDevice δ} {b : SpiBatch} {p : Port δ}

/-- The calls of one batch, in order. -/
def batchCalls (txData : List UInt8) : List DeviceCall :=
  [.chipSelect true,.transfer txData,.chipSelect false]

theorem Port.selected_batch (q : Port δ) (txData : List UInt8)
    (h : q.calls = p.calls ++ batchCalls txData) : q.selected = false := by
  simp [Port.selected,h,batchCalls]

theorem Port.batches_batch (q : Port δ) (txData : List UInt8)
    (h : q.calls = p.calls ++ batchCalls txData) : q.batches = p.batches ++ [txData] := by
  simp [Port.batches,h,batchCalls]

theorem SpiBatch.executeOn_nil (htx : b.txBuffer = []) : b.executeOn dev p = (b,p,none) := by
  simp [executeOn,htx]

theorem SpiBatch.executeOn_ok (hok : dev.NeverFails) (htx : b.txBuffer ≠ []) :
    ∃ rx q, b.executeOn dev p = ({b with txBuffer := [], rxBuffer := rx},q,none) ∧
      q.calls = p.calls ++ batchCalls b.txBuffer := by
  have herror := hok (dev.chipSelect p.device true) b.txBuffer (resize b.rxBuffer b.txBuffer.length)
  simp [executeOn,execute,htx,Port.transfer,Port.chipSelect,herror,batchCalls]

theorem SpiBatch.add_overflow {data : List UInt8}
    (hfull : b.maxSize < b.txBuffer.length + data.length) :
    b.add data = (b,some .bufferOverflow) := by
  simp [add,hfull]

theorem SpiBatch.add_ok {data : List UInt8} (hroom : b.txBuffer.length + data.length ≤ b.maxSize) :
    b.add data = ({b with txBuffer := b.txBuffer ++ data},none) := by
  simp [add,Nat.not_lt.mpr hroom]

end Calls

namespace ManagerState

variable {δ : Type} {dev : SpiDevice δ} {maxSize : ℕ} {s : ManagerState δ}

/-- Nothing is lost or out of order, nothing is too long, and the device is not selected. -/
structure Streams (maxSize : ℕ) (s : ManagerState δ) : Prop where
  maxSize_eq : s.manager.batch.maxSize = maxSize
  stream_eq : s.port.batches.flatten ++ s.manager.batch.txBuffer = s.accepted.flatten
  batches_le : ∀ batch ∈ s.port.batches, batch.length ≤ maxSize
  pending_le : s.manager.batch.txBuffer.length ≤ maxSize
  unselected : s.port.selected = false

/-- A flush moves the pending bytes to the batches; it may find none. -/
theorem Streams.flush (h : s.Streams maxSize) (hok : dev.NeverFails) :
    ∃ m q, s.manager.flush dev s.port = (m,q,none) ∧ Streams maxSize ⟨m,q,s.accepted⟩ ∧
      m.batch.txBuffer = [] := by
  by_cases htx : s.manager.batch.txBuffer = []
  · refine ⟨s.manager,s.port,?_,h,htx⟩
    simp [SpiBatchManager.flush,SpiBatch.executeOn_nil htx]
  · obtain ⟨rx,q,hexecute,hcalls⟩ := SpiBatch.executeOn_ok (p := s.port) hok htx
    refine ⟨_,q,by simp [SpiBatchManager.flush,hexecute]; rfl,?_,rfl⟩
    have hbatches := Port.batches_batch q _ hcalls
    exact {
      maxSize_eq := h.maxSize_eq
      stream_eq := by simpa [hbatches] using h.stream_eq
      batches_le := by
        simpa [hbatches,or_imp,forall_and] using ⟨h.batches_le,h.pending_le⟩
      pending_le := Nat.zero_le _
      unselected := Port.selected_batch q _ hcalls }

/-- The second half of `add`, on what the flush left. -/
theorem Streams.append (h : s.Streams maxSize) (data : List UInt8) :
    Streams maxSize ⟨{s.manager with batch := (s.manager.batch.add data).1},s.port,
      s.accepted ++ if (s.manager.batch.add data).2.isNone then [data] else []⟩ := by
  by_cases hroom : s.manager.batch.txBuffer.length + data.length ≤ s.manager.batch.maxSize
  · rw [SpiBatch.add_ok hroom]
    exact {h with
      stream_eq := by simp [← h.stream_eq]
      pending_le := by
        rw [h.maxSize_eq] at hroom
        simpa using hroom }
  · rw [SpiBatch.add_overflow (Nat.not_le.mp hroom)]
    simpa using h

theorem Streams.add (h : s.Streams maxSize) (hok : dev.NeverFails) (data : List UInt8) :
    Streams maxSize (s.step dev (.add data)) := by
  by_cases hflush : s.manager.flushThreshold ≤ s.manager.batch.txBuffer.length + data.length
  · obtain ⟨m,q,hresult,hflushed,-⟩ := h.flush hok
    simpa [step,SpiBatchManager.add,hflush,hresult] using hflushed.append data
  · simpa [step,SpiBatchManager.add,hflush] using h.append data

theorem Streams.step (h : s.Streams maxSize) (hok : dev.NeverFails) (call : ManagerCall) :
    Streams maxSize (s.step dev call) := by
  cases call with
  | add data => exact h.add hok data
  | flush =>
    obtain ⟨m,q,hresult,hflushed,-⟩ := h.flush hok
    simpa [ManagerState.step,hresult] using hflushed

theorem streams_new (d : δ) (maxSize flushThreshold : ℕ) :
    Streams maxSize (⟨.new maxSize flushThreshold,⟨d,[]⟩,[]⟩ : ManagerState δ) where
  maxSize_eq := rfl
  stream_eq := rfl
  batches_le := nofun
  pending_le := Nat.zero_le _
  unselected := rfl

end ManagerState

/-- On a device that does not fail, for all sizes, thresholds and calls: what was transferred and
what is pending is what `add` accepted, in batches within the bound, and between calls the device
is not selected. -/
theorem batchManager_stream {δ : Type} (dev : SpiDevice δ) (hok : dev.NeverFails) (d : δ)
    (maxSize flushThreshold : ℕ) (calls : List ManagerCall) :
    let s := ManagerState.run dev d maxSize flushThreshold calls
    s.port.batches.flatten ++ s.manager.batch.txBuffer = s.accepted.flatten ∧
      (∀ batch ∈ s.port.batches, batch.length ≤ maxSize) ∧
      s.manager.batch.txBuffer.length ≤ maxSize ∧ s.port.selected = false := by
  have hstreams : (ManagerState.run dev d maxSize flushThreshold calls).Streams maxSize :=
    List.foldlRecOn calls _ (ManagerState.streams_new d maxSize flushThreshold)
      fun s h call _ => h.step hok call
  exact ⟨hstreams.stream_eq,hstreams.batches_le,hstreams.pending_le,hstreams.unselected⟩

/-- The device of the tests: every byte comes back one higher, and its state is the chip select. -/
def mockSpi : SpiDevice Bool where
  transfer selected tx _ := (selected,⟨tx.map (· + 1),none⟩)
  chipSelect _ active := active

/-- A threshold above the capacity: the third call finds no room and the last one flushes first. -/
theorem batchManager_stream_refused :
    let s := ManagerState.run mockSpi false 4 6 [.add [1,2],.add [3,4],.add [5],.add [6,7]]
    s.accepted = [[1,2],[3,4],[6,7]] ∧
      s.port.batches.flatten ++ s.manager.batch.txBuffer = s.accepted.flatten := by
  have hstream := batchManager_stream mockSpi (fun _ _ _ => rfl) false 4 6
    [.add [1,2],.add [3,4],.add [5],.add [6,7]]
  exact ⟨by decide,hstream.1⟩

end SpiBatching
end UProtocols
