import UProtocols.Interference
import UProtocols.WriteBackCache

/-!
# Receiving by DMA behind a cache

`SpiDma` and `SpiFlash` of `spi_dma_cache_coherency.rs`: a call is the sequence of its accesses to
the memory, to the registers of the cache and to the DMA. Meanwhile the cache moves lines as it
likes, other code writes to its own objects, and the device writes what it delivers.
-/

namespace UProtocols
namespace SpiDma

def cacheLineSize : ℕ := 32

inductive CacheOp
  | clean
  | invalidate
  | cleanInvalidate
  deriving DecidableEq

inductive SpiError
  | bufferTooSmall
  | lengthMismatch
  | transferFailed
  deriving DecidableEq

inductive Access
  | store (a : ℕ) (v : UInt8)
  | load (a : ℕ)
  /-- A write to the register of the operation. -/
  | register (op : CacheOp) (ptr : ℕ)
  | configureDmaTx (ptr len : ℕ)
  | configureDmaRx (ptr len : ℕ)
  | configureDmaDuplex (txPtr rxPtr len : ℕ)
  | startDma
  | waitForCompletion
  /-- The bytes that a call has loaded are returned. -/
  | returned (len : ℕ)
  deriving DecidableEq

/-- The values of `ptr` in the loop of `cache_operation`. -/
def pointers (addr size : ℕ) : List ℕ :=
  let start := addr / cacheLineSize * cacheLineSize
  let stop := (addr + size + cacheLineSize - 1) / cacheLineSize * cacheLineSize
  List.range' start ((stop - start) / cacheLineSize) cacheLineSize

def cacheOperation (op : CacheOp) (addr size : ℕ) : List Access :=
  (pointers addr size).map (.register op)

/-- `repr(align(32))`. -/
structure DmaBuffer where
  addr : ℕ
  size : ℕ
  aligned : cacheLineSize ∣ addr

namespace DmaBuffer

def clean (b : DmaBuffer) : List Access := cacheOperation .clean b.addr b.size

def invalidate (b : DmaBuffer) : List Access := cacheOperation .invalidate b.addr b.size

/-- The alignment rounds the size of the object up. -/
def sizeOf (b : DmaBuffer) : ℕ := (b.size + cacheLineSize - 1) / cacheLineSize * cacheLineSize

def Owns (b : DmaBuffer) (a : ℕ) : Prop := b.addr ≤ a ∧ a < b.addr + b.sizeOf

instance (b : DmaBuffer) (a : ℕ) : Decidable (b.Owns a) := inferInstanceAs (Decidable (_ ∧ _))

def copyFromSlice (b : DmaBuffer) (data : List UInt8) : List Access :=
  data.mapIdx fun i v => .store (b.addr + i) v

/-- The buffer copied into the slice of the caller. -/
def copyTo (b : DmaBuffer) (len : ℕ) : List Access :=
  (List.range len).map fun i => .load (b.addr + i)

end DmaBuffer

end SpiDma

structure SpiDma where
  txBuffer : SpiDma.DmaBuffer
  rxBuffer : SpiDma.DmaBuffer

namespace SpiDma

open WriteBackCache Interference

/-- What a call does, and its error. -/
structure Calling where
  accesses : List Access
  error : Option SpiError
  deriving DecidableEq

def transmit (d : SpiDma) (data : List UInt8) : Calling :=
  if data.length > d.txBuffer.size then ⟨[],some .bufferTooSmall⟩
  else ⟨d.txBuffer.copyFromSlice data ++ d.txBuffer.clean ++
    [.configureDmaTx d.txBuffer.addr data.length,.startDma],none⟩

def receive (d : SpiDma) (len : ℕ) : Calling :=
  if len > d.rxBuffer.size then ⟨[],some .bufferTooSmall⟩
  else ⟨d.rxBuffer.invalidate ++
    [.configureDmaRx d.rxBuffer.addr len,.startDma,.waitForCompletion] ++
    d.rxBuffer.invalidate ++ d.rxBuffer.copyTo len ++ [.returned len],none⟩

def transfer (d : SpiDma) (txData : List UInt8) (rxLen : ℕ) : Calling :=
  if txData.length ≠ rxLen then ⟨[],some .lengthMismatch⟩
  else
    let len := txData.length
    if len > d.txBuffer.size ∨ len > d.rxBuffer.size then ⟨[],some .bufferTooSmall⟩
    else ⟨d.txBuffer.copyFromSlice txData ++ d.txBuffer.clean ++ d.rxBuffer.invalidate ++
      [.configureDmaDuplex d.txBuffer.addr d.rxBuffer.addr len,.startDma,.waitForCompletion] ++
      d.rxBuffer.invalidate ++ d.rxBuffer.copyTo len ++ [.returned len],none⟩

/-- `SpiFlash::read`; the alignment pads the command. -/
def read (d : SpiDma) (address : UInt32) (padding : Fin 28 → UInt8) (len : ℕ) : Calling :=
  let command := [(0x03 : UInt8),(address >>> 16).toUInt8,(address >>> 8).toUInt8,address.toUInt8] ++
    List.ofFn padding
  let sent := d.transmit command
  match sent.error with
  | some e => ⟨sent.accesses,some e⟩
  | none =>
    let received := d.receive len
    ⟨sent.accesses ++ received.accesses,received.error⟩

inductive Call
  | transmit (data : List UInt8)
  | receive (len : ℕ)
  | transfer (txData : List UInt8) (rxLen : ℕ)
  | read (address : UInt32) (padding : Fin 28 → UInt8) (len : ℕ)

def calling (d : SpiDma) : Call → Calling
  | .transmit data => d.transmit data
  | .receive len => d.receive len
  | .transfer txData rxLen => d.transfer txData rxLen
  | .read address padding len => d.read address padding len

def program (d : SpiDma) (calls : List Call) : List Access :=
  calls.flatMap fun c => (d.calling c).accesses

/-- What a call has returned, beside what the device has delivered for it. -/
structure Reception where
  len : ℕ
  bytes : List UInt8
  delivered : List UInt8
  deriving DecidableEq

/-- The processor, the memory and the DMA; `stored` is what the program and other code have
written. -/
structure Machine where
  memory : Memory UInt8
  stored : ℕ → UInt8
  target : Option (ℕ × ℕ)
  running : Bool
  delivered : List UInt8
  loaded : List UInt8
  log : List Reception

namespace Machine

def store (m : Machine) (a : ℕ) (v : UInt8) : Machine :=
  {m with memory := m.memory.write cacheLineSize a v, stored := Function.update m.stored a v}

/-- The other registers make a line do what it may do by itself. The platform's part of a transfer is
that the device fills the target from its start and that the wait ends after the last byte. -/
def act : Access → Machine → Option Machine
  | .store a v, m => some (m.store a v)
  | .load a, m => some {m with loaded := m.loaded ++ [m.memory.view cacheLineSize a]}
  | .register .invalidate ptr, m => some {m with memory := m.memory.invalidate (ptr / cacheLineSize)}
  | .register .clean _, m | .register .cleanInvalidate _, m => some m
  | .configureDmaTx _ _, m => some {m with target := none}
  | .configureDmaRx ptr len, m | .configureDmaDuplex _ ptr len, m =>
    some {m with target := some (ptr,len)}
  | .startDma, m => some {m with running := true, delivered := []}
  | .waitForCompletion, m =>
    match m.target with
    | some (_,len) => if m.delivered.length = len then some {m with running := false} else none
    | none => some {m with running := false}
  | .returned len, m =>
    some {m with loaded := [], log := m.log ++ [⟨len,m.loaded,m.delivered⟩]}

inductive Event
  | move (e : Move)
  /-- Other code has no access to the receive buffer. -/
  | store (a : ℕ) (v : UInt8)
  | deliver (v : UInt8)

def event (b : DmaBuffer) : Event → Machine → Option Machine
  | .move e, m => some {m with memory := m.memory.move cacheLineSize e}
  | .store a v, m => if b.Owns a then none else some (m.store a v)
  | .deliver v, m =>
    match m.target with
    | some (ptr,len) =>
      if m.running = true ∧ m.delivered.length < len then
        some {m with
          memory := m.memory.deviceWrite (ptr + m.delivered.length) v
          delivered := m.delivered ++ [v]}
      else none
    | none => none

end Machine

/-! ## The lines of a buffer -/

namespace DmaBuffer

def pointers (b : DmaBuffer) : List ℕ := SpiDma.pointers b.addr b.size

theorem mem_pointers {b : DmaBuffer} {ptr : ℕ} :
    ptr ∈ b.pointers ↔ ∃ i < b.sizeOf / cacheLineSize, ptr = b.addr + cacheLineSize * i := by
  obtain ⟨q,hq⟩ := b.aligned
  rw [pointers,SpiDma.pointers,List.mem_range',sizeOf]
  simp only [cacheLineSize] at *
  have hstart : b.addr / 32 * 32 = b.addr := by omega
  have hcount : ((b.addr + b.size + 32 - 1) / 32 * 32 - b.addr) / 32 =
      (b.size + 32 - 1) / 32 * 32 / 32 := by omega
  rw [hstart,hcount]

/-- The buffer shares its lines with nothing else. -/
theorem owns_of_mem_pointers {b : DmaBuffer} {ptr a : ℕ} (h : ptr ∈ b.pointers)
    (ha : a / cacheLineSize = ptr / cacheLineSize) : b.Owns a := by
  obtain ⟨q,hq⟩ := b.aligned
  obtain ⟨i,hi,rfl⟩ := mem_pointers.mp h
  simp only [Owns,sizeOf,cacheLineSize] at *
  omega

theorem exists_pointer {b : DmaBuffer} {a : ℕ} (h : b.Owns a) :
    ∃ ptr ∈ b.pointers, a / cacheLineSize = ptr / cacheLineSize := by
  obtain ⟨q,hq⟩ := b.aligned
  refine ⟨b.addr + cacheLineSize * ((a - b.addr) / cacheLineSize),mem_pointers.mpr ⟨_,?_,rfl⟩,?_⟩
  · simp only [Owns,sizeOf,cacheLineSize] at *
    omega
  · simp only [Owns,sizeOf,cacheLineSize] at *
    omega

theorem owns_add {b : DmaBuffer} {i : ℕ} (h : i < b.size) : b.Owns (b.addr + i) := by
  simp only [Owns,sizeOf,cacheLineSize]
  omega

end DmaBuffer

end SpiDma
end UProtocols
