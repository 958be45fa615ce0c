import UProtocols.BatchManager
import UProtocols.BitBangSpi
import UProtocols.HeldResource

/-!
# Chip select after errors

`ChunkedTransfer::execute` of `spi_transfer_batching.rs`, and `transfer`, `write` and `read` of
`BitBangSpi`. Each selects the chip, makes fallible calls that `?` may leave at, and deselects it at
the end only.
-/

namespace UProtocols

open Interaction HeldResource

namespace SpiBatching

/-- A transfer fills a receive buffer as long as its data. -/
abbrev DeviceAnswer : DeviceCall → Type
  | .chipSelect _ => Unit
  | .transfer txData => Except SpiError (Vector UInt8 txData.length)

/-- The bytes that the iterator still has, and the size of a chunk. -/
structure ChunkedTransfer where
  dataIter : List UInt8
  chunkSize : ℕ
  deriving DecidableEq

namespace ChunkedTransfer

abbrev Chunked := Driver DeviceCall DeviceAnswer ChunkedTransfer SpiError

def chipSelect (active : Bool) : Chunked Unit := Driver.perform (DeviceCall.chipSelect active)

def transfer (txData : List UInt8) : Chunked (List UInt8) := do
  match ← Driver.perform (DeviceCall.transfer txData) with
  | .ok rx => return rx.toList
  | .error e => throw e

/-- A chunk with its own chip select, both in the loop and after it. -/
def exchange (chunk : List UInt8) : Chunked (List UInt8) := do
  chipSelect true
  let rx ← transfer chunk
  chipSelect false
  return rx

/-- The loop over the bytes of the iterator; what is left of the last chunk, and all that was
received. -/
def rounds : List UInt8 → List UInt8 → List UInt8 → Chunked (List UInt8 × List UInt8)
  | [], chunk, allRxData => return (chunk,allRxData)
  | byte::rest, chunk, allRxData => do
    modify fun self => { self with dataIter := rest }
    let self ← get
    if (chunk ++ [byte]).length ≥ self.chunkSize then
      let rx ← exchange (chunk ++ [byte])
      rounds rest [] (allRxData ++ rx)
    else rounds rest (chunk ++ [byte]) allRxData

def execute : Chunked (List UInt8) := do
  let self ← get
  let (chunk,allRxData) ← rounds self.dataIter [] []
  if chunk.isEmpty then return allRxData
  else
    let rx ← exchange chunk
    return allRxData ++ rx

/-- Chip select is the resource; a transfer may fail. -/
def effect : (e : DeviceCall) → DeviceAnswer e → Effect
  | .chipSelect active, _ => .holds active
  | .transfer _, .ok _ => .nothing
  | .transfer _, .error _ => .fails

/-- No error of the device is one of the chip select. -/
def Excused (_ : SpiError) : Prop := False

theorem follows_transfer (txData : List UInt8) :
    Follows effect (transfer txData) holding (Keeps Excused) := by
  refine .call fun answer => ?_
  cases answer with
  | ok rx => exact .pure rfl
  | error e => exact .throw ⟨id,rfl⟩

theorem follows_exchange (chunk : List UInt8) :
    Follows effect (exchange chunk) free (Ends Excused) := by
  refine .call fun _ => keeps_ends (follows_transfer chunk) fun rx => ?_
  exact .call fun _ => .pure rfl

/-- Between the chunks the chip is not selected. -/
theorem follows_rounds (data chunk allRxData : List UInt8) :
    Follows effect (rounds data chunk allRxData) free (Ends Excused) := by
  induction data generalizing chunk allRxData with
  | nil => exact .pure rfl
  | cons byte rest ih =>
    refine ends_bind (.modify rfl) fun _ => .get_bind fun self => ?_
    split
    · exact ends_bind (follows_exchange _) fun rx => ih [] (allRxData ++ rx)
    · exact ih (chunk ++ [byte]) allRxData

theorem follows_execute : Follows effect execute free (Ends Excused) := by
  refine .get_bind fun self => ends_bind (follows_rounds _ _ _) fun last => ?_
  obtain ⟨chunk,allRxData⟩ := last
  dsimp only
  split
  · exact .pure rfl
  · exact ends_bind (follows_exchange chunk) fun rx => .pure rfl

end ChunkedTransfer
end SpiBatching

namespace BitBangSpi

variable {MosiE MisoE SckE CsE : Type}

/-- The loop of `write`. -/
def writeBytes : List UInt8 → Spi MosiE MisoE SckE CsE Unit
  | [] => return ()
  | byte::rest => do
    let _ ← transferByte byte
    writeBytes rest

def write (data : List UInt8) : Spi MosiE MisoE SckE CsE Unit := do
  setCs false
  sleep 1
  writeBytes data
  sleep 1
  setCs true

/-- The loop of `read` from place `k` of the buffer on. -/
def readBytes : ℕ → List UInt8 → Spi MosiE MisoE SckE CsE Unit
  | _, [] => return ()
  | k, _::rest => do
    let answer ← transferByte 0xFF
    modify fun self => {self with data := self.data.set k answer}
    readBytes (k + 1) rest

def read : Spi MosiE MisoE SckE CsE Unit := do
  let self ← get
  setCs false
  sleep 1
  readBytes 0 self.data
  sleep 1
  setCs true

/-- Chip select is the resource, active low; the other pins may fail. -/
def effect : (e : PinCall) → Answer MosiE MisoE SckE CsE e → Effect
  | .setMosi _, .ok _ | .setSck _, .ok _ | .misoIsHigh, .ok _ => .nothing
  | .setMosi _, .error _ | .setSck _, .error _ | .misoIsHigh, .error _ => .fails
  | .setCs high, .ok _ => .holds !high
  | .setCs _, .error _ => .nothing
  | .sleep _, _ => .nothing

def SpiError.IsCs : SpiError MosiE MisoE SckE CsE → Prop
  | .cs _ => True
  | _ => False

/-- The part of a method while the chip is selected. -/
abbrev Held {α : Type} (m : Spi MosiE MisoE SckE CsE α) : Prop :=
  Follows effect m holding (Keeps SpiError.IsCs)

theorem held_setMosi (high : Bool) : Held (setMosi high : Spi MosiE MisoE SckE CsE Unit) := by
  refine .call fun answer => ?_
  cases answer with
  | ok _ => exact .pure rfl
  | error e => exact .throw ⟨id,rfl⟩

theorem held_setSck (high : Bool) : Held (setSck high : Spi MosiE MisoE SckE CsE Unit) := by
  refine .call fun answer => ?_
  cases answer with
  | ok _ => exact .pure rfl
  | error e => exact .throw ⟨id,rfl⟩

theorem held_misoIsHigh : Held (misoIsHigh : Spi MosiE MisoE SckE CsE Bool) := by
  refine .call fun answer => ?_
  cases answer with
  | ok high => exact .pure rfl
  | error e => exact .throw ⟨id,rfl⟩

theorem held_sleep (us : UInt64) : Held (sleep us : Spi MosiE MisoE SckE CsE Unit) :=
  .perform fun _ => ⟨holding,rfl,rfl⟩

theorem held_delay : Held (delay : Spi MosiE MisoE SckE CsE Unit) :=
  .get_bind fun self => held_sleep self.config.delayUs

theorem held_clockFirstEdge : Held (clockFirstEdge : Spi MosiE MisoE SckE CsE Unit) := by
  refine .get_bind fun self => ?_
  split
  · exact held_setSck false
  · exact held_setSck true

theorem held_clockSecondEdge : Held (clockSecondEdge : Spi MosiE MisoE SckE CsE Unit) := by
  refine .get_bind fun self => ?_
  split
  · exact held_setSck true
  · exact held_setSck false

theorem held_clockCycle : Held (clockCycle : Spi MosiE MisoE SckE CsE Bool) := by
  refine .get_bind fun self => ?_
  split
  · refine keeps_bind held_delay fun _ => keeps_bind held_clockFirstEdge fun _ => ?_
    refine keeps_bind held_misoIsHigh fun high => keeps_bind held_delay fun _ => ?_
    exact keeps_bind held_clockSecondEdge fun _ => .pure rfl
  · refine keeps_bind held_delay fun _ => keeps_bind held_clockFirstEdge fun _ => ?_
    refine keeps_bind held_delay fun _ => keeps_bind held_clockSecondEdge fun _ => ?_
    exact held_misoIsHigh

theorem held_transferBit (dataOut : UInt8) (i : ℕ) (dataIn : UInt8) :
    Held (transferBit dataOut i dataIn : Spi MosiE MisoE SckE CsE UInt8) := by
  refine .get_bind fun self => ?_
  dsimp only
  split
  · refine keeps_bind (held_setMosi true) fun _ => keeps_bind held_clockCycle fun high => ?_
    exact .pure rfl
  · refine keeps_bind (held_setMosi false) fun _ => keeps_bind held_clockCycle fun high => ?_
    exact .pure rfl

theorem held_transferBits (dataOut : UInt8) (is : List ℕ) (dataIn : UInt8) :
    Held (transferBits dataOut is dataIn : Spi MosiE MisoE SckE CsE UInt8) := by
  induction is generalizing dataIn with
  | nil => exact .pure rfl
  | cons i is ih => exact keeps_bind (held_transferBit dataOut i dataIn) fun dataIn => ih dataIn

theorem held_transferByte (dataOut : UInt8) :
    Held (transferByte dataOut : Spi MosiE MisoE SckE CsE UInt8) :=
  held_transferBits dataOut (List.range 8) 0

theorem held_transferBytes (k : ℕ) (data : List UInt8) :
    Held (transferBytes k data : Spi MosiE MisoE SckE CsE Unit) := by
  induction data generalizing k with
  | nil => exact .pure rfl
  | cons byte rest ih =>
    refine keeps_bind (held_transferByte byte) fun answer => ?_
    exact keeps_bind (.modify rfl) fun _ => ih (k + 1)

theorem held_writeBytes (data : List UInt8) :
    Held (writeBytes data : Spi MosiE MisoE SckE CsE Unit) := by
  induction data with
  | nil => exact .pure rfl
  | cons byte rest ih => exact keeps_bind (held_transferByte byte) fun _ => ih

theorem held_readBytes (k : ℕ) (buffer : List UInt8) :
    Held (readBytes k buffer : Spi MosiE MisoE SckE CsE Unit) := by
  induction buffer generalizing k with
  | nil => exact .pure rfl
  | cons byte rest ih =>
    refine keeps_bind (held_transferByte 0xFF) fun answer => ?_
    exact keeps_bind (.modify rfl) fun _ => ih (k + 1)

/-- The frame of the three methods around their loops. -/
theorem follows_selected {m : Spi MosiE MisoE SckE CsE Unit} (hm : Held m) :
    Follows effect (do
      setCs false
      sleep 1
      m
      sleep 1
      setCs true) free (Ends SpiError.IsCs) := by
  have hrelease : Follows effect (setCs true : Spi MosiE MisoE SckE CsE Unit) holding
      (Ends SpiError.IsCs) := by
    refine .call fun answer => ?_
    cases answer with
    | ok _ => exact .pure rfl
    | error e => exact .throw (.inl ⟨trivial,rfl⟩)
  have hselect : Follows effect (setCs false : Spi MosiE MisoE SckE CsE Unit) free
      fun t result => match result with
        | .ok _ => t = holding
        | .error e => e.IsCs ∧ t = free := by
    refine .call fun answer => ?_
    cases answer with
    | ok _ => exact .pure rfl
    | error e => exact .throw ⟨trivial,rfl⟩
  refine hselect.bind ?_ ?_
  · intro t _ ht
    cases ht
    refine keeps_ends (held_sleep 1) fun _ => keeps_ends hm fun _ => ?_
    exact keeps_ends (held_sleep 1) fun _ => hrelease
  · intro t e ht
    exact .inl ⟨ht.1,congrArg Watch.failed ht.2⟩

theorem follows_transfer :
    Follows effect (transfer : Spi MosiE MisoE SckE CsE Unit) free (Ends SpiError.IsCs) :=
  .get_bind fun self => follows_selected (held_transferBytes 0 self.data)

theorem follows_write (data : List UInt8) :
    Follows effect (write data : Spi MosiE MisoE SckE CsE Unit) free (Ends SpiError.IsCs) :=
  follows_selected (held_writeBytes data)

theorem follows_read :
    Follows effect (read : Spi MosiE MisoE SckE CsE Unit) free (Ends SpiError.IsCs) :=
  .get_bind fun self => follows_selected (held_readBytes 0 self.data)

/-- In every world, from any configuration and data, chip select is inactive after the method, if
the error is not one of its own pin, exactly if no call of another pin fails. -/
def ReleasedUnlessFailed (m : Spi MosiE MisoE SckE CsE Unit) : Prop :=
  ∀ (ω : Type) (handle : (e : PinCall) → ω → Answer MosiE MisoE SckE CsE e × ω) (self : Master)
    (w : ω),
    let run := m.exec (watched effect handle) self (w,free)
    ((∀ e, run.1.1 ≠ .error (.cs e)) → run.2.2.held = false) ↔ run.2.2.failed = false

theorem releasedUnlessFailed_of_follows {m : Spi MosiE MisoE SckE CsE Unit}
    (h : Follows effect m free (Ends SpiError.IsCs)) : ReleasedUnlessFailed m := by
  intro ω handle self w
  have hreleased := released_of_ends (h.exec_watched handle self w)
  have hcs : ∀ result : Except (SpiError MosiE MisoE SckE CsE) Unit,
      (∀ e, result ≠ .error (.cs e)) ↔ ∀ e, result = .error e → ¬ e.IsCs := by
    intro result
    constructor
    · intro hne e he hiscs
      cases e with
      | cs e => exact hne e he
      | mosi | miso | sck => exact hiscs
    · intro hall e he
      exact hall _ he trivial
  dsimp only
  rw [hcs]
  exact hreleased

end BitBangSpi

namespace SpiBatching.ChunkedTransfer

/-- In every world, a batch in chunks and each of the three methods on bare pins leave chip select
inactive exactly if no transfer, or no call of a pin other than chip select, fails. -/
theorem chipSelect_released_iff (MosiE MisoE SckE CsE : Type) (data : List UInt8) :
    (∀ (ω : Type) (handle : (e : DeviceCall) → ω → DeviceAnswer e × ω) (self : ChunkedTransfer)
        (w : ω),
      let run := execute.exec (watched effect handle) self (w,free)
      run.2.2.held = false ↔ run.2.2.failed = false) ∧
    BitBangSpi.ReleasedUnlessFailed
      (BitBangSpi.transfer : BitBangSpi.Spi MosiE MisoE SckE CsE Unit) ∧
    BitBangSpi.ReleasedUnlessFailed
      (BitBangSpi.write data : BitBangSpi.Spi MosiE MisoE SckE CsE Unit) ∧
    BitBangSpi.ReleasedUnlessFailed
      (BitBangSpi.read : BitBangSpi.Spi MosiE MisoE SckE CsE Unit) := by
  constructor
  · intro ω handle self w
    have hreleased := released_of_ends (follows_execute.exec_watched handle self w)
    constructor
    · intro hheld
      exact hreleased.mp fun _ => hheld
    · intro hfailed
      exact hreleased.mpr hfailed fun _ _ => id
  · exact ⟨BitBangSpi.releasedUnlessFailed_of_follows BitBangSpi.follows_transfer,
      BitBangSpi.releasedUnlessFailed_of_follows (BitBangSpi.follows_write data),
      BitBangSpi.releasedUnlessFailed_of_follows BitBangSpi.follows_read⟩

/-- A device that counts its transfers and fails the second. -/
def secondFails : (e : DeviceCall) → ℕ → DeviceAnswer e × ℕ
  | .chipSelect _, n => ((),n)
  | .transfer txData, n =>
    (if n = 1 then .error .transferFailed else .ok (Vector.replicate txData.length 0),n + 1)

/-- The error of the second chunk leaves the chip selected. -/
theorem chipSelect_released_secondFails :
    let run := execute.exec (watched effect secondFails) ⟨[1,2],1⟩ (0,free)
    run.1.1 = .error .transferFailed ∧ run.2.2.held = true :=
  ⟨rfl,rfl⟩

end SpiBatching.ChunkedTransfer
end UProtocols
