import UProtocols.Runs

/-!
# Batches of register accesses over SPI

`SpiBatch` and `RegisterBatch` of `spi_transfer_batching.rs`. A call returns what it leaves of
the batch, which a failed call may have changed too, and its error. What the device receives and
whether its transfer fails are inputs. A batch looks up the answers of its reads by their number
among the reads, not by their place among all operations.
-/

namespace UProtocols
namespace SpiBatching

inductive SpiError
  | bufferOverflow
  | transferFailed
  | invalidParameter
  deriving DecidableEq

structure SpiBatch where
  txBuffer : List UInt8
  rxBuffer : List UInt8
  maxSize : ℕ
  deriving DecidableEq

/-- The bytes that a transfer puts into the receive buffer and what it returns. -/
structure Transfer where
  received : List UInt8
  error : Option SpiError
  deriving DecidableEq

namespace SpiBatch

def addByte (b : SpiBatch) (byte : UInt8) : SpiBatch × Option SpiError :=
  if b.maxSize ≤ b.txBuffer.length then (b,some .bufferOverflow)
  else ({b with txBuffer := b.txBuffer ++ [byte]},none)

/-- Two bytes; the first one stays when there is no room for the second. -/
def addPair (b : SpiBatch) (first second : UInt8) : SpiBatch × Option SpiError :=
  match b.addByte first with
  | (c,none) => c.addByte second
  | (c,some error) => (c,some error)

def execute (b : SpiBatch) (transfer : Transfer) : SpiBatch × Option SpiError :=
  if b.txBuffer.isEmpty then (b,none)
  else ({b with txBuffer := [], rxBuffer := transfer.received},transfer.error)

end SpiBatch

structure RegisterBatch where
  batch : SpiBatch
  readAddresses : List UInt8
  deriving DecidableEq

namespace RegisterBatch

def new : RegisterBatch := ⟨⟨[],[],256⟩,[]⟩

def queueRead (b : RegisterBatch) (regAddr : UInt8) : RegisterBatch × Option SpiError :=
  match b.batch.addPair (regAddr ||| 0x80) 0x00 with
  | (batch,none) => (⟨batch,b.readAddresses ++ [regAddr]⟩,none)
  | (batch,some error) => ({b with batch},some error)

def queueWrite (b : RegisterBatch) (regAddr value : UInt8) : RegisterBatch × Option SpiError :=
  let result := b.batch.addPair (regAddr &&& 0x7F) value
  ({b with batch := result.1},result.2)

/-- The answer of the `i`-th read address is looked up at `2 * i + 1`. -/
def results (readAddresses rxData : List UInt8) : List (UInt8 × UInt8) :=
  readAddresses.zipIdx.map fun entry => (entry.1,rxData.getD (entry.2 * 2 + 1) 0)

/-- The read addresses outlive a failed transfer. -/
def execute (b : RegisterBatch) (transfer : Transfer) :
    RegisterBatch × Except SpiError (List (UInt8 × UInt8)) :=
  match b.batch.execute transfer with
  | (batch,some error) => ({b with batch},.error error)
  | (batch,none) => (⟨batch,[]⟩,.ok (results b.readAddresses batch.rxBuffer))

end RegisterBatch

/-! ## Sequences of calls -/

inductive Operation
  | read (regAddr : UInt8)
  | write (regAddr value : UInt8)
  deriving DecidableEq

namespace Operation

/-- The bytes on the wire: the command and the data or dummy byte. -/
def bytes : Operation → List UInt8
  | read regAddr => [regAddr ||| 0x80,0x00]
  | write regAddr value => [regAddr &&& 0x7F,value]

/-- The reads among operations, with their places; the first operation is at `place`. -/
def reads : ℕ → List Operation → List (UInt8 × ℕ)
  | _, [] => []
  | place, read regAddr::rest => (regAddr,place)::reads (place + 1) rest
  | place, write _ _::rest => reads (place + 1) rest

/-- Every read with the byte received directly after its command byte. -/
def answers (ops : List Operation) (received : List UInt8) : List (UInt8 × UInt8) :=
  (reads 0 ops).map fun entry => (entry.1,received.getD (entry.2 * 2 + 1) 0)

end Operation

/-- A batch, the operations queued since the last `execute`, and the reads of failed executes
since the last successful one. -/
structure State where
  batch : RegisterBatch
  pending : List Operation
  unanswered : List UInt8
  deriving DecidableEq

inductive Event
  | queueRead (regAddr : UInt8)
  | queueWrite (regAddr value : UInt8)
  | execute (transfer : Transfer)
  deriving DecidableEq

namespace State

def initial : State := ⟨.new,[],[]⟩

/-- An operation is queued if its call returns no error. -/
def queue (s : State) (result : RegisterBatch × Option SpiError) (op : Operation) : State :=
  {s with batch := result.1, pending := s.pending ++ if result.2.isNone then [op] else []}

/-- The device fills a receive buffer that is as long as the one it sends. -/
def step (s : State) : Event → Option State
  | .queueRead regAddr => some (s.queue (s.batch.queueRead regAddr) (.read regAddr))
  | .queueWrite regAddr value =>
    some (s.queue (s.batch.queueWrite regAddr value) (.write regAddr value))
  | .execute transfer =>
    if transfer.received.length = s.batch.batch.txBuffer.length then
      match s.batch.execute transfer with
      | (batch,.ok _) => some ⟨batch,[],[]⟩
      | (batch,.error _) =>
        some ⟨batch,[],s.unanswered ++ (Operation.reads 0 s.pending).map Prod.fst⟩
    else none

end State

/-- A successful `execute` returns the reads queued since the last `execute`, each with its own
byte. -/
def Paired (s : State) : Event → Prop
  | .execute transfer => ∀ results, (s.batch.execute transfer).2 = .ok results →
    results = Operation.answers s.pending transfer.received
  | _ => True

/-- When nothing is queued or the transfer does not fail: no read of a failed `execute` is left,
and the byte at the number of each read among the reads is the one at its place. -/
def Aligned (s : State) : Event → Prop
  | .execute transfer => s.pending = [] ∨ transfer.error = none → s.unanswered = [] ∧
    ∀ (k : ℕ) regAddr place, (Operation.reads 0 s.pending)[k]? = some (regAddr,place) →
      transfer.received.getD (k * 2 + 1) 0 = transfer.received.getD (place * 2 + 1) 0
  | _ => True

/-! ## Reads and their places -/

namespace Operation

theorem reads_append (place : ℕ) (ops more : List Operation) :
    reads place (ops ++ more) = reads place ops ++ reads (place + ops.length) more := by
  induction ops generalizing place with
  | nil => rfl
  | cons op ops ih =>
    have hplace : place + (op::ops).length = place + 1 + ops.length := by
      rw [List.length_cons]
      omega
    cases op with
    | read regAddr => simp only [List.cons_append,reads,ih,hplace]
    | write regAddr value => simp only [List.cons_append,reads,ih,hplace]

theorem length_bytes (op : Operation) : op.bytes.length = 2 := by
  cases op <;> rfl

theorem length_flatMap_bytes (ops : List Operation) :
    (ops.flatMap bytes).length = ops.length * 2 := by
  induction ops with
  | nil => rfl
  | cons op ops ih =>
    rw [List.flatMap_cons,List.length_append,length_bytes,ih,List.length_cons]
    omega

/-- Where no write comes before a read, the number of a read is its place. -/
theorem reads_map_read (place : ℕ) (regAddrs : List UInt8) :
    reads place (regAddrs.map read) = regAddrs.zipIdx place := by
  induction regAddrs generalizing place with
  | nil => rfl
  | cons regAddr rest ih => rw [List.map_cons,reads,ih,List.zipIdx_cons]

theorem reads_writes (place : ℕ) {ops : List Operation} (h : ∀ op ∈ ops, ∃ a v, op = write a v) :
    reads place ops = [] := by
  induction ops generalizing place with
  | nil => rfl
  | cons op ops ih =>
    obtain ⟨⟨a,v,rfl⟩,hrest⟩ := List.forall_mem_cons.mp h
    exact ih (place + 1) hrest

end Operation

open Operation in
/-- The answers by number are those by place. -/
theorem results_eq_answers_iff (unanswered : List UInt8) (ops : List Operation)
    (received : List UInt8) :
    RegisterBatch.results (unanswered ++ (reads 0 ops).map Prod.fst) received =
        answers ops received ↔
      unanswered = [] ∧ ∀ (k : ℕ) regAddr place, (reads 0 ops)[k]? = some (regAddr,place) →
        received.getD (k * 2 + 1) 0 = received.getD (place * 2 + 1) 0 := by
  have hentries : RegisterBatch.results ((reads 0 ops).map Prod.fst) received =
        answers ops received ↔
      ∀ (k : ℕ) regAddr place, (reads 0 ops)[k]? = some (regAddr,place) →
        received.getD (k * 2 + 1) 0 = received.getD (place * 2 + 1) 0 := by
    rw [List.ext_getElem?_iff]
    refine forall_congr' fun k => ?_
    simp only [RegisterBatch.results,answers,List.getElem?_map,List.getElem?_zipIdx,Option.map_map]
    cases (reads 0 ops)[k]? with
    | none => simp
    | some entry =>
      obtain ⟨regAddr,place⟩ := entry
      simp
  constructor
  · intro heq
    have hlength := congrArg List.length heq
    simp only [RegisterBatch.results,answers,List.length_map,List.length_zipIdx,
      List.length_append] at hlength
    have hnil : unanswered = [] := List.eq_nil_of_length_eq_zero (by omega)
    subst hnil
    exact ⟨rfl,hentries.mp heq⟩
  · rintro ⟨rfl,hbytes⟩
    exact hentries.mpr hbytes

/-! ## What the batch keeps -/

namespace State

/-- The buffer holds whole operations, and the addresses those of the reads not yet answered. -/
structure Tracked (s : State) : Prop where
  maxSize_eq : s.batch.batch.maxSize = 256
  txBuffer_eq : s.batch.batch.txBuffer = s.pending.flatMap Operation.bytes
  addresses_eq : s.batch.readAddresses =
    s.unanswered ++ (Operation.reads 0 s.pending).map Prod.fst

variable {s t : State}

/-- A limit of 256 bytes is never reached in the middle of an operation. -/
theorem Tracked.addPair (h : s.Tracked) (first second : UInt8) :
    s.batch.batch.addPair first second =
        ({s.batch.batch with txBuffer := s.batch.batch.txBuffer ++ [first,second]},none) ∨
      s.batch.batch.addPair first second = (s.batch.batch,some .bufferOverflow) := by
  have hlength := Operation.length_flatMap_bytes s.pending
  rw [← h.txBuffer_eq] at hlength
  have hmax := h.maxSize_eq
  by_cases hfull : s.batch.batch.maxSize ≤ s.batch.batch.txBuffer.length
  · exact .inr (by simp [SpiBatch.addPair,SpiBatch.addByte,hfull])
  · have hroom : ¬ s.batch.batch.maxSize ≤ s.batch.batch.txBuffer.length + 1 := by omega
    exact .inl (by simp [SpiBatch.addPair,SpiBatch.addByte,hfull,hroom])

theorem Tracked.queued (h : s.Tracked) (op : Operation) :
    Tracked (s.queue (⟨{s.batch.batch with txBuffer := s.batch.batch.txBuffer ++ op.bytes},
      s.batch.readAddresses ++ (Operation.reads 0 [op]).map Prod.fst⟩,none) op) := by
  have hplace : (Operation.reads (0 + s.pending.length) [op]).map Prod.fst =
      (Operation.reads 0 [op]).map Prod.fst := by
    cases op <;> rfl
  refine ⟨h.maxSize_eq,?_,?_⟩
  · simp [queue,h.txBuffer_eq]
  · simp [queue,h.addresses_eq,Operation.reads_append,← hplace]

theorem Tracked.refused (h : s.Tracked) (op : Operation) (error : SpiError) :
    Tracked (s.queue (s.batch,some error) op) := by
  simpa [queue] using h

theorem Tracked.queueRead (h : s.Tracked) (regAddr : UInt8) :
    Tracked (s.queue (s.batch.queueRead regAddr) (.read regAddr)) := by
  rcases h.addPair (regAddr ||| 0x80) 0x00 with hpair | hpair
  · simp only [RegisterBatch.queueRead,hpair]
    exact h.queued (.read regAddr)
  · simp only [RegisterBatch.queueRead,hpair]
    exact h.refused _ _

theorem Tracked.queueWrite (h : s.Tracked) (regAddr value : UInt8) :
    Tracked (s.queue (s.batch.queueWrite regAddr value) (.write regAddr value)) := by
  rcases h.addPair (regAddr &&& 0x7F) value with hpair | hpair
  · simp only [RegisterBatch.queueWrite,hpair]
    simpa [Operation.bytes,Operation.reads] using h.queued (.write regAddr value)
  · simp only [RegisterBatch.queueWrite,hpair]
    exact h.refused _ _

theorem Tracked.isEmpty_iff (h : s.Tracked) : s.batch.batch.txBuffer.isEmpty ↔ s.pending = [] := by
  have hlength := Operation.length_flatMap_bytes s.pending
  rw [← h.txBuffer_eq] at hlength
  rw [List.isEmpty_iff_length_eq_zero,hlength,← List.length_eq_zero_iff]
  omega

/-- Nothing queued: the last bytes received are read again. -/
theorem Tracked.execute_nil (h : s.Tracked) (transfer : Transfer) (hpending : s.pending = []) :
    s.batch.execute transfer = (⟨s.batch.batch,[]⟩,
      .ok (RegisterBatch.results s.batch.readAddresses s.batch.batch.rxBuffer)) := by
  have hempty := h.isEmpty_iff.mpr hpending
  simp only [RegisterBatch.execute,SpiBatch.execute,hempty,if_true]

theorem Tracked.execute_ok (h : s.Tracked) {transfer : Transfer} (hpending : s.pending ≠ [])
    (hok : transfer.error = none) :
    s.batch.execute transfer =
      (⟨{s.batch.batch with txBuffer := [], rxBuffer := transfer.received},[]⟩,
        .ok (RegisterBatch.results s.batch.readAddresses transfer.received)) := by
  have hempty := mt h.isEmpty_iff.mp hpending
  simp only [RegisterBatch.execute,SpiBatch.execute,hempty,hok,Bool.false_eq_true,if_false]

theorem Tracked.execute_error (h : s.Tracked) {transfer : Transfer} {error : SpiError}
    (hpending : s.pending ≠ []) (hfail : transfer.error = some error) :
    s.batch.execute transfer = ({s.batch with
      batch := {s.batch.batch with txBuffer := [], rxBuffer := transfer.received}},
        .error error) := by
  have hempty := mt h.isEmpty_iff.mp hpending
  simp only [RegisterBatch.execute,SpiBatch.execute,hempty,hfail,Bool.false_eq_true,if_false]

theorem Tracked.step {e : Event} (hstep : s.step e = some t) (h : s.Tracked) : t.Tracked := by
  cases e with
  | queueRead regAddr =>
    cases hstep
    exact h.queueRead regAddr
  | queueWrite regAddr value =>
    cases hstep
    exact h.queueWrite regAddr value
  | execute transfer =>
    simp only [State.step,Option.ite_none_right_eq_some] at hstep
    obtain ⟨-,hstep⟩ := hstep
    by_cases hpending : s.pending = []
    · rw [h.execute_nil transfer hpending] at hstep
      cases hstep
      exact ⟨h.maxSize_eq,by simp [h.txBuffer_eq,hpending],rfl⟩
    · cases herror : transfer.error with
      | none =>
        rw [h.execute_ok hpending herror] at hstep
        cases hstep
        exact ⟨h.maxSize_eq,rfl,rfl⟩
      | some error =>
        rw [h.execute_error hpending herror] at hstep
        cases hstep
        exact ⟨h.maxSize_eq,rfl,by simp [h.addresses_eq,Operation.reads]⟩

theorem Tracked.paired_iff (h : s.Tracked) (e : Event) : Paired s e ↔ Aligned s e := by
  cases e with
  | execute transfer =>
    simp only [Paired,Aligned]
    by_cases hpending : s.pending = []
    · simp only [h.execute_nil transfer hpending,Except.ok.injEq,forall_eq',h.addresses_eq,hpending,
        true_or,true_imp_iff]
      -- with nothing queued both sides say that no address is left
      simp [Operation.reads,Operation.answers,RegisterBatch.results]
    · cases herror : transfer.error with
      | none =>
        simp only [h.execute_ok hpending herror,Except.ok.injEq,forall_eq',h.addresses_eq,or_true,
          true_imp_iff]
        exact results_eq_answers_iff _ _ _
      | some error => simp [h.execute_error hpending herror,hpending]
  | queueRead regAddr => exact Iff.rfl
  | queueWrite regAddr value => exact Iff.rfl

end State

/-- Reads come back with their own bytes in a run exactly when, at each execute that succeeds, no
read of a failed execute is left and no read has got the byte of another place. -/
theorem registerBatch_paired_iff (events : List Event) :
    Runs.Along State.step Paired State.initial events ↔
      Runs.Along State.step Aligned State.initial events := by
  refine Runs.along_congr_of_invariant (I := State.Tracked) (fun s e t hstep h => h.step hstep)
    (fun s e h => h.paired_iff e) ?_ events
  exact ⟨rfl,rfl,rfl⟩

/-- Reads that are queued before all writes, as in the tests, are aligned. -/
theorem aligned_of_reads_first {s : State} (hleft : s.unanswered = []) {regAddrs : List UInt8}
    {writes : List Operation} (hwrites : ∀ op ∈ writes, ∃ a v, op = .write a v)
    (hpending : s.pending = regAddrs.map .read ++ writes) (transfer : Transfer) :
    Aligned s (.execute transfer) := by
  intro _
  refine ⟨hleft,fun k regAddr place hread => ?_⟩
  rw [hpending,Operation.reads_append,Operation.reads_writes _ hwrites,List.append_nil,
    Operation.reads_map_read,List.getElem?_zipIdx] at hread
  obtain ⟨_,-,heq⟩ := Option.map_eq_some_iff.mp hread
  cases heq
  rw [Nat.zero_add]

/-- A read that is queued after a write gets the byte that came with the write. -/
theorem read_after_write :
    ¬ Runs.Along State.step Paired State.initial
      [.queueWrite 0x10 0x55,.queueRead 0x00,.execute ⟨[1,2,3,4],none⟩] := by
  rintro ⟨-,hrun⟩
  obtain ⟨-,hrun⟩ := hrun _ rfl
  obtain ⟨hexecute,-⟩ := hrun _ rfl
  have hresult := hexecute _ rfl
  revert hresult
  decide

end SpiBatching
end UProtocols
