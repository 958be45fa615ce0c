import UProtocols.CanRingBufferInvariant

/-!
# The CAN buffer manager and its diagnostics

`CanBufferManager`, `BufferStats` and `CanDiagnostics` of `CAN_Ring_Buffer.rs`, one call after the
other on the static `CAN_BUFFERS`. A call of `push` or `pop` is here the sequence of its atomic
operations. A difference below zero panics.
-/

namespace UProtocols
namespace CanRingBuffer

variable {T : Type}

/-! ## Whole calls -/

namespace RingBuffer

/-- A full buffer gives the item back. -/
def push (N : UInt64) (b : RingBuffer T) (item : T) : Option (RingBuffer T × Except T Unit) :=
  if b.isFull N then some (b,.error item)
  else if N ≠ 0 ∧ b.head < b.buffer.length then
    some ({b with
      buffer := b.buffer.set b.head item
      head := (b.head + 1) % N.toNat
      count := b.count + 1},.ok ())
  else none

def pop (N : UInt64) (b : RingBuffer T) : Option (RingBuffer T × Option T) :=
  if b.isEmpty then some (b,none)
  else
    match b.buffer[b.tail]? with
    | none => none
    | some item =>
      if N = 0 then none
      else some ({b with tail := (b.tail + 1) % N.toNat, count := b.count - 1},some item)

/-- The product does not overflow for the lengths of `CAN_BUFFERS`. -/
def utilization (N : UInt64) (b : RingBuffer T) : UInt8 := (b.len * 100 / N).toUInt8

end RingBuffer

/-! ## The manager -/

/-- The sizes of `CAN_BUFFERS`. -/
def txSize : UInt64 := 32
def rxSize : UInt64 := 64

structure CanBufferManager (T : Type) where
  txBuffer : RingBuffer T
  rxBuffer : RingBuffer T
  txOverflows : UInt64
  rxOverflows : UInt64

structure BufferStats where
  txCount : UInt64
  txCapacity : UInt64
  txUtilization : UInt8
  txOverflows : UInt64
  rxCount : UInt64
  rxCapacity : UInt64
  rxUtilization : UInt8
  rxOverflows : UInt64
  deriving DecidableEq

namespace CanBufferManager

def new (T : Type) [Inhabited T] : CanBufferManager T :=
  ⟨RingBuffer.new T txSize,RingBuffer.new T rxSize,0,0⟩

def queueTx (m : CanBufferManager T) (msg : T) : Option (CanBufferManager T × Except T Unit) :=
  (m.txBuffer.push txSize msg).map fun r =>
    match r.2 with
    | .ok () => ({m with txBuffer := r.1},.ok ())
    | .error msg => ({m with txBuffer := r.1, txOverflows := m.txOverflows + 1},.error msg)

def getTx (m : CanBufferManager T) : Option (CanBufferManager T × Option T) :=
  (m.txBuffer.pop txSize).map fun r => ({m with txBuffer := r.1},r.2)

def queueRx (m : CanBufferManager T) (msg : T) : Option (CanBufferManager T × Except T Unit) :=
  (m.rxBuffer.push rxSize msg).map fun r =>
    match r.2 with
    | .ok () => ({m with rxBuffer := r.1},.ok ())
    | .error msg => ({m with rxBuffer := r.1, rxOverflows := m.rxOverflows + 1},.error msg)

def getRx (m : CanBufferManager T) : Option (CanBufferManager T × Option T) :=
  (m.rxBuffer.pop rxSize).map fun r => ({m with rxBuffer := r.1},r.2)

def resetOverflowCounters (m : CanBufferManager T) : CanBufferManager T :=
  {m with txOverflows := 0, rxOverflows := 0}

def getStats (m : CanBufferManager T) : BufferStats where
  txCount := m.txBuffer.len
  txCapacity := txSize
  txUtilization := m.txBuffer.utilization txSize
  txOverflows := m.txOverflows
  rxCount := m.rxBuffer.len
  rxCapacity := rxSize
  rxUtilization := m.rxBuffer.utilization rxSize
  rxOverflows := m.rxOverflows

end CanBufferManager

/-! ## The diagnostics -/

structure CanDiagnostics where
  lastTxOverflows : UInt64
  lastRxOverflows : UInt64
  deriving DecidableEq

inductive LogLine
  | txHigh (percent : UInt8)
  | rxHigh (percent : UInt8)
  | txOverflows (fresh total : UInt64)
  | rxOverflows (fresh total : UInt64)
  deriving DecidableEq

/-- The two differences and the lines that are logged. -/
structure Report where
  newTxOverflows : UInt64
  newRxOverflows : UInt64
  log : List LogLine
  deriving DecidableEq

/-- `a - b` on `usize`. -/
def usizeSub (a b : UInt64) : Option UInt64 := if b ≤ a then some (a - b) else none

namespace CanDiagnostics

def new : CanDiagnostics := ⟨0,0⟩

def periodicCheck (d : CanDiagnostics) (stats : BufferStats) :
    Option (CanDiagnostics × Report) := do
  let txHigh := if stats.txUtilization > 80 then [LogLine.txHigh stats.txUtilization] else []
  let rxHigh := if stats.rxUtilization > 80 then [LogLine.rxHigh stats.rxUtilization] else []
  let newTx ← usizeSub stats.txOverflows d.lastTxOverflows
  let txLog := if newTx > 0 then [LogLine.txOverflows newTx stats.txOverflows] else []
  let newRx ← usizeSub stats.rxOverflows d.lastRxOverflows
  let rxLog := if newRx > 0 then [LogLine.rxOverflows newRx stats.rxOverflows] else []
  return ({lastTxOverflows := if newTx > 0 then stats.txOverflows else d.lastTxOverflows
           lastRxOverflows := if newRx > 0 then stats.rxOverflows else d.lastRxOverflows},
    {newTxOverflows := newTx
     newRxOverflows := newRx
     log := txHigh ++ rxHigh ++ txLog ++ rxLog})

end CanDiagnostics

/-! ## Sequences of calls -/

inductive ManagerCall (T : Type)
  | queueTx (msg : T)
  | queueRx (msg : T)
  | getTx
  | getRx
  | resetOverflowCounters
  | periodicCheck
  deriving DecidableEq

/-- The rejected calls since the later of the last check and the last reset, and whether that was
the reset. -/
structure Tally where
  rejectedTx : ℕ
  rejectedRx : ℕ
  reset : Bool
  deriving DecidableEq

/-- The manager and the diagnostics, with the tally and, for each check, the tally that it met and
what it reported. -/
structure ManagerState (T : Type) where
  manager : CanBufferManager T
  diagnostics : CanDiagnostics
  tally : Tally
  checks : List (Tally × Report)

namespace ManagerState

def new (T : Type) [Inhabited T] : ManagerState T :=
  ⟨CanBufferManager.new T,CanDiagnostics.new,⟨0,0,false⟩,[]⟩

def rejections (result : Except T Unit) : ℕ :=
  match result with
  | .ok () => 0
  | .error _ => 1

def step (s : ManagerState T) : ManagerCall T → Option (ManagerState T)
  | .queueTx msg => (s.manager.queueTx msg).map fun r =>
    {s with manager := r.1, tally.rejectedTx := s.tally.rejectedTx + rejections r.2}
  | .queueRx msg => (s.manager.queueRx msg).map fun r =>
    {s with manager := r.1, tally.rejectedRx := s.tally.rejectedRx + rejections r.2}
  | .getTx => s.manager.getTx.map fun r => {s with manager := r.1}
  | .getRx => s.manager.getRx.map fun r => {s with manager := r.1}
  | .resetOverflowCounters =>
    some {s with manager := s.manager.resetOverflowCounters, tally := ⟨0,0,true⟩}
  | .periodicCheck => (s.diagnostics.periodicCheck s.manager.getStats).map fun r =>
    {s with diagnostics := r.1, tally := ⟨0,0,false⟩, checks := s.checks ++ [(s.tally,r.2)]}

/-- Every check so far reported the rejected calls. -/
def Exact (s : ManagerState T) : Prop :=
  ∀ c ∈ s.checks, c.2.newTxOverflows.toNat = c.1.rejectedTx ∧
    c.2.newRxOverflows.toNat = c.1.rejectedRx

/-- A check does not follow a reset unless the last count it saw was zero, and the counters did
not wrap around. -/
def Comparable (s : ManagerState T) : ManagerCall T → Prop
  | .periodicCheck =>
    (s.tally.reset = true →
      s.diagnostics.lastTxOverflows = 0 ∧ s.diagnostics.lastRxOverflows = 0) ∧
    s.diagnostics.lastTxOverflows.toNat + s.tally.rejectedTx < UInt64.size ∧
    s.diagnostics.lastRxOverflows.toNat + s.tally.rejectedRx < UInt64.size
  | _ => True

end ManagerState
/-! ## Whole calls and their operations -/

variable {N : UInt64} {b : RingBuffer T} {q : List T} {p : ℕ}

/-- A `push` that no other thread interrupts does what its operations do one after the other. -/
theorem push_exec {s : State T} (hidle : s.producer = none) {item : T} {r : RingBuffer T}
    {result : Except T Unit} (hpush : s.ring.push N item = some (r,result)) :
    ∃ n t, Runs.exec (State.step N) s (.startPush item::List.replicate n .producer) = some t ∧
      t.ring = r ∧ t.producer = none := by
  unfold RingBuffer.push at hpush
  split at hpush
  case isTrue hfull =>
    cases hpush
    refine ⟨1,{s with producer := none},?_,rfl,rfl⟩
    simp [Runs.exec,State.step,hidle,Push.advance,hfull,State.produce]
  case isFalse hroom =>
    split at hpush
    case isTrue hslot =>
      cases hpush
      refine ⟨5,⟨_,none,s.consumer,s.pushed ++ [item],s.popped,s.queue ++ [item],s.peeked⟩,?_,
        rfl,rfl⟩
      simp [Runs.exec,State.step,hidle,Push.advance,Push.goto,hroom,hslot,State.produce]
    case isFalse => cases hpush

theorem pop_exec {s : State T} (hidle : s.consumer = none) {r : RingBuffer T} {result : Option T}
    (hpop : s.ring.pop N = some (r,result)) :
    ∃ n t, Runs.exec (State.step N) s (.startPop::List.replicate n .consumer) = some t ∧
      t.ring = r ∧ t.consumer = none := by
  unfold RingBuffer.pop at hpop
  split at hpop
  case isTrue hempty =>
    cases hpop
    refine ⟨1,{s with consumer := none},?_,rfl,rfl⟩
    simp [Runs.exec,State.step,State.start,hidle,Call.advance,hempty,State.consume]
  case isFalse hsome =>
    split at hpop
    · cases hpop
    · rename_i item hslot
      split at hpop
      case isTrue => cases hpop
      case isFalse hN =>
        cases hpop
        refine ⟨5,⟨_,s.producer,none,s.pushed,s.popped ++ [item],s.queue.tail,s.peeked⟩,?_,
          rfl,rfl⟩
        simp [Runs.exec,State.step,State.start,hidle,Call.advance,hsome,hslot,hN,State.consume]

namespace RingBuffer

/-- Between two calls the items lie around the ring. -/
def Quiet (N : UInt64) (b : RingBuffer T) : Prop := ∃ q p, b.Layout N q p 0 0

theorem quiet_new [Inhabited T] (N : UInt64) : (new T N).Quiet N :=
  ⟨[],0,(State.settled_new (T := T) N).layout⟩

theorem Layout.push (h : b.Layout N q p 0 0) (item : T) :
    ∃ r result, b.push N item = some (r,result) ∧ r.Quiet N := by
  unfold RingBuffer.push
  split
  case isTrue hfull => exact ⟨b,.error item,rfl,q,p,h⟩
  case isFalse hroom =>
    have hlt := h.not_full (Bool.eq_false_iff.mpr hroom)
    have hhead : b.head = (p + q.length) % N.toNat := h.head_eq
    have hpos : 0 < N.toNat := Nat.zero_lt_of_lt hlt
    have hslot : b.head < b.buffer.length := by
      rw [hhead,h.length]
      exact Nat.mod_lt _ hpos
    have hN : N ≠ 0 := by
      rintro rfl
      exact absurd hpos (Nat.lt_irrefl 0)
    rw [if_pos ⟨hN,hslot⟩]
    refine ⟨_,.ok (),rfl,q ++ [item],p,?_⟩
    have hwritten := (h.writeSlot hlt item).storeHead
    rw [← hhead] at hwritten
    apply hwritten.addCount hlt
    show (b.buffer.set b.head item)[(p + q.length) % N.toNat]? = some item
    rw [← hhead]
    exact List.getElem?_set_self hslot

theorem Layout.pop (h : b.Layout N q p 0 0) :
    ∃ r result, b.pop N = some (r,result) ∧ r.Quiet N := by
  unfold RingBuffer.pop
  split
  case isTrue hempty => exact ⟨b,none,rfl,q,p,h⟩
  case isFalse hsome =>
    cases q with
    | nil => exact absurd (h.isEmpty_iff.mpr rfl) hsome
    | cons x q =>
      have htail : b.tail = p % N.toNat := h.tail_eq
      have hN : N ≠ 0 := by
        rintro rfl
        exact absurd h.fits (Nat.not_succ_le_zero _)
      rw [htail,h.slot_tail]
      dsimp only
      rw [if_neg hN,← htail]
      exact ⟨_,some x,rfl,q,p + 1,h.storeTail.subCount⟩

end RingBuffer

/-! ## The counts -/

namespace ManagerState

variable {s t : ManagerState T} {e : ManagerCall T}

/-- A counter holds what the last check saw and the rejected calls since, or only these after a
reset, modulo 2^64. -/
def Counts (reset : Bool) (last overflows : UInt64) (rejected : ℕ) : Prop :=
  overflows.toNat = ((if reset then 0 else last.toNat) + rejected) % UInt64.size

/-- What every run keeps. -/
structure Kept (s : ManagerState T) : Prop where
  tx : s.manager.txBuffer.Quiet txSize
  rx : s.manager.rxBuffer.Quiet rxSize
  txCounts : Counts s.tally.reset s.diagnostics.lastTxOverflows s.manager.txOverflows
    s.tally.rejectedTx
  rxCounts : Counts s.tally.reset s.diagnostics.lastRxOverflows s.manager.rxOverflows
    s.tally.rejectedRx

theorem Counts.succ {reset : Bool} {last overflows : UInt64} {rejected : ℕ}
    (h : Counts reset last overflows rejected) :
    Counts reset last (overflows + 1) (rejected + 1) := by
  unfold Counts at h ⊢
  rw [UInt64.toNat_add,h,← Nat.add_assoc]
  exact Nat.mod_add_mod _ _ _

theorem counts_reset (last : UInt64) : Counts true last 0 0 := rfl

/-- After a check the last count is the counter. -/
theorem counts_checked {last overflows difference : UInt64}
    (h : usizeSub overflows last = some difference) :
    Counts false (if difference > 0 then overflows else last) overflows 0 := by
  unfold usizeSub at h
  split at h
  case isFalse => cases h
  case isTrue hle =>
    cases h
    have hsame : (if overflows - last > 0 then overflows else last) = overflows := by
      split
      · rfl
      · rename_i hzero
        have hdifference : (overflows - last).toNat = 0 := by
          apply Nat.eq_zero_of_not_pos
          intro hpos
          exact hzero (UInt64.lt_iff_toNat_lt.mpr hpos)
        rw [UInt64.toNat_sub_of_le _ _ hle] at hdifference
        have hnat := UInt64.le_iff_toNat_le.mp hle
        exact UInt64.toNat_inj.mp (by omega)
    unfold Counts
    rw [hsame]
    exact (Nat.mod_eq_of_lt overflows.toNat_lt).symm

theorem usizeSub_iff (a b : UInt64) (n : ℕ) :
    (∃ difference, usizeSub a b = some difference ∧ difference.toNat = n) ↔
      a.toNat = b.toNat + n := by
  unfold usizeSub
  constructor
  · rintro ⟨difference,hsub,hn⟩
    split at hsub
    case isFalse => cases hsub
    case isTrue hle =>
      cases hsub
      have hnat := UInt64.le_iff_toNat_le.mp hle
      rw [UInt64.toNat_sub_of_le _ _ hle] at hn
      omega
  · intro hsum
    have hle : b ≤ a := UInt64.le_iff_toNat_le.mpr (by omega)
    refine ⟨a - b,if_pos hle,?_⟩
    rw [UInt64.toNat_sub_of_le _ _ hle,hsum,Nat.add_sub_cancel_left]

/-- The difference is the number of rejected calls exactly when the counter can be compared with
the last count. -/
theorem difference_iff {reset : Bool} {last overflows : UInt64} {rejected : ℕ}
    (h : Counts reset last overflows rejected) :
    (∃ difference, usizeSub overflows last = some difference ∧ difference.toNat = rejected) ↔
      (reset = true → last = 0) ∧ last.toNat + rejected < UInt64.size := by
  have hlast : last = 0 ↔ last.toNat = 0 := UInt64.toNat_inj.symm
  have hlt := overflows.toNat_lt
  have hwrap : UInt64.size = 18446744073709551616 := rfl
  unfold Counts at h
  rw [usizeSub_iff,hlast,hwrap]
  rw [hwrap] at h
  cases reset with
  | true =>
    rw [if_pos rfl,Nat.zero_add] at h
    rw [imp_iff_right rfl]
    omega
  | false =>
    rw [if_neg Bool.false_ne_true] at h
    rw [and_iff_right fun hreset => absurd hreset Bool.false_ne_true]
    omega

/-! ## Runs -/

/-- The queues take every call. -/
theorem Kept.queueTx (h : s.Kept) (msg : T) :
    ∃ t, s.step (.queueTx msg) = some t ∧ t.Kept ∧ t.checks = s.checks := by
  obtain ⟨q,p,hlayout⟩ := h.tx
  obtain ⟨r,result,hpush,hquiet⟩ := hlayout.push msg
  cases result with
  | ok _ =>
    have hstep : s.step (.queueTx msg) = some {s with manager.txBuffer := r} := by
      simp only [step,CanBufferManager.queueTx,hpush,Option.map_some]
      rfl
    exact ⟨_,hstep,⟨hquiet,h.rx,h.txCounts,h.rxCounts⟩,rfl⟩
  | error back =>
    have hstep : s.step (.queueTx msg) = some {s with
        manager.txBuffer := r
        manager.txOverflows := s.manager.txOverflows + 1
        tally.rejectedTx := s.tally.rejectedTx + 1} := by
      simp only [step,CanBufferManager.queueTx,hpush,Option.map_some]
      rfl
    exact ⟨_,hstep,⟨hquiet,h.rx,h.txCounts.succ,h.rxCounts⟩,rfl⟩

theorem Kept.queueRx (h : s.Kept) (msg : T) :
    ∃ t, s.step (.queueRx msg) = some t ∧ t.Kept ∧ t.checks = s.checks := by
  obtain ⟨q,p,hlayout⟩ := h.rx
  obtain ⟨r,result,hpush,hquiet⟩ := hlayout.push msg
  cases result with
  | ok _ =>
    have hstep : s.step (.queueRx msg) = some {s with manager.rxBuffer := r} := by
      simp only [step,CanBufferManager.queueRx,hpush,Option.map_some]
      rfl
    exact ⟨_,hstep,⟨h.tx,hquiet,h.txCounts,h.rxCounts⟩,rfl⟩
  | error back =>
    have hstep : s.step (.queueRx msg) = some {s with
        manager.rxBuffer := r
        manager.rxOverflows := s.manager.rxOverflows + 1
        tally.rejectedRx := s.tally.rejectedRx + 1} := by
      simp only [step,CanBufferManager.queueRx,hpush,Option.map_some]
      rfl
    exact ⟨_,hstep,⟨h.tx,hquiet,h.txCounts,h.rxCounts.succ⟩,rfl⟩

theorem Kept.getTx (h : s.Kept) : ∃ t, s.step .getTx = some t ∧ t.Kept ∧ t.checks = s.checks := by
  obtain ⟨q,p,hlayout⟩ := h.tx
  obtain ⟨r,result,hpop,hquiet⟩ := hlayout.pop
  have hstep : s.step .getTx = some {s with manager.txBuffer := r} := by
    simp only [step,CanBufferManager.getTx,hpop,Option.map_some]
  exact ⟨_,hstep,⟨hquiet,h.rx,h.txCounts,h.rxCounts⟩,rfl⟩

theorem Kept.getRx (h : s.Kept) : ∃ t, s.step .getRx = some t ∧ t.Kept ∧ t.checks = s.checks := by
  obtain ⟨q,p,hlayout⟩ := h.rx
  obtain ⟨r,result,hpop,hquiet⟩ := hlayout.pop
  have hstep : s.step .getRx = some {s with manager.rxBuffer := r} := by
    simp only [step,CanBufferManager.getRx,hpop,Option.map_some]
  exact ⟨_,hstep,⟨h.tx,hquiet,h.txCounts,h.rxCounts⟩,rfl⟩

/-- A check has a result when neither difference is below zero. -/
theorem periodicCheck_eq_some {d : CanDiagnostics} {stats : BufferStats}
    {r : CanDiagnostics × Report} :
    d.periodicCheck stats = some r →
      ∃ newTx newRx, usizeSub stats.txOverflows d.lastTxOverflows = some newTx ∧
        usizeSub stats.rxOverflows d.lastRxOverflows = some newRx ∧
        r.1 = ⟨if newTx > 0 then stats.txOverflows else d.lastTxOverflows,
          if newRx > 0 then stats.rxOverflows else d.lastRxOverflows⟩ ∧
        r.2.newTxOverflows = newTx ∧ r.2.newRxOverflows = newRx := by
  intro h
  obtain ⟨newTx,htx,h⟩ := Option.bind_eq_some_iff.mp h
  obtain ⟨newRx,hrx,h⟩ := Option.bind_eq_some_iff.mp h
  cases h
  exact ⟨newTx,newRx,htx,hrx,rfl,rfl,rfl⟩

theorem periodicCheck_some (d : CanDiagnostics) (stats : BufferStats) {newTx newRx : UInt64}
    (htx : usizeSub stats.txOverflows d.lastTxOverflows = some newTx)
    (hrx : usizeSub stats.rxOverflows d.lastRxOverflows = some newRx) :
    ∃ r, d.periodicCheck stats = some r ∧ r.2.newTxOverflows = newTx ∧
      r.2.newRxOverflows = newRx := by
  rw [CanDiagnostics.periodicCheck,htx,hrx]
  exact ⟨_,rfl,rfl,rfl⟩

theorem Kept.step (h : s.Kept) (hstep : s.step e = some t) : t.Kept := by
  cases e with
  | queueTx msg =>
    obtain ⟨u,hu,hkept,-⟩ := h.queueTx msg
    cases hu.symm.trans hstep
    exact hkept
  | queueRx msg =>
    obtain ⟨u,hu,hkept,-⟩ := h.queueRx msg
    cases hu.symm.trans hstep
    exact hkept
  | getTx =>
    obtain ⟨u,hu,hkept,-⟩ := h.getTx
    cases hu.symm.trans hstep
    exact hkept
  | getRx =>
    obtain ⟨u,hu,hkept,-⟩ := h.getRx
    cases hu.symm.trans hstep
    exact hkept
  | resetOverflowCounters =>
    cases hstep
    exact ⟨h.tx,h.rx,counts_reset _,counts_reset _⟩
  | periodicCheck =>
    obtain ⟨r,hr,rfl⟩ := Option.map_eq_some_iff.mp hstep
    obtain ⟨newTx,newRx,htx,hrx,hlast,-⟩ := periodicCheck_eq_some hr
    refine ⟨h.tx,h.rx,?_,?_⟩
    · dsimp only
      rw [hlast]
      exact counts_checked htx
    · dsimp only
      rw [hlast]
      exact counts_checked hrx

/-- A check is exact where both counters can be compared with what it saw last. -/
theorem exact_check_iff (h : s.Kept) (hexact : s.Exact) :
    (∃ t, s.step .periodicCheck = some t ∧ t.Exact) ↔ s.Comparable .periodicCheck := by
  have htx := difference_iff h.txCounts
  have hrx := difference_iff h.rxCounts
  have hsplit : s.Comparable .periodicCheck ↔
      (∃ d, usizeSub s.manager.txOverflows s.diagnostics.lastTxOverflows = some d ∧
        d.toNat = s.tally.rejectedTx) ∧
      ∃ d, usizeSub s.manager.rxOverflows s.diagnostics.lastRxOverflows = some d ∧
        d.toNat = s.tally.rejectedRx := by
    rw [htx,hrx,Comparable]
    constructor
    · rintro ⟨hreset,htxFits,hrxFits⟩
      exact ⟨⟨fun hr => (hreset hr).1,htxFits⟩,fun hr => (hreset hr).2,hrxFits⟩
    · rintro ⟨⟨htxReset,htxFits⟩,hrxReset,hrxFits⟩
      exact ⟨fun hr => ⟨htxReset hr,hrxReset hr⟩,htxFits,hrxFits⟩
  rw [hsplit]
  constructor
  · rintro ⟨t,hstep,ht⟩
    obtain ⟨r,hr,rfl⟩ := Option.map_eq_some_iff.mp hstep
    obtain ⟨newTx,newRx,hnewTx,hnewRx,-,hreportTx,hreportRx⟩ := periodicCheck_eq_some hr
    obtain ⟨htxEq,hrxEq⟩ := ht (s.tally,r.2) (List.mem_append_right _ (List.mem_singleton_self _))
    exact ⟨⟨newTx,hnewTx,hreportTx ▸ htxEq⟩,newRx,hnewRx,hreportRx ▸ hrxEq⟩
  · rintro ⟨⟨newTx,hnewTx,htxEq⟩,newRx,hnewRx,hrxEq⟩
    obtain ⟨r,hr,hreportTx,hreportRx⟩ :=
      periodicCheck_some s.diagnostics s.manager.getStats hnewTx hnewRx
    refine ⟨_,Option.map_eq_some_iff.mpr ⟨r,hr,rfl⟩,fun c hc => ?_⟩
    rcases List.mem_append.mp hc with hc | hc
    · exact hexact c hc
    · rw [List.mem_singleton.mp hc]
      exact ⟨hreportTx ▸ htxEq,hreportRx ▸ hrxEq⟩

/-- The other calls have a result and check nothing. -/
theorem exact_other_iff (hexact : s.Exact)
    (h : ∃ t, s.step e = some t ∧ t.Kept ∧ t.checks = s.checks) :
    (∃ t, s.step e = some t ∧ t.Exact) ↔ True := by
  obtain ⟨t,ht,-,hchecks⟩ := h
  refine iff_of_true ⟨t,ht,?_⟩ trivial
  rw [Exact,hchecks]
  exact hexact

theorem exact_step_iff (h : s.Kept) (hexact : s.Exact) :
    (∃ t, s.step e = some t ∧ t.Exact) ↔ s.Comparable e := by
  cases e with
  | queueTx msg => exact exact_other_iff hexact (h.queueTx msg)
  | queueRx msg => exact exact_other_iff hexact (h.queueRx msg)
  | getTx => exact exact_other_iff hexact h.getTx
  | getRx => exact exact_other_iff hexact h.getRx
  | resetOverflowCounters => exact iff_of_true ⟨_,rfl,hexact⟩ trivial
  | periodicCheck => exact exact_check_iff h hexact

theorem checks_mono (hstep : s.step e = some t) : s.checks <+: t.checks := by
  cases e with
  | resetOverflowCounters =>
    cases hstep
    exact List.prefix_refl _
  | periodicCheck =>
    obtain ⟨r,-,rfl⟩ := Option.map_eq_some_iff.mp hstep
    exact List.prefix_append _ _
  | queueTx | queueRx | getTx | getRx =>
    obtain ⟨r,-,rfl⟩ := Option.map_eq_some_iff.mp hstep
    exact List.prefix_refl _

theorem kept_new [Inhabited T] : (new T).Kept where
  tx := RingBuffer.quiet_new txSize
  rx := RingBuffer.quiet_new rxSize
  txCounts := rfl
  rxCounts := rfl

/-- A sequence of calls runs without a panic and every check reports the calls that were rejected
since the last check or reset, exactly when each check can compare the counters. -/
theorem periodicCheck_exact_iff [Inhabited T] (calls : List (ManagerCall T)) :
    (∃ t, Runs.exec step (new T) calls = some t ∧ t.Exact) ↔
      Runs.Along step Comparable (new T) calls := by
  have hback : ∀ (s : ManagerState T) e t, s.step e = some t → t.Exact → s.Exact := by
    intro s e t hstep ht c hc
    exact ht c ((checks_mono hstep).subset hc)
  exact Runs.exec_completes_iff (I := Kept) (fun _ _ _ hstep h => h.step hstep) hback
    (fun _ _ h hexact => exact_step_iff h hexact) kept_new nofun calls

/-- A message too many is rejected and seen by a check; after a reset the next check panics. -/
theorem periodicCheck_underflow :
    ¬ ∃ t, Runs.exec step (new UInt8)
      (List.replicate 33 (.queueTx 7) ++
        [.periodicCheck,.resetOverflowCounters,.periodicCheck]) = some t ∧ t.Exact := by
  have hpanics : (Runs.exec step (new UInt8)
      (List.replicate 33 (.queueTx 7) ++
        [.periodicCheck,.resetOverflowCounters,.periodicCheck])).isNone := by
    decide +kernel
  rintro ⟨t,ht,-⟩
  rw [ht] at hpanics
  cases hpanics

end ManagerState
end CanRingBuffer
end UProtocols
