import UProtocols.SpiDma

/-!
# What `SpiDma` receives

The calls of `spi_dma_cache_coherency.rs` return what the device has delivered, and the
invalidations that this takes lose nothing of other objects.
-/

namespace UProtocols
namespace SpiDma

open WriteBackCache Interference

/-! ## Between two accesses -/

namespace Machine

variable {b : DmaBuffer} {e : Event} {m m' : Machine} {ptr a len : ℕ}

/-- Everything that can happen between two accesses. -/
theorem event_cases (h : event b e m = some m') :
    (∃ v, m' = {m with memory := m.memory.move cacheLineSize v}) ∨
    (∃ a v, ¬ b.Owns a ∧ m' = m.store a v) ∨
    ∃ ptr len v, m.target = some (ptr,len) ∧ m.running = true ∧ m.delivered.length < len ∧
      m' = {m with
        memory := m.memory.deviceWrite (ptr + m.delivered.length) v
        delivered := m.delivered ++ [v]} := by
  cases e with
  | move v => exact .inl ⟨v,by simpa [event] using h.symm⟩
  | store a v =>
    simp only [event] at h
    split at h
    · cases h
    · next ha => exact .inr (.inl ⟨a,v,ha,by simpa using h.symm⟩)
  | deliver v =>
    simp only [event] at h
    split at h
    · next ptr len htarget =>
      split at h
      · next hrunning =>
        exact .inr (.inr ⟨ptr,len,v,htarget,hrunning.1,hrunning.2,by simpa using h.symm⟩)
      · cases h
    · cases h

/-- The lines of the receive buffer stay clean. -/
theorem clean_event (h : event b e m = some m') (hptr : ptr ∈ b.pointers)
    (hclean : m.memory.Clean (ptr / cacheLineSize)) :
    m'.memory.Clean (ptr / cacheLineSize) := by
  obtain ⟨v,rfl⟩ | ⟨a,v,ha,rfl⟩ | ⟨_,_,v,-,-,-,rfl⟩ := event_cases h
  · exact hclean.move v
  · refine (Memory.touches_write _ a v).clean (fun heq => ha ?_) hclean
    exact DmaBuffer.owns_of_mem_pointers hptr heq.symm
  · exact hclean.deviceWrite _ v

theorem fresh_event (h : event b e m = some m') (hstopped : m.running = false)
    (hfresh : m.memory.Fresh cacheLineSize (ptr / cacheLineSize)) :
    m'.memory.Fresh cacheLineSize (ptr / cacheLineSize) := by
  obtain ⟨v,rfl⟩ | ⟨a,v,ha,rfl⟩ | ⟨_,_,v,-,hrunning,-,rfl⟩ := event_cases h
  · exact hfresh.move v
  · exact hfresh.write a v
  · rw [hstopped] at hrunning
    cases hrunning

theorem frame_event (h : event b e m = some m') :
    m'.log = m.log ∧ m'.loaded = m.loaded ∧ m'.target = m.target ∧ m'.running = m.running ∧
      (m.running = false → m'.delivered = m.delivered) := by
  obtain ⟨v,rfl⟩ | ⟨a,v,-,rfl⟩ | ⟨_,_,v,-,hrunning,-,rfl⟩ := event_cases h
  · exact ⟨rfl,rfl,rfl,rfl,fun _ => rfl⟩
  · exact ⟨rfl,rfl,rfl,rfl,fun _ => rfl⟩
  · exact ⟨rfl,rfl,rfl,rfl,fun hstopped => absurd hrunning (by simp [hstopped])⟩

/-- The calls that have received so many bytes have returned what was delivered for them. -/
structure Delivered (lens : List ℕ) (m : Machine) : Prop where
  lens : m.log.map Reception.len = lens
  returned : ∀ r ∈ m.log, r.bytes = r.delivered ∧ r.delivered.length = r.len

/-- Between two calls. -/
structure Idle (lens : List ℕ) (m : Machine) : Prop where
  delivered : m.Delivered lens
  loaded : m.loaded = []

def AllClean (b : DmaBuffer) (m : Machine) : Prop :=
  ∀ ptr ∈ b.pointers, m.memory.Clean (ptr / cacheLineSize)

def AllFresh (b : DmaBuffer) (m : Machine) : Prop :=
  ∀ ptr ∈ b.pointers, m.memory.Fresh cacheLineSize (ptr / cacheLineSize)

/-- What has been delivered is in the memory of the buffer. -/
def Written (b : DmaBuffer) (m : Machine) : Prop :=
  ∀ i v, m.delivered[i]? = some v → m.memory.ram (b.addr + i) = v

/-- The device may still be delivering. -/
structure Arriving (b : DmaBuffer) (len : ℕ) (m : Machine) : Prop where
  clean : m.AllClean b
  target : m.target = some (b.addr,len)
  written : m.Written b
  delivered_le : m.delivered.length ≤ len

structure Arrived (b : DmaBuffer) (len : ℕ) (m : Machine) : Prop where
  clean : m.AllClean b
  written : m.Written b
  complete : m.delivered.length = len
  stopped : m.running = false

variable {allowed : Event → Prop} {lens : List ℕ}

theorem Delivered.congr (h : m.Delivered lens) (hlog : m'.log = m.log) : m'.Delivered lens :=
  ⟨hlog ▸ h.lens,hlog ▸ h.returned⟩

theorem Idle.congr (h : m.Idle lens) (hlog : m'.log = m.log) (hloaded : m'.loaded = m.loaded) :
    m'.Idle lens :=
  ⟨h.delivered.congr hlog,hloaded.trans h.loaded⟩

theorem stable_idle : Stable (event b) allowed (Idle lens) :=
  fun _ _ _ _ he h => h.congr (frame_event he).1 (frame_event he).2.1

theorem stable_allClean : Stable (event b) allowed (AllClean b) :=
  fun _ _ _ _ he h ptr hptr => clean_event he hptr (h ptr hptr)

theorem AllClean.of_owns (h : m.AllClean b) (ha : b.Owns a) :
    m.memory.Clean (a / cacheLineSize) := by
  obtain ⟨ptr,hptr,hline⟩ := DmaBuffer.exists_pointer ha
  exact hline ▸ h ptr hptr

theorem AllFresh.of_owns (h : m.AllFresh b) (ha : b.Owns a) :
    m.memory.Fresh cacheLineSize (a / cacheLineSize) := by
  obtain ⟨ptr,hptr,hline⟩ := DmaBuffer.exists_pointer ha
  exact hline ▸ h ptr hptr

/-- The device writes behind what it has written, and nothing else changes it. -/
theorem Written.event (h : m.Written b) (he : event b e m = some m') (hclean : m.AllClean b)
    (htarget : m.running = true → m.target = some (b.addr,len)) (hlen : len ≤ b.size)
    (hle : m.delivered.length ≤ len) : m'.Written b ∧ m'.delivered.length ≤ len := by
  have howns : ∀ i v, m.delivered[i]? = some v → b.Owns (b.addr + i) := by
    intro i v hi
    obtain ⟨hlt,-⟩ := List.getElem?_eq_some_iff.mp hi
    exact DmaBuffer.owns_add (by omega)
  obtain ⟨v,rfl⟩ | ⟨a,v,ha,rfl⟩ | ⟨ptr,n,v,hptr,hrunning,hlt,rfl⟩ := event_cases he
  · refine ⟨fun i x hi => ?_,hle⟩
    rw [(hclean.of_owns (howns i x hi)).move_ram]
    exact h i x hi
  · refine ⟨fun i x hi => ?_,hle⟩
    obtain ⟨ptr,hptr,hline⟩ := DmaBuffer.exists_pointer (howns i x hi)
    have hne : (b.addr + i) / cacheLineSize ≠ a / cacheLineSize := fun heq =>
      ha (DmaBuffer.owns_of_mem_pointers hptr (heq.symm.trans hline))
    exact ((Memory.touches_write m.memory a v).ram _ hne).trans (h i x hi)
  · rw [htarget hrunning] at hptr
    cases hptr
    refine ⟨fun i x hi => ?_,by simpa using Nat.succ_le_of_lt hlt⟩
    simp only [Memory.deviceWrite] at hi ⊢
    obtain hi' | hi' := Nat.lt_or_ge i m.delivered.length
    · rw [List.getElem?_append_left hi'] at hi
      rw [Function.update_of_ne (by omega)]
      exact h i x hi
    · rw [List.getElem?_append_right hi',List.getElem?_singleton] at hi
      split at hi
      · next hzero =>
        cases hi
        rw [show b.addr + i = b.addr + m.delivered.length by omega,Function.update_self]
      · cases hi

theorem stable_arriving (hlen : len ≤ b.size) : Stable (event b) allowed (Arriving b len) := by
  intro e m m' hallowed he h
  obtain ⟨hwritten,hle⟩ := h.written.event he h.clean (fun _ => h.target) hlen h.delivered_le
  obtain ⟨-,-,htarget,-⟩ := frame_event he
  exact ⟨stable_allClean e m m' hallowed he h.clean,htarget.trans h.target,hwritten,hle⟩

theorem stable_arrived (hlen : len ≤ b.size) : Stable (event b) allowed (Arrived b len) := by
  intro e m m' hallowed he h
  obtain ⟨hwritten,-⟩ := h.written.event he h.clean (by simp [h.stopped]) hlen
    (Nat.le_of_eq h.complete)
  obtain ⟨-,-,-,hrunning,hdelivered⟩ := frame_event he
  exact ⟨stable_allClean e m m' hallowed he h.clean,hwritten,
    (hdelivered h.stopped).symm ▸ h.complete,hrunning.trans h.stopped⟩

theorem stable_allFresh (hlen : len ≤ b.size) :
    Stable (event b) allowed fun m => m.Arrived b len ∧ m.AllFresh b :=
  fun e m m' hallowed he h => ⟨stable_arrived hlen e m m' hallowed he h.1,
    fun ptr hptr => fresh_event he h.1.stopped (h.2 ptr hptr)⟩

theorem stable_loaded (hlen : len ≤ b.size) (f : List UInt8 → List UInt8) :
    Stable (event b) allowed fun m =>
      (m.Delivered lens ∧ m.loaded = f m.delivered) ∧ m.Arrived b len := by
  intro e m m' hallowed he h
  obtain ⟨-,hloaded,-,-,hdelivered⟩ := frame_event he
  exact ⟨⟨h.1.1.congr (frame_event he).1,by rw [hloaded,hdelivered h.2.stopped]; exact h.1.2⟩,
    stable_arrived hlen e m m' hallowed he h.2⟩

/-- Once the buffer is fresh again the processor loads what was delivered. -/
theorem Arrived.view (h : m.Arrived b len) (hfresh : m.AllFresh b) (hlen : len ≤ b.size) {i : ℕ}
    {v : UInt8} (hi : m.delivered[i]? = some v) :
    m.memory.view cacheLineSize (b.addr + i) = v := by
  have howns : b.Owns (b.addr + i) := by
    obtain ⟨hlt,-⟩ := List.getElem?_eq_some_iff.mp hi
    have := h.complete
    exact DmaBuffer.owns_add (by omega)
  rw [(hfresh.of_owns howns).view (h.clean.of_owns howns)]
  exact h.written i v hi

/-! ## The loops -/

/-- The loop of an invalidation brings about, at line after line, what an invalidated line has. -/
theorem proves_invalidate {B : Machine → Prop} {L : Memory UInt8 → ℕ → Prop}
    (hB : Stable (event b) allowed B)
    (hL : ∀ e m m', event b e m = some m' → B m → ∀ ptr ∈ b.pointers,
      L m.memory (ptr / cacheLineSize) → L m'.memory (ptr / cacheLineSize))
    (hkeep : ∀ m n, B m → B {m with memory := m.memory.invalidate n})
    (hself : ∀ (mem : Memory UInt8) n, L (mem.invalidate n) n)
    (hother : ∀ (mem : Memory UInt8) n k, L mem k → L (mem.invalidate n) k) :
    Proves act (event b) allowed B b.invalidate fun m =>
      B m ∧ ∀ ptr ∈ b.pointers, L m.memory (ptr / cacheLineSize) := by
  let P : ℕ → Machine → Prop := fun k m =>
    B m ∧ ∀ ptr ∈ b.pointers.take k, L m.memory (ptr / cacheLineSize)
  have hlength : b.invalidate.length = b.pointers.length := by
    simp [DmaBuffer.invalidate,cacheOperation,DmaBuffer.pointers]
  have hloop : Proves act (event b) allowed (P 0) b.invalidate (P b.invalidate.length) := by
    refine Proves.each ?_ ?_
    · intro k e m m' hallowed he h
      exact ⟨hB e m m' hallowed he h.1,fun ptr hptr =>
        hL e m m' he h.1 ptr (List.mem_of_mem_take hptr) (h.2 ptr hptr)⟩
    · intro k i hi m m' hact h
      rw [DmaBuffer.invalidate,cacheOperation,List.getElem?_map,Option.map_eq_some_iff] at hi
      obtain ⟨ptr,hptr,rfl⟩ := hi
      obtain rfl : {m with memory := m.memory.invalidate (ptr / cacheLineSize)} = m' := by
        simpa [act] using hact
      refine ⟨hkeep m _ h.1,fun p hp => ?_⟩
      have htake : b.pointers.take (k + 1) = b.pointers.take k ++ [ptr] := by
        rw [List.take_add_one,DmaBuffer.pointers,hptr]
        rfl
      rw [htake] at hp
      obtain hp | hp := List.mem_append.mp hp
      · exact hother _ _ _ (h.2 p hp)
      · obtain rfl := List.mem_singleton.mp hp
        exact hself _ _
  refine (hloop.strengthen hB fun m h => ⟨h,by simp⟩).weaken fun m h => ⟨h.1,?_⟩
  have hall := h.2
  rwa [hlength,List.take_length] at hall

theorem proves_cleaning : Proves act (event b) allowed (Idle lens) b.invalidate fun m =>
    m.Idle lens ∧ m.AllClean b :=
  proves_invalidate (L := fun mem n => mem.Clean n) stable_idle
    (fun _ _ _ he _ _ hptr hclean => clean_event he hptr hclean)
    (fun _ _ h => h.congr rfl rfl) Memory.clean_invalidate
    fun _ n _ h => h.invalidate n

theorem proves_refreshing (hlen : len ≤ b.size) :
    Proves act (event b) allowed (fun m => m.Idle lens ∧ m.Arrived b len) b.invalidate fun m =>
      m.Idle lens ∧ m.Arrived b len ∧ m.AllFresh b :=
  (proves_invalidate (L := fun mem n => mem.Fresh cacheLineSize n)
    (stable_idle.and (stable_arrived hlen))
    (fun _ _ _ he h _ _ hfresh => fresh_event he h.2.stopped hfresh)
    (fun _ n h => ⟨h.1.congr rfl rfl,fun ptr hptr => (h.2.clean ptr hptr).invalidate n,
      h.2.written,h.2.complete,h.2.stopped⟩) Memory.fresh_invalidate
    fun _ n _ h => h.invalidate n).weaken fun _ h => ⟨h.1.1,h.1.2,h.2⟩

/-- The copy loads what was delivered. -/
theorem proves_copying (hlen : len ≤ b.size) :
    Proves act (event b) allowed (fun m => m.Idle lens ∧ m.Arrived b len ∧ m.AllFresh b)
      (b.copyTo len) fun m =>
        (m.Delivered lens ∧ m.loaded = id m.delivered) ∧ m.Arrived b len := by
  let P : ℕ → Machine → Prop := fun k m =>
    (m.Delivered lens ∧ m.loaded = m.delivered.take k) ∧ m.Arrived b len ∧ m.AllFresh b
  have hloop : Proves act (event b) allowed (P 0) (b.copyTo len) (P (b.copyTo len).length) := by
    refine Proves.each ?_ ?_
    · intro k e m m' hallowed he h
      obtain ⟨hloaded,-⟩ := stable_loaded hlen (List.take k) e m m' hallowed he ⟨h.1,h.2.1⟩
      exact ⟨hloaded,stable_allFresh hlen e m m' hallowed he h.2⟩
    · intro k i hi m m' hact h
      rw [DmaBuffer.copyTo,List.getElem?_map,Option.map_eq_some_iff] at hi
      obtain ⟨j,hj,rfl⟩ := hi
      obtain ⟨hlt,rfl⟩ := List.getElem?_eq_some_iff.mp hj
      rw [List.length_range,← h.2.1.complete] at hlt
      simp only [List.getElem_range,act,Option.some.injEq] at hact
      subst hact
      have hview := h.2.1.view h.2.2 hlen (List.getElem?_eq_getElem hlt)
      refine ⟨⟨h.1.1.congr rfl,?_⟩,⟨h.2.1.clean,h.2.1.written,h.2.1.complete,h.2.1.stopped⟩,h.2.2⟩
      simp only [hview,h.1.2]
      rw [List.take_add_one,List.getElem?_eq_getElem hlt]
      rfl
  refine (hloop.strengthen (stable_idle.and (stable_allFresh hlen)) ?_).weaken ?_
  · exact fun m h => ⟨⟨h.1.delivered,by simpa using h.1.loaded⟩,h.2⟩
  · intro m h
    refine ⟨⟨h.1.1,?_⟩,h.2.1⟩
    have hall := h.1.2
    rwa [DmaBuffer.copyTo,List.length_map,List.length_range,← h.2.1.complete,
      List.take_length] at hall

/-- Between the two invalidations the device delivers. -/
theorem proves_delivering {configure : Access} (hlen : len ≤ b.size)
    (hconfigure : ∀ m, act configure m = some {m with target := some (b.addr,len)}) :
    Proves act (event b) allowed (fun m => m.Idle lens ∧ m.AllClean b)
      [configure,.startDma,.waitForCompletion] fun m => m.Idle lens ∧ m.Arrived b len := by
  have haimed : Stable (event b) allowed fun m =>
      m.Idle lens ∧ m.AllClean b ∧ m.target = some (b.addr,len) :=
    stable_idle.and (stable_allClean.and fun e m m' _ he h => (frame_event he).2.2.1.trans h)
  have harriving : Stable (event b) allowed fun m => m.Idle lens ∧ Arriving b len m :=
    stable_idle.and (stable_arriving hlen)
  refine .next (stable_idle.and stable_allClean) ?_ <| .next haimed ?_ <|
    .one harriving (stable_idle.and (stable_arrived hlen)) ?_
  · intro m m' hact h
    rw [hconfigure] at hact
    cases hact
    exact ⟨h.1.congr rfl rfl,h.2,rfl⟩
  · intro m m' hact h
    cases hact
    exact ⟨h.1.congr rfl rfl,h.2.1,h.2.2,by simp [Written],by simp⟩
  · intro m m' hact h
    simp only [act,h.2.target] at hact
    split at hact
    · next hcomplete =>
      cases hact
      exact ⟨h.1.congr rfl rfl,h.2.clean,h.2.written,hcomplete,rfl⟩
    · cases hact

/-- A reception adds what was delivered to what has been returned. -/
theorem proves_reception {configure : Access} (hlen : len ≤ b.size)
    (hconfigure : ∀ m, act configure m = some {m with target := some (b.addr,len)}) :
    Proves act (event b) allowed (Idle lens) (b.invalidate ++
      [configure,.startDma,.waitForCompletion] ++ b.invalidate ++ b.copyTo len ++
      [.returned len]) (Idle (lens ++ [len])) := by
  refine (((proves_cleaning.append (proves_delivering hlen hconfigure)).append
    (proves_refreshing hlen)).append (proves_copying hlen)).append
    (.one (stable_loaded hlen id) stable_idle ?_)
  intro m m' hact h
  cases hact
  refine ⟨⟨by simp [h.1.1.lens],fun r hr => ?_⟩,rfl⟩
  obtain hr | hr := List.mem_append.mp hr
  · exact h.1.1.returned r hr
  · obtain rfl := List.mem_singleton.mp hr
    exact ⟨h.1.2,h.2.complete⟩

/-- The accesses before a reception. -/
def Quiet : Access → Prop
  | .load _ | .returned _ => False
  | _ => True

theorem proves_quiet {code : List Access} (h : ∀ i ∈ code, Quiet i) :
    Proves act (event b) allowed (Idle lens) code (Idle lens) := by
  refine Proves.keeps stable_idle fun i hi m m' hact hidle => ?_
  have hquiet := h i hi
  have hkeeps : m'.log = m.log ∧ m'.loaded = m.loaded := by
    cases i with
    | load | returned => exact hquiet.elim
    | register op ptr => cases op <;> cases hact <;> exact ⟨rfl,rfl⟩
    | waitForCompletion =>
      simp only [act] at hact
      split at hact
      · split at hact <;> cases hact
        exact ⟨rfl,rfl⟩
      · cases hact
        exact ⟨rfl,rfl⟩
    | _ =>
      cases hact
      exact ⟨rfl,rfl⟩
  exact hidle.congr hkeeps.1 hkeeps.2

theorem quiet_copyFromSlice (b : DmaBuffer) (data : List UInt8) :
    ∀ i ∈ b.copyFromSlice data, Quiet i := by
  intro i hi
  rw [DmaBuffer.copyFromSlice,List.mem_mapIdx] at hi
  obtain ⟨_,_,rfl⟩ := hi
  trivial

theorem quiet_clean (b : DmaBuffer) : ∀ i ∈ b.clean, Quiet i := by
  intro i hi
  obtain ⟨_,_,rfl⟩ := List.mem_map.mp hi
  trivial

end Machine

open Machine

/-! ## Calls -/

variable {d : SpiDma} {allowed : Machine.Event → Prop} {lens : List ℕ}

/-- How many bytes the call asks for. -/
def Call.wanted : Call → List ℕ
  | .transmit _ => []
  | .receive len | .transfer _ len | .read _ _ len => [len]

/-- What the calls without an error ask for. -/
def receives (d : SpiDma) (c : Call) : List ℕ :=
  if (d.calling c).error = none then c.wanted else []

theorem proves_transmit (data : List UInt8) :
    Proves act (event d.rxBuffer) allowed (Idle lens) (d.transmit data).accesses (Idle lens) := by
  refine proves_quiet fun i hi => ?_
  rw [transmit] at hi
  split at hi
  · cases hi
  · simp only [List.mem_append] at hi
    obtain (hi | hi) | hi := hi
    · exact quiet_copyFromSlice _ _ i hi
    · exact quiet_clean _ i hi
    · simp only [List.mem_cons,List.not_mem_nil,or_false] at hi
      obtain rfl | rfl := hi <;> trivial

theorem proves_receive (len : ℕ) :
    Proves act (event d.rxBuffer) allowed (Idle lens) (d.receive len).accesses
      (Idle (lens ++ if (d.receive len).error = none then [len] else [])) := by
  by_cases hlen : len > d.rxBuffer.size
  · simp only [receive,if_pos hlen,reduceCtorEq,if_false,List.append_nil]
    exact .done stable_idle fun _ h => h
  · simp only [receive,if_neg hlen,if_true]
    exact proves_reception (Nat.le_of_not_lt hlen) fun _ => rfl

theorem proves_transfer (txData : List UInt8) (rxLen : ℕ) :
    Proves act (event d.rxBuffer) allowed (Idle lens) (d.transfer txData rxLen).accesses
      (Idle (lens ++ if (d.transfer txData rxLen).error = none then [rxLen] else [])) := by
  by_cases hne : txData.length ≠ rxLen
  · simp only [transfer,if_pos hne,reduceCtorEq,if_false,List.append_nil]
    exact .done stable_idle fun _ h => h
  · obtain rfl := not_not.mp hne
    by_cases hlen : txData.length > d.txBuffer.size ∨ txData.length > d.rxBuffer.size
    · simp only [transfer,if_neg hne,if_pos hlen,reduceCtorEq,if_false,List.append_nil]
      exact .done stable_idle fun _ h => h
    · simp only [transfer,if_neg hne,if_neg hlen,if_true]
      have hrx : txData.length ≤ d.rxBuffer.size := Nat.le_of_not_lt fun h => hlen (.inr h)
      have hbefore : Proves act (event d.rxBuffer) allowed (Idle lens)
          (d.txBuffer.copyFromSlice txData ++ d.txBuffer.clean) (Idle lens) :=
        (proves_quiet (quiet_copyFromSlice _ _)).append (proves_quiet (quiet_clean _))
      simpa only [List.append_assoc] using hbefore.append (proves_reception hrx fun _ => rfl)

theorem proves_read (address : UInt32) (padding : Fin 28 → UInt8) (len : ℕ) :
    Proves act (event d.rxBuffer) allowed (Idle lens) (d.read address padding len).accesses
      (Idle (lens ++ if (d.read address padding len).error = none then [len] else [])) := by
  rw [read]
  split
  · simp only [reduceCtorEq,if_false,List.append_nil]
    exact proves_transmit _
  · exact (proves_transmit _).append (proves_receive len)

theorem proves_call (c : Call) :
    Proves act (event d.rxBuffer) allowed (Idle lens) (d.calling c).accesses
      (Idle (lens ++ d.receives c)) := by
  cases c with
  | transmit data =>
    have hnone : d.receives (.transmit data) = [] := by
      rw [receives]
      split <;> rfl
    rw [hnone,List.append_nil]
    exact proves_transmit data
  | receive len => exact proves_receive len
  | transfer txData len => exact proves_transfer txData len
  | read address padding len => exact proves_read address padding len

theorem proves_program (calls : List Call) :
    Proves act (event d.rxBuffer) allowed (Idle lens) (d.program calls)
      (Idle (lens ++ calls.flatMap d.receives)) := by
  induction calls generalizing lens with
  | nil => exact .done stable_idle fun _ h => by simpa using h
  | cons c calls ih =>
    have hcall : Proves act (event d.rxBuffer) allowed (Idle lens) (d.calling c).accesses
        (Idle (lens ++ d.receives c)) := proves_call c
    have h := hcall.append ih
    simpa only [program,List.flatMap_cons,List.append_assoc] using h

/-- Before the calls, with anything in the cache. -/
def start (memory : Memory UInt8) : Machine :=
  ⟨memory,memory.view cacheLineSize,none,false,[],[],[]⟩

/-- Whatever is in the cache and whatever it does, whatever other code writes and whenever the
device delivers: the calls return, one after the other, exactly the bytes that the device has
delivered for them. -/
theorem returns_delivered {calls : List Call} {memory : Memory UInt8}
    {events : List (Option Machine.Event)} {c : Config Machine Access}
    (hrun : Runs.exec (step act (event d.rxBuffer)) ⟨d.program calls,start memory⟩ events = some c)
    (hdone : c.code = []) :
    c.state.log.map Reception.len = calls.flatMap d.receives ∧
      ∀ r ∈ c.state.log, r.bytes = r.delivered ∧ r.delivered.length = r.len := by
  have hproves : Proves act (event d.rxBuffer) (fun _ => True) (Idle []) (d.program calls)
      (Idle ([] ++ calls.flatMap d.receives)) := proves_program calls
  have hidle : (start memory).Idle [] := ⟨⟨rfl,nofun⟩,rfl⟩
  have hlast := (hproves.sound (c := ⟨_,_⟩) hidle (fun _ _ => trivial) hrun hdone).delivered
  exact ⟨hlast.lens,hlast.returned⟩

/-- Two buffers of four bytes. -/
def small : SpiDma := ⟨⟨0,4,by decide⟩,⟨64,4,by decide⟩⟩

/-- The line of the receive buffer waits to be written back. -/
def dirtyMemory : Memory UInt8 :=
  ⟨fun _ => 7,fun n => if n = 2 then some ⟨fun _ => 9,true⟩ else none⟩

/-- The line is fetched while the device delivers, and again before the bytes are copied. -/
def fetchedEarly : List (Option Machine.Event) :=
  [none,none,some (.move (.fill 2)),none,some (.deliver 1),some (.deliver 2),none,none,
    some (.move (.fill 2)),none,none,none]

theorem returns_delivered_fetchedEarly : ∃ c,
    Runs.exec (step act (event small.rxBuffer))
      ⟨small.program [.receive 2],start dirtyMemory⟩ fetchedEarly = some c ∧
    c.state.log = [⟨2,[1,2],[1,2]⟩] ∧ ∀ r ∈ c.state.log, r.bytes = r.delivered := by
  have hlog : (Runs.exec (step act (event small.rxBuffer))
      ⟨small.program [.receive 2],start dirtyMemory⟩ fetchedEarly).map
        (fun c => (c.code,c.state.log)) = some ([],[⟨2,[1,2],[1,2]⟩]) := by decide
  obtain ⟨c,hc,heq⟩ := Option.map_eq_some_iff.mp hlog
  obtain ⟨hcode,hlast⟩ := Prod.mk.inj heq
  obtain ⟨-,hreturned⟩ := returns_delivered (d := small) hc hcode
  exact ⟨c,hc,hlast,fun r hr => (hreturned r hr).1⟩

/-! ## Other objects -/

namespace Machine

variable {b : DmaBuffer}

/-- The receive buffer is all that is invalidated and all that the device writes to. -/
def Confined (b : DmaBuffer) : Access → Prop
  | .register .invalidate ptr => ptr ∈ b.pointers
  | .configureDmaRx ptr len | .configureDmaDuplex _ ptr len => ptr = b.addr ∧ len ≤ b.size
  | _ => True

/-- Outside of the buffer the processor reads what was written last. -/
structure Kept (b : DmaBuffer) (c : Config Machine Access) : Prop where
  code : ∀ i ∈ c.code, Confined b i
  target : ∀ ptr len, c.state.target = some (ptr,len) → ptr = b.addr ∧ len ≤ b.size
  fresh : ∀ a, ¬ b.Owns a → c.state.memory.Fresh cacheLineSize (a / cacheLineSize)
  view : ∀ a, ¬ b.Owns a → c.state.memory.view cacheLineSize a = c.state.stored a

theorem kept_store {code : List Access} {m : Machine} (h : Kept b ⟨code,m⟩) (a : ℕ) (v : UInt8) :
    Kept b ⟨code,m.store a v⟩ where
  code := h.code
  target := h.target
  fresh x hx := (h.fresh x hx).write a v
  view x hx := by
    have hview := h.view x hx
    simp only [store,Memory.view_write] at hview ⊢
    by_cases hxa : x = a
    · subst hxa
      simp
    · simpa [hxa] using hview

/-- What happens to a line of the buffer leaves the others alone. -/
theorem kept_touches {code : List Access} {m m' : Machine} {ptr : ℕ} (h : Kept b ⟨code,m⟩)
    (hptr : ptr ∈ b.pointers)
    (htouches : Memory.Touches cacheLineSize (ptr / cacheLineSize) m.memory m'.memory)
    (hstored : m'.stored = m.stored) (htarget : m'.target = m.target) : Kept b ⟨code,m'⟩ where
  code := h.code
  target := htarget ▸ h.target
  fresh a ha := htouches.fresh (fun heq => ha (DmaBuffer.owns_of_mem_pointers hptr heq)) (h.fresh a ha)
  view a ha := by
    have hne : a / cacheLineSize ≠ ptr / cacheLineSize := fun heq =>
      ha (DmaBuffer.owns_of_mem_pointers hptr heq)
    simp only [htouches.view hne,hstored]
    exact h.view a ha

theorem kept_act {i : Access} {code : List Access} {m m' : Machine}
    (h : Kept b ⟨i::code,m⟩) (hact : act i m = some m') : Kept b ⟨code,m'⟩ := by
  have hi : Confined b i := h.code i List.mem_cons_self
  have hrest : Kept b ⟨code,m⟩ :=
    ⟨fun j hj => h.code j (List.mem_cons_of_mem _ hj),h.target,h.fresh,h.view⟩
  cases i with
  | store a v =>
    cases hact
    exact kept_store hrest a v
  | register op ptr =>
    cases op with
    | clean | cleanInvalidate =>
      cases hact
      exact hrest
    | invalidate =>
      cases hact
      exact kept_touches hrest hi (Memory.touches_invalidate _ _) rfl rfl
  | configureDmaRx ptr len | configureDmaDuplex txPtr ptr len =>
    cases hact
    refine ⟨hrest.code,fun p n hpn => ?_,hrest.fresh,hrest.view⟩
    cases hpn
    exact hi
  | configureDmaTx =>
    cases hact
    exact ⟨hrest.code,nofun,hrest.fresh,hrest.view⟩
  | waitForCompletion =>
    simp only [act] at hact
    split at hact
    · split at hact <;> cases hact
      exact ⟨hrest.code,hrest.target,hrest.fresh,hrest.view⟩
    · cases hact
      exact ⟨hrest.code,hrest.target,hrest.fresh,hrest.view⟩
  | load | startDma | returned =>
    cases hact
    exact ⟨hrest.code,hrest.target,hrest.fresh,hrest.view⟩

theorem kept_event {e : Event} {code : List Access} {m m' : Machine} (h : Kept b ⟨code,m⟩)
    (he : event b e m = some m') : Kept b ⟨code,m'⟩ := by
  obtain ⟨v,rfl⟩ | ⟨a,v,-,rfl⟩ | ⟨ptr,len,v,htarget,-,hlt,rfl⟩ := event_cases he
  · refine ⟨h.code,h.target,fun a ha => (h.fresh a ha).move v,fun a ha => ?_⟩
    exact ((h.fresh a ha).move_view v).trans (h.view a ha)
  · exact kept_store h a v
  · obtain ⟨rfl,hlen⟩ := h.target ptr len htarget
    have howns : b.Owns (b.addr + m.delivered.length) := DmaBuffer.owns_add (by omega)
    obtain ⟨ptr,hptr,hline⟩ := DmaBuffer.exists_pointer howns
    refine kept_touches h hptr ?_ rfl rfl
    rw [← hline]
    exact Memory.touches_deviceWrite _ _ v

theorem kept_step {c c' : Config Machine Access} {e : Option Event} (h : Kept b c)
    (hstep : step act (event b) c e = some c') : Kept b c' := by
  obtain ⟨code,m⟩ := c
  cases e with
  | some e =>
    obtain ⟨m',hm',rfl⟩ := Option.map_eq_some_iff.mp hstep
    exact kept_event h hm'
  | none =>
    cases code with
    | nil => cases hstep
    | cons i code =>
      obtain ⟨m',hm',rfl⟩ := Option.map_eq_some_iff.mp hstep
      exact kept_act h hm'

theorem confined_copyFromSlice (b b' : DmaBuffer) (data : List UInt8) :
    ∀ i ∈ b'.copyFromSlice data, Confined b i := by
  intro i hi
  rw [DmaBuffer.copyFromSlice,List.mem_mapIdx] at hi
  obtain ⟨_,_,rfl⟩ := hi
  trivial

theorem confined_clean (b b' : DmaBuffer) : ∀ i ∈ b'.clean, Confined b i := by
  intro i hi
  obtain ⟨_,_,rfl⟩ := List.mem_map.mp hi
  trivial

theorem confined_reception {b : DmaBuffer} {configure : Access} {len : ℕ}
    (hconfigure : Confined b configure) :
    ∀ i ∈ b.invalidate ++ [configure,.startDma,.waitForCompletion] ++ b.invalidate ++
      b.copyTo len ++ [.returned len], Confined b i := by
  have hinvalidate : ∀ i ∈ b.invalidate, Confined b i := by
    intro i hi
    obtain ⟨ptr,hptr,rfl⟩ := List.mem_map.mp hi
    exact hptr
  have hcopy : ∀ i ∈ b.copyTo len, Confined b i := by
    intro i hi
    obtain ⟨_,_,rfl⟩ := List.mem_map.mp hi
    trivial
  intro i hi
  simp only [List.mem_append,List.mem_cons,List.not_mem_nil,or_false] at hi
  obtain (((hi | rfl | rfl | rfl) | hi) | hi) | rfl := hi
  · exact hinvalidate i hi
  · exact hconfigure
  · trivial
  · trivial
  · exact hinvalidate i hi
  · exact hcopy i hi
  · trivial

end Machine

theorem confined_transmit (data : List UInt8) :
    ∀ i ∈ (d.transmit data).accesses, Confined d.rxBuffer i := by
  intro i hi
  rw [transmit] at hi
  split at hi
  · cases hi
  · simp only [List.mem_append,List.mem_cons,List.not_mem_nil,or_false] at hi
    obtain (hi | hi) | rfl | rfl := hi
    · exact confined_copyFromSlice _ _ _ i hi
    · exact confined_clean _ _ i hi
    · trivial
    · trivial

theorem confined_receive (len : ℕ) : ∀ i ∈ (d.receive len).accesses, Confined d.rxBuffer i := by
  rw [receive]
  split
  · exact nofun
  · next hlen => exact confined_reception ⟨rfl,Nat.le_of_not_lt hlen⟩

theorem confined_calling (c : Call) : ∀ i ∈ (d.calling c).accesses, Confined d.rxBuffer i := by
  cases c with
  | transmit data => exact confined_transmit data
  | receive len => exact confined_receive len
  | transfer txData len =>
    rw [calling,transfer]
    split
    · exact nofun
    · simp only
      split
      · exact nofun
      · next hlen =>
        have hrx : txData.length ≤ d.rxBuffer.size := Nat.le_of_not_lt fun h => hlen (.inr h)
        have hconfigure : Confined d.rxBuffer
            (.configureDmaDuplex d.txBuffer.addr d.rxBuffer.addr txData.length) := ⟨rfl,hrx⟩
        intro i hi
        simp only [List.append_assoc] at hi
        obtain hi | hi := List.mem_append.mp hi
        · exact confined_copyFromSlice _ _ _ i hi
        obtain hi | hi := List.mem_append.mp hi
        · exact confined_clean _ _ i hi
        · exact confined_reception hconfigure i (by simpa only [List.append_assoc] using hi)
  | read address padding len =>
    rw [calling,read]
    split
    · exact confined_transmit _
    · intro i hi
      obtain hi | hi := List.mem_append.mp hi
      · exact confined_transmit _ i hi
      · exact confined_receive len i hi

/-- At every moment the processor reads, everywhere outside of the receive buffer, what was
written there last: the invalidations lose nothing, since the buffer fills its lines. -/
theorem others_keep {calls : List Call} {memory : Memory UInt8}
    {events : List (Option Machine.Event)} {c : Config Machine Access}
    (hfresh : ∀ a, ¬ d.rxBuffer.Owns a → memory.Fresh cacheLineSize (a / cacheLineSize))
    (hrun : Runs.exec (step act (event d.rxBuffer)) ⟨d.program calls,start memory⟩ events = some c)
    {a : ℕ} (ha : ¬ d.rxBuffer.Owns a) :
    c.state.memory.view cacheLineSize a = c.state.stored a := by
  have hcode : ∀ i ∈ d.program calls, Confined d.rxBuffer i := by
    intro i hi
    obtain ⟨call,-,hcall⟩ := List.mem_flatMap.mp hi
    exact confined_calling call i hcall
  have hkept : Kept d.rxBuffer c :=
    Runs.exec_invariant (fun _ _ _ hstep h => kept_step h hstep) hrun
      ⟨hcode,nofun,hfresh,fun _ _ => rfl⟩
  exact hkept.view a ha

/-- The line behind the buffer waits to be written back while the buffer is invalidated. -/
theorem others_keep_neighbour : ∃ c,
    Runs.exec (step act (event small.rxBuffer)) ⟨small.program [.receive 2],
      start ⟨fun _ => 7,fun n => if n = 3 then some ⟨fun _ => 9,true⟩ else none⟩⟩
      fetchedEarly = some c ∧ c.state.memory.view cacheLineSize 96 = 9 := by
  have hstored : (Runs.exec (step act (event small.rxBuffer)) ⟨small.program [.receive 2],
      start ⟨fun _ => 7,fun n => if n = 3 then some ⟨fun _ => 9,true⟩ else none⟩⟩
      fetchedEarly).map (fun c => c.state.stored 96) = some 9 := by decide
  obtain ⟨c,hc,heq⟩ := Option.map_eq_some_iff.mp hstored
  refine ⟨c,hc,(others_keep (d := small) ?_ hc (by decide)).trans heq⟩
  intro a _ l hl hdirty
  simp only at hl
  split at hl
  · cases hl
    cases hdirty
  · cases hl

end SpiDma
end UProtocols
