import UProtocols.CanRingBufferInvariant

/-!
# `clear` of the CAN ring buffer

`clear` resets `head`, `tail` and `count` in three stores, and `head` is not the
consumer's to write. It leaves the ring in order as long as its store of `head` does not
come between a `push`'s load and store of `head`, and every `push` updates `head` and
`count` on the same side of it.
-/

namespace UProtocols
namespace CanRingBuffer

variable {T : Type} {N : UInt64}

/-- The call has loaded `head` and not stored it yet. -/
def Push.holdsHead (c : Push T) : Bool :=
  match c.step with
  | .writeSlot _ => true
  | .storeHead _ => true
  | _ => false

/-- The call has stored `head` and not updated `count` yet. -/
def Push.counting (c : Push T) : Bool :=
  match c.step with
  | .addCount => true
  | _ => false

/-- The next operation is the store of `head`. -/
def Push.storesHead (c : Push T) : Bool :=
  match c.step with
  | .storeHead _ => true
  | _ => false

def Call.storesHead : Call T → Bool
  | .clearHead => true
  | _ => false

/-- A `clear` between its stores. -/
def Call.clearing : Call T → Bool
  | .clearTail => true
  | .clearCount => true
  | _ => false

/-- Whose store of `head` was the last. -/
inductive HeadWriter
  | push
  | clear
  deriving DecidableEq

structure Recorded (T : Type) where
  state : State T
  writer : HeadWriter

namespace Recorded

variable {s t : Recorded T}

def new (T : Type) [Inhabited T] (N : UInt64) : Recorded T := ⟨.new T N,.clear⟩

def nextWriter (s : Recorded T) : Event T → HeadWriter
  | .producer => if s.state.producer.any Push.storesHead then .push else s.writer
  | .consumer => if s.state.consumer.any Call.storesHead then .clear else s.writer
  | _ => s.writer

def step (N : UInt64) (s : Recorded T) (e : Event T) : Option (Recorded T) :=
  (s.state.step N e).map fun t => ⟨t,s.nextWriter e⟩

theorem step_eq_some {e : Event T} (h : step N s e = some t) :
    s.state.step N e = some t.state ∧ t.writer = s.nextWriter e := by
  obtain ⟨u,hu,rfl⟩ := Option.map_eq_some_iff.mp h
  exact ⟨hu,rfl⟩

theorem nextWriter_producer {c : Push T} (hc : s.state.producer = some c) :
    s.nextWriter .producer = if c.storesHead then .push else s.writer := by
  simp only [nextWriter,hc,Option.any_some]

theorem nextWriter_consumer {d : Call T} (hd : s.state.consumer = some d) :
    s.nextWriter .consumer = if d.storesHead then .clear else s.writer := by
  simp only [nextWriter,hd,Option.any_some]

/-- The record does not take part in a run. -/
theorem exec_state {events : List (Event T)} {u : State T} (s : Recorded T)
    (h : Runs.exec (State.step N) s.state events = some u) :
    ∃ writer, Runs.exec (step N) s events = some ⟨u,writer⟩ := by
  induction events generalizing s with
  | nil =>
    cases h
    exact ⟨s.writer,rfl⟩
  | cons e events ih =>
    obtain ⟨v,hv,hrest⟩ := Runs.exec_cons.mp h
    obtain ⟨writer,hrun⟩ := ih ⟨v,s.nextWriter e⟩ hrest
    refine ⟨writer,Runs.exec_cons.mpr ⟨_,?_,hrun⟩⟩
    rw [step,hv]
    rfl

/-- The store of `head` by `clear` finds no `push` between its load and store of `head`. A `push`
that has stored `head` before it adds to `count` before the `clear` resets it, and one that has
stored `head` after it adds after that. -/
def ClearSafe (s : Recorded T) (e : Event T) : Prop :=
  (e = .consumer → s.state.consumer = some .clearHead →
    s.state.producer.any Push.holdsHead = false) ∧
  (e = .consumer → s.state.consumer = some .clearCount → s.state.producer.any Push.counting →
    s.writer = .push) ∧
  (e = .producer → s.state.consumer.any Call.clearing → s.state.producer.any Push.counting →
    s.writer = .clear)

instance [DecidableEq T] (s : Recorded T) (e : Event T) : Decidable (s.ClearSafe e) :=
  inferInstanceAs (Decidable (_ ∧ _ ∧ _))

end Recorded

namespace State

variable {s t : State T} {w : HeadWriter}

/-- Where a `push` call stands while a `clear` is between its stores. -/
def PushMeanwhile (N : UInt64) (b : RingBuffer T) (w : HeadWriter) : Option (Push T) → Prop
  | none => b.head = 0
  | some c =>
    match c.step with
    | .checkFull => b.head = 0
    | .loadHead => b.head = 0
    | .writeSlot head => b.head = 0 ∧ head = 0
    | .storeHead head => b.head = 0 ∧ head = 0 ∧ b.buffer[0]? = some c.item
    | .addCount =>
      match w with
      | .clear => b.head = 0
      | .push => b.head = 1 % N.toNat ∧ b.buffer[0]? = some c.item

structure Clearing (N : UInt64) (s : State T) (w : HeadWriter) : Prop where
  length : s.ring.buffer.length = N.toNat
  call : s.consumer = some .clearTail ∨ (s.consumer = some .clearCount ∧ s.ring.tail = 0)
  push : PushMeanwhile N s.ring w s.producer

/-- Between the stores of a `clear`, `push` finds `head` reset. -/
theorem PushMeanwhile.advance {b r : RingBuffer T} {c : Push T} {o : PushOutcome T}
    (h : PushMeanwhile N b w (some c)) (hN : 0 < N.toNat) (hlen : b.buffer.length = N.toNat)
    (hsafe : c.counting → w = .clear) (hadv : c.advance N b = some (r,o)) :
    r.buffer.length = N.toNat ∧ r.tail = b.tail ∧
      ((∃ next, o = .goesOn next ∧
          PushMeanwhile N r (if c.storesHead then .push else w) (some next)) ∨
        ((∀ next, o ≠ .goesOn next) ∧ r.head = 0)) := by
  unfold PushMeanwhile at h
  cases hstep : c.step with
  | checkFull =>
    simp only [hstep] at h
    simp only [Push.advance,hstep] at hadv
    split_ifs at hadv
    · cases hadv
      exact ⟨hlen,rfl,.inr ⟨by simp,h⟩⟩
    · cases hadv
      exact ⟨hlen,rfl,.inl ⟨_,rfl,h⟩⟩
  | loadHead =>
    simp only [hstep] at h
    simp only [Push.advance,hstep] at hadv
    cases hadv
    exact ⟨hlen,rfl,.inl ⟨_,rfl,h,h⟩⟩
  | writeSlot head =>
    simp only [hstep] at h
    obtain ⟨hzero,rfl⟩ := h
    have hin : 0 < b.buffer.length := by omega
    simp only [Push.advance,hstep,if_pos hin] at hadv
    cases hadv
    refine ⟨?_,rfl,.inl ⟨_,rfl,hzero,rfl,List.getElem?_set_self hin⟩⟩
    rw [List.length_set]
    exact hlen
  | storeHead head =>
    simp only [hstep] at h
    obtain ⟨-,rfl,hslot⟩ := h
    have hN' : N ≠ 0 := by
      rintro rfl
      exact Nat.lt_irrefl _ hN
    simp only [Push.advance,hstep,if_neg hN'] at hadv
    cases hadv
    refine ⟨hlen,rfl,.inl ⟨_,rfl,?_⟩⟩
    simp only [Push.storesHead,hstep,if_true]
    exact ⟨rfl,hslot⟩
  | addCount =>
    cases hsafe (by simp only [Push.counting,hstep])
    simp only [hstep] at h
    simp only [Push.advance,hstep] at hadv
    cases hadv
    exact ⟨hlen,rfl,.inr ⟨by simp,h⟩⟩

theorem Clearing.produce (hN : 0 < N.toNat) (h : s.Clearing N w) {c : Push T} {r : RingBuffer T}
    {o : PushOutcome T} (hc : s.producer = some c) (hadv : c.advance N s.ring = some (r,o))
    (hsafe : Recorded.ClearSafe ⟨s,w⟩ .producer) :
    (s.produce r o).Clearing N (if c.storesHead then .push else w) := by
  have hpush := h.push
  rw [hc] at hpush
  have hclearing : s.consumer.any Call.clearing := by
    obtain hd | ⟨hd,-⟩ := h.call
    · rw [hd]
      rfl
    · rw [hd]
      rfl
  have hcounting : c.counting → w = .clear := by
    intro hcount
    apply hsafe.2.2 rfl hclearing
    show s.producer.any Push.counting
    rw [hc]
    exact hcount
  obtain ⟨hlen,htail,hnext⟩ := hpush.advance hN h.length hcounting hadv
  have hcall : s.consumer = some .clearTail ∨ (s.consumer = some .clearCount ∧ r.tail = 0) := by
    rw [htail]
    exact h.call
  obtain ⟨next,rfl,hmeanwhile⟩ | ⟨hdone,hhead⟩ := hnext
  · exact ⟨hlen,hcall,hmeanwhile⟩
  · cases o with
    | goesOn next => exact absurd rfl (hdone next)
    | ok x => exact ⟨hlen,hcall,hhead⟩
    | err x => exact ⟨hlen,hcall,hhead⟩

/-- The first store of `clear`. -/
theorem Settled.clearHead {p : ℕ} (h : s.Settled N p)
    (hsafe : s.producer.any Push.holdsHead = false) :
    (s.consume {s.ring with head := 0} (.goesOn .clearTail)).Clearing N .clear where
  length := h.layout.length
  call := .inl rfl
  push := by
    show PushMeanwhile N {s.ring with head := 0} .clear s.producer
    cases hc : s.producer with
    | none => rfl
    | some c =>
      rw [hc,Option.any_some] at hsafe
      cases hstep : c.step with
      | checkFull => simp only [PushMeanwhile,hstep]
      | loadHead => simp only [PushMeanwhile,hstep]
      | writeSlot head => simp [Push.holdsHead,hstep] at hsafe
      | storeHead head => simp [Push.holdsHead,hstep] at hsafe
      | addCount => simp only [PushMeanwhile,hstep]

/-- Once `count` is reset too, a `push` in progress stands in an empty ring at position 0. -/
theorem PushMeanwhile.placed {b : RingBuffer T} {c : Push T} (h : PushMeanwhile N b w (some c))
    (hN : 0 < N.toNat) (hsafe : c.counting → w = .push) :
    b.head = c.lead % N.toNat ∧ c.Placed N {b with count := 0} [] 0 := by
  have hzero : b.head = 0 → b.head = 0 % N.toNat := by
    intro heq
    rw [heq,Nat.zero_mod]
  have hstart : (0 + ([] : List T).length) % N.toNat = 0 := by
    rw [List.length_nil,Nat.add_zero,Nat.zero_mod]
  unfold PushMeanwhile at h
  cases hstep : c.step with
  | checkFull =>
    simp only [hstep] at h
    simp only [Push.lead,Push.Placed,hstep]
    exact ⟨hzero h,trivial⟩
  | loadHead =>
    simp only [hstep] at h
    simp only [Push.lead,Push.Placed,hstep]
    exact ⟨hzero h,hN⟩
  | writeSlot head =>
    simp only [hstep] at h
    simp only [Push.lead,Push.Placed,hstep,hstart]
    exact ⟨hzero h.1,hN,h.2⟩
  | storeHead head =>
    simp only [hstep] at h
    simp only [Push.lead,Push.Placed,hstep,hstart]
    exact ⟨hzero h.1,hN,h.2⟩
  | addCount =>
    cases hsafe (by simp only [Push.counting,hstep])
    simp only [hstep] at h
    obtain ⟨hone,hitem⟩ := h
    simp only [Push.lead,Push.Placed,hstep,hstart]
    exact ⟨hone,hN,hitem⟩

theorem Clearing.layout (h : s.Clearing N w) (htail : s.ring.tail = 0) {lead : ℕ}
    (hhead : s.ring.head = lead % N.toNat) :
    RingBuffer.Layout N {s.ring with count := 0} [] 0 lead 0 := by
  refine ⟨h.length,rfl,Nat.zero_le _,?_,?_,RingSlots.holds_nil _ _⟩
  · rw [Nat.add_zero,Nat.zero_mod]
    exact htail
  · rw [List.length_nil,Nat.add_zero,Nat.zero_add]
    exact hhead

/-- The last store of `clear` leaves an empty ring at position 0. -/
theorem Clearing.clearCount (hN : 0 < N.toNat) (h : s.Clearing N w) (htail : s.ring.tail = 0)
    (hsafe : s.producer.any Push.counting → w = .push) :
    (s.consume {s.ring with count := 0} .cleared).Settled N 0 := by
  have hpush := h.push
  have hplaced : ∀ c, s.producer = some c → s.ring.head = c.lead % N.toNat ∧
      c.Placed N {s.ring with count := 0} [] 0 := by
    intro c hc
    rw [hc] at hpush hsafe
    exact hpush.placed hN hsafe
  refine ⟨?_,fun c hc => (hplaced c hc).2,nofun⟩
  show RingBuffer.Layout N _ [] 0 (s.producer.elim 0 Push.lead) 0
  cases hc : s.producer with
  | none =>
    rw [hc] at hpush
    have hzero : s.ring.head = 0 := hpush
    apply h.layout htail
    rw [Option.elim,hzero,Nat.zero_mod]
  | some c => exact h.layout htail (hplaced c hc).1

end State

/-- The ring is in order, or a `clear` is between its stores. -/
def Recorded.Orderly (N : UInt64) (s : Recorded T) : Prop :=
  (∃ p, s.state.Settled N p) ∨ s.state.Clearing N s.writer

namespace State

variable {s t : State T} {w w' : HeadWriter}

theorem Clearing.consume (hN : 0 < N.toNat) (h : s.Clearing N w) {d : Call T} {r : RingBuffer T}
    {o : Outcome T} (hd : s.consumer = some d) (hadv : d.advance N s.ring = some (r,o))
    (hsafe : Recorded.ClearSafe ⟨s,w⟩ .consumer) :
    Recorded.Orderly N ⟨s.consume r o,if d.storesHead then .clear else w⟩ := by
  obtain hcall | ⟨hcall,htail⟩ := h.call
  · cases hd.symm.trans hcall
    cases hadv
    exact .inr ⟨h.length,.inr ⟨rfl,rfl⟩,h.push⟩
  · cases hd.symm.trans hcall
    cases hadv
    exact .inl ⟨0,h.clearCount hN htail (hsafe.2.1 rfl hcall)⟩

end State

theorem Recorded.Orderly.step {s t : Recorded T} (hN : 0 < N.toNat) {e : Event T}
    (h : s.Orderly N) (hstep : Recorded.step N s e = some t) (hsafe : s.ClearSafe e) :
    t.Orderly N := by
  obtain ⟨s,w⟩ := s
  obtain ⟨t,w'⟩ := t
  obtain ⟨hstep,hwriter⟩ := step_eq_some hstep
  obtain rfl : w' = nextWriter ⟨s,w⟩ e := hwriter
  obtain ⟨p,hs⟩ | hs := h
  · obtain ⟨x,-,hc,rfl⟩ | ⟨c,r,o,-,hc,hadv,rfl⟩ | ⟨call,hd,rfl,hcall⟩ |
      ⟨d,r,o,rfl,hd,hadv,rfl⟩ := State.step_cases hstep
    · exact .inl ⟨p,hs.startPush x hc⟩
    · exact .inl ⟨p,hs.produce hc hadv⟩
    · refine .inl ⟨p,hs.start hd ?_⟩
      obtain ⟨-,rfl⟩ | ⟨-,rfl⟩ | ⟨-,rfl⟩ := hcall
      · exact .inl rfl
      · exact .inr (.inl rfl)
      · exact .inr (.inr rfl)
    · by_cases hclear : d = .clearHead
      · subst hclear
        cases hadv
        rw [nextWriter_consumer hd]
        exact .inr (hs.clearHead (hsafe.1 rfl hd))
      · obtain ⟨p',hs',-⟩ := hs.consume hN hd hclear hadv
        exact .inl ⟨p',hs'⟩
  · obtain ⟨x,rfl,hc,rfl⟩ | ⟨c,r,o,rfl,hc,hadv,rfl⟩ | ⟨call,hd,-⟩ | ⟨d,r,o,rfl,hd,hadv,rfl⟩ :=
      State.step_cases hstep
    · have hpush := hs.push
      simp only at hc
      rw [hc] at hpush
      exact .inr ⟨hs.length,hs.call,hpush⟩
    · rw [nextWriter_producer hc]
      exact .inr (hs.produce hN hc hadv hsafe)
    · obtain hcall | ⟨hcall,-⟩ := hs.call
      · cases hd.symm.trans hcall
      · cases hd.symm.trans hcall
    · rw [nextWriter_consumer hd]
      exact hs.consume hN hd hadv hsafe

namespace State

variable {s t : State T} {w : HeadWriter}

/-- The indices agree with `count` when nothing is in progress, and `pop` returns only
items that were pushed and neither popped nor cleared. -/
structure ClearOk (N : UInt64) (s : State T) : Prop where
  head_eq : s.Idle → s.ring.head = (s.ring.tail + s.ring.count.toNat) % N.toNat
  pops_queue : ∀ t x, step N s .consumer = some t → t.popped = s.popped ++ [x] →
    s.queue.head? = some x

theorem outcome_of_popped {r : RingBuffer T} {o : Outcome T} {x : T}
    (h : (s.consume r o).popped = s.popped ++ [x]) : o = .popped (some x) := by
  cases o with
  | popped result =>
    cases result with
    | none => simp [State.consume] at h
    | some y =>
      have hxy : y = x := by simpa [State.consume] using h
      rw [hxy]
  | peeked result => cases result <;> simp [State.consume] at h
  | goesOn next => simp [State.consume] at h
  | cleared => simp [State.consume] at h

theorem clearOk_of_orderly (hN : 0 < N.toNat) (h : Recorded.Orderly N ⟨s,w⟩) : s.ClearOk N := by
  constructor
  · intro hidle
    obtain ⟨p,hs⟩ | hs := h
    · exact hs.idle hidle
    · obtain hcall | ⟨hcall,-⟩ := hs.call
      · cases hidle.2.symm.trans hcall
      · cases hidle.2.symm.trans hcall
  · intro t x hstep hpopped
    obtain ⟨y,he,-⟩ | ⟨c,r,o,he,-⟩ | ⟨call,-,-,he⟩ | ⟨d,r,o,-,hd,hadv,rfl⟩ := step_cases hstep
    · cases he
    · cases he
    · obtain ⟨he,-⟩ | ⟨he,-⟩ | ⟨he,-⟩ := he <;> cases he
    · have ho := outcome_of_popped hpopped
      subst ho
      obtain ⟨p,hs⟩ | hs := h
      · exact hs.head_of_popped hN hd hadv
      · obtain hcall | ⟨hcall,-⟩ := hs.call
        · cases hd.symm.trans hcall
          cases hadv
        · cases hd.symm.trans hcall
          cases hadv

/-- In every run in which `clear` and `push` keep out of each other's way, `clear` is safe. -/
theorem clearOk_run [Inhabited T] (hN : 1 ≤ N.toNat) {events : List (Event T)}
    (h : run N events = some s)
    (hsafe : Runs.Along (Recorded.step N) Recorded.ClearSafe (Recorded.new T N) events) :
    s.ClearOk N := by
  obtain ⟨writer,hrun⟩ := Recorded.exec_state (Recorded.new T N) h
  have hinv := Runs.exec_invariant_of_along (I := Recorded.Orderly N)
    (fun _ _ _ hst hp hs => hs.step hN hst hp) hrun hsafe (.inl ⟨0,settled_new N⟩)
  exact clearOk_of_orderly hN hinv

/-- A `push` that passes its check before a `clear`, loads `head` after the reset and
counts after it. -/
def clearBetween : List (Event UInt8) :=
  (Event.startPush 7 :: List.replicate 5 Event.producer) ++
    [Event.startPush 8,Event.producer,Event.startClear,Event.consumer] ++
    List.replicate 3 Event.producer ++ List.replicate 2 Event.consumer ++ [Event.producer] ++
    (Event.startPop :: List.replicate 5 Event.consumer)

theorem clearOk_run_clearBetween : ∃ s, run 4 clearBetween = some s ∧
    Runs.Along (Recorded.step 4) Recorded.ClearSafe (.new UInt8 4) clearBetween ∧ s.ClearOk 4 ∧
    s.popped = [8] := by
  have hrun : (run 4 clearBetween).map (fun s => s.popped) = some [8] := by decide +kernel
  obtain ⟨s,hs,hval⟩ := Option.map_eq_some_iff.mp hrun
  have hsafe : Runs.Along (Recorded.step 4) Recorded.ClearSafe (.new UInt8 4) clearBetween := by
    decide +kernel
  exact ⟨s,hs,hsafe,clearOk_run (by decide) hs hsafe,hval⟩

/-- A `clear` that runs between a `push`'s load and store of `head`. -/
def clearDuring : List (Event UInt8) :=
  (Event.startPush 7 :: List.replicate 5 Event.producer) ++
    (Event.startPop :: List.replicate 5 Event.consumer) ++
    [Event.startPush 8,Event.producer,Event.producer] ++
    (Event.startClear :: List.replicate 3 Event.consumer) ++
    List.replicate 3 Event.producer

/-- Afterwards the indices disagree with `count` for good, and the next `pop` returns an
item that was popped before. -/
theorem clear_breaks_clearDuring :
    (∃ s, run 4 clearDuring = some s ∧ s.Idle ∧
      s.ring.head ≠ (s.ring.tail + s.ring.count.toNat) % (4 : UInt64).toNat) ∧
    ∃ s, run 4 (clearDuring ++ .startPop :: List.replicate 5 .consumer) = some s ∧
      s.pushed = [7,8] ∧ s.popped = [7,7] := by
  constructor
  · have hrun : (run 4 clearDuring).map (fun s => (s.producer,s.consumer,s.ring.head,
        s.ring.tail,s.ring.count)) = some (none,none,2,0,1) := by decide +kernel
    obtain ⟨s,hs,hval⟩ := Option.map_eq_some_iff.mp hrun
    simp only [Prod.mk.injEq] at hval
    obtain ⟨hc,hd,hhead,htail,hcount⟩ := hval
    refine ⟨s,hs,⟨hc,hd⟩,?_⟩
    rw [hhead,htail,hcount]
    decide
  · have hrun : (run 4 (clearDuring ++ .startPop :: List.replicate 5 .consumer)).map
        (fun s => (s.pushed,s.popped)) = some ([7,8],[7,7]) := by decide +kernel
    obtain ⟨s,hs,hval⟩ := Option.map_eq_some_iff.mp hrun
    simp only [Prod.mk.injEq] at hval
    exact ⟨s,hs,hval⟩

end State
end CanRingBuffer
end UProtocols
