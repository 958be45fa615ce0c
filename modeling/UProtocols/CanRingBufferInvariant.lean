import UProtocols.CanRingBuffer

/-!
# The invariant of the CAN ring buffer

While no `clear` is between its stores, the items in the queue lie around the ring from
position `p`; `count` is their number at every moment, and each index runs at most one
step ahead of it. Between the stores of a `clear`, `head` has been reset, and a `push`
that has loaded it since writes slot 0.
-/

namespace UProtocols
namespace CanRingBuffer

variable {T : Type} {N : UInt64} {b r : RingBuffer T} {q rest : List T} {x : T} {p : ℕ}

/-- How far `head` is ahead of `count`. -/
def Push.lead (c : Push T) : ℕ :=
  match c.step with
  | .addCount => 1
  | _ => 0

/-- How far `tail` is ahead of `count`. -/
def Call.lead : Call T → ℕ
  | .popCount _ => 1
  | _ => 0

/-- The items `q` lie around the ring from position `p` on. -/
structure RingBuffer.Layout (N : UInt64) (b : RingBuffer T) (q : List T)
    (p headLead tailLead : ℕ) : Prop where
  length : b.buffer.length = N.toNat
  count_eq : b.count.toNat = q.length
  fits : q.length ≤ N.toNat
  tail_eq : b.tail = (p + tailLead) % N.toNat
  head_eq : b.head = (p + q.length + headLead) % N.toNat
  held : RingSlots.Holds b.buffer p q

/-- What the locals of a `push` call say of the ring. -/
def Push.Placed (N : UInt64) (b : RingBuffer T) (q : List T) (p : ℕ) (c : Push T) : Prop :=
  match c.step with
  | .checkFull => True
  | .loadHead => q.length < N.toNat
  | .writeSlot head => q.length < N.toNat ∧ head = (p + q.length) % N.toNat
  | .storeHead head => q.length < N.toNat ∧ head = (p + q.length) % N.toNat ∧
      b.buffer[(p + q.length) % N.toNat]? = some c.item
  | .addCount => q.length < N.toNat ∧ b.buffer[(p + q.length) % N.toNat]? = some c.item

/-- What the locals of a call of the consumer say of the ring; a `clear` between its
stores has no place here. -/
def Call.Placed (N : UInt64) (q : List T) (p : ℕ) : Call T → Prop
  | .popTail => q ≠ []
  | .popSlot tail => q ≠ [] ∧ tail = p % N.toNat
  | .popStore tail item => q.head? = some item ∧ tail = p % N.toNat
  | .popCount item => q.head? = some item
  | .peekTail => q ≠ []
  | .peekSlot tail => q ≠ [] ∧ tail = p % N.toNat
  | .clearTail => False
  | .clearCount => False
  | _ => True

theorem head?_append_of_ne_nil {more : List T} (h : q.head? = some x) :
    (q ++ more).head? = some x := by
  cases q with
  | nil => cases h
  | cons y q => exact h

theorem Call.Placed.grow {d : Call T} (h : d.Placed N q p) (more : List T) :
    d.Placed N (q ++ more) p := by
  cases d with
  | popTail => exact List.append_ne_nil_of_left_ne_nil h _
  | popSlot tail => exact ⟨List.append_ne_nil_of_left_ne_nil h.1 _,h.2⟩
  | popStore tail item => exact ⟨head?_append_of_ne_nil h.1,h.2⟩
  | popCount item => exact head?_append_of_ne_nil h
  | peekTail => exact List.append_ne_nil_of_left_ne_nil h _
  | peekSlot tail => exact ⟨List.append_ne_nil_of_left_ne_nil h.1 _,h.2⟩
  | clearTail => exact h
  | clearCount => exact h
  | _ => trivial

/-- A `push` call does not mind that the consumer takes the first item away. -/
theorem Push.Placed.shrink {c : Push T} (h : c.Placed N b (x::q) p)
    (hbuffer : r.buffer = b.buffer) : c.Placed N r q (p + 1) := by
  have hpos : p + 1 + q.length = p + (x::q).length := by
    rw [List.length_cons]
    omega
  rw [Push.Placed] at h ⊢
  rw [hpos,hbuffer]
  rw [List.length_cons] at h ⊢
  cases hstep : c.step with
  | checkFull => trivial
  | loadHead =>
    simp only [hstep] at h
    show q.length < N.toNat
    omega
  | writeSlot head =>
    simp only [hstep] at h
    exact ⟨by omega,h.2⟩
  | storeHead head =>
    simp only [hstep] at h
    exact ⟨by omega,h.2⟩
  | addCount =>
    simp only [hstep] at h
    exact ⟨by omega,h.2⟩

namespace RingBuffer.Layout

variable {headLead tailLead : ℕ}

/-- The free slot that `push` writes. -/
theorem writeSlot (h : b.Layout N q p headLead tailLead) (hlt : q.length < N.toNat) (x : T) :
    Layout N {b with buffer := b.buffer.set ((p + q.length) % N.toNat) x} q p headLead
      tailLead where
  length := by
    rw [List.length_set]
    exact h.length
  count_eq := h.count_eq
  fits := h.fits
  tail_eq := h.tail_eq
  head_eq := h.head_eq
  held := by
    have hset := h.held.set (Nat.le_refl q.length) (by rw [h.length]; exact hlt) x
    rw [h.length] at hset
    exact hset

theorem storeHead (h : b.Layout N q p 0 tailLead) :
    Layout N {b with head := (b.head + 1) % N.toNat} q p 1 tailLead where
  length := h.length
  count_eq := h.count_eq
  fits := h.fits
  tail_eq := h.tail_eq
  head_eq := by
    show (b.head + 1) % N.toNat = _
    rw [h.head_eq,Nat.mod_add_mod]
  held := h.held

/-- Counting the item that was written. -/
theorem addCount (h : b.Layout N q p 1 tailLead) (hlt : q.length < N.toNat)
    (hslot : b.buffer[(p + q.length) % N.toNat]? = some x) :
    Layout N {b with count := b.count + 1} (q ++ [x]) p 0 tailLead where
  length := h.length
  count_eq := by
    have hN := N.toNat_lt
    have hcount := h.count_eq
    show (b.count + 1).toNat = _
    rw [UInt64.toNat_add,hcount,List.length_append,List.length_singleton]
    exact Nat.mod_eq_of_lt (by show q.length + 1 < 2^64; omega)
  fits := by
    rw [List.length_append,List.length_singleton]
    exact hlt
  tail_eq := h.tail_eq
  head_eq := by
    rw [List.length_append,List.length_singleton]
    exact h.head_eq
  held := by
    apply h.held.snoc
    rw [h.length]
    exact hslot

theorem storeTail (h : b.Layout N q p headLead 0) :
    Layout N {b with tail := (b.tail + 1) % N.toNat} q p headLead 1 where
  length := h.length
  count_eq := h.count_eq
  fits := h.fits
  tail_eq := by
    show (b.tail + 1) % N.toNat = _
    rw [h.tail_eq,Nat.mod_add_mod]
  head_eq := h.head_eq
  held := h.held

/-- Giving the slot of the first item back. -/
theorem subCount (h : b.Layout N (x::q) p headLead 1) :
    Layout N {b with count := b.count - 1} q (p + 1) headLead 0 where
  length := h.length
  count_eq := by
    have hcount := h.count_eq
    rw [List.length_cons] at hcount
    have hle : 1 ≤ b.count := by
      rw [UInt64.le_iff_toNat_le,hcount]
      exact Nat.le_add_left _ _
    show (b.count - 1).toNat = _
    rw [UInt64.toNat_sub_of_le _ _ hle,hcount]
    rfl
  fits := Nat.le_of_succ_le h.fits
  tail_eq := h.tail_eq
  head_eq := by
    rw [h.head_eq,List.length_cons]
    congr 1
    omega
  held := h.held.tail

theorem not_full (h : b.Layout N q p headLead tailLead) (hfull : b.isFull N = false) :
    q.length < N.toNat := by
  have hnot : ¬ N ≤ b.count := by simpa [isFull] using hfull
  rw [UInt64.le_iff_toNat_le,h.count_eq] at hnot
  omega

theorem isEmpty_iff (h : b.Layout N q p headLead tailLead) : b.isEmpty ↔ q = [] := by
  have hcount := h.count_eq
  rw [isEmpty,beq_iff_eq,← UInt64.toNat_inj,hcount]
  exact List.length_eq_zero_iff

theorem slot_tail (h : b.Layout N (x::q) p headLead tailLead) :
    b.buffer[p % N.toNat]? = some x := by
  have hhead := h.held.head
  rw [h.length] at hhead
  exact hhead

end RingBuffer.Layout

/-- Everything that an operation of `push` can do in its place. -/
theorem Push.advance_cases {c : Push T} {o : PushOutcome T} {tailLead : ℕ}
    (hb : b.Layout N q p c.lead tailLead) (hc : c.Placed N b q p)
    (h : c.advance N b = some (r,o)) :
    (∃ st, r = b ∧ o = .goesOn (c.goto st) ∧ c.lead = 0 ∧ (c.goto st).lead = 0 ∧
      (c.goto st).Placed N b q p) ∨
    (r = b ∧ o = .err c.item ∧ c.lead = 0) ∨
    (q.length < N.toNat ∧ c.lead = 0 ∧
      r = {b with buffer := b.buffer.set ((p + q.length) % N.toNat) c.item} ∧
      o = .goesOn (c.goto (.storeHead ((p + q.length) % N.toNat)))) ∨
    (q.length < N.toNat ∧ c.lead = 0 ∧ b.buffer[(p + q.length) % N.toNat]? = some c.item ∧
      r = {b with head := (b.head + 1) % N.toNat} ∧ o = .goesOn (c.goto .addCount)) ∨
    (q.length < N.toNat ∧ c.step = .addCount ∧
      b.buffer[(p + q.length) % N.toNat]? = some c.item ∧
      r = {b with count := b.count + 1} ∧ o = .ok c.item) := by
  rw [Push.Placed] at hc
  cases hstep : c.step with
  | checkFull =>
    have hlead : c.lead = 0 := by simp only [lead,hstep]
    simp only [advance,hstep] at h
    cases hfull : b.isFull N with
    | true =>
      rw [hfull,if_pos rfl] at h
      cases h
      right
      left
      exact ⟨rfl,rfl,hlead⟩
    | false =>
      rw [hfull,if_neg Bool.false_ne_true] at h
      cases h
      left
      exact ⟨_,rfl,rfl,hlead,rfl,hb.not_full hfull⟩
  | loadHead =>
    have hlead : c.lead = 0 := by simp only [lead,hstep]
    simp only [hstep] at hc
    simp only [advance,hstep] at h
    cases h
    left
    have hhead := hb.head_eq
    rw [hlead,Nat.add_zero] at hhead
    exact ⟨_,rfl,rfl,hlead,rfl,hc,hhead⟩
  | writeSlot head =>
    have hlead : c.lead = 0 := by simp only [lead,hstep]
    simp only [hstep] at hc
    obtain ⟨hlt,rfl⟩ := hc
    have hin : (p + q.length) % N.toNat < b.buffer.length := by
      rw [hb.length]
      exact Nat.mod_lt _ (by omega)
    simp only [advance,hstep,if_pos hin] at h
    cases h
    right
    right
    left
    exact ⟨hlt,hlead,rfl,rfl⟩
  | storeHead head =>
    have hlead : c.lead = 0 := by simp only [lead,hstep]
    simp only [hstep] at hc
    obtain ⟨hlt,rfl,hslot⟩ := hc
    have hN : N ≠ 0 := by
      rintro rfl
      exact Nat.not_lt_zero _ hlt
    have hhead := hb.head_eq
    rw [hlead,Nat.add_zero] at hhead
    simp only [advance,hstep,if_neg hN,← hhead] at h
    cases h
    right
    right
    right
    left
    exact ⟨hlt,hlead,hslot,rfl,rfl⟩
  | addCount =>
    simp only [hstep] at hc
    simp only [advance,hstep] at h
    cases h
    right
    right
    right
    right
    exact ⟨hc.1,rfl,hc.2,rfl,rfl⟩

/-- Everything that an operation of the consumer can do in its place. -/
theorem Call.advance_cases {d : Call T} {o : Outcome T} {headLead : ℕ} (hN : 0 < N.toNat)
    (hb : b.Layout N q p headLead d.lead) (hd : d.Placed N q p)
    (h : d.advance N b = some (r,o)) :
    (∃ e, r = b ∧ o = .goesOn e ∧ d.lead = 0 ∧ e.lead = 0 ∧ e.Placed N q p ∧
      e ≠ .clearHead) ∨
    (r = b ∧ (o = .popped none ∨ o = .peeked none) ∧ d.lead = 0) ∨
    (∃ x, q.head? = some x ∧ d.lead = 0 ∧ r = {b with tail := (b.tail + 1) % N.toNat} ∧
      o = .goesOn (.popCount x)) ∨
    (∃ x, q.head? = some x ∧ d = .popCount x ∧ r = {b with count := b.count - 1} ∧
      o = .popped (some x)) ∨
    (∃ x, q.head? = some x ∧ d.lead = 0 ∧ r = b ∧ o = .peeked (some x)) ∨
    (d = .clearHead ∧ r = {b with head := 0} ∧ o = .goesOn .clearTail) := by
  have htail : d.lead = 0 → b.tail = p % N.toNat := by
    intro hlead
    rw [hb.tail_eq,hlead,Nat.add_zero]
  have hnonempty : b.isEmpty = false → q ≠ [] := by
    intro hempty hq
    rw [hb.isEmpty_iff.mpr hq] at hempty
    cases hempty
  cases d with
  | popCheck =>
    simp only [advance] at h
    cases hempty : b.isEmpty with
    | true =>
      rw [hempty,if_pos rfl] at h
      cases h
      right
      left
      exact ⟨rfl,.inl rfl,rfl⟩
    | false =>
      rw [hempty,if_neg Bool.false_ne_true] at h
      cases h
      left
      exact ⟨_,rfl,rfl,rfl,rfl,hnonempty hempty,nofun⟩
  | popTail =>
    cases h
    left
    exact ⟨_,rfl,rfl,rfl,rfl,⟨hd,htail rfl⟩,nofun⟩
  | popSlot tail =>
    obtain ⟨hne,rfl⟩ := hd
    obtain ⟨x,rest,rfl⟩ := List.exists_cons_of_ne_nil hne
    simp only [advance,hb.slot_tail,Option.map_some,Option.some.injEq,Prod.mk.injEq] at h
    obtain ⟨rfl,rfl⟩ := h
    left
    exact ⟨_,rfl,rfl,rfl,rfl,⟨rfl,rfl⟩,nofun⟩
  | popStore tail item =>
    obtain ⟨hhead,rfl⟩ := hd
    have hN' : N ≠ 0 := by
      rintro rfl
      exact Nat.lt_irrefl _ hN
    simp only [advance,if_neg hN',← htail rfl] at h
    cases h
    right
    right
    left
    exact ⟨item,hhead,rfl,rfl,rfl⟩
  | popCount item =>
    cases h
    right
    right
    right
    left
    exact ⟨item,hd,rfl,rfl,rfl⟩
  | peekCheck =>
    simp only [advance] at h
    cases hempty : b.isEmpty with
    | true =>
      rw [hempty,if_pos rfl] at h
      cases h
      right
      left
      exact ⟨rfl,.inr rfl,rfl⟩
    | false =>
      rw [hempty,if_neg Bool.false_ne_true] at h
      cases h
      left
      exact ⟨_,rfl,rfl,rfl,rfl,hnonempty hempty,nofun⟩
  | peekTail =>
    cases h
    left
    exact ⟨_,rfl,rfl,rfl,rfl,⟨hd,htail rfl⟩,nofun⟩
  | peekSlot tail =>
    obtain ⟨hne,rfl⟩ := hd
    obtain ⟨x,rest,rfl⟩ := List.exists_cons_of_ne_nil hne
    simp only [advance,hb.slot_tail,Option.map_some,Option.some.injEq,Prod.mk.injEq] at h
    obtain ⟨rfl,rfl⟩ := h
    right
    right
    right
    right
    left
    exact ⟨x,rfl,rfl,rfl,rfl⟩
  | clearHead =>
    cases h
    right
    right
    right
    right
    right
    exact ⟨rfl,rfl,rfl⟩
  | clearTail => cases hd
  | clearCount => cases hd

/-- Nothing but `push` writes slots. -/
theorem Call.advance_buffer {d : Call T} {o : Outcome T}
    (h : d.advance N b = some (r,o)) : r.buffer = b.buffer := by
  cases d with
  | popCheck =>
    simp only [Call.advance] at h
    split_ifs at h <;> cases h <;> rfl
  | peekCheck =>
    simp only [Call.advance] at h
    split_ifs at h <;> cases h <;> rfl
  | popSlot tail =>
    simp only [Call.advance,Option.map_eq_some_iff,Prod.mk.injEq] at h
    obtain ⟨x,-,rfl,-⟩ := h
    rfl
  | peekSlot tail =>
    simp only [Call.advance,Option.map_eq_some_iff,Prod.mk.injEq] at h
    obtain ⟨x,-,rfl,-⟩ := h
    rfl
  | popStore tail item =>
    simp only [Call.advance] at h
    split_ifs at h
    cases h
    rfl
  | popTail =>
    cases h
    rfl
  | popCount item =>
    cases h
    rfl
  | peekTail =>
    cases h
    rfl
  | clearHead =>
    cases h
    rfl
  | clearTail =>
    cases h
    rfl
  | clearCount =>
    cases h
    rfl

/-! ## Both threads together -/

namespace State

variable {s t : State T}

/-- The layout of the ring with both threads in their places. -/
structure Settled (N : UInt64) (s : State T) (p : ℕ) : Prop where
  layout : s.ring.Layout N s.queue p (s.producer.elim 0 Push.lead) (s.consumer.elim 0 Call.lead)
  producer : ∀ c, s.producer = some c → c.Placed N s.ring s.queue p
  consumer : ∀ d, s.consumer = some d → d.Placed N s.queue p

theorem settled_new [Inhabited T] (N : UInt64) : (new T N).Settled N 0 where
  layout := by
    refine ⟨List.length_replicate,rfl,Nat.zero_le _,?_,?_,RingSlots.holds_nil _ _⟩
    · exact (Nat.zero_mod _).symm
    · exact (Nat.zero_mod _).symm
  producer := nofun
  consumer := nofun

theorem Settled.produce (h : s.Settled N p) {c : Push T} {o : PushOutcome T}
    (hc : s.producer = some c) (hadv : c.advance N s.ring = some (r,o)) :
    (s.produce r o).Settled N p := by
  have hlayout := h.layout
  rw [hc] at hlayout
  have hidle : c.lead = 0 →
      s.ring.Layout N s.queue p 0 (s.consumer.elim 0 Call.lead) := by
    intro hlead
    rw [Option.elim,hlead] at hlayout
    exact hlayout
  obtain ⟨st,rfl,rfl,hlead,hlead',hplaced⟩ | ⟨rfl,rfl,hlead⟩ | ⟨hlt,hlead,rfl,rfl⟩ |
    ⟨hlt,hlead,hslot,rfl,rfl⟩ | ⟨hlt,hstep,hslot,rfl,rfl⟩ :=
    Push.advance_cases hlayout (h.producer c hc) hadv
  · refine ⟨?_,?_,h.consumer⟩
    · show s.ring.Layout N s.queue p (c.goto st).lead _
      rw [hlead']
      exact hidle hlead
    · rintro c' ⟨⟩
      exact hplaced
  · exact ⟨hidle hlead,nofun,h.consumer⟩
  · refine ⟨(hidle hlead).writeSlot hlt c.item,?_,h.consumer⟩
    rintro c' ⟨⟩
    have hin : (p + s.queue.length) % N.toNat < s.ring.buffer.length := by
      rw [hlayout.length]
      exact Nat.mod_lt _ (by omega)
    exact ⟨hlt,rfl,List.getElem?_set_self hin⟩
  · refine ⟨(hidle hlead).storeHead,?_,h.consumer⟩
    rintro c' ⟨⟩
    exact ⟨hlt,hslot⟩
  · have hlead : c.lead = 1 := by simp only [Push.lead,hstep]
    rw [Option.elim,hlead] at hlayout
    refine ⟨hlayout.addCount hlt hslot,nofun,?_⟩
    exact fun d hd => (h.consumer d hd).grow [c.item]

/-- Position `p` moves on with every item popped. -/
theorem Settled.consume (hN : 0 < N.toNat) (h : s.Settled N p) {d : Call T} {o : Outcome T}
    (hd : s.consumer = some d) (hne : d ≠ .clearHead) (hadv : d.advance N s.ring = some (r,o)) :
    ∃ p', (s.consume r o).Settled N p' ∧
      p' + s.popped.length = p + (s.consume r o).popped.length := by
  have hlayout := h.layout
  rw [hd] at hlayout
  have hidle : d.lead = 0 →
      s.ring.Layout N s.queue p (s.producer.elim 0 Push.lead) 0 := by
    intro hlead
    rw [Option.elim,hlead] at hlayout
    exact hlayout
  obtain ⟨e,rfl,rfl,hlead,hlead',hplaced,-⟩ | ⟨rfl,hnone,hlead⟩ | ⟨x,hhead,hlead,rfl,rfl⟩ |
    ⟨x,hhead,rfl,rfl,rfl⟩ | ⟨x,hhead,hlead,rfl,rfl⟩ | ⟨hclear,-⟩ :=
    Call.advance_cases hN hlayout (h.consumer d hd) hadv
  · refine ⟨p,⟨?_,h.producer,?_⟩,rfl⟩
    · show s.ring.Layout N s.queue p _ e.lead
      rw [hlead']
      exact hidle hlead
    · rintro e' ⟨⟩
      exact hplaced
  · obtain rfl | rfl := hnone
    · exact ⟨p,⟨hidle hlead,h.producer,nofun⟩,rfl⟩
    · exact ⟨p,⟨hidle hlead,h.producer,nofun⟩,rfl⟩
  · refine ⟨p,⟨(hidle hlead).storeTail,h.producer,?_⟩,rfl⟩
    rintro e ⟨⟩
    exact hhead
  · obtain ⟨rest,hq⟩ := List.head?_eq_some_iff.mp hhead
    have hplaced := h.producer
    rw [hq] at hlayout hplaced
    refine ⟨p + 1,⟨?_,?_,nofun⟩,?_⟩
    · show RingBuffer.Layout N _ s.queue.tail (p + 1) _ 0
      rw [hq]
      exact hlayout.subCount
    · intro c hc
      show c.Placed N _ s.queue.tail (p + 1)
      rw [hq]
      exact (hplaced c hc).shrink rfl
    · show p + 1 + s.popped.length = p + (s.popped ++ [x]).length
      rw [List.length_append,List.length_singleton]
      omega
  · exact ⟨p,⟨hidle hlead,h.producer,nofun⟩,rfl⟩
  · exact absurd hclear hne

theorem Settled.idle (h : s.Settled N p) (hidle : s.Idle) :
    s.ring.head = (s.ring.tail + s.ring.count.toNat) % N.toNat := by
  have hlayout := h.layout
  rw [hidle.1,hidle.2] at hlayout
  rw [hlayout.head_eq,hlayout.tail_eq,hlayout.count_eq,Nat.mod_add_mod]
  rfl

/-- What `pop` is about to return is the first item in the queue. -/
theorem Settled.head_of_popped (hN : 0 < N.toNat) (h : s.Settled N p) {d : Call T} {x : T}
    (hd : s.consumer = some d) (hadv : d.advance N s.ring = some (r,.popped (some x))) :
    s.queue.head? = some x := by
  have hlayout := h.layout
  rw [hd] at hlayout
  obtain ⟨e,-,ho,-⟩ | ⟨-,ho,-⟩ | ⟨y,-,-,-,ho⟩ | ⟨y,hhead,-,-,ho⟩ | ⟨y,-,-,-,ho⟩ | ⟨-,-,ho⟩ :=
    Call.advance_cases hN hlayout (h.consumer d hd) hadv
  · cases ho
  · obtain ho | ho := ho <;> cases ho
  · cases ho
  · cases ho
    exact hhead
  · cases ho
  · cases ho

/-- No remainder by zero, no index outside the buffer. -/
theorem Settled.enabled (hN : 0 < N.toNat) (h : s.Settled N p) :
    (s.producer.isSome → (step N s .producer).isSome) ∧
      (s.consumer.isSome → (step N s .consumer).isSome) := by
  have hN' : N ≠ 0 := by
    rintro rfl
    exact Nat.lt_irrefl _ hN
  have hslot : ∀ k, k % N.toNat < s.ring.buffer.length := by
    intro k
    rw [h.layout.length]
    exact Nat.mod_lt _ hN
  constructor
  · intro hsome
    obtain ⟨⟨x,st⟩,hc⟩ := Option.isSome_iff_exists.mp hsome
    have hplaced := h.producer _ hc
    have hadv : (Push.advance N s.ring ⟨x,st⟩).isSome := by
      cases st with
      | checkFull =>
        simp only [Push.advance]
        split_ifs <;> rfl
      | loadHead => rfl
      | writeSlot head =>
        rw [hplaced.2]
        simp [Push.advance,hslot]
      | storeHead head => simp [Push.advance,hN']
      | addCount => rfl
    simp [step,hc,hadv]
  · intro hsome
    obtain ⟨d,hd⟩ := Option.isSome_iff_exists.mp hsome
    have hplaced := h.consumer d hd
    have hadv : (d.advance N s.ring).isSome := by
      cases d with
      | popCheck =>
        simp only [Call.advance]
        split_ifs <;> rfl
      | peekCheck =>
        simp only [Call.advance]
        split_ifs <;> rfl
      | popSlot tail =>
        rw [hplaced.2]
        simp [Call.advance,hslot]
      | peekSlot tail =>
        rw [hplaced.2]
        simp [Call.advance,hslot]
      | popStore tail item => simp [Call.advance,hN']
      | _ => rfl
    simp [step,hd,hadv]

/-- The four kinds of step. -/
theorem step_cases {e : Event T} (h : step N s e = some t) :
    (∃ x, e = .startPush x ∧ s.producer = none ∧
      t = {s with producer := some ⟨x,.checkFull⟩}) ∨
    (∃ c r o, e = .producer ∧ s.producer = some c ∧ c.advance N s.ring = some (r,o) ∧
      t = s.produce r o) ∨
    (∃ call, s.consumer = none ∧ t = {s with consumer := some call} ∧
      ((e = .startPop ∧ call = .popCheck) ∨ (e = .startPeek ∧ call = .peekCheck) ∨
        (e = .startClear ∧ call = .clearHead))) ∨
    (∃ d r o, e = .consumer ∧ s.consumer = some d ∧ d.advance N s.ring = some (r,o) ∧
      t = s.consume r o) := by
  have hstart : ∀ call, s.start call = some t →
      s.consumer = none ∧ t = {s with consumer := some call} := by
    intro call hcall
    rw [start] at hcall
    cases hd : s.consumer with
    | none =>
      simp only [hd,Option.some.injEq] at hcall
      exact ⟨rfl,hcall.symm⟩
    | some d => simp [hd] at hcall
  cases e with
  | startPush x =>
    left
    simp only [step] at h
    cases hc : s.producer with
    | none =>
      simp only [hc,Option.some.injEq] at h
      exact ⟨x,rfl,rfl,h.symm⟩
    | some c => simp [hc] at h
  | producer =>
    right
    left
    simp only [step,Option.bind_eq_some_iff,Option.map_eq_some_iff] at h
    obtain ⟨c,hc,⟨r,o⟩,hadv,ht⟩ := h
    exact ⟨c,r,o,rfl,hc,hadv,ht.symm⟩
  | startPop =>
    obtain ⟨hd,ht⟩ := hstart _ h
    exact .inr (.inr (.inl ⟨_,hd,ht,.inl ⟨rfl,rfl⟩⟩))
  | startPeek =>
    obtain ⟨hd,ht⟩ := hstart _ h
    exact .inr (.inr (.inl ⟨_,hd,ht,.inr (.inl ⟨rfl,rfl⟩)⟩))
  | startClear =>
    obtain ⟨hd,ht⟩ := hstart _ h
    exact .inr (.inr (.inl ⟨_,hd,ht,.inr (.inr ⟨rfl,rfl⟩)⟩))
  | consumer =>
    right
    right
    right
    simp only [step,Option.bind_eq_some_iff,Option.map_eq_some_iff] at h
    obtain ⟨d,hd,⟨r,o⟩,hadv,ht⟩ := h
    exact ⟨d,r,o,rfl,hd,hadv,ht.symm⟩

theorem Settled.startPush (h : s.Settled N p) (x : T) (hc : s.producer = none) :
    ({s with producer := some ⟨x,.checkFull⟩} : State T).Settled N p := by
  have hlayout := h.layout
  rw [hc] at hlayout
  refine ⟨hlayout,?_,h.consumer⟩
  rintro c ⟨⟩
  trivial

/-- A call of the consumer starts without any knowledge of the ring. -/
theorem Settled.start (h : s.Settled N p) {call : Call T} (hd : s.consumer = none)
    (hcall : call = .popCheck ∨ call = .peekCheck ∨ call = .clearHead) :
    ({s with consumer := some call} : State T).Settled N p := by
  have hlayout := h.layout
  rw [hd] at hlayout
  obtain rfl | rfl | rfl := hcall
  · refine ⟨hlayout,h.producer,?_⟩
    rintro d ⟨⟩
    trivial
  · refine ⟨hlayout,h.producer,?_⟩
    rintro d ⟨⟩
    trivial
  · refine ⟨hlayout,h.producer,?_⟩
    rintro d ⟨⟩
    trivial

end State
end CanRingBuffer
end UProtocols
