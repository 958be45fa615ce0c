import UProtocols.CanRingBufferInvariant

/-!
# The CAN ring buffer between one producer and one consumer

Without `clear`, the position of the first item is the number of items popped: item `k`
of all items pushed lies in slot `k % N` until it is popped.
-/

namespace UProtocols
namespace CanRingBuffer
namespace State

variable {T : Type} {N : UInt64} {s t : State T} {p : ℕ}

/-- Everything pushed is popped or in the queue, in order, and what was peeked at is the
item that was next. -/
structure Fifo (N : UInt64) (s : State T) : Prop where
  settled : s.Settled N s.popped.length
  pushed_eq : s.pushed = s.popped ++ s.queue
  peeked : ∀ k x, (k,x) ∈ s.peeked → k ≤ s.popped.length ∧ s.pushed[k]? = some x
  not_clear : s.consumer ≠ some .clearHead

theorem fifo_new [Inhabited T] (N : UInt64) : (new T N).Fifo N :=
  ⟨settled_new N,rfl,nofun,nofun⟩

theorem Fifo.produce (h : s.Fifo N) {c : Push T} {r : RingBuffer T} {o : PushOutcome T}
    (hc : s.producer = some c) (hadv : c.advance N s.ring = some (r,o)) :
    (s.produce r o).Fifo N := by
  have hsettled := h.settled.produce hc hadv
  cases o with
  | goesOn next => exact ⟨hsettled,h.pushed_eq,h.peeked,h.not_clear⟩
  | ok x =>
    refine ⟨hsettled,?_,?_,h.not_clear⟩
    · show s.pushed ++ [x] = s.popped ++ (s.queue ++ [x])
      rw [h.pushed_eq,List.append_assoc]
    · intro k y hmem
      obtain ⟨hle,hk⟩ := h.peeked k y hmem
      have hlt := (List.getElem?_eq_some_iff.mp hk).1
      exact ⟨hle,(List.getElem?_append_left hlt).trans hk⟩
  | err x => exact ⟨hsettled,h.pushed_eq,h.peeked,h.not_clear⟩

theorem Fifo.consume (hN : 0 < N.toNat) (h : s.Fifo N) {d : Call T} {r : RingBuffer T}
    {o : Outcome T} (hd : s.consumer = some d) (hadv : d.advance N s.ring = some (r,o)) :
    (s.consume r o).Fifo N := by
  have hne : d ≠ .clearHead := by
    rintro rfl
    exact h.not_clear hd
  obtain ⟨p',hsettled,hp⟩ := h.settled.consume hN hd hne hadv
  have hp' : p' = (s.consume r o).popped.length := by omega
  rw [hp'] at hsettled
  have hlayout := h.settled.layout
  rw [hd] at hlayout
  obtain ⟨e,rfl,rfl,-,-,-,hclear⟩ | ⟨rfl,hnone,-⟩ | ⟨x,-,-,rfl,rfl⟩ | ⟨x,hhead,rfl,rfl,rfl⟩ |
    ⟨x,hhead,-,rfl,rfl⟩ | ⟨hclear,-⟩ :=
    Call.advance_cases hN hlayout (h.settled.consumer d hd) hadv
  · refine ⟨hsettled,h.pushed_eq,h.peeked,?_⟩
    rintro ⟨⟩
    exact hclear rfl
  · obtain rfl | rfl := hnone
    · exact ⟨hsettled,h.pushed_eq,h.peeked,nofun⟩
    · exact ⟨hsettled,h.pushed_eq,h.peeked,nofun⟩
  · exact ⟨hsettled,h.pushed_eq,h.peeked,nofun⟩
  · obtain ⟨rest,hq⟩ := List.head?_eq_some_iff.mp hhead
    refine ⟨hsettled,?_,?_,nofun⟩
    · show s.pushed = (s.popped ++ [x]) ++ s.queue.tail
      rw [h.pushed_eq,hq,List.append_assoc]
      rfl
    · intro k y hmem
      obtain ⟨hle,hk⟩ := h.peeked k y hmem
      refine ⟨?_,hk⟩
      show k ≤ (s.popped ++ [x]).length
      rw [List.length_append]
      omega
  · obtain ⟨rest,hq⟩ := List.head?_eq_some_iff.mp hhead
    refine ⟨hsettled,h.pushed_eq,?_,nofun⟩
    intro k y hmem
    obtain hmem | hmem := List.mem_append.mp hmem
    · exact h.peeked k y hmem
    · -- The item read off slot `tail` is the first one of the queue.
      have heq : k = s.popped.length ∧ y = x := by simpa using hmem
      obtain ⟨rfl,rfl⟩ := heq
      refine ⟨Nat.le_refl _,?_⟩
      show s.pushed[s.popped.length]? = some y
      rw [h.pushed_eq,hq]
      simp
  · exact absurd hclear hne

theorem Fifo.step (hN : 0 < N.toNat) {e : Event T} (h : s.Fifo N) (he : e ≠ .startClear)
    (hstep : State.step N s e = some t) : t.Fifo N := by
  obtain ⟨x,-,hc,rfl⟩ | ⟨c,r,o,-,hc,hadv,rfl⟩ | ⟨call,hd,rfl,hcall⟩ | ⟨d,r,o,-,hd,hadv,rfl⟩ :=
    step_cases hstep
  · exact ⟨h.settled.startPush x hc,h.pushed_eq,h.peeked,h.not_clear⟩
  · exact h.produce hc hadv
  · obtain ⟨-,rfl⟩ | ⟨-,rfl⟩ | ⟨hclear,-⟩ := hcall
    · exact ⟨h.settled.start hd (.inl rfl),h.pushed_eq,h.peeked,nofun⟩
    · exact ⟨h.settled.start hd (.inr (.inl rfl)),h.pushed_eq,h.peeked,nofun⟩
    · exact absurd hclear he
  · exact h.consume hN hd hadv

theorem fifo_run [Inhabited T] (hN : 0 < N.toNat) {events : List (Event T)}
    (hclear : Event.startClear ∉ events) (h : run N events = some s) : s.Fifo N := by
  have hinv := Runs.exec_invariant_trace
    (I := fun (es : List (Event T)) s => Event.startClear ∉ es → s.Fifo N) ?_
    (fun _ => fifo_new N) h
  · exact hinv hclear
  · intro es s e t _ ih hstep hnot
    rw [List.mem_append,List.mem_singleton,not_or] at hnot
    exact (ih hnot.1).step hN (Ne.symm hnot.2) hstep

/-- No step writes the slot of an item in the queue. -/
theorem Settled.slot_kept (h : s.Settled N p) {e : Event T} (hstep : State.step N s e = some t)
    {k : ℕ} (hk : k < s.queue.length) :
    t.ring.buffer[(p + k) % N.toNat]? = s.ring.buffer[(p + k) % N.toNat]? := by
  obtain ⟨x,-,-,rfl⟩ | ⟨c,r,o,-,hc,hadv,rfl⟩ | ⟨call,-,rfl,-⟩ | ⟨d,r,o,-,-,hadv,rfl⟩ :=
    step_cases hstep
  · rfl
  · have hlayout := h.layout
    rw [hc] at hlayout
    have hring : (s.produce r o).ring = r := by cases o <;> rfl
    rw [hring]
    obtain ⟨st,rfl,-⟩ | ⟨rfl,-⟩ | ⟨hlt,-,rfl,-⟩ | ⟨-,-,-,rfl,-⟩ | ⟨-,-,-,rfl,-⟩ :=
      Push.advance_cases hlayout (h.producer c hc) hadv
    · rfl
    · rfl
    · apply List.getElem?_set_ne
      intro heq
      have hlen : s.queue.length = k := RingSlots.add_mod_inj hlt (by omega) heq
      omega
    · rfl
    · rfl
  · rfl
  · have hring : (s.consume r o).ring = r := by
      cases o with
      | popped result => cases result <;> rfl
      | peeked result => cases result <;> rfl
      | _ => rfl
    rw [hring,Call.advance_buffer hadv]

/-- What a run of one producer and one consumer has to show for itself. -/
structure SpscRing (N : UInt64) (s : State T) : Prop where
  popped_isPrefix : s.popped <+: s.pushed
  /-- The item peeked at after `k` pops is item `k`: the next pop returns it. -/
  peeked_next : ∀ k x, (k,x) ∈ s.peeked → k ≤ s.popped.length ∧ s.pushed[k]? = some x ∧
    (k < s.popped.length → s.popped[k]? = some x)
  /-- The items that are not popped lie in their slots, and no step writes there. -/
  unread_held : ∀ k, s.popped.length ≤ k → k < s.pushed.length →
    s.ring.buffer[k % N.toNat]? = s.pushed[k]? ∧
    ∀ e t, step N s e = some t →
      t.ring.buffer[k % N.toNat]? = s.ring.buffer[k % N.toNat]?
  count_eq : s.ring.count.toNat = s.pushed.length - s.popped.length
  count_le : s.ring.count.toNat ≤ N.toNat
  head_eq : s.Idle → s.ring.head = (s.ring.tail + s.ring.count.toNat) % N.toNat
  /-- Neither thread ever panics. -/
  enabled : (s.producer.isSome → (step N s .producer).isSome) ∧
    (s.consumer.isSome → (step N s .consumer).isSome)

/-- Every run without `clear` is a run of a bounded queue. -/
theorem spscRing_run [Inhabited T] (hN : 1 ≤ N.toNat) {events : List (Event T)}
    (hclear : Event.startClear ∉ events) (h : run N events = some s) : s.SpscRing N := by
  have hfifo := fifo_run hN hclear h
  have hlayout := hfifo.settled.layout
  have hpushed := hfifo.pushed_eq
  have hpre : s.popped <+: s.pushed := ⟨s.queue,hpushed.symm⟩
  have hlen : s.pushed.length = s.popped.length + s.queue.length := by
    rw [hpushed,List.length_append]
  constructor
  · exact hpre
  · intro k x hmem
    obtain ⟨hle,hk⟩ := hfifo.peeked k x hmem
    refine ⟨hle,hk,fun hlt => ?_⟩
    rw [← hk,hpushed,List.getElem?_append_left hlt]
  · intro k hle hlt
    obtain ⟨j,rfl⟩ := Nat.exists_eq_add_of_le hle
    have hj : j < s.queue.length := by omega
    refine ⟨?_,fun e t hstep => hfifo.settled.slot_kept hstep hj⟩
    have hheld := hlayout.held j hj
    rw [hlayout.length] at hheld
    rw [hheld,hpushed,List.getElem?_append_right hle,Nat.add_sub_cancel_left]
  · rw [hlayout.count_eq]
    omega
  · rw [hlayout.count_eq]
    exact hlayout.fits
  · exact fun hidle => hfifo.settled.idle hidle
  · exact hfifo.settled.enabled hN

/-- Two slots: the third `push` fails, a `peek` and a `pop` follow, and the next `push`
wraps around. -/
def pushPeekPop : List (Event UInt8) :=
  (Event.startPush 7 :: List.replicate 5 Event.producer) ++
    (Event.startPush 8 :: List.replicate 5 Event.producer) ++
    [Event.startPush 9,Event.producer] ++ (Event.startPeek :: List.replicate 3 Event.consumer) ++
    (Event.startPop :: List.replicate 5 Event.consumer) ++
    (Event.startPush 9 :: List.replicate 5 Event.producer) ++
    (Event.startPop :: List.replicate 5 Event.consumer)

theorem spscRing_run_pushPeekPop : ∃ s, run 2 pushPeekPop = some s ∧ s.SpscRing 2 ∧
    s.popped = [7,8] ∧ s.peeked = [(0,7)] ∧ s.pushed = [7,8,9] := by
  have hrun : (run 2 pushPeekPop).map (fun s => (s.popped,s.peeked,s.pushed)) =
      some ([7,8],[(0,7)],[7,8,9]) := by decide +kernel
  obtain ⟨s,hs,hval⟩ := Option.map_eq_some_iff.mp hrun
  simp only [Prod.mk.injEq] at hval
  exact ⟨s,hs,spscRing_run (by decide) (by decide) hs,hval⟩

end State
end CanRingBuffer
end UProtocols
