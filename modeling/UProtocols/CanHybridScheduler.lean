import UProtocols.CanPriorityQueue

/-!
# The hybrid CAN scheduler

`hybrid_scheduler` of `CAN_Message_Scheduling.cpp`. A first loop puts the messages of the entries
that are due into the priority queue and refreshes their timestamps, a second one hands the
queued messages to `can_transmit`. The result of `pq_insert` is not looked at.
-/

namespace UProtocols
namespace CanScheduling

open StableOrder (Arranges)

/-- The functions of an entry and `can_transmit` read and change a world `W` that the scheduler
does not see. -/
structure ScheduleEntry (W : Type) where
  msg : CanMessage
  periodMs : UInt32
  triggerFn : Option (W → Bool × W)
  dataFn : Option (Vector UInt8 8 → W → Vector UInt8 8 × W)

variable {W : Type}

namespace ScheduleEntry

/-- `should_send`, with the world after the trigger. -/
def shouldSend (entry : ScheduleEntry W) (now : UInt32) (w : W) : Bool × W :=
  let elapsed : Bool := entry.periodMs > 0 && now - entry.msg.timestamp ≥ entry.periodMs
  match entry.triggerFn with
  | some trigger => (elapsed || (trigger w).1,(trigger w).2)
  | none => (elapsed,w)

/-- The message with its data updated. -/
def update (entry : ScheduleEntry W) (w : W) : CanMessage × W :=
  match entry.dataFn with
  | some fill => ({entry.msg with data := (fill entry.msg.data w).1},(fill entry.msg.data w).2)
  | none => (entry.msg,w)

end ScheduleEntry

/-- The first loop. -/
def enqueueDue (now : UInt32) : List (ScheduleEntry W) → PriorityQueue → W →
    Option (List (ScheduleEntry W) × PriorityQueue × W)
  | [], pq, w => some ([],pq,w)
  | entry::entries, pq, w =>
    let check := entry.shouldSend now w
    if check.1 then
      let updated := entry.update check.2
      (pqInsert pq updated.1).bind fun inserted =>
        (enqueueDue now entries inserted.1 updated.2).map fun rest =>
          ({entry with msg := {updated.1 with timestamp := now}}::rest.1,rest.2)
    else (enqueueDue now entries pq check.2).map fun rest => (entry::rest.1,rest.2)

/-- The second loop, with a bound on the number of iterations; the messages it hands over are
returned. -/
def transmitQueued (canTransmit : CanMessage → W → Bool × W) :
    ℕ → PriorityQueue → W → Option (List CanMessage × PriorityQueue × W)
  | 0, _, _ => none
  | bound + 1, pq, w =>
    (pqPop pq).bind fun popped =>
      match popped.2 with
      | none => some ([],popped.1,w)
      | some msg =>
        (transmitQueued canTransmit bound popped.1 (canTransmit msg w).2).map fun rest =>
          (msg::rest.1,rest.2)

structure Outcome (W : Type) where
  schedule : List (ScheduleEntry W)
  txQueue : PriorityQueue
  transmitted : List CanMessage
  world : W

/-- `now` is the clock reading of the call. -/
def hybridScheduler (canTransmit : CanMessage → W → Bool × W) (schedule : List (ScheduleEntry W))
    (txQueue : PriorityQueue) (now : UInt32) (w : W) : Option (Outcome W) :=
  (enqueueDue now schedule txQueue w).bind fun checked =>
    (transmitQueued canTransmit (checked.2.1.count.toNat + 1) checked.2.1 checked.2.2).map
      fun sent => ⟨checked.1,sent.2.1,sent.1,sent.2.2⟩

/-! ## The entries that are due -/

/-- The message of each entry that is due, as it is when the entry's turn comes. -/
def prepared (now : UInt32) : List (ScheduleEntry W) → W → List (Option CanMessage)
  | [], _ => []
  | entry::entries, w =>
    let check := entry.shouldSend now w
    if check.1 then
      let updated := entry.update check.2
      some updated.1::prepared now entries updated.2
    else none::prepared now entries check.2

def dueCount (now : UInt32) (schedule : List (ScheduleEntry W)) (w : W) : ℕ :=
  (prepared now schedule w).countP Option.isSome

/-- The call hands over exactly the messages of the entries that are due, each once, in order of
identifier and then of the entry; an entry with a new timestamp is one of them. -/
def ServesDue (now : UInt32) (schedule : List (ScheduleEntry W)) (w : W) (o : Outcome W) : Prop :=
  ∃ served : List (ℕ × CanMessage), served.map Prod.snd = o.transmitted ∧
    (∀ (i : ℕ) (msg : CanMessage), (i,msg) ∈ served ↔ (prepared now schedule w)[i]? = some (some msg)) ∧
    served.Pairwise (fun x y => x.2.id < y.2.id ∨ x.2.id = y.2.id ∧ x.1 < y.1) ∧
    ∀ (i : ℕ) (entry entry' : ScheduleEntry W), schedule[i]? = some entry →
      o.schedule[i]? = some entry' → entry'.msg.timestamp ≠ entry.msg.timestamp → ∃ msg, (i,msg) ∈ served

/-- The messages with the numbers of their entries, from number `i` on. -/
def numbered (i : ℕ) : List (Option CanMessage) → List (ℕ × CanMessage)
  | [] => []
  | none::msgs => numbered (i + 1) msgs
  | some msg::msgs => (i,msg)::numbered (i + 1) msgs

theorem mem_numbered {i j : ℕ} {msgs : List (Option CanMessage)} {msg : CanMessage} :
    (j,msg) ∈ numbered i msgs ↔ i ≤ j ∧ msgs[j - i]? = some (some msg) := by
  induction msgs generalizing i with
  | nil => simp [numbered]
  | cons first msgs ih =>
    have hcases : i ≤ j ↔ j = i ∨ i + 1 ≤ j := by omega
    rw [hcases]
    rcases Nat.lt_or_ge j (i + 1) with hlt | hge
    · have hnext : ¬ i + 1 ≤ j := by omega
      cases first with
      | none =>
        rw [numbered,ih]
        simp only [hnext,false_and,or_false,false_iff,not_and]
        rintro rfl
        simp
      | some first =>
        rw [numbered,List.mem_cons,ih]
        simp only [hnext,false_and,or_false,Prod.mk.injEq]
        constructor
        · rintro ⟨rfl,rfl⟩
          simp
        · rintro ⟨rfl,hmsg⟩
          simpa [eq_comm] using hmsg
    · have hne : j ≠ i := by omega
      have hindex : j - i = j - (i + 1) + 1 := by omega
      cases first with
      | none =>
        rw [numbered,ih,hindex,List.getElem?_cons_succ]
        simp [hge,hne]
      | some first =>
        rw [numbered,List.mem_cons,ih,hindex,List.getElem?_cons_succ]
        simp [hge,hne]

theorem numbered_pairwise (i : ℕ) (msgs : List (Option CanMessage)) :
    (numbered i msgs).Pairwise fun x y => x.1 < y.1 := by
  induction msgs generalizing i with
  | nil => exact List.Pairwise.nil
  | cons first msgs ih =>
    cases first with
    | none => exact ih (i + 1)
    | some first =>
      rw [numbered,List.pairwise_cons]
      refine ⟨?_,ih (i + 1)⟩
      rintro ⟨j,msg⟩ hj
      exact (mem_numbered.mp hj).1

theorem numbered_length (i : ℕ) (msgs : List (Option CanMessage)) :
    (numbered i msgs).length = msgs.countP Option.isSome := by
  induction msgs generalizing i with
  | nil => rfl
  | cons first msgs ih => cases first <;> simp [numbered,ih]

/-! ## The two loops -/

section Loops

variable {now : UInt32} {schedule : List (ScheduleEntry W)} {pq : PriorityQueue} {w : W}

theorem pqInsert_isSome (h : pq.Valid) (msg : CanMessage) :
    ∃ pq' ok, pqInsert pq msg = some (pq',ok) ∧ pq'.Valid := by
  by_cases hroom : pq.contents.length < maxQueueSize
  · obtain ⟨pq',front,back,hinsert,hvalid,-⟩ := PriorityQueue.pqInsert_ok h hroom msg
    exact ⟨pq',true,hinsert,hvalid⟩
  · have hle : pq.count.toNat ≤ maxQueueSize := h
    rw [← h.length_contents] at hle
    exact ⟨pq,false,PriorityQueue.pqInsert_full h (by omega) msg,h⟩

variable {entry : ScheduleEntry W} {msg : CanMessage} {w₁ w₂ : W}

/-- An entry is due, with the message it sends, or not. -/
theorem due_cases (entry : ScheduleEntry W) (now : UInt32) (w : W) :
    (∃ w₁ msg w₂, entry.shouldSend now w = (true,w₁) ∧ entry.update w₁ = (msg,w₂)) ∨
      ∃ w₁, entry.shouldSend now w = (false,w₁) := by
  cases hcheck : entry.shouldSend now w with
  | mk due w₁ =>
    cases due with
    | true => exact .inl ⟨w₁,_,_,rfl,rfl⟩
    | false => exact .inr ⟨w₁,rfl⟩

theorem prepared_due (hcheck : entry.shouldSend now w = (true,w₁))
    (hupdate : entry.update w₁ = (msg,w₂)) :
    prepared now (entry::schedule) w = some msg::prepared now schedule w₂ := by
  simp [prepared,hcheck,hupdate]

theorem prepared_idle (hcheck : entry.shouldSend now w = (false,w₁)) :
    prepared now (entry::schedule) w = none::prepared now schedule w₁ := by
  simp [prepared,hcheck]

theorem enqueueDue_due {pq' : PriorityQueue} {ok : Bool}
    (hcheck : entry.shouldSend now w = (true,w₁)) (hupdate : entry.update w₁ = (msg,w₂))
    (hinsert : pqInsert pq msg = some (pq',ok)) :
    enqueueDue now (entry::schedule) pq w = (enqueueDue now schedule pq' w₂).map fun rest =>
      ({entry with msg := {msg with timestamp := now}}::rest.1,rest.2) := by
  simp [enqueueDue,hcheck,hupdate,hinsert]

theorem enqueueDue_idle (hcheck : entry.shouldSend now w = (false,w₁)) :
    enqueueDue now (entry::schedule) pq w = (enqueueDue now schedule pq w₁).map fun rest =>
      (entry::rest.1,rest.2) := by
  simp [enqueueDue,hcheck]

/-- The first loop stays within the array, and a new timestamp is that of an entry that is due. -/
theorem enqueueDue_isSome (now : UInt32) (schedule : List (ScheduleEntry W)) (w : W)
    (h : pq.Valid) :
    ∃ schedule' pq' w', enqueueDue now schedule pq w = some (schedule',pq',w') ∧ pq'.Valid ∧
      ∀ (i : ℕ) (entry entry' : ScheduleEntry W), schedule[i]? = some entry →
        schedule'[i]? = some entry' → entry'.msg.timestamp ≠ entry.msg.timestamp →
        ∃ msg, (prepared now schedule w)[i]? = some (some msg) := by
  induction schedule generalizing pq w with
  | nil => exact ⟨[],pq,w,rfl,h,by simp⟩
  | cons entry entries ih =>
    obtain ⟨w₁,msg,w₂,hcheck,hupdate⟩ | ⟨w₁,hcheck⟩ := due_cases entry now w
    · obtain ⟨pq₁,ok,hinsert,hvalid⟩ := pqInsert_isSome h msg
      obtain ⟨entries',pq',w',hrest,hvalid',htimes⟩ := ih w₂ hvalid
      refine ⟨{entry with msg := {msg with timestamp := now}}::entries',pq',w',?_,hvalid',?_⟩
      · rw [enqueueDue_due hcheck hupdate hinsert,hrest]
        rfl
      · intro i e e' he he' hne
        rw [prepared_due hcheck hupdate]
        cases i with
        | zero => exact ⟨msg,rfl⟩
        | succ i => exact htimes i e e' he he' hne
    · obtain ⟨entries',pq',w',hrest,hvalid',htimes⟩ := ih w₁ h
      refine ⟨entry::entries',pq',w',?_,hvalid',?_⟩
      · rw [enqueueDue_idle hcheck,hrest]
        rfl
      · intro i e e' he he' hne
        rw [prepared_idle hcheck]
        cases i with
        | zero =>
          cases he
          cases he'
          exact absurd rfl hne
        | succ i => exact htimes i e e' he he' hne

/-- As long as there is room the first loop keeps the messages of all entries that are due, in
order. `items` are those of earlier entries. -/
theorem enqueueDue_arranges {i : ℕ} {items served : List (ℕ × CanMessage)}
    {result : List (ScheduleEntry W) × PriorityQueue × W} (h : pq.Valid)
    (hrun : enqueueDue now schedule pq w = some result)
    (hserved : served.map Prod.snd = pq.contents)
    (harranges : Arranges (fun x => x.2.priority) items served)
    (hroom : items.length + dueCount now schedule w ≤ maxQueueSize) :
    ∃ served', served'.map Prod.snd = result.2.1.contents ∧
      Arranges (fun x => x.2.priority) (items ++ numbered i (prepared now schedule w)) served' := by
  induction schedule generalizing pq w i items served result with
  | nil =>
    cases hrun
    exact ⟨served,hserved,by simpa [prepared,numbered] using harranges⟩
  | cons entry entries ih =>
    obtain ⟨w₁,msg,w₂,hcheck,hupdate⟩ | ⟨w₁,hcheck⟩ := due_cases entry now w
    · have hcount : dueCount now (entry::entries) w = dueCount now entries w₂ + 1 := by
        simp [dueCount,prepared_due hcheck hupdate]
      have hspace : pq.contents.length < maxQueueSize := by
        have hlength := harranges.perm.length_eq
        rw [← hserved,List.length_map]
        omega
      obtain ⟨pq₁,front,back,hinsert,hvalid,hsplit,hcontents,hback,hfront⟩ :=
        PriorityQueue.pqInsert_ok h hspace msg
      -- the queue is split where the message goes
      rw [← hserved] at hsplit
      obtain ⟨front',back',rfl,rfl,rfl⟩ := List.map_eq_append_iff.mp hsplit
      have hfront' : ∀ y ∈ front'.getLast?, y.2.id ≤ msg.id := by
        intro y hy
        apply hfront y.2
        rw [List.getLast?_map]
        exact Option.mem_map_of_mem Prod.snd hy
      have hback' : ∀ y ∈ back', msg.id < y.2.id :=
        fun y hy => hback y.2 (List.mem_map_of_mem hy)
      have hnew := PriorityQueue.arranges_insert (f := Prod.snd) (x := (i,msg)) harranges hfront'
        hback'
      rw [enqueueDue_due hcheck hupdate hinsert] at hrun
      obtain ⟨rest,hrest,rfl⟩ := Option.map_eq_some_iff.mp hrun
      have hserved' : (front' ++ (i,msg)::back').map Prod.snd = pq₁.contents := by simp [hcontents]
      have hroom' : (items ++ [(i,msg)]).length + dueCount now entries w₂ ≤ maxQueueSize := by
        rw [List.length_append,List.length_singleton]
        omega
      obtain ⟨served',hserved',harranges'⟩ := ih (i := i + 1) hvalid hrest hserved' hnew hroom'
      refine ⟨served',hserved',?_⟩
      rw [prepared_due hcheck hupdate,numbered]
      simpa using harranges'
    · have hcount : dueCount now (entry::entries) w = dueCount now entries w₁ := by
        simp [dueCount,prepared_idle hcheck]
      rw [enqueueDue_idle hcheck] at hrun
      obtain ⟨rest,hrest,rfl⟩ := Option.map_eq_some_iff.mp hrun
      obtain ⟨served',hserved',harranges'⟩ := ih (i := i + 1) h hrest hserved harranges
        (hcount ▸ hroom)
      refine ⟨served',hserved',?_⟩
      rw [prepared_idle hcheck]
      exact harranges'

/-- The second loop hands over the whole queue in order. -/
theorem transmitQueued_spec (canTransmit : CanMessage → W → Bool × W) {bound : ℕ} (h : pq.Valid)
    (hbound : pq.contents.length < bound) :
    ∃ pq' w', transmitQueued canTransmit bound pq w = some (pq.contents,pq',w') := by
  induction bound generalizing pq w with
  | zero => cases hbound
  | succ bound ih =>
    cases hcontents : pq.contents with
    | nil =>
      refine ⟨pq,w,?_⟩
      rw [transmitQueued,PriorityQueue.pqPop_nil h hcontents]
      rfl
    | cons msg rest =>
      obtain ⟨pq₁,hpop,hvalid,hrest⟩ := PriorityQueue.pqPop_cons h hcontents
      rw [hcontents,← hrest] at hbound
      obtain ⟨pq',w',hloop⟩ := ih (w := (canTransmit msg w).2) hvalid (Nat.lt_of_succ_lt_succ hbound)
      refine ⟨pq',w',?_⟩
      rw [transmitQueued,hpop,Option.bind_some]
      simp only [hloop,hrest]
      rfl

end Loops

/-! ## One call -/

section Call

variable {canTransmit : CanMessage → W → Bool × W} {now : UInt32}
  {schedule : List (ScheduleEntry W)} {txQueue : PriorityQueue} {w : W} {o : Outcome W}

theorem ServesDue.length_eq (h : ServesDue now schedule w o) :
    o.transmitted.length = dueCount now schedule w := by
  obtain ⟨served,htransmitted,hmem,hsorted,-⟩ := h
  have hserved : served.Nodup := by
    refine hsorted.imp ?_
    rintro x y (hlt | ⟨-,hlt⟩) rfl
    · exact UInt32.lt_irrefl _ hlt
    · exact Nat.lt_irrefl _ hlt
  have hnumbered : (numbered 0 (prepared now schedule w)).Nodup := by
    refine (numbered_pairwise 0 _).imp ?_
    rintro x y hlt rfl
    exact Nat.lt_irrefl _ hlt
  have hperm : served.Perm (numbered 0 (prepared now schedule w)) := by
    rw [List.perm_ext_iff_of_nodup hserved hnumbered]
    rintro ⟨i,msg⟩
    rw [hmem,mem_numbered]
    simp
  rw [← htransmitted,List.length_map,hperm.length_eq,numbered_length]
  rfl

/-- The call returns, and what it transmits is what the first loop has left in the queue. -/
theorem hybridScheduler_eq (canTransmit : CanMessage → W → Bool × W) (now : UInt32)
    (schedule : List (ScheduleEntry W)) (w : W) (h : txQueue.Valid) :
    ∃ checked o, enqueueDue now schedule txQueue w = some checked ∧
      hybridScheduler canTransmit schedule txQueue now w = some o ∧ checked.2.1.Valid ∧
      o.transmitted = checked.2.1.contents ∧
      ∀ (i : ℕ) (entry entry' : ScheduleEntry W), schedule[i]? = some entry →
        o.schedule[i]? = some entry' → entry'.msg.timestamp ≠ entry.msg.timestamp →
        ∃ msg, (prepared now schedule w)[i]? = some (some msg) := by
  obtain ⟨schedule',pq,w₁,hfirst,hvalid,htimes⟩ := enqueueDue_isSome now schedule w h
  have hbound : pq.contents.length < pq.count.toNat + 1 := by
    rw [hvalid.length_contents]
    exact Nat.lt_succ_self _
  obtain ⟨pq',w₂,hsecond⟩ := transmitQueued_spec (w := w₁) canTransmit hvalid hbound
  refine ⟨(schedule',pq,w₁),⟨schedule',pq',pq.contents,w₂⟩,hfirst,?_,hvalid,rfl,htimes⟩
  rw [hybridScheduler,hfirst,Option.bind_some,hsecond]
  rfl

/-- A call on an empty queue serves every entry that is due exactly when they all fit the queue. -/
theorem hybridScheduler_iff (canTransmit : CanMessage → W → Bool × W) (now : UInt32)
    (schedule : List (ScheduleEntry W)) (w : W) (hempty : txQueue.count = 0) :
    ∃ o, hybridScheduler canTransmit schedule txQueue now w = some o ∧
      (ServesDue now schedule w o ↔ dueCount now schedule w ≤ maxQueueSize) := by
  have hvalid : txQueue.Valid := by
    rw [PriorityQueue.Valid,hempty]
    exact Nat.zero_le _
  obtain ⟨checked,o,hfirst,ho,hvalid',htransmitted,htimes⟩ :=
    hybridScheduler_eq canTransmit now schedule w hvalid
  refine ⟨o,ho,?_⟩
  constructor
  · intro hserves
    rw [← hserves.length_eq,htransmitted,hvalid'.length_contents]
    exact hvalid'
  · intro hroom
    have hnone : ([] : List (ℕ × CanMessage)).map Prod.snd = txQueue.contents := by
      simp [PriorityQueue.contents,hempty]
    obtain ⟨served,hserved,harranges⟩ := enqueueDue_arranges (i := 0) hvalid hfirst hnone .nil
      (by simpa using hroom)
    rw [List.nil_append] at harranges
    have hmem : ∀ (i : ℕ) (msg : CanMessage), (i,msg) ∈ served ↔
        (prepared now schedule w)[i]? = some (some msg) := by
      intro i msg
      rw [harranges.mem_iff,mem_numbered]
      simp
    refine ⟨served,hserved.trans htransmitted.symm,hmem,?_,?_⟩
    · refine (harranges.lexicographic (numbered_pairwise 0 _)).imp ?_
      rintro x y (hlt | ⟨heq,hlt⟩)
      · exact .inl (UInt32.lt_iff_toNat_lt.mpr hlt)
      · exact .inr ⟨UInt32.toNat_inj.mp heq,hlt⟩
    · intro i entry entry' hentry hentry' hne
      obtain ⟨msg,hmsg⟩ := htimes i entry entry' hentry hentry' hne
      exact ⟨msg,(hmem i msg).mpr hmsg⟩

end Call

/-- A time-triggered entry that sends its identifier with no data. -/
def periodicEntry (id periodMs : UInt32) : ScheduleEntry Unit :=
  ⟨⟨id,Vector.replicate 8 0,0,0⟩,periodMs,none,none⟩

def emptyQueue : PriorityQueue := ⟨Vector.replicate 32 ⟨0,Vector.replicate 8 0,0,0⟩,0⟩

theorem hybridScheduler_iff_threeEntries :
    ∃ o, hybridScheduler (fun _ w => (true,w))
        [periodicEntry 0x200 10,periodicEntry 0x100 10,periodicEntry 0x300 50] emptyQueue 20 () =
        some o ∧
      ServesDue 20 [periodicEntry 0x200 10,periodicEntry 0x100 10,periodicEntry 0x300 50] () o ∧
      o.transmitted.length = 2 := by
  obtain ⟨o,ho,hiff⟩ := hybridScheduler_iff (fun _ w => (true,w)) 20
    [periodicEntry 0x200 10,periodicEntry 0x100 10,periodicEntry 0x300 50] ()
    (show emptyQueue.count = 0 from rfl)
  have hserves := hiff.mpr (by decide +kernel)
  refine ⟨o,ho,hserves,hserves.length_eq.trans ?_⟩
  decide +kernel

/-- Of 33 entries that are due at the same time one is lost. -/
theorem hybridScheduler_iff_crowded :
    ¬ ∀ (canTransmit : CanMessage → Unit → Bool × Unit) (now : UInt32)
      (schedule : List (ScheduleEntry Unit)) (txQueue : PriorityQueue), txQueue.count = 0 →
      ∃ o, hybridScheduler canTransmit schedule txQueue now () = some o ∧
        ServesDue now schedule () o := by
  intro h
  obtain ⟨o,ho,hserves⟩ := h (fun _ w => (true,w)) 20
    (List.replicate 33 (periodicEntry 0x100 10)) emptyQueue rfl
  have hlength := hserves.length_eq
  have hdue : dueCount 20 (List.replicate 33 (periodicEntry 0x100 10)) () = 33 := by
    decide +kernel
  have hsent : (hybridScheduler (fun _ w => (true,w)) (List.replicate 33 (periodicEntry 0x100 10))
      emptyQueue 20 ()).map (fun o => o.transmitted.length) = some 32 := by decide +kernel
  rw [ho,Option.map_some,hlength,hdue] at hsent
  cases hsent

end CanScheduling
end UProtocols
