import UProtocols.Runs

/-!
# The event-triggered CAN scheduler

`CanScheduler` of `CAN_Message_Scheduling.rs`, with times in nanoseconds. What the closures of an
entry return in a call, and the order in which the heap gives messages of one identifier, are
part of the call. An event is queued when the last message of its entry is younger than the
deadline.
-/

namespace UProtocols
namespace CanScheduler

structure CanMessage where
  id : UInt32
  data : Vector UInt8 8
  dlc : UInt8
  timestamp : ℕ
  deriving DecidableEq

/-- `trigger` and `dataProvider` tell whether there is one. -/
structure ScheduleEntry where
  message : CanMessage
  deadline : ℕ
  trigger : Bool
  dataProvider : Bool
  deriving DecidableEq

/-- What the closures return, for each entry by its index. -/
structure Outside where
  fires : ℕ → Bool
  provides : ℕ → Vector UInt8 8 → Vector UInt8 8

/-- `duration_since` is zero for a later instant. -/
def ScheduleEntry.elapsed (entry : ScheduleEntry) (now : ℕ) : ℕ := now - entry.message.timestamp

def ScheduleEntry.prepareMessage (entry : ScheduleEntry)
    (provider : Vector UInt8 8 → Vector UInt8 8) (now : ℕ) : ScheduleEntry :=
  {entry with message := {entry.message with
    data := if entry.dataProvider then provider entry.message.data else entry.message.data
    timestamp := now}}

/-- An entry with a trigger and a positive deadline sent its last message less than the deadline
ago. -/
def ScheduleEntry.Young (entry : ScheduleEntry) (now : ℕ) : Prop :=
  entry.trigger = true → 0 < entry.deadline → entry.elapsed now < entry.deadline

instance (entry : ScheduleEntry) (now : ℕ) : Decidable (entry.Young now) :=
  inferInstanceAs (Decidable (_ → _ → _))

structure Scheduler where
  entries : List ScheduleEntry
  txQueue : List CanMessage
  deriving DecidableEq

/-- The trigger of entry `i` fires and its last message is younger than the deadline. -/
def Sends (now : ℕ) (outside : Outside) (i : ℕ) (entry : ScheduleEntry) : Prop :=
  entry.trigger = true ∧ outside.fires i = true ∧ entry.elapsed now < entry.deadline

instance (now : ℕ) (outside : Outside) (i : ℕ) (entry : ScheduleEntry) :
    Decidable (Sends now outside i entry) := inferInstanceAs (Decidable (_ ∧ _ ∧ _))

/-- The loop of `process_event_triggered` from entry `i` on: the entries after it, and the
messages it queues with the indices of their entries. -/
def eventLoop (now : ℕ) (outside : Outside) :
    ℕ → List ScheduleEntry → List ScheduleEntry × List (ℕ × CanMessage)
  | _, [] => ([],[])
  | i, entry::entries =>
    let rest := eventLoop now outside (i + 1) entries
    if Sends now outside i entry then
      let entry := entry.prepareMessage (outside.provides i) now
      (entry::rest.1,(i,entry.message)::rest.2)
    else (entry::rest.1,rest.2)

inductive Call
  | processEventTriggered (now : ℕ) (outside : Outside)
  | transmitQueue (now : ℕ) (order : List CanMessage)

def Call.now : Call → ℕ
  | processEventTriggered now _ => now
  | transmitQueue now _ => now

/-- The scheduler, the time of the last call and the indices of the entries queued so far. -/
structure State where
  scheduler : Scheduler
  clock : ℕ
  queued : List ℕ

namespace State

/-- Times do not decrease. The heap gives its messages in order of identifier. -/
def step (s : State) : Call → Option State
  | .processEventTriggered now outside =>
    if s.clock ≤ now then
      let result := eventLoop now outside 0 s.scheduler.entries
      some ⟨⟨result.1,s.scheduler.txQueue ++ result.2.map Prod.snd⟩,now,
        s.queued ++ result.2.map Prod.fst⟩
    else none
  | .transmitQueue now order =>
    if s.clock ≤ now ∧ order.Perm s.scheduler.txQueue ∧
        order.Pairwise (fun x y => x.id ≤ y.id) then
      some {s with scheduler.txQueue := [],clock := now}
    else none

def start (entries : List ScheduleEntry) (clock : ℕ) : State := ⟨⟨entries,[]⟩,clock,[]⟩

def run (entries : List ScheduleEntry) (clock : ℕ) (calls : List Call) : Option State :=
  Runs.exec step (start entries clock) calls

/-- Some continuation queues the entry again. -/
def Alive (s : State) (i : ℕ) : Prop :=
  ∃ calls s', Runs.exec step s calls = some s' ∧ s.queued.count i < s'.queued.count i

/-- No entry that has a trigger and a positive deadline is refused for ever. -/
def StaysAlive (s : State) : Prop :=
  ∀ (i : ℕ) (entry : ScheduleEntry), s.scheduler.entries[i]? = some entry → entry.trigger = true →
    0 < entry.deadline → s.Alive i

/-- At time `now` the last message of every such entry is younger than the deadline. -/
def Fresh (s : State) (now : ℕ) : Prop := ∀ entry ∈ s.scheduler.entries, entry.Young now

instance (s : State) (now : ℕ) : Decidable (s.Fresh now) := List.decidableBAll _ _

end State

/-! ## The loop -/

section Loop

variable {now : ℕ} {outside : Outside} {i j : ℕ} {entries : List ScheduleEntry}
  {entry : ScheduleEntry}

theorem eventLoop_entries :
    (eventLoop now outside i entries).1[j]? = entries[j]?.map fun entry =>
      if Sends now outside (i + j) entry then entry.prepareMessage (outside.provides (i + j)) now
      else entry := by
  induction entries generalizing i j with
  | nil => rfl
  | cons first entries ih =>
    have hfirst : (eventLoop now outside i (first::entries)).1 =
        (if Sends now outside i first then first.prepareMessage (outside.provides i) now
          else first)::(eventLoop now outside (i + 1) entries).1 := by
      by_cases hsends : Sends now outside i first
      · rw [eventLoop,if_pos hsends,if_pos hsends]
      · rw [eventLoop,if_neg hsends,if_neg hsends]
    rw [hfirst]
    cases j with
    | zero => rfl
    | succ j =>
      rw [List.getElem?_cons_succ,ih,List.getElem?_cons_succ]
      simp only [show i + 1 + j = i + (j + 1) by omega]

/-- An entry that sends is young before and after. -/
theorem young_prepared (hsends : Sends now outside i entry)
    (provider : Vector UInt8 8 → Vector UInt8 8) :
    (entry.prepareMessage provider now).Young now ↔ entry.Young now := by
  constructor
  · exact fun _ _ _ => hsends.2.2
  · intro _ _ hpos
    show now - now < entry.deadline
    rw [Nat.sub_self]
    exact hpos

theorem mem_eventLoop :
    i + j ∈ (eventLoop now outside i entries).2.map Prod.fst ↔
      ∃ entry, entries[j]? = some entry ∧ Sends now outside (i + j) entry := by
  -- the rest of the loop queues later entries only
  have hlater : ∀ {k : ℕ} {entries : List ScheduleEntry}, ∀ n ∈
      (eventLoop now outside k entries).2.map Prod.fst, k ≤ n := by
    intro k entries
    induction entries generalizing k with
    | nil => simp [eventLoop]
    | cons first entries ih =>
      intro n hn
      by_cases hsends : Sends now outside k first
      · rw [eventLoop,if_pos hsends,List.map_cons,List.mem_cons] at hn
        rcases hn with rfl | hn
        · exact Nat.le_refl _
        · exact Nat.le_of_succ_le (ih n hn)
      · rw [eventLoop,if_neg hsends] at hn
        exact Nat.le_of_succ_le (ih n hn)
  induction entries generalizing i j with
  | nil => simp [eventLoop]
  | cons first entries ih =>
    cases j with
    | zero =>
      have hnot : i ∉ (eventLoop now outside (i + 1) entries).2.map Prod.fst :=
        fun hmem => Nat.not_succ_le_self i (hlater i hmem)
      by_cases hsends : Sends now outside i first
      · rw [eventLoop,if_pos hsends]
        simp [hsends]
      · rw [eventLoop,if_neg hsends]
        simpa [hsends] using hnot
    | succ j =>
      have hrest := ih (i := i + 1) (j := j)
      rw [show i + 1 + j = i + (j + 1) by omega] at hrest
      refine Iff.trans ?_ hrest
      by_cases hsends : Sends now outside i first
      · rw [eventLoop,if_pos hsends]
        simp
      · rw [eventLoop,if_neg hsends]

end Loop

/-! ## Entries that have grown too old -/

namespace State

variable {s s' : State} {i : ℕ} {entry : ScheduleEntry}

theorem clock_step {c : Call} (h : s.step c = some s') : s.clock ≤ c.now ∧ s'.clock = c.now := by
  cases c with
  | processEventTriggered now outside =>
    simp only [step] at h
    split_ifs at h with hclock
    cases h
    exact ⟨hclock,rfl⟩
  | transmitQueue now order =>
    simp only [step] at h
    split_ifs at h with hclock
    cases h
    exact ⟨hclock.1,rfl⟩

/-- An entry whose last message is too old is not queued and stays as it is. -/
theorem stale_step {c : Call} (hentry : s.scheduler.entries[i]? = some entry)
    (hold : entry.deadline ≤ entry.elapsed s.clock) (h : s.step c = some s') :
    s'.scheduler.entries[i]? = some entry ∧ entry.deadline ≤ entry.elapsed s'.clock ∧
      s'.queued.count i = s.queued.count i := by
  obtain ⟨hclock,hclock'⟩ := clock_step h
  have hold' : entry.deadline ≤ entry.elapsed c.now := by
    unfold ScheduleEntry.elapsed at hold ⊢
    omega
  rw [hclock']
  cases c with
  | processEventTriggered now outside =>
    have hnot : ¬ Sends now outside (0 + i) entry := by
      rintro ⟨-,-,hyoung⟩
      exact Nat.not_lt_of_le hold' hyoung
    simp only [step,if_pos (show s.clock ≤ now from hclock)] at h
    cases h
    refine ⟨?_,hold',?_⟩
    · rw [eventLoop_entries,hentry,Option.map_some,if_neg hnot]
    · rw [List.count_append,Nat.add_eq_left,List.count_eq_zero]
      intro hmem
      rw [← Nat.zero_add i,mem_eventLoop] at hmem
      obtain ⟨entry',hentry',hsends⟩ := hmem
      rw [hentry] at hentry'
      cases hentry'
      exact hnot hsends
  | transmitQueue now order =>
    simp only [step] at h
    split_ifs at h
    cases h
    exact ⟨hentry,hold',rfl⟩

theorem stale_run {calls : List Call} (hentry : s.scheduler.entries[i]? = some entry)
    (hold : entry.deadline ≤ entry.elapsed s.clock) (h : Runs.exec step s calls = some s') :
    s'.queued.count i = s.queued.count i := by
  have hinvariant : s'.scheduler.entries[i]? = some entry ∧
      entry.deadline ≤ entry.elapsed s'.clock ∧ s'.queued.count i = s.queued.count i := by
    refine Runs.exec_invariant (I := fun u => u.scheduler.entries[i]? = some entry ∧
      entry.deadline ≤ entry.elapsed u.clock ∧ u.queued.count i = s.queued.count i) ?_ h
      ⟨hentry,hold,rfl⟩
    rintro u c v hstep ⟨hentry,hold,hcount⟩
    obtain ⟨hentry',hold',hcount'⟩ := stale_step hentry hold hstep
    exact ⟨hentry',hold',hcount'.trans hcount⟩
  exact hinvariant.2.2

/-- An entry can be queued again exactly when its last message is younger than the deadline. -/
theorem alive_iff (hentry : s.scheduler.entries[i]? = some entry)
    (htrigger : entry.trigger = true) :
    s.Alive i ↔ entry.elapsed s.clock < entry.deadline := by
  constructor
  · rintro ⟨calls,s',hrun,hmore⟩
    by_contra hold
    have hcount := stale_run hentry (Nat.le_of_not_lt hold) hrun
    omega
  · -- fire every trigger at once
    intro hyoung
    let outside : Outside := ⟨fun _ => true,fun _ data => data⟩
    let result := eventLoop s.clock outside 0 s.scheduler.entries
    refine ⟨[.processEventTriggered s.clock outside],
      ⟨⟨result.1,s.scheduler.txQueue ++ result.2.map Prod.snd⟩,s.clock,
        s.queued ++ result.2.map Prod.fst⟩,?_,?_⟩
    · rw [Runs.exec,step,if_pos (Nat.le_refl _)]
      rfl
    · have hmem : i ∈ (eventLoop s.clock outside 0 s.scheduler.entries).2.map Prod.fst := by
        rw [← Nat.zero_add i,mem_eventLoop]
        exact ⟨entry,hentry,htrigger,rfl,hyoung⟩
      have hpos := List.count_pos_iff.mpr hmem
      show s.queued.count i < (s.queued ++ result.2.map Prod.fst).count i
      rw [List.count_append]
      exact Nat.lt_add_of_pos_right hpos

theorem staysAlive_iff (s : State) : s.StaysAlive ↔ s.Fresh s.clock := by
  constructor
  · intro h entry hmem htrigger hpos
    obtain ⟨i,hi⟩ := List.mem_iff_getElem?.mp hmem
    exact (alive_iff hi htrigger).mp (h i entry hi htrigger hpos)
  · intro h i entry hentry htrigger hpos
    exact (alive_iff hentry htrigger).mpr (h entry (List.mem_of_getElem? hentry) htrigger hpos)

/-! ## Runs -/

/-- A call keeps all entries alive exactly when it finds them all young enough. -/
theorem fresh_step {c : Call} (h : s.step c = some s') : s'.Fresh s'.clock ↔ s.Fresh c.now := by
  rw [(clock_step h).2]
  cases c with
  | processEventTriggered now outside =>
    simp only [step] at h
    split_ifs at h with hclock
    cases h
    have hyoung : ∀ (k : ℕ) (entry : ScheduleEntry),
        (if Sends now outside k entry then entry.prepareMessage (outside.provides k) now
          else entry).Young now ↔ entry.Young now := by
      intro k entry
      by_cases hsends : Sends now outside k entry
      · rw [if_pos hsends,young_prepared hsends]
      · rw [if_neg hsends]
    constructor
    · intro hfresh entry hentry
      obtain ⟨k,hk⟩ := List.mem_iff_getElem?.mp hentry
      apply (hyoung (0 + k) entry).mp
      apply hfresh
      apply List.mem_of_getElem? (i := k)
      rw [eventLoop_entries,hk]
      rfl
    · intro hfresh entry hentry
      obtain ⟨k,hk⟩ := List.mem_iff_getElem?.mp hentry
      rw [eventLoop_entries,Option.map_eq_some_iff] at hk
      obtain ⟨entry',hentry',rfl⟩ := hk
      exact (hyoung (0 + k) entry').mpr (hfresh entry' (List.mem_of_getElem? hentry'))
  | transmitQueue now order =>
    simp only [step] at h
    split_ifs at h
    cases h
    exact Iff.rfl

/-- All states that a run reaches keep their entries alive, exactly when the entries are young at
the start and whenever a call is made. -/
theorem staysAlive_run {entries : List ScheduleEntry} {clock : ℕ} {calls : List Call}
    (hrun : run entries clock calls = some s) :
    (∀ cs s', cs <+: calls → run entries clock cs = some s' → s'.StaysAlive) ↔
      (start entries clock).Fresh clock ∧
        Runs.Along step (fun u c => u.Fresh c.now) (start entries clock) calls := by
  have hstep : ∀ u c v, step u c = some v → True → u.StaysAlive →
      (v.StaysAlive ↔ u.Fresh c.now) := by
    intro u c v huv _ _
    rw [staysAlive_iff,fresh_step huv]
  have hall := Runs.forall_reached_iff (I := fun _ => True) (fun _ _ _ _ h => h) hstep hrun trivial
  rw [staysAlive_iff] at hall
  exact hall

/-- An entry for a button, made at time 0, with a deadline of 50 ms. -/
def buttonEntry : ScheduleEntry := ⟨⟨0x400,Vector.replicate 8 0,1,0⟩,50000000,true,false⟩

theorem staysAlive_run_pressed :
    ∃ s, run [buttonEntry] 0 [.processEventTriggered 40000000 ⟨fun _ => true,fun _ data => data⟩,
        .processEventTriggered 80000000 ⟨fun _ => false,fun _ data => data⟩] = some s ∧
      s.StaysAlive := by
  have hsome : (run [buttonEntry] 0
      [.processEventTriggered 40000000 ⟨fun _ => true,fun _ data => data⟩,
        .processEventTriggered 80000000 ⟨fun _ => false,fun _ data => data⟩]).isSome := by
    decide +kernel
  obtain ⟨s,hs⟩ := Option.isSome_iff_exists.mp hsome
  have hfresh := (staysAlive_run hs).mpr (by decide +kernel)
  exact ⟨s,hs,hfresh _ s (List.prefix_refl _) hs⟩

/-- After 50 ms without an event the button is dead. -/
theorem staysAlive_run_quiet :
    ¬ ∀ (entries : List ScheduleEntry) (clock : ℕ) (calls : List Call) (s : State),
      run entries clock calls = some s → s.StaysAlive := by
  intro h
  have halive := h [buttonEntry] 0
    [.processEventTriggered 50000000 ⟨fun _ => false,fun _ data => data⟩] _ rfl
  rw [staysAlive_iff] at halive
  revert halive
  decide +kernel

end State

end CanScheduler
end UProtocols
