import Mathlib
import UProtocols.CanHybridScheduler
import UProtocols.PolledTimer
import UProtocols.Runs

/-!
# The rates of the hybrid scheduler

The main loop of `CAN_Message_Scheduling.cpp`: `hybrid_scheduler` again and again on one schedule,
with a clock of milliseconds of which it sees the low 32 bits. An entry with a period is a polled
timer, which its trigger may fire early.
-/

namespace UProtocols
namespace CanScheduling

open PolledTimer

variable {W : Type}

/-- A call of `hybrid_scheduler`: what it found and what it did. -/
structure Call (W : Type) where
  time : ℤ
  schedule : List (ScheduleEntry W)
  world : W
  outcome : Outcome W

/-- `current_time` of a call. -/
def Call.now (c : Call W) : UInt32 := UInt32.ofInt c.time

/-- The message of entry `i` is due. -/
def Call.sends (i : ℕ) (c : Call W) : Bool :=
  ((prepared c.now c.schedule c.world)[i]?.getD none).isSome

structure Loop (W : Type) where
  schedule : List (ScheduleEntry W)
  txQueue : PriorityQueue
  world : W
  clock : ℤ
  calls : List (Call W)

namespace Loop

def start (schedule : List (ScheduleEntry W)) (txQueue : PriorityQueue) (world : W) (clock : ℤ) :
    Loop W := ⟨schedule,txQueue,world,clock,[]⟩

/-- One call, at time `now`. -/
def step (canTransmit : CanMessage → W → Bool × W) (s : Loop W) (now : ℤ) : Option (Loop W) :=
  (hybridScheduler canTransmit s.schedule s.txQueue (UInt32.ofInt now) s.world).map fun o =>
    ⟨o.schedule,o.txQueue,o.world,now,s.calls ++ [⟨now,s.schedule,s.world,o⟩]⟩

/-- When the message of entry `i` was sent. -/
def sentAt (i : ℕ) (s : Loop W) : List ℤ := (s.calls.filter (Call.sends i)).map Call.time

end Loop

/-! ## One call -/

section Call

variable {canTransmit : CanMessage → W → Bool × W} {now : UInt32}
  {schedule : List (ScheduleEntry W)} {pq : PriorityQueue} {w : W} {o : Outcome W}

/-- The second loop empties the queue. -/
theorem transmitQueued_count {bound : ℕ} {result : List CanMessage × PriorityQueue × W}
    (h : transmitQueued canTransmit bound pq w = some result) : result.2.1.count = 0 := by
  induction bound generalizing pq w result with
  | zero => simp [transmitQueued] at h
  | succ bound ih =>
    rw [transmitQueued] at h
    obtain ⟨popped,hpop,hloop⟩ := Option.bind_eq_some_iff.mp h
    cases hmsg : popped.2 with
    | none =>
      simp only [hmsg,Option.some.injEq] at hloop
      subst hloop
      rw [pqPop] at hpop
      split_ifs at hpop with hcount
      · cases hpop
        exact hcount
      · obtain ⟨msg,-,hrest⟩ := Option.bind_eq_some_iff.mp hpop
        obtain ⟨messages,-,rfl⟩ := Option.map_eq_some_iff.mp hrest
        cases hmsg
    | some msg =>
      simp only [hmsg] at hloop
      obtain ⟨rest,hrest,rfl⟩ := Option.map_eq_some_iff.mp hloop
      have hcount := ih hrest
      exact hcount

theorem dueCount_le (now : UInt32) (schedule : List (ScheduleEntry W)) (w : W) :
    dueCount now schedule w ≤ schedule.length := by
  have hlen : (prepared now schedule w).length = schedule.length := by
    induction schedule generalizing w with
    | nil => rfl
    | cons entry schedule ih =>
      obtain ⟨w₁,msg,w₂,hcheck,hupdate⟩ | ⟨w₁,hcheck⟩ := due_cases entry now w
      · rw [prepared_due hcheck hupdate,List.length_cons,ih,List.length_cons]
      · rw [prepared_idle hcheck,List.length_cons,ih,List.length_cons]
  rw [← hlen]
  exact List.countP_le_length

theorem enqueueDue_length {result : List (ScheduleEntry W) × PriorityQueue × W}
    (h : enqueueDue now schedule pq w = some result) : result.1.length = schedule.length := by
  induction schedule generalizing pq w result with
  | nil =>
    cases h
    rfl
  | cons entry schedule ih =>
    rw [enqueueDue] at h
    split at h
    · obtain ⟨inserted,-,hmap⟩ := Option.bind_eq_some_iff.mp h
      obtain ⟨rest,hrest,rfl⟩ := Option.map_eq_some_iff.mp hmap
      exact congrArg (· + 1) (ih hrest)
    · obtain ⟨rest,hrest,rfl⟩ := Option.map_eq_some_iff.mp h
      exact congrArg (· + 1) (ih hrest)

/-- The period of the entry has elapsed. -/
def ScheduleEntry.elapsed (entry : ScheduleEntry W) (now : UInt32) : Bool :=
  entry.periodMs > 0 && now - entry.msg.timestamp ≥ entry.periodMs

theorem shouldSend_eq (entry : ScheduleEntry W) (now : UInt32) (w : W) :
    ∃ forced, (entry.shouldSend now w).1 = (forced || entry.elapsed now) ∧
      (entry.triggerFn = none → forced = false) := by
  cases htrigger : entry.triggerFn with
  | none => exact ⟨false,by simp [ScheduleEntry.shouldSend,ScheduleEntry.elapsed,htrigger],by simp⟩
  | some trigger =>
    refine ⟨(trigger w).1,?_,nofun⟩
    simp [ScheduleEntry.shouldSend,ScheduleEntry.elapsed,htrigger,Bool.or_comm]

/-- What a call does to an entry: its message is sent, early or because its period has elapsed,
and counts from now on, or nothing happens to it. -/
theorem enqueueDue_entry {result : List (ScheduleEntry W) × PriorityQueue × W}
    (h : enqueueDue now schedule pq w = some result) {i : ℕ} {entry : ScheduleEntry W}
    (hentry : schedule[i]? = some entry) :
    ∃ entry' forced, result.1[i]? = some entry' ∧ entry'.periodMs = entry.periodMs ∧
      entry'.triggerFn = entry.triggerFn ∧ (entry.triggerFn = none → forced = false) ∧
      ((prepared now schedule w)[i]?.getD none).isSome = (forced || entry.elapsed now) ∧
      entry'.msg.timestamp =
        if forced || entry.elapsed now then now else entry.msg.timestamp := by
  induction schedule generalizing pq w i result with
  | nil => simp at hentry
  | cons first schedule ih =>
    obtain ⟨forced,hforced,hnone⟩ := shouldSend_eq first now w
    obtain ⟨w₁,msg,w₂,hcheck,hupdate⟩ | ⟨w₁,hcheck⟩ := due_cases first now w
    · rw [enqueueDue,hcheck] at h
      simp only [if_true,hupdate] at h
      obtain ⟨inserted,-,hmap⟩ := Option.bind_eq_some_iff.mp h
      obtain ⟨rest,hrest,rfl⟩ := Option.map_eq_some_iff.mp hmap
      rw [prepared_due hcheck hupdate]
      cases i with
      | zero =>
        cases hentry
        rw [hcheck] at hforced
        exact ⟨{entry with msg := {msg with timestamp := now}},forced,rfl,rfl,rfl,hnone,
          hforced,by rw [if_pos hforced.symm]⟩
      | succ i => exact ih hrest hentry
    · rw [enqueueDue_idle hcheck] at h
      obtain ⟨rest,hrest,rfl⟩ := Option.map_eq_some_iff.mp h
      rw [prepared_idle hcheck]
      cases i with
      | zero =>
        cases hentry
        rw [hcheck] at hforced
        exact ⟨entry,forced,rfl,rfl,rfl,hnone,hforced,by rw [← hforced]; rfl⟩
      | succ i => exact ih hrest hentry

end Call

/-! ## The clock -/

theorem ofInt_sub_toNat {a b : ℤ} (hle : b ≤ a) (hlt : a < b + 2^32) :
    ((UInt32.ofInt a - UInt32.ofInt b).toNat : ℤ) = a - b := by
  have hsplit : UInt32.ofInt a = UInt32.ofInt (a - b) + UInt32.ofInt b := by
    rw [← UInt32.ofInt_add,Int.sub_add_cancel]
  rw [hsplit,UInt32.add_sub_cancel,UInt32.ofInt,UInt32.toNat_ofNat']
  omega

theorem elapsed_iff {entry : ScheduleEntry W} {now since : ℤ} (hpos : 0 < entry.periodMs)
    (hstamp : entry.msg.timestamp = UInt32.ofInt since) (hle : since ≤ now)
    (hlt : now < since + 2^32) :
    entry.elapsed (UInt32.ofInt now) = true ↔ (entry.periodMs.toNat : ℤ) ≤ now - since := by
  have hsub := ofInt_sub_toNat hle hlt
  rw [ScheduleEntry.elapsed,hstamp,Bool.and_eq_true,decide_eq_true_iff,decide_eq_true_iff,
    ge_iff_le,UInt32.le_iff_toNat_le]
  constructor
  · intro h
    have := h.2
    omega
  · intro h
    exact ⟨hpos,by omega⟩

/-! ## Runs -/

namespace Loop

section Runs

variable {canTransmit : CanMessage → W → Bool × W} {s t : Loop W} {now start : ℤ} {gap : ℕ}
  {i : ℕ} {entry : ScheduleEntry W}

/-- Every call finds an empty queue that all entries fit into. -/
structure Ready (s : Loop W) : Prop where
  empty : s.txQueue.count = 0
  room : s.schedule.length ≤ maxQueueSize

/-- Every call has served the entries that were due. -/
def Served (s : Loop W) : Prop :=
  ∀ c ∈ s.calls, ServesDue c.now c.schedule c.world c.outcome

/-- Entry `i`, at first `entry`, is a timer that is on time. -/
structure Keeps (start : ℤ) (gap i : ℕ) (entry : ScheduleEntry W) (s : Loop W)
    (current : ScheduleEntry W) (timer : Timer ℤ) : Prop where
  found : s.schedule[i]? = some current
  period : current.periodMs = entry.periodMs
  trigger : current.triggerFn = entry.triggerFn
  fired : timer.fired = s.sentAt i
  onTime : OnTime (entry.periodMs.toNat : ℤ) gap start s.clock timer
  stamp : current.msg.timestamp = UInt32.ofInt timer.since
  since_le : timer.since ≤ s.clock
  /-- The next call comes before the clock has wrapped around. -/
  fresh : s.clock + gap < timer.since + 2^32
  spaced : entry.triggerFn = none → Spaced (entry.periodMs.toNat : ℤ) timer

/-- The call returns, serves what is due and leaves the loop ready. -/
theorem Ready.step (h : s.Ready) (canTransmit : CanMessage → W → Bool × W) (now : ℤ) :
    ∃ o checked, s.step canTransmit now =
        some ⟨o.schedule,o.txQueue,o.world,now,s.calls ++ [⟨now,s.schedule,s.world,o⟩]⟩ ∧
      enqueueDue (UInt32.ofInt now) s.schedule s.txQueue s.world = some checked ∧
      o.schedule = checked.1 ∧ ServesDue (UInt32.ofInt now) s.schedule s.world o ∧
      o.txQueue.count = 0 := by
  obtain ⟨o,ho,hserves⟩ := hybridScheduler_iff canTransmit (UInt32.ofInt now) s.schedule s.world
    h.empty
  have hrun := ho
  rw [hybridScheduler] at hrun
  obtain ⟨checked,hchecked,hsent⟩ := Option.bind_eq_some_iff.mp hrun
  obtain ⟨sent,hloop,rfl⟩ := Option.map_eq_some_iff.mp hsent
  refine ⟨_,checked,?_,hchecked,rfl,hserves.mpr ((dueCount_le _ _ _).trans h.room),
    transmitQueued_count hloop⟩
  rw [Loop.step,ho]
  rfl

theorem sentAt_call (c : Call W) (schedule : List (ScheduleEntry W)) (txQueue : PriorityQueue)
    (world : W) (clock : ℤ) (i : ℕ) :
    sentAt i ⟨schedule,txQueue,world,clock,s.calls ++ [c]⟩ =
      s.sentAt i ++ if c.sends i then [c.time] else [] := by
  by_cases hsends : c.sends i <;> simp [sentAt,hsends]

/-- A call polls the timer of every entry. -/
theorem Keeps.step {current : ScheduleEntry W} {timer : Timer ℤ}
    (h : Keeps start gap i entry s current timer) (hpos : 0 < entry.periodMs)
    (hwrap : entry.periodMs.toNat + gap ≤ 2^32) (hle : s.clock ≤ now) (hgap : now ≤ s.clock + gap)
    {o : Outcome W} {checked : List (ScheduleEntry W) × PriorityQueue × W}
    (hchecked : enqueueDue (UInt32.ofInt now) s.schedule s.txQueue s.world = some checked)
    (hschedule : o.schedule = checked.1) :
    ∃ current' timer', Keeps start gap i entry
      ⟨o.schedule,o.txQueue,o.world,now,s.calls ++ [⟨now,s.schedule,s.world,o⟩]⟩
      current' timer' := by
  obtain ⟨current',forced,hfound,hperiod,htrigger,hforced,hsends,hstamp⟩ :=
    enqueueDue_entry hchecked h.found
  have hposNat : 0 < entry.periodMs.toNat := by
    simpa [UInt32.lt_iff_toNat_lt] using hpos
  have helapsed := elapsed_iff (h.period ▸ hpos) h.stamp (h.since_le.trans hle)
    (lt_of_le_of_lt hgap h.fresh)
  rw [h.period] at helapsed
  have hpoll : (forced || current.elapsed (UInt32.ofInt now)) = true ↔
      forced = true ∨ (entry.periodMs.toNat : ℤ) ≤ now - timer.since := by
    rw [Bool.or_eq_true,helapsed]
  have honTime : OnTime (entry.periodMs.toNat : ℤ) gap start now
      (timer.poll (entry.periodMs.toNat : ℤ) now forced) :=
    h.onTime.poll (by exact_mod_cast hposNat) hgap
  refine ⟨current',timer.poll (entry.periodMs.toNat : ℤ) now forced,?_⟩
  refine ⟨hschedule ▸ hfound,hperiod.trans h.period,htrigger.trans h.trigger,?_,honTime,?_,?_,?_,?_⟩
  · rw [sentAt_call,← h.fired,Call.sends,Call.now,hsends,Timer.poll]
    by_cases hfire : forced = true ∨ (entry.periodMs.toNat : ℤ) ≤ now - timer.since
    · rw [if_pos hfire,if_pos (hpoll.mpr hfire)]
    · rw [if_neg hfire,if_neg (mt hpoll.mp hfire),List.append_nil]
  · rw [hstamp,Timer.poll]
    by_cases hfire : forced = true ∨ (entry.periodMs.toNat : ℤ) ≤ now - timer.since
    · rw [if_pos hfire,if_pos (hpoll.mpr hfire)]
    · rw [if_neg hfire,if_neg (mt hpoll.mp hfire),h.stamp]
  · rw [Timer.poll]
    split_ifs
    · exact le_refl now
    · exact h.since_le.trans hle
  · have hwrap' : (entry.periodMs.toNat : ℤ) + gap ≤ 2^32 := by exact_mod_cast hwrap
    rw [Timer.poll]
    split_ifs with hfire
    · simp only
      omega
    · simp only [not_or] at hfire ⊢
      omega
  · intro hnone
    have hquiet := hforced (h.trigger.trans hnone)
    subst hquiet
    exact (h.spaced hnone).poll h.onTime

/-- From a loop that is ready all calls return, and every timer stays on time. -/
theorem exec_ready (canTransmit : CanMessage → W → Bool × W) {times : List ℤ} (s : Loop W)
    (hready : s.Ready) (hserved : s.Served)
    (htimes : (s.clock :: times).IsChain fun a b => a ≤ b ∧ b ≤ a + (gap : ℤ)) :
    ∃ t, Runs.exec (step canTransmit) s times = some t ∧ t.Served ∧
      ∀ (i : ℕ) (entry : ScheduleEntry W), 0 < entry.periodMs →
        entry.periodMs.toNat + gap ≤ 2^32 →
        (∃ current timer, Keeps start gap i entry s current timer) →
        ∃ current timer, Keeps start gap i entry t current timer := by
  induction times generalizing s with
  | nil => exact ⟨s,rfl,hserved,fun _ _ _ _ h => h⟩
  | cons now times ih =>
    obtain ⟨⟨hle,hgap⟩,hrest⟩ := List.isChain_cons_cons.mp htimes
    obtain ⟨o,checked,hstep,hchecked,hschedule,hserves,hcount⟩ := hready.step canTransmit now
    have hlen : o.schedule.length = s.schedule.length :=
      hschedule ▸ enqueueDue_length hchecked
    obtain ⟨t,ht,htserved,hkeeps⟩ := ih
      ⟨o.schedule,o.txQueue,o.world,now,s.calls ++ [⟨now,s.schedule,s.world,o⟩]⟩
      ⟨hcount,hlen ▸ hready.room⟩ (by
        intro c hc
        obtain hc | hc := List.mem_append.mp hc
        · exact hserved c hc
        · obtain rfl := List.mem_singleton.mp hc
          exact hserves) hrest
    refine ⟨t,Runs.exec_cons.mpr ⟨_,hstep,ht⟩,htserved,?_⟩
    intro i entry hpos hwrap ⟨current,timer,hkeep⟩
    exact hkeeps i entry hpos hwrap (hkeep.step hpos hwrap hle hgap hchecked hschedule)

/-- At the start the timer counts from the timestamp of the entry. -/
theorem keeps_start {schedule : List (ScheduleEntry W)} {txQueue : PriorityQueue} {world : W}
    (hentry : schedule[i]? = some entry) (hpos : 0 < entry.periodMs)
    (hfresh : (UInt32.ofInt start - entry.msg.timestamp).toNat + gap < 2^32) :
    ∃ current timer,
      Keeps start gap i entry (Loop.start schedule txQueue world start) current timer := by
  have hposNat : 0 < entry.periodMs.toNat := by
    simpa [UInt32.lt_iff_toNat_lt] using hpos
  let age := (UInt32.ofInt start - entry.msg.timestamp).toNat
  have hstamp : entry.msg.timestamp = UInt32.ofInt (start - age) := by
    have hage : UInt32.ofInt (age : ℤ) = UInt32.ofInt start - entry.msg.timestamp := by
      rw [← UInt32.toNat_inj,UInt32.ofInt,UInt32.toNat_ofNat']
      omega
    have hsplit : UInt32.ofInt start = UInt32.ofInt (start - age) + UInt32.ofInt (age : ℤ) := by
      rw [← UInt32.ofInt_add,Int.sub_add_cancel]
    rw [hage] at hsplit
    refine (UInt32.add_left_inj (UInt32.ofInt start - entry.msg.timestamp)).mp ?_
    rw [← hsplit,UInt32.add_comm,UInt32.sub_add_cancel]
  refine ⟨entry,⟨start - age,[]⟩,hentry,rfl,rfl,rfl,?_,hstamp,?_,?_,fun _ => List.isChain_nil⟩
  · exact onTime_start (by omega) (by exact_mod_cast hposNat)
  · simp only [Loop.start]
    omega
  · simp only [Loop.start]
    omega

/-- However long the loop runs, it serves what is due in every call, and the message of each entry
with a period is sent less than a period and a gap between calls after it was sent last, at no
call overdue; without a trigger it is sent no more than once in a period. -/
theorem rates (canTransmit : CanMessage → W → Bool × W) (schedule : List (ScheduleEntry W))
    (txQueue : PriorityQueue) (world : W) (start : ℤ) (gap : ℕ) (times : List ℤ)
    (hempty : txQueue.count = 0) (hroom : schedule.length ≤ maxQueueSize)
    (htimes : (start :: times).IsChain fun a b => a ≤ b ∧ b ≤ a + (gap : ℤ)) :
    ∃ s, Runs.exec (step canTransmit) (.start schedule txQueue world start) times = some s ∧
      s.Served ∧ ∀ (i : ℕ) (entry : ScheduleEntry W), schedule[i]? = some entry →
        0 < entry.periodMs → entry.periodMs.toNat + gap ≤ 2^32 →
        (UInt32.ofInt start - entry.msg.timestamp).toNat + gap < 2^32 →
        (start :: s.sentAt i).IsChain (fun a b => b < a + (entry.periodMs.toNat : ℤ) + gap) ∧
        s.clock < (s.sentAt i).getLast?.getD start + entry.periodMs.toNat ∧
        (entry.triggerFn = none →
          (s.sentAt i).IsChain fun a b => a + (entry.periodMs.toNat : ℤ) ≤ b) := by
  obtain ⟨s,hs,hserved,hkeeps⟩ := exec_ready canTransmit (.start schedule txQueue world start)
    ⟨hempty,hroom⟩ (fun _ h => absurd h List.not_mem_nil) htimes
  refine ⟨s,hs,hserved,fun i entry hentry hpos hwrap hfresh => ?_⟩
  obtain ⟨current,timer,hkeep⟩ := hkeeps i entry hpos hwrap (keeps_start hentry hpos hfresh)
  have hlate := hkeep.onTime.late
  have hdue := hkeep.onTime.due
  rw [hkeep.fired] at hlate
  rw [Timer.latest,hkeep.fired] at hdue
  refine ⟨hlate,hdue,fun hnone => ?_⟩
  have hspaced := hkeep.spaced hnone
  rw [Spaced,hkeep.fired] at hspaced
  exact hspaced

end Runs

def wrapTimes : List ℤ := [2^32 - 4,2^32,2^32 + 4,2^32 + 8,2^32 + 12]

/-- An entry of 10 ms, called every 4 ms while the 32 bits of the clock wrap around. -/
theorem rates_wrapAround :
    ∃ s, Runs.exec (step fun _ w => (true,w))
        (.start [periodicEntry 0x100 10] emptyQueue () (2^32 - 8)) wrapTimes = some s ∧
      s.sentAt 0 = [2^32 - 4,2^32 + 8] ∧
      (s.sentAt 0).IsChain fun a b => a + (10 : ℤ) ≤ b := by
  obtain ⟨s,hs,-,hrates⟩ := rates (fun _ w => (true,w)) [periodicEntry 0x100 10] emptyQueue ()
    (2^32 - 8) 4 wrapTimes rfl (by decide) (by decide)
  obtain ⟨-,-,hspaced⟩ := hrates 0 _ rfl (by decide) (by decide) (by decide)
  have hsent : (Runs.exec (step fun _ w => (true,w))
      (.start [periodicEntry 0x100 10] emptyQueue () (2^32 - 8)) wrapTimes).map (sentAt 0) =
        some [2^32 - 4,2^32 + 8] := by decide +kernel
  rw [hs] at hsent
  exact ⟨s,hs,Option.some.inj hsent,hspaced rfl⟩

end Loop

end CanScheduling
end UProtocols
