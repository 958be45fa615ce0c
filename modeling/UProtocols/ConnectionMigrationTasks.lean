import Mathlib.Logic.Function.Basic
import UProtocols.ConnectionMigration

/-!
# Concurrent senders of the migrating client

Tasks call `send_message` and handle `Ack` messages on one client; each critical section is one
step. A task takes its number under one lock and queues its message under another, so the order
of the queue is the order in which the tasks come to the second lock.
-/

namespace UProtocols
namespace ConnectionMigration

open NumberedQueue

/-- Where a task stands between its critical sections. -/
inductive Task
  | idle
  | numbered (sequence : ℕ) (payload : String)
  | queued (sequence : ℕ) (payload : String)
  | acknowledged (sequence : ℕ)
  deriving DecidableEq

/-- A number that was taken for a message that is not yet queued. -/
def Task.number : Task → Option ℕ
  | numbered sequence _ => some sequence
  | _ => none

inductive Section
  | takeNumber (payload : String)
  | pushBack (time : Option ℕ)
  | checkState
  | storeAck (sequence : ℕ)
  | cleanupAcked
  deriving DecidableEq

variable {T : Type} [DecidableEq T]

structure System (T : Type) where
  client : WebSocketMigration
  tasks : T → Task

namespace System

/-- Task `t` goes through a critical section; a task whose clock fails returns an error. -/
def step (s : System T) (e : T × Section) : Option (System T) :=
  let goto := fun client task => some ⟨client,Function.update s.tasks e.1 task⟩
  match s.tasks e.1, e.2 with
  | .idle, .takeNumber payload =>
    goto s.client.takeNumber.2 (.numbered s.client.takeNumber.1 payload)
  | .numbered _ _, .pushBack none => goto s.client .idle
  | .numbered sequence payload, .pushBack (some timestamp) =>
    goto (s.client.pushBack ⟨sequence,payload,timestamp⟩) (.queued sequence payload)
  | .queued _ _, .checkState => goto s.client .idle
  | .idle, .storeAck sequence =>
    goto {s.client with lastAckedSequence := sequence} (.acknowledged sequence)
  | .acknowledged sequence, .cleanupAcked => goto (s.client.cleanupAckedMessages sequence) .idle
  | _, _ => none

def start : System T := ⟨.new,fun _ => .idle⟩

def run (events : List (T × Section)) : Option (System T) := Runs.exec step start events

/-- The queue is in order, and cleaning it up removes all that an `Ack` covers. -/
def Ordered (s : System T) : Prop :=
  Increasing QueuedMessage.sequenceNum s.client.pendingMessages ∧
    ∀ a, ∀ msg ∈ (s.client.cleanupAckedMessages a).pendingMessages, a < msg.sequenceNum

/-- The number of the message that a step queues. -/
def pushes (s : System T) (e : T × Section) : Option ℕ :=
  match e.2 with
  | .pushBack (some _) => (s.tasks e.1).number
  | _ => none

/-- A task that queues its message finds no larger number in the queue. -/
def InTurn (s : System T) (e : T × Section) : Prop :=
  ∀ sequence ∈ s.pushes e, ∀ msg ∈ s.client.pendingMessages, msg.sequenceNum ≤ sequence

instance (s : System T) (e : T × Section) : Decidable (s.InTurn e) :=
  inferInstanceAs (Decidable (∀ sequence ∈ s.pushes e, ∀ msg ∈ s.client.pendingMessages, _))

/-- Every number was taken once. -/
structure Numbered (s : System T) : Prop where
  queued : ∀ msg ∈ s.client.pendingMessages, msg.sequenceNum < s.client.nextSequenceNum
  taken : ∀ t n, (s.tasks t).number = some n →
    n < s.client.nextSequenceNum ∧ ∀ msg ∈ s.client.pendingMessages, msg.sequenceNum ≠ n
  distinct : ∀ t u n, (s.tasks t).number = some n → (s.tasks u).number = some n → t = u

variable {s s' : System T} {e : T × Section}

/-- The sections of a task that nobody disturbs are one call of `send_message`. -/
theorem exec_sendMessage {t : T} (hidle : s.tasks t = .idle) (payload : String) (timestamp : ℕ) :
    Runs.exec step s [(t,.takeNumber payload),(t,.pushBack (some timestamp)),(t,.checkState)] =
      some ⟨(s.client.sendMessage payload (some timestamp)).2,s.tasks⟩ := by
  have hback : Function.update s.tasks t .idle = s.tasks := by rw [← hidle,Function.update_eq_self]
  simp [Runs.exec,step,hidle,hback,WebSocketMigration.sendMessage]

/-- The sections of a handler are what `handle_message` does with an `Ack`. -/
theorem exec_handleMessage {t : T} (hidle : s.tasks t = .idle) (sequence : ℕ) (pongOk : Bool) :
    Runs.exec step s [(t,.storeAck sequence),(t,.cleanupAcked)] =
      some ⟨(s.client.handleMessage (some (.ack sequence)) pongOk).2,s.tasks⟩ := by
  have hback : Function.update s.tasks t .idle = s.tasks := by rw [← hidle,Function.update_eq_self]
  simp [Runs.exec,step,hidle,hback,WebSocketMigration.handleMessage]

omit [DecidableEq T] in
theorem ordered_iff :
    s.Ordered ↔ Increasing QueuedMessage.sequenceNum s.client.pendingMessages :=
  and_iff_left_of_imp fun h _ _ hmsg => ((mem_acknowledge h).mp hmsg).2

/-- A step takes a number, queues a message, or at most shortens the queue. -/
theorem step_cases (h : s.step e = some s') :
    (s.pushes e = none ∧ ∃ payload, s' = ⟨s.client.takeNumber.2,
      Function.update s.tasks e.1 (.numbered s.client.takeNumber.1 payload)⟩) ∨
    (∃ msg, s.pushes e = some msg.sequenceNum ∧ (s.tasks e.1).number = some msg.sequenceNum ∧
      s' = ⟨s.client.pushBack msg,
        Function.update s.tasks e.1 (.queued msg.sequenceNum msg.payload)⟩) ∨
    (s.pushes e = none ∧ ∃ client task, s' = ⟨client,Function.update s.tasks e.1 task⟩ ∧
      task.number = none ∧ client.nextSequenceNum = s.client.nextSequenceNum ∧
      client.pendingMessages.Sublist s.client.pendingMessages) := by
  unfold step at h
  split at h
  all_goals rename_i htask haction
  all_goals cases h
  · refine .inl ⟨?_,_,rfl⟩
    simp only [pushes,haction]
  · refine .inr (.inr ⟨?_,_,_,rfl,rfl,rfl,List.Sublist.refl _⟩)
    simp only [pushes,haction]
  · refine .inr (.inl ⟨⟨_,_,_⟩,?_,?_,rfl⟩)
    · simp only [pushes,haction,htask,Task.number]
    · simp only [htask,Task.number]
  · refine .inr (.inr ⟨?_,_,_,rfl,rfl,rfl,List.Sublist.refl _⟩)
    simp only [pushes,haction]
  · refine .inr (.inr ⟨?_,_,_,rfl,rfl,rfl,List.Sublist.refl _⟩)
    simp only [pushes,haction]
  · refine .inr (.inr ⟨?_,_,_,rfl,rfl,rfl,acknowledge_sublist⟩)
    simp only [pushes,haction]

/-- A task that holds a number after another one moved on held it before. -/
theorem number_update {t u : T} {task : Task} {n : ℕ} (htask : task.number = none)
    (h : (Function.update s.tasks t task u).number = some n) :
    u ≠ t ∧ (s.tasks u).number = some n := by
  by_cases hu : u = t
  · rw [hu,Function.update_self,htask] at h
    cases h
  · rw [Function.update_of_ne hu] at h
    exact ⟨hu,h⟩

omit [DecidableEq T] in
theorem start_numbered : (start : System T).Numbered where
  queued := fun msg hmsg => absurd hmsg List.not_mem_nil
  taken := fun t n h => by cases h
  distinct := fun t u n h => by cases h

/-- The task that takes a number is the only one to hold it. -/
theorem takeNumber_numbered {t : T} {payload : String} (hs : s.Numbered) :
    Numbered ⟨s.client.takeNumber.2,
      Function.update s.tasks t (.numbered s.client.takeNumber.1 payload)⟩ := by
  have hnumber : ∀ u n, (Function.update s.tasks t
      (.numbered s.client.takeNumber.1 payload) u).number = some n →
      u = t ∧ n = s.client.nextSequenceNum ∨ u ≠ t ∧ (s.tasks u).number = some n := by
    intro u n hn
    by_cases hu : u = t
    · rw [hu,Function.update_self] at hn
      cases hn
      exact .inl ⟨hu,rfl⟩
    · rw [Function.update_of_ne hu] at hn
      exact .inr ⟨hu,hn⟩
  constructor
  · exact fun msg hmsg => Nat.lt_succ_of_lt (hs.queued msg hmsg)
  · intro u n hn
    rcases hnumber u n hn with ⟨-,rfl⟩ | ⟨-,hn⟩
    · exact ⟨Nat.lt_succ_self _,fun msg hmsg => Nat.ne_of_lt (hs.queued msg hmsg)⟩
    · exact ⟨Nat.lt_succ_of_lt (hs.taken u n hn).1,(hs.taken u n hn).2⟩
  · intro u v n hu hv
    rcases hnumber u n hu with ⟨rfl,rfl⟩ | ⟨-,hu⟩
    · rcases hnumber v _ hv with ⟨rfl,-⟩ | ⟨-,hv⟩
      · rfl
      · exact absurd (hs.taken v _ hv).1 (Nat.lt_irrefl _)
    · rcases hnumber v n hv with ⟨-,rfl⟩ | ⟨-,hv⟩
      · exact absurd (hs.taken u _ hu).1 (Nat.lt_irrefl _)
      · exact hs.distinct u v n hu hv

theorem numbered_step (h : s.step e = some s') (hs : s.Numbered) : s'.Numbered := by
  rcases step_cases h with ⟨-,payload,rfl⟩ | ⟨new,-,hnew,rfl⟩ | ⟨-,client,task,rfl,htask,hnext,hsub⟩
  · exact takeNumber_numbered hs
  · constructor
    · intro msg hmsg
      rcases List.mem_append.mp hmsg with hmsg | hmsg
      · exact hs.queued msg hmsg
      · cases List.mem_singleton.mp hmsg
        exact (hs.taken _ _ hnew).1
    · intro u n hn
      obtain ⟨hu,hn⟩ := number_update rfl hn
      refine ⟨(hs.taken u n hn).1,fun msg hmsg => ?_⟩
      rcases List.mem_append.mp hmsg with hmsg | hmsg
      · exact (hs.taken u n hn).2 msg hmsg
      · -- only the task that queued the message held its number
        cases List.mem_singleton.mp hmsg
        rintro rfl
        exact hu (hs.distinct u e.1 _ hn hnew)
    · intro u v n hu hv
      exact hs.distinct u v n (number_update rfl hu).2 (number_update rfl hv).2
  · constructor
    · intro msg hmsg
      exact Nat.lt_of_lt_of_eq (hs.queued msg (hsub.subset hmsg)) hnext.symm
    · intro u n hn
      obtain ⟨hlt,hne⟩ := hs.taken u n (number_update htask hn).2
      exact ⟨Nat.lt_of_lt_of_eq hlt hnext.symm,fun msg hmsg => hne msg (hsub.subset hmsg)⟩
    · intro u v n hu hv
      exact hs.distinct u v n (number_update htask hu).2 (number_update htask hv).2

/-- A step keeps the order exactly when it does not queue a message behind a later one. -/
theorem ordered_step (h : s.step e = some s') (hs : s.Numbered) (ho : s.Ordered) :
    s'.Ordered ↔ s.InTurn e := by
  have hincreasing := ordered_iff.mp ho
  rw [ordered_iff]
  rcases step_cases h with ⟨hpushes,payload,rfl⟩ | ⟨new,hpushes,hnew,rfl⟩ |
    ⟨hpushes,client,task,rfl,-,-,hsub⟩
  · refine iff_of_true hincreasing ?_
    simp [InTurn,hpushes]
  · have hne := (hs.taken _ _ hnew).2
    simp only [WebSocketMigration.pushBack,increasing_snoc,InTurn,hpushes,Option.mem_some_iff,
      forall_eq']
    constructor
    · exact fun hlast msg hmsg => Nat.le_of_lt (hlast.2 msg hmsg)
    · intro hle
      refine ⟨hincreasing,fun msg hmsg => ?_⟩
      exact Nat.lt_of_le_of_ne (hle msg hmsg) (hne msg hmsg)
  · refine iff_of_true (hincreasing.sublist hsub) ?_
    simp [InTurn,hpushes]

/-- The queue is in order all along an interleaving, exactly when the tasks queue their messages
in the order of their numbers, as far as these are still queued. -/
theorem queueOrdered_run {events : List (T × Section)} (hrun : run events = some s) :
    (∀ es u, es <+: events → run es = some u → u.Ordered) ↔
      Runs.Along step InTurn start events := by
  have hall := Runs.forall_reached_iff (fun _ _ _ => numbered_step) (fun _ _ _ => ordered_step)
    hrun start_numbered
  have hstart : (start : System T).Ordered := ordered_iff.mpr List.Pairwise.nil
  exact hall.trans (and_iff_right hstart)

/-- Task `1` takes the second number, and queues its message after task `0`. -/
theorem queueOrdered_run_inTurn :
    ∃ s : System ℕ, run [(0,.takeNumber "a"),(1,.takeNumber "b"),(0,.pushBack (some 0)),
      (1,.pushBack (some 0)),(2,.storeAck 0),(2,.cleanupAcked)] = some s ∧ s.Ordered := by
  have hsome : (run [(0,.takeNumber "a"),(1,.takeNumber "b"),(0,.pushBack (some 0)),
      (1,.pushBack (some 0)),(2,.storeAck 0),(2,.cleanupAcked)] :
      Option (System ℕ)).isSome = true := rfl
  obtain ⟨s,hs⟩ := Option.isSome_iff_exists.mp hsome
  exact ⟨s,hs,(queueOrdered_run hs).mpr (by decide +kernel) _ s (List.prefix_refl _) hs⟩

/-- Task `1` overtakes task `0` between the two locks. -/
theorem queueOrdered_run_overtaken :
    ¬ ∀ (events : List (ℕ × Section)) (s : System ℕ), run events = some s → s.Ordered := by
  intro h
  have hordered := h [(0,.takeNumber "a"),(1,.takeNumber "b"),(1,.pushBack (some 0)),
    (0,.pushBack (some 0))] _ rfl
  have hleft := hordered.2 0 ⟨0,"a",0⟩
  revert hleft
  decide +kernel

end System

end ConnectionMigration
end UProtocols
