import UProtocols.Runs
import UProtocols.StableOrder
import Mathlib.Data.List.Basic
import Mathlib.Order.Nat

/-!
# The CAN priority queue

`priority_queue_t` of `CAN_Message_Scheduling.cpp`: messages in an array of fixed size, shifted
by one place for every insertion and removal. An access outside the array is undefined and gives
`none`.
-/

namespace UProtocols
namespace CanScheduling

open StableOrder (Arranges takeFirst)

structure CanMessage where
  id : UInt32
  data : Vector UInt8 8
  dlc : UInt8
  timestamp : UInt32
  deriving DecidableEq

/-- A lower identifier goes first. -/
def CanMessage.priority (msg : CanMessage) : ℕ := msg.id.toNat

def maxQueueSize : ℕ := 32

abbrev Slots := Vector CanMessage maxQueueSize

def store (messages : Slots) (i : ℕ) (msg : CanMessage) : Option Slots :=
  if i < maxQueueSize then some (messages.setIfInBounds i msg) else none

structure PriorityQueue where
  messages : Slots
  count : UInt8
  deriving DecidableEq

def pqInit (pq : PriorityQueue) : PriorityQueue := {pq with count := 0}

/-- The loop of `pq_insert`. The number taken and returned is `i + 1`, since `i` may go down
to -1. -/
def insertLoop (msg : CanMessage) : ℕ → Slots → Option (Slots × ℕ)
  | 0, messages => some (messages,0)
  | i + 1, messages =>
    messages[i]?.bind fun other =>
      if other.id > msg.id then (store messages (i + 1) other).bind (insertLoop msg i)
      else some (messages,i + 1)

def pqInsert (pq : PriorityQueue) (msg : CanMessage) : Option (PriorityQueue × Bool) :=
  if pq.count.toNat ≥ maxQueueSize then some (pq,false)
  else (insertLoop msg pq.count.toNat pq.messages).bind fun result =>
    (store result.1 result.2 msg).map fun messages => (⟨messages,pq.count + 1⟩,true)

/-- The loop of `pq_pop` from `i` on, with the number of iterations that are left. -/
def popLoop : ℕ → ℕ → Slots → Option Slots
  | 0, _, messages => some messages
  | left + 1, i, messages =>
    messages[i + 1]?.bind fun other => (store messages i other).bind (popLoop left (i + 1))

def pqPop (pq : PriorityQueue) : Option (PriorityQueue × Option CanMessage) :=
  if pq.count = 0 then some (pq,none)
  else pq.messages[0]?.bind fun msg =>
    (popLoop (pq.count.toNat - 1) 0 pq.messages).map fun messages =>
      (⟨messages,pq.count - 1⟩,some msg)

/-! ## The array as a list -/

def PriorityQueue.contents (pq : PriorityQueue) : List CanMessage :=
  pq.messages.toList.take pq.count.toNat

theorem take_set_self {α : Type} {l : List α} {k : ℕ} (h : k < l.length) (x : α) :
    (l.set k x).take (k + 1) = l.take k ++ [x] := by
  rw [List.take_add_one,List.take_set_of_le (Nat.le_refl k)]
  simp [h]

theorem store_eq {messages : Slots} {i : ℕ} {msg : CanMessage} (h : i < maxQueueSize) :
    store messages i msg = some (messages.setIfInBounds i msg) := if_pos h

theorem exists_slot (messages : Slots) {i : ℕ} (h : i < maxQueueSize) :
    ∃ msg, messages[i]? = some msg ∧ messages.toList.take (i + 1) = messages.toList.take i ++ [msg] := by
  have hslot : messages[i]? = some messages[i] := Vector.getElem?_eq_getElem h
  refine ⟨messages[i],hslot,?_⟩
  rw [List.take_add_one,Vector.getElem?_toList,hslot]
  rfl

/-- The loop of `pq_insert` makes room behind the last message that is not larger. -/
theorem insertLoop_spec (msg : CanMessage) {i : ℕ} (messages : Slots) (hi : i < maxQueueSize) :
    ∃ messages' front back, insertLoop msg i messages = some (messages',front.length) ∧
      messages.toList.take i = front ++ back ∧ (∀ x ∈ back, msg.id < x.id) ∧
      (∀ x ∈ front.getLast?, x.id ≤ msg.id) ∧
      (messages'.toList.set front.length msg).take (i + 1) = front ++ msg::back ∧
      ∀ j, i < j → messages'.toList[j]? = messages.toList[j]? := by
  induction i generalizing messages with
  | zero =>
    refine ⟨messages,[],[],rfl,by simp,by simp,by simp,?_,fun _ _ => rfl⟩
    exact take_set_self (by simpa using hi) msg
  | succ i ih =>
    obtain ⟨other,hslot,htake⟩ := exists_slot messages (Nat.lt_of_succ_lt hi)
    by_cases hlarger : msg.id < other.id
    · -- the message moves up by one place
      obtain ⟨messages',front,back,hloop,hsplit,hback,hfront,hresult,hframe⟩ :=
        ih (messages.setIfInBounds (i + 1) other) (Nat.lt_of_succ_lt hi)
      rw [Vector.toList_setIfInBounds,List.take_set_of_le (Nat.le_succ i)] at hsplit
      have hlength : front.length ≤ i := by
        have := congrArg List.length hsplit
        simp only [List.length_take,List.length_append] at this
        omega
      refine ⟨messages',front,back ++ [other],?_,?_,?_,hfront,?_,?_⟩
      · rw [insertLoop,hslot,Option.bind_some,if_pos hlarger,store_eq hi]
        exact hloop
      · rw [htake,hsplit,List.append_assoc]
      · intro x hx
        rcases List.mem_append.mp hx with hx | hx
        · exact hback x hx
        · rw [List.mem_singleton.mp hx]
          exact hlarger
      · have hmoved : messages'.toList[i + 1]? = some other := by
          rw [hframe (i + 1) (Nat.lt_succ_self i),Vector.toList_setIfInBounds,
            List.getElem?_set_self (by simpa using hi)]
        rw [List.take_add_one,hresult,List.getElem?_set_ne (by omega),hmoved]
        simp
      · intro j hj
        rw [hframe j (by omega),Vector.toList_setIfInBounds,List.getElem?_set_ne (by omega)]
    · refine ⟨messages,messages.toList.take (i + 1),[],?_,by simp,by simp,?_,?_,fun _ _ => rfl⟩
      · rw [insertLoop,hslot,Option.bind_some,if_neg hlarger]
        simp only [List.length_take,Vector.length_toList]
        rw [Nat.min_eq_left (Nat.le_of_lt hi)]
      · rw [htake]
        simpa using hlarger
      · have hlength : (messages.toList.take (i + 1)).length = i + 1 := by
          simp only [List.length_take,Vector.length_toList]
          exact Nat.min_eq_left (Nat.le_of_lt hi)
        rw [hlength]
        exact take_set_self (by simpa using hi) msg

/-- The loop of `pq_pop` moves every message down by one place. -/
theorem popLoop_spec (left i : ℕ) (messages : Slots) (h : i + left < maxQueueSize) :
    ∃ messages', popLoop left i messages = some messages' ∧
      messages'.toList.take (i + left) =
        messages.toList.take i ++ (messages.toList.drop (i + 1)).take left := by
  induction left generalizing i messages with
  | zero => exact ⟨messages,rfl,by simp⟩
  | succ left ih =>
    have hi : i + 1 < maxQueueSize := by omega
    have hlength : i + 1 < messages.toList.length := by simpa using hi
    obtain ⟨messages',hloop,htake⟩ :=
      ih (i + 1) (messages.setIfInBounds i messages[i + 1]) (by omega)
    refine ⟨messages',?_,?_⟩
    · rw [popLoop,Vector.getElem?_eq_getElem hi,Option.bind_some,store_eq (Nat.lt_of_succ_lt hi)]
      exact hloop
    · have hdrop : messages.toList.drop (i + 1) =
          messages[i + 1]::messages.toList.drop (i + 1 + 1) := by
        rw [List.drop_eq_getElem_cons hlength,Vector.getElem_toList]
      rw [hdrop,List.take_succ_cons,show i + (left + 1) = i + 1 + left by omega,htake,
        Vector.toList_setIfInBounds,take_set_self (Nat.lt_of_succ_lt hlength),
        List.drop_set_of_lt (by omega)]
      simp

/-! ## The operations on the list -/

namespace PriorityQueue

variable {pq : PriorityQueue}

/-- The number of messages fits the array. -/
def Valid (pq : PriorityQueue) : Prop := pq.count.toNat ≤ maxQueueSize

theorem Valid.length_contents (h : pq.Valid) : pq.contents.length = pq.count.toNat := by
  have hlength : pq.messages.toList.length = maxQueueSize := Vector.length_toList
  rw [contents,List.length_take,hlength]
  exact Nat.min_eq_left h

theorem pqInsert_full (h : pq.Valid) (hfull : pq.contents.length = maxQueueSize)
    (msg : CanMessage) : pqInsert pq msg = some (pq,false) := by
  rw [h.length_contents] at hfull
  exact if_pos (Nat.le_of_eq hfull.symm)

theorem pqInsert_ok (h : pq.Valid) (hroom : pq.contents.length < maxQueueSize)
    (msg : CanMessage) :
    ∃ pq' front back, pqInsert pq msg = some (pq',true) ∧ pq'.Valid ∧
      pq.contents = front ++ back ∧ pq'.contents = front ++ msg::back ∧
      (∀ x ∈ back, msg.id < x.id) ∧ ∀ x ∈ front.getLast?, x.id ≤ msg.id := by
  rw [h.length_contents] at hroom
  have hroom' : pq.count.toNat < 32 := hroom
  obtain ⟨messages,front,back,hloop,hsplit,hback,hfront,hresult,-⟩ :=
    insertLoop_spec msg pq.messages hroom
  have hlength : front.length < maxQueueSize := by
    have hle := congrArg List.length hsplit
    simp only [List.length_take,List.length_append] at hle
    omega
  have hcount : (pq.count + 1).toNat = pq.count.toNat + 1 := by
    rw [UInt8.toNat_add]
    exact Nat.mod_eq_of_lt (by simp; omega)
  refine ⟨⟨messages.setIfInBounds front.length msg,pq.count + 1⟩,front,back,?_,?_,hsplit,?_,hback,
    hfront⟩
  · rw [pqInsert,if_neg (Nat.not_le_of_lt hroom),hloop,Option.bind_some,store_eq hlength]
    rfl
  · show (pq.count + 1).toNat ≤ maxQueueSize
    rw [hcount]
    exact hroom
  · show (messages.setIfInBounds front.length msg).toList.take (pq.count + 1).toNat = _
    rw [hcount,Vector.toList_setIfInBounds]
    exact hresult

theorem pqPop_nil (h : pq.Valid) (hempty : pq.contents = []) : pqPop pq = some (pq,none) := by
  have hlength := h.length_contents
  rw [hempty] at hlength
  exact if_pos (UInt8.toNat_inj.mp hlength.symm)

theorem pqPop_cons (h : pq.Valid) {msg : CanMessage} {rest : List CanMessage}
    (hcontents : pq.contents = msg::rest) :
    ∃ pq', pqPop pq = some (pq',some msg) ∧ pq'.Valid ∧ pq'.contents = rest := by
  have hlength := h.length_contents
  have hle : pq.count.toNat ≤ 32 := h
  rw [hcontents,List.length_cons] at hlength
  have hne : pq.count ≠ 0 := by
    intro hzero
    rw [hzero] at hlength
    simp at hlength
  have hone : (1 : UInt8) ≤ pq.count := by
    rw [UInt8.le_iff_toNat_le]
    simp
    omega
  have hcount : (pq.count - 1).toNat = rest.length := by
    rw [UInt8.toNat_sub_of_le _ _ hone]
    simp
    omega
  have hfirst : pq.messages[0]? = some msg := by
    have hhead := congrArg (·[0]?) hcontents
    simpa [contents,List.getElem?_take,← hlength] using hhead
  obtain ⟨messages,hloop,htake⟩ := popLoop_spec (pq.count.toNat - 1) 0 pq.messages
    (by simp [maxQueueSize]; omega)
  refine ⟨⟨messages,pq.count - 1⟩,?_,?_,?_⟩
  · rw [pqPop,if_neg hne,hfirst,Option.bind_some,hloop]
    rfl
  · show (pq.count - 1).toNat ≤ 32
    omega
  · show messages.toList.take (pq.count - 1).toNat = rest
    have hrest : (pq.messages.toList.drop 1).take rest.length = rest := by
      have htail := congrArg List.tail hcontents
      rw [contents,← hlength,← List.drop_one,List.drop_take] at htail
      exact htail
    rw [Nat.zero_add,show pq.count.toNat - 1 = rest.length by omega] at htake
    rw [hcount,htake]
    exact hrest

/-- An insertion into an ordered queue goes behind the messages of its identifier. `f` gives the
message of an item. -/
theorem arranges_insert {α : Type} {f : α → CanMessage} {pending front back : List α} {x : α}
    (h : Arranges (fun y => (f y).priority) pending (front ++ back))
    (hfront : ∀ y ∈ front.getLast?, (f y).id ≤ (f x).id)
    (hback : ∀ y ∈ back, (f x).id < (f y).id) :
    Arranges (fun y => (f y).priority) (pending ++ [x]) (front ++ x::back) := by
  refine h.insert ?_ fun y hy => UInt32.lt_iff_toNat_lt.mp (hback y hy)
  intro y hy
  obtain ⟨first,last,rfl⟩ := front.eq_nil_or_concat'.resolve_left (List.ne_nil_of_mem hy)
  have hlast : (f last).priority ≤ (f x).priority :=
    UInt32.le_iff_toNat_le.mp (hfront last (by simp))
  rcases List.mem_append.mp hy with hy | hy
  · have hsorted := (List.pairwise_append.mp (List.pairwise_append.mp h.sorted).1).2.2
    exact (hsorted y hy last (by simp)).trans hlast
  · rw [List.mem_singleton.mp hy]
    exact hlast

end PriorityQueue

/-! ## Runs -/

inductive Op
  | insert (msg : CanMessage)
  | pop
  deriving DecidableEq

inductive Answer
  | inserted (ok : Bool)
  | popped (msg : Option CanMessage)
  deriving DecidableEq

/-- The queue and what the calls returned. -/
structure State where
  queue : PriorityQueue
  answers : List Answer
  deriving DecidableEq

namespace State

def step (s : State) : Op → Option State
  | .insert msg => (pqInsert s.queue msg).map fun result =>
    ⟨result.1,s.answers ++ [.inserted result.2]⟩
  | .pop => (pqPop s.queue).map fun result => ⟨result.1,s.answers ++ [.popped result.2]⟩

def run (pq : PriorityQueue) (ops : List Op) : Option State := Runs.exec step ⟨pqInit pq,[]⟩ ops

end State

/-- What the queue is for: up to 32 messages in the order they came, of which the earliest with
the lowest identifier is served first. -/
structure Spec where
  pending : List CanMessage
  answers : List Answer
  deriving DecidableEq

namespace Spec

def step (s : Spec) : Op → Spec
  | .insert msg =>
    if s.pending.length < maxQueueSize then
      ⟨s.pending ++ [msg],s.answers ++ [.inserted true]⟩
    else ⟨s.pending,s.answers ++ [.inserted false]⟩
  | .pop =>
    match takeFirst CanMessage.priority s.pending with
    | none => ⟨s.pending,s.answers ++ [.popped none]⟩
    | some (msg,others) => ⟨others,s.answers ++ [.popped (some msg)]⟩

def run (ops : List Op) : Spec := ops.foldl step ⟨[],[]⟩

end Spec

/-- The array holds the pending messages in order. -/
structure Refines (spec : Spec) (s : State) : Prop where
  valid : s.queue.Valid
  answers_eq : s.answers = spec.answers
  arranges : Arranges CanMessage.priority spec.pending s.queue.contents

variable {spec : Spec} {s : State}

theorem refines_insert (h : Refines spec s) (msg : CanMessage) :
    ∃ s', s.step (.insert msg) = some s' ∧ Refines (spec.step (.insert msg)) s' := by
  have hlength : s.queue.contents.length = spec.pending.length := h.arranges.perm.length_eq
  by_cases hroom : spec.pending.length < maxQueueSize
  · obtain ⟨pq,front,back,hinsert,hvalid,hsplit,hcontents,hback,hfront⟩ :=
      PriorityQueue.pqInsert_ok h.valid (hlength ▸ hroom) msg
    refine ⟨⟨pq,s.answers ++ [.inserted true]⟩,by simp [State.step,hinsert],hvalid,?_,?_⟩
    · simp [Spec.step,hroom,h.answers_eq]
    · have harranges := h.arranges
      rw [hsplit] at harranges
      have hnew := PriorityQueue.arranges_insert (f := id) harranges hfront hback
      simpa [Spec.step,hroom,hcontents] using hnew
  · have hfull : s.queue.contents.length = maxQueueSize := by
      have hle : s.queue.count.toNat ≤ maxQueueSize := h.valid
      rw [← h.valid.length_contents] at hle
      omega
    refine ⟨⟨s.queue,s.answers ++ [.inserted false]⟩,?_,h.valid,?_,?_⟩
    · simp [State.step,PriorityQueue.pqInsert_full h.valid hfull]
    · simp [Spec.step,hroom,h.answers_eq]
    · simpa [Spec.step,hroom] using h.arranges

theorem refines_pop (h : Refines spec s) :
    ∃ s', s.step .pop = some s' ∧ Refines (spec.step .pop) s' := by
  cases hcontents : s.queue.contents with
  | nil =>
    have hpending : spec.pending = [] := by
      have hperm := h.arranges.perm
      rw [hcontents] at hperm
      exact hperm.nil_eq.symm
    refine ⟨⟨s.queue,s.answers ++ [.popped none]⟩,?_,h.valid,?_,?_⟩
    · simp [State.step,PriorityQueue.pqPop_nil h.valid hcontents]
    · simp [Spec.step,hpending,takeFirst,h.answers_eq]
    · have harranges := h.arranges
      rw [hpending] at harranges
      simpa [Spec.step,hpending,takeFirst] using harranges
  | cons msg rest =>
    obtain ⟨pq,hpop,hvalid,hrest⟩ := PriorityQueue.pqPop_cons h.valid hcontents
    have harranges := h.arranges
    rw [hcontents] at harranges
    obtain ⟨others,hfirst,hothers⟩ := harranges.pop
    refine ⟨⟨pq,s.answers ++ [.popped (some msg)]⟩,?_,hvalid,?_,?_⟩
    · simp [State.step,hpop]
    · simp [Spec.step,hfirst,h.answers_eq]
    · simpa [Spec.step,hfirst,hrest] using hothers

theorem refines_step (spec : Spec) (s : State) (op : Op) (h : Refines spec s) :
    ∃ s', s.step op = some s' ∧ Refines (spec.step op) s' := by
  cases op with
  | insert msg => exact refines_insert h msg
  | pop => exact refines_pop h

/-- Every sequence of calls on a queue stays within the array, returns what the specification
returns and leaves its pending messages in order. -/
theorem priorityQueue_run (pq : PriorityQueue) (ops : List Op) :
    ∃ s, State.run pq ops = some s ∧ s.answers = (Spec.run ops).answers ∧
      Arranges CanMessage.priority (Spec.run ops).pending s.queue.contents := by
  have hinit : Refines ⟨[],[]⟩ ⟨pqInit pq,[]⟩ := by
    refine ⟨Nat.zero_le _,rfl,?_⟩
    exact Arranges.nil
  obtain ⟨s,hs,hrefines⟩ := Runs.exec_simulates refines_step hinit ops
  exact ⟨s,hs,hrefines.answers_eq,hrefines.arranges⟩

end CanScheduling
end UProtocols
