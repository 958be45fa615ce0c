import UProtocols.Mutexes
import UProtocols.TokenBucket
import Mathlib.Data.Fintype.Basic

/-!
# The rate-limited publisher

`RateLimitedPublisher` of `mqtt_rate_limiter.rs`, with every lock and every release of a mutex
as a step of its own. Guards are dropped where their scope ends, the last one taken first. On
the refused path `publish` takes `messages_dropped` while it holds `rate_limiter`, and
`print_stats` takes the two in the other order.
-/

namespace UProtocols
namespace RateLimitedPublisher

open TokenBucket (TokenBucketRateLimiter)
open Mutexes (Consistent)

inductive Mutex
  | rateLimiter
  | messagesSent
  | messagesDropped
  deriving DecidableEq

/-- Where a thread is: before the statement named. -/
inductive Pc
  | idle
  | publishLockLimiter
  | publishTryConsume
  | publishLockDropped
  | publishCountDropped
  | publishUnlockDropped
  | publishUnlockRefused
  | publishUnlockGranted
  | publishClient
  | publishLockSent
  | publishCountSent
  | publishUnlockSent
  | statsLockSent
  | statsLockDropped
  | statsLockLimiter
  | statsPrint
  | statsUnlockLimiter
  | statsUnlockDropped
  | statsUnlockSent
  deriving DecidableEq

namespace Pc

/-- The mutex a thread takes next. -/
def waits : Pc → Option Mutex
  | publishLockLimiter | statsLockLimiter => some .rateLimiter
  | publishLockDropped | statsLockDropped => some .messagesDropped
  | publishLockSent | statsLockSent => some .messagesSent
  | _ => none

/-- The mutexes whose guards are alive, the last one taken first. -/
def holds : Pc → List Mutex
  | publishTryConsume | publishLockDropped | publishUnlockRefused | publishUnlockGranted =>
    [.rateLimiter]
  | publishCountDropped | publishUnlockDropped => [.messagesDropped,.rateLimiter]
  | publishCountSent | publishUnlockSent | statsLockDropped | statsUnlockSent => [.messagesSent]
  | statsLockLimiter | statsUnlockDropped => [.messagesDropped,.messagesSent]
  | statsPrint | statsUnlockLimiter => [.rateLimiter,.messagesDropped,.messagesSent]
  | idle | publishLockLimiter | publishClient | publishLockSent | statsLockSent => []

end Pc

/-- A step of a thread, with what it gets from outside: the clock readings of a refill and the
result of `client.publish`. -/
inductive Event (T : Type)
  | publish (t : T)
  | printStats (t : T)
  | lock (t : T)
  | unlock (t : T)
  | count (t : T)
  | tryConsume (t : T) (first second : ℚ)
  | clientPublish (t : T) (ok : Bool)
  | print (t : T) (first second : ℚ)

/-- The thread that takes the step. -/
def Event.thread {T : Type} : Event T → T
  | .publish t | .printStats t | .lock t | .unlock t | .count t | .tryConsume t _ _
  | .clientPublish t _ | .print t _ _ => t

structure State (T : Type) where
  limiter : TokenBucketRateLimiter
  sent : UInt64
  dropped : UInt64
  holder : Mutex → Option T
  pc : T → Pc

namespace State

variable {T : Type} [DecidableEq T]

def new (rateLimit burstSize now : ℚ) : State T where
  limiter := .new rateLimit burstSize now
  sent := 0
  dropped := 0
  holder := fun _ => none
  pc := fun _ => .idle

def goto (s : State T) (t : T) (p : Pc) : State T := {s with pc := Function.update s.pc t p}

/-- `lock().unwrap()`, which goes on when the mutex is free. -/
def take (s : State T) (t : T) (m : Mutex) (p : Pc) : Option (State T) :=
  if s.holder m = none then some {s.goto t p with holder := Function.update s.holder m (some t)}
  else none

/-- The guard is dropped. -/
def release (s : State T) (t : T) (m : Mutex) (p : Pc) : State T :=
  {s.goto t p with holder := Function.update s.holder m none}

def lockNext (s : State T) (t : T) : Option (State T) :=
  match s.pc t with
  | .publishLockLimiter => s.take t .rateLimiter .publishTryConsume
  | .publishLockDropped => s.take t .messagesDropped .publishCountDropped
  | .publishLockSent => s.take t .messagesSent .publishCountSent
  | .statsLockSent => s.take t .messagesSent .statsLockDropped
  | .statsLockDropped => s.take t .messagesDropped .statsLockLimiter
  | .statsLockLimiter => s.take t .rateLimiter .statsPrint
  | _ => none

def unlockNext (s : State T) (t : T) : Option (State T) :=
  match s.pc t with
  | .publishUnlockDropped => some (s.release t .messagesDropped .publishUnlockRefused)
  | .publishUnlockRefused => some (s.release t .rateLimiter .idle)
  | .publishUnlockGranted => some (s.release t .rateLimiter .publishClient)
  | .publishUnlockSent => some (s.release t .messagesSent .idle)
  | .statsUnlockLimiter => some (s.release t .rateLimiter .statsUnlockDropped)
  | .statsUnlockDropped => some (s.release t .messagesDropped .statsUnlockSent)
  | .statsUnlockSent => some (s.release t .messagesSent .idle)
  | _ => none

def countNext (s : State T) (t : T) : Option (State T) :=
  match s.pc t with
  | .publishCountDropped => some {s.goto t .publishUnlockDropped with dropped := s.dropped + 1}
  | .publishCountSent => some {s.goto t .publishUnlockSent with sent := s.sent + 1}
  | _ => none

/-- The clock of the refills does not go back. -/
def step (s : State T) : Event T → Option (State T)
  | .publish t => if s.pc t = .idle then some (s.goto t .publishLockLimiter) else none
  | .printStats t => if s.pc t = .idle then some (s.goto t .statsLockSent) else none
  | .lock t => s.lockNext t
  | .unlock t => s.unlockNext t
  | .count t => s.countNext t
  | .tryConsume t first second =>
    if s.pc t = .publishTryConsume ∧ s.limiter.lastRefill ≤ first ∧ first ≤ second then
      let (l,ok) := s.limiter.tryConsume 1 first second
      some {s.goto t (if ok then .publishUnlockGranted else .publishLockDropped) with limiter := l}
    else none
  | .clientPublish t ok =>
    if s.pc t = .publishClient then some (s.goto t (if ok then .publishLockSent else .idle))
    else none
  | .print t first second =>
    if s.pc t = .statsPrint ∧ s.limiter.lastRefill ≤ first ∧ first ≤ second then
      some {s.goto t .statsUnlockLimiter with
        limiter := (s.limiter.availableTokens first second).1}
    else none

def run (rateLimit burstSize now : ℚ) (events : List (Event T)) : Option (State T) :=
  Runs.exec step (new rateLimit burstSize now) events

/-- A set of threads each waiting for a mutex held by another of them. -/
def Deadlocked (s : State T) : Prop := Mutexes.Deadlocked (fun t => (s.pc t).waits) s.holder

/-- `print_stats` does not take `messages_dropped` while a refused `publish` waits for it, and
`try_consume` does not refuse while a `print_stats` waits for `rate_limiter`. -/
def Apart (s : State T) : Event T → Prop
  | .lock t => s.pc t = .statsLockDropped → ∀ u, s.pc u ≠ .publishLockDropped
  | .tryConsume _ first second =>
    (s.limiter.refill first second).tokens < 1 → ∀ u, s.pc u ≠ .statsLockLimiter
  | _ => True

instance [Fintype T] (s : State T) : ∀ e, Decidable (s.Apart e)
  | .lock t => inferInstanceAs (Decidable (s.pc t = .statsLockDropped → _))
  | .tryConsume _ first second =>
    inferInstanceAs (Decidable ((s.limiter.refill first second).tokens < 1 → _))
  | .publish _ | .printStats _ | .unlock _ | .count _ | .clientPublish _ _ | .print _ _ _ =>
    isTrue trivial

/-! ## What a step does -/

variable {s s' : State T} {t : T} {e : Event T}

/-- A thread at `t` goes to `p` and keeps the mutexes it holds, takes the one it waits for, or
releases the last one it took. -/
inductive Moves (s s' : State T) (t : T) (p : Pc) : Prop
  | keep (hwaits : (s.pc t).waits = none) (hholder : s'.holder = s.holder)
      (hholds : p.holds = (s.pc t).holds)
  | lock (m : Mutex) (hwaits : (s.pc t).waits = some m) (hfree : s.holder m = none)
      (hholder : s'.holder = Function.update s.holder m (some t))
      (hholds : p.holds = m::(s.pc t).holds)
  | unlock (m : Mutex) (hwaits : (s.pc t).waits = none)
      (hholder : s'.holder = Function.update s.holder m none)
      (hholds : (s.pc t).holds = m::p.holds) (hm : m ∉ p.holds)

/-- Which step brings a thread to the two places where a cycle can close. -/
structure Arrives (s : State T) (t : T) (e : Event T) (p : Pc) : Prop where
  refused : p = .publishLockDropped ↔ ∃ first second, e = .tryConsume t first second ∧
    (s.limiter.refill first second).tokens < 1
  droppedTaken : p = .statsLockLimiter ↔ e = .lock t ∧ s.pc t = .statsLockDropped

theorem lock_cases (h : s.lockNext t = some s') :
    ∃ p, s'.pc = Function.update s.pc t p ∧ Moves s s' t p ∧ Arrives s t (.lock t) p := by
  have htake : ∀ m p, s.take t m p = some s' → (s.pc t).waits = some m →
      p.holds = m::(s.pc t).holds → s'.pc = Function.update s.pc t p ∧ Moves s s' t p := by
    intro m p ht hwaits hholds
    simp only [take] at ht
    split_ifs at ht with hfree
    cases ht
    exact ⟨rfl,.lock m hwaits hfree rfl hholds⟩
  unfold lockNext at h
  split at h
  case h_7 => cases h
  all_goals
    rename_i hpc
    obtain ⟨hgoto,hmoves⟩ := htake _ _ h (by simp [hpc,Pc.waits]) (by simp [hpc,Pc.holds])
    exact ⟨_,hgoto,hmoves,⟨by simp,by simp [hpc]⟩⟩

theorem unlock_cases (h : s.unlockNext t = some s') :
    ∃ p, s'.pc = Function.update s.pc t p ∧ Moves s s' t p ∧ Arrives s t (.unlock t) p := by
  unfold unlockNext at h
  split at h
  case h_8 => cases h
  all_goals
    rename_i hpc
    cases h
    exact ⟨_,rfl,.unlock _ (by simp [hpc,Pc.waits]) rfl (by simp [hpc,Pc.holds])
      (by simp [Pc.holds]),⟨by simp,by simp⟩⟩

theorem count_cases (h : s.countNext t = some s') :
    ∃ p, s'.pc = Function.update s.pc t p ∧ Moves s s' t p ∧ Arrives s t (.count t) p := by
  unfold countNext at h
  split at h
  case h_3 => cases h
  all_goals
    rename_i hpc
    cases h
    exact ⟨_,rfl,.keep (by simp [hpc,Pc.waits]) rfl (by simp [hpc,Pc.holds]),⟨by simp,by simp⟩⟩

theorem tryConsume_cases {first second : ℚ} (h : s.step (.tryConsume t first second) = some s') :
    ∃ p, s'.pc = Function.update s.pc t p ∧ Moves s s' t p ∧
      Arrives s t (.tryConsume t first second) p := by
  by_cases hready : s.pc t = .publishTryConsume ∧ s.limiter.lastRefill ≤ first ∧ first ≤ second
  · by_cases hgrant : 1 ≤ (s.limiter.refill first second).tokens
    · simp only [step,if_pos hready,TokenBucketRateLimiter.tryConsume_granted hgrant] at h
      cases h
      refine ⟨_,rfl,.keep (by simp [hready.1,Pc.waits]) rfl ?_,⟨?_,by simp⟩⟩
      · simp [hready.1,Pc.holds]
      · simpa using hgrant
    · simp only [step,if_pos hready,TokenBucketRateLimiter.tryConsume_refused hgrant] at h
      cases h
      refine ⟨_,rfl,.keep (by simp [hready.1,Pc.waits]) rfl ?_,⟨?_,by simp⟩⟩
      · simp [hready.1,Pc.holds]
      · simpa using hgrant
  · simp only [step,if_neg hready] at h
    cases h

theorem step_cases (h : s.step e = some s') :
    ∃ p, s'.pc = Function.update s.pc e.thread p ∧ Moves s s' e.thread p ∧
      Arrives s e.thread e p := by
  cases e with
  | lock t => exact lock_cases h
  | unlock t => exact unlock_cases h
  | count t => exact count_cases h
  | tryConsume t first second => exact tryConsume_cases h
  | publish t | printStats t | print t first second =>
    simp only [step] at h
    split_ifs at h with hpc
    cases h
    exact ⟨_,rfl,.keep (by simp [Event.thread,hpc,Pc.waits]) rfl
      (by simp [Event.thread,hpc,Pc.holds]),⟨by simp,by simp⟩⟩
  | clientPublish t ok =>
    simp only [step] at h
    split_ifs at h with hpc hok
    all_goals
      cases h
      exact ⟨_,rfl,.keep (by simp [Event.thread,hpc,Pc.waits]) rfl
        (by simp [Event.thread,hpc,Pc.holds]),⟨by simp,by simp⟩⟩

/-! ## The mutexes are held by the threads -/

def Held (s : State T) : Prop := Consistent (fun t => (s.pc t).holds) s.holder

theorem held_step (hstep : s.step e = some s') (h : s.Held) : s'.Held := by
  obtain ⟨p,hpc,hmoves,-⟩ := step_cases hstep
  have hholds : (fun u => (s'.pc u).holds) =
      Function.update (fun u => (s.pc u).holds) e.thread p.holds := by
    funext u
    rw [hpc]
    exact Function.apply_update (fun _ => Pc.holds) s.pc e.thread p u
  unfold Held
  rw [hholds]
  cases hmoves with
  | keep _ hholder hkeep =>
    rw [hholder]
    exact h.keep e.thread hkeep
  | lock m _ hfree hholder hlock =>
    rw [hholder]
    exact h.lock hfree hlock
  | unlock m _ hholder hunlock hm =>
    rw [hholder]
    exact h.unlock hunlock hm

/-! ## Deadlock -/

/-- A thread that waits and holds a mutex is a refused `publish` or a `print_stats`. -/
theorem waits_holds {p : Pc} {l m : Mutex} (hwaits : p.waits = some l) (hholds : m ∈ p.holds) :
    p = .publishLockDropped ∧ m = .rateLimiter ∨ p = .statsLockDropped ∧ m = .messagesSent ∨
      p = .statsLockLimiter ∧ (m = .messagesDropped ∨ m = .messagesSent) := by
  cases p <;> simp_all [Pc.waits,Pc.holds]

omit [DecidableEq T] in
/-- The only deadlock is between a refused `publish` and a `print_stats`. -/
theorem deadlocked_iff (h : s.Held) :
    s.Deadlocked ↔ ∃ t u, s.pc t = .publishLockDropped ∧ s.pc u = .statsLockLimiter := by
  constructor
  · rintro ⟨S,⟨t,ht⟩,hS⟩
    -- the holder of what a thread of the set waits for is in the set, so it waits too
    have hnext : ∀ v ∈ S, ∀ m, (s.pc v).waits = some m →
        ∃ w ∈ S, m ∈ (s.pc w).holds ∧ ∃ l, (s.pc w).waits = some l := by
      intro v hv m hm
      obtain ⟨l,hl,w,hw,-,hholder⟩ := hS v hv
      cases Option.some.inj (hm.symm.trans hl)
      obtain ⟨k,hk,-⟩ := hS w hw
      exact ⟨w,hw,(h m w).mp hholder,k,hk⟩
    have hdropped : ∀ v ∈ S, (s.pc v).waits = some .messagesDropped →
        ∃ w ∈ S, s.pc w = .statsLockLimiter := by
      intro v hv hwaits
      obtain ⟨w,hw,hholds,l,hl⟩ := hnext v hv _ hwaits
      obtain ⟨-,hm⟩ | ⟨-,hm⟩ | ⟨hpc,-⟩ := waits_holds hl hholds
      · cases hm
      · cases hm
      · exact ⟨w,hw,hpc⟩
    have hlimiter : ∀ v ∈ S, (s.pc v).waits = some .rateLimiter →
        ∃ w ∈ S, s.pc w = .publishLockDropped := by
      intro v hv hwaits
      obtain ⟨w,hw,hholds,l,hl⟩ := hnext v hv _ hwaits
      obtain ⟨hpc,-⟩ | ⟨-,hm⟩ | ⟨-,hm | hm⟩ := waits_holds hl hholds
      · exact ⟨w,hw,hpc⟩
      · cases hm
      · cases hm
      · cases hm
    have hstats : ∃ w ∈ S, s.pc w = .statsLockLimiter := by
      obtain ⟨m,hm,-⟩ := hS t ht
      obtain ⟨w,hw,hholds,l,hl⟩ := hnext t ht m hm
      obtain ⟨hpc,-⟩ | ⟨hpc,-⟩ | ⟨hpc,-⟩ := waits_holds hl hholds
      · exact hdropped w hw (by simp [hpc,Pc.waits])
      · exact hdropped w hw (by simp [hpc,Pc.waits])
      · exact ⟨w,hw,hpc⟩
    obtain ⟨u,hu,hupc⟩ := hstats
    obtain ⟨w,-,hwpc⟩ := hlimiter u hu (by simp [hupc,Pc.waits])
    exact ⟨w,u,hwpc,hupc⟩
  · rintro ⟨t,u,ht,hu⟩
    have hne : t ≠ u := by
      intro htu
      rw [htu,hu] at ht
      cases ht
    refine .of_pair hne (l := .messagesDropped) (m := .rateLimiter) ?_ ?_ ?_ ?_
    · simp [ht,Pc.waits]
    · exact (h _ u).mpr (by simp [hu,Pc.holds])
    · simp [hu,Pc.waits]
    · exact (h _ t).mpr (by simp [ht,Pc.holds])

omit [DecidableEq T] in
/-- A thread that waits moves only when the mutex is free. -/
theorem Moves.free_of_waits {p : Pc} {m : Mutex} (hmoves : Moves s s' t p)
    (hwaits : (s.pc t).waits = some m) : s.holder m = none := by
  cases hmoves with
  | keep hnone =>
    rw [hnone] at hwaits
    cases hwaits
  | lock l hl hfree =>
    cases Option.some.inj (hl.symm.trans hwaits)
    exact hfree
  | unlock l hnone =>
    rw [hnone] at hwaits
    cases hwaits

/-- The two threads of a deadlock stay where they are. -/
theorem deadlocked_stays (h : s.Held) (hstep : s.step e = some s') (hd : s.Deadlocked) :
    s'.Deadlocked := by
  obtain ⟨u,v,hu,hv⟩ := (deadlocked_iff h).mp hd
  obtain ⟨p,hpc,hmoves,-⟩ := step_cases hstep
  have hue : u ≠ e.thread := by
    rintro rfl
    have hfree := hmoves.free_of_waits (m := .messagesDropped) (by simp [hu,Pc.waits])
    exact h.not_mem_of_free hfree v (by simp [hv,Pc.holds])
  have hve : v ≠ e.thread := by
    rintro rfl
    have hfree := hmoves.free_of_waits (m := .rateLimiter) (by simp [hv,Pc.waits])
    exact h.not_mem_of_free hfree u (by simp [hu,Pc.holds])
  apply (deadlocked_iff (held_step hstep h)).mpr
  exact ⟨u,v,by rw [hpc,Function.update_of_ne hue,hu],by rw [hpc,Function.update_of_ne hve,hv]⟩

/-- A refused `publish` closes a cycle with a `print_stats` that waits for `rate_limiter`. -/
theorem deadlocked_of_refused {first second : ℚ} {v : T} (h : s.Held)
    (hstep : s.step (.tryConsume t first second) = some s')
    (hlow : (s.limiter.refill first second).tokens < 1) (hv : s.pc v = .statsLockLimiter) :
    s'.Deadlocked := by
  obtain ⟨p,hpc,hmoves,harrives⟩ := step_cases hstep
  have hp : p = .publishLockDropped := harrives.refused.mpr ⟨first,second,rfl,hlow⟩
  have hvt : v ≠ t := by
    rintro rfl
    simp [step,hv] at hstep
  apply (deadlocked_iff (held_step hstep h)).mpr
  refine ⟨t,v,?_,?_⟩
  · rw [hpc,← hp]
    exact Function.update_self _ _ _
  · rw [hpc,← hv]
    exact Function.update_of_ne hvt _ _

/-- A `print_stats` that takes `messages_dropped` closes a cycle with a refused `publish`. -/
theorem deadlocked_of_droppedTaken {v : T} (h : s.Held) (hstep : s.step (.lock t) = some s')
    (ht : s.pc t = .statsLockDropped) (hv : s.pc v = .publishLockDropped) : s'.Deadlocked := by
  obtain ⟨p,hpc,hmoves,harrives⟩ := step_cases hstep
  have hp : p = .statsLockLimiter := harrives.droppedTaken.mpr ⟨rfl,ht⟩
  have hvt : v ≠ t := by
    rintro rfl
    rw [ht] at hv
    cases hv
  apply (deadlocked_iff (held_step hstep h)).mpr
  refine ⟨v,t,?_,?_⟩
  · rw [hpc,← hv]
    exact Function.update_of_ne hvt _ _
  · rw [hpc,← hp]
    exact Function.update_self _ _ _

/-- A step closes a cycle exactly when it does not keep the two calls apart. -/
theorem deadlocked_step (h : s.Held) (hstep : s.step e = some s') :
    s'.Deadlocked ↔ s.Deadlocked ∨ ¬ s.Apart e := by
  constructor
  · intro hd
    obtain ⟨u,v,hu,hv⟩ := (deadlocked_iff (held_step hstep h)).mp hd
    obtain ⟨p,hpc,hmoves,harrives⟩ := step_cases hstep
    have hother : ∀ w, w ≠ e.thread → s'.pc w = s.pc w := by
      intro w hw
      rw [hpc,Function.update_of_ne hw]
    have hself : s'.pc e.thread = p := by rw [hpc,Function.update_self]
    have huv : v ≠ u := by
      rintro rfl
      rw [hu] at hv
      cases hv
    by_cases hue : u = e.thread
    · -- the `publish` has just been refused
      subst hue
      obtain ⟨first,second,he,hlow⟩ := harrives.refused.mp (hself.symm.trans hu)
      right
      intro hapart
      rw [he] at hapart
      exact hapart hlow v ((hother v huv).symm.trans hv)
    · by_cases hve : v = e.thread
      · subst hve
        obtain ⟨he,hwas⟩ := harrives.droppedTaken.mp (hself.symm.trans hv)
        right
        intro hapart
        rw [he] at hapart
        exact hapart hwas u ((hother u hue).symm.trans hu)
      · left
        exact (deadlocked_iff h).mpr
          ⟨u,v,(hother u hue).symm.trans hu,(hother v hve).symm.trans hv⟩
  · rintro (hd | hclose)
    · exact deadlocked_stays h hstep hd
    · cases e with
      | lock t =>
        simp only [Apart,not_forall,not_not] at hclose
        obtain ⟨ht,v,hv⟩ := hclose
        exact deadlocked_of_droppedTaken h hstep ht hv
      | tryConsume t first second =>
        simp only [Apart,not_forall,not_not] at hclose
        obtain ⟨hlow,v,hv⟩ := hclose
        exact deadlocked_of_refused h hstep hlow hv
      | publish | printStats | unlock | count | clientPublish | print =>
        exact absurd trivial hclose

/-! ## Runs -/

omit [DecidableEq T] in
theorem held_new (rateLimit burstSize now : ℚ) : (new rateLimit burstSize now : State T).Held := by
  intro m t
  simp [new,Pc.holds]

omit [DecidableEq T] in
theorem not_deadlocked_new (rateLimit burstSize now : ℚ) :
    ¬ (new rateLimit burstSize now : State T).Deadlocked := by
  rintro ⟨S,⟨t,ht⟩,hS⟩
  obtain ⟨m,hm,-⟩ := hS t ht
  simp [new,Pc.waits] at hm

theorem held_run {rateLimit burstSize now : ℚ} {events : List (Event T)}
    (hrun : run rateLimit burstSize now events = some s) : s.Held :=
  Runs.exec_invariant (fun _ _ _ hstep h => held_step hstep h) hrun (held_new _ _ _)

/-- No state of a run is deadlocked exactly when every step keeps the two calls apart. -/
theorem deadlockFree_run {rateLimit burstSize now : ℚ} {events : List (Event T)}
    (hrun : run rateLimit burstSize now events = some s) :
    (∀ es s', es <+: events → run rateLimit burstSize now es = some s' → ¬ s'.Deadlocked) ↔
      Runs.Along step Apart (new rateLimit burstSize now) events := by
  have hstep : ∀ (u : State T) e v, step u e = some v → u.Held → ¬ u.Deadlocked →
      (¬ v.Deadlocked ↔ u.Apart e) := by
    intro u e v huv hheld hu
    rw [deadlocked_step hheld huv]
    simp [hu]
  have hall := Runs.forall_reached_iff (fun _ _ _ hstep h => held_step hstep h) hstep hrun
    (held_new _ _ _)
  exact hall.trans (and_iff_right (not_deadlocked_new _ _ _))

theorem deadlockFree_run_refusedFirst :
    ∃ s : State Bool, run 1 0 0 [.publish true,.printStats false,.lock true,.lock false,
        .tryConsume true 0 0,.lock true,.count true,.unlock true,.unlock true,.lock false,
        .lock false,.print false 0 0] = some s ∧ ¬ s.Deadlocked := by
  have hsome : (run 1 0 0 [Event.publish true,.printStats false,.lock true,.lock false,
      .tryConsume true 0 0,.lock true,.count true,.unlock true,.unlock true,.lock false,
      .lock false,.print false 0 0]).isSome := by decide +kernel
  obtain ⟨s,hs⟩ := Option.isSome_iff_exists.mp hsome
  exact ⟨s,hs,(deadlockFree_run hs).mpr (by decide +kernel) _ s (List.prefix_refl _) hs⟩

/-- A `publish` is refused while a `print_stats` holds `messages_dropped`. -/
theorem deadlockFree_run_cycle :
    ¬ ∀ (rateLimit burstSize now : ℚ) (events : List (Event Bool)) (s : State Bool),
      run rateLimit burstSize now events = some s → ¬ s.Deadlocked := by
  intro h
  have hsome : ((run 1 1 0 [Event.publish true,.lock true,.tryConsume true 0 0,.unlock true,
      .clientPublish true true,.lock true,.count true,.unlock true,.publish true,.lock true,
      .printStats false,.lock false,.lock false,.tryConsume true 0 0]).map
        fun s => (s.pc true,s.pc false)) =
      some (.publishLockDropped,.statsLockLimiter) := by decide +kernel
  obtain ⟨s,hs,hpc⟩ := Option.map_eq_some_iff.mp hsome
  obtain ⟨ht,hf⟩ := Prod.mk.inj hpc
  exact h _ _ _ _ s hs ((deadlocked_iff (held_run hs)).mpr ⟨true,false,ht,hf⟩)

end State
end RateLimitedPublisher
end UProtocols
