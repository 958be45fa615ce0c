import Mathlib.Algebra.Order.Ring.Rat
import Mathlib.Tactic.Linarith
import UProtocols.Runs

/-!
# The sliding window rate limiter

`SlidingWindowRateLimiter` of `mqtt_rate_limiter.rs`, with times as rational numbers. Each
call reads the clock once and drops the timestamps that have left the window.
-/

namespace UProtocols
namespace SlidingWindow

structure SlidingWindowRateLimiter where
  timestamps : List ℚ
  maxRequests : ℕ
  windowDuration : ℚ
  deriving DecidableEq

/-- `Instant::duration_since`, which is zero for a later instant. -/
def durationSince (now ts : ℚ) : ℚ := max (now - ts) 0

/-- The timestamp is kept by a call at `now`. -/
def fresh (window now ts : ℚ) : Bool := durationSince now ts < window

namespace SlidingWindowRateLimiter

def new (maxRequests : ℕ) (windowDuration : ℚ) : SlidingWindowRateLimiter where
  timestamps := []
  maxRequests := maxRequests
  windowDuration := windowDuration

/-- `timestamps.retain`. -/
def retain (l : SlidingWindowRateLimiter) (now : ℚ) : SlidingWindowRateLimiter :=
  {l with timestamps := l.timestamps.filter (fresh l.windowDuration now)}

def tryAcquire (l : SlidingWindowRateLimiter) (now : ℚ) : SlidingWindowRateLimiter × Bool :=
  let l := l.retain now
  if l.timestamps.length < l.maxRequests then
    ({l with timestamps := l.timestamps ++ [now]},true)
  else (l,false)

def currentCount (l : SlidingWindowRateLimiter) (now : ℚ) : SlidingWindowRateLimiter × ℕ :=
  let l := l.retain now
  (l,l.timestamps.length)

variable {l : SlidingWindowRateLimiter} {now : ℚ}

theorem tryAcquire_accepted (h : (l.retain now).timestamps.length < l.maxRequests) :
    l.tryAcquire now =
      ({l.retain now with timestamps := (l.retain now).timestamps ++ [now]},true) := if_pos h

theorem tryAcquire_refused (h : ¬ (l.retain now).timestamps.length < l.maxRequests) :
    l.tryAcquire now = (l.retain now,false) := if_neg h

end SlidingWindowRateLimiter

/-! ## Runs -/

/-- A call with its clock reading. -/
inductive Call
  | tryAcquire (now : ℚ)
  | currentCount (now : ℚ)
  deriving DecidableEq

/-- The limiter, the last clock reading and the times of all accepted and refused
acquisitions. -/
structure State where
  limiter : SlidingWindowRateLimiter
  clock : ℚ
  accepted : List ℚ
  refused : List ℚ
  deriving DecidableEq

namespace State

/-- The clock does not go back. -/
def step (s : State) : Call → Option State
  | .tryAcquire now =>
    if s.clock ≤ now then
      let (l,ok) := s.limiter.tryAcquire now
      some ⟨l,now,if ok then s.accepted ++ [now] else s.accepted,
        if ok then s.refused else s.refused ++ [now]⟩
    else none
  | .currentCount now =>
    if s.clock ≤ now then some {s with limiter := (s.limiter.currentCount now).1, clock := now}
    else none

def run (maxRequests : ℕ) (windowDuration start : ℚ) (calls : List Call) : Option State :=
  Runs.exec step ⟨.new maxRequests windowDuration,start,[],[]⟩ calls

/-- What a call does: it drops old timestamps, and an acquisition is accepted, or refused. -/
theorem step_cases {s s' : State} {c : Call} (h : s.step c = some s') :
    ∃ now, s.clock ≤ now ∧
      (s' = {s with limiter := s.limiter.retain now, clock := now} ∨
        ((s.limiter.retain now).timestamps.length < s.limiter.maxRequests ∧
          s' = ⟨{s.limiter.retain now with
              timestamps := (s.limiter.retain now).timestamps ++ [now]},
            now,s.accepted ++ [now],s.refused⟩) ∨
        (s.limiter.maxRequests ≤ (s.limiter.retain now).timestamps.length ∧
          s' = ⟨s.limiter.retain now,now,s.accepted,s.refused ++ [now]⟩)) := by
  cases c with
  | tryAcquire now =>
    by_cases hclock : s.clock ≤ now
    · refine ⟨now,hclock,?_⟩
      by_cases hroom : (s.limiter.retain now).timestamps.length < s.limiter.maxRequests
      · simp only [step,if_pos hclock,SlidingWindowRateLimiter.tryAcquire_accepted hroom] at h
        cases h
        exact .inr (.inl ⟨hroom,rfl⟩)
      · simp only [step,if_pos hclock,SlidingWindowRateLimiter.tryAcquire_refused hroom] at h
        cases h
        exact .inr (.inr ⟨Nat.le_of_not_lt hroom,rfl⟩)
    · simp only [step,if_neg hclock] at h
      cases h
  | currentCount now =>
    simp only [step,SlidingWindowRateLimiter.currentCount] at h
    split_ifs at h with hclock
    cases h
    exact ⟨now,hclock,.inl rfl⟩

/-! ## Windows -/

/-- A set of times no two of which are a window apart. -/
def Narrow (window : ℚ) (win : ℚ → Bool) : Prop :=
  ∀ x y, win x → win y → y - x < window

/-- The window that ends with `t`. -/
def recent (window t a : ℚ) : Bool := t - window < a ∧ a ≤ t

theorem narrow_recent (window t : ℚ) : Narrow window (recent window t) := by
  intro x y hx hy
  simp only [recent,decide_eq_true_eq] at hx hy
  linarith

theorem fresh_eq_recent {window t a : ℚ} (h : a ≤ t) : fresh window t a = recent window t a := by
  have hmax : durationSince t a = t - a := max_eq_left (by linarith)
  simp only [fresh,recent,hmax,h,and_true,decide_eq_decide]
  constructor <;> intro hlt <;> linarith

theorem fresh_of_later {window now later a : ℚ} (hle : now ≤ later)
    (h : fresh window later a = true) : fresh window now a = true := by
  have hmono : durationSince now a ≤ durationSince later a :=
    max_le_max (by linarith) (le_refl 0)
  simp only [fresh,decide_eq_true_eq] at h ⊢
  exact lt_of_le_of_lt hmono h

/-- The limiter still has every accepted time that is in the window, no narrow set of times
holds too many of them, and a refusal found its window full. -/
structure Windowed (maxRequests : ℕ) (window : ℚ) (s : State) : Prop where
  maxRequests_eq : s.limiter.maxRequests = maxRequests
  windowDuration_eq : s.limiter.windowDuration = window
  accepted_le : ∀ a ∈ s.accepted, a ≤ s.clock
  refused_le : ∀ t ∈ s.refused, t ≤ s.clock
  kept : ∀ now, s.clock ≤ now → s.limiter.timestamps.filter (fresh window now) =
    s.accepted.filter (fresh window now)
  bounded : ∀ win, Narrow window win → s.accepted.countP win ≤ maxRequests
  full : ∀ t ∈ s.refused, s.accepted.countP (recent window t) = maxRequests

variable {maxRequests : ℕ} {window now : ℚ} {s s' : State}

theorem Windowed.retain_eq (h : Windowed maxRequests window s) (hnow : s.clock ≤ now) :
    (s.limiter.retain now).timestamps = s.accepted.filter (recent window now) := by
  show s.limiter.timestamps.filter (fresh s.limiter.windowDuration now) = _
  rw [h.windowDuration_eq,h.kept now hnow]
  apply List.filter_congr
  intro a ha
  exact fresh_eq_recent ((h.accepted_le a ha).trans hnow)

theorem Windowed.retain_length (h : Windowed maxRequests window s) (hnow : s.clock ≤ now) :
    (s.limiter.retain now).timestamps.length = s.accepted.countP (recent window now) := by
  rw [h.retain_eq hnow,List.countP_eq_length_filter]

theorem Windowed.retain_kept (h : Windowed maxRequests window s) (hnow : s.clock ≤ now)
    {later : ℚ} (hlater : now ≤ later) :
    (s.limiter.retain now).timestamps.filter (fresh window later) =
      s.accepted.filter (fresh window later) := by
  show (s.limiter.timestamps.filter (fresh s.limiter.windowDuration now)).filter _ = _
  rw [h.windowDuration_eq,h.kept now hnow,List.filter_filter]
  apply List.filter_congr
  intro a _
  by_cases hfresh : fresh window later a = true
  · rw [hfresh,fresh_of_later hlater hfresh]
    rfl
  · simp [hfresh]

theorem Windowed.retain (h : Windowed maxRequests window s) (hnow : s.clock ≤ now) :
    Windowed maxRequests window {s with limiter := s.limiter.retain now, clock := now} where
  maxRequests_eq := h.maxRequests_eq
  windowDuration_eq := h.windowDuration_eq
  accepted_le := fun a ha => (h.accepted_le a ha).trans hnow
  refused_le := fun t ht => (h.refused_le t ht).trans hnow
  kept := fun _ hlater => h.retain_kept hnow hlater
  bounded := h.bounded
  full := h.full

/-- An accepted time shares a narrow set with recent times only. -/
theorem Windowed.countP_le_recent (h : Windowed maxRequests window s) (hnow : s.clock ≤ now)
    {win : ℚ → Bool} (hwin : Narrow window win) (hin : win now = true) :
    s.accepted.countP win ≤ s.accepted.countP (recent window now) := by
  apply List.countP_mono_left
  intro a ha hina
  have hnarrow := hwin a now hina hin
  have hle := (h.accepted_le a ha).trans hnow
  simp only [recent,decide_eq_true_eq]
  exact ⟨by linarith,hle⟩

theorem Windowed.accept (h : Windowed maxRequests window s) (hnow : s.clock ≤ now)
    (hroom : (s.limiter.retain now).timestamps.length < s.limiter.maxRequests) :
    Windowed maxRequests window
      ⟨{s.limiter.retain now with timestamps := (s.limiter.retain now).timestamps ++ [now]},
        now,s.accepted ++ [now],s.refused⟩ := by
  rw [h.retain_length hnow,h.maxRequests_eq] at hroom
  refine ⟨h.maxRequests_eq,h.windowDuration_eq,?_,?_,?_,?_,?_⟩
  · intro a ha
    rcases List.mem_append.mp ha with ha | ha
    · exact (h.accepted_le a ha).trans hnow
    · exact le_of_eq (List.mem_singleton.mp ha)
  · exact fun t ht => (h.refused_le t ht).trans hnow
  · intro later hlater
    simp only [List.filter_append]
    rw [h.retain_kept hnow hlater]
  · intro win hwin
    rw [List.countP_append,List.countP_singleton]
    by_cases hin : win now = true
    · rw [if_pos hin]
      exact Nat.succ_le_of_lt (Nat.lt_of_le_of_lt (h.countP_le_recent hnow hwin hin) hroom)
    · rw [if_neg hin]
      exact h.bounded win hwin
  · intro t ht
    have hlt : t < now := by
      -- a refusal at `now` itself would have left no room
      rcases lt_or_eq_of_le ((h.refused_le t ht).trans hnow) with hlt | rfl
      · exact hlt
      · exact absurd (h.full t ht) (Nat.ne_of_lt hroom)
    have hout : recent window t now = false := by
      simp [recent,not_le.mpr hlt]
    rw [List.countP_append,List.countP_singleton,hout,h.full t ht]
    rfl

theorem Windowed.refuse (h : Windowed maxRequests window s) (hnow : s.clock ≤ now)
    (hfull : s.limiter.maxRequests ≤ (s.limiter.retain now).timestamps.length) :
    Windowed maxRequests window ⟨s.limiter.retain now,now,s.accepted,s.refused ++ [now]⟩ := by
  rw [h.retain_length hnow,h.maxRequests_eq] at hfull
  have hret := h.retain hnow
  refine ⟨hret.maxRequests_eq,hret.windowDuration_eq,hret.accepted_le,?_,hret.kept,h.bounded,?_⟩
  · intro t ht
    rcases List.mem_append.mp ht with ht | ht
    · exact hret.refused_le t ht
    · exact le_of_eq (List.mem_singleton.mp ht)
  · intro t ht
    rcases List.mem_append.mp ht with ht | ht
    · exact h.full t ht
    · rw [List.mem_singleton.mp ht]
      exact Nat.le_antisymm (h.bounded _ (narrow_recent window now)) hfull

theorem windowed_step {c : Call} (hstep : s.step c = some s')
    (h : Windowed maxRequests window s) : Windowed maxRequests window s' := by
  obtain ⟨now,hnow,rfl | ⟨hroom,rfl⟩ | ⟨hfull,rfl⟩⟩ := step_cases hstep
  · exact h.retain hnow
  · exact h.accept hnow hroom
  · exact h.refuse hnow hfull

theorem windowed_run {start : ℚ} {calls : List Call}
    (hrun : run maxRequests window start calls = some s) : Windowed maxRequests window s := by
  have hstart : Windowed maxRequests window ⟨.new maxRequests window,start,[],[]⟩ :=
    ⟨rfl,rfl,by simp,by simp,fun _ _ => rfl,fun _ _ => Nat.zero_le _,by simp⟩
  exact Runs.exec_invariant (fun _ _ _ hstep h => windowed_step hstep h) hrun hstart

/-- No half-open window of the configured length holds more accepted acquisitions than allowed,
wherever it lies, and an acquisition is refused only where the window that ends with it holds
exactly that many. -/
theorem slidingWindow_run {start : ℚ} {calls : List Call}
    (hrun : run maxRequests window start calls = some s) :
    (∀ a, s.accepted.countP (fun t => a ≤ t ∧ t < a + window) ≤ maxRequests ∧
      s.accepted.countP (fun t => a < t ∧ t ≤ a + window) ≤ maxRequests) ∧
    ∀ t ∈ s.refused, s.accepted.countP (fun a => t - window < a ∧ a ≤ t) = maxRequests := by
  have h := windowed_run hrun
  refine ⟨fun a => ⟨h.bounded _ ?_,h.bounded _ ?_⟩,h.full⟩
  · intro x y hx hy
    simp only [decide_eq_true_eq] at hx hy
    linarith
  · intro x y hx hy
    simp only [decide_eq_true_eq] at hx hy
    linarith

/-- The acquisition at 1 still counts just before 3 and no longer at 3. -/
theorem slidingWindow_run_boundary :
    ∃ s, run 2 2 0 [.tryAcquire 1,.tryAcquire 2,.currentCount 2,.tryAcquire (5/2),.tryAcquire 3] =
        some s ∧ s.accepted = [1,2,3] ∧ s.refused = [5/2] ∧
      s.accepted.countP (fun t => 1 ≤ t ∧ t < 1 + 2) ≤ 2 ∧
      s.accepted.countP (fun a => 5/2 - 2 < a ∧ a ≤ 5/2) = 2 := by
  have hrun : run 2 2 0 [.tryAcquire 1,.tryAcquire 2,.currentCount 2,.tryAcquire (5/2),
      .tryAcquire 3] = some ⟨⟨[2,3],2,2⟩,3,[1,2,3],[5/2]⟩ := by decide +kernel
  have h := slidingWindow_run hrun
  exact ⟨_,hrun,rfl,rfl,(h.1 1).1,h.2 (5/2) (by simp)⟩

end State
end SlidingWindow
end UProtocols
