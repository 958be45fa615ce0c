import UProtocols.Metering
import UProtocols.Runs
import Mathlib.Data.Rat.Defs
import Mathlib.Algebra.Order.Ring.Rat

/-!
# The token bucket rate limiter

`TokenBucketRateLimiter` of `mqtt_rate_limiter.rs`, with times and tokens as rational
numbers. `refill` reads the clock twice, once for the elapsed time and once for the new
`last_refill`; both readings are part of a call.
-/

namespace UProtocols
namespace TokenBucket

open Metering (Charge Refills Meter within)

structure TokenBucketRateLimiter where
  tokens : ℚ
  maxTokens : ℚ
  refillRate : ℚ
  lastRefill : ℚ
  deriving DecidableEq

/-- `Instant::elapsed`, which is zero for an instant in the future. -/
def elapsed (instant now : ℚ) : ℚ := max (now - instant) 0

namespace TokenBucketRateLimiter

def new (ratePerSec burstSize now : ℚ) : TokenBucketRateLimiter where
  tokens := burstSize
  maxTokens := burstSize
  refillRate := ratePerSec
  lastRefill := now

/-- `first` is the clock reading of `elapsed` and `second` that of `Instant::now`. -/
def refill (l : TokenBucketRateLimiter) (first second : ℚ) : TokenBucketRateLimiter :=
  {l with
    tokens := min (l.tokens + elapsed l.lastRefill first * l.refillRate) l.maxTokens
    lastRefill := second}

def tryConsume (l : TokenBucketRateLimiter) (count first second : ℚ) :
    TokenBucketRateLimiter × Bool :=
  let l := l.refill first second
  if l.tokens ≥ count then ({l with tokens := l.tokens - count},true) else (l,false)

def availableTokens (l : TokenBucketRateLimiter) (first second : ℚ) :
    TokenBucketRateLimiter × ℚ :=
  let l := l.refill first second
  (l,l.tokens)

variable {l : TokenBucketRateLimiter} {count first second : ℚ}

theorem tryConsume_granted (h : count ≤ (l.refill first second).tokens) :
    l.tryConsume count first second =
      ({l.refill first second with tokens := (l.refill first second).tokens - count},true) :=
  if_pos h

theorem tryConsume_refused (h : ¬ count ≤ (l.refill first second).tokens) :
    l.tryConsume count first second = (l.refill first second,false) := if_neg h

end TokenBucketRateLimiter

/-! ## Runs -/

/-- A call with its two clock readings. -/
inductive Call
  | tryConsume (count first second : ℚ)
  | availableTokens (first second : ℚ)
  deriving DecidableEq

/-- The limiter and the counts it has granted, the last one first. -/
structure State where
  limiter : TokenBucketRateLimiter
  granted : List (Charge ℚ)
  deriving DecidableEq

namespace State

/-- The clock does not go back: the readings of a call are ordered and not before the last one,
which is `last_refill`. -/
def step (s : State) : Call → Option State
  | .tryConsume count first second =>
    if s.limiter.lastRefill ≤ first ∧ first ≤ second ∧ 0 ≤ count then
      let (l,ok) := s.limiter.tryConsume count first second
      some ⟨l,if ok then ⟨first,second,count⟩::s.granted else s.granted⟩
    else none
  | .availableTokens first second =>
    if s.limiter.lastRefill ≤ first ∧ first ≤ second then
      some ⟨(s.limiter.availableTokens first second).1,s.granted⟩
    else none

def run (ratePerSec burstSize now : ℚ) (calls : List Call) : Option State :=
  Runs.exec step ⟨.new ratePerSec burstSize now,[]⟩ calls

/-- The sum of the counts granted in an interval; a call that is in progress at one moment of
the interval counts. -/
def grantedIn (s : State) (t u : ℚ) : ℚ := within t u s.granted

/-- What a call does: it refills, and a granted one takes its count and is logged. -/
theorem step_cases {s s' : State} {c : Call} (h : s.step c = some s') :
    ∃ first second, s.limiter.lastRefill ≤ first ∧ first ≤ second ∧
      (s' = ⟨s.limiter.refill first second,s.granted⟩ ∨
        ∃ count, 0 ≤ count ∧ count ≤ (s.limiter.refill first second).tokens ∧
          s' = ⟨{s.limiter.refill first second with
              tokens := (s.limiter.refill first second).tokens - count},
            ⟨first,second,count⟩::s.granted⟩) := by
  cases c with
  | tryConsume count first second =>
    by_cases hclock : s.limiter.lastRefill ≤ first ∧ first ≤ second ∧ 0 ≤ count
    · refine ⟨first,second,hclock.1,hclock.2.1,?_⟩
      by_cases hgrant : count ≤ (s.limiter.refill first second).tokens
      · simp only [step,if_pos hclock,TokenBucketRateLimiter.tryConsume_granted hgrant] at h
        cases h
        exact .inr ⟨count,hclock.2.2,hgrant,rfl⟩
      · simp only [step,if_pos hclock,TokenBucketRateLimiter.tryConsume_refused hgrant] at h
        cases h
        exact .inl rfl
    · simp only [step,if_neg hclock] at h
      cases h
  | availableTokens first second =>
    simp only [step,TokenBucketRateLimiter.availableTokens] at h
    split_ifs at h with hclock
    cases h
    exact ⟨first,second,hclock.1,hclock.2,.inl rfl⟩

/-! ## The limiter is a meter -/

/-- The limiter refines a meter of its rate and burst, and its tokens are never negative. -/
structure Metered (rate burst : ℚ) (s : State) : Prop where
  refillRate_eq : s.limiter.refillRate = rate
  maxTokens_eq : s.limiter.maxTokens = burst
  meter : Meter rate burst s.granted s.limiter.tokens s.limiter.lastRefill
  tokens_nonneg : 0 ≤ s.limiter.tokens

variable {rate burst : ℚ} {s s' : State}

theorem Metered.refills (h : Metered rate burst s) {first second : ℚ}
    (hlast : s.limiter.lastRefill ≤ first) (hsecond : first ≤ second) :
    Refills rate burst s.limiter.tokens s.limiter.lastRefill first second
      (s.limiter.refill first second).tokens := by
  have helapsed : elapsed s.limiter.lastRefill first = first - s.limiter.lastRefill := by
    apply max_eq_left
    linarith
  refine ⟨hlast,hsecond,?_,?_⟩
  · rw [← h.maxTokens_eq]
    exact min_le_right _ _
  · rw [← h.refillRate_eq,← helapsed]
    exact min_le_left _ _

theorem Metered.refill_nonneg (h : Metered rate burst s) (hrate : 0 ≤ rate) (hburst : 0 ≤ burst)
    (first second : ℚ) : 0 ≤ (s.limiter.refill first second).tokens := by
  have hearned : 0 ≤ elapsed s.limiter.lastRefill first * s.limiter.refillRate := by
    rw [h.refillRate_eq]
    exact mul_nonneg (le_max_right _ _) hrate
  apply le_min
  · linarith [h.tokens_nonneg]
  · rw [h.maxTokens_eq]
    exact hburst

theorem metered_step {c : Call} (hrate : 0 ≤ rate) (hburst : 0 ≤ burst)
    (hstep : s.step c = some s') (h : Metered rate burst s) : Metered rate burst s' := by
  obtain ⟨first,second,hlast,hsecond,hcase⟩ := step_cases hstep
  have hr := h.refills hlast hsecond
  obtain rfl | ⟨count,hcount,hle,rfl⟩ := hcase
  · exact ⟨h.refillRate_eq,h.maxTokens_eq,h.meter.refill hr,h.refill_nonneg hrate hburst _ _⟩
  · exact ⟨h.refillRate_eq,h.maxTokens_eq,h.meter.charge hr hcount hle,sub_nonneg.mpr hle⟩

theorem metered_run {now : ℚ} {calls : List Call} (hrate : 0 ≤ rate) (hburst : 0 ≤ burst)
    (hrun : run rate burst now calls = some s) : Metered rate burst s :=
  Runs.exec_invariant (fun _ _ _ hstep h => metered_step hrate hburst hstep h) hrun
    ⟨rfl,rfl,.full now,hburst⟩

/-- In every interval the limiter grants at most its burst and what the interval refills, and
its tokens stay between zero and the maximum. -/
theorem tokenBucket_run {now : ℚ} {calls : List Call} (hrate : 0 ≤ rate) (hburst : 0 ≤ burst)
    (hrun : run rate burst now calls = some s) :
    (∀ t d, 0 ≤ d → s.grantedIn t (t + d) ≤ burst + rate * d) ∧
      0 ≤ s.limiter.tokens ∧ s.limiter.tokens ≤ s.limiter.maxTokens := by
  have h := metered_run hrate hburst hrun
  have hbacked := h.meter.backed hrate hburst
  refine ⟨hbacked.within_le,h.tokens_nonneg,?_⟩
  rw [h.maxTokens_eq]
  exact hbacked.level_le

theorem tokenBucket_run_burstThenRefill :
    ∃ s, run 10 20 0 [.tryConsume 15 0 (1/10),.tryConsume 8 (1/5) (1/4),
        .availableTokens (1/2) (1/2),.tryConsume 8 1 1] = some s ∧
      s.granted = [⟨1,1,8⟩,⟨0,1/10,15⟩] ∧ s.grantedIn 0 (0 + 1) ≤ 20 + 10 * 1 := by
  have hrun : run 10 20 0 [.tryConsume 15 0 (1/10),.tryConsume 8 (1/5) (1/4),
      .availableTokens (1/2) (1/2),.tryConsume 8 1 1] =
      some ⟨⟨11/2,20,10,1⟩,[⟨1,1,8⟩,⟨0,1/10,15⟩]⟩ := by decide +kernel
  have hbound := tokenBucket_run (by norm_num) (by norm_num) hrun
  exact ⟨_,hrun,rfl,hbound.1 0 1 (by norm_num)⟩

end State
end TokenBucket
end UProtocols
