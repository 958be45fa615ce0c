import UProtocols.TokenBucket

/-!
# The adaptive rate limiter

`AdaptiveRateLimiter` of `mqtt_rate_limiter.rs`. A report of success or failure changes the
rate and replaces the inner bucket by a full one, whatever was granted before. The limit
holds as long as no report hands out tokens that the grants before it leave no room for.
-/

namespace UProtocols
namespace TokenBucket

open Metering (Charge Refills Backed since within)

structure AdaptiveRateLimiter where
  baseRate : ℚ
  currentRate : ℚ
  minRate : ℚ
  maxRate : ℚ
  limiter : TokenBucketRateLimiter
  deriving DecidableEq

namespace AdaptiveRateLimiter

def new (baseRate minRate maxRate now : ℚ) : AdaptiveRateLimiter where
  baseRate := baseRate
  currentRate := baseRate
  minRate := minRate
  maxRate := maxRate
  limiter := .new baseRate (baseRate * 2) now

def tryConsume (a : AdaptiveRateLimiter) (first second : ℚ) : AdaptiveRateLimiter × Bool :=
  let (l,ok) := a.limiter.tryConsume 1 first second
  ({a with limiter := l},ok)

def updateLimiter (a : AdaptiveRateLimiter) (now : ℚ) : AdaptiveRateLimiter :=
  {a with limiter := .new a.currentRate (a.currentRate * 2) now}

def reportSuccess (a : AdaptiveRateLimiter) (now : ℚ) : AdaptiveRateLimiter :=
  {a with currentRate := min (a.currentRate * (105/100)) a.maxRate}.updateLimiter now

def reportFailure (a : AdaptiveRateLimiter) (now : ℚ) : AdaptiveRateLimiter :=
  {a with currentRate := max (a.currentRate * (1/2)) a.minRate}.updateLimiter now

end AdaptiveRateLimiter

namespace Adaptive

/-- A call with its clock readings. -/
inductive Call
  | tryConsume (first second : ℚ)
  | reportSuccess (now : ℚ)
  | reportFailure (now : ℚ)
  deriving DecidableEq

/-- The limiter and the calls it has granted, the last one first. -/
structure State where
  adaptive : AdaptiveRateLimiter
  granted : List (Charge ℚ)
  deriving DecidableEq

namespace State

/-- The clock does not go back; the last reading is `last_refill`. -/
def step (s : State) : Call → Option State
  | .tryConsume first second =>
    if s.adaptive.limiter.lastRefill ≤ first ∧ first ≤ second then
      let (a,ok) := s.adaptive.tryConsume first second
      some ⟨a,if ok then ⟨first,second,1⟩::s.granted else s.granted⟩
    else none
  | .reportSuccess now =>
    if s.adaptive.limiter.lastRefill ≤ now then some {s with adaptive := s.adaptive.reportSuccess now}
    else none
  | .reportFailure now =>
    if s.adaptive.limiter.lastRefill ≤ now then some {s with adaptive := s.adaptive.reportFailure now}
    else none

def new (baseRate minRate maxRate now : ℚ) : State := ⟨.new baseRate minRate maxRate now,[]⟩

def run (baseRate minRate maxRate now : ℚ) (calls : List Call) : Option State :=
  Runs.exec step (new baseRate minRate maxRate now) calls

/-- The number of calls granted in an interval; a call that is in progress at one moment of
the interval counts. -/
def grantsIn (s : State) (t u : ℚ) : ℕ := s.granted.countP fun c => t ≤ c.stop ∧ c.start ≤ u

/-- The limit that the configured maximum rate stands for. -/
def Limited (s : State) : Prop :=
  ∀ t d, 0 ≤ d → (s.grantsIn t (t + d) : ℚ) ≤ 2 * s.adaptive.maxRate + s.adaptive.maxRate * d

/-- A fresh bucket at `now` keeps within the limit: from every earlier grant on, the grants and
the tokens of the bucket are at most what the limit allows up to `now`. -/
def Room (s : State) (tokens now : ℚ) : Prop :=
  ∀ c ∈ s.granted, since c.stop s.granted + tokens ≤
    2 * s.adaptive.maxRate + (now - c.stop) * s.adaptive.maxRate

instance (s : State) (tokens now : ℚ) : Decidable (s.Room tokens now) :=
  List.decidableBAll _ _

/-- A report finds room for the burst of the rate it changes to. -/
def Earned (s : State) : Call → Prop
  | .tryConsume _ _ => True
  | .reportSuccess now =>
    s.Room (min (s.adaptive.currentRate * (105/100)) s.adaptive.maxRate * 2) now
  | .reportFailure now =>
    s.Room (max (s.adaptive.currentRate * (1/2)) s.adaptive.minRate * 2) now

instance (s : State) : ∀ c, Decidable (s.Earned c)
  | .tryConsume _ _ => isTrue trivial
  | .reportSuccess now => inferInstanceAs (Decidable (s.Room _ now))
  | .reportFailure now => inferInstanceAs (Decidable (s.Room _ now))

/-! ## What a call does -/

variable {s s' : State} {c : Call}

/-- A call refills the bucket, takes a token from the refilled bucket, or is a report that makes
a bucket of another rate. -/
theorem step_cases (h : s.step c = some s') :
    (∃ first second, c = .tryConsume first second ∧
      s.adaptive.limiter.lastRefill ≤ first ∧ first ≤ second ∧
      (s' = {s with adaptive.limiter := s.adaptive.limiter.refill first second} ∨
        1 ≤ (s.adaptive.limiter.refill first second).tokens ∧
          s' = ⟨{s.adaptive with limiter := {s.adaptive.limiter.refill first second with
            tokens := (s.adaptive.limiter.refill first second).tokens - 1}},
            ⟨first,second,1⟩::s.granted⟩)) ∨
    ∃ now, s.adaptive.limiter.lastRefill ≤ now ∧
      (c = .reportSuccess now ∧ s' = {s with adaptive := s.adaptive.reportSuccess now} ∨
        c = .reportFailure now ∧ s' = {s with adaptive := s.adaptive.reportFailure now}) := by
  cases c with
  | tryConsume first second =>
    by_cases hclock : s.adaptive.limiter.lastRefill ≤ first ∧ first ≤ second
    · refine .inl ⟨first,second,rfl,hclock.1,hclock.2,?_⟩
      by_cases hgrant : 1 ≤ (s.adaptive.limiter.refill first second).tokens
      · simp only [step,if_pos hclock,AdaptiveRateLimiter.tryConsume,
          TokenBucketRateLimiter.tryConsume_granted hgrant] at h
        cases h
        exact .inr ⟨hgrant,rfl⟩
      · simp only [step,if_pos hclock,AdaptiveRateLimiter.tryConsume,
          TokenBucketRateLimiter.tryConsume_refused hgrant] at h
        cases h
        exact .inl rfl
    · simp only [step,if_neg hclock] at h
      cases h
  | reportSuccess now =>
    simp only [step] at h
    split_ifs at h with hclock
    cases h
    exact .inr ⟨now,hclock,.inl ⟨rfl,rfl⟩⟩
  | reportFailure now =>
    simp only [step] at h
    split_ifs at h with hclock
    cases h
    exact .inr ⟨now,hclock,.inr ⟨rfl,rfl⟩⟩

/-! ## Runs whose reports are earned -/

/-- The bucket has the current rate, which lies between the configured ones, and the grants
are backed by a meter of the maximum rate. -/
structure Tracked (minRate maxRate : ℚ) (s : State) : Prop where
  minRate_eq : s.adaptive.minRate = minRate
  maxRate_eq : s.adaptive.maxRate = maxRate
  currentRate_nonneg : 0 ≤ s.adaptive.currentRate
  currentRate_le : s.adaptive.currentRate ≤ maxRate
  refillRate_eq : s.adaptive.limiter.refillRate = s.adaptive.currentRate
  maxTokens_eq : s.adaptive.limiter.maxTokens = s.adaptive.currentRate * 2
  backed : Backed maxRate (2 * maxRate) s.granted s.adaptive.limiter.tokens
    s.adaptive.limiter.lastRefill
  amount_eq : ∀ g ∈ s.granted, g.amount = 1

variable {minRate maxRate : ℚ}

theorem Tracked.refills (h : Tracked minRate maxRate s) {first second : ℚ}
    (hlast : s.adaptive.limiter.lastRefill ≤ first) (hsecond : first ≤ second) :
    Refills maxRate (2 * maxRate) s.adaptive.limiter.tokens s.adaptive.limiter.lastRefill
      first second (s.adaptive.limiter.refill first second).tokens := by
  have helapsed : elapsed s.adaptive.limiter.lastRefill first =
      first - s.adaptive.limiter.lastRefill := by
    apply max_eq_left
    linarith
  refine ⟨hlast,hsecond,?_,?_⟩
  · calc (s.adaptive.limiter.refill first second).tokens
        ≤ s.adaptive.limiter.maxTokens := min_le_right _ _
      _ = s.adaptive.currentRate * 2 := h.maxTokens_eq
      _ ≤ 2 * maxRate := by linarith [h.currentRate_le]
  · have hrate : elapsed s.adaptive.limiter.lastRefill first * s.adaptive.limiter.refillRate ≤
        (first - s.adaptive.limiter.lastRefill) * maxRate := by
      rw [helapsed,h.refillRate_eq]
      exact mul_le_mul_of_nonneg_left h.currentRate_le (by linarith)
    calc (s.adaptive.limiter.refill first second).tokens
        ≤ s.adaptive.limiter.tokens +
          elapsed s.adaptive.limiter.lastRefill first * s.adaptive.limiter.refillRate :=
        min_le_left _ _
      _ ≤ _ := by linarith

/-- A report that finds room for its bucket keeps the grants backed. -/
theorem Tracked.report {rate now : ℚ} (h : Tracked minRate maxRate s)
    (hnonneg : 0 ≤ rate) (hle : rate ≤ maxRate)
    (hlast : s.adaptive.limiter.lastRefill ≤ now) (hroom : s.Room (rate * 2) now) :
    Tracked minRate maxRate
      {s with adaptive := {s.adaptive with currentRate := rate}.updateLimiter now} where
  minRate_eq := h.minRate_eq
  maxRate_eq := h.maxRate_eq
  currentRate_nonneg := hnonneg
  currentRate_le := hle
  refillRate_eq := rfl
  maxTokens_eq := rfl
  backed := by
    apply h.backed.reset (hnonneg.trans hle) hlast
    · change rate * 2 ≤ 2 * maxRate
      linarith
    · intro g hg
      have hg' := hroom g hg
      rw [h.maxRate_eq] at hg'
      exact hg'
  amount_eq := h.amount_eq

theorem tracked_step (hmin : 0 < minRate) (hle : minRate ≤ maxRate)
    (hstep : s.step c = some s') (hearned : s.Earned c) (h : Tracked minRate maxRate s) :
    Tracked minRate maxRate s' := by
  have hrate : 0 ≤ maxRate := le_of_lt (lt_of_lt_of_le hmin hle)
  obtain ⟨first,second,-,hlast,hsecond,hcase⟩ | ⟨now,hlast,hcase⟩ := step_cases hstep
  · have hr := h.refills hlast hsecond
    obtain rfl | ⟨hgrant,rfl⟩ := hcase
    · exact {h with backed := h.backed.refill hrate hr}
    · refine {h with
        backed := h.backed.charge hrate hr zero_le_one hgrant
        amount_eq := ?_}
      intro g hg
      cases hg with
      | head => rfl
      | tail _ hg => exact h.amount_eq g hg
  · obtain ⟨rfl,rfl⟩ | ⟨rfl,rfl⟩ := hcase
    · apply h.report _ _ hlast hearned
      · apply le_min
        · linarith [h.currentRate_nonneg]
        · rw [h.maxRate_eq]
          exact hrate
      · rw [← h.maxRate_eq]
        exact min_le_right _ _
    · apply h.report _ _ hlast hearned
      · apply le_max_of_le_right
        rw [h.minRate_eq]
        exact le_of_lt hmin
      · apply max_le
        · linarith [h.currentRate_nonneg,h.currentRate_le]
        · rw [h.minRate_eq]
          exact hle

theorem Tracked.limited (h : Tracked minRate maxRate s) : s.Limited := by
  intro t d hd
  have hwithin := h.backed.within_le t d hd
  rw [Metering.within_eq_countP h.amount_eq] at hwithin
  rw [h.maxRate_eq]
  exact hwithin

/-- As long as every report finds room for the bucket it makes, the number of calls granted in an
interval is at most what the maximum rate and its burst allow. -/
theorem limited_run {baseRate minRate maxRate now : ℚ} {calls : List Call} {s : State}
    (hmin : 0 < minRate) (hbase : minRate ≤ baseRate) (hmax : baseRate ≤ maxRate)
    (hrun : run baseRate minRate maxRate now calls = some s)
    (hearned : Runs.Along step Earned (new baseRate minRate maxRate now) calls) :
    s.Limited ∧ s.adaptive.maxRate = maxRate := by
  have hrate : 0 ≤ maxRate := by linarith
  have hnew : Tracked minRate maxRate (new baseRate minRate maxRate now) := by
    refine ⟨rfl,rfl,?_,hmax,rfl,rfl,?_,?_⟩
    · change 0 ≤ baseRate
      linarith
    · apply (Backed.full hrate (by linarith) now).reset hrate (le_refl now)
      · change baseRate * 2 ≤ 2 * maxRate
        linarith
      · simp [new]
    · simp [new]
  have hlast : Tracked minRate maxRate s :=
    Runs.exec_invariant_of_along
      (fun _ _ _ hstep hc h => tracked_step hmin (hbase.trans hmax) hstep hc h) hrun hearned hnew
  exact ⟨hlast.limited,hlast.maxRate_eq⟩

theorem limited_run_laterReports :
    ∃ s, run 10 5 20 0 [.tryConsume 0 0,.reportSuccess 0,.tryConsume 0 0,.tryConsume 0 (1/10),
        .reportFailure 1,.tryConsume 1 1] = some s ∧
      s.granted.length = 4 ∧ s.Limited := by
  have hrun : run 10 5 20 0 [.tryConsume 0 0,.reportSuccess 0,.tryConsume 0 0,
      .tryConsume 0 (1/10),.reportFailure 1,.tryConsume 1 1] =
      some ⟨⟨10,21/4,5,20,⟨19/2,21/2,21/4,1⟩⟩,[⟨1,1,1⟩,⟨0,1/10,1⟩,⟨0,0,1⟩,⟨0,0,1⟩]⟩ := by
    decide +kernel
  have hlimit := limited_run (by norm_num) (by norm_num) (by norm_num) hrun (by decide +kernel)
  exact ⟨_,hrun,rfl,hlimit.1⟩

/-- A report at any time fills the bucket again: at maximum rate 1 a report of success after
two grants gives two more at once, where the limit is two. -/
theorem limited_run_refilledByReport :
    ¬ ∀ (baseRate minRate maxRate now : ℚ) (calls : List Call) (s : State), 0 < minRate →
      minRate ≤ baseRate → baseRate ≤ maxRate →
      run baseRate minRate maxRate now calls = some s → s.Limited := by
  intro h
  have hrun : run 1 1 1 0 [.tryConsume 0 0,.tryConsume 0 0,.reportSuccess 0,.tryConsume 0 0,
      .tryConsume 0 0] =
      some ⟨⟨1,1,1,1,⟨0,2,1,0⟩⟩,[⟨0,0,1⟩,⟨0,0,1⟩,⟨0,0,1⟩,⟨0,0,1⟩]⟩ := by decide +kernel
  have hlimit := h 1 1 1 0 _ _ (by norm_num) (le_refl 1) (le_refl 1) hrun 0 0 (le_refl 0)
  have hcount : (State.mk ⟨1,1,1,1,⟨0,2,1,0⟩⟩
      [⟨0,0,1⟩,⟨0,0,1⟩,⟨0,0,1⟩,⟨0,0,1⟩]).grantsIn 0 (0 + 0) = 4 := by decide +kernel
  rw [hcount] at hlimit
  norm_num at hlimit

end State
end Adaptive
end TokenBucket
end UProtocols
