import UProtocols.Metering
import Mathlib.Data.Rat.Defs
import Mathlib.Algebra.Order.Ring.Rat
import Mathlib.Tactic.Ring

/-!
# The token bucket rate limiter in C++

`TokenBucketRateLimiter` of `mqtt_rate_limiter.cpp`: clock readings are whole nanoseconds and
tokens are rational numbers. `refill` counts the whole milliseconds since `last_refill` and then
sets `last_refill` to the clock reading, so what is left of a millisecond is lost.
-/

namespace UProtocols
namespace TokenBucketCpp

open Metering (capped)

structure TokenBucketRateLimiter where
  tokens : ℚ
  maxTokens : ℚ
  refillRate : ℚ
  lastRefill : ℤ
  deriving DecidableEq

/-- `duration_cast` from nanoseconds to milliseconds, which rounds towards zero. -/
def milliseconds (nanoseconds : ℤ) : ℤ := nanoseconds.tdiv 1000000

namespace TokenBucketRateLimiter

def new (ratePerSec burstSize : ℚ) (now : ℤ) : TokenBucketRateLimiter where
  tokens := burstSize
  maxTokens := burstSize
  refillRate := ratePerSec
  lastRefill := now

/-- What a count of milliseconds adds, before the cap. -/
def earned (l : TokenBucketRateLimiter) (count : ℤ) : ℚ := count / 1000 * l.refillRate

def refill (l : TokenBucketRateLimiter) (now : ℤ) : TokenBucketRateLimiter :=
  {l with
    tokens := min l.maxTokens (l.tokens + l.earned (milliseconds (now - l.lastRefill)))
    lastRefill := now}

def tryConsume (l : TokenBucketRateLimiter) (count : ℚ) (now : ℤ) :
    TokenBucketRateLimiter × Bool :=
  let l := l.refill now
  if l.tokens ≥ count then ({l with tokens := l.tokens - count},true) else (l,false)

def availableTokens (l : TokenBucketRateLimiter) (now : ℤ) : TokenBucketRateLimiter × ℚ :=
  let l := l.refill now
  (l,l.tokens)

/-- A refill at each of the times. -/
def refills (l : TokenBucketRateLimiter) (times : List ℤ) : TokenBucketRateLimiter :=
  times.foldl refill l

end TokenBucketRateLimiter

/-! ## What refills count -/

/-- The milliseconds that each refill counts. -/
def counts (last : ℤ) : List ℤ → List ℤ
  | [] => []
  | t::ts => milliseconds (t - last)::counts t ts

theorem milliseconds_of_nonneg {d : ℤ} (h : 0 ≤ d) : milliseconds d = d / 1000000 :=
  Int.tdiv_eq_ediv_of_nonneg h

theorem milliseconds_nonneg {d : ℤ} (h : 0 ≤ d) : 0 ≤ milliseconds d := by
  rw [milliseconds_of_nonneg h]
  omega

theorem milliseconds_add_le {d e : ℤ} (hd : 0 ≤ d) (he : 0 ≤ e) :
    milliseconds d + milliseconds e ≤ milliseconds (d + e) := by
  rw [milliseconds_of_nonneg hd,milliseconds_of_nonneg he,milliseconds_of_nonneg (by omega)]
  omega

theorem counts_nonneg {last : ℤ} {times : List ℤ} (h : (last::times).IsChain (· ≤ ·)) :
    ∀ c ∈ counts last times, 0 ≤ c := by
  induction times generalizing last with
  | nil => simp [counts]
  | cons t ts ih =>
    rw [List.isChain_cons_cons] at h
    refine List.forall_mem_cons.mpr ⟨milliseconds_nonneg ?_,ih h.2⟩
    omega

theorem le_getLastD {last : ℤ} {times : List ℤ} (h : (last::times).IsChain (· ≤ ·)) :
    last ≤ times.getLastD last := by
  induction times generalizing last with
  | nil => simp
  | cons t ts ih =>
    rw [List.isChain_cons_cons] at h
    rw [List.getLastD_cons]
    exact h.1.trans (ih h.2)

/-- Together the refills count no more than one refill at the end. -/
theorem counts_sum_le {last : ℤ} {times : List ℤ} (h : (last::times).IsChain (· ≤ ·)) :
    (counts last times).sum ≤ milliseconds (times.getLastD last - last) := by
  induction times generalizing last with
  | nil => simp [counts,milliseconds]
  | cons t ts ih =>
    rw [List.isChain_cons_cons] at h
    have hrest := le_getLastD h.2
    have hsum := milliseconds_add_le (d := t - last) (e := ts.getLastD t - t) (by omega) (by omega)
    have hsplit : t - last + (ts.getLastD t - t) = ts.getLastD t - last := by omega
    rw [hsplit] at hsum
    rw [counts,List.sum_cons,List.getLastD_cons]
    linarith [ih h.2]

namespace TokenBucketRateLimiter

variable {l : TokenBucketRateLimiter} {t : ℤ} {ts : List ℤ}

/-! ## Refills one after the other -/

theorem refills_tokens (l : TokenBucketRateLimiter) (times : List ℤ) :
    (l.refills times).tokens =
      capped l.maxTokens l.tokens ((counts l.lastRefill times).map l.earned) := by
  induction times generalizing l with
  | nil => rfl
  | cons t ts ih => exact ih (l.refill t)

theorem earned_add (c d : ℤ) : l.earned (c + d) = l.earned c + l.earned d := by
  simp only [earned]
  push_cast
  ring

theorem earned_sum (cs : List ℤ) : (cs.map l.earned).sum = l.earned cs.sum := by
  induction cs with
  | nil => simp [earned]
  | cons c cs ih => rw [List.map_cons,List.sum_cons,List.sum_cons,ih,earned_add]

theorem earned_nonneg (hrate : 0 ≤ l.refillRate) {c : ℤ} (hc : 0 ≤ c) : 0 ≤ l.earned c := by
  have hcount : (0 : ℚ) ≤ c := by exact_mod_cast hc
  exact mul_nonneg (by linarith) hrate

theorem earned_nonpos (hrate : l.refillRate ≤ 0) {c : ℤ} (hc : 0 ≤ c) : l.earned c ≤ 0 := by
  have hcount : (0 : ℚ) ≤ c := by exact_mod_cast hc
  exact mul_nonpos_of_nonneg_of_nonpos (by linarith) hrate

theorem earned_inj (hrate : l.refillRate ≠ 0) {c d : ℤ} : l.earned c = l.earned d ↔ c = d := by
  constructor
  · intro h
    have hdiv : (c : ℚ) / 1000 = d / 1000 := mul_right_cancel₀ hrate h
    have hcast : (c : ℚ) = d := by linarith
    exact_mod_cast hcast
  · intro h
    rw [h]

/-- What all the refills count together. -/
def counted (l : TokenBucketRateLimiter) (t : ℤ) (ts : List ℤ) : ℤ :=
  (counts l.lastRefill (t::ts)).sum

/-- What the first of them counts. -/
def first (l : TokenBucketRateLimiter) (t : ℤ) : ℤ := milliseconds (t - l.lastRefill)

/-- What one refill at the last of the times would count. -/
def whole (l : TokenBucketRateLimiter) (t : ℤ) (ts : List ℤ) : ℤ :=
  milliseconds (ts.getLastD t - l.lastRefill)

theorem counted_eq (l : TokenBucketRateLimiter) (t : ℤ) (ts : List ℤ) :
    l.counted t ts = l.first t + (counts t ts).sum := rfl

theorem counted_le_whole (h : (l.lastRefill::t::ts).IsChain (· ≤ ·)) :
    l.counted t ts ≤ l.whole t ts := by
  have hle := counts_sum_le h
  rw [List.getLastD_cons] at hle
  exact hle

theorem refills_tokens_of_nonneg (hrate : 0 ≤ l.refillRate)
    (h : (l.lastRefill::t::ts).IsChain (· ≤ ·)) :
    (l.refills (t::ts)).tokens = min l.maxTokens (l.tokens + l.earned (l.counted t ts)) := by
  obtain ⟨hfirst,hrest⟩ := List.forall_mem_cons.mp (counts_nonneg h)
  rw [refills_tokens,counts,List.map_cons,Metering.capped_of_nonneg (earned_nonneg hrate hfirst),
    earned_sum,← earned_add]
  · rfl
  · intro a ha
    obtain ⟨c,hc,rfl⟩ := List.mem_map.mp ha
    exact earned_nonneg hrate (hrest c hc)

theorem refills_tokens_of_nonpos (hrate : l.refillRate ≤ 0)
    (h : (l.lastRefill::t::ts).IsChain (· ≤ ·)) :
    (l.refills (t::ts)).tokens =
      min l.maxTokens (l.tokens + l.earned (l.first t)) + l.earned (counts t ts).sum := by
  obtain ⟨-,hrest⟩ := List.forall_mem_cons.mp (counts_nonneg h)
  rw [refills_tokens,counts,List.map_cons,Metering.capped_of_nonpos,earned_sum]
  · rfl
  · intro a ha
    obtain ⟨c,hc,rfl⟩ := List.mem_map.mp ha
    exact earned_nonpos hrate (hrest c hc)

/-- The splits of an interval that the bucket does not notice. With a positive rate nothing is
lost to rounding, or the bucket is full all the same. With a negative one the cap counts too:
only the first refill counts and one refill leaves the bucket full, or nothing is lost and the
first refill is not capped, or what is lost and what the cap takes away are the same. -/
def Unnoticed (l : TokenBucketRateLimiter) (t : ℤ) (ts : List ℤ) : Prop :=
  (0 < l.refillRate →
    l.counted t ts = l.whole t ts ∨ l.maxTokens ≤ l.tokens + l.earned (l.counted t ts)) ∧
  (l.refillRate < 0 →
    (l.counted t ts = l.first t ∧ l.maxTokens ≤ l.tokens + l.earned (l.whole t ts)) ∨
    (l.counted t ts = l.whole t ts ∧ l.tokens + l.earned (l.first t) ≤ l.maxTokens) ∨
    l.tokens + l.earned (l.whole t ts) =
      l.maxTokens + l.earned (l.counted t ts - l.first t))

/-- What the rounding loses, as milliseconds and as tokens. -/
theorem lost_nonneg (h : (l.lastRefill::t::ts).IsChain (· ≤ ·)) :
    0 ≤ l.whole t ts - l.counted t ts :=
  Int.sub_nonneg_of_le (counted_le_whole h)

theorem earned_whole : l.earned (l.whole t ts) =
    l.earned (l.counted t ts) + l.earned (l.whole t ts - l.counted t ts) := by
  rw [← earned_add,add_sub_cancel]

theorem refills_tokens_eq_of_pos (hrate : 0 < l.refillRate)
    (h : (l.lastRefill::t::ts).IsChain (· ≤ ·)) :
    (l.refills (t::ts)).tokens = (l.refill (ts.getLastD t)).tokens ↔
      l.counted t ts = l.whole t ts ∨ l.maxTokens ≤ l.tokens + l.earned (l.counted t ts) := by
  have hle : l.earned (l.counted t ts) ≤ l.earned (l.whole t ts) := by
    have hmore := earned_nonneg hrate.le (lost_nonneg h)
    rw [earned_whole]
    linarith
  rw [refills_tokens_of_nonneg hrate.le h,← earned_inj hrate.ne']
  simp only [refill]
  rw [← whole,Metering.min_eq_min_iff (by linarith),add_right_inj]

theorem refills_tokens_eq_of_neg (hrate : l.refillRate < 0)
    (h : (l.lastRefill::t::ts).IsChain (· ≤ ·)) :
    (l.refills (t::ts)).tokens = (l.refill (ts.getLastD t)).tokens ↔
      (l.counted t ts = l.first t ∧ l.maxTokens ≤ l.tokens + l.earned (l.whole t ts)) ∨
      (l.counted t ts = l.whole t ts ∧ l.tokens + l.earned (l.first t) ≤ l.maxTokens) ∨
      l.tokens + l.earned (l.whole t ts) =
        l.maxTokens + l.earned (l.counted t ts - l.first t) := by
  obtain ⟨-,hrest⟩ := List.forall_mem_cons.mp (counts_nonneg h)
  have hdrop : l.earned (counts t ts).sum ≤ 0 := earned_nonpos hrate.le (List.sum_nonneg hrest)
  have hle : l.earned (l.whole t ts) ≤ l.earned (l.first t) + l.earned (counts t ts).sum := by
    have hmore := earned_nonpos hrate.le (lost_nonneg h)
    rw [← earned_add,← counted_eq,earned_whole]
    linarith
  have hzero : l.earned (counts t ts).sum = 0 ↔ l.counted t ts = l.first t := by
    have hnone : l.earned 0 = 0 := by simp [earned]
    rw [← hnone,earned_inj hrate.ne,counted_eq]
    omega
  have hsame : l.earned (l.first t) + l.earned (counts t ts).sum = l.earned (l.whole t ts) ↔
      l.counted t ts = l.whole t ts := by
    rw [← earned_add,earned_inj hrate.ne,counted_eq]
  have hlater : l.counted t ts - l.first t = (counts t ts).sum := by
    rw [counted_eq]
    omega
  rw [refills_tokens_of_nonpos hrate.le h,hlater,← hzero,← hsame]
  simp only [refill]
  rw [← whole,Metering.min_add_eq_min_iff hdrop hle]

/-- Refilling at each of the times leaves the tokens of one refill at the last of them, exactly
when the split is one that the bucket does not notice. -/
theorem refills_tokens_eq_refill_iff (l : TokenBucketRateLimiter) (t : ℤ) (ts : List ℤ)
    (h : (l.lastRefill::t::ts).IsChain (· ≤ ·)) :
    (l.refills (t::ts)).tokens = (l.refill (ts.getLastD t)).tokens ↔ l.Unnoticed t ts := by
  obtain hneg | hzero | hpos := lt_trichotomy l.refillRate 0
  · have hiff := refills_tokens_eq_of_neg hneg h
    rw [hiff,Unnoticed]
    simp only [hneg,not_lt_of_gt hneg,false_implies,true_and,true_implies]
  · have hsame : (l.refills (t::ts)).tokens = (l.refill (ts.getLastD t)).tokens := by
      rw [refills_tokens_of_nonneg hzero.ge h]
      simp [refill,earned,hzero]
    refine iff_of_true hsame ⟨?_,?_⟩
    · intro hpos
      exact absurd hzero hpos.ne'
    · intro hneg
      exact absurd hzero hneg.ne
  · have hiff := refills_tokens_eq_of_pos hpos h
    rw [hiff,Unnoticed]
    simp only [hpos,not_lt_of_gt hpos,false_implies,and_true,true_implies]

/-- A bucket of ten tokens that were all taken at once. -/
def drained : TokenBucketRateLimiter := ((new 1 10 0).tryConsume 10 0).1

theorem drained_eq : drained = ⟨0,10,1,0⟩ := by decide +kernel

/-- Two refills, two milliseconds apart each. -/
theorem refills_tokens_eq_refill_even :
    (drained.refills [2000000,4000000]).tokens = (drained.refill 4000000).tokens := by
  rw [drained_eq]
  refine (refills_tokens_eq_refill_iff ⟨0,10,1,0⟩ 2000000 [4000000] (by decide)).mpr ⟨?_,?_⟩
  · intro _
    exact .inl (by decide)
  · intro hneg
    exact absurd hneg (by decide)

/-- An empty bucket that is looked at every half millisecond stays empty. -/
theorem refills_half_milliseconds :
    (drained.lastRefill::[500000,1000000]).IsChain (· ≤ ·) ∧
    (drained.refills [500000,1000000]).tokens = 0 ∧
    (drained.refill 1000000).tokens = 1 / 1000 := by
  decide +kernel

/-! ## Callers that come too often -/

theorem refill_within_millisecond {now : ℤ} (hnow : l.lastRefill ≤ now)
    (hsoon : now - l.lastRefill < 1000000) (hfull : l.tokens ≤ l.maxTokens) :
    l.refill now = {l with lastRefill := now} := by
  have hzero : milliseconds (now - l.lastRefill) = 0 := by
    rw [milliseconds_of_nonneg (by omega)]
    omega
  simp [refill,hzero,earned,hfull]

end TokenBucketRateLimiter

inductive Call
  | tryConsume (count : ℚ) (now : ℤ)
  | availableTokens (now : ℤ)
  deriving DecidableEq

namespace Call

def now : Call → ℤ
  | tryConsume _ now => now
  | availableTokens now => now

/-- The call asks for more than `tokens`. -/
def Exceeds (tokens : ℚ) : Call → Prop
  | tryConsume count _ => tokens < count
  | availableTokens _ => True

/-- The limiter after a call, and whether tokens were granted. -/
def perform (l : TokenBucketRateLimiter) : Call → TokenBucketRateLimiter × Bool
  | tryConsume count now => l.tryConsume count now
  | availableTokens now => ((l.availableTokens now).1,false)

/-- Calls one after the other, with what each was granted. -/
def performAll (l : TokenBucketRateLimiter) : List Call → TokenBucketRateLimiter × List Bool
  | [] => (l,[])
  | c::cs =>
    let (l,granted) := c.perform l
    ((performAll l cs).1,granted::(performAll l cs).2)

variable {l : TokenBucketRateLimiter}

theorem perform_within_millisecond {c : Call} (hfull : l.tokens ≤ l.maxTokens)
    (hnow : l.lastRefill ≤ c.now) (hsoon : c.now - l.lastRefill < 1000000)
    (hc : c.Exceeds l.tokens) : c.perform l = ({l with lastRefill := c.now},false) := by
  have hrefill := TokenBucketRateLimiter.refill_within_millisecond hnow hsoon hfull
  cases c with
  | tryConsume count now =>
    simp only [Call.now] at hrefill
    simp only [perform,TokenBucketRateLimiter.tryConsume,hrefill]
    exact if_neg (not_le.mpr hc)
  | availableTokens now =>
    simp only [Call.now] at hrefill
    simp only [perform,TokenBucketRateLimiter.availableTokens,hrefill,Call.now]

/-- Callers that come within a millisecond of each other and ask for more than there is are all
refused, however long they go on. -/
theorem performAll_starved (hfull : l.tokens ≤ l.maxTokens) {cs : List Call}
    (hcs : ∀ c ∈ cs, c.Exceeds l.tokens)
    (h : (l.lastRefill::cs.map now).IsChain fun s t => s ≤ t ∧ t - s < 1000000) :
    performAll l cs =
      ({l with lastRefill := (cs.map now).getLastD l.lastRefill},cs.map fun _ => false) := by
  induction cs generalizing l with
  | nil => rfl
  | cons c cs ih =>
    obtain ⟨hc,hrest⟩ := List.forall_mem_cons.mp hcs
    rw [List.map_cons,List.isChain_cons_cons] at h
    have hone := perform_within_millisecond hfull h.1.1 h.1.2 hc
    have hall := ih (l := {l with lastRefill := c.now}) hfull hrest h.2
    simp only [performAll,hone,hall,List.map_cons,List.getLastD_cons]

end Call
end TokenBucketCpp
end UProtocols
