import Mathlib.Algebra.Order.Field.Basic
import Mathlib.Tactic.Linarith
import Mathlib.Tactic.Positivity

/-!
# Meters

A meter holds a level that time refills at a rate, up to a burst, and that charges draw on.
A call reads the clock twice: the time up to the first reading refills the level, and the
next call counts from the second one. What is charged in an interval is at most the burst and
what the interval refills. The level may also be refilled by less than the elapsed time gives.
-/

namespace UProtocols
namespace Metering

variable {K : Type} [Field K] [LinearOrder K]

/-- An amount charged by a call that read the clock at `start` and at `stop`. -/
structure Charge (K : Type) where
  start : K
  stop : K
  amount : K
  deriving DecidableEq

/-- What was charged by calls that read the clock at `t` or later. -/
def since (t : K) : List (Charge K) → K
  | [] => 0
  | c::log => (if t ≤ c.stop then c.amount else 0) + since t log

/-- What was charged by calls some moment of which lies between `t` and `u`. -/
def within (t u : K) : List (Charge K) → K
  | [] => 0
  | c::log => (if t ≤ c.stop ∧ c.start ≤ u then c.amount else 0) + within t u log

theorem since_eq_zero {t : K} {log : List (Charge K)} (h : ∀ c ∈ log, c.stop < t) :
    since t log = 0 := by
  induction log with
  | nil => rfl
  | cons c log ih =>
    have hc : ¬ t ≤ c.stop := not_le.mpr (h c (by simp))
    have hlog : since t log = 0 := by
      apply ih
      intro c' hc'
      exact h c' (by simp [hc'])
    simp [since,hc,hlog]

theorem since_congr {t u : K} {log : List (Charge K)} (h : ∀ c ∈ log, t ≤ c.stop ↔ u ≤ c.stop) :
    since t log = since u log := by
  induction log with
  | nil => rfl
  | cons c log ih =>
    have hc := h c (by simp)
    have hlog : since t log = since u log := by
      apply ih
      intro c' hc'
      exact h c' (by simp [hc'])
    simp only [since,hc,hlog]

omit [Field K] in
theorem exists_oldest {t : K} {log : List (Charge K)} (h : ∃ c ∈ log, t ≤ c.stop) :
    ∃ c ∈ log, t ≤ c.stop ∧ ∀ c' ∈ log, t ≤ c'.stop → c.stop ≤ c'.stop := by
  induction log with
  | nil => simp at h
  | cons c log ih =>
    by_cases hlog : ∃ c' ∈ log, t ≤ c'.stop
    · obtain ⟨b,hb,hbt,hleast⟩ := ih hlog
      by_cases hc : t ≤ c.stop ∧ c.stop ≤ b.stop
      · refine ⟨c,by simp,hc.1,?_⟩
        intro c' hc' ht
        cases hc' with
        | head => exact le_refl _
        | tail _ hc' => exact hc.2.trans (hleast c' hc' ht)
      · refine ⟨b,by simp [hb],hbt,?_⟩
        intro c' hc' ht
        cases hc' with
        | head => exact le_of_lt (not_le.mp fun hle => hc ⟨ht,hle⟩)
        | tail _ hc' => exact hleast c' hc' ht
    · obtain ⟨b,hb,hbt⟩ := h
      cases hb with
      | tail _ hb => exact absurd ⟨b,hb,hbt⟩ hlog
      | head =>
        refine ⟨c,by simp,hbt,?_⟩
        intro c' hc' ht
        cases hc' with
        | head => exact le_refl _
        | tail _ hc' => exact absurd ⟨c',hc',ht⟩ hlog

/-- The charges since `t` are those since the oldest of them. -/
theorem since_eq_of_oldest (t : K) (log : List (Charge K)) :
    since t log = 0 ∨ ∃ c ∈ log, t ≤ c.stop ∧ since t log = since c.stop log := by
  by_cases hsome : ∃ c ∈ log, t ≤ c.stop
  · obtain ⟨c,hc,hct,hleast⟩ := exists_oldest hsome
    refine .inr ⟨c,hc,hct,since_congr ?_⟩
    intro c' hc'
    exact ⟨hleast c' hc',fun hle => hct.trans hle⟩
  · left
    apply since_eq_zero
    intro c hc
    exact not_le.mp fun hle => hsome ⟨c,hc,hle⟩

theorem within_le_since [IsStrictOrderedRing K] {t u : K} {log : List (Charge K)}
    (h : ∀ c ∈ log, 0 ≤ c.amount) : within t u log ≤ since t log := by
  induction log with
  | nil => exact le_refl _
  | cons c log ih =>
    have hlog : within t u log ≤ since t log := by
      apply ih
      intro c' hc'
      exact h c' (by simp [hc'])
    have hc := h c (by simp)
    by_cases ht : t ≤ c.stop
    · by_cases hu : c.start ≤ u
      · simp [within,since,ht,hu,hlog]
      · simp only [within,since,ht,hu,and_false,if_false,if_true]
        linarith
    · simp [within,since,ht,hlog]

/-- Charges of one each are counted. -/
theorem within_eq_countP {t u : K} {log : List (Charge K)} (h : ∀ c ∈ log, c.amount = 1) :
    within t u log = (log.countP fun c => t ≤ c.stop ∧ c.start ≤ u : ℕ) := by
  induction log with
  | nil => simp [within]
  | cons c log ih =>
    have hlog := ih fun c' hc' => h c' (by simp [hc'])
    by_cases hin : t ≤ c.stop ∧ c.start ≤ u
    · rw [within,if_pos hin,h c (by simp),hlog,List.countP_cons_of_pos (by simpa using hin)]
      push_cast
      exact add_comm _ _
    · rw [within,if_neg hin,hlog,List.countP_cons_of_neg (by simpa using hin),zero_add]

/-! ## Meters -/

/-- A call at `start` and `stop` refills the level from what it was at `last`. -/
structure Refills (rate burst level last start stop level' : K) : Prop where
  later : last ≤ start
  ordered : start ≤ stop
  capped : level' ≤ burst
  earned : level' ≤ level + (start - last) * rate

/-- The logs, levels and times of last refill that a meter can come to. -/
inductive Meter (rate burst : K) : List (Charge K) → K → K → Prop
  | full (t : K) : Meter rate burst [] burst t
  | refill {log : List (Charge K)} {level last start stop level' : K} :
      Meter rate burst log level last → Refills rate burst level last start stop level' →
      Meter rate burst log level' stop
  | charge {log : List (Charge K)} {level last start stop level' amount : K} :
      Meter rate burst log level last → Refills rate burst level last start stop level' →
      0 ≤ amount → amount ≤ level' →
      Meter rate burst (⟨start,stop,amount⟩::log) (level' - amount) stop

/-! ## Bounds -/

/-- What a meter guarantees. The charges since a moment and the level are together at most the
burst and what was refilled since then; an interval's charges are at most the burst and what
the interval refills. -/
structure Backed (rate burst : K) (log : List (Charge K)) (level last : K) : Prop where
  stop_le : ∀ c ∈ log, c.stop ≤ last
  amount_nonneg : ∀ c ∈ log, 0 ≤ c.amount
  level_le : level ≤ burst
  since_add_level : ∀ t ≤ last, since t log + level ≤ burst + (last - t) * rate
  within_le : ∀ t d, 0 ≤ d → within t (t + d) log ≤ burst + rate * d

namespace Backed

variable [IsStrictOrderedRing K] {rate burst level last start stop level' : K}
  {log : List (Charge K)}

theorem full (hrate : 0 ≤ rate) (hburst : 0 ≤ burst) (t₀ : K) :
    Backed rate burst [] burst t₀ where
  stop_le := by simp
  amount_nonneg := by simp
  level_le := le_refl _
  since_add_level := by
    intro t ht
    have hpos : 0 ≤ (t₀ - t) * rate := mul_nonneg (by linarith) hrate
    simp only [since]
    linarith
  within_le := by
    intro t d hd
    have hpos : 0 ≤ rate * d := mul_nonneg hrate hd
    simp only [within]
    linarith

/-- The charges since `t` and a refilled level: at most the burst and what was refilled
since `t`. -/
theorem since_add_refilled (hrate : 0 ≤ rate) (h : Backed rate burst log level last)
    (hr : Refills rate burst level last start stop level') (t : K) :
    since t log + level' ≤ burst + max (start - t) 0 * rate := by
  by_cases ht : t ≤ last
  · have hmax : max (start - t) 0 = start - t := by
      apply max_eq_left
      linarith [hr.later]
    rw [hmax]
    linarith [h.since_add_level t ht,hr.earned]
  · -- no call since `t`: the level is all there is
    have hpos : 0 ≤ max (start - t) 0 * rate := mul_nonneg (le_max_right _ _) hrate
    have hnone : since t log = 0 := by
      apply since_eq_zero
      intro c hc
      exact lt_of_le_of_lt (h.stop_le c hc) (not_le.mp ht)
    rw [hnone]
    linarith [hr.capped]

theorem since_add_later (hrate : 0 ≤ rate) (h : Backed rate burst log level last)
    (hr : Refills rate burst level last start stop level') {t : K} (ht : t ≤ stop) :
    since t log + level' ≤ burst + (stop - t) * rate := by
  have hcall := h.since_add_refilled hrate hr t
  have hlater : max (start - t) 0 * rate ≤ (stop - t) * rate := by
    apply mul_le_mul_of_nonneg_right _ hrate
    exact max_le (by linarith [hr.ordered]) (by linarith)
  linarith

theorem refill (hrate : 0 ≤ rate) (h : Backed rate burst log level last)
    (hr : Refills rate burst level last start stop level') :
    Backed rate burst log level' stop where
  stop_le := fun c hc => (h.stop_le c hc).trans (hr.later.trans hr.ordered)
  amount_nonneg := h.amount_nonneg
  level_le := hr.capped
  since_add_level := fun _ ht => h.since_add_later hrate hr ht
  within_le := h.within_le

theorem charge {amount : K} (hrate : 0 ≤ rate) (h : Backed rate burst log level last)
    (hr : Refills rate burst level last start stop level') (hamount : 0 ≤ amount)
    (hle : amount ≤ level') :
    Backed rate burst (⟨start,stop,amount⟩::log) (level' - amount) stop where
  stop_le := by
    intro c hc
    cases hc with
    | head => exact le_refl _
    | tail _ hc => exact (h.refill hrate hr).stop_le c hc
  amount_nonneg := by
    intro c hc
    cases hc with
    | head => exact hamount
    | tail _ hc => exact h.amount_nonneg c hc
  level_le := by linarith [hr.capped]
  since_add_level := by
    intro t ht
    have hlater := h.since_add_later hrate hr ht
    simp only [since,ht,if_true]
    linarith
  within_le := by
    intro t d hd
    by_cases hin : t ≤ stop ∧ start ≤ t + d
    · -- every charge so far counts at most from `t`, and nothing is refilled past `t + d`
      have hcall := h.since_add_refilled hrate hr t
      have hmax : max (start - t) 0 * rate ≤ d * rate := by
        apply mul_le_mul_of_nonneg_right _ hrate
        exact max_le (by linarith [hin.2]) hd
      have hlog := within_le_since (t := t) (u := t + d) h.amount_nonneg
      simp only [within,hin,and_self,if_true]
      linarith
    · simp only [within,hin,if_false,zero_add]
      exact h.within_le t d hd

/-- The level is set anew, to what the charges since each of them leave room for. -/
theorem reset {now : K} (hrate : 0 ≤ rate) (h : Backed rate burst log level last)
    (hnow : last ≤ now) (hcap : level' ≤ burst)
    (hroom : ∀ c ∈ log, since c.stop log + level' ≤ burst + (now - c.stop) * rate) :
    Backed rate burst log level' now where
  stop_le := fun c hc => (h.stop_le c hc).trans hnow
  amount_nonneg := h.amount_nonneg
  level_le := hcap
  since_add_level := by
    intro t ht
    obtain hnone | ⟨c,hc,hct,heq⟩ := since_eq_of_oldest t log
    · have hpos : 0 ≤ (now - t) * rate := mul_nonneg (by linarith) hrate
      rw [hnone]
      linarith
    · have hmono : (now - c.stop) * rate ≤ (now - t) * rate :=
        mul_le_mul_of_nonneg_right (by linarith) hrate
      rw [heq]
      linarith [hroom c hc]
  within_le := h.within_le

end Backed

/-- Every meter is backed. -/
theorem Meter.backed [IsStrictOrderedRing K] {rate burst level last : K} {log : List (Charge K)}
    (hrate : 0 ≤ rate) (hburst : 0 ≤ burst) (h : Meter rate burst log level last) :
    Backed rate burst log level last := by
  induction h with
  | full t => exact .full hrate hburst t
  | refill _ hr ih => exact ih.refill hrate hr
  | charge _ hr hamount hle ih => exact ih.charge hrate hr hamount hle

/-! ## Capped levels -/

/-- A level that changes by amounts and is capped after each of them. -/
def capped (cap level : K) (amounts : List K) : K :=
  amounts.foldl (fun level amount => min cap (level + amount)) level

section Capped

variable [IsStrictOrderedRing K] {cap level amount : K} {amounts : List K}

/-- For amounts that are not negative, one cap at the end is enough. -/
theorem capped_of_nonneg (hamount : 0 ≤ amount) (h : ∀ a ∈ amounts, 0 ≤ a) :
    capped cap level (amount::amounts) = min cap (level + (amount + amounts.sum)) := by
  induction amounts generalizing level amount with
  | nil => simp [capped]
  | cons next amounts ih =>
    obtain ⟨hnext,hrest⟩ := List.forall_mem_cons.mp h
    have hsum : 0 ≤ next + amounts.sum := add_nonneg hnext (List.sum_nonneg hrest)
    have hcap : cap ≤ cap + (next + amounts.sum) := le_add_of_nonneg_right hsum
    calc
      capped cap level (amount::next::amounts)
        = capped cap (min cap (level + amount)) (next::amounts) := rfl
      _ = min cap (min cap (level + amount) + (next + amounts.sum)) := ih hnext hrest
      _ = min cap (level + amount + (next + amounts.sum)) := by
        rw [← min_add_add_right,← min_assoc,min_eq_left hcap]
      _ = min cap (level + (amount + (next::amounts).sum)) := by
        rw [List.sum_cons,add_assoc]

/-- For later amounts that are not positive, only the first cap counts. -/
theorem capped_of_nonpos (h : ∀ a ∈ amounts, a ≤ 0) :
    capped cap level (amount::amounts) = min cap (level + amount) + amounts.sum := by
  induction amounts generalizing level amount with
  | nil => simp [capped]
  | cons next amounts ih =>
    obtain ⟨hnext,hrest⟩ := List.forall_mem_cons.mp h
    have hbelow : min cap (level + amount) + next ≤ cap := by
      linarith [min_le_left cap (level + amount)]
    calc
      capped cap level (amount::next::amounts)
        = capped cap (min cap (level + amount)) (next::amounts) := rfl
      _ = min cap (min cap (level + amount) + next) + amounts.sum := ih hrest
      _ = min cap (level + amount) + (next::amounts).sum := by
        rw [min_eq_right hbelow,List.sum_cons,add_assoc]

omit [Field K] in
theorem min_eq_min_iff {x y : K} (h : x ≤ y) : min cap x = min cap y ↔ x = y ∨ cap ≤ x := by
  constructor
  · intro heq
    by_cases hcap : cap ≤ x
    · exact .inr hcap
    · have hx : min cap x = x := min_eq_right (not_le.mp hcap).le
      rw [hx] at heq
      cases min_choice cap y with
      | inl hleft => exact absurd (heq.trans hleft).ge hcap
      | inr hright => exact .inl (heq.trans hright)
  · intro hor
    cases hor with
    | inl heq => rw [heq]
    | inr hcap => rw [min_eq_left hcap,min_eq_left (hcap.trans h)]

/-- A level that falls by `drop` after a cap, and one that falls at once by at least as much. -/
theorem min_add_eq_min_iff {drop whole : K} (hdrop : drop ≤ 0)
    (hwhole : whole ≤ amount + drop) :
    min cap (level + amount) + drop = min cap (level + whole) ↔
      (drop = 0 ∧ cap ≤ level + whole) ∨ (amount + drop = whole ∧ level + amount ≤ cap) ∨
        level + whole = cap + drop := by
  by_cases hfirst : cap ≤ level + amount
  · rw [min_eq_left hfirst]
    by_cases hlast : cap ≤ level + whole
    · rw [min_eq_left hlast]
      constructor
      · intro heq
        exact .inl ⟨by linarith,hlast⟩
      · rintro (⟨h,-⟩ | ⟨h,hle⟩ | h) <;> linarith
    · rw [min_eq_right (not_le.mp hlast).le]
      constructor
      · intro heq
        exact .inr (.inr heq.symm)
      · rintro (⟨-,h⟩ | ⟨h,hle⟩ | h)
        · exact absurd h hlast
        · linarith
        · exact h.symm
  · -- the first cap does nothing, so neither does the other one
    have hlast : ¬ cap ≤ level + whole := by
      intro h
      linarith
    rw [min_eq_right (not_le.mp hfirst).le,min_eq_right (not_le.mp hlast).le]
    constructor
    · intro heq
      exact .inr (.inl ⟨by linarith,(not_le.mp hfirst).le⟩)
    · rintro (⟨-,h⟩ | ⟨h,-⟩ | h)
      · exact absurd h hlast
      · linarith
      · linarith

end Capped

end Metering
end UProtocols
