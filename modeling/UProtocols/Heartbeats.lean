import Mathlib.Data.Nat.Notation
import Mathlib.Order.Nat
import UProtocols.Runs

/-!
# Detecting silence by periodic checks

Heartbeats at any times, and checks at fixed times that count how often they have found more than
a limit of silence since the last beat. The peer is suspected at the check where the count is
reached: this is the first check that finds the limit and one period for each earlier count.
-/

namespace UProtocols
namespace Heartbeats

/-- The checks are at `start`, `start + period`, and so on. -/
structure Schedule where
  start : ℕ
  period : ℕ
  limit : ℕ
  count : ℕ
  deriving DecidableEq

/-- The silence of the check that suspects is more than this. -/
def Schedule.bound (c : Schedule) : ℕ := c.limit + c.period * (c.count - 1)

inductive Event
  | beat (now : ℕ)
  | other (now : ℕ)
  | check
  deriving DecidableEq

/-- How many checks there have been, the time of the last event and of the last beat, what has
been counted, and what the checks have found. -/
structure Detector where
  checks : ℕ
  clock : ℕ
  lastBeat : ℕ
  missed : ℕ
  suspected : Bool
  silences : List ℕ
  deriving DecidableEq

namespace Detector

/-- A beat comes before the checks begin. -/
def new (c : Schedule) (beat : ℕ) : Detector := ⟨0,c.start,beat,0,false,[]⟩

/-- When the next check is due. -/
def due (c : Schedule) (d : Detector) : ℕ := c.start + c.period * d.checks

/-- Until the suspicion everything else falls between the checks; then there are no checks any
more. -/
def step (c : Schedule) (d : Detector) : Event → Option Detector
  | .beat now =>
    if d.clock ≤ now ∧ (d.suspected = true ∨ now ≤ d.due c) then
      some {d with clock := now, lastBeat := now, missed := 0}
    else none
  | .other now =>
    if d.clock ≤ now ∧ (d.suspected = true ∨ now ≤ d.due c) then some {d with clock := now}
    else none
  | .check =>
    if d.suspected = true then none
    else
      let silence := d.due c - d.lastBeat
      let missed := if c.limit < silence then d.missed + 1 else d.missed
      some {d with
        checks := d.checks + 1
        clock := d.due c
        missed := missed
        suspected := decide (c.limit < silence) && decide (c.count ≤ missed)
        silences := d.silences ++ [silence]}

variable {c : Schedule} {d d' : Detector} {e : Event} {events : List Event}

/-- While there is no suspicion the count tells how much silence the next check will find. -/
structure Alive (c : Schedule) (d : Detector) : Prop where
  lastBeat_le : d.lastBeat ≤ d.clock
  clock_le : d.clock ≤ d.due c
  due_le : d.due c ≤ d.clock + c.period
  missed_lt : d.missed < c.count
  silence_le : d.due c ≤ d.lastBeat + c.limit + c.period * (d.missed + 1)
  lt_silence : 0 < d.missed → d.lastBeat + c.limit + c.period * d.missed < d.due c
  heard : ∀ s ∈ d.silences, s ≤ c.bound

/-- The check that suspects has found more silence than any check before. -/
structure Suspects (c : Schedule) (d : Detector) : Prop where
  found : ∃ s ∈ d.silences, c.bound < s
  heard : ∀ s ∈ d.silences, s ≤ c.bound + c.period

def Sound (c : Schedule) (d : Detector) : Prop :=
  if d.suspected = true then Suspects c d else Alive c d

theorem sound_new {beat : ℕ} (hcount : 0 < c.count) (hbeat : beat ≤ c.start)
    (hstart : c.start ≤ beat + c.limit + c.period) : Sound c (new c beat) :=
  ⟨hbeat,by simp [new,due],by simp [new,due],hcount,by simpa [new,due] using hstart,
    by simp [new],by simp [new]⟩

theorem Alive.beat (h : Alive c d) (hcount : 0 < c.count) {now : ℕ} (hclock : d.clock ≤ now)
    (hdue : now ≤ d.due c) : Alive c {d with clock := now, lastBeat := now, missed := 0} := by
  have hle := h.due_le
  refine ⟨le_rfl,hdue,?_,hcount,?_,fun hpos => absurd hpos (lt_irrefl 0),h.heard⟩ <;>
    simp only [due] at hle ⊢ <;> omega

theorem Alive.other (h : Alive c d) {now : ℕ} (hclock : d.clock ≤ now) (hdue : now ≤ d.due c) :
    Alive c {d with clock := now} :=
  ⟨h.lastBeat_le.trans hclock,hdue,h.due_le.trans (Nat.add_le_add_right hclock _),h.missed_lt,
    h.silence_le,h.lt_silence,h.heard⟩

theorem Alive.check (h : Alive c d) (halive : d.suspected = false)
    (hstep : d.step c .check = some d') : Sound c d' := by
  have hle := h.lastBeat_le.trans h.clock_le
  have hup := h.silence_le
  have hlow := h.lt_silence
  have hlt := h.missed_lt
  have hnext : c.start + c.period * (d.checks + 1) = d.due c + c.period := by
    rw [Nat.mul_succ,due,Nat.add_assoc]
  have hheard : ∀ s, s ≤ c.bound → ∀ t ∈ d.silences ++ [s], t ≤ c.bound := by
    intro s hs t ht
    obtain ht | ht := List.mem_append.mp ht
    · exact h.heard t ht
    · exact (List.mem_singleton.mp ht).symm ▸ hs
  simp only [Detector.step,halive,Bool.false_eq_true,if_false,Option.some.injEq] at hstep
  subst hstep
  by_cases hstale : c.limit < d.due c - d.lastBeat
  · have hlow' : d.lastBeat + c.limit + c.period * d.missed < d.due c := by
      obtain hzero | hpos := Nat.eq_zero_or_pos d.missed
      · rw [hzero,Nat.mul_zero]
        omega
      · exact hlow hpos
    by_cases hcount : c.count ≤ d.missed + 1
    · -- The count is reached.
      have hlast : d.missed = c.count - 1 := by omega
      have hbound : c.bound = c.limit + c.period * d.missed := by rw [Schedule.bound,hlast]
      rw [Nat.mul_succ] at hup
      simp only [Sound,hstale,hcount,decide_true,Bool.and_self,if_true]
      refine ⟨⟨d.due c - d.lastBeat,by simp,by omega⟩,?_⟩
      intro s hs
      obtain hs | hs := List.mem_append.mp hs
      · exact (h.heard s hs).trans (Nat.le_add_right _ _)
      · rw [List.mem_singleton.mp hs]
        omega
    · have hmul : c.period * (d.missed + 1) ≤ c.period * (c.count - 1) :=
        Nat.mul_le_mul_left _ (by omega)
      have hbound : d.due c - d.lastBeat ≤ c.bound := by
        rw [Schedule.bound]
        omega
      simp only [Sound,hstale,hcount,decide_true,decide_false,Bool.and_false,Bool.false_eq_true,
        if_false,if_true]
      rw [Nat.mul_succ] at hup
      refine ⟨hle,?_,?_,by simp only; omega,?_,fun _ => ?_,hheard _ hbound⟩ <;>
        simp only [due,hnext,Nat.mul_succ] at * <;> omega
  · have hzero : d.missed = 0 := by
      by_contra hne
      have := hlow (Nat.pos_of_ne_zero hne)
      omega
    have hbound : d.due c - d.lastBeat ≤ c.bound := by
      rw [Schedule.bound]
      omega
    simp only [Sound,hstale,decide_false,Bool.false_and,Bool.false_eq_true,if_false]
    refine ⟨hle,?_,?_,hlt,?_,?_,hheard _ hbound⟩ <;>
      simp only [due,hnext,hzero,Nat.mul_succ,Nat.mul_zero,lt_irrefl,false_imp_iff] at * <;> omega

theorem Sound.step (h : Sound c d) (hcount : 0 < c.count) (hstep : d.step c e = some d') :
    Sound c d' := by
  by_cases hsuspected : d.suspected = true
  · rw [Sound,if_pos hsuspected] at h
    cases e with
    | beat now | other now =>
      simp only [Detector.step] at hstep
      split at hstep
      · cases hstep
        rw [Sound,if_pos hsuspected]
        exact ⟨h.found,h.heard⟩
      · cases hstep
    | check => simp [Detector.step,hsuspected] at hstep
  · rw [Sound,if_neg hsuspected] at h
    cases e with
    | beat now | other now =>
      simp only [Detector.step] at hstep
      split at hstep
      · rename_i hnow
        cases hstep
        rw [Sound,if_neg hsuspected]
        first
        | exact h.beat hcount hnow.1 (hnow.2.resolve_left hsuspected)
        | exact h.other hnow.1 (hnow.2.resolve_left hsuspected)
      · cases hstep
    | check => exact h.check (by simpa using hsuspected) hstep

/-- The peer is suspected exactly when a check has found more silence than the bound, and no check
finds more than a period beyond it. -/
theorem Sound.suspected_iff (h : Sound c d) :
    (d.suspected = true ↔ ∃ s ∈ d.silences, c.bound < s) ∧
      ∀ s ∈ d.silences, s ≤ c.bound + c.period := by
  by_cases hsuspected : d.suspected = true
  · rw [Sound,if_pos hsuspected] at h
    exact ⟨⟨fun _ => h.found,fun _ => hsuspected⟩,h.heard⟩
  · rw [Sound,if_neg hsuspected] at h
    refine ⟨⟨fun h => absurd h hsuspected,?_⟩,fun s hs => (h.heard s hs).trans
      (Nat.le_add_right _ _)⟩
    rintro ⟨s,hs,hlt⟩
    exact absurd (h.heard s hs) (Nat.not_le_of_lt hlt)

end Detector
end Heartbeats
end UProtocols
