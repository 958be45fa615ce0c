import Mathlib.Algebra.Order.Group.Defs
import Mathlib.Algebra.Order.Monoid.Unbundled.Basic
import Mathlib.Data.List.Chain

/-!
# Timers that are polled

A timer with a period that is looked at only now and then, at most `gap` apart, and that may be
fired early. Its firings are less than `period + gap` apart, and at least `period` where it is
never fired early.
-/

namespace UProtocols
namespace PolledTimer

/-- When the timer counts from, and when it has fired. -/
structure Timer (T : Type) where
  since : T
  fired : List T

/-- The last firing, or the start. -/
def Timer.latest {T : Type} (start : T) (t : Timer T) : T := t.fired.getLast?.getD start

theorem latest_fired {T : Type} (start now : T) (fired : List T) :
    (⟨now,fired ++ [now]⟩ : Timer T).latest start = now := by
  simp [Timer.latest]

theorem latest_of_mem {T : Type} {t : Timer T} {a : T} (h : a ∈ t.fired.getLast?) (start : T) :
    t.latest start = a := by
  rw [Timer.latest,Option.mem_def.mp h,Option.getD_some]

variable {T : Type} [AddCommGroup T] [LinearOrder T] {period gap start clock now : T}
  {t : Timer T} {forced : Bool}

def Timer.poll (period now : T) (forced : Bool) (t : Timer T) : Timer T :=
  if forced ∨ period ≤ now - t.since then ⟨now,t.fired ++ [now]⟩ else t

/-- At `clock`, right after a poll: nothing is overdue, and nothing has been late. -/
structure OnTime (period gap start clock : T) (t : Timer T) : Prop where
  since_le : t.since ≤ t.latest start
  since_eq : t.fired ≠ [] → t.since = t.latest start
  due : clock < t.latest start + period
  late : (start :: t.fired).IsChain fun a b => b < a + period + gap

/-- Firings are a period apart. -/
def Spaced (period : T) (t : Timer T) : Prop := t.fired.IsChain fun a b => a + period ≤ b

section Ordered

variable [IsOrderedAddMonoid T]

theorem onTime_start {since : T} (hsince : since ≤ start) (hpos : 0 < period) :
    OnTime period gap start start ⟨since,[]⟩ where
  since_le := hsince
  since_eq h := absurd rfl h
  due := lt_add_of_pos_right start hpos
  late := List.isChain_singleton start

theorem OnTime.poll (h : OnTime period gap start clock t) (hpos : 0 < period)
    (hgap : now ≤ clock + gap) : OnTime period gap start now (t.poll period now forced) := by
  unfold Timer.poll
  split_ifs with hfire
  · refine ⟨(latest_fired start now t.fired).ge,fun _ => (latest_fired start now t.fired).symm,
      ?_,?_⟩
    · rw [latest_fired]
      exact lt_add_of_pos_right now hpos
    · rw [← List.cons_append,List.isChain_append]
      refine ⟨h.late,List.isChain_singleton now,?_⟩
      intro a ha b hb
      rw [List.getLast?_cons,Option.mem_some_iff] at ha
      obtain rfl : now = b := by simpa using hb
      rw [← ha]
      calc now ≤ clock + gap := hgap
        _ < t.latest start + period + gap := by
          rw [add_lt_add_iff_right]
          exact h.due
  · refine ⟨h.since_le,h.since_eq,?_,h.late⟩
    have hlt : now - t.since < period := lt_of_not_ge fun hle => hfire (.inr hle)
    calc now < t.since + period := sub_lt_iff_lt_add'.mp hlt
      _ ≤ t.latest start + period := by
        rw [add_le_add_iff_right]
        exact h.since_le

theorem Spaced.poll (h : Spaced period t) (htime : OnTime period gap start clock t) :
    Spaced period (t.poll period now false) := by
  rw [Timer.poll]
  by_cases hperiod : period ≤ now - t.since
  · rw [if_pos (.inr hperiod)]
    rw [Spaced,List.isChain_append]
    refine ⟨h,List.isChain_singleton now,?_⟩
    intro a ha b hb
    obtain rfl : now = b := by simpa using hb
    have hne : t.fired ≠ [] := by
      rintro hnil
      simp [hnil] at ha
    rw [← latest_of_mem ha start,← htime.since_eq hne]
    exact le_sub_iff_add_le'.mp hperiod
  · rw [if_neg (by simpa using hperiod)]
    exact h

end Ordered

end PolledTimer
end UProtocols
