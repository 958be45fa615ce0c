import Mathlib.Algebra.Ring.Nat
import Mathlib.Order.Lattice

/-!
# Exponential back-off

A client sleeps before each attempt to connect, longer after each failure in a row and up to a
bound, and gives up after so many failures. A connection that is made starts the schedule again.
-/

namespace UProtocols
namespace Backoff

/-- The delay after `failures` failures in a row. -/
def delay (initial max failures : ℕ) : ℕ := min (initial * 2^failures) max

theorem delay_zero {initial max : ℕ} (h : initial ≤ max) : delay initial max 0 = initial := by
  rw [delay,Nat.pow_zero,Nat.mul_one,Nat.min_eq_left h]

/-- Doubling the last delay gives the next one. -/
theorem delay_succ (initial max failures : ℕ) :
    delay initial max (failures + 1) = min (delay initial max failures * 2) max := by
  rw [delay,delay,Nat.pow_succ,← Nat.mul_assoc]
  omega

structure Parameters where
  initial : ℕ
  max : ℕ
  limit : ℕ
  deriving DecidableEq

/-- An attempt after a delay, a connection that is made without one, or anything else. -/
inductive Event
  | attempt (connects : Bool)
  | connected
  | other
  deriving DecidableEq

/-- The failures since the start or the last connection, and all delays so far. -/
structure Schedule where
  failures : ℕ
  sleeps : List ℕ
  deriving DecidableEq

namespace Schedule

def start : Schedule := ⟨0,[]⟩

def step (p : Parameters) (s : Schedule) : Event → Schedule
  | .attempt connects =>
    if s.failures < p.limit then
      ⟨if connects then 0 else s.failures + 1,s.sleeps ++ [delay p.initial p.max s.failures]⟩
    else s
  | .connected => ⟨0,s.sleeps⟩
  | .other => s

def run (p : Parameters) (events : List Event) : Schedule := events.foldl (step p) start

theorem step_attempt {p : Parameters} {s : Schedule} (h : s.failures < p.limit) (connects : Bool) :
    s.step p (.attempt connects) =
      ⟨if connects then 0 else s.failures + 1,s.sleeps ++ [delay p.initial p.max s.failures]⟩ :=
  if_pos h

theorem step_refused {p : Parameters} {s : Schedule} (h : ¬ s.failures < p.limit)
    (connects : Bool) : s.step p (.attempt connects) = s :=
  if_neg h

end Schedule
end Backoff
end UProtocols
