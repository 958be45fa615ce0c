import Mathlib.Data.Set.Insert
import Mathlib.Logic.Function.Basic

/-!
# Mutexes

Threads that wait for and hold locks. The lock table names the holder of each lock; it is
consistent with the threads when it says what each of them holds.
-/

namespace UProtocols
namespace Mutexes

variable {T L : Type}

/-- There is a set of threads each of which waits for a lock that another of them holds. -/
def Deadlocked (waits : T → Option L) (holder : L → Option T) : Prop :=
  ∃ S : Set T, S.Nonempty ∧
    ∀ t ∈ S, ∃ l, waits t = some l ∧ ∃ u ∈ S, u ≠ t ∧ holder l = some u

/-- Two threads that wait for each other. -/
theorem Deadlocked.of_pair {waits : T → Option L} {holder : L → Option T} {t u : T} {l m : L}
    (hne : t ≠ u) (ht : waits t = some l) (hl : holder l = some u)
    (hu : waits u = some m) (hm : holder m = some t) : Deadlocked waits holder := by
  refine ⟨{t,u},⟨t,by simp⟩,?_⟩
  intro v hv
  obtain rfl | rfl := hv
  · exact ⟨l,ht,u,by simp,hne.symm,hl⟩
  · exact ⟨m,hu,t,by simp,hne,hm⟩

/-- The holder of a lock is the thread that holds it. -/
def Consistent (holds : T → List L) (holder : L → Option T) : Prop :=
  ∀ l t, holder l = some t ↔ l ∈ holds t

namespace Consistent

variable {holds : T → List L} {holder : L → Option T}

theorem unique (h : Consistent holds holder) {l : L} {t u : T} (ht : l ∈ holds t)
    (hu : l ∈ holds u) : t = u := by
  have hholder := (h l t).mpr ht
  rw [(h l u).mpr hu] at hholder
  exact (Option.some.inj hholder).symm

theorem not_mem_of_free (h : Consistent holds holder) {l : L} (hfree : holder l = none) (t : T) :
    l ∉ holds t := by
  intro hl
  rw [(h l t).mpr hl] at hfree
  exact Option.some_ne_none _ hfree

variable [DecidableEq T]

theorem keep (h : Consistent holds holder) (t : T) {ls : List L} (hls : ls = holds t) :
    Consistent (Function.update holds t ls) holder := by
  rw [hls,Function.update_eq_self]
  exact h

variable [DecidableEq L]

theorem lock (h : Consistent holds holder) {l : L} {t : T} {ls : List L}
    (hfree : holder l = none) (hls : ls = l::holds t) :
    Consistent (Function.update holds t ls) (Function.update holder l (some t)) := by
  intro m u
  have hm := h m u
  have hl := h.not_mem_of_free hfree u
  by_cases hml : m = l <;> by_cases hut : u = t
  · subst hml hut
    simp [hls]
  · subst hml
    simp [hut,hl,Ne.symm hut]
  · subst hut
    simp [hml,hm,hls]
  · simp [hml,hut,hm]

theorem unlock (h : Consistent holds holder) {l : L} {t : T} {ls : List L}
    (hheld : holds t = l::ls) (hl : l ∉ ls) :
    Consistent (Function.update holds t ls) (Function.update holder l none) := by
  intro m u
  have hm := h m u
  by_cases hml : m = l <;> by_cases hut : u = t
  · subst hml hut
    simp [hl]
  · subst hml
    have hother : m ∉ holds u := by
      intro hu
      exact hut (h.unique hu (by simp [hheld]))
    simp [hut,hother]
  · subst hut
    rw [hheld] at hm
    simp [hml,hm]
  · simp [hml,hut,hm]

end Consistent
end Mutexes
end UProtocols
