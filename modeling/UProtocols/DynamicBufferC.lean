import UProtocols.Loops
import Mathlib.Algebra.Ring.Nat
import Mathlib.Logic.Function.Iterate

/-!
# The growing buffer in C

`DynamicBuffer` of `websocket_buffer_management.c`. What its loop of growth does depends on the
sizes only, so the bytes are left out; a `size_t` has 64 bits.
-/

namespace UProtocols
namespace DynamicBufferC

open Loops

structure DynamicBuffer where
  capacity : UInt64
  size : UInt64
  /-- Percentage: 150 means 1.5x growth -/
  growthFactor : UInt64
  deriving DecidableEq

def create (initialCapacity : UInt64) : DynamicBuffer where
  capacity := initialCapacity
  size := 0
  growthFactor := 150

/-- A round of `while (new_capacity < required)`. -/
def growRound (growthFactor required newCapacity : UInt64) (_ : Unit) : Status UInt64 :=
  if newCapacity < required then .runs (newCapacity * growthFactor / 100)
  else .ended newCapacity

namespace DynamicBuffer

def growth (db : DynamicBuffer) (required : UInt64) : ℕ → Status UInt64 :=
  after (growRound db.growthFactor required) (fun _ => ()) db.capacity

/-- What is returned and the buffer, once the loop has ended; `reallocated` tells whether `realloc`
finds the memory. -/
def ensureCapacity (db : DynamicBuffer) (required : UInt64) (reallocated : Bool) (rounds : ℕ) :
    Option (Bool × DynamicBuffer) :=
  if db.capacity ≥ required then some (true,db)
  else
    match db.growth required rounds with
    | .runs _ => none
    | .ended newCapacity =>
      if reallocated then some (true,{ db with capacity := newCapacity }) else some (false,db)

def append (db : DynamicBuffer) (len : UInt64) (reallocated : Bool) (rounds : ℕ) :
    Option (Bool × DynamicBuffer) := do
  let (ensured,db) ← db.ensureCapacity (db.size + len) reallocated rounds
  if ensured then return (true,{ db with size := db.size + len }) else return (false,db)

def consume (db : DynamicBuffer) (len : UInt64) : DynamicBuffer :=
  if len = 0 then db
  else if len ≥ db.size then { db with size := 0 }
  else { db with size := db.size - len }

end DynamicBuffer

open DynamicBuffer

/-- The buffers a program can have made. -/
inductive Reached : DynamicBuffer → Prop
  | create (initialCapacity : UInt64) : Reached (create initialCapacity)
  | append {db db' : DynamicBuffer} {len : UInt64} {reallocated answer : Bool} {rounds : ℕ}
      (h : Reached db) (hdb : db.append len reallocated rounds = some (answer,db')) : Reached db'
  | consume {db : DynamicBuffer} (h : Reached db) (len : UInt64) : Reached (db.consume len)

variable {db db' : DynamicBuffer} {required t : UInt64} {n : ℕ}

/-! ## The factor of growth -/

theorem ensureCapacity_growthFactor {reallocated answer : Bool}
    (h : db.ensureCapacity required reallocated n = some (answer,db')) :
    db'.growthFactor = db.growthFactor := by
  rw [ensureCapacity] at h
  split at h
  · cases h
    rfl
  · split at h
    · cases h
    · split at h <;>
      · cases h
        rfl

theorem append_growthFactor {len : UInt64} {reallocated answer : Bool}
    (h : db.append len reallocated n = some (answer,db')) :
    db'.growthFactor = db.growthFactor := by
  simp only [append,Option.bind_eq_bind,Option.bind_eq_some_iff] at h
  obtain ⟨⟨ensured,grown⟩,hensure,h⟩ := h
  have hgrown := ensureCapacity_growthFactor hensure
  cases ensured <;>
  · cases h
    exact hgrown

/-- Every buffer grows by half. -/
theorem Reached.growthFactor (h : Reached db) : db.growthFactor = 150 := by
  induction h with
  | create => rfl
  | append _ hdb ih => exact (append_growthFactor hdb).trans ih
  | consume _ len ih =>
    rw [DynamicBuffer.consume]
    split
    · exact ih
    · split <;> exact ih

/-! ## The loop -/

/-- Half as much again, without a limit on the numbers. -/
def half (c : ℕ) : ℕ := c + c / 2

theorem half_iterate_succ (c n : ℕ) : half^[n + 1] c = half^[n] c + half^[n] c / 2 :=
  Function.iterate_succ_apply' half n c

theorem le_half_iterate {c : ℕ} (hc : 2 ≤ c) (n : ℕ) : n + 2 ≤ half^[n] c := by
  induction n with
  | zero => exact hc
  | succ n ih =>
    rw [half_iterate_succ]
    omega

theorem half_iterate_le_succ (c n : ℕ) : half^[n] c ≤ half^[n + 1] c := by
  rw [half_iterate_succ]
  exact Nat.le_add_right _ _

theorem toNat_grown (h : t.toNat * 150 < 18446744073709551616) :
    (t * 150 / 100).toNat = half t.toNat := by
  rw [UInt64.toNat_div,UInt64.toNat_mul,half]
  change t.toNat * 150 % 18446744073709551616 / 100 = _
  rw [Nat.mod_eq_of_lt h]
  omega

/-- The largest capacity whose product with the factor fits 64 bits. -/
def lastExact : ℕ := 122978293824730344

theorem le_lastExact_iff : t.toNat ≤ lastExact ↔ t.toNat * 150 < 18446744073709551616 := by
  rw [lastExact]
  omega

theorem growRound_runs {factor u : UInt64} (h : growRound factor required t () = .runs u) :
    t < required ∧ u = t * factor / 100 := by
  rw [growRound] at h
  split at h
  · cases h
    exact ⟨‹_›,rfl⟩
  · cases h

theorem growRound_ended {factor u : UInt64} (h : growRound factor required t () = .ended u) :
    required ≤ u := by
  rw [growRound] at h
  split at h
  · cases h
  · cases h
    exact UInt64.not_lt.mp ‹_›

/-- The capacity that the loop ends with is enough. -/
theorem required_le_of_ended (h : db.growth required n = .ended t) : required ≤ t :=
  ended_of_round (P := fun u => required ≤ u) (fun _ _ _ => growRound_ended) h

/-- From an empty buffer or one of one byte the loop goes on for ever. -/
theorem growth_stuck (hfactor : db.growthFactor = 150) (hsmall : db.capacity.toNat < 2)
    (hless : db.capacity < required) (n : ℕ) : db.growth required n = .runs db.capacity := by
  have hfixed : db.capacity * 150 / 100 = db.capacity := by
    have hexact := toNat_grown (t := db.capacity) (by omega)
    apply UInt64.toNat_inj.mp
    rw [hexact,half]
    omega
  have hround : growRound db.growthFactor required db.capacity () = .runs db.capacity := by
    rw [growRound,if_pos hless,hfactor,hfixed]
  obtain ⟨t,ht,heq⟩ := runs_forever (I := fun u => u = db.capacity) (s := db.capacity) rfl
    (fun _ u hu => ⟨db.capacity,(congrArg (growRound _ required · ()) hu).trans hround,rfl⟩) n
  exact heq ▸ ht

/-- No number of the sequence that grows by half is too large to be multiplied, yet too small to
be enough. -/
def NoneBetween (capacity required : ℕ) : Prop :=
  ∀ n, ¬(lastExact < half^[n] capacity ∧ half^[n] capacity < required)

/-- Where no product wraps, the loop follows the sequence. -/
theorem growth_toNat (hfactor : db.growthFactor = 150)
    (hexact : ∀ k, half^[k] db.capacity.toNat < required.toNat →
      half^[k] db.capacity.toNat ≤ lastExact)
    (h : db.growth required n = .runs t) : t.toNat = half^[n] db.capacity.toNat := by
  induction n generalizing t with
  | zero =>
    cases h
    rfl
  | succ n ih =>
    obtain ⟨u,hu,hround⟩ := runs_of_succ h
    obtain ⟨hless,rfl⟩ := growRound_runs hround
    have hcurrent := ih hu
    have hsmall : u.toNat ≤ lastExact := by
      rw [hcurrent]
      exact hexact n (hcurrent ▸ UInt64.lt_iff_toNat_lt.mp hless)
    rw [hfactor,toNat_grown (le_lastExact_iff.mp hsmall),half_iterate_succ,hcurrent,half]

/-- The loop ends with a capacity that is enough, and no product on the way wraps. -/
def DynamicBuffer.Grows (db : DynamicBuffer) (required : UInt64) : Prop :=
  (∃ n c, db.growth required n = .ended c ∧ required ≤ c) ∧
    ∀ n t, db.growth required n = .runs t → t < required →
      t.toNat * db.growthFactor.toNat < 18446744073709551616

theorem grows_of_le (h : required ≤ db.capacity) : db.Grows required := by
  have hround : growRound db.growthFactor required db.capacity () = .ended db.capacity := by
    rw [growRound,if_neg (UInt64.not_lt.mpr h)]
  have hended : db.growth required 1 = .ended db.capacity := hround
  refine ⟨⟨1,db.capacity,hended,h⟩,?_⟩
  intro n t ht hless
  have hle : required ≤ t := runs_invariant (I := fun u => required ≤ u) h
    (fun _ _ _ _ hnext hu => absurd (growRound_runs hnext).1 (UInt64.not_lt.mpr hu)) ht
  exact absurd hless (UInt64.not_lt.mpr hle)

/-- A sequence that reaches the required number in time makes the loop end with it. -/
theorem grows_of_noneBetween (hfactor : db.growthFactor = 150) (hlarge : 2 ≤ db.capacity.toNat)
    (hnone : NoneBetween db.capacity.toNat required.toNat) : db.Grows required := by
  have hexact : ∀ k, half^[k] db.capacity.toNat < required.toNat →
      half^[k] db.capacity.toNat ≤ lastExact := by
    intro k hless
    have hk := hnone k
    omega
  have hfollows : ∀ n t, db.growth required n = .runs t →
      t.toNat = half^[n] db.capacity.toNat :=
    fun n t => growth_toNat hfactor hexact
  constructor
  · have hbound : ∀ n t, db.growth required n = .runs t → n ≤ required.toNat := by
      intro n t h
      cases n with
      | zero => exact Nat.zero_le _
      | succ n =>
        obtain ⟨u,hu,hround⟩ := runs_of_succ h
        have hless := UInt64.lt_iff_toNat_lt.mp (growRound_runs hround).1
        have hge := le_half_iterate hlarge n
        rw [hfollows n u hu] at hless
        omega
    obtain ⟨n,c,hended⟩ := exists_ended hbound
    exact ⟨n,c,hended,required_le_of_ended hended⟩
  · intro n t h hless
    have hsmall := hexact n (hfollows n t h ▸ UInt64.lt_iff_toNat_lt.mp hless)
    rw [← hfollows n t h] at hsmall
    rw [hfactor]
    exact le_lastExact_iff.mp hsmall

/-- As long as no product wraps, the loop goes through the numbers that are too small. -/
theorem growth_runs (hfactor : db.growthFactor = 150) (hgrows : db.Grows required)
    (hless : half^[n] db.capacity.toNat < required.toNat) :
    ∃ t, db.growth required n = .runs t ∧ t.toNat = half^[n] db.capacity.toNat := by
  induction n with
  | zero => exact ⟨db.capacity,rfl,rfl⟩
  | succ n ih =>
    have hprevious : half^[n] db.capacity.toNat < required.toNat :=
      Nat.lt_of_le_of_lt (half_iterate_le_succ _ n) hless
    obtain ⟨t,ht,hval⟩ := ih hprevious
    have hsmall : t < required := UInt64.lt_iff_toNat_lt.mpr (hval ▸ hprevious)
    have hproduct := hgrows.2 n t ht hsmall
    rw [hfactor] at hproduct
    refine ⟨t * 150 / 100,?_,?_⟩
    · rw [growth,after_succ_of_runs ht,growRound,if_pos hsmall,hfactor]
    · rw [toNat_grown hproduct,half_iterate_succ,hval,half]

theorem noneBetween_of_grows (hfactor : db.growthFactor = 150) (hgrows : db.Grows required) :
    NoneBetween db.capacity.toNat required.toNat := by
  intro n ⟨hlarge,hless⟩
  obtain ⟨t,ht,hval⟩ := growth_runs hfactor hgrows hless
  have hproduct := hgrows.2 n t ht (UInt64.lt_iff_toNat_lt.mpr (hval ▸ hless))
  rw [hfactor] at hproduct
  have hexact := le_lastExact_iff.mpr hproduct
  omega

/-- The loop of an append ends without a product that wraps exactly if the buffer is already large
enough, or if it has two bytes at least and its capacity grows past the largest exact one and to
the required one in one step. -/
theorem append_grows_iff (h : Reached db) (len : UInt64) :
    ((∃ n c, db.growth (db.size + len) n = .ended c ∧ db.size + len ≤ c) ∧
        ∀ n t, db.growth (db.size + len) n = .runs t → t < db.size + len →
          t.toNat * db.growthFactor.toNat < 18446744073709551616) ↔
      db.size + len ≤ db.capacity ∨ 2 ≤ db.capacity.toNat ∧
        ∀ n, ¬(lastExact < half^[n] db.capacity.toNat ∧
          half^[n] db.capacity.toNat < (db.size + len).toNat) := by
  have hfactor := h.growthFactor
  constructor
  · intro hgrows
    by_cases hle : db.size + len ≤ db.capacity
    · exact .inl hle
    · right
      refine ⟨?_,noneBetween_of_grows hfactor hgrows⟩
      by_contra hsmall
      obtain ⟨n,c,hended,-⟩ := hgrows.1
      rw [growth_stuck hfactor (by omega) (UInt64.not_le.mp hle) n] at hended
      cases hended
  · intro hcondition
    cases hcondition with
    | inl hle => exact grows_of_le hle
    | inr hgrow => exact grows_of_noneBetween hfactor hgrow.1 hgrow.2

/-- A buffer that is created with one byte never gets a second one: the loop does not end. -/
theorem append_grows_one : Reached (create 1) ∧
    ∀ n, (create 1).growth ((create 1).size + 2) n = .runs 1 :=
  ⟨.create 1,fun n => growth_stuck rfl (by decide) (by decide) n⟩

theorem append_grows_four : Reached (create 4) ∧
    ∃ n c, (create 4).growth ((create 4).size + 10) n = .ended c ∧ 10 ≤ c := by
  have hgrows := (append_grows_iff (.create 4) 10).mpr (.inr ⟨by decide,fun n hbetween => by
    have hless : half^[n] 4 < 10 := hbetween.2
    have hlarge := hbetween.1
    rw [lastExact] at hlarge
    change 122978293824730344 < half^[n] 4 at hlarge
    omega⟩)
  exact ⟨.create 4,hgrows.1⟩

end DynamicBufferC
end UProtocols
