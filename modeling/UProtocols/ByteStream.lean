import Mathlib.Data.List.Basic
import Mathlib.Data.Nat.Notation

/-!
# Streams that are read in pieces

What was written to a stream arrives in order, and a read gets some of it: at least one element
and at most what was asked for. `readExact` reads again until it has all it needs, so what it
returns does not depend on the pieces.
-/

namespace UProtocols
namespace ByteStream

/-- What is still to be read, and how much each of the next reads would get. -/
structure Source (β : Type) where
  pending : List β
  sizes : ℕ → ℕ

namespace Source

variable {β : Type}

/-- One read of at most `n` elements; it gets none only if none are asked for or left. -/
def read (s : Source β) (n : ℕ) : List β × Source β :=
  let k := min (max 1 (s.sizes 0)) (min n s.pending.length)
  (s.pending.take k,⟨s.pending.drop k,fun i => s.sizes (i + 1)⟩)

/-- Read again until `need` elements are there. A read that gets none is the end of the stream;
each other one gets at least one, so `need` rounds are enough. -/
def readLoop : ℕ → ℕ → Source β → Option (List β) × Source β
  | _, 0, s => (some [],s)
  | 0, _ + 1, s => (none,s)
  | fuel + 1, need + 1, s =>
    match s.read (need + 1) with
    | ([],s) => (none,s)
    | (x::xs,s) =>
      let (ys,s) := readLoop fuel (need - xs.length) s
      (ys.map fun ys => x::xs ++ ys,s)

def readExact (s : Source β) (n : ℕ) : Option (List β) × Source β := readLoop n n s

theorem read_length (s : Source β) (n : ℕ) :
    (s.read n).1.length = min (max 1 (s.sizes 0)) (min n s.pending.length) := by
  simp only [read,List.length_take]
  omega

/-- A read of as much as the stream gives at once. -/
theorem read_full {xs ys : List β} {sizes : ℕ → ℕ} (h : xs.length ≤ max 1 (sizes 0)) :
    read ⟨xs ++ ys,sizes⟩ xs.length = (xs,⟨ys,fun i => sizes (i + 1)⟩) := by
  have hk : min (max 1 (sizes 0)) (min xs.length (xs ++ ys).length) = xs.length := by
    rw [List.length_append]
    omega
  simp only [read,hk,List.take_left,List.drop_left]

/-- A read from a stream that is not at its end gets the next element and maybe more. -/
theorem read_cons (x : β) (rest : List β) (sizes : ℕ → ℕ) (need : ℕ) :
    ∃ k, k ≤ need ∧ k ≤ rest.length ∧ read ⟨x::rest,sizes⟩ (need + 1) =
      (x::rest.take k,⟨rest.drop k,fun i => sizes (i + 1)⟩) := by
  obtain ⟨k,hk⟩ : ∃ k, min (max 1 (sizes 0)) (min (need + 1) (x::rest).length) = k + 1 := by
    refine Nat.exists_eq_succ_of_ne_zero ?_
    rw [List.length_cons]
    omega
  have hbounds : k ≤ need ∧ k ≤ rest.length := by
    rw [List.length_cons] at hk
    omega
  refine ⟨k,hbounds.1,hbounds.2,?_⟩
  simp only [read,hk,List.take_succ_cons,List.drop_succ_cons]

/-- A loop that has enough rounds gets what it needs, or finds the end of the stream. -/
theorem readLoop_eq (fuel need : ℕ) (s : Source β) (h : need ≤ fuel) : ∃ sizes,
    readLoop fuel need s =
      (if need ≤ s.pending.length then some (s.pending.take need) else none,
        ⟨s.pending.drop need,sizes⟩) := by
  induction fuel generalizing need s with
  | zero =>
    cases Nat.le_zero.mp h
    exact ⟨s.sizes,rfl⟩
  | succ fuel ih =>
    cases need with
    | zero => exact ⟨s.sizes,rfl⟩
    | succ need =>
      obtain ⟨pending,sizes⟩ := s
      cases pending with
      | nil =>
        refine ⟨fun i => sizes (i + 1),?_⟩
        simp [readLoop,read]
      | cons x rest =>
        obtain ⟨k,hneed,hrest,hread⟩ := read_cons x rest sizes need
        obtain ⟨sizes',hloop⟩ := ih (need - k) ⟨rest.drop k,fun i => sizes (i + 1)⟩ (by omega)
        have hlength : (rest.take k).length = k := List.length_take_of_le hrest
        have hsum : k + (need - k) = need := by omega
        refine ⟨sizes',?_⟩
        simp only [readLoop,hread,hlength,hloop,List.length_drop,List.drop_drop,hsum,
          List.length_cons,List.take_succ_cons,List.drop_succ_cons]
        by_cases hle : need ≤ rest.length
        · have htake : rest.take k ++ (rest.drop k).take (need - k) = rest.take need := by
            rw [← List.take_add,hsum]
          rw [if_pos (by omega),if_pos (by omega),Option.map_some,List.cons_append,htake]
        · rw [if_neg (by omega),if_neg (by omega)]
          rfl

theorem readExact_append (xs ys : List β) (sizes : ℕ → ℕ) : ∃ sizes',
    readExact ⟨xs ++ ys,sizes⟩ xs.length = (some xs,⟨ys,sizes'⟩) := by
  obtain ⟨sizes',h⟩ := readLoop_eq xs.length xs.length ⟨xs ++ ys,sizes⟩ (Nat.le_refl _)
  refine ⟨sizes',?_⟩
  rw [readExact,h,if_pos (by simp),List.take_left,List.drop_left]

/-- The stream ends before there is enough. -/
theorem readExact_end {s : Source β} {n : ℕ} (h : s.pending.length < n) : ∃ sizes',
    s.readExact n = (none,⟨[],sizes'⟩) := by
  obtain ⟨sizes',hloop⟩ := readLoop_eq n n s (Nat.le_refl _)
  refine ⟨sizes',?_⟩
  rw [readExact,hloop,if_neg (by omega),List.drop_eq_nil_of_le (by omega)]

end Source

end ByteStream
end UProtocols
