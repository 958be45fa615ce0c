import Mathlib.Order.Lattice
import Mathlib.Data.List.Pairwise

/-!
# Stable order

A list arranged by a key: sorted, with the items of one key in the order they had before. Queues
that serve the smallest key first, and equal keys in order of arrival, hold such an arrangement.
-/

namespace UProtocols
namespace StableOrder

variable {α κ : Type} [LinearOrder κ]

/-- `arranged` has the items in order of their keys, and those of one key in the order they have
in `items`. -/
structure Arranges (key : α → κ) (items arranged : List α) : Prop where
  sorted : arranged.Pairwise fun x y => key x ≤ key y
  same : ∀ k, arranged.filter (fun x => key x = k) = items.filter fun x => key x = k

/-- The earliest item of the smallest key, and the others. -/
def takeFirst (key : α → κ) : List α → Option (α × List α)
  | [] => none
  | x::items =>
    match takeFirst key items with
    | none => some (x,items)
    | some (m,rest) => if key x ≤ key m then some (x,items) else some (m,x::rest)

variable {key : α → κ} {items arranged front back before after : List α} {m x : α}

theorem mem_of_takeFirst {rest : List α} (h : takeFirst key items = some (m,rest)) : m ∈ items := by
  induction items generalizing m rest with
  | nil => cases h
  | cons x items ih =>
    rw [takeFirst] at h
    cases hrest : takeFirst key items with
    | none =>
      simp only [hrest,Option.some.injEq,Prod.mk.injEq] at h
      simp [h.1]
    | some found =>
      simp only [hrest] at h
      split_ifs at h
      · cases h
        simp
      · cases h
        exact List.mem_cons_of_mem _ (ih hrest)

/-- The first item is earlier than every other one of its key, and none has a smaller key. -/
theorem takeFirst_eq (hbefore : ∀ x ∈ before, key m < key x) (hafter : ∀ x ∈ after, key m ≤ key x) :
    takeFirst key (before ++ m::after) = some (m,before ++ after) := by
  induction before with
  | nil =>
    rw [List.nil_append,takeFirst]
    cases hrest : takeFirst key after with
    | none => rfl
    | some found => exact if_pos (hafter found.1 (mem_of_takeFirst hrest))
  | cons x before ih =>
    have hlt : key m < key x := hbefore x (by simp)
    have hrest := ih fun y hy => hbefore y (by simp [hy])
    rw [List.cons_append,takeFirst,hrest]
    exact if_neg (not_le.mpr hlt)

namespace Arranges

theorem nil : Arranges key [] [] := ⟨List.Pairwise.nil,fun _ => rfl⟩

theorem mem_iff (h : Arranges key items arranged) : x ∈ arranged ↔ x ∈ items := by
  have hsame := h.same (key x)
  constructor
  · intro hx
    have hfilter : x ∈ arranged.filter fun y => key y = key x := by simp [hx]
    rw [hsame] at hfilter
    exact (List.mem_filter.mp hfilter).1
  · intro hx
    have hfilter : x ∈ items.filter fun y => key y = key x := by simp [hx]
    rw [← hsame] at hfilter
    exact (List.mem_filter.mp hfilter).1

theorem perm (h : Arranges key items arranged) : arranged.Perm items := by
  classical
  rw [List.perm_iff_count]
  intro x
  have hcount : ∀ l : List α, l.count x = (l.filter fun y => key y = key x).count x := by
    intro l
    rw [List.count_filter (by simp)]
  rw [hcount arranged,hcount items,h.same]

/-- A new item goes behind those of its key and before those of larger keys. -/
theorem insert (h : Arranges key items (front ++ back)) (hfront : ∀ x ∈ front, key x ≤ key m)
    (hback : ∀ x ∈ back, key m < key x) : Arranges key (items ++ [m]) (front ++ m::back) := by
  obtain ⟨hsortedFront,hsortedBack,hacross⟩ := List.pairwise_append.mp h.sorted
  constructor
  · rw [List.pairwise_append]
    refine ⟨hsortedFront,?_,?_⟩
    · rw [List.pairwise_cons]
      exact ⟨fun x hx => le_of_lt (hback x hx),hsortedBack⟩
    · intro x hx y hy
      rcases List.mem_cons.mp hy with rfl | hy
      · exact hfront x hx
      · exact hacross x hx y hy
  · intro k
    have hsame := h.same k
    rw [List.filter_append] at hsame
    by_cases hk : key m = k
    · have hnone : back.filter (fun x => key x = k) = [] := by
        rw [List.filter_eq_nil_iff]
        intro x hx
        have hlt := hback x hx
        rw [hk] at hlt
        simp [ne_of_gt hlt]
      rw [hnone,List.append_nil] at hsame
      simp [List.filter_append,hk,hnone,hsame]
    · simp [List.filter_append,hk,hsame]

/-- The first item of the arrangement is the earliest of the smallest key, and the rest arranges
the others. -/
theorem pop {rest : List α} (h : Arranges key items (m::rest)) :
    ∃ others, takeFirst key items = some (m,others) ∧ Arranges key others rest := by
  obtain ⟨hmin,hsorted⟩ := List.pairwise_cons.mp h.sorted
  have hleast : ∀ x ∈ items, key m ≤ key x := by
    intro x hx
    rcases List.mem_cons.mp (h.mem_iff.mpr hx) with rfl | hx
    · exact le_refl _
    · exact hmin x hx
  have hfirst := (h.same (key m)).symm
  rw [List.filter_cons_of_pos (by simp),List.filter_eq_cons_iff] at hfirst
  obtain ⟨before,after,rfl,hbefore,-,hafter⟩ := hfirst
  have hlt : ∀ x ∈ before, key m < key x := by
    intro x hx
    have hne : ¬ key x = key m := by simpa using hbefore x hx
    exact lt_of_le_of_ne (hleast x (by simp [hx])) (Ne.symm hne)
  refine ⟨before ++ after,takeFirst_eq hlt (fun x hx => hleast x (by simp [hx])),hsorted,?_⟩
  intro k
  by_cases hk : key m = k
  · have hnone : before.filter (fun x => key x = k) = [] := by
      rw [List.filter_eq_nil_iff]
      intro x hx
      rw [← hk]
      exact hbefore x hx
    rw [List.filter_append,hnone,List.nil_append,← hk]
    exact hafter.symm
  · have hsame := h.same k
    simpa [List.filter_append,hk] using hsame

/-- Items of one key stay in the order they had. -/
theorem lexicographic {r : α → α → Prop} (h : Arranges key items arranged)
    (hitems : items.Pairwise r) :
    arranged.Pairwise fun x y => key x < key y ∨ key x = key y ∧ r x y := by
  rw [List.pairwise_iff_forall_sublist]
  intro x y hxy
  have hle : key x ≤ key y := List.pairwise_iff_forall_sublist.mp h.sorted hxy
  rcases lt_or_eq_of_le hle with hlt | heq
  · exact .inl hlt
  · have hfilter := hxy.filter fun z => key z = key y
    rw [h.same] at hfilter
    have hpair : [x,y].filter (fun z => key z = key y) = [x,y] := by simp [heq]
    rw [hpair] at hfilter
    have hsublist : [x,y].Sublist items := hfilter.trans List.filter_sublist
    exact .inr ⟨heq,List.pairwise_iff_forall_sublist.mp hitems hsublist⟩

end Arranges
end StableOrder
end UProtocols
