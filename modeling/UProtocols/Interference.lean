import Mathlib.Data.Nat.Notation
import UProtocols.Runs

/-!
# Straight-line code under interference

A processor takes the instructions of a list one after the other, and between any two of them its
surroundings change the state. An assertion that stands between two instructions has to survive
these events; then it is enough to look at each instruction alone.
-/

namespace UProtocols
namespace Interference

/-- The instructions that are left. -/
structure Config (σ ι : Type) where
  code : List ι
  state : σ

variable {σ ι ε : Type}

/-- The next instruction, or an event of the surroundings. -/
def step (act : ι → σ → Option σ) (event : ε → σ → Option σ) (c : Config σ ι) :
    Option ε → Option (Config σ ι)
  | some e => (event e c.state).map fun s => ⟨c.code,s⟩
  | none =>
    match c.code with
    | [] => none
    | i::code => (act i c.state).map fun s => ⟨code,s⟩

variable {act : ι → σ → Option σ} {event : ε → σ → Option σ} {allowed : ε → Prop}
  {P Q R : σ → Prop} {code code' : List ι}

def Stable (event : ε → σ → Option σ) (allowed : ε → Prop) (P : σ → Prop) : Prop :=
  ∀ e s t, allowed e → event e s = some t → P s → P t

/-- The code leads from `P` to `Q`. -/
inductive Proves (act : ι → σ → Option σ) (event : ε → σ → Option σ) (allowed : ε → Prop) :
    (σ → Prop) → List ι → (σ → Prop) → Prop
  | done {P Q : σ → Prop} (hstable : Stable event allowed P) (hdone : ∀ s, P s → Q s) :
      Proves act event allowed P [] Q
  | next {P Q R : σ → Prop} {i : ι} {code : List ι} (hstable : Stable event allowed P)
      (hact : ∀ s t, act i s = some t → P s → Q t) (hcode : Proves act event allowed Q code R) :
      Proves act event allowed P (i::code) R

theorem Stable.and (hP : Stable event allowed P) (hQ : Stable event allowed Q) :
    Stable event allowed fun s => P s ∧ Q s :=
  fun e s t hallowed he h => ⟨hP e s t hallowed he h.1,hQ e s t hallowed he h.2⟩

namespace Proves

theorem stable (h : Proves act event allowed P code Q) : Stable event allowed P := by
  cases h with
  | done hstable _ => exact hstable
  | next hstable => exact hstable

theorem strengthen (h : Proves act event allowed Q code R) (hstable : Stable event allowed P)
    (hPQ : ∀ s, P s → Q s) : Proves act event allowed P code R := by
  cases h with
  | done _ hdone => exact .done hstable fun s hP => hdone s (hPQ s hP)
  | next _ hact hcode => exact .next hstable (fun s t hi hP => hact s t hi (hPQ s hP)) hcode

theorem weaken (h : Proves act event allowed P code Q) (hQR : ∀ s, Q s → R s) :
    Proves act event allowed P code R := by
  induction h with
  | done hstable hdone => exact .done hstable fun s hP => hQR s (hdone s hP)
  | next hstable hact _ ih => exact .next hstable hact (ih hQR)

theorem append (h : Proves act event allowed P code Q)
    (h' : Proves act event allowed Q code' R) : Proves act event allowed P (code ++ code') R := by
  induction h with
  | done hstable hdone => exact h'.strengthen hstable hdone
  | next hstable hact _ ih => exact .next hstable hact (ih h')

theorem one {i : ι} (hP : Stable event allowed P) (hQ : Stable event allowed Q)
    (hact : ∀ s t, act i s = some t → P s → Q t) : Proves act event allowed P [i] Q :=
  .next hP hact (.done hQ fun _ h => h)

/-- A loop: the assertion follows the number of rounds. -/
theorem each {P : ℕ → σ → Prop} {code : List ι} (hstable : ∀ k, Stable event allowed (P k))
    (hact : ∀ k i, code[k]? = some i → ∀ s t, act i s = some t → P k s → P (k + 1) t) :
    Proves act event allowed (P 0) code (P code.length) := by
  induction code generalizing P with
  | nil => exact .done (hstable 0) fun _ h => h
  | cons i code ih =>
    exact .next (hstable 0) (hact 0 i rfl) (ih (P := fun k => P (k + 1))
      (fun k => hstable (k + 1)) fun k j hj => hact (k + 1) j hj)

/-- Code that keeps what holds. -/
theorem keeps (hstable : Stable event allowed P)
    (hact : ∀ i ∈ code, ∀ s t, act i s = some t → P s → P t) :
    Proves act event allowed P code P :=
  each (P := fun _ => P) (fun _ => hstable) fun _ i hi => hact i (List.mem_of_getElem? hi)

/-- What is left of the code leads on from where it is. -/
theorem run {c c' : Config σ ι} {events : List (Option ε)} (h : Proves act event allowed P c.code Q)
    (hP : P c.state) (hallowed : ∀ e, some e ∈ events → allowed e)
    (hrun : Runs.exec (step act event) c events = some c') :
    ∃ P', Proves act event allowed P' c'.code Q ∧ P' c'.state := by
  induction events generalizing c P with
  | nil =>
    cases hrun
    exact ⟨P,h,hP⟩
  | cons e events ih =>
    obtain ⟨d,hd,hrest⟩ := Runs.exec_cons.mp hrun
    have hlater : ∀ e, some e ∈ events → allowed e := fun e he =>
      hallowed e (List.mem_cons_of_mem _ he)
    cases e with
    | some e =>
      obtain ⟨t,ht,rfl⟩ := Option.map_eq_some_iff.mp hd
      exact ih (c := ⟨c.code,t⟩) h (h.stable e c.state t (hallowed e List.mem_cons_self) ht hP)
        hlater hrest
    | none =>
      obtain ⟨code,s⟩ := c
      cases h with
      | done => cases hd
      | next hstable hact hcode =>
        obtain ⟨t,ht,rfl⟩ := Option.map_eq_some_iff.mp hd
        exact ih hcode (hact s t ht hP) hlater hrest

/-- When all instructions have been taken, what they lead to holds. -/
theorem sound {c c' : Config σ ι} {events : List (Option ε)}
    (h : Proves act event allowed P c.code Q) (hP : P c.state)
    (hallowed : ∀ e, some e ∈ events → allowed e)
    (hrun : Runs.exec (step act event) c events = some c') (hdone : c'.code = []) :
    Q c'.state := by
  obtain ⟨P',hrest,hP'⟩ := h.run hP hallowed hrun
  rw [hdone] at hrest
  cases hrest with
  | done _ hlast => exact hlast _ hP'

end Proves
end Interference
end UProtocols
