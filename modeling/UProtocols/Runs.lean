import Mathlib.Data.List.Induction

/-!
# Runs of partial transition functions

A system is a function `step : σ → ε → Option σ`; an event that is not enabled
has no successor. `exec` is the state after a list of events and `Along` says
that every state of a run and the event taken from it satisfy a predicate. The
rules below carry a one-step argument over whole runs.
-/

namespace UProtocols
namespace Runs

variable {σ ε : Type} {step : σ → ε → Option σ}

/-- Take the events in order; the run is undefined once an event is disabled. -/
def exec (step : σ → ε → Option σ) : σ → List ε → Option σ
  | s, [] => some s
  | s, e::es => (step s e).bind fun t => exec step t es

/-- `P` holds of each state of the run with the event that leaves it. -/
def Along (step : σ → ε → Option σ) (P : σ → ε → Prop) : σ → List ε → Prop
  | _, [] => True
  | s, e::es => P s e ∧ ∀ t, step s e = some t → Along step P t es

/-- Predicates along a concrete run can be evaluated. -/
instance decidableAlong {P : σ → ε → Prop} [∀ s e, Decidable (P s e)] :
    ∀ (s : σ) (es : List ε), Decidable (Along step P s es)
  | _, [] => isTrue trivial
  | s, e::es =>
    match h : step s e with
    | none => decidable_of_iff (P s e) (by simp [Along,h])
    | some t =>
      have : Decidable (Along step P t es) := decidableAlong t es
      decidable_of_iff (P s e ∧ Along step P t es) (by simp [Along,h])

@[simp] theorem exec_nil (s : σ) : exec step s [] = some s := rfl

theorem exec_cons {s t : σ} {e : ε} {es : List ε} :
    exec step s (e::es) = some t ↔ ∃ u, step s e = some u ∧ exec step u es = some t :=
  Option.bind_eq_some_iff

theorem exec_append {s t : σ} {es fs : List ε} :
    exec step s (es ++ fs) = some t ↔ ∃ u, exec step s es = some u ∧ exec step u fs = some t := by
  induction es generalizing s with
  | nil => simp
  | cons e es ih =>
    simp only [List.cons_append, exec_cons, ih]
    constructor
    · rintro ⟨u,hu,v,hv,ht⟩
      exact ⟨v,⟨u,hu,hv⟩,ht⟩
    · rintro ⟨v,⟨u,hu,hv⟩,ht⟩
      exact ⟨u,hu,v,hv,ht⟩

/-- A system that takes every event in every state comes to the end of every run. -/
theorem exec_total (hstep : ∀ s e, ∃ t, step s e = some t) (s : σ) (es : List ε) :
    ∃ t, exec step s es = some t := by
  induction es generalizing s with
  | nil => exact ⟨s,rfl⟩
  | cons e es ih =>
    obtain ⟨u,hu⟩ := hstep s e
    obtain ⟨t,ht⟩ := ih u
    exact ⟨t,exec_cons.mpr ⟨u,hu,ht⟩⟩

/-- A predicate that every step keeps holds at the end of every run. -/
theorem exec_invariant {I : σ → Prop}
    (hstep : ∀ s e t, step s e = some t → I s → I t)
    {s t : σ} {es : List ε} (hrun : exec step s es = some t) (hs : I s) : I t := by
  induction es generalizing s with
  | nil =>
    cases hrun
    exact hs
  | cons e es ih =>
    obtain ⟨u,hu,ht⟩ := exec_cons.mp hrun
    exact ih ht (hstep s e u hu hs)

/-- A system that answers every event as its specification does stays related to it on runs. -/
theorem exec_simulates {τ : Type} {spec : τ → ε → τ} {R : τ → σ → Prop}
    (hstep : ∀ a s e, R a s → ∃ t, step s e = some t ∧ R (spec a e) t)
    {a : τ} {s : σ} (h : R a s) (es : List ε) :
    ∃ t, exec step s es = some t ∧ R (es.foldl spec a) t := by
  induction es generalizing a s with
  | nil => exact ⟨s,rfl,h⟩
  | cons e es ih =>
    obtain ⟨u,hu,hnext⟩ := hstep a s e h
    obtain ⟨t,ht,hlast⟩ := ih hnext
    exact ⟨t,exec_cons.mpr ⟨u,hu,ht⟩,hlast⟩

/-- A system that answers the events that meet `P` as its specification does, and has no answer to
the others: its runs are those whose events all meet `P`. -/
theorem exec_simulates_along {τ κ : Type} {event : ε → κ} {spec : τ → κ → τ} {P : τ → κ → Prop}
    {R : τ → σ → Prop}
    (hstep : ∀ a s e, R a s → P a (event e) → ∃ t, step s e = some t ∧ R (spec a (event e)) t)
    (hnone : ∀ a s e, R a s → ¬ P a (event e) → step s e = none)
    {a : τ} {s : σ} (h : R a s) (es : List ε) :
    (Along (fun a k => some (spec a k)) P a (es.map event) →
        ∃ t, exec step s es = some t ∧ R ((es.map event).foldl spec a) t) ∧
      (¬ Along (fun a k => some (spec a k)) P a (es.map event) → exec step s es = none) := by
  induction es generalizing a s with
  | nil => exact ⟨fun _ => ⟨s,rfl,h⟩,fun hnot => absurd trivial hnot⟩
  | cons e es ih =>
    by_cases hP : P a (event e)
    · obtain ⟨u,hu,hnext⟩ := hstep a s e h hP
      obtain ⟨hruns,hstops⟩ := ih hnext
      constructor
      · intro halong
        obtain ⟨t,ht,hlast⟩ := hruns (halong.2 _ rfl)
        exact ⟨t,exec_cons.mpr ⟨u,hu,ht⟩,hlast⟩
      · intro hnot
        rw [exec,hu]
        apply hstops
        intro htail
        apply hnot
        refine ⟨hP,fun b hb => ?_⟩
        cases hb
        exact htail
    · refine ⟨fun halong => absurd halong.1 hP,fun _ => ?_⟩
      rw [exec,hnone a s e h hP]
      rfl

/-- The invariant rule for predicates of the events taken so far and the state. -/
theorem exec_invariant_trace {I : List ε → σ → Prop} {s₀ : σ}
    (hstep : ∀ es s e t, exec step s₀ es = some s → I es s → step s e = some t → I (es ++ [e]) t)
    (hs : I [] s₀) {t : σ} {es : List ε} (hrun : exec step s₀ es = some t) : I es t := by
  induction es using List.reverseRecOn generalizing t with
  | nil =>
    cases hrun
    exact hs
  | append_singleton es e ih =>
    obtain ⟨u,hu,hlast⟩ := exec_append.mp hrun
    obtain ⟨v,hv,ht⟩ := exec_cons.mp hlast
    cases ht
    exact hstep es u e t hu (ih hu) hv

/-- A predicate that every step reflects holds at the start of every run. -/
theorem exec_reflects {G : σ → Prop}
    (hback : ∀ s e t, step s e = some t → G t → G s)
    {s t : σ} {es : List ε} (hrun : exec step s es = some t) (ht : G t) : G s := by
  induction es generalizing s with
  | nil =>
    cases hrun
    exact ht
  | cons e es ih =>
    obtain ⟨u,hu,hrest⟩ := exec_cons.mp hrun
    exact hback s e u hu (ih hrest)

theorem along_of_forall {P : σ → ε → Prop} (h : ∀ s e, P s e) (s : σ) (es : List ε) :
    Along step P s es := by
  induction es generalizing s with
  | nil => trivial
  | cons e es ih => exact ⟨h s e,fun t _ => ih t⟩

theorem along_of_forall_mem {P : ε → Prop} {es : List ε} (h : ∀ e ∈ es, P e) (s : σ) :
    Along step (fun _ e => P e) s es := by
  induction es generalizing s with
  | nil => trivial
  | cons e es ih =>
    obtain ⟨he,hes⟩ := List.forall_mem_cons.mp h
    exact ⟨he,fun t _ => ih hes t⟩

theorem along_append {P : σ → ε → Prop} {s t : σ} {es fs : List ε}
    (hrun : exec step s es = some t) :
    Along step P s (es ++ fs) ↔ Along step P s es ∧ Along step P t fs := by
  induction es generalizing s with
  | nil =>
    cases hrun
    simp [Along]
  | cons e es ih =>
    obtain ⟨u,hu,hrest⟩ := exec_cons.mp hrun
    have hnext : ∀ es' : List ε,
        (∀ v, step s e = some v → Along step P v es') ↔ Along step P u es' := by
      intro es'
      simp [hu]
    simp only [List.cons_append,Along,hnext,ih hrest,and_assoc]

/-- An invariant of the runs whose steps all meet `P` gives what it implies at each step. -/
theorem Along.of_invariant {P Q : σ → ε → Prop} {I : σ → Prop}
    (hstep : ∀ s e t, step s e = some t → P s e → I s → I t)
    (himp : ∀ s e, I s → Q s e)
    {s : σ} {es : List ε} (hp : Along step P s es) (hs : I s) : Along step Q s es := by
  induction es generalizing s with
  | nil => trivial
  | cons e es ih =>
    exact ⟨himp s e hs,fun t ht => ih (hp.2 t ht) (hstep s e t ht hp.1 hs)⟩

/-- The invariant rule for runs whose steps all meet a side condition `P`, up to
states that satisfy a bound `G` which earlier states inherit. -/
theorem exec_invariant_along {P : σ → ε → Prop} {G I : σ → Prop}
    (hback : ∀ s e t, step s e = some t → G t → G s)
    (hstep : ∀ s e t, step s e = some t → G t → P s e → I s → I t)
    {s t : σ} {es : List ε} (hrun : exec step s es = some t) (ht : G t)
    (hp : Along step P s es) (hs : I s) : I t := by
  induction es generalizing s with
  | nil =>
    cases hrun
    exact hs
  | cons e es ih =>
    obtain ⟨u,hu,hrest⟩ := exec_cons.mp hrun
    have hgood : G u := exec_reflects hback hrest ht
    exact ih hrest (hp.2 u hu) (hstep s e u hu hgood hp.1 hs)

/-- The same rule without a bound. -/
theorem exec_invariant_of_along {P : σ → ε → Prop} {I : σ → Prop}
    (hstep : ∀ s e t, step s e = some t → P s e → I s → I t)
    {s t : σ} {es : List ε} (hrun : exec step s es = some t) (hp : Along step P s es) (hs : I s) :
    I t :=
  exec_invariant_along (G := fun _ => True) (fun _ _ _ _ _ => trivial)
    (fun s e t hst _ => hstep s e t hst) hrun trivial hp hs

/-- The invariant rule for runs whose events all meet a condition. -/
theorem exec_invariant_of_forall_mem {P : ε → Prop} {I : σ → Prop}
    (hstep : ∀ s e t, step s e = some t → P e → I s → I t)
    {s t : σ} {es : List ε} (hrun : exec step s es = some t) (hp : ∀ e ∈ es, P e) (hs : I s) :
    I t :=
  exec_invariant_of_along hstep hrun (along_of_forall_mem hp s) hs

/-- Two step predicates that agree wherever the invariant holds agree on runs. -/
theorem along_congr {P Q : σ → ε → Prop} {G I : σ → Prop}
    (hback : ∀ s e t, step s e = some t → G t → G s)
    (hstep : ∀ s e t, step s e = some t → G t → I s → I t)
    (hiff : ∀ s e t, step s e = some t → G s → I s → (P s e ↔ Q s e))
    {s t : σ} {es : List ε} (hrun : exec step s es = some t) (ht : G t) (hs : I s) :
    Along step P s es ↔ Along step Q s es := by
  induction es generalizing s with
  | nil => exact Iff.rfl
  | cons e es ih =>
    obtain ⟨u,hu,hrest⟩ := exec_cons.mp hrun
    have hgood : G u := exec_reflects hback hrest ht
    have htail := ih hrest (hstep s e u hu hgood hs)
    have hhead := hiff s e u hu (hback s e u hu hgood) hs
    constructor
    · rintro ⟨hp,hps⟩
      refine ⟨hhead.mp hp,fun v hv => ?_⟩
      cases hu.symm.trans hv
      exact htail.mp (hps u hu)
    · rintro ⟨hq,hqs⟩
      refine ⟨hhead.mpr hq,fun v hv => ?_⟩
      cases hu.symm.trans hv
      exact htail.mpr (hqs u hu)

/-- The same for steps that are never disabled by a bound, over whole event lists. -/
theorem along_congr_of_invariant {P Q : σ → ε → Prop} {I : σ → Prop}
    (hstep : ∀ s e t, step s e = some t → I s → I t)
    (hiff : ∀ s e, I s → (P s e ↔ Q s e)) {s : σ} (hs : I s) (es : List ε) :
    Along step P s es ↔ Along step Q s es := by
  induction es generalizing s with
  | nil => exact Iff.rfl
  | cons e es ih =>
    refine and_congr (hiff s e hs) (forall_congr' fun t => ?_)
    exact imp_congr_right fun ht => ih (hstep s e t ht hs)

/-- Every state that a run reaches satisfies `F`, exactly when the first one does and every step
meets the condition under which it keeps `F`. -/
theorem forall_reached_iff {P : σ → ε → Prop} {I F : σ → Prop}
    (hinv : ∀ s e t, step s e = some t → I s → I t)
    (hstep : ∀ s e t, step s e = some t → I s → F s → (F t ↔ P s e))
    {s t : σ} {es : List ε} (hrun : exec step s es = some t) (hs : I s) :
    (∀ fs u, fs <+: es → exec step s fs = some u → F u) ↔ F s ∧ Along step P s es := by
  induction es generalizing s with
  | nil =>
    constructor
    · intro h
      exact ⟨h [] s (List.prefix_refl _) rfl,trivial⟩
    · rintro ⟨hF,-⟩ fs u hfs hu
      cases List.prefix_nil.mp hfs
      cases hu
      exact hF
  | cons e es ih =>
    obtain ⟨v,hv,hrest⟩ := exec_cons.mp hrun
    have htail := ih hrest (hinv s e v hv hs)
    constructor
    · intro h
      have hF : F s := h [] s List.nil_prefix rfl
      have hall : ∀ fs u, fs <+: es → exec step v fs = some u → F u := by
        intro fs u hfs hu
        exact h (e::fs) u ((List.prefix_cons_inj e).mpr hfs) (exec_cons.mpr ⟨v,hv,hu⟩)
      obtain ⟨hFv,halong⟩ := htail.mp hall
      refine ⟨hF,(hstep s e v hv hs hF).mp hFv,fun w hw => ?_⟩
      cases hv.symm.trans hw
      exact halong
    · rintro ⟨hF,hP,halong⟩ fs u hfs hu
      cases fs with
      | nil =>
        cases hu
        exact hF
      | cons f fs =>
        obtain ⟨rfl,hshorter⟩ := List.cons_prefix_cons.mp hfs
        obtain ⟨w,hw,hlast⟩ := exec_cons.mp hu
        cases hv.symm.trans hw
        have hFv : F v := (hstep s f v hv hs hF).mpr hP
        exact htail.mpr ⟨hFv,halong v hv⟩ fs u hshorter hlast

/-- A run comes to its end in a state where `F` holds exactly when every step meets the condition
under which it has a result with `F`, where `F` does not come back once it fails. -/
theorem exec_completes_iff {P : σ → ε → Prop} {I F : σ → Prop}
    (hinv : ∀ s e t, step s e = some t → I s → I t)
    (hback : ∀ s e t, step s e = some t → F t → F s)
    (hstep : ∀ s e, I s → F s → ((∃ t, step s e = some t ∧ F t) ↔ P s e))
    {s : σ} (hs : I s) (hF : F s) (es : List ε) :
    (∃ t, exec step s es = some t ∧ F t) ↔ Along step P s es := by
  induction es generalizing s with
  | nil => exact iff_of_true ⟨s,rfl,hF⟩ trivial
  | cons e es ih =>
    constructor
    · rintro ⟨t,ht,hFt⟩
      obtain ⟨u,hu,hrest⟩ := exec_cons.mp ht
      have hFu : F u := exec_reflects hback hrest hFt
      refine ⟨(hstep s e hs hF).mp ⟨u,hu,hFu⟩,fun v hv => ?_⟩
      cases hu.symm.trans hv
      exact (ih (hinv s e u hu hs) hFu).mp ⟨t,hrest,hFt⟩
    · rintro ⟨hP,halong⟩
      obtain ⟨u,hu,hFu⟩ := (hstep s e hs hF).mpr hP
      obtain ⟨t,ht,hFt⟩ := (ih (hinv s e u hu hs) hFu).mpr (halong u hu)
      exact ⟨t,exec_cons.mpr ⟨u,hu,ht⟩,hFt⟩

/-- A system that is ready for every event: each one leaves it ready again, or in a state where
`F` fails. Then `F` holds throughout a run exactly when all events are of the first kind. -/
theorem forall_reached_iff_events {P : ε → Prop} {R F : σ → Prop} (hready : ∀ s, R s → F s)
    (hstep : ∀ s e, R s → ∃ t, step s e = some t ∧ (P e ∧ R t ∨ ¬ P e ∧ ¬ F t))
    {s : σ} (hs : R s) (es : List ε) :
    (∀ fs u, fs <+: es → exec step s fs = some u → F u) ↔ ∀ e ∈ es, P e := by
  induction es generalizing s with
  | nil =>
    refine iff_of_true ?_ fun e he => absurd he List.not_mem_nil
    intro fs u hfs hu
    cases List.prefix_nil.mp hfs
    cases hu
    exact hready s hs
  | cons e es ih =>
    obtain ⟨t,ht,⟨hP,hR⟩ | ⟨hP,hF⟩⟩ := hstep s e hs
    · rw [List.forall_mem_cons,and_iff_right hP,← ih hR]
      constructor
      · intro h fs u hfs hu
        exact h (e::fs) u ((List.prefix_cons_inj e).mpr hfs) (exec_cons.mpr ⟨t,ht,hu⟩)
      · intro h fs u hfs hu
        cases fs with
        | nil =>
          cases hu
          exact hready s hs
        | cons f fs =>
          obtain ⟨rfl,hshorter⟩ := List.cons_prefix_cons.mp hfs
          obtain ⟨v,hv,hrest⟩ := exec_cons.mp hu
          cases ht.symm.trans hv
          exact h fs u hshorter hrest
    · refine iff_of_false ?_ fun h => hP (h e List.mem_cons_self)
      intro h
      refine hF (h [e] t ?_ (exec_cons.mpr ⟨t,ht,rfl⟩))
      exact (List.prefix_cons_inj e).mpr List.nil_prefix

end Runs
end UProtocols
