import Mathlib.Data.Nat.Notation

/-!
# Programs that call their environment

A program is a tree of calls: each one names what it asks for, and the program goes on with the
answer. A world answers calls and changes with them; `run` is a program in a world, and
`lockstep` are two programs that make their calls at the same time. `Driver` adds an object that
calls may change and errors that end a method.
-/

namespace UProtocols
namespace Interaction

/-- A call `e` is answered by a value of `R e`. -/
inductive Program (E : Type) (R : E → Type) (α : Type)
  | done (a : α)
  | call (e : E) (k : R e → Program E R α)

namespace Program

variable {E : Type} {R : E → Type} {α β γ ω : Type}

protected def bind : Program E R α → (α → Program E R β) → Program E R β
  | done a, f => f a
  | call e k, f => call e fun r => (k r).bind f

instance : Monad (Program E R) where
  pure := done
  bind := Program.bind

/-- One call. -/
def perform (e : E) : Program E R (R e) := call e done

/-- The program in a world that answers its calls. -/
def run (handle : (e : E) → ω → R e × ω) : Program E R α → ω → α × ω
  | done a, w => (a,w)
  | call e k, w => run handle (k (handle e w).1) (handle e w).2

variable {handle : (e : E) → ω → R e × ω}

theorem run_bind (p : Program E R α) (f : α → Program E R β) (w : ω) :
    (p >>= f).run handle w = (f (p.run handle w).1).run handle (p.run handle w).2 := by
  induction p generalizing w with
  | done a => rfl
  | call e k ih => exact ih _ _

/-- Two programs that make their calls at the same time; one that is done waits for the other. -/
def lockstep (both : (e f : E) → ω → (R e × R f) × ω) (left right : (e : E) → ω → R e × ω) :
    Program E R α → Program E R β → ω → (α × β) × ω
  | done a, q, w => ((a,(q.run right w).1),(q.run right w).2)
  | call e k, done b, w => ((((call e k).run left w).1,b),((call e k).run left w).2)
  | call e k, call f l, w =>
    lockstep both left right (k (both e f w).1.1) (l (both e f w).1.2) (both e f w).2

/-- The part of a lockstep run in which both are busy, if they are done at the same time. -/
def together (both : (e f : E) → ω → (R e × R f) × ω) :
    Program E R α → Program E R β → ω → Option ((α × β) × ω)
  | done a, done b, w => some ((a,b),w)
  | call e k, call f l, w => together both (k (both e f w).1.1) (l (both e f w).1.2) (both e f w).2
  | _, _, _ => none

/-- The part of a lockstep run up to the end of the first program, if the other is not done
before: the first result and what is left of the other. -/
def outlived (both : (e f : E) → ω → (R e × R f) × ω) :
    Program E R α → Program E R β → ω → Option (α × Program E R β × ω)
  | done a, q, w => some (a,q,w)
  | call e k, call f l, w => outlived both (k (both e f w).1.1) (l (both e f w).1.2) (both e f w).2
  | call _ _, done _, _ => none

variable {both : (e f : E) → ω → (R e × R f) × ω} {left right : (e : E) → ω → R e × ω}
  {α' β' : Type} {p : Program E R α} {q : Program E R β} {w v : ω}

/-- Induction along the part in which both are busy. -/
theorem together_induction {P : Program E R α → Program E R β → ω → Prop} {a : α} {b : β}
    (hdone : P (done a) (done b) v)
    (hcall : ∀ e f k l w, P (k (both e f w).1.1) (l (both e f w).1.2) (both e f w).2 →
      P (call e k) (call f l) w)
    (h : together both p q w = some ((a,b),v)) : P p q w := by
  induction p generalizing q w with
  | done a =>
    cases q with
    | done b =>
      cases h
      exact hdone
    | call e k => cases h
  | call e k ih =>
    cases q with
    | done b => cases h
    | call f l => exact hcall e f k l w (ih _ h)

theorem together_bind {a : α} {b : β} (h : together both p q w = some ((a,b),v))
    (f : α → Program E R α') (g : β → Program E R β') :
    together both (p >>= f) (q >>= g) w = together both (f a) (g b) v :=
  together_induction
    (P := fun p q w => together both (p >>= f) (q >>= g) w = together both (f a) (g b) v)
    rfl (fun _ _ _ _ _ ih => ih) h

theorem outlived_bind_together {a : α} {b : β} (h : together both p q w = some ((a,b),v))
    (f : α → Program E R α') (g : β → Program E R β') :
    outlived both (p >>= f) (q >>= g) w = outlived both (f a) (g b) v :=
  together_induction
    (P := fun p q w => outlived both (p >>= f) (q >>= g) w = outlived both (f a) (g b) v)
    rfl (fun _ _ _ _ _ ih => ih) h

/-- Induction along the part up to the end of the first program. -/
theorem outlived_induction {P : Program E R α → Program E R β → ω → Prop} {a : α}
    {q' : Program E R β} (hdone : P (done a) q' v)
    (hcall : ∀ e f k l w, P (k (both e f w).1.1) (l (both e f w).1.2) (both e f w).2 →
      P (call e k) (call f l) w)
    (h : outlived both p q w = some (a,q',v)) : P p q w := by
  induction p generalizing q w with
  | done a =>
    cases h
    exact hdone
  | call e k ih =>
    cases q with
    | done b => cases h
    | call f l => exact hcall e f k l w (ih _ h)

theorem outlived_bind {a : α} {q' : Program E R β} (h : outlived both p q w = some (a,q',v))
    (f : α → Program E R α') (g : β → Program E R β') :
    outlived both (p >>= f) (q >>= g) w = outlived both (f a) (q' >>= g) v :=
  outlived_induction
    (P := fun p q w => outlived both (p >>= f) (q >>= g) w = outlived both (f a) (q' >>= g) v)
    rfl (fun _ _ _ _ _ ih => ih) h

theorem lockstep_of_outlived {a : α} {q' : Program E R β}
    (h : outlived both p q w = some (a,q',v)) :
    lockstep both left right p q w = ((a,(q'.run right v).1),(q'.run right v).2) :=
  outlived_induction
    (P := fun p q w =>
      lockstep both left right p q w = ((a,(q'.run right v).1),(q'.run right v).2))
    rfl (fun _ _ _ _ _ ih => ih) h

section Swap

variable (swap : ω → ω)

/-- A map between worlds that answer alike. -/
theorem run_map (hswap : ∀ e w, right e (swap w) = ((left e w).1,swap (left e w).2))
    (p : Program E R α) (w : ω) :
    p.run right (swap w) = ((p.run left w).1,swap (p.run left w).2) := by
  induction p generalizing w with
  | done a => rfl
  | call e k ih =>
    rw [run,hswap]
    exact ih _ _

/-- The two programs of a lockstep run may change places. -/
theorem lockstep_swap
    (hboth : ∀ e f w, both f e (swap w) =
      (((both e f w).1.2,(both e f w).1.1),swap (both e f w).2))
    (hleft : ∀ e w, right e (swap w) = ((left e w).1,swap (left e w).2))
    (hright : ∀ e w, left e (swap w) = ((right e w).1,swap (right e w).2))
    (p : Program E R α) (q : Program E R β) (w : ω) :
    lockstep both left right q p (swap w) =
      (((lockstep both left right p q w).1.2,(lockstep both left right p q w).1.1),
        swap (lockstep both left right p q w).2) := by
  induction p generalizing q w with
  | done a =>
    cases q with
    | done b => rfl
    | call f l =>
      rw [lockstep,lockstep,run_map swap hright]
  | call e k ih =>
    cases q with
    | done b =>
      rw [lockstep,lockstep,run_map swap hleft]
    | call f l =>
      rw [lockstep,hboth,lockstep]
      exact ih _ _ _

end Swap

section Monitor

variable {τ : Type} {next : τ → (e : E) → R e → Option τ}

/-- Whatever its calls are answered, a monitor allows all of them, and at the end its state and the
result satisfy `Q`. A call that the monitor does not allow has no next state. -/
def Conforms (next : τ → (e : E) → R e → Option τ) : τ → Program E R α → (τ → α → Prop) → Prop
  | t, done a, Q => Q t a
  | t, call e k, Q => ∀ r, ∃ t', next t e r = some t' ∧ Conforms next t' (k r) Q

theorem Conforms.bind {t : τ} {p : Program E R α} {f : α → Program E R β} {Q : τ → α → Prop}
    {Q' : τ → β → Prop} (hp : Conforms next t p Q) (hf : ∀ t a, Q t a → Conforms next t (f a) Q') :
    Conforms next t (p >>= f) Q' := by
  induction p generalizing t with
  | done a => exact hf t a hp
  | call e k ih =>
    intro r
    obtain ⟨t',hnext,hrest⟩ := hp r
    exact ⟨t',hnext,ih r hrest⟩

theorem Conforms.mono {t : τ} {p : Program E R α} {Q Q' : τ → α → Prop}
    (hp : Conforms next t p Q) (h : ∀ t a, Q t a → Q' t a) : Conforms next t p Q' := by
  induction p generalizing t with
  | done a => exact h t a hp
  | call e k ih =>
    intro r
    obtain ⟨t',hnext,hrest⟩ := hp r
    exact ⟨t',hnext,ih r hrest⟩

end Monitor

section Watch

variable {τ : Type} {after : τ → (e : E) → R e → τ} {t : τ}

/-- A monitor that allows every call and only keeps track. -/
def tracking (after : τ → (e : E) → R e → τ) (t : τ) (e : E) (r : R e) : Option τ :=
  some (after t e r)

/-- A world with the track of its calls and answers beside it. -/
def watched (after : τ → (e : E) → R e → τ) (handle : (e : E) → ω → R e × ω) (e : E)
    (w : ω × τ) : R e × (ω × τ) :=
  ((handle e w.1).1,(handle e w.1).2,after w.2 e (handle e w.1).1)

/-- The track does not change the run. -/
theorem run_watched (after : τ → (e : E) → R e → τ) (p : Program E R α) (w : ω) (t : τ) :
    p.run handle w =
      ((p.run (watched after handle) (w,t)).1,(p.run (watched after handle) (w,t)).2.1) := by
  induction p generalizing w t with
  | done a => rfl
  | call e k ih => exact ih _ _ _

/-- What is shown for all answers is so in every world. -/
theorem Conforms.run_watched {p : Program E R α} {Q : τ → α → Prop}
    (h : Conforms (tracking after) t p Q) (w : ω) :
    Q (p.run (watched after handle) (w,t)).2.2 (p.run (watched after handle) (w,t)).1 := by
  induction p generalizing t w with
  | done a => exact h
  | call e k ih =>
    obtain ⟨t',hnext,hrest⟩ := h (handle e w).1
    cases hnext
    exact ih _ hrest (handle e w).2

/-- An invariant of a world and the track of its calls. -/
theorem run_watched_invariant {I : ω → τ → Prop}
    (hstep : ∀ e w t, I w t → I (handle e w).2 (after t e (handle e w).1))
    (p : Program E R α) {w : ω} (h : I w t) :
    I (p.run (watched after handle) (w,t)).2.1 (p.run (watched after handle) (w,t)).2.2 := by
  induction p generalizing t w with
  | done a => exact h
  | call e k ih => exact ih _ (hstep e w t h)

end Watch

end Program

/-- Methods of an object `σ` that may fail with `ε`. -/
abbrev Driver (E : Type) (R : E → Type) (σ ε : Type) : Type → Type :=
  ExceptT ε (StateT σ (Program E R))

namespace Driver

variable {E : Type} {R : E → Type} {σ ε α β ω : Type}

def perform (e : E) : Driver E R σ ε (R e) := liftM (Program.perform e : Program E R (R e))

/-- The program of a method call. -/
def program (m : Driver E R σ ε α) (s : σ) : Program E R (Except ε α × σ) := (m.run).run s

/-- A call whose failure is a value for the caller. -/
def attempt (m : Driver E R σ ε α) : Driver E R σ ε (Except ε α) := ExceptT.lift m.run

/-- A method call in a world. -/
def exec (handle : (e : E) → ω → R e × ω) (m : Driver E R σ ε α) (s : σ) (w : ω) :
    (Except ε α × σ) × ω :=
  (m.program s).run handle w

/-- How a method goes on with the result of a call. -/
def next (f : α → Driver E R σ ε β) : Except ε α × σ → Program E R (Except ε β × σ)
  | (.ok a,t) => (f a).program t
  | (.error e,t) => pure (.error e,t)

theorem program_bind (m : Driver E R σ ε α) (f : α → Driver E R σ ε β) (s : σ) :
    (m >>= f).program s = m.program s >>= next f := by
  refine congrArg (Program.bind (m.program s)) ?_
  funext result
  obtain ⟨answer,t⟩ := result
  cases answer <;> rfl

variable {handle : (e : E) → ω → R e × ω} {m : Driver E R σ ε α} {f : α → Driver E R σ ε β}

theorem exec_bind (s : σ) (w : ω) : (m >>= f).exec handle s w =
    match m.exec handle s w with
    | ((.ok a,t),v) => (f a).exec handle t v
    | ((.error e,t),v) => ((.error e,t),v) := by
  rw [exec,program_bind,Program.run_bind,exec]
  obtain ⟨⟨answer,t⟩,v⟩ := (m.program s).run handle w
  cases answer <;> rfl

theorem exec_bind_ok {s t : σ} {w v : ω} {a : α} (h : m.exec handle s w = ((.ok a,t),v)) :
    (m >>= f).exec handle s w = (f a).exec handle t v := by
  rw [exec_bind,h]

theorem exec_bind_error {s t : σ} {w v : ω} {e : ε} (h : m.exec handle s w = ((.error e,t),v)) :
    (m >>= f).exec handle s w = ((.error e,t),v) := by
  rw [exec_bind,h]

theorem exec_pure (a : α) (s : σ) (w : ω) :
    (pure a : Driver E R σ ε α).exec handle s w = ((.ok a,s),w) := rfl

theorem exec_get (s : σ) (w : ω) : (get : Driver E R σ ε σ).exec handle s w = ((.ok s,s),w) := rfl

theorem exec_modify (g : σ → σ) (s : σ) (w : ω) :
    (modify g : Driver E R σ ε PUnit).exec handle s w = ((.ok ⟨⟩,g s),w) := rfl

theorem exec_attempt (s : σ) (w : ω) : (attempt m).exec handle s w =
    ((.ok (m.exec handle s w).1.1,(m.exec handle s w).1.2),(m.exec handle s w).2) := by
  have hprogram : (attempt m).program s =
      m.program s >>= fun result => pure (Except.ok result.1,result.2) := rfl
  rw [exec,hprogram,Program.run_bind]
  rfl

section Lockstep

variable {both : (e f : E) → ω → (R e × R f) × ω} {left right : (e : E) → ω → R e × ω}
  {α' β' : Type} {n : Driver E R σ ε β} {f : α → Driver E R σ ε α'} {g : β → Driver E R σ ε β'}
  {s s' t t' : σ} {w v : ω} {a : α} {b : β}

theorem together_perform (e e' : E) (s t : σ) (w : ω) :
    Program.together both ((perform e : Driver E R σ ε (R e)).program s)
      ((perform e' : Driver E R σ ε (R e')).program t) w =
    some (((.ok (both e e' w).1.1,s),(.ok (both e e' w).1.2,t)),(both e e' w).2) := rfl

theorem together_bind_ok (h : Program.together both (m.program s) (n.program t) w =
      some (((.ok a,s'),(.ok b,t')),v)) :
    Program.together both ((m >>= f).program s) ((n >>= g).program t) w =
      Program.together both ((f a).program s') ((g b).program t') v := by
  rw [program_bind,program_bind,Program.together_bind h]
  rfl

/-- In lockstep with the second, the first method ends no later, with `x` and in the world `u`; the
second then goes on alone, to the result `r`. -/
def Outlived (both : (e f : E) → ω → (R e × R f) × ω) (right : (e : E) → ω → R e × ω)
    (m : Driver E R σ ε α) (n : Driver E R σ ε β) (s t : σ) (w : ω) (x : Except ε α × σ) (u : ω)
    (r : (Except ε β × σ) × ω) : Prop :=
  ∃ q, Program.outlived both (m.program s) (n.program t) w = some (x,q,u) ∧ q.run right u = r

theorem Outlived.lockstep {x : Except ε α × σ} {u : ω} {r : (Except ε β × σ) × ω}
    (h : Outlived both right m n s t w x u r) :
    Program.lockstep both left right (m.program s) (n.program t) w = ((x,r.1),r.2) := by
  obtain ⟨q,hq,hr⟩ := h
  rw [Program.lockstep_of_outlived hq,hr]

theorem Outlived.of_together {x : Except ε α' × σ} {u : ω} {r : (Except ε β' × σ) × ω}
    (h : Program.together both (m.program s) (n.program t) w = some (((.ok a,s'),(.ok b,t')),v))
    (hrest : Outlived both right (f a) (g b) s' t' v x u r) :
    Outlived both right (m >>= f) (n >>= g) s t w x u r := by
  obtain ⟨q,hq,hr⟩ := hrest
  refine ⟨q,?_,hr⟩
  rw [program_bind,program_bind,Program.outlived_bind_together h]
  exact hq

/-- The first method ends with the call; the second goes on. -/
theorem Outlived.bind {x : Except ε α × σ} {x' : Except ε α' × σ} {u : ω}
    {r : (Except ε β × σ) × ω} (h : Outlived both right m n s t w x u r)
    (hx : next f x = .done x') :
    Outlived both right (m >>= f) (n >>= g) s t w x' u ((next g r.1).run right r.2) := by
  obtain ⟨q,hq,hr⟩ := h
  refine ⟨q >>= next g,?_,?_⟩
  · rw [program_bind,program_bind,Program.outlived_bind hq,hx]
    rfl
  · rw [Program.run_bind,hr]

theorem Outlived.bind_ok {x : Except ε α × σ} {x' : Except ε α' × σ} {u : ω}
    {r : (Except ε β' × σ) × ω} (h : Outlived both right m n s t w x u ((.ok b,t'),v))
    (hx : next f x = .done x') (hr : (g b).exec right t' v = r) :
    Outlived both right (m >>= f) (n >>= g) s t w x' u r := by
  rw [← hr]
  exact h.bind hx

end Lockstep

section Monitor

variable {τ : Type} {next : τ → (e : E) → R e → Option τ} {t : τ} {a : α}
  {Q : τ → Except ε α → Prop} {Q' : τ → Except ε β → Prop}

/-- The calls of the method are allowed by a monitor in state `t`, whatever the object is; `Q` is
about the state of the monitor at the end and the result. -/
def Follows (next : τ → (e : E) → R e → Option τ) (m : Driver E R σ ε α) (t : τ)
    (Q : τ → Except ε α → Prop) : Prop :=
  ∀ s, Program.Conforms next t (m.program s) fun t result => Q t result.1

namespace Follows

theorem perform {e : E} {Q : τ → Except ε (R e) → Prop}
    (h : ∀ r, ∃ t', next t e r = some t' ∧ Q t' (.ok r)) :
    Follows next (perform e : Driver E R σ ε (R e)) t Q := fun _ => h

theorem pure (h : Q t (.ok a)) : Follows next (Pure.pure a : Driver E R σ ε α) t Q := fun _ => h

theorem throw {e : ε} (h : Q t (.error e)) :
    Follows next (MonadExcept.throw e : Driver E R σ ε α) t Q := fun _ => h

theorem modify_bind {g : σ → σ} {f : PUnit → Driver E R σ ε β} (h : Follows next (f ⟨⟩) t Q') :
    Follows next (modify g >>= f) t Q' := fun s => h (g s)

theorem modify {g : σ → σ} {Q : τ → Except ε PUnit → Prop} (h : Q t (.ok ⟨⟩)) :
    Follows next (modify g : Driver E R σ ε PUnit) t Q := fun _ => h

theorem mono {Q' : τ → Except ε α → Prop} (hm : Follows next m t Q)
    (h : ∀ t result, Q t result → Q' t result) : Follows next m t Q' :=
  fun s => (hm s).mono fun t result => h t result.1

/-- Errors end the method. -/
theorem bind (hm : Follows next m t Q) (hok : ∀ t a, Q t (.ok a) → Follows next (f a) t Q')
    (herror : ∀ t e, Q t (.error e) → Q' t (.error e)) : Follows next (m >>= f) t Q' := by
  intro s
  rw [program_bind]
  refine (hm s).bind ?_
  intro t result hQ
  obtain ⟨answer,s'⟩ := result
  cases answer with
  | ok a => exact hok t a hQ s'
  | error e => exact herror t e hQ

theorem get_bind {f : σ → Driver E R σ ε β} (h : ∀ s, Follows next (f s) t Q') :
    Follows next (get >>= f) t Q' := fun s => h s s

theorem attempt (hm : Follows next m t Q) :
    Follows next (attempt m) t fun t result => ∃ answer, result = .ok answer ∧ Q t answer := by
  intro s
  have hprogram : (Driver.attempt m).program s =
      m.program s >>= fun result => Pure.pure (Except.ok result.1,result.2) := rfl
  rw [hprogram]
  refine (hm s).bind ?_
  intro t result hQ
  exact ⟨result.1,rfl,hQ⟩

end Follows

end Monitor

section Watch

variable {τ : Type} {after : τ → (e : E) → R e → τ} {t : τ}

theorem Follows.exec_watched {Q : τ → Except ε α → Prop}
    (h : Follows (Program.tracking after) m t Q) (handle : (e : E) → ω → R e × ω) (s : σ) (w : ω) :
    Q (m.exec (Program.watched after handle) s (w,t)).2.2
      (m.exec (Program.watched after handle) s (w,t)).1.1 :=
  (h s).run_watched w

/-- A call in front of a method. -/
theorem Follows.call {e : E} {f : R e → Driver E R σ ε β} {Q : τ → Except ε β → Prop}
    (h : ∀ r, Follows (Program.tracking after) (f r) (after t e r) Q) :
    Follows (Program.tracking after) (Driver.perform e >>= f) t Q := fun s r => ⟨_,rfl,h r s⟩

end Watch

end Driver

end Interaction
end UProtocols
