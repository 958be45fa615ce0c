import UProtocols.Interaction

/-!
# Methods that hold a resource

Of the calls of a method, some take a resource of the environment or release it, and some fail. A
watch beside the world keeps whether the resource is held and whether a call has failed. A method
that takes the resource, makes fallible calls and releases it at the end has it released unless one
of them fails.
-/

namespace UProtocols
namespace HeldResource

open Interaction

/-- What an answered call means for the resource. -/
inductive Effect
  | holds (held : Bool)
  | fails
  | nothing
  deriving DecidableEq

structure Watch where
  held : Bool
  failed : Bool
  deriving DecidableEq

def Watch.after (t : Watch) : Effect → Watch
  | .holds held => { t with held := held }
  | .fails => { t with failed := true }
  | .nothing => t

def free : Watch := ⟨false,false⟩

def holding : Watch := ⟨true,false⟩

/-- After a failure, with the resource still held. -/
def stuck : Watch := ⟨true,true⟩

variable {E : Type} {R : E → Type} {σ ε α β ω : Type} {effect : (e : E) → R e → Effect}
  {excused : ε → Prop} {t : Watch} {m : Driver E R σ ε α} {f : α → Driver E R σ ε β}

def after (effect : (e : E) → R e → Effect) (t : Watch) (e : E) (r : R e) : Watch :=
  t.after (effect e r)

abbrev Follows (effect : (e : E) → R e → Effect) (m : Driver E R σ ε α) (t : Watch)
    (Q : Watch → Except ε α → Prop) : Prop :=
  Driver.Follows (Program.tracking (after effect)) m t Q

abbrev watched (effect : (e : E) → R e → Effect) (handle : (e : E) → ω → R e × ω) :
    (e : E) → ω × Watch → R e × (ω × Watch) :=
  Program.watched (after effect) handle

/-! ## Methods in parts -/

/-- The result of a part that neither takes nor releases the resource: the first failure ends the
method. Errors that are excused are those of the calls for the resource itself. -/
def Keeps (excused : ε → Prop) (t : Watch) : Except ε α → Prop
  | .ok _ => t = holding
  | .error e => ¬ excused e ∧ t = stuck

/-- The result of a method that has released the resource at its end. -/
def Ends (excused : ε → Prop) (t : Watch) : Except ε α → Prop
  | .ok _ => t = free
  | .error e => excused e ∧ t.failed = false ∨ ¬ excused e ∧ t = stuck

/-- Without an excuse the resource is released, exactly if no call has failed. -/
def Released (excused : ε → Prop) (t : Watch) (result : Except ε α) : Prop :=
  ((∀ e, result = .error e → ¬ excused e) → t.held = false) ↔ t.failed = false

theorem released_of_ends {result : Except ε α} (h : Ends excused t result) :
    Released excused t result := by
  cases result with
  | ok a =>
    cases h
    exact iff_of_true (fun _ => rfl) rfl
  | error e =>
    cases h with
    | inl hexcused => exact iff_of_true (fun hnone => absurd hexcused.1 (hnone e rfl)) hexcused.2
    | inr hstuck =>
      obtain ⟨hother,rfl⟩ := hstuck
      refine iff_of_false ?_ Bool.noConfusion
      intro h
      cases h fun e' he' => Except.error.inj he' ▸ hother

theorem keeps_bind (hm : Follows effect m holding (Keeps excused))
    (hf : ∀ a, Follows effect (f a) holding (Keeps excused)) :
    Follows effect (m >>= f) holding (Keeps excused) :=
  hm.bind (fun _ a h => Eq.symm h ▸ hf a) (fun _ _ h => h)

/-- A part while the resource is held, in front of the release. -/
theorem keeps_ends (hm : Follows effect m holding (Keeps excused))
    (hf : ∀ a, Follows effect (f a) holding (Ends excused)) :
    Follows effect (m >>= f) holding (Ends excused) :=
  hm.bind (fun _ a h => Eq.symm h ▸ hf a) (fun _ _ h => .inr h)

theorem ends_bind (hm : Follows effect m t (Ends excused))
    (hf : ∀ a, Follows effect (f a) free (Ends excused)) :
    Follows effect (m >>= f) t (Ends excused) :=
  hm.bind (fun _ a h => Eq.symm h ▸ hf a) (fun _ _ h => h)

end HeldResource
end UProtocols
