import Mathlib.Data.List.Induction
import Mathlib.Data.List.Infix

/-!
# The TCP state tracker

`TcpConnection` of `tcp_state_manager.rs`. What the stream answers is part of a call. Each
operation sets a fixed state, whatever the current one is; the transitions are compared with
the diagram of RFC 793.
-/

namespace UProtocols
namespace TcpStateManager

inductive TcpState
  | closed
  | listen
  | synSent
  | synReceived
  | established
  | finWait1
  | finWait2
  | closeWait
  | closing
  | lastAck
  | timeWait
  deriving DecidableEq

def TcpState.asStr : TcpState → String
  | closed => "CLOSED"
  | listen => "LISTEN"
  | synSent => "SYN_SENT"
  | synReceived => "SYN_RECEIVED"
  | established => "ESTABLISHED"
  | finWait1 => "FIN_WAIT1"
  | finWait2 => "FIN_WAIT2"
  | closeWait => "CLOSE_WAIT"
  | closing => "CLOSING"
  | lastAck => "LAST_ACK"
  | timeWait => "TIME_WAIT"

/-- An error of the connection itself, or one that the stream returned. -/
inductive IoError (ε : Type)
  | notConnected (message : String)
  | stream (error : ε)
  deriving DecidableEq

/-- A change of `current_state`, as it is printed. -/
structure Transition where
  event : String
  before : TcpState
  after : TcpState
  deriving DecidableEq

structure TcpConnection where
  currentState : TcpState
  transitions : List Transition
  deriving DecidableEq

namespace TcpConnection

variable {ε : Type}

def new : TcpConnection := ⟨.established,[]⟩

def stateTransition (c : TcpConnection) (event : String) (newState : TcpState) : TcpConnection :=
  if c.currentState ≠ newState then
    ⟨newState,c.transitions ++ [⟨event,c.currentState,newState⟩]⟩
  else c

/-- `write` and `flush` are the answers of the stream. -/
def sendData (c : TcpConnection) (write : Except ε ℕ) (flush : Except ε Unit) :
    TcpConnection × Except (IoError ε) ℕ :=
  if c.currentState ≠ .established then
    (c,.error (.notConnected s!"Cannot send in {c.currentState.asStr} state"))
  else match write, flush with
    | .error e, _ => (c,.error (.stream e))
    | .ok _, .error e => (c,.error (.stream e))
    | .ok sent, .ok () => (c,.ok sent)

def receiveData (c : TcpConnection) : Except ε ℕ → TcpConnection × Except (IoError ε) ℕ
  | .ok 0 => (c.stateTransition "received FIN" .closeWait,.ok 0)
  | .ok n => (c,.ok n)
  | .error e => (c,.error (.stream e))

def shutdownWrite (c : TcpConnection) (shutdown : Except ε Unit) :
    TcpConnection × Except (IoError ε) Unit :=
  let c := c.stateTransition "shutdown(Write)" .finWait1
  match shutdown with
  | .error e => (c,.error (.stream e))
  | .ok () => (c.stateTransition "received ACK for FIN" .finWait2,.ok ())

end TcpConnection

/-! ## Runs -/

/-- A call with what the stream answers. -/
inductive Call (ε : Type)
  | sendData (write : Except ε ℕ) (flush : Except ε Unit)
  | receiveData (read : Except ε ℕ)
  | shutdownWrite (shutdown : Except ε Unit)

namespace TcpConnection

variable {ε : Type}

def step (c : TcpConnection) : Call ε → TcpConnection
  | .sendData write flush => (c.sendData write flush).1
  | .receiveData read => (c.receiveData read).1
  | .shutdownWrite shutdown => (c.shutdownWrite shutdown).1

def run (calls : List (Call ε)) : TcpConnection := calls.foldl step new

end TcpConnection

/-! ## RFC 793 -/

/-- The edges of the connection state diagram, figure 6. -/
def edges : List (TcpState × TcpState) := [
  (.closed,.listen),(.closed,.synSent),
  (.listen,.closed),(.listen,.synReceived),(.listen,.synSent),
  (.synSent,.closed),(.synSent,.synReceived),(.synSent,.established),
  (.synReceived,.established),(.synReceived,.finWait1),
  (.established,.finWait1),(.established,.closeWait),
  (.finWait1,.finWait2),(.finWait1,.closing),
  (.finWait2,.timeWait),
  (.closeWait,.lastAck),
  (.closing,.timeWait),
  (.lastAck,.closed),
  (.timeWait,.closed)]

def Transition.IsEdge (t : Transition) : Prop := (t.before,t.after) ∈ edges

instance (t : Transition) : Decidable t.IsEdge := inferInstanceAs (Decidable (_ ∈ edges))

/-- A failed `shutdown_write` leaves the state as it was. -/
def Unmoved {ε : Type} (c : TcpConnection) : Call ε → Prop
  | .shutdownWrite (.error e) => (c.shutdownWrite (.error e)).1.currentState = c.currentState
  | _ => True

/-- A FIN comes in an established connection or again in one that waits to close, and the write
side of an established connection is shut down without an error. -/
def Orderly {ε : Type} (state : TcpState) : Call ε → Prop
  | .sendData _ _ => True
  | .receiveData read => read.toOption = some 0 → state = .established ∨ state = .closeWait
  | .shutdownWrite shutdown => state = .established ∧ shutdown.toOption.isSome

/-- The states that orderly calls come to. -/
def Tame (state : TcpState) : Prop :=
  state = .established ∨ state = .closeWait ∨ state = .finWait2

namespace TcpConnection

variable {ε : Type} {c : TcpConnection}

theorem sendData_fst (c : TcpConnection) (write : Except ε ℕ) (flush : Except ε Unit) :
    (c.sendData write flush).1 = c := by
  unfold sendData
  split_ifs
  · rfl
  · split <;> rfl

theorem forall_mem_stateTransition {event : String} {newState : TcpState} :
    (∀ t ∈ (c.stateTransition event newState).transitions, t.IsEdge) ↔
      (∀ t ∈ c.transitions, t.IsEdge) ∧
        (c.currentState = newState ∨ (c.currentState,newState) ∈ edges) := by
  by_cases hsame : c.currentState = newState
  · simp [stateTransition,hsame]
  · simp [stateTransition,hsame,or_imp,forall_and,Transition.IsEdge]

@[simp] theorem stateTransition_currentState {event : String} {newState : TcpState} :
    (c.stateTransition event newState).currentState = newState := by
  by_cases hsame : c.currentState = newState <;> simp [stateTransition,hsame]

theorem transitions_prefix_stateTransition (c : TcpConnection) (event : String)
    (newState : TcpState) : c.transitions <+: (c.stateTransition event newState).transitions := by
  by_cases hsame : c.currentState = newState <;> simp [stateTransition,hsame]

theorem transitions_prefix_step (c : TcpConnection) (call : Call ε) :
    c.transitions <+: (c.step call).transitions := by
  cases call with
  | sendData write flush => rw [step,sendData_fst]
  | receiveData read =>
    rw [step]
    unfold receiveData
    split
    · exact transitions_prefix_stateTransition _ _ _
    · exact List.prefix_refl _
    · exact List.prefix_refl _
  | shutdownWrite shutdown =>
    have hfirst := transitions_prefix_stateTransition c "shutdown(Write)" .finWait1
    cases shutdown with
    | error e => exact hfirst
    | ok u => exact hfirst.trans (transitions_prefix_stateTransition _ _ _)

/-- From a tame state a call stays within the diagram exactly when it is orderly. -/
theorem step_iff (htame : Tame c.currentState) (call : Call ε) :
    (∀ t ∈ (c.step call).transitions, t.IsEdge) ∧ Unmoved c call ↔
      (∀ t ∈ c.transitions, t.IsEdge) ∧ Orderly c.currentState call := by
  cases call with
  | sendData write flush => simp [step,sendData_fst,Unmoved,Orderly]
  | receiveData read =>
    cases read with
    | error e => simp [step,receiveData,Unmoved,Orderly,Except.toOption]
    | ok n =>
      cases n with
      | zero =>
        simp only [step,receiveData,Unmoved,Orderly,Except.toOption,forall_mem_stateTransition]
        obtain h | h | h := htame <;> simp [h,edges]
      | succ n => simp [step,receiveData,Unmoved,Orderly,Except.toOption]
  | shutdownWrite shutdown =>
    cases shutdown with
    | error e =>
      simp only [step,shutdownWrite,Unmoved,Orderly,Except.toOption,forall_mem_stateTransition]
      obtain h | h | h := htame <;> simp [h]
    | ok u =>
      simp only [step,shutdownWrite,Unmoved,Orderly,Except.toOption,forall_mem_stateTransition]
      obtain h | h | h := htame <;> simp [h,edges]

theorem tame_step {call : Call ε} (htame : Tame c.currentState)
    (horderly : Orderly c.currentState call) : Tame (c.step call).currentState := by
  cases call with
  | sendData write flush =>
    rw [step,sendData_fst]
    exact htame
  | receiveData read =>
    cases read with
    | error e => exact htame
    | ok n =>
      cases n with
      | zero => simp [step,receiveData,Tame]
      | succ n => exact htame
  | shutdownWrite shutdown =>
    cases shutdown with
    | error e => cases horderly.2
    | ok u => simp [step,shutdownWrite,Tame]

theorem run_concat (calls : List (Call ε)) (call : Call ε) :
    run (calls ++ [call]) = (run calls).step call := by
  simp [run]

/-- Every call of a run and the connection it finds satisfy `P`. -/
def EachCall (P : TcpConnection → Call ε → Prop) (calls : List (Call ε)) : Prop :=
  ∀ before call, before ++ [call] <+: calls → P (run before) call

theorem eachCall_nil {P : TcpConnection → Call ε → Prop} : EachCall P [] := by
  intro before call h
  simp at h

theorem eachCall_concat {P : TcpConnection → Call ε → Prop} {calls : List (Call ε)}
    {call : Call ε} : EachCall P (calls ++ [call]) ↔ EachCall P calls ∧ P (run calls) call := by
  constructor
  · intro h
    refine ⟨?_,h calls call (List.prefix_refl _)⟩
    intro before call' hpre
    exact h before call' (hpre.trans (List.prefix_append _ _))
  · rintro ⟨hcalls,hlast⟩ before call' hpre
    obtain heq | hpre := List.prefix_concat_iff.mp hpre
    · obtain ⟨rfl,hcall⟩ := List.append_inj' heq rfl
      cases hcall
      exact hlast
    · exact hcalls before call' hpre

/-- Every change of the state is an edge of the diagram and failed calls of `shutdown_write` change
nothing, exactly in the runs whose calls are all orderly. -/
theorem rfc793_iff (calls : List (Call ε)) :
    (∀ t ∈ (run calls).transitions, t.IsEdge) ∧ EachCall Unmoved calls ↔
      EachCall (fun c call => Orderly c.currentState call) calls := by
  -- orderly runs also stay in tame states, where the next call is judged alike
  have hboth : ((∀ t ∈ (run calls).transitions, t.IsEdge) ∧ EachCall Unmoved calls ↔
      EachCall (fun c call => Orderly c.currentState call) calls) ∧
      (EachCall (fun c call => Orderly c.currentState call) calls →
        Tame (run calls).currentState) := by
    induction calls using List.reverseRecOn with
    | nil => simp [run,new,eachCall_nil,Tame]
    | append_singleton calls call ih =>
      obtain ⟨hiff,htame⟩ := ih
      have hkeeps : (∀ t ∈ ((run calls).step call).transitions, t.IsEdge) →
          ∀ t ∈ (run calls).transitions, t.IsEdge :=
        fun h t ht => h t ((transitions_prefix_step (run calls) call).subset ht)
      rw [run_concat,eachCall_concat,eachCall_concat]
      constructor
      · constructor
        · rintro ⟨hedges,hunmoved,hlast⟩
          have horderly := hiff.mp ⟨hkeeps hedges,hunmoved⟩
          exact ⟨horderly,((step_iff (htame horderly) call).mp ⟨hedges,hlast⟩).2⟩
        · rintro ⟨horderly,hlast⟩
          obtain ⟨hedges,hunmoved⟩ := hiff.mpr horderly
          obtain ⟨hnew,hcall⟩ := (step_iff (htame horderly) call).mpr ⟨hedges,hlast⟩
          exact ⟨hnew,hunmoved,hcall⟩
      · rintro ⟨horderly,hlast⟩
        exact tame_step (htame horderly) hlast
  exact hboth.1

/-- A connection shuts down its write side and then receives the FIN of the other end, as in
`demonstrate_half_close`: the state goes from FIN_WAIT2 to CLOSE_WAIT. -/
theorem rfc793_iff_halfClose :
    ¬ ∀ calls : List (Call String),
      (∀ t ∈ (run calls).transitions, t.IsEdge) ∧ EachCall Unmoved calls := by
  intro h
  have hedges := (h [.sendData (.ok 32) (.ok ()),.shutdownWrite (.ok ()),.receiveData (.ok 0)]).1
  revert hedges
  decide +kernel

end TcpConnection

end TcpStateManager
end UProtocols
