import UProtocols.ErrorRecovery

/-!
# Failures of `connect` and the recovery loop

The main loop reconnects when it finds the connection in the state `Error` or `Disconnected`.
Only one of the exits of `connect` sees to that, and only for errors that count as recoverable.
-/

namespace UProtocols
namespace ErrorRecovery

/-- What the main loop does with the state that it reads. -/
inductive MainAction
  | reconnects | exchanges | sleeps
  deriving DecidableEq

def mainAction : ConnectionState → MainAction
  | .error | .disconnected => .reconnects
  | .connected => .exchanges
  | _ => .sleeps

/-- The call does not panic, and after an error the main loop reconnects. -/
def Returned.Visible {π : Type} (result : Returned π) : Prop :=
  result.outcome ≠ .panic ∧ ∀ error, result.outcome = .err error →
    (result.connection.state = .error ∨ result.connection.state = .disconnected) ∧
      mainAction result.connection.state = .reconnects

namespace WebSocketConnection

variable {π : Type} [ConnectionPolicy π] {c : WebSocketConnection π}

/-- The name is resolved. The first connection that is made gets its options and takes all
buffered messages; if none is made, the last error is a recoverable one. -/
def Recovers (c : WebSocketConnection π) : Resolution → Prop
  | .error _ => False
  | .ok addresses =>
    match firstSocket addresses with
    | some socket =>
      socket.Ready ∧ ∀ i < c.messageBuffer.buffer.length, socket.writeAll i = none
    | none => ∃ e, addresses.getLast? = some (.error e) ∧
      (WebSocketError.fromIoError e).isRecoverable = true

omit [ConnectionPolicy π] in
/-- An error is visible exactly when it leaves the state `Error` or `Disconnected`. -/
theorem visible_err {error : WebSocketError} {written : List Message} :
    Returned.Visible ⟨.err error,c,written⟩ ↔ c.state = .error ∨ c.state = .disconnected := by
  constructor
  · exact fun h => (h.2 error rfl).1
  · intro hstate
    refine ⟨nofun,fun _ _ => ⟨hstate,?_⟩⟩
    rcases hstate with hstate | hstate
    · exact congrArg mainAction hstate
    · exact congrArg mainAction hstate

omit [ConnectionPolicy π] in
theorem visible_flushMessageBuffer {writeAll : ℕ → Option IoError} (hstream : c.stream = true)
    (hstate : c.state = .connected) : (c.flushMessageBuffer writeAll).Visible ↔
      ∀ i < c.messageBuffer.buffer.length, writeAll i = none := by
  rw [← flushLoop_error,← hstream]
  unfold flushMessageBuffer
  cases herror : (flushLoop c.stream writeAll c.messageBuffer.buffer).error with
  | none =>
    simp only [herror]
    exact iff_of_true ⟨nofun,nofun⟩ trivial
  | some e =>
    simp only [herror,visible_err,hstate]
    exact iff_of_false (fun h => h.elim nofun nofun) nofun

omit [ConnectionPolicy π] in
/-- A connection that was being made shows an error only if that counts as recoverable. -/
theorem visible_handleError {error : WebSocketError} (hstate : c.state = .connecting) :
    Returned.Visible ⟨.err error,c.handleError error,[]⟩ ↔ error.isRecoverable = true := by
  rw [visible_err]
  unfold handleError
  split_ifs with hrecoverable
  · exact iff_of_true (.inl rfl) hrecoverable
  · rw [hstate]
    exact iff_of_false (fun h => h.elim nofun nofun) hrecoverable

theorem visible_tryAddresses {addresses : List (Except IoError Socket)}
    (hstate : c.state = .connecting) :
    (c.tryAddresses none addresses).Visible ↔ c.Recovers (.ok addresses) := by
  cases hfirst : firstSocket addresses with
  | some socket =>
    simp only [tryAddresses_of_socket hfirst,Recovers,hfirst]
    by_cases hready : socket.Ready
    · rw [useSocket_ready hready,visible_flushMessageBuffer rfl rfl]
      exact (and_iff_right hready).symm
    · obtain ⟨e,he⟩ := useSocket_not_ready (c := c) hready
      rw [he,visible_err,hstate]
      exact iff_of_false (fun h => h.elim nofun nofun) fun h => hready h.1
  | none =>
    simp only [tryAddresses_of_none hfirst,Recovers,hfirst]
    split
    · rename_i e hlast
      rw [visible_handleError hstate,hlast]
      constructor
      · exact fun h => ⟨e,rfl,h⟩
      · rintro ⟨e',he,h⟩
        cases he
        exact h
    · -- there is no last error to unwrap
      rename_i hnone
      refine iff_of_false (fun h => h.1 rfl) ?_
      rintro ⟨e,he,-⟩
      exact hnone e he

theorem visible_connect (c : WebSocketConnection π) (resolution : Resolution) :
    (c.connect resolution).Visible ↔ c.Recovers resolution := by
  unfold connect
  cases resolution with
  | error e =>
    rw [visible_err]
    exact iff_of_false (fun h => h.elim nofun nofun) id
  | ok addresses => exact visible_tryAddresses (c := {c with state := .connecting}) rfl

/-- A failure of `connect`, or of `reconnect` before the retry limit, is visible to the main loop
exactly when the call recovers. -/
theorem connectFailure_visible_iff (c : WebSocketConnection π) (resolution : Resolution) :
    ((c.connect resolution).Visible ↔ c.Recovers resolution) ∧
      (ConnectionPolicy.shouldRetry c.policy c.retryCount = true →
        ((c.reconnect resolution).Visible ↔ c.Recovers resolution)) := by
  refine ⟨visible_connect c resolution,fun hretry => ?_⟩
  unfold reconnect
  rw [if_pos hretry]
  exact visible_connect _ resolution

theorem connectFailure_visible_timedOut :
    ((new Log.backoff).connect (.ok [.error ⟨.timedOut,"timed out"⟩])).Visible ∧
      ((new Log.backoff).reconnect (.ok [.error ⟨.timedOut,"timed out"⟩])).Visible := by
  have hboth := connectFailure_visible_iff (new Log.backoff) (.ok [.error ⟨.timedOut,"timed out"⟩])
  have hrecovers : (new Log.backoff).Recovers (.ok [.error ⟨.timedOut,"timed out"⟩]) :=
    ⟨_,rfl,rfl⟩
  exact ⟨hboth.1.mpr hrecovers,(hboth.2 (by decide)).mpr hrecovers⟩

/-- A refused connection leaves the state `Connecting`, and without any address there is a
panic. -/
theorem connectFailure_visible_refused :
    ¬ ((new Log.backoff).connect
        (.ok [.error ⟨.connectionRefused,"connection refused"⟩])).Visible ∧
      ¬ ((new Log.backoff).connect (.ok [])).Visible := by
  constructor
  · rw [visible_connect]
    rintro ⟨e,he,hrecoverable⟩
    cases he
    cases hrecoverable
  · rw [visible_connect]
    rintro ⟨e,he,-⟩
    cases he

end WebSocketConnection

end ErrorRecovery
end UProtocols
