import UProtocols.ConnectionMigration

/-!
# The reconnect loop of the migrating client

`reconnect_loop` makes an attempt when it finds the client disconnected or reconnecting. The
early returns of `connect` leave the state as it is at that point, so after most failures the
loop sleeps for ever, or takes the client for connected.
-/

namespace UProtocols
namespace ConnectionMigration

/-- What the loop does with the state that it reads. -/
inductive Head
  | attempts | exhausted | healthy | sleeps
  deriving DecidableEq

def WebSocketMigration.head (c : WebSocketMigration) : Head :=
  match c.state with
  | .reconnecting | .disconnected =>
    if c.maxReconnectAttempts ≤ c.reconnectAttempts then .exhausted else .attempts
  | .connected => .healthy
  | .connecting => .sleeps

/-- A call of `connect`, and whether a health checker that it leaves running gives up before the
loop reads the state. -/
structure Outcome where
  attempt : Attempt
  late : Bool

/-- The health checker is started after the control message. -/
def Attempt.startsChecker : Attempt → Bool
  | handled session => session.controlOk
  | _ => false

def Attempt.established : Attempt → Bool
  | handled _ => true
  | _ => false

/-- The client, whether the last call of `connect` failed, and the number of attempts since the
last one that made a connection. -/
structure Loop where
  client : WebSocketMigration
  failed : Bool
  failures : ℕ
  deriving DecidableEq

namespace Loop

/-- The loop after a call of `connect`. The checker of a call that returns in order is aborted. -/
def after (l : Loop) (o : Outcome) (result : Result) : Loop where
  client := if result.1.isOk = false ∧ o.attempt.startsChecker = true ∧ o.late = true then
    {result.2 with state := .reconnecting} else result.2
  failed := !result.1.isOk
  failures := if o.attempt.established then 0 else l.failures + 1

/-- One pass of the loop. -/
def step (l : Loop) (o : Outcome) : Option Loop :=
  if l.client.head = .attempts then
    some (l.after o ({l.client with
      reconnectAttempts := l.client.reconnectAttempts + 1}.connect o.attempt))
  else none

def start : Loop := ⟨.new,false,0⟩

def run (outcomes : List Outcome) : Option Loop := Runs.exec step start outcomes

/-- After a failure the client is seen reconnecting or disconnected, and the loop goes on until
the limit is reached. -/
def KeepsRetrying (l : Loop) : Prop :=
  (l.failed = true → l.client.state = .reconnecting ∨ l.client.state = .disconnected) ∧
    (l.client.head = .attempts ∧ l.failures < l.client.maxReconnectAttempts ∨
      l.client.head = .exhausted ∧ l.failures = l.client.maxReconnectAttempts)

instance (l : Loop) : Decidable l.KeepsRetrying := inferInstanceAs (Decidable (_ ∧ _))

end Loop

/-- Every pong is written until the stream ends or the health checker gives up. -/
def PongsWritten : List Incoming → Prop
  | [] => True
  | .text control pongOk::rest => (control = some .ping → pongOk = true) ∧ PongsWritten rest
  | .close::_ => True
  | .ping pongOk::rest => pongOk = true ∧ PongsWritten rest
  | .error::_ => True
  | .other::rest => PongsWritten rest
  | .dead::_ => True

/-- The connection is made, the control message is written, and no pong fails unless the health
checker gives up. -/
def Outcome.Recovers (o : Outcome) : Prop :=
  match o.attempt with
  | .handled session =>
    session.controlOk = true ∧ (PongsWritten session.incoming ∨ o.late = true)
  | _ => False

/-! ## The calls of an attempt -/

namespace Result

variable {r : Result} {f : WebSocketMigration → Result}

theorem andThen_of_isOk (h : r.1.isOk = true) : r.andThen f = f r.2 := by
  obtain ⟨value,c⟩ := r
  cases value with
  | ok _ => rfl
  | error e => cases h

theorem andThen_of_not_isOk (h : ¬ r.1.isOk = true) : r.andThen f = r := by
  obtain ⟨value,c⟩ := r
  cases value with
  | ok _ => exact absurd rfl h
  | error e => rfl

end Result

namespace WebSocketMigration

variable {c : WebSocketMigration}

/-- The number of attempts and its limit are the same. -/
def SameCount (c c' : WebSocketMigration) : Prop :=
  c'.reconnectAttempts = c.reconnectAttempts ∧ c'.maxReconnectAttempts = c.maxReconnectAttempts

theorem handleMessage_frame (c : WebSocketMigration) (control : Option ControlMessage)
    (pongOk : Bool) : (c.handleMessage control pongOk).2.state = c.state ∧
      c.SameCount (c.handleMessage control pongOk).2 := by
  cases control with
  | none => exact ⟨rfl,rfl,rfl⟩
  | some control => cases control <;> exact ⟨rfl,rfl,rfl⟩

/-- Only the answer to a `Ping` can fail. -/
theorem handleMessage_isOk (c : WebSocketMigration) (control : Option ControlMessage)
    (pongOk : Bool) :
    (c.handleMessage control pongOk).1.isOk = true ↔ (control = some .ping → pongOk = true) := by
  by_cases hping : control = some .ping
  · subst hping
    cases pongOk <;> simp [handleMessage,Except.isOk,Except.toBool]
  · refine iff_of_true ?_ fun h => absurd h hping
    cases control with
    | none => rfl
    | some control =>
      cases control with
      | ping => exact absurd rfl hping
      | requestSession => rfl
      | resumeSession token lastSeq => rfl
      | sessionToken token => rfl
      | ack sequence => rfl
      | pong => rfl

theorem receive_sameCount (c : WebSocketMigration) (incoming : List Incoming) :
    c.SameCount (c.receive incoming).2 := by
  induction incoming generalizing c with
  | nil => exact ⟨rfl,rfl⟩
  | cons item rest ih =>
    cases item with
    | text control pongOk =>
      have hframe := (c.handleMessage_frame control pongOk).2
      by_cases hok : (c.handleMessage control pongOk).1.isOk = true
      · rw [receive,Result.andThen_of_isOk hok]
        have hrest := ih (c.handleMessage control pongOk).2
        exact ⟨hrest.1.trans hframe.1,hrest.2.trans hframe.2⟩
      · rw [receive,Result.andThen_of_not_isOk hok]
        exact hframe
    | close => exact ⟨rfl,rfl⟩
    | ping pongOk =>
      rw [receive]
      split_ifs
      · exact ih c
      · exact ⟨rfl,rfl⟩
    | error => exact ⟨rfl,rfl⟩
    | other => exact ih c
    | dead => exact ih {c with state := .reconnecting}

/-- Only the health checker changes the state, and it gives up the connection. -/
theorem receive_state (c : WebSocketMigration) (incoming : List Incoming) :
    (c.receive incoming).2.state = c.state ∨ (c.receive incoming).2.state = .reconnecting := by
  induction incoming generalizing c with
  | nil => exact .inl rfl
  | cons item rest ih =>
    cases item with
    | text control pongOk =>
      have hstate := (c.handleMessage_frame control pongOk).1
      by_cases hok : (c.handleMessage control pongOk).1.isOk = true
      · rw [receive,Result.andThen_of_isOk hok,← hstate]
        exact ih _
      · rw [receive,Result.andThen_of_not_isOk hok]
        exact .inl hstate
    | close => exact .inl rfl
    | ping pongOk =>
      rw [receive]
      split_ifs
      · exact ih c
      · exact .inl rfl
    | error => exact .inl rfl
    | other => exact ih c
    | dead => exact .inr ((ih {c with state := .reconnecting}).elim id id)

/-- The loop of a live connection ends in order, or given up, exactly when its pongs are written
until then. -/
theorem receive_connected (h : c.state = .connected) (incoming : List Incoming) :
    ((c.receive incoming).1.isOk = true ∨ (c.receive incoming).2.state = .reconnecting) ↔
      PongsWritten incoming := by
  induction incoming generalizing c with
  | nil => exact iff_of_true (.inl rfl) trivial
  | cons item rest ih =>
    cases item with
    | text control pongOk =>
      have hstate := ((c.handleMessage_frame control pongOk).1).trans h
      by_cases hok : (c.handleMessage control pongOk).1.isOk = true
      · rw [receive,Result.andThen_of_isOk hok,ih hstate]
        exact (and_iff_right ((handleMessage_isOk c control pongOk).mp hok)).symm
      · -- the failed pong leaves the client connected
        rw [receive,Result.andThen_of_not_isOk hok]
        refine iff_of_false ?_ fun hall => hok ((handleMessage_isOk c control pongOk).mpr hall.1)
        rw [hstate]
        exact fun hor => hor.elim hok nofun
    | close => exact iff_of_true (.inl rfl) trivial
    | ping pongOk =>
      rw [receive]
      split_ifs with hpong
      · rw [ih h]
        exact (and_iff_right hpong).symm
      · refine iff_of_false ?_ fun hall => hpong hall.1
        rw [h]
        exact fun hor => hor.elim nofun nofun
    | error => exact iff_of_true (.inl rfl) trivial
    | other => exact ih h
    | dead => exact iff_of_true (.inr ((receive_state _ rest).elim id id)) trivial

theorem openSession_frame (c : WebSocketMigration) (controlOk : Bool) (flushOk : ℕ → Bool) :
    (c.openSession controlOk flushOk).1.isOk = controlOk ∧
      (c.openSession controlOk flushOk).2.state = c.state ∧
      c.SameCount (c.openSession controlOk flushOk).2 := by
  cases controlOk with
  | false => exact ⟨rfl,rfl,rfl,rfl⟩
  | true =>
    simp only [openSession,if_true]
    split_ifs <;> exact ⟨rfl,rfl,rfl,rfl⟩

/-- A call that makes a connection resets the count. Its early returns leave the client
connected, unless the health checker has given up. -/
theorem connect_handled (c : WebSocketMigration) (session : Session) :
    (c.connect (.handled session)).2.reconnectAttempts = 0 ∧
      (c.connect (.handled session)).2.maxReconnectAttempts = c.maxReconnectAttempts ∧
      (session.controlOk = true ∧ PongsWritten session.incoming ∧
          (c.connect (.handled session)).2.state = .reconnecting ∨
        ¬ (session.controlOk = true ∧ PongsWritten session.incoming) ∧
          (c.connect (.handled session)).1.isOk = false ∧
          (c.connect (.handled session)).2.state = .connected) := by
  set connected : WebSocketMigration := {c with state := .connected,reconnectAttempts := 0}
  obtain ⟨hok,hstate,hcount⟩ :=
    connected.openSession_frame session.controlOk session.flushOk
  set opened := connected.openSession session.controlOk session.flushOk
  have hcall : c.connect (.handled session) = opened.andThen fun c =>
      (c.receive session.incoming).andThen fun c => (.ok (),{c with state := .reconnecting}) := rfl
  rw [hcall]
  by_cases hcontrol : session.controlOk = true
  · rw [Result.andThen_of_isOk (hok.trans hcontrol)]
    have hreceive := opened.2.receive_sameCount session.incoming
    have hpongs := receive_connected (c := opened.2) hstate session.incoming
    by_cases hreceived : (opened.2.receive session.incoming).1.isOk = true
    · rw [Result.andThen_of_isOk hreceived]
      refine ⟨hreceive.1.trans hcount.1,hreceive.2.trans hcount.2,.inl ⟨hcontrol,?_,rfl⟩⟩
      exact hpongs.mp (.inl hreceived)
    · rw [Result.andThen_of_not_isOk hreceived]
      refine ⟨hreceive.1.trans hcount.1,hreceive.2.trans hcount.2,?_⟩
      by_cases hdead : (opened.2.receive session.incoming).2.state = .reconnecting
      · exact .inl ⟨hcontrol,hpongs.mp (.inr hdead),hdead⟩
      · refine .inr ⟨fun hall => (hpongs.mpr hall.2).elim hreceived hdead,?_,?_⟩
        · exact Bool.eq_false_iff.mpr hreceived
        · exact ((opened.2.receive_state session.incoming).resolve_right hdead).trans hstate
  · have hfailed : ¬ opened.1.isOk = true := by
      rw [hok]
      exact hcontrol
    rw [Result.andThen_of_not_isOk hfailed]
    refine ⟨hcount.1,hcount.2,.inr ⟨fun hall => hcontrol hall.1,?_,hstate⟩⟩
    exact Bool.eq_false_iff.mpr hfailed

end WebSocketMigration

/-! ## The loop -/

namespace Loop

variable {l : Loop} {o : Outcome}

/-- The loop is about to make an attempt, and the last one made a connection. -/
structure Ready (l : Loop) : Prop where
  state : l.client.state = .reconnecting ∨ l.client.state = .disconnected
  attempts : l.client.reconnectAttempts = 0
  limit : 0 < l.client.maxReconnectAttempts
  failures : l.failures = 0

theorem Ready.head (hl : l.Ready) : l.client.head = .attempts := by
  have hlimit : ¬ l.client.maxReconnectAttempts ≤ l.client.reconnectAttempts := by
    rw [hl.attempts]
    exact Nat.not_le_of_lt hl.limit
  unfold WebSocketMigration.head
  rcases hl.state with hstate | hstate
  · rw [hstate]
    exact if_neg hlimit
  · rw [hstate]
    exact if_neg hlimit

theorem Ready.keepsRetrying (hl : l.Ready) : l.KeepsRetrying := by
  refine ⟨fun _ => hl.state,.inl ⟨hl.head,?_⟩⟩
  rw [hl.failures]
  exact hl.limit

theorem start_ready : start.Ready := ⟨.inr rfl,rfl,by decide,rfl⟩

theorem ready_after {result : Result} (hcount : result.2.reconnectAttempts = 0)
    (hlimit : 0 < result.2.maxReconnectAttempts) (hestablished : o.attempt.established = true)
    (hstate : result.2.state = .reconnecting ∨
      result.1.isOk = false ∧ o.attempt.startsChecker = true ∧ o.late = true) :
    (l.after o result).Ready := by
  by_cases hlate : result.1.isOk = false ∧ o.attempt.startsChecker = true ∧ o.late = true
  · have hclient : (l.after o result).client = {result.2 with state := .reconnecting} :=
      if_pos hlate
    refine ⟨.inl ?_,?_,?_,if_pos hestablished⟩
    · rw [hclient]
    · rw [hclient]
      exact hcount
    · rw [hclient]
      exact hlimit
  · have hclient : (l.after o result).client = result.2 := if_neg hlate
    refine ⟨.inl ?_,?_,?_,if_pos hestablished⟩
    · rw [hclient]
      exact hstate.resolve_right hlate
    · rw [hclient]
      exact hcount
    · rw [hclient]
      exact hlimit

/-- A failure that leaves the client connecting or connected stops the retries. -/
theorem not_keepsRetrying_after {result : Result} (hfailed : result.1.isOk = false)
    (hlate : ¬ (o.attempt.startsChecker = true ∧ o.late = true))
    (hstate : result.2.state = .connecting ∨ result.2.state = .connected) :
    ¬ (l.after o result).KeepsRetrying := by
  intro hkeeps
  have hclient : (l.after o result).client = result.2 := if_neg fun h => hlate h.2
  have hseen := hkeeps.1 (by simp [after,hfailed])
  rw [hclient] at hseen
  rcases hstate with hstate | hstate
  · simp [hstate] at hseen
  · simp [hstate] at hseen

/-- A loop that is ready makes an attempt. If this recovers the loop is ready again, and else it
stops retrying. -/
theorem Ready.step (hl : l.Ready) (o : Outcome) : ∃ l', l.step o = some l' ∧
    (o.Recovers ∧ l'.Ready ∨ ¬ o.Recovers ∧ ¬ l'.KeepsRetrying) := by
  refine ⟨_,if_pos hl.head,?_⟩
  obtain ⟨attempt,late⟩ := o
  cases attempt with
  | badUrl => exact .inr ⟨id,not_keepsRetrying_after rfl (fun h => nomatch h.1) (.inl rfl)⟩
  | refused => exact .inr ⟨id,not_keepsRetrying_after rfl (fun h => nomatch h.1) (.inl rfl)⟩
  | handled session =>
    obtain ⟨hcount,hlimit,hcases⟩ := WebSocketMigration.connect_handled
      {l.client with reconnectAttempts := l.client.reconnectAttempts + 1} session
    have hlimit' := Nat.lt_of_lt_of_eq hl.limit hlimit.symm
    rcases hcases with ⟨hcontrol,hpongs,hstate⟩ | ⟨hnot,hfailed,hstate⟩
    · exact .inl ⟨⟨hcontrol,.inl hpongs⟩,ready_after hcount hlimit' rfl (.inl hstate)⟩
    · -- the call failed, so all depends on the checker that it left running
      by_cases hlate : session.controlOk = true ∧ late = true
      · refine .inl ⟨⟨hlate.1,.inr hlate.2⟩,?_⟩
        exact ready_after hcount hlimit' rfl (.inr ⟨hfailed,hlate⟩)
      · refine .inr ⟨?_,not_keepsRetrying_after hfailed hlate (.inr hstate)⟩
        rintro ⟨hcontrol,hpongs | hchecker⟩
        · exact hnot ⟨hcontrol,hpongs⟩
        · exact hlate ⟨hcontrol,hchecker⟩

/-- The loop of a new client keeps retrying exactly when every attempt makes a connection whose
failures, if any, are covered by the health checker. -/
theorem keepsRetrying_run (outcomes : List Outcome) :
    (∀ os l, os <+: outcomes → run os = some l → l.KeepsRetrying) ↔
      ∀ o ∈ outcomes, o.Recovers :=
  Runs.forall_reached_iff_events (fun _ hl => hl.keepsRetrying) (fun _ o hl => hl.step o)
    start_ready outcomes

/-- After a connection that is refused the loop only sleeps. -/
theorem keepsRetrying_run_refused :
    ¬ ∀ (outcomes : List Outcome) (l : Loop), run outcomes = some l → l.KeepsRetrying := by
  intro h
  have hkeeps := h [⟨.refused,false⟩] _ rfl
  revert hkeeps
  decide +kernel

end Loop

end ConnectionMigration
end UProtocols
