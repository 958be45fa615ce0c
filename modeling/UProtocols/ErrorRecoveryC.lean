import Mathlib.Data.Int.Notation
import UProtocols.Loops

/-!
# The recovery loop of the C client

`websocket_error_recovery.c`: sending, receiving, heartbeat and reconnection, and the main loop
that calls them. What the network, the clock and `malloc` answer in a round of the loop is its
input. An attempt of `ws_reconnect` that fails leaves the state at `CONN_RECONNECTING`, which no
branch of the loop handles.
-/

namespace UProtocols
namespace ErrorRecoveryC

/-- `MAX_BACKOFF`, `INITIAL_BACKOFF`, `MAX_RETRIES`, `PING_INTERVAL` and `PONG_TIMEOUT`. -/
def maxBackoff : ℤ := 32000
def initialBackoff : ℤ := 1000
def maxRetries : ℤ := 10
def pingInterval : ℤ := 30
def pongTimeout : ℤ := 10

inductive ConnectionState
  | disconnected | connecting | connected | error | reconnecting
  deriving DecidableEq

/-- `sockfd` is none for -1. -/
structure WebSocketConnection where
  sockfd : Option ℕ
  state : ConnectionState
  retryCount : ℤ
  backoffMs : ℤ
  lastPing : ℤ
  lastPong : ℤ
  shouldReconnect : Bool
  deriving DecidableEq

abbrev Message := List UInt8

/-- The error codes that the code tells apart, and the others. -/
inductive Errno
  | epipe | econnreset | etimedout | eagain | ewouldblock | other
  deriving DecidableEq

/-- What `send` or `recv` returns. -/
inductive Transfer
  | bytes (count : ℕ)
  | failed (error : Errno)
  deriving DecidableEq

/-- What becomes of one address of the host. -/
inductive AddressOutcome
  | noSocket
  | refused
  | connects (fd : ℕ)
  deriving DecidableEq

/-- The addresses of the host, where the name resolves. -/
abbrev Resolution := Option (List AddressOutcome)

/-- The message is lost when there is no memory for it. -/
def queuePush (queue : List Message) (data : Message) (allocated : Bool) : List Message :=
  if allocated then queue ++ [data] else queue

def calculateBackoff (currentBackoff : ℤ) : ℤ :=
  let next := currentBackoff * 2
  if maxBackoff < next then maxBackoff else next

def wsConnectionInit : WebSocketConnection := ⟨none,.disconnected,0,initialBackoff,0,0,true⟩

/-- The loop of `ws_connect` over the addresses. -/
def tryAddresses : List AddressOutcome → Option ℕ
  | [] => none
  | .connects fd::_ => some fd
  | .noSocket::rest | .refused::rest => tryAddresses rest

/-- The socket that `ws_connect` gets, if any. -/
def resolve (resolution : Resolution) : Option ℕ := resolution.bind tryAddresses

def wsConnect (conn : WebSocketConnection) (resolution : Resolution) :
    Bool × WebSocketConnection :=
  match resolve resolution with
  | some fd => (true,{conn with sockfd := some fd})
  | none => (false,conn)

def wsSendWithRecovery (conn : WebSocketConnection) (queue : List Message) (data : Message)
    (sent : Transfer) (allocated : Bool) : WebSocketConnection × List Message :=
  if conn.state = .connected then
    match sent with
    | .bytes _ => (conn,queue)
    | .failed .epipe | .failed .econnreset | .failed .etimedout =>
      ({conn with state := .error},queuePush queue data allocated)
    | .failed .eagain | .failed .ewouldblock => (conn,queuePush queue data allocated)
    | .failed .other => (conn,queue)
  else (conn,queuePush queue data allocated)

def wsRecvWithDetection (conn : WebSocketConnection) (received : Transfer) : WebSocketConnection :=
  match received with
  | .failed .eagain | .failed .ewouldblock => conn
  | .failed _ => {conn with state := .error}
  | .bytes 0 => {conn with state := .disconnected}
  | .bytes _ => conn

/-- A connection that is made empties the queue, whatever becomes of its messages. -/
def wsReconnect (conn : WebSocketConnection) (queue : List Message) (resolution : Resolution)
    (now : ℤ) : WebSocketConnection × List Message :=
  if maxRetries ≤ conn.retryCount then ({conn with shouldReconnect := false},queue)
  else
    match wsConnect {conn with state := .reconnecting, sockfd := none} resolution with
    | (true,conn) =>
      ({conn with state := .connected, retryCount := 0, backoffMs := initialBackoff,
                  lastPing := now, lastPong := now},[])
    | (false,conn) =>
      ({conn with retryCount := conn.retryCount + 1, backoffMs := calculateBackoff conn.backoffMs},
        queue)

def wsHeartbeatCheck (conn : WebSocketConnection) (now : ℤ) (ping : Transfer) :
    WebSocketConnection :=
  if conn.state = .connected then
    match decide (pingInterval ≤ now - conn.lastPing), ping with
    | true, .failed _ => {conn with state := .error}
    | true, .bytes _ => pongCheck {conn with lastPing := now} now
    | false, _ => pongCheck conn now
  else conn
where
  pongCheck (conn : WebSocketConnection) (now : ℤ) : WebSocketConnection :=
    if pingInterval + pongTimeout < now - conn.lastPong then {conn with state := .error} else conn

/-! ## The main loop -/

/-- What a round of the loop meets: an attempt to connect, the time, the sends of the ping and of
the message, and the memory for a queued message. -/
structure Outside where
  resolution : Resolution
  now : ℤ
  ping : Transfer
  sent : Transfer
  allocated : Bool
  deriving DecidableEq

/-- `attempts` counts the calls of `ws_connect` in `ws_reconnect`. -/
structure Client where
  conn : WebSocketConnection
  queue : List Message
  attempts : ℕ
  deriving DecidableEq

/-- `"Hello, WebSocket!"`. -/
def hello : Message := "Hello, WebSocket!".toUTF8.toList

namespace Client

def start (resolution : Resolution) : Client :=
  match wsConnect wsConnectionInit resolution with
  | (true,conn) => ⟨{conn with state := .connected},[],0⟩
  | (false,conn) => ⟨conn,[],0⟩

/-- Neither of the branches is for the states `connecting` and `reconnecting`. -/
def round (c : Client) (i : Outside) : Loops.Status Client :=
  if c.conn.shouldReconnect then
    match c.conn.state with
    | .error | .disconnected =>
      let result := wsReconnect c.conn c.queue i.resolution i.now
      .runs ⟨result.1,result.2,c.attempts + if maxRetries ≤ c.conn.retryCount then 0 else 1⟩
    | .connected =>
      let conn := wsHeartbeatCheck c.conn i.now i.ping
      let result := wsSendWithRecovery conn c.queue hello i.sent i.allocated
      .runs ⟨result.1,result.2,c.attempts⟩
    | .connecting | .reconnecting => .runs c
  else .ended c

/-- The head of the loop after `n` rounds. -/
def head (resolution : Resolution) (inputs : ℕ → Outside) (n : ℕ) : Loops.Status Client :=
  Loops.after round inputs (start resolution) n

end Client

def ConnectionState.Handled : ConnectionState → Prop
  | connected | error | disconnected => True
  | connecting | reconnecting => False

/-- At every head with `should_reconnect` the state is one that the loop handles; and when no
connection is ever made, the loop ends after `MAX_RETRIES` attempts. -/
def NeverWedges (resolution : Resolution) (inputs : ℕ → Outside) : Prop :=
  (∀ n c, Client.head resolution inputs n = .runs c → c.conn.shouldReconnect →
    c.conn.state.Handled) ∧
  (resolve resolution = none → (∀ n, resolve (inputs n).resolution = none) →
    ∃ n c, Client.head resolution inputs n = .ended c ∧ c.attempts = maxRetries)

/-- Every attempt that `ws_reconnect` makes gets a socket. -/
def EveryAttemptConnects (resolution : Resolution) (inputs : ℕ → Outside) : Prop :=
  ∀ n c, Client.head resolution inputs n = .runs c → c.conn.shouldReconnect →
    c.conn.state = .error ∨ c.conn.state = .disconnected → c.conn.retryCount < maxRetries →
    resolve (inputs n).resolution ≠ none

/-! ## What each call does to the state -/

variable {conn : WebSocketConnection} {queue : List Message} {data : Message}

/-- Sending keeps to the states that the loop handles. -/
theorem send_handled (h : conn.state.Handled) (sent : Transfer) (allocated : Bool) :
    (wsSendWithRecovery conn queue data sent allocated).1.state.Handled := by
  unfold wsSendWithRecovery
  split
  · cases sent with
    | bytes count => exact h
    | failed error => cases error <;> first | exact h | exact trivial
  · exact h

theorem pongCheck_handled (c : WebSocketConnection) (h : c.state.Handled) (now : ℤ) :
    (wsHeartbeatCheck.pongCheck c now).state.Handled := by
  unfold wsHeartbeatCheck.pongCheck
  split
  · exact trivial
  · exact h

theorem heartbeat_handled (h : conn.state.Handled) (now : ℤ) (ping : Transfer) :
    (wsHeartbeatCheck conn now ping).state.Handled := by
  unfold wsHeartbeatCheck
  split
  · split
    · exact trivial
    · exact pongCheck_handled {conn with lastPing := now} h now
    · exact pongCheck_handled conn h now
  · exact h

/-- The three ways through `ws_reconnect`. -/
theorem reconnect_exceeded (h : maxRetries ≤ conn.retryCount) (resolution : Resolution) (now : ℤ) :
    wsReconnect conn queue resolution now = ({conn with shouldReconnect := false},queue) := by
  simp [wsReconnect,h]

theorem reconnect_connects (h : ¬ maxRetries ≤ conn.retryCount) {resolution : Resolution} {fd : ℕ}
    (hresolve : resolve resolution = some fd) (now : ℤ) :
    (wsReconnect conn queue resolution now).1.state = .connected := by
  simp [wsReconnect,h,wsConnect,hresolve]

theorem reconnect_fails (h : ¬ maxRetries ≤ conn.retryCount) (queue : List Message)
    {resolution : Resolution} (hresolve : resolve resolution = none) (now : ℤ) :
    (wsReconnect conn queue resolution now).1.state = .reconnecting ∧
      (wsReconnect conn queue resolution now).1.shouldReconnect = conn.shouldReconnect := by
  simp [wsReconnect,h,wsConnect,hresolve]

namespace Client

variable {c t : Client} {i : Outside} {resolution : Resolution} {inputs : ℕ → Outside}

/-- The branch for a lost connection. -/
theorem round_reconnects (hrec : c.conn.shouldReconnect)
    (hstate : c.conn.state = .error ∨ c.conn.state = .disconnected) :
    c.round i = .runs ⟨(wsReconnect c.conn c.queue i.resolution i.now).1,
      (wsReconnect c.conn c.queue i.resolution i.now).2,
      c.attempts + if maxRetries ≤ c.conn.retryCount then 0 else 1⟩ := by
  rcases hstate with hstate | hstate
  · simp only [round,hrec,if_true,hstate]
  · simp only [round,hrec,if_true,hstate]

/-- An attempt that fails leaves a state that no branch of the loop handles. -/
theorem round_wedges (hrec : c.conn.shouldReconnect)
    (hstate : c.conn.state = .error ∨ c.conn.state = .disconnected)
    (hretry : c.conn.retryCount < maxRetries) (hfail : resolve i.resolution = none) :
    ∃ t, c.round i = .runs t ∧ t.conn.state = .reconnecting ∧ t.conn.shouldReconnect := by
  obtain ⟨hnext,hsame⟩ := reconnect_fails (Int.not_le.mpr hretry) c.queue hfail i.now
  exact ⟨_,round_reconnects hrec hstate,hnext,hsame.trans hrec⟩

/-- From then on the loop does nothing, for ever. -/
theorem head_wedged {n : ℕ} (hhead : head resolution inputs n = .runs c)
    (hstate : c.conn.state = .reconnecting) (hrec : c.conn.shouldReconnect) (m : ℕ) :
    head resolution inputs (n + m) = .runs c := by
  induction m with
  | zero => exact hhead
  | succ m ih =>
    have hround : c.round (inputs (n + m)) = .runs c := by
      simp only [round,hrec,if_true,hstate]
    exact (Loops.after_succ_of_runs ih).trans hround

/-- As long as attempts succeed, the loop stays with the states that it handles. -/
theorem round_handled (hround : c.round i = .runs t)
    (hc : c.conn.shouldReconnect → c.conn.state.Handled)
    (hconnects : c.conn.shouldReconnect → c.conn.state = .error ∨ c.conn.state = .disconnected →
      c.conn.retryCount < maxRetries → resolve i.resolution ≠ none)
    (ht : t.conn.shouldReconnect) : t.conn.state.Handled := by
  have hrec : c.conn.shouldReconnect := by
    cases hflag : c.conn.shouldReconnect with
    | true => rfl
    | false => simp [round,hflag] at hround
  by_cases hlost : c.conn.state = .error ∨ c.conn.state = .disconnected
  · rw [round_reconnects hrec hlost] at hround
    cases hround
    by_cases hretry : maxRetries ≤ c.conn.retryCount
    · simp only [reconnect_exceeded hretry] at ht
      cases ht
    · obtain ⟨fd,hfd⟩ := Option.ne_none_iff_exists'.mp
        (hconnects hrec hlost (Int.not_le.mp hretry))
      simp only [reconnect_connects hretry hfd]
      trivial
  · have hhandled := hc hrec
    have hconnected : c.conn.state = .connected := by
      cases hstate : c.conn.state <;> simp_all [ConnectionState.Handled]
    simp only [round,hrec,if_true,hconnected] at hround
    cases hround
    exact send_handled (heartbeat_handled hhandled i.now i.ping) i.sent i.allocated

theorem start_handled (resolution : Resolution) : (start resolution).conn.state.Handled := by
  cases h : resolve resolution <;> simp [start,wsConnect,h,wsConnectionInit,ConnectionState.Handled]

end Client

/-- The loop keeps to the states that it handles, and ends when it should, exactly when every
attempt that `ws_reconnect` makes gets a socket. -/
theorem neverWedges_iff (resolution : Resolution) (inputs : ℕ → Outside) :
    NeverWedges resolution inputs ↔ EveryAttemptConnects resolution inputs := by
  constructor
  · rintro ⟨hhandled,-⟩ n c hhead hrec hstate hretry hfail
    obtain ⟨t,ht,hwedged,hstill⟩ := Client.round_wedges hrec hstate hretry hfail
    have hnext : Client.head resolution inputs (n + 1) = .runs t :=
      (Loops.after_succ_of_runs hhead).trans ht
    have hbad := hhandled (n + 1) t hnext hstill
    rw [hwedged] at hbad
    exact hbad
  · intro hconnects
    refine ⟨fun n c hhead => ?_,fun hfirst hall => ?_⟩
    · exact Loops.runs_invariant (I := fun c => c.conn.shouldReconnect → c.conn.state.Handled)
        (fun _ => Client.start_handled resolution)
        (fun n c t hc hround hI => Client.round_handled hround hI (hconnects n c hc)) hhead
    · -- the first attempt of the loop would have to succeed
      have hstart : Client.start resolution = ⟨wsConnectionInit,[],0⟩ := by
        simp [Client.start,wsConnect,hfirst]
      have hhead : Client.head resolution inputs 0 = .runs ⟨wsConnectionInit,[],0⟩ :=
        congrArg Loops.Status.runs hstart
      exact absurd (hall 0) (hconnects 0 _ hhead rfl (.inr rfl) (by decide))

/-- A host whose name never resolves: the first attempt wedges the loop. -/
theorem unresolved_wedges :
    ¬ NeverWedges none fun _ => ⟨none,1000,.bytes 5,.bytes 17,true⟩ := by
  rintro ⟨hhandled,-⟩
  exact hhandled 1 _ rfl rfl

end ErrorRecoveryC
end UProtocols
