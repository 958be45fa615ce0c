import UProtocols.Backoff
import UProtocols.ErrorRecovery
import UProtocols.ErrorRecoveryC
import UProtocols.ErrorRecoveryCpp

/-!
# The delays before reconnecting in three clients

The C client keeps the next delay and doubles it after a failure; the C++ and the Rust client keep
the last one and double it before an attempt. Each call that sleeps adds to the list of delays, in
milliseconds in C and C++ and in nanoseconds in Rust. An `int` that overflows has no value: such an
attempt of the C++ client has no result here.
-/

namespace UProtocols
namespace ReconnectSchedules

open Backoff

/-! ## The C client -/

namespace C

open ErrorRecoveryC

inductive Call
  | reconnect (resolution : Resolution) (now : ℤ)
  | send (data : Message) (sent : Transfer) (allocated : Bool)
  | recv (received : Transfer)
  | heartbeat (now : ℤ) (ping : Transfer)
  deriving DecidableEq

structure Paced where
  conn : WebSocketConnection
  queue : List Message
  sleeps : List ℤ
  deriving DecidableEq

def Paced.start (first : Resolution) : Paced :=
  ⟨(Client.start first).conn,(Client.start first).queue,[]⟩

def Paced.step (s : Paced) : Call → Paced
  | .reconnect resolution now =>
    let result := wsReconnect s.conn s.queue resolution now
    ⟨result.1,result.2,
      if maxRetries ≤ s.conn.retryCount then s.sleeps else s.sleeps ++ [s.conn.backoffMs]⟩
  | .send data sent allocated =>
    let result := wsSendWithRecovery s.conn s.queue data sent allocated
    {s with conn := result.1, queue := result.2}
  | .recv received => {s with conn := wsRecvWithDetection s.conn received}
  | .heartbeat now ping => {s with conn := wsHeartbeatCheck s.conn now ping}

def sleeps (first : Resolution) (calls : List Call) : List ℤ :=
  (calls.foldl Paced.step (.start first)).sleeps

def event : Call → Event
  | .reconnect resolution _ => .attempt (resolve resolution).isSome
  | .send .. | .recv _ | .heartbeat .. => .other

/-- `INITIAL_BACKOFF`, `MAX_BACKOFF` and `MAX_RETRIES`. -/
def parameters : Parameters := ⟨1000,32000,10⟩

/-- The next delay is ready before the attempt. -/
structure Follows (a : Schedule) (s : Paced) : Prop where
  retryCount : s.conn.retryCount = a.failures
  backoffMs : s.conn.backoffMs = delay 1000 32000 a.failures
  sleeps : s.sleeps = a.sleeps.map Int.ofNat

theorem follows_start (first : Resolution) : Follows Schedule.start (.start first) := by
  unfold Paced.start Client.start wsConnect
  cases resolve first <;> exact ⟨rfl,rfl,rfl⟩

theorem calculateBackoff_delay (failures : ℕ) :
    calculateBackoff (delay 1000 32000 failures) = delay 1000 32000 (failures + 1) := by
  rw [delay_succ,calculateBackoff,maxBackoff]
  split <;> omega

theorem send_frame (conn : WebSocketConnection) (queue : List Message) (data : Message)
    (sent : Transfer) (allocated : Bool) :
    (wsSendWithRecovery conn queue data sent allocated).1.retryCount = conn.retryCount ∧
      (wsSendWithRecovery conn queue data sent allocated).1.backoffMs = conn.backoffMs := by
  unfold wsSendWithRecovery
  split
  · split <;> exact ⟨rfl,rfl⟩
  · exact ⟨rfl,rfl⟩

theorem recv_frame (conn : WebSocketConnection) (received : Transfer) :
    (wsRecvWithDetection conn received).retryCount = conn.retryCount ∧
      (wsRecvWithDetection conn received).backoffMs = conn.backoffMs := by
  unfold wsRecvWithDetection
  split <;> exact ⟨rfl,rfl⟩

theorem heartbeat_frame (conn : WebSocketConnection) (now : ℤ) (ping : Transfer) :
    (wsHeartbeatCheck conn now ping).retryCount = conn.retryCount ∧
      (wsHeartbeatCheck conn now ping).backoffMs = conn.backoffMs := by
  have hpong : ∀ c : WebSocketConnection,
      (wsHeartbeatCheck.pongCheck c now).retryCount = c.retryCount ∧
        (wsHeartbeatCheck.pongCheck c now).backoffMs = c.backoffMs := by
    intro c
    unfold wsHeartbeatCheck.pongCheck
    split <;> exact ⟨rfl,rfl⟩
  unfold wsHeartbeatCheck
  split
  · split
    · exact ⟨rfl,rfl⟩
    · exact hpong _
    · exact hpong _
  · exact ⟨rfl,rfl⟩

theorem Follows.reconnect {a : Schedule} {s : Paced} (h : Follows a s) (resolution : Resolution)
    (now : ℤ) :
    Follows (a.step parameters (.attempt (resolve resolution).isSome))
      (s.step (.reconnect resolution now)) := by
  have hlimit : maxRetries ≤ s.conn.retryCount ↔ ¬ a.failures < parameters.limit := by
    rw [h.retryCount]
    show (10 : ℤ) ≤ a.failures ↔ ¬ a.failures < 10
    omega
  by_cases hfail : a.failures < parameters.limit
  · have hretry : ¬ maxRetries ≤ s.conn.retryCount := fun hle => hlimit.mp hle hfail
    have hsleeps : s.sleeps ++ [s.conn.backoffMs] =
        (a.sleeps ++ [delay 1000 32000 a.failures]).map Int.ofNat := by
      rw [List.map_append,h.sleeps,h.backoffMs]
      rfl
    rw [Schedule.step_attempt hfail]
    simp only [Paced.step,wsReconnect,if_neg hretry,wsConnect]
    cases hresolve : resolve resolution with
    | some fd => exact ⟨rfl,rfl,hsleeps⟩
    | none =>
      refine ⟨?_,?_,hsleeps⟩
      · show s.conn.retryCount + 1 = ((a.failures + 1 : ℕ) : ℤ)
        rw [h.retryCount]
        rfl
      · show calculateBackoff s.conn.backoffMs = delay 1000 32000 (a.failures + 1)
        rw [h.backoffMs,calculateBackoff_delay]
  · have hretry : maxRetries ≤ s.conn.retryCount := hlimit.mpr hfail
    rw [Schedule.step_refused hfail]
    simp only [Paced.step,wsReconnect,if_pos hretry]
    exact ⟨h.retryCount,h.backoffMs,h.sleeps⟩

/-- A call that leaves the retries as they are. -/
theorem Follows.other {a : Schedule} {s t : Paced} (h : Follows a s)
    (hretry : t.conn.retryCount = s.conn.retryCount)
    (hbackoff : t.conn.backoffMs = s.conn.backoffMs) (hsleeps : t.sleeps = s.sleeps) :
    Follows a t where
  retryCount := hretry.trans h.retryCount
  backoffMs := hbackoff.trans h.backoffMs
  sleeps := hsleeps.trans h.sleeps

theorem Follows.step {a : Schedule} {s : Paced} (h : Follows a s) (call : Call) :
    Follows (a.step parameters (event call)) (s.step call) := by
  cases call with
  | send data sent allocated =>
    obtain ⟨hretry,hbackoff⟩ := send_frame s.conn s.queue data sent allocated
    exact h.other hretry hbackoff rfl
  | recv received =>
    obtain ⟨hretry,hbackoff⟩ := recv_frame s.conn received
    exact h.other hretry hbackoff rfl
  | heartbeat now ping =>
    obtain ⟨hretry,hbackoff⟩ := heartbeat_frame s.conn now ping
    exact h.other hretry hbackoff rfl
  | reconnect resolution now => exact h.reconnect resolution now

theorem sleeps_eq (first : Resolution) (calls : List Call) :
    sleeps first calls =
      (Schedule.run parameters (calls.map event)).sleeps.map Int.ofNat := by
  have hfollows : Follows (Schedule.run parameters (calls.map event))
      (calls.foldl Paced.step (.start first)) := by
    rw [Schedule.run,List.foldl_map]
    exact List.foldl_rel (follows_start first) fun call _ a s h => h.step call
  exact hfollows.sleeps

end C
/-! ## The Rust client -/

namespace Rust

open ErrorRecovery

/-- `Duration::from_millis`, in nanoseconds. -/
def fromMillis (n : ℕ) : ℕ := n * 1000000

def policy (p : Parameters) : ExponentialBackoff :=
  ⟨fromMillis p.initial,fromMillis p.max,p.limit,fromMillis p.initial⟩

structure Paced where
  connection : WebSocketConnection ExponentialBackoff
  sleeps : List ℕ

def Paced.start (p : Parameters) : Paced := ⟨.new (policy p),[]⟩

/-- A panic ends the program. -/
def Paced.returns (sleeps : List ℕ) (result : Returned ExponentialBackoff) : Option Paced :=
  if result.outcome = .panic then none else some ⟨result.connection,sleeps⟩

def Paced.step (s : Paced) : Call → Option Paced
  | .send data write => some {s with connection := (s.connection.send data write).2}
  | .connect resolution => Paced.returns s.sleeps (s.connection.connect resolution)
  | .reconnect resolution =>
    let c := s.connection
    let sleeps := if ConnectionPolicy.shouldRetry c.policy c.retryCount then
      s.sleeps ++ [(ConnectionPolicy.nextBackoff c.policy c.retryCount).1] else s.sleeps
    Paced.returns sleeps (c.reconnect resolution)
  | .receive read => some {s with connection := (s.connection.receive read).2}
  | .disconnect => some {s with connection := s.connection.disconnect}

def run (p : Parameters) (calls : List Call) : Option Paced :=
  Runs.exec Paced.step (.start p) calls

/-- A connection is made and its options are set; the flush that follows may still fail. -/
def connects : Resolution → Bool
  | .error _ => false
  | .ok addresses => (firstSocket addresses).any fun socket => decide socket.Ready

def event : Call → Event
  | .connect resolution => if connects resolution then .connected else .other
  | .reconnect resolution => .attempt (connects resolution)
  | .send .. | .receive _ | .disconnect => .other

/-- What the calls do to the retries: the rest of the connection plays no part. -/
structure SameRetries (c d : WebSocketConnection ExponentialBackoff) : Prop where
  retryCount : d.retryCount = c.retryCount
  policy : d.policy = c.policy

variable {c : WebSocketConnection ExponentialBackoff}

theorem sameRetries_handleError (c : WebSocketConnection ExponentialBackoff)
    (error : WebSocketError) : SameRetries c (c.handleError error) := by
  unfold WebSocketConnection.handleError
  split <;> exact ⟨rfl,rfl⟩

theorem sameRetries_send (c : WebSocketConnection ExponentialBackoff) (data : Message)
    (write : Except IoError ℕ) : SameRetries c (c.send data write).2 := by
  unfold WebSocketConnection.send
  split
  · exact ⟨rfl,rfl⟩
  · split
    · exact ⟨rfl,rfl⟩
    · split
      · exact ⟨rfl,rfl⟩
      · rename_i e
        dsimp only
        cases (WebSocketError.fromIoError e).isRecoverable with
        | true =>
          obtain ⟨hretry,hpolicy⟩ := sameRetries_handleError
            {c with messageBuffer := (c.messageBuffer.push data).2} (.fromIoError e)
          exact ⟨hretry,hpolicy⟩
        | false => exact sameRetries_handleError c _

theorem sameRetries_receive (c : WebSocketConnection ExponentialBackoff)
    (read : Except IoError ℕ) : SameRetries c (c.receive read).2 := by
  unfold WebSocketConnection.receive
  split
  · exact ⟨rfl,rfl⟩
  · split
    · exact ⟨rfl,rfl⟩
    · split
      · exact ⟨rfl,rfl⟩
      · exact ⟨rfl,rfl⟩
      · split
        · exact ⟨rfl,rfl⟩
        · exact sameRetries_handleError c _

theorem tryAddresses_fails {addresses : List (Except IoError Socket)} (lastErr : Option IoError)
    (h : firstSocket addresses = none) :
    SameRetries c (c.tryAddresses lastErr addresses).connection := by
  induction addresses generalizing lastErr with
  | nil =>
    cases lastErr with
    | none => exact ⟨rfl,rfl⟩
    | some e => exact sameRetries_handleError c _
  | cons address rest ih =>
    cases address with
    | ok socket => cases h
    | error e =>
      rw [WebSocketConnection.tryAddresses]
      exact ih (some e) h

/-- A connection resets the retries and the policy; a failure leaves them. -/
theorem connect_fails {resolution : Resolution} (h : connects resolution = false) :
    SameRetries c (c.connect resolution).connection := by
  cases resolution with
  | error e => exact ⟨rfl,rfl⟩
  | ok addresses =>
    have hstate : SameRetries c {c with state := .connecting} := ⟨rfl,rfl⟩
    rw [WebSocketConnection.connect]
    cases hfirst : firstSocket addresses with
    | none =>
      obtain ⟨hretry,hpolicy⟩ := tryAddresses_fails (c := {c with state := .connecting}) none hfirst
      exact ⟨hretry,hpolicy⟩
    | some socket =>
      have hready : ¬ socket.Ready := by
        intro hready
        rw [connects,hfirst,Option.any_some,decide_eq_true hready] at h
        cases h
      simp only [WebSocketConnection.tryAddresses_of_socket hfirst]
      obtain ⟨e,he⟩ := WebSocketConnection.useSocket_not_ready
        (c := {c with state := .connecting}) hready
      rw [he]
      exact hstate

theorem connect_succeeds {resolution : Resolution} (h : connects resolution = true) :
    (c.connect resolution).connection.retryCount = 0 ∧
      (c.connect resolution).connection.policy = {c.policy with current := c.policy.initial} := by
  cases resolution with
  | error e => cases h
  | ok addresses =>
    rw [WebSocketConnection.connect]
    cases hfirst : firstSocket addresses with
    | none =>
      rw [connects,hfirst] at h
      cases h
    | some socket =>
      have hready : socket.Ready := by
        rw [connects,hfirst,Option.any_some,decide_eq_true_iff] at h
        exact h
      simp only [WebSocketConnection.tryAddresses_of_socket hfirst,
        WebSocketConnection.useSocket_ready hready]
      exact ⟨rfl,rfl⟩

/-- The last delay is kept, and doubled before the next attempt. -/
structure Follows (p : Parameters) (a : Schedule) (s : Paced) : Prop where
  initial : s.connection.policy.initial = fromMillis p.initial
  max : s.connection.policy.max = fromMillis p.max
  maxRetries : s.connection.policy.maxRetries = p.limit
  retryCount : s.connection.retryCount = a.failures
  current : ∀ f, a.failures = f + 1 →
    s.connection.policy.current = fromMillis (delay p.initial p.max f)
  sleeps : s.sleeps = a.sleeps.map fromMillis

variable {p : Parameters} {a : Schedule} {s t : Paced}

theorem follows_start (p : Parameters) : Follows p Schedule.start (.start p) where
  initial := rfl
  max := rfl
  maxRetries := rfl
  retryCount := rfl
  current := nofun
  sleeps := rfl

theorem Follows.of_same (h : Follows p a s) {d : WebSocketConnection ExponentialBackoff}
    (hsame : SameRetries s.connection d) : Follows p a {s with connection := d} where
  initial := by rw [hsame.policy,h.initial]
  max := by rw [hsame.policy,h.max]
  maxRetries := by rw [hsame.policy,h.maxRetries]
  retryCount := by rw [hsame.retryCount,h.retryCount]
  current := by
    intro f hf
    rw [hsame.policy,h.current f hf]
  sleeps := h.sleeps

theorem Follows.nextBackoff (h : Follows p a s) (hle : p.initial ≤ p.max) :
    ConnectionPolicy.nextBackoff s.connection.policy s.connection.retryCount =
      (fromMillis (delay p.initial p.max a.failures),
        {s.connection.policy with current := fromMillis (delay p.initial p.max a.failures)}) := by
  have hcurrent : (if s.connection.retryCount = 0 then s.connection.policy.initial
      else Nat.min (s.connection.policy.current * 2) s.connection.policy.max) =
      fromMillis (delay p.initial p.max a.failures) := by
    rw [h.retryCount,h.initial,h.max]
    cases hfailures : a.failures with
    | zero => rw [if_pos rfl,delay_zero hle]
    | succ f =>
      rw [if_neg (Nat.succ_ne_zero f),h.current f hfailures,delay_succ]
      unfold fromMillis
      rw [Nat.mul_right_comm]
      exact Nat.mul_min_mul_right _ _ _
  simp only [ConnectionPolicy.nextBackoff,hcurrent]

/-- A connection that is made starts the schedule again. -/
theorem Follows.connected (h : Follows p a s) {d : WebSocketConnection ExponentialBackoff}
    (hretry : d.retryCount = 0) {policy : ExponentialBackoff}
    (hinitial : policy.initial = s.connection.policy.initial)
    (hmax : policy.max = s.connection.policy.max)
    (hlimit : policy.maxRetries = s.connection.policy.maxRetries)
    (hpolicy : d.policy = {policy with current := policy.initial}) {sleeps delays : List ℕ}
    (hsleeps : sleeps = delays.map fromMillis) : Follows p ⟨0,delays⟩ ⟨d,sleeps⟩ where
  initial := by rw [hpolicy,← h.initial,← hinitial]
  max := by rw [hpolicy,← h.max,← hmax]
  maxRetries := by rw [hpolicy,← h.maxRetries,← hlimit]
  retryCount := hretry
  current := nofun
  sleeps := hsleeps

theorem returns_eq_some {sleeps : List ℕ} {result : Returned ExponentialBackoff}
    (h : Paced.returns sleeps result = some t) : t = ⟨result.connection,sleeps⟩ := by
  unfold Paced.returns at h
  split at h
  · cases h
  · exact (Option.some.inj h).symm

theorem Follows.reconnect (h : Follows p a s) (hle : p.initial ≤ p.max) {resolution : Resolution}
    (hstep : s.step (.reconnect resolution) = some t) :
    Follows p (a.step p (.attempt (connects resolution))) t := by
  have hretries : ConnectionPolicy.shouldRetry s.connection.policy s.connection.retryCount =
      decide (a.failures < p.limit) := by
    rw [← h.retryCount,← h.maxRetries]
    rfl
  rw [Paced.step] at hstep
  have ht := returns_eq_some hstep
  by_cases hfail : a.failures < p.limit
  · have hsleeps : s.sleeps ++ [fromMillis (delay p.initial p.max a.failures)] =
        (a.sleeps ++ [delay p.initial p.max a.failures]).map fromMillis := by
      rw [List.map_append,h.sleeps]
      rfl
    rw [decide_eq_true hfail] at hretries
    simp only [hretries,if_true,WebSocketConnection.reconnect,h.nextBackoff hle] at ht
    rw [ht,Schedule.step_attempt hfail]
    cases hconnects : connects resolution with
    | true =>
      refine h.connected (connect_succeeds hconnects).1 ?_ ?_ ?_ (connect_succeeds hconnects).2
        hsleeps
      all_goals rfl
    | false =>
      obtain ⟨hretry,hpolicy⟩ := connect_fails hconnects
      refine ⟨?_,?_,?_,?_,?_,hsleeps⟩
      · exact (congrArg ExponentialBackoff.initial hpolicy).trans h.initial
      · exact (congrArg ExponentialBackoff.max hpolicy).trans h.max
      · exact (congrArg ExponentialBackoff.maxRetries hpolicy).trans h.maxRetries
      · exact hretry.trans (congrArg Nat.succ h.retryCount)
      · intro f hf
        cases hf
        exact congrArg ExponentialBackoff.current hpolicy
  · rw [decide_eq_false hfail] at hretries
    simp only [hretries,WebSocketConnection.reconnect] at ht
    rw [ht,Schedule.step_refused hfail]
    exact h

theorem Follows.step (h : Follows p a s) (hle : p.initial ≤ p.max) {call : Call}
    (hstep : s.step call = some t) : Follows p (a.step p (event call)) t := by
  cases call with
  | send data write =>
    cases hstep
    exact h.of_same (sameRetries_send s.connection data write)
  | receive read =>
    cases hstep
    exact h.of_same (sameRetries_receive s.connection read)
  | disconnect =>
    cases hstep
    exact h.of_same ⟨rfl,rfl⟩
  | connect resolution =>
    rw [Paced.step] at hstep
    rw [returns_eq_some hstep,event]
    cases hconnects : connects resolution with
    | true =>
      obtain ⟨hretry,hpolicy⟩ := connect_succeeds hconnects
      exact h.connected hretry rfl rfl rfl hpolicy h.sleeps
    | false => exact h.of_same (connect_fails hconnects)
  | reconnect resolution => exact h.reconnect hle hstep

theorem sleeps_eq (hle : p.initial ≤ p.max) {calls : List Call} (hrun : run p calls = some s) :
    s.sleeps = (Schedule.run p (calls.map event)).sleeps.map fromMillis := by
  have hfollows : Follows p (Schedule.run p (calls.map event)) s := by
    apply Runs.exec_invariant_trace
      (I := fun calls s => Follows p (Schedule.run p (calls.map event)) s) _ (follows_start p) hrun
    intro calls s call t _ h hstep
    rw [List.map_append,Schedule.run,List.foldl_append]
    exact h.step hle hstep
  exact hfollows.sleeps

end Rust

/-! ## The C++ client -/

namespace Cpp

open ErrorRecoveryCpp

def policy (p : Parameters) : ExponentialBackoffPolicy := ⟨p.initial,p.max,p.limit⟩

structure Paced where
  connection : WebSocketConnection ExponentialBackoffPolicy
  sleeps : List ℤ

/-- The first attempt to connect is not one of the policy. -/
def Paced.start (p : Parameters) (first : Resolution) : Paced :=
  ⟨((WebSocketConnection.new (policy p)).connect first).2,[]⟩

/-- `current_backoff * 2`, which is computed except on the first attempt, is beyond an `int`. -/
def Overflows (c : WebSocketConnection ExponentialBackoffPolicy) : Prop :=
  c.retryCount ≠ 0 ∧ 2147483648 ≤ c.currentBackoffMs * 2

instance (c : WebSocketConnection ExponentialBackoffPolicy) : Decidable (Overflows c) :=
  inferInstanceAs (Decidable (_ ∧ _))

def Paced.step (s : Paced) (resolution : Resolution) : Option Paced :=
  let c := s.connection
  match ConnectionPolicy.shouldRetry c.policy c.retryCount with
  | (false,_) => some ⟨(c.reconnect resolution).2,s.sleeps⟩
  | (true,policy) =>
    if Overflows c then none
    else
      let backoff := ConnectionPolicy.nextBackoffMs policy c.currentBackoffMs c.retryCount
      some ⟨(c.reconnect resolution).2,s.sleeps ++ [backoff.1]⟩

def run (p : Parameters) (first : Resolution) (calls : List Resolution) : Option Paced :=
  Runs.exec Paced.step (.start p first) calls

/-- `reconnect` closes the old socket, so an address has to give one. -/
def connects (resolution : Resolution) : Bool :=
  resolution.any fun addresses => (WebSocketConnection.tryAddresses none addresses).isSome

def event (resolution : Resolution) : Event := .attempt (connects resolution)

/-- The last delay can be doubled in an `int`. -/
def Doubles (p : Parameters) (a : Schedule) : Event → Prop
  | .attempt _ => a.failures < p.limit → ∀ f, a.failures = f + 1 →
    delay p.initial p.max f < 1073741824
  | .connected | .other => True

/-- The last delay is kept until the next attempt. -/
structure Follows (p : Parameters) (a : Schedule) (s : Paced) : Prop where
  policy_eq : s.connection.policy = policy p
  retryCount : s.connection.retryCount = a.failures
  currentBackoffMs : ∀ f, a.failures = f + 1 →
    s.connection.currentBackoffMs = delay p.initial p.max f
  sleeps : s.sleeps = a.sleeps.map Int.ofNat

variable {p : Parameters} {a : Schedule} {s : Paced} {resolution : Resolution}

theorem follows_start (p : Parameters) (first : Resolution) :
    Follows p Schedule.start (.start p first) := by
  unfold Paced.start WebSocketConnection.connect
  cases first with
  | none => exact ⟨rfl,rfl,nofun,rfl⟩
  | some addresses =>
    dsimp only
    split <;> exact ⟨rfl,rfl,nofun,rfl⟩

theorem overflows_iff (h : Follows p a s) :
    Overflows s.connection ↔ ∃ f, a.failures = f + 1 ∧ 1073741824 ≤ delay p.initial p.max f := by
  rw [Overflows,h.retryCount]
  constructor
  · rintro ⟨hne,hbig⟩
    have hpos : a.failures ≠ 0 := by omega
    obtain ⟨f,hf⟩ := Nat.exists_eq_succ_of_ne_zero hpos
    rw [h.currentBackoffMs f hf] at hbig
    exact ⟨f,hf,by omega⟩
  · rintro ⟨f,hf,hbig⟩
    rw [h.currentBackoffMs f hf]
    exact ⟨by omega,by omega⟩

theorem nextBackoff_eq (h : Follows p a s) (hle : p.initial ≤ p.max) :
    ConnectionPolicy.nextBackoffMs (policy p) s.connection.currentBackoffMs
        s.connection.retryCount =
      ((delay p.initial p.max a.failures : ℤ),policy p) := by
  rw [h.retryCount]
  cases hfailures : a.failures with
  | zero =>
    rw [delay_zero hle]
    rfl
  | succ f =>
    have hne : ((f + 1 : ℕ) : ℤ) ≠ 0 := by omega
    simp only [ConnectionPolicy.nextBackoffMs,if_neg hne,h.currentBackoffMs f hfailures,
      delay_succ,policy]
    congr 1
    split <;> omega

/-- An attempt that is made: a socket starts the schedule again, a failure counts. -/
theorem connect_eq (c : WebSocketConnection ExponentialBackoffPolicy) (hsockfd : c.sockfd = none)
    (resolution : Resolution) :
    (c.connect resolution).2.policy = c.policy ∧
      (c.connect resolution).2.retryCount = (if connects resolution then 0 else c.retryCount) ∧
      (c.connect resolution).2.currentBackoffMs =
        if connects resolution then 0 else c.currentBackoffMs := by
  unfold WebSocketConnection.connect connects
  cases resolution with
  | none => exact ⟨rfl,rfl,rfl⟩
  | some addresses =>
    obtain htry | ⟨fd,htry⟩ :=
      Option.eq_none_or_eq_some (WebSocketConnection.tryAddresses none addresses)
    · simp [WebSocketConnection.changeState,WebSocketConnection.handleError,
        ErrorType.isRecoverable,hsockfd,htry]
    · simp [WebSocketConnection.changeState,hsockfd,htry]

theorem shouldRetry_eq (h : Follows p a s) :
    ConnectionPolicy.shouldRetry s.connection.policy s.connection.retryCount =
      (decide (a.failures < p.limit),policy p) := by
  rw [h.policy_eq,h.retryCount]
  simp only [ConnectionPolicy.shouldRetry,policy,Int.ofNat_lt]

/-- An attempt with retries left, after the policy gave its delay. -/
theorem Follows.attempt (h : Follows p a s) (hle : p.initial ≤ p.max) (resolution : Resolution)
    (hfail : a.failures < p.limit) :
    Follows p (a.step p (event resolution))
      ⟨((s.connection.prepareRetry (policy p)).connect resolution).2,
        s.sleeps ++ [(delay p.initial p.max a.failures : ℤ)]⟩ := by
  have hnext := nextBackoff_eq h hle
  obtain ⟨hpolicy,hcount,hcurrent⟩ :=
    connect_eq (s.connection.prepareRetry (policy p)) rfl resolution
  rw [event,Schedule.step_attempt hfail]
  refine ⟨?_,?_,?_,?_⟩
  · rw [hpolicy]
    exact congrArg Prod.snd hnext
  · rw [hcount]
    cases connects resolution with
    | true => rfl
    | false => exact congrArg (· + 1) h.retryCount
  · intro f hf
    rw [hcurrent]
    cases hconnects : connects resolution with
    | true =>
      rw [hconnects] at hf
      cases hf
    | false =>
      rw [hconnects] at hf
      cases hf
      exact congrArg Prod.fst hnext
  · rw [List.map_append,h.sleeps]
    rfl

theorem Follows.step (h : Follows p a s) (hle : p.initial ≤ p.max) (resolution : Resolution)
    (hdoubles : Doubles p a (event resolution)) :
    ∃ t, s.step resolution = some t ∧ Follows p (a.step p (event resolution)) t := by
  have hretry := shouldRetry_eq h
  by_cases hfail : a.failures < p.limit
  · rw [decide_eq_true hfail] at hretry
    have hfits : ¬ Overflows s.connection := by
      rw [overflows_iff h]
      rintro ⟨f,hf,hbig⟩
      exact absurd (hdoubles hfail f hf) (Nat.not_lt.mpr hbig)
    have hreconnect : s.connection.reconnect resolution =
        (s.connection.prepareRetry (policy p)).connect resolution := by
      rw [WebSocketConnection.reconnect,hretry]
    refine ⟨_,?_,h.attempt hle resolution hfail⟩
    simp only [Paced.step,hretry,if_neg hfits,nextBackoff_eq h hle,hreconnect]
  · rw [decide_eq_false hfail] at hretry
    have hreconnect : (s.connection.reconnect resolution).2 =
        {s.connection with policy := policy p} := by
      rw [WebSocketConnection.reconnect,hretry]
    refine ⟨⟨(s.connection.reconnect resolution).2,s.sleeps⟩,?_,?_⟩
    · simp only [Paced.step,hretry]
    · rw [event,Schedule.step_refused hfail,hreconnect]
      exact ⟨rfl,h.retryCount,h.currentBackoffMs,h.sleeps⟩

/-- Where the last delay cannot be doubled the attempt has no result. -/
theorem step_overflows (h : Follows p a s) (resolution : Resolution)
    (hdoubles : ¬ Doubles p a (event resolution)) : s.step resolution = none := by
  have hretry := shouldRetry_eq h
  by_cases hfail : a.failures < p.limit
  · rw [decide_eq_true hfail] at hretry
    have hbig : Overflows s.connection := by
      rw [overflows_iff h]
      by_contra hsmall
      apply hdoubles
      intro _ f hf
      apply Nat.lt_of_not_le
      intro hle
      exact hsmall ⟨f,hf,hle⟩
    simp only [Paced.step,hretry,if_pos hbig]
  · exact absurd (fun hlt => absurd hlt hfail) hdoubles

theorem run_eq_iff (hle : p.initial ≤ p.max) (first : Resolution) (calls : List Resolution) :
    (run p first calls).map Paced.sleeps =
        some ((Schedule.run p (calls.map event)).sleeps.map Int.ofNat) ↔
      Runs.Along (fun a e => some (a.step p e)) (Doubles p) Schedule.start (calls.map event) := by
  obtain ⟨hruns,hstops⟩ := Runs.exec_simulates_along (R := Follows p)
    (fun _ _ resolution h hdoubles => h.step hle resolution hdoubles)
    (fun _ _ resolution h hdoubles => step_overflows h resolution hdoubles)
    (follows_start p first) calls
  constructor
  · intro hrun
    by_contra hnot
    rw [run,hstops hnot] at hrun
    cases hrun
  · intro halong
    obtain ⟨t,ht,hfollows⟩ := hruns halong
    rw [run,ht,Option.map_some,hfollows.sleeps]
    rfl

end Cpp

/-! ## The same schedule -/

/-- The three clients keep to the schedule, exactly as long as the C++ client has no delay of 2^30
milliseconds or more to double. -/
theorem backoff_schedules_iff (p : Parameters) (hle : p.initial ≤ p.max)
    (cFirst : ErrorRecoveryC.Resolution) (cCalls : List C.Call)
    (rustCalls : List ErrorRecovery.Call) (rust : Rust.Paced)
    (hrun : Rust.run p rustCalls = some rust)
    (cppFirst : ErrorRecoveryCpp.Resolution) (cppCalls : List ErrorRecoveryCpp.Resolution) :
    (C.sleeps cFirst cCalls =
          (Schedule.run C.parameters (cCalls.map C.event)).sleeps.map Int.ofNat ∧
        rust.sleeps = (Schedule.run p (rustCalls.map Rust.event)).sleeps.map Rust.fromMillis ∧
        (Cpp.run p cppFirst cppCalls).map Cpp.Paced.sleeps =
          some ((Schedule.run p (cppCalls.map Cpp.event)).sleeps.map Int.ofNat)) ↔
      Runs.Along (fun a e => some (a.step p e)) (Cpp.Doubles p) Schedule.start
        (cppCalls.map Cpp.event) := by
  rw [← Cpp.run_eq_iff hle cppFirst cppCalls]
  constructor
  · exact fun h => h.2.2
  · exact fun h => ⟨C.sleeps_eq cFirst cCalls,Rust.sleeps_eq hle hrun,h⟩

/-- Two attempts that fail, with no name to resolve. -/
theorem backoff_schedules_failures :
    (C.sleeps none [.reconnect none 0,.reconnect none 0] =
          (Schedule.run C.parameters [.attempt false,.attempt false]).sleeps.map Int.ofNat ∧
        [Rust.fromMillis 500] =
          (Schedule.run ⟨500,800,10⟩ [.attempt false]).sleeps.map Rust.fromMillis ∧
        (Cpp.run ⟨500,800,10⟩ none [none,none]).map Cpp.Paced.sleeps =
          some ((Schedule.run ⟨500,800,10⟩ [.attempt false,.attempt false]).sleeps.map
            Int.ofNat)) ↔
      Runs.Along (fun a e => some (a.step ⟨500,800,10⟩ e)) (Cpp.Doubles ⟨500,800,10⟩)
        Schedule.start [.attempt false,.attempt false] :=
  backoff_schedules_iff ⟨500,800,10⟩ (by decide) none [.reconnect none 0,.reconnect none 0]
    [.reconnect (.error ⟨.other,""⟩)] _ rfl none [none,none]

/-- After an attempt that failed and slept 2^30 milliseconds, the next doubling overflows. -/
theorem backoff_overflows :
    (Cpp.run ⟨1073741824,1073741824,10⟩ none [none,none]).map Cpp.Paced.sleeps ≠
      some ((Schedule.run ⟨1073741824,1073741824,10⟩
        ([none,none].map Cpp.event)).sleeps.map Int.ofNat) := by
  decide

end ReconnectSchedules
end UProtocols
