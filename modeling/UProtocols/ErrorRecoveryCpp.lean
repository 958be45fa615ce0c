import Mathlib.Data.Int.Notation
import UProtocols.Loops

/-!
# The first connection of the C++ client

`connect`, `reconnect` and the first loop of `run_with_recovery` of
`websocket_error_recovery.cpp`, where no other thread calls `disconnect` and the callbacks only
look on. What name resolution and the sockets answer is the input of an attempt. Once the policy
refuses a retry, `reconnect` returns false without an attempt and the loop calls it again.
-/

namespace UProtocols
namespace ErrorRecoveryCpp

inductive ErrorType
  | brokenPipe | connectionReset | timeout | networkUnreachable | dnsFailure | protocolError
  | unknown
  deriving DecidableEq

def ErrorType.isRecoverable : ErrorType → Bool
  | brokenPipe | connectionReset | timeout | networkUnreachable => true
  | dnsFailure | protocolError | unknown => false

/-- The methods are virtual and may change the policy. -/
class ConnectionPolicy (π : Type) where
  nextBackoffMs : π → ℤ → ℤ → ℤ × π
  shouldRetry : π → ℤ → Bool × π

/-- From `limit` retries on the policy refuses, in whatever state its calls leave it. -/
def RefusesFrom {π : Type} [ConnectionPolicy π] (limit : ℤ) (policy : π) : Prop :=
  ∃ K : π → Prop, K policy ∧
    (∀ p, K p → ∀ backoff count, K (ConnectionPolicy.nextBackoffMs p backoff count).2) ∧
    (∀ p, K p → ∀ count, K (ConnectionPolicy.shouldRetry p count).2) ∧
    ∀ p, K p → ∀ count, limit ≤ count → (ConnectionPolicy.shouldRetry p count).1 = false

structure ExponentialBackoffPolicy where
  initialBackoffMs : ℤ
  maxBackoffMs : ℤ
  maxRetries : ℤ
  deriving DecidableEq

instance : ConnectionPolicy ExponentialBackoffPolicy where
  nextBackoffMs p currentBackoff retryCount :=
    if retryCount = 0 then (p.initialBackoffMs,p)
    else
      let next := currentBackoff * 2
      (if p.maxBackoffMs < next then p.maxBackoffMs else next,p)
  shouldRetry p retryCount := (decide (retryCount < p.maxRetries),p)

theorem ExponentialBackoffPolicy.refusesFrom (p : ExponentialBackoffPolicy) :
    RefusesFrom p.maxRetries p := by
  refine ⟨(· = p),rfl,?_,?_,?_⟩
  · rintro q rfl backoff count
    simp only [ConnectionPolicy.nextBackoffMs]
    split <;> rfl
  · rintro q rfl count
    rfl
  · rintro q rfl count hcount
    simpa [ConnectionPolicy.shouldRetry] using hcount

inductive ConnectionState
  | disconnected | connecting | connected | error | reconnecting
  deriving DecidableEq

/-- What becomes of one address: no socket, a socket that does not connect, or one that does. -/
inductive AddressOutcome
  | noSocket
  | refused
  | connects (fd : ℕ)
  deriving DecidableEq

/-- The addresses of the host, where the name resolves. -/
abbrev Resolution := Option (List AddressOutcome)

/-- No connection comes of it; a name that resolves has an address. -/
def Resolution.Fails : Resolution → Prop
  | none => True
  | some addresses => addresses ≠ [] ∧ ∀ a ∈ addresses, ∀ fd, a ≠ .connects fd

/-- `sockfd` is none for -1. -/
structure WebSocketConnection (π : Type) where
  sockfd : Option ℕ
  state : ConnectionState
  retryCount : ℤ
  currentBackoffMs : ℤ
  policy : π
  messageBuffer : List String
  shouldRun : Bool

namespace WebSocketConnection

variable {π : Type}

def new (policy : π) : WebSocketConnection π := ⟨none,.disconnected,0,0,policy,[],false⟩

def changeState (c : WebSocketConnection π) (state : ConnectionState) : WebSocketConnection π :=
  {c with state}

def handleError (c : WebSocketConnection π) (type : ErrorType) : WebSocketConnection π :=
  if type.isRecoverable then c.changeState .error else c

/-- The loop over the addresses; each one that fails leaves -1. -/
def tryAddresses (sockfd : Option ℕ) : List AddressOutcome → Option ℕ
  | [] => sockfd
  | .connects fd::_ => some fd
  | .noSocket::rest | .refused::rest => tryAddresses none rest

/-- The messages of the buffer are sent whether or not that succeeds. -/
def connect (c : WebSocketConnection π) (resolution : Resolution) :
    Bool × WebSocketConnection π :=
  let c := c.changeState .connecting
  match resolution with
  | none => (false,c.handleError .dnsFailure)
  | some addresses =>
    let c := {c with sockfd := tryAddresses c.sockfd addresses}
    match c.sockfd with
    | none => (false,c.handleError .connectionReset)
    | some _ => (true,{c.changeState .connected with
        retryCount := 0, currentBackoffMs := 0, messageBuffer := []})

variable [ConnectionPolicy π]

/-- From the policy's word to the attempt: back off, close the old socket and count. -/
def prepareRetry (c : WebSocketConnection π) (policy : π) : WebSocketConnection π :=
  let backoff := ConnectionPolicy.nextBackoffMs policy c.currentBackoffMs c.retryCount
  {c.changeState .reconnecting with
    sockfd := none
    retryCount := c.retryCount + 1
    currentBackoffMs := backoff.1
    policy := backoff.2}

def reconnect (c : WebSocketConnection π) (resolution : Resolution) :
    Bool × WebSocketConnection π :=
  match ConnectionPolicy.shouldRetry c.policy c.retryCount with
  | (true,policy) => connect (c.prepareRetry policy) resolution
  | (false,policy) => (false,{c with policy})

/-- `while (should_run_ && !reconnect())`. -/
def round (c : WebSocketConnection π) (resolution : Resolution) :
    Loops.Status (WebSocketConnection π) :=
  if c.shouldRun then
    let result := c.reconnect resolution
    if result.1 then .ended result.2 else .runs result.2
  else .ended c

/-- The start of `run_with_recovery`: an attempt, and the loop unless it succeeds. -/
def initialLoop (c : WebSocketConnection π) (attempts : ℕ → Resolution) (n : ℕ) :
    Loops.Status (WebSocketConnection π) :=
  let first := connect {c with shouldRun := true} (attempts 0)
  if first.1 then .ended first.2
  else Loops.after round (fun k => attempts (k + 1)) first.2 n

def InitialLoopEnds (c : WebSocketConnection π) (attempts : ℕ → Resolution) : Prop :=
  ∃ n t, c.initialLoop attempts n = .ended t

/-! ## Attempts that fail -/

omit [ConnectionPolicy π] in
theorem tryAddresses_fails {addresses : List AddressOutcome} (sockfd : Option ℕ)
    (hne : addresses ≠ [] ∨ sockfd = none) (h : ∀ a ∈ addresses, ∀ fd, a ≠ .connects fd) :
    tryAddresses sockfd addresses = none := by
  induction addresses generalizing sockfd with
  | nil => exact hne.resolve_left (absurd rfl)
  | cons a rest ih =>
    obtain ⟨ha,hrest⟩ := List.forall_mem_cons.mp h
    cases a with
    | noSocket => exact ih none (.inr rfl) hrest
    | refused => exact ih none (.inr rfl) hrest
    | connects fd => exact absurd rfl (ha fd)

omit [ConnectionPolicy π] in
/-- Errors and attempts leave the flag, the count and the policy as they are. -/
theorem handleError_frame (c : WebSocketConnection π) (type : ErrorType) :
    (c.handleError type).shouldRun = c.shouldRun ∧
      (c.handleError type).retryCount = c.retryCount ∧
      (c.handleError type).policy = c.policy := by
  unfold handleError
  split
  · exact ⟨rfl,rfl,rfl⟩
  · exact ⟨rfl,rfl,rfl⟩

omit [ConnectionPolicy π] in
theorem connect_fails {resolution : Resolution} (h : resolution.Fails)
    (c : WebSocketConnection π) :
    (c.connect resolution).1 = false ∧ (c.connect resolution).2.shouldRun = c.shouldRun ∧
      (c.connect resolution).2.retryCount = c.retryCount ∧
      (c.connect resolution).2.policy = c.policy := by
  cases resolution with
  | none => exact ⟨rfl,handleError_frame (c.changeState .connecting) .dnsFailure⟩
  | some addresses =>
    have hnone := tryAddresses_fails c.sockfd (.inl h.1) h.2
    have hconnect : c.connect (some addresses) = (false,
        WebSocketConnection.handleError
          {c.changeState .connecting with sockfd := none} .connectionReset) := by
      simp only [connect,changeState,hnone]
    rw [hconnect]
    exact ⟨rfl,handleError_frame _ .connectionReset⟩

/-- The loop's invariant: the flag is set, the count is the first one or within the limit, and
the policy is in one of its states `K`. -/
def Retrying (K : π → Prop) (start limit : ℤ) (c : WebSocketConnection π) : Prop :=
  c.shouldRun ∧ (c.retryCount ≤ start ∨ c.retryCount ≤ limit) ∧ K c.policy

/-- With or without an attempt, `reconnect` fails and the loop goes on. -/
theorem round_fails {K : π → Prop} {start limit : ℤ}
    (hnext : ∀ p, K p → ∀ backoff count, K (ConnectionPolicy.nextBackoffMs p backoff count).2)
    (hretry : ∀ p, K p → ∀ count, K (ConnectionPolicy.shouldRetry p count).2)
    (hlimit : ∀ p, K p → ∀ count, limit ≤ count → (ConnectionPolicy.shouldRetry p count).1 = false)
    {resolution : Resolution} (hfail : resolution.Fails) {c : WebSocketConnection π}
    (h : c.Retrying K start limit) :
    ∃ t, c.round resolution = .runs t ∧ t.Retrying K start limit := by
  obtain ⟨hrun,hcount,hK⟩ := h
  have hpolicy := hretry c.policy hK c.retryCount
  have hrefused := hlimit c.policy hK c.retryCount
  cases hanswer : ConnectionPolicy.shouldRetry c.policy c.retryCount with
  | mk retry policy =>
    rw [hanswer] at hpolicy hrefused
    cases retry with
    | true =>
      have hless : c.retryCount < limit := Int.not_le.mp fun hle => nomatch hrefused hle
      obtain ⟨hfalse,hrun',hcount',hpolicy'⟩ := connect_fails hfail (c.prepareRetry policy)
      refine ⟨(connect (c.prepareRetry policy) resolution).2,?_,hrun'.trans hrun,.inr ?_,?_⟩
      · simp [round,hrun,reconnect,hanswer,hfalse]
      · rw [hcount']
        exact hless
      · rw [hpolicy']
        exact hnext policy hpolicy _ _
    | false =>
      refine ⟨{c with policy},?_,hrun,hcount,hpolicy⟩
      simp [round,hrun,reconnect,hanswer]

/-- The loop goes on, and makes no more attempts than the policy allows. -/
theorem initialLoop_runs {limit : ℤ} {c : WebSocketConnection π}
    (hrefuses : RefusesFrom limit c.policy) {attempts : ℕ → Resolution}
    (hfail : ∀ k, (attempts k).Fails) (n : ℕ) :
    ∃ t, c.initialLoop attempts n = .runs t ∧ t.shouldRun ∧
      (t.retryCount ≤ c.retryCount ∨ t.retryCount ≤ limit) := by
  obtain ⟨K,hK,hnext,hretry,hlimit⟩ := hrefuses
  obtain ⟨hfalse,hrun,hcount,hpolicy⟩ := connect_fails (hfail 0) {c with shouldRun := true}
  have hloop : c.initialLoop attempts n = Loops.after round (fun k => attempts (k + 1))
      (connect {c with shouldRun := true} (attempts 0)).2 n := by
    simp only [initialLoop,hfalse,Bool.false_eq_true,if_false]
  have hinit : Retrying K c.retryCount limit
      (connect {c with shouldRun := true} (attempts 0)).2 :=
    ⟨hrun,.inl (Int.le_of_eq hcount),hpolicy.symm ▸ hK⟩
  rw [hloop]
  obtain ⟨t,ht,hshould,hbound,-⟩ := Loops.runs_forever hinit
    (fun k t h => round_fails hnext hretry hlimit (hfail (k + 1)) h) n
  exact ⟨t,ht,hshould,hbound⟩

theorem not_initialLoopEnds {limit : ℤ} {c : WebSocketConnection π}
    (hrefuses : RefusesFrom limit c.policy) {attempts : ℕ → Resolution}
    (hfail : ∀ k, (attempts k).Fails) : ¬ c.InitialLoopEnds attempts := by
  rintro ⟨n,t,ht⟩
  obtain ⟨u,hu,-⟩ := initialLoop_runs hrefuses hfail n
  rw [hu] at ht
  cases ht

end WebSocketConnection

open WebSocketConnection

/-- Whatever the policy's limit, as long as no attempt succeeds the first loop of
`run_with_recovery` does not end: past the limit it goes round without an attempt. -/
theorem initialLoop_never_ends {π : Type} [ConnectionPolicy π] {limit : ℤ}
    {c : WebSocketConnection π} (hrefuses : RefusesFrom limit c.policy)
    {attempts : ℕ → Resolution} (hfail : ∀ k, (attempts k).Fails) :
    ¬ c.InitialLoopEnds attempts ∧
      ∀ n, ∃ t, c.initialLoop attempts n = .runs t ∧ t.shouldRun ∧
        (t.retryCount ≤ c.retryCount ∨ t.retryCount ≤ limit) :=
  ⟨not_initialLoopEnds hrefuses hfail,initialLoop_runs hrefuses hfail⟩

theorem unresolved_fails (k : ℕ) : Resolution.Fails ((fun _ => none : ℕ → Resolution) k) := trivial

/-- The policy of the example, which allows ten retries, and a name that does not resolve: the
loop does not end and still runs after a hundred rounds. -/
theorem initialLoop_never_ends_unresolved :
    (¬ (new (⟨1000,32000,10⟩ : ExponentialBackoffPolicy)).InitialLoopEnds fun _ => none) ∧
      ∃ t, (new (⟨1000,32000,10⟩ : ExponentialBackoffPolicy)).initialLoop (fun _ => none) 100 =
        .runs t ∧ t.shouldRun ∧ (t.retryCount ≤ 0 ∨ t.retryCount ≤ 10) := by
  have hloop := initialLoop_never_ends (c := new (⟨1000,32000,10⟩ : ExponentialBackoffPolicy))
    (ExponentialBackoffPolicy.refusesFrom ⟨1000,32000,10⟩) unresolved_fails
  exact ⟨hloop.1,hloop.2 100⟩

/-- The first loop outlives the ten retries of that policy. -/
theorem initialLoop_outlives_policy :
    RefusesFrom 10 (⟨1000,32000,10⟩ : ExponentialBackoffPolicy) ∧
      (∀ k, Resolution.Fails ((fun _ => none : ℕ → Resolution) k)) ∧
      ¬ (new (⟨1000,32000,10⟩ : ExponentialBackoffPolicy)).InitialLoopEnds fun _ => none := by
  have hrefuses := ExponentialBackoffPolicy.refusesFrom ⟨1000,32000,10⟩
  exact ⟨hrefuses,unresolved_fails,
    not_initialLoopEnds (c := new (⟨1000,32000,10⟩ : ExponentialBackoffPolicy)) hrefuses
      unresolved_fails⟩

end ErrorRecoveryCpp
end UProtocols
