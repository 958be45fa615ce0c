import UProtocols.Runs

/-!
# WebSocket connections with error recovery

`WebSocketConnection` of `websocket_error_recovery.rs`. What name resolution, the socket options
and the reads and writes return are inputs of the calls. Messages that cannot be sent are
buffered and written by the next connection; one whose write fails is in the buffer no more.
-/

namespace UProtocols
namespace ErrorRecovery

abbrev Message := List UInt8

/-- The kinds that the code tells apart, and some of the others. -/
inductive ErrorKind
  | brokenPipe | connectionReset | timedOut | networkUnreachable | wouldBlock
  | connectionRefused | other
  deriving DecidableEq

structure IoError where
  kind : ErrorKind
  message : String
  deriving DecidableEq

inductive WebSocketError
  | brokenPipe
  | connectionReset
  | timeout
  | networkUnreachable
  | dnsFailure (msg : String)
  | protocolError (msg : String)
  | ioError (msg : String)
  deriving DecidableEq

namespace WebSocketError

def isRecoverable : WebSocketError → Bool
  | brokenPipe | connectionReset | timeout | networkUnreachable => true
  | _ => false

def fromIoError (e : IoError) : WebSocketError :=
  match e.kind with
  | .brokenPipe => brokenPipe
  | .connectionReset => connectionReset
  | .timedOut => timeout
  | .networkUnreachable => networkUnreachable
  | _ => ioError e.message

end WebSocketError

/-- Durations are in nanoseconds. -/
class ConnectionPolicy (π : Type) where
  nextBackoff : π → ℕ → ℕ × π
  shouldRetry : π → ℕ → Bool
  reset : π → π

structure ExponentialBackoff where
  initial : ℕ
  max : ℕ
  maxRetries : ℕ
  current : ℕ
  deriving DecidableEq

instance : ConnectionPolicy ExponentialBackoff where
  nextBackoff p retryCount :=
    let current := if retryCount = 0 then p.initial else Nat.min (p.current * 2) p.max
    (current,{p with current := current})
  shouldRetry p retryCount := retryCount < p.maxRetries
  reset p := {p with current := p.initial}

structure MessageBuffer where
  buffer : List Message
  maxSize : ℕ
  deriving DecidableEq

/-- Returns whether there was room. -/
def MessageBuffer.push (b : MessageBuffer) (data : Message) : Bool × MessageBuffer :=
  if b.maxSize ≤ b.buffer.length then (false,b) else (true,{b with buffer := b.buffer ++ [data]})

inductive ConnectionState
  | disconnected | connecting | connected | error | reconnecting
  deriving DecidableEq

/-- `stream` tells whether there is one. -/
structure WebSocketConnection (π : Type) where
  stream : Bool
  state : ConnectionState
  retryCount : ℕ
  policy : π
  messageBuffer : MessageBuffer
  deriving DecidableEq

/-- A connection that was made: the errors of its options and of the writes of a flush. -/
structure Socket where
  readTimeout : Option IoError
  writeTimeout : Option IoError
  nodelay : Option IoError
  writeAll : ℕ → Option IoError

/-- What name resolution returns: the addresses, each with what becomes of connecting to it. -/
abbrev Resolution := Except IoError (List (Except IoError Socket))

inductive Outcome
  | ok
  | err (error : WebSocketError)
  | panic
  deriving DecidableEq

/-- What a call of `connect` comes to, with the messages that it wrote. -/
structure Returned (π : Type) where
  outcome : Outcome
  connection : WebSocketConnection π
  written : List Message

structure Flushed where
  error : Option IoError
  left : List Message
  written : List Message

/-- The loop of `flush_message_buffer`: a message is popped before it is written. -/
def flushLoop (stream : Bool) : (ℕ → Option IoError) → List Message → Flushed
  | _, [] => ⟨none,[],[]⟩
  | writeAll, msg::rest =>
    let next := flushLoop stream (fun i => writeAll (i + 1)) rest
    if stream then
      match writeAll 0 with
      | some e => ⟨some e,rest,[]⟩
      | none => {next with written := msg::next.written}
    else next

namespace WebSocketConnection

variable {π : Type}

def new (policy : π) : WebSocketConnection π := ⟨false,.disconnected,0,policy,⟨[],1000⟩⟩

def handleError (c : WebSocketConnection π) (error : WebSocketError) : WebSocketConnection π :=
  if error.isRecoverable then {c with state := .error} else c

def flushMessageBuffer (c : WebSocketConnection π) (writeAll : ℕ → Option IoError) : Returned π :=
  let result := flushLoop c.stream writeAll c.messageBuffer.buffer
  { outcome := match result.error with
      | some e => .err (.fromIoError e)
      | none => .ok
    connection := {c with messageBuffer.buffer := result.left}
    written := result.written}

/-- `connect` with a connection whose options have to be set. -/
def useSocket [ConnectionPolicy π] (c : WebSocketConnection π) (socket : Socket) : Returned π :=
  match socket.readTimeout, socket.writeTimeout, socket.nodelay with
  | some e, _, _ => ⟨.err (.ioError e.message),c,[]⟩
  | none, some e, _ => ⟨.err (.ioError e.message),c,[]⟩
  | none, none, some e => ⟨.err (.ioError e.message),c,[]⟩
  | none, none, none =>
    {c with
      stream := true
      state := .connected
      retryCount := 0
      policy := ConnectionPolicy.reset c.policy}.flushMessageBuffer socket.writeAll

/-- The loop of `connect` over the addresses, and what follows it. -/
def tryAddresses [ConnectionPolicy π] (c : WebSocketConnection π) :
    Option IoError → List (Except IoError Socket) → Returned π
  | none, [] => ⟨.panic,c,[]⟩
  | some e, [] => ⟨.err (.fromIoError e),c.handleError (.fromIoError e),[]⟩
  | _, .error e::rest => c.tryAddresses (some e) rest
  | _, .ok socket::_ => c.useSocket socket

def connect [ConnectionPolicy π] (c : WebSocketConnection π) (resolution : Resolution) :
    Returned π :=
  let c := {c with state := .connecting}
  match resolution with
  | .error e => ⟨.err (.dnsFailure e.message),c,[]⟩
  | .ok addresses => c.tryAddresses none addresses

def reconnect [ConnectionPolicy π] (c : WebSocketConnection π) (resolution : Resolution) :
    Returned π :=
  if ConnectionPolicy.shouldRetry c.policy c.retryCount then
    {c with
      stream := false
      state := .reconnecting
      retryCount := c.retryCount + 1
      policy := (ConnectionPolicy.nextBackoff c.policy c.retryCount).2}.connect resolution
  else ⟨.err (.protocolError "Max retries exceeded"),c,[]⟩

def disconnect (c : WebSocketConnection π) : WebSocketConnection π :=
  {c with stream := false,state := .disconnected}

/-- `write` is what writing to the stream returns. -/
def send (c : WebSocketConnection π) (data : Message) (write : Except IoError ℕ) :
    Except WebSocketError ℕ × WebSocketConnection π :=
  if c.state ≠ .connected then
    (.error (.protocolError "Not connected"),
      {c with messageBuffer := (c.messageBuffer.push data).2})
  else if !c.stream then (.error (.protocolError "No stream available"),c)
  else
    match write with
    | .ok n => (.ok n,c)
    | .error e =>
      let error := WebSocketError.fromIoError e
      let c := if error.isRecoverable then
        {c with messageBuffer := (c.messageBuffer.push data).2} else c
      (.error error,c.handleError error)

/-- `read` is what reading from the stream returns. -/
def receive (c : WebSocketConnection π) (read : Except IoError ℕ) :
    Except WebSocketError ℕ × WebSocketConnection π :=
  if c.state ≠ .connected then (.error (.protocolError "Not connected"),c)
  else if !c.stream then (.error (.protocolError "No stream available"),c)
  else
    match read with
    | .ok 0 => (.error .connectionReset,{c with state := .disconnected})
    | .ok n => (.ok n,c)
    | .error e =>
      if e.kind = .wouldBlock ∨ e.kind = .timedOut then (.ok 0,c)
      else (.error (.fromIoError e),c.handleError (.fromIoError e))

end WebSocketConnection

/-! ## The exits of `connect` -/

def Socket.Ready (socket : Socket) : Prop :=
  socket.readTimeout = none ∧ socket.writeTimeout = none ∧ socket.nodelay = none

instance (socket : Socket) : Decidable socket.Ready := inferInstanceAs (Decidable (_ ∧ _ ∧ _))

/-- The first connection that is made. -/
def firstSocket (addresses : List (Except IoError Socket)) : Option Socket :=
  addresses.findSome? Except.toOption

/-- All buffered messages are written to a connection that is made and set up. -/
def WritesAll (buffer : List Message) (addresses : List (Except IoError Socket)) : Prop :=
  ∀ socket ∈ firstSocket addresses, socket.Ready → ∀ i < buffer.length, socket.writeAll i = none

instance (buffer : List Message) (addresses : List (Except IoError Socket)) :
    Decidable (WritesAll buffer addresses) :=
  inferInstanceAs (Decidable (∀ socket ∈ firstSocket addresses, _))

theorem flushLoop_error (writeAll : ℕ → Option IoError) (buffer : List Message) :
    (flushLoop true writeAll buffer).error = none ↔ ∀ i < buffer.length, writeAll i = none := by
  induction buffer generalizing writeAll with
  | nil => exact iff_of_true rfl fun i hi => absurd hi (Nat.not_lt_zero i)
  | cons msg rest ih =>
    rw [List.length_cons,Nat.forall_lt_succ_left]
    cases hwrite : writeAll 0 with
    | none =>
      have hnext : (flushLoop true writeAll (msg::rest)).error =
          (flushLoop true (fun i => writeAll (i + 1)) rest).error := by simp [flushLoop,hwrite]
      rw [hnext,ih]
      exact (and_iff_right rfl).symm
    | some e =>
      refine iff_of_false ?_ fun h => nomatch h.1
      simp [flushLoop,hwrite]

/-- Nothing is lost exactly when no write fails: the message of a failed write is gone. -/
theorem flushLoop_kept (writeAll : ℕ → Option IoError) (buffer : List Message) :
    (flushLoop true writeAll buffer).written ++ (flushLoop true writeAll buffer).left = buffer ↔
      ∀ i < buffer.length, writeAll i = none := by
  induction buffer generalizing writeAll with
  | nil => exact iff_of_true rfl fun i hi => absurd hi (Nat.not_lt_zero i)
  | cons msg rest ih =>
    rw [List.length_cons,Nat.forall_lt_succ_left]
    cases hwrite : writeAll 0 with
    | none =>
      simp only [flushLoop,hwrite,if_true,List.cons_append,List.cons.injEq,true_and]
      exact ih _
    | some e =>
      -- one message is missing
      refine iff_of_false ?_ fun h => nomatch h.1
      simp [flushLoop,hwrite]

namespace WebSocketConnection

variable {π : Type} [ConnectionPolicy π] {c : WebSocketConnection π}
  {addresses : List (Except IoError Socket)} {socket : Socket}

theorem useSocket_ready (h : socket.Ready) :
    c.useSocket socket = {c with
      stream := true
      state := .connected
      retryCount := 0
      policy := ConnectionPolicy.reset c.policy}.flushMessageBuffer socket.writeAll := by
  obtain ⟨hread,hwrite,hdelay⟩ := h
  rw [useSocket,hread,hwrite,hdelay]

theorem useSocket_not_ready (h : ¬ socket.Ready) :
    ∃ e : IoError, c.useSocket socket = ⟨.err (.ioError e.message),c,[]⟩ := by
  unfold useSocket
  split
  · exact ⟨_,rfl⟩
  · exact ⟨_,rfl⟩
  · exact ⟨_,rfl⟩
  · rename_i hread hwrite hdelay
    exact absurd ⟨hread,hwrite,hdelay⟩ h

theorem tryAddresses_of_socket {lastErr : Option IoError}
    (h : firstSocket addresses = some socket) :
    c.tryAddresses lastErr addresses = c.useSocket socket := by
  induction addresses generalizing lastErr with
  | nil => cases h
  | cons address rest ih =>
    cases address with
    | error e =>
      rw [tryAddresses]
      exact ih h
    | ok first =>
      cases h
      cases lastErr <;> rfl

/-- When no address can be reached the last error counts. -/
theorem tryAddresses_of_none {lastErr : Option IoError} (h : firstSocket addresses = none) :
    c.tryAddresses lastErr addresses =
      match addresses.getLast? with
      | some (.error e) => ⟨.err (.fromIoError e),c.handleError (.fromIoError e),[]⟩
      | _ => c.tryAddresses lastErr [] := by
  induction addresses generalizing lastErr with
  | nil => rfl
  | cons address rest ih =>
    cases address with
    | error e =>
      rw [tryAddresses,ih h]
      cases rest with
      | nil => rfl
      | cons next rest =>
        rw [List.getLast?_cons_cons]
        obtain ⟨last,hlast⟩ := Option.isSome_iff_exists.mp
          (List.getLast?_isSome.mpr (List.cons_ne_nil next rest))
        cases last with
        | error e => rw [hlast]
        | ok reached =>
          -- this address could be reached
          have hmem := List.findSome?_eq_none_iff.mp h (.ok reached)
            (List.mem_cons_of_mem _ (List.mem_of_getLast? hlast))
          cases hmem
    | ok first => cases h

omit [ConnectionPolicy π] in
theorem handleError_buffer (c : WebSocketConnection π) (error : WebSocketError) :
    (c.handleError error).messageBuffer = c.messageBuffer := by
  unfold handleError
  split_ifs <;> rfl

/-- What `connect` wrote and what it left are the buffer, unless the write of a flush fails. -/
theorem connect_kept (c : WebSocketConnection π) (addresses : List (Except IoError Socket)) :
    (c.connect (.ok addresses)).written ++
        (c.connect (.ok addresses)).connection.messageBuffer.buffer = c.messageBuffer.buffer ↔
      WritesAll c.messageBuffer.buffer addresses := by
  simp only [connect]
  cases hfirst : firstSocket addresses with
  | none =>
    have hall : WritesAll c.messageBuffer.buffer addresses := by simp [WritesAll,hfirst]
    refine iff_of_true ?_ hall
    rw [tryAddresses_of_none hfirst]
    split
    · rw [handleError_buffer]
      rfl
    · rfl
  | some socket =>
    rw [tryAddresses_of_socket hfirst]
    by_cases hready : socket.Ready
    · have hall : WritesAll c.messageBuffer.buffer addresses ↔
          ∀ i < c.messageBuffer.buffer.length, socket.writeAll i = none := by
        simp [WritesAll,hfirst,hready]
      rw [useSocket_ready hready,hall]
      exact flushLoop_kept socket.writeAll c.messageBuffer.buffer
    · obtain ⟨e,he⟩ := useSocket_not_ready (c := {c with state := .connecting}) hready
      have hall : WritesAll c.messageBuffer.buffer addresses := by simp [WritesAll,hfirst,hready]
      rw [he]
      exact iff_of_true rfl hall

end WebSocketConnection

/-! ## Runs -/

inductive Call
  | send (data : Message) (write : Except IoError ℕ)
  | connect (resolution : Resolution)
  | reconnect (resolution : Resolution)
  | receive (read : Except IoError ℕ)
  | disconnect

/-- The connection, the messages that `send` has put into the buffer and those that a flush has
written. -/
structure Log (π : Type) where
  connection : WebSocketConnection π
  put : List Message
  written : List Message

namespace Log

variable {π : Type} [ConnectionPolicy π]

def buffer (l : Log π) : List Message := l.connection.messageBuffer.buffer

/-- A panic ends the program. -/
def connected (l : Log π) (result : Returned π) : Option (Log π) :=
  if result.outcome = .panic then none
  else some {l with connection := result.connection,written := l.written ++ result.written}

def step (l : Log π) : Call → Option (Log π)
  | .send data write =>
    let connection := (l.connection.send data write).2
    some {l with
      connection := connection
      put := l.put ++ connection.messageBuffer.buffer.drop l.buffer.length}
  | .connect resolution => l.connected (l.connection.connect resolution)
  | .reconnect resolution => l.connected (l.connection.reconnect resolution)
  | .receive read => some {l with connection := (l.connection.receive read).2}
  | .disconnect => some {l with connection := l.connection.disconnect}

def start (policy : π) : Log π := ⟨.new policy,[],[]⟩

def run (policy : π) (calls : List Call) : Option (Log π) := Runs.exec step (start policy) calls

/-- Every message is in the buffer until it is written, in the order in which they came. -/
def Kept (l : Log π) : Prop := l.put = l.written ++ l.buffer

/-- The call makes no connection to which the write of a buffered message fails. -/
def FlushSucceeds (l : Log π) : Call → Prop
  | .connect (.ok addresses) => WritesAll l.buffer addresses
  | .reconnect (.ok addresses) =>
    ConnectionPolicy.shouldRetry l.connection.policy l.connection.retryCount = true →
      WritesAll l.buffer addresses
  | _ => True

instance (l : Log π) : ∀ call, Decidable (l.FlushSucceeds call)
  | .connect (.ok _) => inferInstanceAs (Decidable (WritesAll _ _))
  | .reconnect (.ok _) => inferInstanceAs (Decidable (_ → WritesAll _ _))
  | .connect (.error _) => isTrue trivial
  | .reconnect (.error _) => isTrue trivial
  | .send _ _ => isTrue trivial
  | .receive _ => isTrue trivial
  | .disconnect => isTrue trivial

variable {l l' : Log π}

omit [ConnectionPolicy π] in
theorem kept_connected {result : Returned π} (h : l.connected result = some l') (hl : l.Kept) :
    l'.Kept ↔ result.written ++ result.connection.messageBuffer.buffer = l.buffer := by
  unfold connected at h
  split_ifs at h
  cases h
  simp only [Kept,buffer] at hl ⊢
  rw [hl,List.append_assoc]
  exact ⟨fun h => (List.append_cancel_left h).symm,fun h => congrArg _ h.symm⟩

omit [ConnectionPolicy π] in
/-- `send` only adds to the buffer. -/
theorem send_buffer (c : WebSocketConnection π) (data : Message) (write : Except IoError ℕ) :
    c.messageBuffer.buffer <+: (c.send data write).2.messageBuffer.buffer := by
  have hpush : c.messageBuffer.buffer <+: (c.messageBuffer.push data).2.buffer := by
    unfold MessageBuffer.push
    split_ifs
    · exact List.prefix_refl _
    · exact List.prefix_append _ _
  unfold WebSocketConnection.send
  split_ifs
  · exact hpush
  · exact List.prefix_refl _
  · cases write with
    | ok n => exact List.prefix_refl _
    | error e =>
      show _ <+: (WebSocketConnection.handleError _ _).messageBuffer.buffer
      rw [WebSocketConnection.handleError_buffer]
      split_ifs
      · exact hpush
      · exact List.prefix_refl _

omit [ConnectionPolicy π] in
theorem receive_buffer (c : WebSocketConnection π) (read : Except IoError ℕ) :
    (c.receive read).2.messageBuffer = c.messageBuffer := by
  unfold WebSocketConnection.receive
  split_ifs
  · rfl
  · rfl
  · split
    · rfl
    · rfl
    · split_ifs
      · rfl
      · exact WebSocketConnection.handleError_buffer _ _

theorem kept_step {call : Call} (h : l.step call = some l') (hl : l.Kept) :
    l'.Kept ↔ l.FlushSucceeds call := by
  cases call with
  | send data write =>
    cases h
    refine iff_of_true ?_ trivial
    obtain ⟨added,hadded⟩ := send_buffer l.connection data write
    simp only [Kept,buffer] at hl ⊢
    rw [hl,← hadded,List.drop_left,List.append_assoc]
  | connect resolution =>
    rw [kept_connected h hl]
    cases resolution with
    | error e => exact iff_of_true rfl trivial
    | ok addresses => exact l.connection.connect_kept addresses
  | reconnect resolution =>
    rw [kept_connected h hl]
    cases resolution with
    | error e =>
      refine iff_of_true ?_ trivial
      unfold WebSocketConnection.reconnect
      split_ifs <;> rfl
    | ok addresses =>
      unfold WebSocketConnection.reconnect
      split_ifs with hretry
      · exact (WebSocketConnection.connect_kept _ addresses).trans
          ⟨fun h _ => h,fun h => h hretry⟩
      · exact iff_of_true rfl fun h => absurd h hretry
  | receive read =>
    cases h
    refine iff_of_true ?_ trivial
    simp only [Kept,buffer,receive_buffer]
    exact hl
  | disconnect =>
    cases h
    exact iff_of_true hl trivial

/-- No message is lost along a run exactly when no write of a flush fails. -/
theorem bufferKept_run {policy : π} {calls : List Call} (hrun : run policy calls = some l) :
    (∀ cs u, cs <+: calls → run policy cs = some u → u.Kept) ↔
      Runs.Along step FlushSucceeds (start policy) calls := by
  have hall := Runs.forall_reached_iff (I := fun _ => True) (fun _ _ _ _ h => h)
    (fun _ _ _ h _ => kept_step h) hrun trivial
  exact hall.trans (and_iff_right rfl)

def backoff : ExponentialBackoff := ⟨1000000000,32000000000,10,1000000000⟩

/-- A connection to which all writes succeed but those from the `n`-th on. -/
def socketOf (n : ℕ) : Socket :=
  ⟨none,none,none,fun i => if i < n then none else some ⟨.brokenPipe,"broken pipe"⟩⟩

theorem bufferKept_run_flushed :
    ∃ l, run backoff [.send [1] (.ok 1),.send [2] (.ok 1),.connect (.ok [.ok (socketOf 2)])] =
      some l ∧ l.Kept := by
  have hsome : (run backoff [.send [1] (.ok 1),.send [2] (.ok 1),
      .connect (.ok [.ok (socketOf 2)])]).isSome = true := by decide +kernel
  obtain ⟨l,hl⟩ := Option.isSome_iff_exists.mp hsome
  exact ⟨l,hl,(bufferKept_run hl).mpr (by decide +kernel) _ l (List.prefix_refl _) hl⟩

/-- The write of the first buffered message fails. -/
theorem bufferKept_run_brokenPipe :
    ¬ ∀ (calls : List Call) (l : Log ExponentialBackoff), run backoff calls = some l → l.Kept := by
  intro h
  have hsome : (run backoff [.send [1] (.ok 1),.send [2] (.ok 1),
      .connect (.ok [.ok (socketOf 0)])]).map (fun l => (l.put,l.written,l.buffer)) =
      some ([[1],[2]],[],[[2]]) := by decide +kernel
  obtain ⟨l,hl,heq⟩ := Option.map_eq_some_iff.mp hsome
  have hkept := h _ l hl
  obtain ⟨hput,hrest⟩ := Prod.mk.inj heq
  obtain ⟨hwritten,hbuffer⟩ := Prod.mk.inj hrest
  rw [Kept,hput,hwritten,hbuffer] at hkept
  revert hkept
  decide

end Log

end ErrorRecovery
end UProtocols
