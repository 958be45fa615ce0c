import UProtocols.ConnectionMigration

/-!
# The migrating client in C++

`WebSocketMigration` of `websocket_connection_migration.cpp`, with strings as lists of
characters. Whether `lws_write` succeeds is an input. A message goes out at once when the client
is connected and is queued otherwise; the queue is flushed only by a connection that resumes a
session, so messages from before the session are overtaken. `lws_write` is handed the frame from
`LWS_PRE` characters on, and as many characters as the frame has: the padding that the library
wants in front of a payload is not there.
-/

namespace UProtocols
namespace ConnectionMigrationCpp

open NumberedQueue ConnectionMigration

structure QueuedMessage where
  sequenceNum : ℕ
  payload : List Char
  deriving DecidableEq

structure WebSocketMigration where
  state : ConnectionState
  sessionToken : List Char
  nextSequenceNum : ℕ
  lastAckedSequence : ℕ
  pendingMessages : List QueuedMessage
  deriving DecidableEq

/-- What `send_message` returns, the client after it and the message that was written. -/
structure Sent where
  result : Bool
  client : WebSocketMigration
  written : List QueuedMessage

def isSpace (c : Char) : Bool := c = ' ' || (9 ≤ c.toNat && c.toNat ≤ 13)

def digitsValue (digits : List Char) : ℕ := digits.foldl (fun n d => 10 * n + (d.toNat - 48)) 0

/-- The sign and what follows it. -/
def splitSign : List Char → Bool × List Char
  | '-'::text => (true,text)
  | '+'::text => (false,text)
  | text => (false,text)

/-- `std::stoull`: without digits, and out of range, it throws; a minus sign negates modulo the
size of the type. -/
def stoull (text : List Char) : Option ℕ :=
  let signed := splitSign (text.dropWhile isSpace)
  let digits := signed.2.takeWhile Char.isDigit
  let n := digitsValue digits
  if digits.isEmpty || UInt64.size ≤ n then none
  else some (if signed.1 then (UInt64.size - n) % UInt64.size else n)

namespace WebSocketMigration

def new : WebSocketMigration := ⟨.disconnected,[],0,0,[]⟩

def push (c : WebSocketMigration) (msg : QueuedMessage) : WebSocketMigration :=
  {c with pendingMessages := c.pendingMessages ++ [msg]}

/-- The sequence number, the token and the payload. -/
def buildMessageFrame (c : WebSocketMigration) (msg : QueuedMessage) : List Char :=
  (toString msg.sequenceNum).toList ++ ':'::c.sessionToken ++ ':'::msg.payload

def sendMessage (c : WebSocketMigration) (message : List Char) (writeOk : Bool) : Sent :=
  let qmsg := ⟨c.nextSequenceNum,message⟩
  let c := {c with nextSequenceNum := c.nextSequenceNum + 1}
  if c.state = .connected ∧ writeOk = true then ⟨true,c,[qmsg]⟩ else ⟨false,c.push qmsg,[]⟩

/-- Returns the client and the messages that were written. -/
def flushPendingMessages (c : WebSocketMigration) (writeOk : ℕ → Bool) :
    WebSocketMigration × List QueuedMessage :=
  let result := drain writeOk c.pendingMessages
  ({c with pendingMessages := result.2},result.1)

def onConnected (c : WebSocketMigration) (writeOk : ℕ → Bool) :
    WebSocketMigration × List QueuedMessage :=
  let c := {c with state := .connected}
  if c.sessionToken = [] then (c,[]) else c.flushPendingMessages writeOk

def onDisconnected (c : WebSocketMigration) : WebSocketMigration :=
  {c with state := .reconnecting}

def cleanupAckedMessages (c : WebSocketMigration) (ackSeq : ℕ) : WebSocketMigration :=
  {c with pendingMessages := acknowledge QueuedMessage.sequenceNum ackSeq c.pendingMessages}

/-- An exception leaves the program. -/
def onMessageReceived (c : WebSocketMigration) (message : List Char) : Option WebSocketMigration :=
  match message.dropWhile (· ≠ ':') with
  | [] => some c
  | _::msgData =>
    let msgType := message.takeWhile (· ≠ ':')
    if msgType = "SESSION_TOKEN".toList then some {c with sessionToken := msgData}
    else if msgType = "ACK".toList then
      (stoull msgData).map fun ackSeq =>
        {c with lastAckedSequence := ackSeq}.cleanupAckedMessages ackSeq
    else some c

end WebSocketMigration

/-! ## Runs -/

inductive Event
  | sendMessage (message : List Char) (writeOk : Bool)
  | onConnected (writeOk : ℕ → Bool)
  | onDisconnected
  | onMessageReceived (message : List Char)

/-- What `lws_write` has taken for a message. -/
structure Frame where
  connection : ℕ
  sequenceNum : ℕ
  text : List Char
  deriving DecidableEq

/-- A sequence number at the front of a frame. -/
def numberField (sequenceNum : ℕ) : List Char := (toString sequenceNum).toList ++ [':']

/-- The frame carries the number of its message. -/
def Frame.Carries (x : Frame) : Prop := numberField x.sequenceNum <+: x.text

/-- The characters that are read from `text.c_str() + LWS_PRE`; behind the terminator of the string
lies what `behind` has. -/
def handed (lwsPre : ℕ) (text : List Char) (behind : ℕ → Char) : List Char :=
  ((text ++ Char.ofNat 0::(List.range lwsPre).map behind).drop lwsPre).take text.length

/-- The client, the number of its connection, the frames that were written and the numbers of
the messages that were queued while there was no session token. -/
structure Wire where
  client : WebSocketMigration
  connection : ℕ
  written : List Frame
  early : List ℕ

namespace Wire

def numbers (w : Wire) : List ℕ := w.written.map Frame.sequenceNum

def queuedNumbers (w : Wire) : List ℕ := w.client.pendingMessages.map QueuedMessage.sequenceNum

variable (lwsPre : ℕ) (behind : ℕ → ℕ → Char)

/-- What goes out for a message on the present connection, with what lies in memory behind its
frame; no message goes out twice. -/
def frame (w : Wire) (msg : QueuedMessage) : Frame :=
  ⟨w.connection,msg.sequenceNum,
    handed lwsPre (w.client.buildMessageFrame msg) (behind msg.sequenceNum)⟩

def step (w : Wire) : Event → Option Wire
  | .sendMessage message writeOk =>
    let sent := w.client.sendMessage message writeOk
    some {w with
      client := sent.client
      written := w.written ++ sent.written.map (w.frame lwsPre behind)
      early := if sent.result = false ∧ w.client.sessionToken = [] then
        w.early ++ [w.client.nextSequenceNum] else w.early}
  | .onConnected writeOk =>
    let w := {w with connection := w.connection + 1}
    let result := w.client.onConnected writeOk
    some {w with
      client := result.1
      written := w.written ++ result.2.map (w.frame lwsPre behind)}
  | .onDisconnected => some {w with client := w.client.onDisconnected}
  | .onMessageReceived message =>
    (w.client.onMessageReceived message).map fun client => {w with client := client}

def start : Wire := ⟨.new,0,[],[]⟩

def run (events : List Event) : Option Wire := Runs.exec (step lwsPre behind) start events

/-- Every frame carries its number, on one connection the numbers increase, and every message from
before the session comes before those that were sent after it. -/
def InOrder (w : Wire) : Prop :=
  (∀ x ∈ w.written, x.Carries) ∧
  w.written.Pairwise (fun x y => x.connection = y.connection → x.sequenceNum < y.sequenceNum) ∧
    Preceded w.early w.numbers

/-- From `LWS_PRE` characters into its frame on, the number of the message stands once more. -/
def RepeatsNumber (w : Wire) (msg : QueuedMessage) : Prop :=
  numberField msg.sequenceNum <+:
    handed lwsPre (w.client.buildMessageFrame msg) (behind msg.sequenceNum)

/-- So it is for every message that goes out. -/
def RepeatsNumbers (w : Wire) : Event → Prop
  | .sendMessage message writeOk => w.client.state = .connected → writeOk = true →
    w.RepeatsNumber lwsPre behind ⟨w.client.nextSequenceNum,message⟩
  | .onConnected writeOk => w.client.sessionToken ≠ [] →
    ∀ i msg, w.client.pendingMessages[i]? = some msg → (∀ j ≤ i, writeOk j = true) →
      w.RepeatsNumber lwsPre behind msg
  | _ => True

/-- A message that is written at once finds all messages from before the session written. One
that is flushed finds those below it written or in the queue. -/
def LeavesNoneBehind (w : Wire) : Event → Prop
  | .sendMessage _ writeOk => w.client.state = .connected → writeOk = true →
    ∀ m ∈ w.early, m ∈ w.numbers
  | .onConnected writeOk => w.client.sessionToken ≠ [] →
    ∀ i msg, w.client.pendingMessages[i]? = some msg → (∀ j ≤ i, writeOk j = true) →
      ∀ m ∈ w.early, m < msg.sequenceNum → m ∈ w.numbers ∨ m ∈ w.queuedNumbers
  | _ => True

def Orderly (w : Wire) (e : Event) : Prop :=
  w.RepeatsNumbers lwsPre behind e ∧ w.LeavesNoneBehind e

instance (w : Wire) (msg : QueuedMessage) : Decidable (w.RepeatsNumber lwsPre behind msg) :=
  inferInstanceAs (Decidable (_ <+: _))

instance (w : Wire) : ∀ e, Decidable (w.RepeatsNumbers lwsPre behind e)
  | .sendMessage _ _ => inferInstanceAs (Decidable (_ → _ → _))
  | .onConnected writeOk =>
    decidable_of_iff (w.client.sessionToken ≠ [] →
      ∀ msg ∈ (drain writeOk w.client.pendingMessages).1, w.RepeatsNumber lwsPre behind msg)
      (imp_congr_right fun _ => forall_drain _ _)
  | .onDisconnected => isTrue trivial
  | .onMessageReceived _ => isTrue trivial

instance (w : Wire) : ∀ e, Decidable (w.LeavesNoneBehind e)
  | .sendMessage _ _ => inferInstanceAs (Decidable (_ → _ → ∀ m ∈ w.early, m ∈ w.numbers))
  | .onConnected writeOk =>
    decidable_of_iff (w.client.sessionToken ≠ [] →
      ∀ msg ∈ (drain writeOk w.client.pendingMessages).1,
        ∀ m ∈ w.early, m < msg.sequenceNum → m ∈ w.numbers ∨ m ∈ w.queuedNumbers)
      (imp_congr_right fun _ => forall_drain _ _)
  | .onDisconnected => isTrue trivial
  | .onMessageReceived _ => isTrue trivial

instance (w : Wire) (e : Event) : Decidable (w.Orderly lwsPre behind e) :=
  inferInstanceAs (Decidable (_ ∧ _))

/-- The queue is in order, no number is used twice, and the frames of each connection are in
order. -/
structure Consistent (w : Wire) : Prop where
  increasing : Increasing QueuedMessage.sequenceNum w.client.pendingMessages
  queued : ∀ msg ∈ w.client.pendingMessages, msg.sequenceNum < w.client.nextSequenceNum
  sent : ∀ x ∈ w.written, x.sequenceNum < w.client.nextSequenceNum ∧ x.connection ≤ w.connection
  marked : ∀ m ∈ w.early, m < w.client.nextSequenceNum
  ordered : w.written.Pairwise fun x y =>
    x.connection = y.connection → x.sequenceNum < y.sequenceNum

variable {lwsPre behind} {w w' : Wire}

theorem start_consistent : start.Consistent where
  increasing := List.Pairwise.nil
  queued := fun _ h => absurd h List.not_mem_nil
  sent := fun _ h => absurd h List.not_mem_nil
  marked := fun _ h => absurd h List.not_mem_nil
  ordered := List.Pairwise.nil

/-! ## Sending -/

theorem step_written {message : List Char} {writeOk : Bool}
    (hw : w.client.state = .connected ∧ writeOk = true) :
    w.step lwsPre behind (.sendMessage message writeOk) = some {w with
      client.nextSequenceNum := w.client.nextSequenceNum + 1
      written := w.written ++ [w.frame lwsPre behind ⟨w.client.nextSequenceNum,message⟩]} := by
  simp [step,WebSocketMigration.sendMessage,hw]

/-- A message that is not written is queued, and marked while there is no session. -/
theorem step_queued {message : List Char} {writeOk : Bool}
    (hw : ¬ (w.client.state = .connected ∧ writeOk = true)) :
    w.step lwsPre behind (.sendMessage message writeOk) = some {w with
      client.nextSequenceNum := w.client.nextSequenceNum + 1
      client.pendingMessages := w.client.pendingMessages ++ [⟨w.client.nextSequenceNum,message⟩]
      early := if w.client.sessionToken = [] then w.early ++ [w.client.nextSequenceNum]
        else w.early} := by
  simp [step,WebSocketMigration.sendMessage,WebSocketMigration.push,hw]

theorem consistent_written {message : List Char} {writeOk : Bool} (hc : w.Consistent)
    (hw : w.client.state = .connected ∧ writeOk = true)
    (hstep : w.step lwsPre behind (.sendMessage message writeOk) = some w') : w'.Consistent := by
  rw [step_written hw] at hstep
  cases hstep
  constructor
  · exact hc.increasing
  · exact fun msg hmsg => Nat.lt_succ_of_lt (hc.queued msg hmsg)
  · intro x hx
    rcases List.mem_append.mp hx with hx | hx
    · exact ⟨Nat.lt_succ_of_lt (hc.sent x hx).1,(hc.sent x hx).2⟩
    · cases List.mem_singleton.mp hx
      exact ⟨Nat.lt_succ_self _,Nat.le_refl _⟩
  · exact fun m hm => Nat.lt_succ_of_lt (hc.marked m hm)
  · refine List.pairwise_append.mpr ⟨hc.ordered,List.pairwise_singleton _ _,?_⟩
    intro x hx y hy _
    cases List.mem_singleton.mp hy
    exact (hc.sent x hx).1

theorem consistent_queued {message : List Char} {writeOk : Bool} (hc : w.Consistent)
    (hw : ¬ (w.client.state = .connected ∧ writeOk = true))
    (hstep : w.step lwsPre behind (.sendMessage message writeOk) = some w') : w'.Consistent := by
  rw [step_queued hw] at hstep
  cases hstep
  constructor
  · exact increasing_snoc.mpr ⟨hc.increasing,hc.queued⟩
  · intro msg hmsg
    rcases List.mem_append.mp hmsg with hmsg | hmsg
    · exact Nat.lt_succ_of_lt (hc.queued msg hmsg)
    · cases List.mem_singleton.mp hmsg
      exact Nat.lt_succ_self _
  · exact fun x hx => ⟨Nat.lt_succ_of_lt (hc.sent x hx).1,(hc.sent x hx).2⟩
  · intro m hm
    have hmem : m ∈ w.early ++ [w.client.nextSequenceNum] := by
      simp only at hm
      split_ifs at hm
      · exact hm
      · exact List.mem_append_left _ hm
    rcases List.mem_append.mp hmem with hm | hm
    · exact Nat.lt_succ_of_lt (hc.marked m hm)
    · cases List.mem_singleton.mp hm
      exact Nat.lt_succ_self _
  · exact hc.ordered

theorem inOrder_sendMessage {message : List Char} {writeOk : Bool} (hc : w.Consistent)
    (hF : w.InOrder) (hc' : w'.Consistent)
    (hstep : w.step lwsPre behind (.sendMessage message writeOk) = some w') :
    w'.InOrder ↔ w.Orderly lwsPre behind (.sendMessage message writeOk) := by
  refine (and_congr_right' (and_iff_right hc'.ordered)).trans ?_
  by_cases hw : w.client.state = .connected ∧ writeOk = true
  · rw [step_written hw] at hstep
    cases hstep
    refine and_congr ?_ ?_
    · simp only [List.forall_mem_append,List.forall_mem_singleton,and_iff_right hF.1]
      exact ⟨fun hcarries _ _ => hcarries,fun hrepeats => hrepeats hw.1 hw.2⟩
    · simp only [numbers,List.map_append,List.map_singleton,preceded_append_singleton]
      constructor
      · rintro ⟨-,hall⟩ - - m hm
        exact hall m hm (hc.marked m hm)
      · intro hall
        exact ⟨hF.2.2,fun m hm _ => hall hw.1 hw.2 m hm⟩
  · rw [step_queued hw] at hstep
    cases hstep
    refine iff_of_true ⟨hF.1,?_⟩ ⟨fun hstate hok => absurd ⟨hstate,hok⟩ hw,
      fun hstate hok => absurd ⟨hstate,hok⟩ hw⟩
    -- the new number is larger than all that were written
    have hlast : ∀ n ∈ w.numbers, n ≤ w.client.nextSequenceNum := by
      intro n hn
      obtain ⟨x,hx,rfl⟩ := List.mem_map.mp hn
      exact Nat.le_of_lt (hc.sent x hx).1
    simp only
    split_ifs
    · exact (preceded_mark hlast).mpr hF.2.2
    · exact hF.2.2

/-! ## Flushing -/

theorem step_flushed {writeOk : ℕ → Bool} (htoken : w.client.sessionToken ≠ []) :
    w.step lwsPre behind (.onConnected writeOk) = some {w with
      client.state := .connected
      client.pendingMessages := (drain writeOk w.client.pendingMessages).2
      connection := w.connection + 1
      written := w.written ++ (drain writeOk w.client.pendingMessages).1.map
        (frame lwsPre behind {w with connection := w.connection + 1})} := by
  simp [step,WebSocketMigration.onConnected,WebSocketMigration.flushPendingMessages,htoken]

theorem consistent_flushed {writeOk : ℕ → Bool} (hc : w.Consistent)
    (htoken : w.client.sessionToken ≠ []) (hstep : w.step lwsPre behind (.onConnected writeOk) = some w') :
    w'.Consistent := by
  rw [step_flushed htoken] at hstep
  cases hstep
  have hwhole := drain_append writeOk w.client.pendingMessages
  constructor
  · exact hc.increasing.sublist (drain_sublist _ _)
  · exact fun msg hmsg => hc.queued msg ((drain_sublist _ _).subset hmsg)
  · intro x hx
    rcases List.mem_append.mp hx with hx | hx
    · exact ⟨(hc.sent x hx).1,Nat.le_succ_of_le (hc.sent x hx).2⟩
    · obtain ⟨msg,hmsg,rfl⟩ := List.mem_map.mp hx
      have hmem : msg ∈ w.client.pendingMessages := by
        rw [← hwhole]
        exact List.mem_append_left _ hmsg
      exact ⟨hc.queued msg hmem,Nat.le_refl _⟩
  · exact hc.marked
  · refine List.pairwise_append.mpr ⟨hc.ordered,?_,?_⟩
    · have hincreasing := hc.increasing
      rw [← hwhole] at hincreasing
      rw [List.pairwise_map]
      refine (List.pairwise_append.mp hincreasing).1.imp ?_
      intro x y hlt _
      exact hlt
    · -- the connection is a new one
      intro x hx y hy hsame
      obtain ⟨msg,-,rfl⟩ := List.mem_map.mp hy
      have hle := (hc.sent x hx).2
      rw [show x.connection = w.connection + 1 from hsame] at hle
      exact absurd hle (Nat.not_succ_le_self _)

theorem inOrder_flushed {writeOk : ℕ → Bool} (hc : w.Consistent) (hF : w.InOrder)
    (hc' : w'.Consistent) (htoken : w.client.sessionToken ≠ [])
    (hstep : w.step lwsPre behind (.onConnected writeOk) = some w') :
    w'.InOrder ↔ w.Orderly lwsPre behind (.onConnected writeOk) := by
  refine (and_congr_right' (and_iff_right hc'.ordered)).trans ?_
  rw [step_flushed htoken] at hstep
  cases hstep
  refine and_congr ?_ ?_
  · simp only [List.forall_mem_append,and_iff_right hF.1,List.forall_mem_map]
    refine (forall_drain (p := w.RepeatsNumber lwsPre behind) _ _).trans ?_
    exact ⟨fun hall _ => hall,fun hall => hall htoken⟩
  have hwhole : (drain writeOk w.client.pendingMessages).1.map QueuedMessage.sequenceNum ++
      (drain writeOk w.client.pendingMessages).2.map QueuedMessage.sequenceNum =
        w.queuedNumbers := by
    rw [← List.map_append,drain_append]
    rfl
  have hqueue : w.queuedNumbers.Pairwise (· < ·) := List.pairwise_map.mpr hc.increasing
  rw [← hwhole] at hqueue
  have hnumbers : numbers {w with
      client.state := .connected
      client.pendingMessages := (drain writeOk w.client.pendingMessages).2
      connection := w.connection + 1
      written := w.written ++ (drain writeOk w.client.pendingMessages).1.map
        (frame lwsPre behind {w with connection := w.connection + 1})} =
      w.numbers ++ (drain writeOk w.client.pendingMessages).1.map QueuedMessage.sequenceNum := by
    rw [numbers,List.map_append,List.map_map]
    rfl
  rw [hnumbers,preceded_append_front hF.2.2 hqueue,hwhole,List.forall_mem_map,forall_drain]
  constructor
  · exact fun hall _ => hall
  · exact fun hall => hall htoken

/-! ## All events -/

/-- An event that writes and queues nothing. -/
theorem consistent_quiet {client : WebSocketMigration} {connection : ℕ} (hc : w.Consistent)
    (hnext : client.nextSequenceNum = w.client.nextSequenceNum)
    (hsub : client.pendingMessages.Sublist w.client.pendingMessages)
    (hconnection : w.connection ≤ connection) :
    Consistent ⟨client,connection,w.written,w.early⟩ where
  increasing := hc.increasing.sublist hsub
  queued := fun msg hmsg => Nat.lt_of_lt_of_eq (hc.queued msg (hsub.subset hmsg)) hnext.symm
  sent := fun x hx => ⟨Nat.lt_of_lt_of_eq (hc.sent x hx).1 hnext.symm,
    Nat.le_trans (hc.sent x hx).2 hconnection⟩
  marked := fun m hm => Nat.lt_of_lt_of_eq (hc.marked m hm) hnext.symm
  ordered := hc.ordered

theorem onMessageReceived_quiet {c c' : WebSocketMigration} {message : List Char}
    (h : c.onMessageReceived message = some c') :
    c'.nextSequenceNum = c.nextSequenceNum ∧ c'.pendingMessages.Sublist c.pendingMessages := by
  unfold WebSocketMigration.onMessageReceived at h
  split at h
  · cases h
    exact ⟨rfl,List.Sublist.refl _⟩
  · simp only at h
    split_ifs at h
    · cases h
      exact ⟨rfl,List.Sublist.refl _⟩
    · obtain ⟨ackSeq,-,rfl⟩ := Option.map_eq_some_iff.mp h
      exact ⟨rfl,acknowledge_sublist⟩
    · cases h
      exact ⟨rfl,List.Sublist.refl _⟩

theorem consistent_step {e : Event} (hstep : w.step lwsPre behind e = some w') (hc : w.Consistent) :
    w'.Consistent := by
  cases e with
  | sendMessage message writeOk =>
    by_cases hw : w.client.state = .connected ∧ writeOk = true
    · exact consistent_written hc hw hstep
    · exact consistent_queued hc hw hstep
  | onConnected writeOk =>
    by_cases htoken : w.client.sessionToken = []
    · simp only [step,WebSocketMigration.onConnected,htoken,if_true,List.map_nil,
        List.append_nil] at hstep
      cases hstep
      exact consistent_quiet hc rfl (List.Sublist.refl _) (Nat.le_succ _)
    · exact consistent_flushed hc htoken hstep
  | onDisconnected =>
    cases hstep
    exact consistent_quiet hc rfl (List.Sublist.refl _) (Nat.le_refl _)
  | onMessageReceived message =>
    obtain ⟨client,hclient,rfl⟩ := Option.map_eq_some_iff.mp hstep
    obtain ⟨hnext,hsub⟩ := onMessageReceived_quiet hclient
    exact consistent_quiet hc hnext hsub (Nat.le_refl _)

theorem inOrder_step {e : Event} (hstep : w.step lwsPre behind e = some w') (hc : w.Consistent)
    (hF : w.InOrder) : w'.InOrder ↔ w.Orderly lwsPre behind e := by
  have hc' := consistent_step hstep hc
  cases e with
  | sendMessage message writeOk => exact inOrder_sendMessage hc hF hc' hstep
  | onConnected writeOk =>
    by_cases htoken : w.client.sessionToken = []
    · simp only [step,WebSocketMigration.onConnected,htoken,if_true,List.map_nil,
        List.append_nil] at hstep
      cases hstep
      exact iff_of_true hF ⟨fun hsome => absurd htoken hsome,fun hsome => absurd htoken hsome⟩
    · exact inOrder_flushed hc hF hc' htoken hstep
  | onDisconnected =>
    cases hstep
    exact iff_of_true hF ⟨trivial,trivial⟩
  | onMessageReceived message =>
    obtain ⟨client,-,rfl⟩ := Option.map_eq_some_iff.mp hstep
    exact iff_of_true hF ⟨trivial,trivial⟩

/-- The frames of a run carry their numbers in order exactly when no message goes out but with its
number once more from `LWS_PRE` characters on, and none from before the session is left behind. -/
theorem wireOrder_run {events : List Event} (hrun : run lwsPre behind events = some w) :
    (∀ es u, es <+: events → run lwsPre behind es = some u → u.InOrder) ↔
      Runs.Along (step lwsPre behind) (Orderly lwsPre behind) start events := by
  have hall := Runs.forall_reached_iff (fun _ _ _ => consistent_step) (fun _ _ _ => inOrder_step)
    hrun start_consistent
  have hstart : start.InOrder := by
    refine ⟨fun _ hx => absurd hx List.not_mem_nil,List.Pairwise.nil,fun before n after h => ?_⟩
    cases List.append_eq_nil_iff.mp h.symm
    contradiction
  exact hall.trans (and_iff_right hstart)

/-- The session begins before the first message, and with a token of thirteen characters the
payloads begin where `lws_write` begins to read. -/
def numberedPayloads : List Event :=
  [.onConnected fun _ => true,.onMessageReceived "SESSION_TOKEN:0123456789abc".toList,
    .sendMessage "0:a".toList true,.sendMessage "1:b".toList true]

theorem wireOrder_run_numberedPayloads :
    ∃ w, run 16 (fun _ _ => 'x') numberedPayloads = some w ∧ w.InOrder ∧ w.numbers = [0,1] := by
  have hsome : (run 16 (fun _ _ => 'x') numberedPayloads).map numbers = some [0,1] := by
    decide +kernel
  obtain ⟨w,hw,hnumbers⟩ := Option.map_eq_some_iff.mp hsome
  exact ⟨w,hw,(wireOrder_run hw).mpr (by decide +kernel) _ w (List.prefix_refl _) hw,hnumbers⟩

/-- Message `0` waits for a connection, which asks for a session and flushes nothing; message
`1` goes out at once, and what goes out does not have its number. -/
def leftBehind : List Event :=
  [.sendMessage "a".toList true,.onConnected fun _ => true,
    .onMessageReceived "SESSION_TOKEN:t".toList,.sendMessage "b".toList true]

theorem wireOrder_run_leftBehind : ∃ w, run 16 (fun _ _ => 'x') leftBehind = some w ∧
    (¬ ∀ x ∈ w.written, x.Carries) ∧ ¬ Preceded w.early w.numbers := by
  have hsome : (run 16 (fun _ _ => 'x') leftBehind).map
      (fun w => (w.written,w.early)) = some ([⟨1,1,"xxxxx".toList⟩],[0]) := by decide +kernel
  obtain ⟨w,hw,hpair⟩ := Option.map_eq_some_iff.mp hsome
  obtain ⟨hwritten,hearly⟩ := Prod.mk.inj hpair
  refine ⟨w,hw,?_,?_⟩
  · intro hcarries
    have hlast := hcarries ⟨1,1,"xxxxx".toList⟩ (by simp [hwritten])
    revert hlast
    unfold Frame.Carries
    decide
  · intro horder
    rw [numbers,hwritten,hearly] at horder
    exact absurd (horder [] 1 [] rfl 0 (by decide) (by decide)) List.not_mem_nil

end Wire

end ConnectionMigrationCpp
end UProtocols
