import UProtocols.Ping
import UProtocols.Runs

/-!
# The loop of the Rust ping

`receive_ping` and the loop of `main` in `ping_implementation.rs`: one request and one
`receive_ping` in each round, then a second of sleep. Times are nanoseconds of the monotonic clock.
-/

namespace UProtocols
namespace Ping

open Runs

inductive IoError
  | invalidData (message : String)
  | wouldBlock
  | other
  deriving DecidableEq

/-- The buffer of zeros after `recv_from` has put at most 1024 bytes into it. -/
def bufferAt (datagram : List UInt8) (i : ℕ) : UInt8 := (datagram.take 1024)[i]?.getD 0

def ipHeaderLen (datagram : List UInt8) : ℕ := ((bufferAt datagram 0 &&& 0x0F) * 4).toNat

def icmpType (datagram : List UInt8) : UInt8 := bufferAt datagram (ipHeaderLen datagram)

def icmpId (datagram : List UInt8) : UInt16 :=
  fromBeBytes (bufferAt datagram (ipHeaderLen datagram + 4))
    (bufferAt datagram (ipHeaderLen datagram + 5))

def icmpSeq (datagram : List UInt8) : UInt16 :=
  fromBeBytes (bufferAt datagram (ipHeaderLen datagram + 6))
    (bufferAt datagram (ipHeaderLen datagram + 7))

/-- `receive_ping`, with what `recv_from` gives and when. -/
def receivePing (identifier : UInt16) (sendTime : ℕ) (received : Except IoError (List UInt8))
    (recvTime : ℕ) : Except IoError (UInt16 × ℕ) := do
  let datagram ← received
  let len := (datagram.take 1024).length
  if len < 28 then throw (.invalidData "Packet too short")
  if len < ipHeaderLen datagram + 8 then throw (.invalidData "ICMP packet too short")
  if icmpType datagram = 0 ∧ icmpId datagram = identifier then
    -- `duration_since` saturates at zero
    return (icmpSeq datagram,recvTime - sendTime)
  else throw (.invalidData "Not our echo reply")

/-- What `receive_ping` has returned, and when. -/
structure Returned where
  recvSeq : UInt16
  rtt : ℕ
  recvTime : ℕ
  deriving DecidableEq

/-- The state at the beginning of a round. `sendTimes` and `returned` record what happened. -/
structure Main where
  seq : ℕ
  packetsSent : ℕ
  packetsReceived : ℕ
  totalRtt : ℕ
  running : Bool
  now : ℕ
  sendTimes : List ℕ
  returned : List Returned
  deriving DecidableEq

def start : Main := ⟨0,0,0,0,true,0,[],[]⟩

/-- What happens in a round: when the request is sent, what `send_to` and `recv_from` give, and
when the sleep is over. -/
structure Round where
  sendTime : ℕ
  sent : Except IoError Unit
  received : Except IoError (List UInt8)
  recvTime : ℕ
  wakeTime : ℕ

/-- One round of `for seq in 0..count`; `main` has four. The clock does not go back, and the thread
sleeps for a second at least. An error of `send_to` ends `main`. -/
def round (count identifier : UInt16) (s : Main) (e : Round) : Option Main :=
  if s.running ∧ s.seq < count.toNat ∧ s.now ≤ e.sendTime ∧ e.sendTime ≤ e.recvTime ∧
      e.recvTime + 1000000000 ≤ e.wakeTime then
    match e.sent with
    | .error _ => some { s with running := false }
    | .ok _ =>
      let s := { s with
        seq := s.seq + 1
        packetsSent := s.packetsSent + 1
        sendTimes := s.sendTimes ++ [e.sendTime]
        now := e.wakeTime }
      match receivePing identifier e.sendTime e.received e.recvTime with
      | .ok (recvSeq,rtt) => some { s with
          packetsReceived := s.packetsReceived + 1
          totalRtt := s.totalRtt + rtt
          returned := s.returned ++ [⟨recvSeq,rtt,e.recvTime⟩] }
      | .error _ => some s
  else none

/-- Every time that was returned is the time since the request with that number was sent. -/
def Attributed (s : Main) : Prop :=
  ∀ r ∈ s.returned, ∃ t ∈ s.sendTimes[r.recvSeq.toNat]?, t + r.rtt = r.recvTime

instance (s : Main) : Decidable (Attributed s) :=
  inferInstanceAs (Decidable (∀ r ∈ s.returned, ∃ t ∈ s.sendTimes[r.recvSeq.toNat]?,
    t + r.rtt = r.recvTime))

/-- A datagram that `receive_ping` takes for an echo reply to this process. -/
def OurReply (identifier : UInt16) (datagram : List UInt8) : Prop :=
  28 ≤ (datagram.take 1024).length ∧ ipHeaderLen datagram + 8 ≤ (datagram.take 1024).length ∧
    icmpType datagram = 0 ∧ icmpId datagram = identifier

instance (identifier : UInt16) (datagram : List UInt8) :
    Decidable (OurReply identifier datagram) := inferInstanceAs (Decidable (_ ∧ _ ∧ _ ∧ _))

/-- A reply that comes in a round is the reply to the request of that round. -/
def InTurn (identifier : UInt16) (s : Main) (e : Round) : Prop :=
  ∀ datagram ∈ e.received.toOption, e.sent.isOk → OurReply identifier datagram →
    (icmpSeq datagram).toNat = s.seq

instance (identifier : UInt16) (s : Main) (e : Round) : Decidable (InTurn identifier s e) :=
  inferInstanceAs (Decidable (∀ datagram ∈ e.received.toOption, _ → _ → _))

/-! ## One round -/

theorem receivePing_datagram (identifier : UInt16) (datagram : List UInt8)
    (sendTime recvTime : ℕ) :
    (OurReply identifier datagram → receivePing identifier sendTime (.ok datagram) recvTime =
      .ok (icmpSeq datagram,recvTime - sendTime)) ∧
    (¬ OurReply identifier datagram → ∃ error,
      receivePing identifier sendTime (.ok datagram) recvTime = .error error) := by
  simp only [receivePing,bind,Except.bind,pure,Except.pure,OurReply]
  split
  · exact ⟨fun h => absurd h.1 (by omega),fun _ => ⟨_,rfl⟩⟩
  · split
    · exact ⟨fun h => absurd h.2.1 (by omega),fun _ => ⟨_,rfl⟩⟩
    · split
      · exact ⟨fun _ => rfl,fun h => absurd ⟨by omega,by omega,‹_›⟩ h⟩
      · exact ⟨fun h => absurd h.2.2 ‹_›,fun _ => ⟨_,rfl⟩⟩

/-- The state after a request that was sent. -/
def Main.request (s : Main) (e : Round) : Main :=
  { s with
    seq := s.seq + 1
    packetsSent := s.packetsSent + 1
    sendTimes := s.sendTimes ++ [e.sendTime]
    now := e.wakeTime }

/-- The state after a round with a reply. -/
def Main.reply (s : Main) (e : Round) (datagram : List UInt8) : Main :=
  { s.request e with
    packetsReceived := s.packetsReceived + 1
    totalRtt := s.totalRtt + (e.recvTime - e.sendTime)
    returned := s.returned ++ [⟨icmpSeq datagram,e.recvTime - e.sendTime,e.recvTime⟩] }

/-- A round ends `main`, sends without getting a reply, or gets one. -/
theorem round_cases {count identifier : UInt16} {s t : Main} {e : Round}
    (h : round count identifier s e = some t) :
    (s.now ≤ e.sendTime ∧ e.sendTime ≤ e.recvTime ∧ e.recvTime + 1000000000 ≤ e.wakeTime) ∧
    ((e.sent.isOk = false ∧ t = { s with running := false }) ∨
      ((∀ datagram ∈ e.received.toOption, ¬ OurReply identifier datagram) ∧ t = s.request e) ∨
      ∃ datagram, e.sent.isOk = true ∧ e.received = .ok datagram ∧ OurReply identifier datagram ∧
        t = s.reply e datagram) := by
  rw [round] at h
  split at h
  case isFalse => cases h
  case isTrue hguard =>
    refine ⟨hguard.2.2,?_⟩
    cases hsent : e.sent with
    | error err =>
      rw [hsent] at h
      cases h
      exact .inl ⟨rfl,rfl⟩
    | ok _ =>
      rw [hsent] at h
      right
      cases hreceived : e.received with
      | error err =>
        rw [hreceived] at h
        cases h
        exact .inl ⟨nofun,rfl⟩
      | ok datagram =>
        rw [hreceived] at h
        obtain ⟨hours,hother⟩ := receivePing_datagram identifier datagram e.sendTime e.recvTime
        by_cases hreply : OurReply identifier datagram
        · rw [hours hreply] at h
          cases h
          exact .inr ⟨datagram,rfl,rfl,hreply,rfl⟩
        · obtain ⟨err,herr⟩ := hother hreply
          rw [herr] at h
          cases h
          refine .inl ⟨?_,rfl⟩
          intro d hd
          cases hd
          exact hreply

/-- Requests are sent one after the other, each at a later time. -/
structure Ordered (s : Main) : Prop where
  length_eq : s.sendTimes.length = s.seq
  lt_now : ∀ t ∈ s.sendTimes, t < s.now

theorem ordered_start : Ordered start := ⟨rfl,nofun⟩

theorem Ordered.request {s : Main} {e : Round} (h : Ordered s)
    (htimes : s.now ≤ e.sendTime ∧ e.sendTime ≤ e.recvTime ∧
      e.recvTime + 1000000000 ≤ e.wakeTime) : Ordered (s.request e) := by
  constructor
  · simp [Main.request,h.length_eq]
  · intro t ht
    change t < e.wakeTime
    obtain hold | hnew := List.mem_append.mp ht
    · have hlt := h.lt_now t hold
      omega
    · obtain rfl := List.mem_singleton.mp hnew
      omega

theorem Ordered.round {count identifier : UInt16} (s : Main) (e : Round) (t : Main)
    (h : round count identifier s e = some t) (hs : Ordered s) : Ordered t := by
  obtain ⟨htimes,⟨-,rfl⟩ | ⟨-,rfl⟩ | ⟨datagram,-,-,-,rfl⟩⟩ := round_cases h
  · exact ⟨hs.length_eq,hs.lt_now⟩
  · exact hs.request htimes
  · have hrequest := hs.request htimes
    exact ⟨hrequest.length_eq,hrequest.lt_now⟩

/-- The time since the request of the round belongs to the number of that request only. -/
theorem attributed_reply_iff {s : Main} {e : Round} (hs : Ordered s)
    (htimes : s.now ≤ e.sendTime ∧ e.sendTime ≤ e.recvTime) (q : UInt16) :
    (∃ t ∈ (s.sendTimes ++ [e.sendTime])[q.toNat]?, t + (e.recvTime - e.sendTime) = e.recvTime) ↔
      q.toNat = s.seq := by
  have hlength := hs.length_eq
  constructor
  · rintro ⟨t,ht,hrtt⟩
    rw [Option.mem_def,List.getElem?_append] at ht
    split at ht
    · have hlt := hs.lt_now t (List.mem_of_getElem? ht)
      omega
    · have hbound := (List.getElem?_eq_some_iff.mp ht).1
      rw [List.length_singleton] at hbound
      omega
  · intro hq
    refine ⟨e.sendTime,?_,by omega⟩
    rw [hq,← hlength]
    simp

/-- What was right stays right when another request is sent. -/
theorem Attributed.request {s : Main} (h : Attributed s) (e : Round) :
    Attributed (s.request e) := by
  intro r hr
  obtain ⟨t,ht,hrtt⟩ := h r hr
  refine ⟨t,?_,hrtt⟩
  have hlt := (List.getElem?_eq_some_iff.mp ht).1
  exact (List.getElem?_append_left hlt).trans ht

theorem attributed_round_iff {count identifier : UInt16} (s : Main) (e : Round) (t : Main)
    (h : round count identifier s e = some t) (hs : Ordered s) (hattributed : Attributed s) :
    Attributed t ↔ InTurn identifier s e := by
  obtain ⟨htimes,⟨hfailed,rfl⟩ | ⟨hnone,rfl⟩ | ⟨datagram,hsent,hreceived,hreply,rfl⟩⟩ :=
    round_cases h
  · refine iff_of_true hattributed fun datagram _ hok => ?_
    rw [hfailed] at hok
    cases hok
  · exact iff_of_true (hattributed.request e) fun datagram hd _ hreply =>
      absurd hreply (hnone datagram hd)
  · have hturn : InTurn identifier s e ↔ (icmpSeq datagram).toNat = s.seq := by
      simp [InTurn,hreceived,hsent,hreply,Except.toOption]
    have hold := hattributed.request e
    have hnew := attributed_reply_iff hs ⟨htimes.1,htimes.2.1⟩ (icmpSeq datagram)
    rw [hturn,← hnew]
    constructor
    · intro hall
      exact hall _ (List.mem_append_right s.returned List.mem_cons_self)
    · intro hlast r hr
      obtain hr | hr := List.mem_append.mp hr
      · exact hold r hr
      · obtain rfl := List.mem_singleton.mp hr
        exact hlast

/-- Round-trip times belong to the requests they are reported for throughout a run, exactly if in
every round only the reply to the request of that round comes in. -/
theorem attributed_run_iff (count identifier : UInt16) {es : List Round} {t : Main}
    (hrun : exec (round count identifier) start es = some t) :
    (∀ fs u, fs <+: es → exec (round count identifier) start fs = some u → Attributed u) ↔
      Along (round count identifier) (InTurn identifier) start es := by
  rw [forall_reached_iff Ordered.round attributed_round_iff hrun ordered_start]
  exact and_iff_right nofun

/-- The reply to a request behind a header of 20 bytes. -/
def replyTo (identifier sequence : UInt16) : List UInt8 :=
  0x45::List.replicate 19 0 ++ ([0,0,0,0] ++ ByteOrder.big.bytes 2 identifier.toNat ++
    ByteOrder.big.bytes 2 sequence.toNat ++ (List.range 56).map UInt8.ofNat)

/-- Two rounds, each with its reply. -/
def promptRounds : List Round :=
  [⟨0,.ok (),.ok (replyTo 7 0),5000000,1005000000⟩,
    ⟨1006000000,.ok (),.ok (replyTo 7 1),1012000000,2012000000⟩]

theorem attributed_run_prompt :
    ∃ t, exec (round 4 7) start promptRounds = some t ∧
      t.returned = [⟨0,5000000,5000000⟩,⟨1,6000000,1012000000⟩] ∧ Attributed t :=
  ⟨_,rfl,by decide +kernel,
    (attributed_run_iff 4 7 (show exec (round 4 7) start promptRounds = some _ from rfl)).mpr
      (by decide +kernel) promptRounds _ (List.prefix_refl _) rfl⟩

/-- Request 0 times out; its reply comes in the next round. -/
theorem late_reply_misattributed :
    ∃ t, exec (round 4 7) start [⟨0,.ok (),.error .wouldBlock,2000000000,3000000000⟩,
        ⟨3000000000,.ok (),.ok (replyTo 7 0),3001000000,4001000000⟩] = some t ∧
      t.returned = [⟨0,1000000,3001000000⟩] ∧ t.sendTimes = [0,3000000000] ∧ ¬ Attributed t := by
  refine ⟨_,rfl,?_⟩
  decide +kernel

end Ping
end UProtocols
