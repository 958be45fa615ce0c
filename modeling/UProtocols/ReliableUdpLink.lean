import UProtocols.Channel
import UProtocols.ReliableUdpEndpoint

/-!
# Two endpoints over an unreliable network

A `Link` is a pair of endpoints. The network may hand an endpoint any datagram that
the peer's socket accepted, at any later time and any number of times, or never: this
is loss, duplication, delay and reordering, without corruption. One joint invariant
ties both windows, both receive buffers and every datagram to the numbers taken.
-/

namespace UProtocols
namespace ReliableUdp

inductive Side
  | left | right
  deriving DecidableEq

namespace Side

def peer : Side → Side
  | .left => .right
  | .right => .left

@[simp] theorem peer_peer (s : Side) : s.peer.peer = s := by cases s <;> rfl
@[simp] theorem peer_ne (s : Side) : s.peer ≠ s := by cases s <;> simp [peer]
theorem forall_iff {P : Side → Prop} : (∀ s, P s) ↔ P .left ∧ P .right :=
  ⟨fun h => ⟨h .left,h .right⟩,fun h s => by cases s <;> simp [h]⟩

theorem eq_or_eq_peer (s t : Side) : s = t ∨ s = t.peer := by cases s <;> cases t <;> simp [peer]

end Side

abbrev Link := Side → Endpoint

namespace Link

def new (now : ℕ) : Link := fun _ => Endpoint.new now

/-- A datagram can arrive once the peer's socket has accepted it. -/
def Deliverable (l : Link) (side : Side) : Call → Prop
  | .receive (.ok datagram) => datagram ∈ (l side.peer).udp.socket
  | _ => True

instance (l : Link) (side : Side) (c : Call) : Decidable (Deliverable l side c) :=
  match c with
  | .receive (.ok datagram) => inferInstanceAs (Decidable (datagram ∈ (l side.peer).udp.socket))
  | .receive (.error _) => isTrue trivial
  | .send _ _ _ _ => isTrue trivial
  | .processRetransmissions _ _ _ => isTrue trivial

def step (o : ByteOrder) (l : Link) (e : Side × Call) : Option Link :=
  if l.Deliverable e.1 e.2 then some (Function.update l e.1 ((l e.1).call o e.2)) else none

def run (o : ByteOrder) (now : ℕ) (events : List (Side × Call)) : Option Link :=
  Runs.exec (step o) (new now) events

/-- Neither side has taken `2^32` numbers. -/
def Bounded (l : Link) : Prop := ∀ side, (l side).Bounded

instance (l : Link) : Decidable l.Bounded := decidable_of_iff _ Side.forall_iff.symm

theorem step_eq {o : ByteOrder} {l l' : Link} {e : Side × Call} (h : step o l e = some l') :
    l.Deliverable e.1 e.2 ∧ l' = Function.update l e.1 ((l e.1).call o e.2) := by
  unfold step at h
  split_ifs at h with hd
  exact ⟨hd,(Option.some.inj h).symm⟩

theorem bounded_of_step (o : ByteOrder) (l : Link) (e : Side × Call) (l' : Link)
    (h : step o l e = some l') (hb : Bounded l') : Bounded l := by
  obtain ⟨-,rfl⟩ := step_eq h
  intro side
  by_cases hs : side = e.1
  · subst hs
    have hnow := hb e.1
    rw [Function.update_self] at hnow
    exact lt_of_le_of_lt (Endpoint.taken_mono o (l e.1) e.2).length_le hnow
  · simpa [hs] using hb side

end Link

/-! ### The invariants of one direction -/

/-- The `k`-th number taken is `k`. -/
def Numbered (taken : List (UInt32 × List UInt8)) : Prop :=
  ∀ (k : ℕ) (a : UInt32 × List UInt8), taken[k]? = some a → a.1.toNat = k

theorem Numbered.getElem?_toNat {taken : List (UInt32 × List UInt8)} (h : Numbered taken)
    {a : UInt32 × List UInt8} (ha : a ∈ taken) : taken[a.1.toNat]? = some a := by
  obtain ⟨k,hk⟩ := List.mem_iff_getElem?.mp ha
  rw [h k a hk]
  exact hk

theorem Numbered.toNat_lt {taken : List (UInt32 × List UInt8)} (h : Numbered taken)
    {a : UInt32 × List UInt8} (ha : a ∈ taken) : a.1.toNat < taken.length :=
  (List.getElem?_eq_some_iff.mp (h.getElem?_toNat ha)).1

theorem Numbered.snoc {taken : List (UInt32 × List UInt8)} (h : Numbered taken) {s : UInt32}
    (hs : s.toNat = taken.length) (data : List UInt8) : Numbered (taken ++ [(s,data)]) := by
  intro k a hk
  rcases lt_trichotomy k taken.length with hlt | rfl | hgt
  · rw [List.getElem?_append_left hlt] at hk
    exact h k a hk
  · simp at hk
    rw [← hk]
    exact hs
  · rw [List.getElem?_eq_none (by simp; omega)] at hk
    cases hk

/-- A packet that its sender really built, up to the time stamp. -/
structure Genuine (src : Endpoint) (p : Packet) : Prop where
  lengthOk : p.LengthOk
  short : p.data.length ≤ maxPacketSize
  sent : (p.header.sequence,p.data) ∈ src.taken
  ack : p.header.ack.toNat ≤ src.udp.recvSequence.toNat

theorem Genuine.mono {src src' : Endpoint} {p : Packet} (h : Genuine src p)
    (htaken : src.taken <+: src'.taken)
    (hack : src.udp.recvSequence.toNat ≤ src'.udp.recvSequence.toNat) : Genuine src' p :=
  ⟨h.lengthOk,h.short,htaken.subset h.sent,h.ack.trans hack⟩

theorem Genuine.withTimestamp {src : Endpoint} {p : Packet} (h : Genuine src p) (t : UInt64) :
    Genuine src (p.withTimestamp t) :=
  ⟨h.lengthOk,h.short,h.sent,h.ack⟩

/-- A genuine datagram fits the receive buffer and parses to the packet. -/
theorem Genuine.parse {src : Endpoint} {p : Packet} (h : Genuine src p) (o : ByteOrder) :
    Packet.fromBytes o ((p.toBytes o).take (maxPacketSize + 256)) = .ok p := by
  have hlen : (p.toBytes o).length ≤ maxPacketSize + 256 := by
    have := h.short
    simp [Packet.toBytes,PacketHeader.size]
    omega
  rw [List.take_of_length_le hlen]
  exact Packet.fromBytes_toBytes o p h.lengthOk

/-- The sending half of an endpoint. -/
structure SendInv (o : ByteOrder) (src : Endpoint) : Prop where
  counted : src.udp.sendSequence.toNat = src.taken.length
  numbered : Numbered src.taken
  wire : ∀ b ∈ src.udp.socket, ∃ p, b = p.toBytes o ∧ Genuine src p
  window : ∀ i, (src.udp.sendWindow i).acked = false → Genuine src (src.udp.sendWindow i).packet

/-- The receiving half at `seq`, also while the drain loop runs: buffered packets were sent
and lie at or above `seq`, and the processed numbers are those below `seq` or buffered. -/
structure RecvInv (taken : List (UInt32 × List UInt8)) (processed : List UInt32) (seq : UInt32)
    (buffer : AList fun _ : UInt32 => Packet) : Prop where
  le_taken : seq.toNat ≤ taken.length
  buffered : ∀ s p, buffer.lookup s = some p → seq ≤ s ∧ (s,p.data) ∈ taken
  processed : ∀ s, s ∈ processed ↔ s < seq ∨ (buffer.lookup s).isSome

theorem RecvInv.mono {taken taken' : List (UInt32 × List UInt8)} {processed : List UInt32}
    {seq : UInt32} {buffer : AList fun _ : UInt32 => Packet}
    (h : RecvInv taken processed seq buffer) (ht : taken <+: taken') :
    RecvInv taken' processed seq buffer :=
  ⟨h.le_taken.trans ht.length_le,
    fun s p hl => ⟨(h.buffered s p hl).1,ht.subset (h.buffered s p hl).2⟩,h.processed⟩

theorem lt_succ_iff {n s : UInt32} (hn : (n + 1).toNat = n.toNat + 1) :
    s < n + 1 ↔ s < n ∨ s = n := by
  rw [UInt32.lt_iff_toNat_lt,UInt32.lt_iff_toNat_lt,← UInt32.toNat_inj,hn]
  omega

theorem succ_le_of_lt {n s : UInt32} (hn : (n + 1).toNat = n.toNat + 1) (h : n < s) :
    n + 1 ≤ s := by
  rw [UInt32.lt_iff_toNat_lt] at h
  rw [UInt32.le_iff_toNat_le,hn]
  exact h

/-- A number that was taken can be passed without wrapping. -/
theorem toNat_succ_of_mem {taken : List (UInt32 × List UInt8)} (hnum : Numbered taken)
    (hb : taken.length < 2^32) {a : UInt32 × List UInt8} (ha : a ∈ taken) :
    (a.1 + 1).toNat = a.1.toNat + 1 :=
  Endpoint.toNat_succ rfl (lt_of_le_of_lt (hnum.toNat_lt ha) hb)

/-- One iteration of the drain loop. -/
theorem RecvInv.drain {taken : List (UInt32 × List UInt8)} {processed : List UInt32}
    {seq : UInt32} {buffer : AList fun _ : UInt32 => Packet} {p : Packet}
    (hnum : Numbered taken) (hb : taken.length < 2^32)
    (h : RecvInv taken processed seq buffer) (hl : buffer.lookup seq = some p) :
    RecvInv taken processed (seq + 1) (buffer.erase seq) := by
  have hmem := (h.buffered seq p hl).2
  have hsucc := toNat_succ_of_mem hnum hb hmem
  have hlt := hnum.toNat_lt hmem
  refine ⟨by rw [hsucc]; exact hlt,fun s q hs => ?_,fun s => ?_⟩
  · have hne : s ≠ seq := by
      rintro rfl
      simp at hs
    rw [AList.lookup_erase_ne hne] at hs
    obtain ⟨hle,hin⟩ := h.buffered s q hs
    exact ⟨succ_le_of_lt hsucc (UInt32.lt_of_le_of_ne hle hne.symm),hin⟩
  · rw [h.processed,lt_succ_iff hsucc]
    by_cases hs : s = seq
    · subst hs
      simp [hl]
    · simp [hs,AList.lookup_erase_ne hs]

/-- An in-order packet: its number is passed, and then everything buffered behind it. -/
theorem RecvInv.deliver {taken : List (UInt32 × List UInt8)} {processed : List UInt32}
    {self : ReliableUdp} {p : Packet} (hnum : Numbered taken) (hb : taken.length < 2^32)
    (h : RecvInv taken processed self.recvSequence self.recvBuffer)
    (hawait : self.recvBuffer.lookup self.recvSequence = none)
    (hseq : p.header.sequence = self.recvSequence)
    (hmem : (p.header.sequence,p.data) ∈ taken) :
    RecvInv taken (processed ++ [p.header.sequence]) (self.drained p).1 (self.drained p).2.1 ∧
      (self.drained p).2.1.lookup (self.drained p).1 = none ∧
      self.recvSequence.toNat < (self.drained p).1.toNat := by
  rw [hseq] at hmem ⊢
  have hsucc : (self.recvSequence + 1).toNat = self.recvSequence.toNat + 1 :=
    toNat_succ_of_mem hnum hb hmem
  have hlt : self.recvSequence.toNat < taken.length := hnum.toNat_lt hmem
  have hstart : RecvInv taken (processed ++ [self.recvSequence]) (self.recvSequence + 1)
      self.recvBuffer := by
    refine ⟨by rw [hsucc]; exact hlt,fun s q hs => ?_,fun s => ?_⟩
    · obtain ⟨hle,hin⟩ := h.buffered s q hs
      have hne : s ≠ self.recvSequence := by
        rintro rfl
        rw [hawait] at hs
        cases hs
      exact ⟨succ_le_of_lt hsucc (UInt32.lt_of_le_of_ne hle hne.symm),hin⟩
    · rw [List.mem_append,h.processed,lt_succ_iff hsucc,List.mem_singleton]
      tauto
  have hloop := drainBuffered_invariant
    (M := fun seq buffer => RecvInv taken (processed ++ [self.recvSequence]) seq buffer ∧
      self.recvSequence.toNat < seq.toNat)
    (fun seq buffer q hl hm => by
      refine ⟨hm.1.drain hnum hb hl,?_⟩
      rw [toNat_succ_of_mem hnum hb (hm.1.buffered seq q hl).2]
      exact Nat.lt_succ_of_lt hm.2)
    self.recvBuffer.entries.length (self.recvSequence + 1) self.recvBuffer [p.data]
    ⟨hstart,by omega⟩
  exact ⟨hloop.1,drainBuffered_done _ _ _ _ (le_refl _),hloop.2⟩

/-- An out-of-order packet is buffered under its own number. -/
theorem RecvInv.insert {taken : List (UInt32 × List UInt8)} {processed : List UInt32}
    {seq : UInt32} {buffer : AList fun _ : UInt32 => Packet} {p : Packet}
    (h : RecvInv taken processed seq buffer) (hgt : p.header.sequence > seq)
    (hmem : (p.header.sequence,p.data) ∈ taken) :
    RecvInv taken (processed ++ [p.header.sequence]) seq
      (buffer.insert p.header.sequence p) := by
  refine ⟨h.le_taken,fun s q hs => ?_,fun s => ?_⟩
  · by_cases hne : s = p.header.sequence
    · subst hne
      rw [AList.lookup_insert] at hs
      cases hs
      exact ⟨UInt32.le_of_lt hgt,hmem⟩
    · rw [AList.lookup_insert_ne hne] at hs
      exact h.buffered s q hs
  · rw [List.mem_append,h.processed,List.mem_singleton]
    by_cases hne : s = p.header.sequence
    · subst hne
      simp
    · rw [AList.lookup_insert_ne hne]
      simp [hne]

/-! ### What a received datagram does -/

/-- The packet, if any, that a call takes from the network. -/
def arriving (o : ByteOrder) : Call → List Packet
  | .receive (.ok datagram) =>
    match Packet.fromBytes o (datagram.take (maxPacketSize + 256)) with
    | .ok p => [p]
    | .error _ => []
  | _ => []

theorem mem_arriving {o : ByteOrder} {c : Call} {p : Packet} :
    p ∈ arriving o c ↔ ∃ datagram, c = .receive (.ok datagram) ∧
      Packet.fromBytes o (datagram.take (maxPacketSize + 256)) = .ok p := by
  cases c with
  | send data ts now sendTo => simp [arriving]
  | processRetransmissions now ts sendTo => simp [arriving]
  | receive recvFrom =>
    cases recvFrom with
    | error e => simp [arriving]
    | ok datagram =>
      cases h : Packet.fromBytes o (datagram.take (maxPacketSize + 256)) <;>
        simp [arriving,h,eq_comm]

/-- Processing a packet reads and writes the receive side only. -/
theorem processReceivedPacket_congr {self self' : ReliableUdp} (p : Packet)
    (hseq : self'.recvSequence = self.recvSequence)
    (hbuffer : self'.recvBuffer = self.recvBuffer) :
    (self'.processReceivedPacket p).1 = (self.processReceivedPacket p).1 ∧
      (self'.processReceivedPacket p).2.recvSequence =
        (self.processReceivedPacket p).2.recvSequence ∧
      (self'.processReceivedPacket p).2.recvBuffer =
        (self.processReceivedPacket p).2.recvBuffer := by
  simp only [processReceivedPacket,hseq,hbuffer]
  split_ifs <;> simp [hseq,hbuffer]

/-- The receive side after a `receive` call that parses a packet: nothing new, one payload
returned, or one packet buffered. -/
theorem call_receive_cases (o : ByteOrder) (e : Endpoint) (datagram : List UInt8) (p : Packet)
    (hp : Packet.fromBytes o (datagram.take (maxPacketSize + 256)) = .ok p) :
    let e' := e.call o (.receive (.ok datagram))
    (e'.udp.recvSequence = e.udp.recvSequence ∧ e'.udp.recvBuffer = e.udp.recvBuffer ∧
      e'.returned = e.returned ∧ (e'.processed = e.processed ∨
        (e'.processed = e.processed ++ [p.header.sequence] ∧
          e.udp.recvBuffer.lookup p.header.sequence = some p))) ∨
    (p.data ≠ [] ∧ p.header.sequence = e.udp.recvSequence ∧
      e'.udp.recvSequence = (e.udp.drained p).1 ∧ e'.udp.recvBuffer = (e.udp.drained p).2.1 ∧
      e'.returned = e.returned ++ [(e.udp.recvSequence,p.data)] ∧
      e'.processed = e.processed ++ [p.header.sequence]) ∨
    (p.data ≠ [] ∧ p.header.sequence > e.udp.recvSequence ∧
      e'.udp.recvSequence = e.udp.recvSequence ∧
      e'.udp.recvBuffer = e.udp.recvBuffer.insert p.header.sequence p ∧
      e'.returned = e.returned ∧ e'.processed = e.processed ++ [p.header.sequence]) := by
  intro e'
  by_cases hd : p.data = []
  · left
    have hrecv : e.udp.receive o (.ok datagram) = (.ok none,e.udp.processAcknowledgments p.header) := by
      simp [receive,hp,hd]
    refine ⟨by simp [e',Endpoint.call,hrecv,processAcknowledgments],
      by simp [e',Endpoint.call,hrecv,processAcknowledgments],by simp [e',Endpoint.call,hrecv],
      Or.inl (by simp [e',Endpoint.call,processedBy,hp,hd])⟩
  · obtain ⟨hresult,hseq,hbuffer⟩ := @processReceivedPacket_congr e.udp
      (e.udp.processAcknowledgments p.header).countReceived p rfl rfl
    have hrecv : e.udp.receive o (.ok datagram) = (.ok (e.udp.processReceivedPacket p).1,
        ((e.udp.processAcknowledgments p.header).countReceived.processReceivedPacket p).2) := by
      simp [receive,hp,hd,hresult]
    have hproc : e'.processed = e.processed ++
        if e.udp.processes p then [p.header.sequence] else [] := by
      simp [e',Endpoint.call,processedBy,hp,hd]
    have hreturned : e'.returned = e.returned ++
        ((e.udp.processReceivedPacket p).1.map fun data => (e.udp.recvSequence,data)).toList := by
      simp only [e',Endpoint.call,hrecv]
      cases (e.udp.processReceivedPacket p).1 <;> simp
    have hseq' : e'.udp.recvSequence = (e.udp.processReceivedPacket p).2.recvSequence := by
      simp [e',Endpoint.call,hrecv,hseq]
    have hbuffer' : e'.udp.recvBuffer = (e.udp.processReceivedPacket p).2.recvBuffer := by
      simp [e',Endpoint.call,hrecv,hbuffer]
    rcases processReceivedPacket_cases e.udp p with ⟨heq,h⟩ | ⟨hgt,bits,h⟩ | ⟨-,h⟩
    · have hyes : e.udp.processes p = true := by simp [processes,h]
      exact Or.inr (Or.inl ⟨hd,heq,by rw [hseq',h],by rw [hbuffer',h],by simp [hreturned,h],
        by simp [hproc,hyes]⟩)
    · have hyes : e.udp.processes p = true := by simp [processes,h]
      exact Or.inr (Or.inr ⟨hd,hgt,by rw [hseq',h],by rw [hbuffer',h],by simp [hreturned,h],
        by simp [hproc,hyes]⟩)
    · refine Or.inl ⟨by rw [hseq',h],by rw [hbuffer',h],by simp [hreturned,h],?_⟩
      -- out of the window; an identical copy may still be in the buffer
      by_cases hyes : e.udp.processes p = true
      · exact Or.inr ⟨by simp [hproc,hyes],by simpa [processes,h] using hyes⟩
      · exact Or.inl (by simp [hproc,hyes])

/-! ### The joint invariant -/

/-- The receiving half of `dst` against the numbers its peer has taken. -/
structure Inbound (taken : List (UInt32 × List UInt8)) (dst : Endpoint) : Prop where
  recv : RecvInv taken dst.processed dst.udp.recvSequence dst.udp.recvBuffer
  awaited : dst.udp.recvBuffer.lookup dst.udp.recvSequence = none
  returned : ∀ a ∈ dst.returned, a ∈ taken

/-- A call returns nothing, or the payload under `recv_sequence` and moves past it. -/
def Progress (e e' : Endpoint) : Prop :=
  (e'.udp.recvSequence = e.udp.recvSequence ∧ e'.returned = e.returned) ∨
  (e.udp.recvSequence.toNat < e'.udp.recvSequence.toNat ∧
    ∃ data, e'.returned = e.returned ++ [(e.udp.recvSequence,data)])

theorem Progress.le {e e' : Endpoint} (h : Progress e e') :
    e.udp.recvSequence.toNat ≤ e'.udp.recvSequence.toNat := by
  rcases h with ⟨h,-⟩ | ⟨h,-⟩
  · rw [h]
  · exact h.le

/-- Nothing on the receive side changed. -/
theorem Inbound.same {taken : List (UInt32 × List UInt8)} {e e' : Endpoint}
    (h : Inbound taken e) (hseq : e'.udp.recvSequence = e.udp.recvSequence)
    (hbuffer : e'.udp.recvBuffer = e.udp.recvBuffer) (hproc : e'.processed = e.processed)
    (hret : e'.returned = e.returned) : Inbound taken e' ∧ Progress e e' :=
  ⟨⟨by rw [hseq,hbuffer,hproc]; exact h.recv,by rw [hseq,hbuffer]; exact h.awaited,
    by rw [hret]; exact h.returned⟩,Or.inl ⟨hseq,hret⟩⟩

/-- A genuine datagram keeps the receive side in order. -/
theorem Inbound.receive {o : ByteOrder} {src dst : Endpoint} {p : Packet}
    (hsrc : SendInv o src) (hb : src.Bounded) (h : Inbound src.taken dst) (hp : Genuine src p) :
    Inbound src.taken (dst.call o (.receive (.ok (p.toBytes o)))) ∧
      Progress dst (dst.call o (.receive (.ok (p.toBytes o)))) := by
  rcases call_receive_cases o dst (p.toBytes o) p (hp.parse o) with
    ⟨hseq,hbuffer,hret,hproc | ⟨hproc,hdup⟩⟩ | ⟨-,heq,hseq,hbuffer,hret,hproc⟩ |
      ⟨-,hgt,hseq,hbuffer,hret,hproc⟩
  · exact h.same hseq hbuffer hproc hret
  · refine ⟨⟨?_,by rw [hseq,hbuffer]; exact h.awaited,by rw [hret]; exact h.returned⟩,
      Or.inl ⟨hseq,hret⟩⟩
    rw [hseq,hbuffer,hproc]
    refine ⟨h.recv.le_taken,h.recv.buffered,fun s => ?_⟩
    rw [List.mem_append,h.recv.processed,List.mem_singleton]
    by_cases hs : s = p.header.sequence
    · subst hs
      simp [hdup]
    · simp [hs]
  · obtain ⟨hinv,hawait,hlt⟩ := h.recv.deliver hsrc.numbered hb h.awaited heq hp.sent
    refine ⟨⟨?_,?_,fun a ha => ?_⟩,Or.inr ⟨by rw [hseq]; exact hlt,p.data,hret⟩⟩
    · rw [hseq,hbuffer,hproc]
      exact hinv
    · rw [hseq,hbuffer]
      exact hawait
    · rw [hret] at ha
      rcases List.mem_append.mp ha with ha | ha
      · exact h.returned a ha
      · rw [List.mem_singleton.mp ha,← heq]
        exact hp.sent
  · refine ⟨⟨?_,?_,by rw [hret]; exact h.returned⟩,Or.inl ⟨hseq,hret⟩⟩
    · rw [hseq,hbuffer,hproc]
      exact h.recv.insert hgt hp.sent
    · have hne : dst.udp.recvSequence ≠ p.header.sequence := by
        intro heq
        rw [heq] at hgt
        exact absurd hgt (UInt32.lt_irrefl _)
      rw [hseq,hbuffer,AList.lookup_insert_ne hne]
      exact h.awaited

theorem Inbound.call {o : ByteOrder} {src dst : Endpoint} (hsrc : SendInv o src)
    (hb : src.Bounded) (h : Inbound src.taken dst) (c : Call)
    (hc : ∀ datagram, c = .receive (.ok datagram) → datagram ∈ src.udp.socket) :
    Inbound src.taken (dst.call o c) ∧ Progress dst (dst.call o c) := by
  cases c with
  | send data ts now sendTo =>
    rcases Endpoint.call_send_cases o dst data ts now sendTo with
      heq | ⟨-,-,⟨err,-,heq⟩ | ⟨-,stats,heq⟩⟩ <;> rw [heq] <;> exact h.same rfl rfl rfl rfl
  | receive recvFrom =>
    cases recvFrom with
    | error err =>
      have hret : (dst.call o (.receive (.error err))).returned = dst.returned := by
        simp only [Endpoint.call,ReliableUdp.receive]
        split_ifs <;> rfl
      exact h.same (by simp [Endpoint.call,receive_error]) (by simp [Endpoint.call,receive_error])
        (by simp [Endpoint.call,processedBy]) hret
    | ok datagram =>
      obtain ⟨p,rfl,hp⟩ := hsrc.wire datagram (hc datagram rfl)
      exact h.receive hsrc hb hp
  | processRetransmissions now ts sendTo =>
    have hspec := processRetransmissions_spec o dst.udp now ts sendTo
    simp only [Endpoint.call]
    generalize dst.udp.processRetransmissions o now ts sendTo = udp at hspec ⊢
    exact h.same hspec.recvSequence hspec.recvBuffer rfl rfl

theorem Genuine.nextPacket {e e' : Endpoint} (data : List UInt8) (ts : UInt64)
    (hlen : data.length ≤ maxPacketSize) (hmem : (e.udp.sendSequence,data) ∈ e'.taken)
    (hseq : e'.udp.recvSequence = e.udp.recvSequence) : Genuine e' (e.udp.nextPacket data ts) where
  lengthOk := by
    have : data.length < 65536 := lt_of_le_of_lt hlen (by decide)
    simp [Packet.LengthOk,ReliableUdp.nextPacket,Packet.new]
    omega
  short := hlen
  sent := hmem
  ack := by
    rw [hseq]
    rfl

/-- The send half survives aging: no number is taken and only pending packets are resent. -/
theorem SendInv.ages {o : ByteOrder} {e e' : Endpoint} (h : SendInv o e)
    (hold : ∀ p, Genuine e p → Genuine e' p) (htaken : e'.taken = e.taken)
    (hseq : e'.udp.sendSequence = e.udp.sendSequence)
    (hsocket : ∀ b ∈ e'.udp.socket, b ∈ e.udp.socket ∨ ∃ i t,
      (e.udp.sendWindow i).acked = false ∧
      b = ((e.udp.sendWindow i).packet.withTimestamp t).toBytes o)
    (hages : Ages e.udp.sendWindow e'.udp.sendWindow) : SendInv o e' := by
  refine ⟨by rw [hseq,htaken]; exact h.counted,by rw [htaken]; exact h.numbered,fun b hb => ?_,
    fun i hi => ?_⟩
  · rcases hsocket b hb with hb | ⟨i,t,hi,rfl⟩
    · obtain ⟨p,hp,hg⟩ := h.wire b hb
      exact ⟨p,hp,hold p hg⟩
    · exact ⟨_,rfl,(hold _ (h.window i hi)).withTimestamp t⟩
  · obtain ⟨t,ht⟩ := (hages i).1
    rw [ht]
    exact (hold _ (h.window i (hages.unacked hi))).withTimestamp t

theorem SendInv.call {o : ByteOrder} {e : Endpoint} (h : SendInv o e) (c : Call)
    (hb : (e.call o c).Bounded)
    (hmono : e.udp.recvSequence.toNat ≤ (e.call o c).udp.recvSequence.toNat) :
    SendInv o (e.call o c) := by
  have hgrow := Endpoint.taken_mono o e c
  have hold : ∀ p, Genuine e p → Genuine (e.call o c) p := fun p hp => hp.mono hgrow hmono
  cases c with
  | send data ts now sendTo =>
    rcases Endpoint.call_send_cases o e data ts now sendTo with
      heq | ⟨hlen,-,⟨err,-,heq⟩ | ⟨-,stats,heq⟩⟩
    · rw [heq]
      exact h
    · rw [heq] at hb hold ⊢
      have hnext := Endpoint.toNat_succ h.counted (by simpa [Endpoint.Bounded] using hb)
      refine ⟨by simp [hnext,h.counted],h.numbered.snoc h.counted data,fun b hb => ?_,
        fun i hi => hold _ (h.window i hi)⟩
      obtain ⟨p,hp,hg⟩ := h.wire b hb
      exact ⟨p,hp,hold p hg⟩
    · rw [heq] at hb hold ⊢
      have hnext := Endpoint.toNat_succ h.counted (by simpa [Endpoint.Bounded] using hb)
      refine ⟨by simp [hnext,h.counted],h.numbered.snoc h.counted data,fun b hb => ?_,
        fun i hi => ?_⟩
      · rcases List.mem_append.mp hb with hb | hb
        · obtain ⟨p,hp,hg⟩ := h.wire b hb
          exact ⟨p,hp,hold p hg⟩
        · exact ⟨_,List.mem_singleton.mp hb,Genuine.nextPacket data ts hlen (by simp) rfl⟩
      · by_cases hslot : i = slotOf e.udp.sendSequence
        · subst hslot
          simp only [Function.update_self]
          exact Genuine.nextPacket data ts hlen (by simp) rfl
        · simpa [hslot] using hold _ (h.window i (by simpa [hslot] using hi))
  | receive recvFrom =>
    obtain ⟨hseq,hsocket,hages⟩ := Endpoint.receive_sendSide o e.udp recvFrom
    exact h.ages hold rfl hseq (fun b hb => Or.inl (hsocket ▸ hb)) hages
  | processRetransmissions now ts sendTo =>
    have hspec := processRetransmissions_spec o e.udp now ts sendTo
    simp only [Endpoint.call] at hold ⊢
    generalize e.udp.processRetransmissions o now ts sendTo = udp at hspec hold ⊢
    exact h.ages hold rfl hspec.sendSequence hspec.socket hspec.ages

namespace Link

/-- Both halves of both endpoints. -/
structure Joint (o : ByteOrder) (l : Link) : Prop where
  send : ∀ side, SendInv o (l side)
  inbound : ∀ side, Inbound (l side.peer).taken (l side)

theorem joint_new (o : ByteOrder) (now : ℕ) : Joint o (new now) where
  send side := ⟨rfl,by simp [Numbered,new,Endpoint.new],
    by simp [new,Endpoint.new,ReliableUdp.new],by simp [new,Endpoint.new,ReliableUdp.new]⟩
  inbound side := ⟨⟨Nat.le_refl 0,by simp [new,Endpoint.new,ReliableUdp.new],
    by simp [new,Endpoint.new,ReliableUdp.new]⟩,rfl,by simp [new,Endpoint.new]⟩

theorem mem_socket_of_deliverable {l : Link} {side : Side} {c : Call}
    (h : l.Deliverable side c) (datagram : List UInt8) (hc : c = .receive (.ok datagram)) :
    datagram ∈ (l side.peer).udp.socket := by
  subst hc
  exact h

/-- What one event does to the endpoint that makes the call. -/
theorem Joint.call {o : ByteOrder} {l : Link} (h : Joint o l) (hb : Bounded l) {side : Side}
    {c : Call} (hc : l.Deliverable side c) :
    Inbound (l side.peer).taken ((l side).call o c) ∧ Progress (l side) ((l side).call o c) :=
  (h.inbound side).call (h.send side.peer) (hb side.peer) c (mem_socket_of_deliverable hc)

theorem Joint.step {o : ByteOrder} {l l' : Link} {e : Side × Call} (h : Joint o l)
    (hstep : step o l e = some l') (hb : Bounded l') : Joint o l' := by
  have hbl := bounded_of_step o l e l' hstep hb
  obtain ⟨hc,rfl⟩ := step_eq hstep
  obtain ⟨side,c⟩ := e
  obtain ⟨hin,hprog⟩ := h.call hbl hc
  have hsend : SendInv o ((l side).call o c) := by
    refine (h.send side).call c ?_ hprog.le
    simpa using hb side
  constructor
  · intro t
    rcases t.eq_or_eq_peer side with rfl | rfl
    · simpa using hsend
    · simpa using h.send side.peer
  · intro t
    rcases t.eq_or_eq_peer side with rfl | rfl
    · simpa using hin
    · have hpeer := h.inbound side.peer
      have hgrow := Endpoint.taken_mono o (l side) c
      simp only [Side.peer_peer] at hpeer
      simp only [Side.peer_peer,Function.update_self,ne_eq,Side.peer_ne,not_false_eq_true,
        Function.update_of_ne]
      exact ⟨hpeer.recv.mono hgrow,hpeer.awaited,fun a ha => hgrow.subset (hpeer.returned a ha)⟩

theorem joint_run {o : ByteOrder} {now : ℕ} {events : List (Side × Call)} {l : Link}
    (h : run o now events = some l) (hb : Bounded l) : Joint o l :=
  Runs.exec_invariant_along (bounded_of_step o) (fun _ _ _ hstep hbt _ hs => hs.step hstep hbt) h hb
    (Runs.along_of_forall (fun _ _ => trivial) _ _) (joint_new o now)

end Link
end ReliableUdp
end UProtocols
