import UProtocols.ReliableUdpLink

/-!
# What an acknowledgment means

`send` writes the next number it expects into the header, and the peer reads that
number as received (the direct ACK). The selective branch reads bits below it, and
those numbers are all received. So a mark is truthful unless the direct branch meets
the number that the peer still awaits.
-/

namespace UProtocols
namespace ReliableUdp

/-- Either branch of the test concerns a number up to the acknowledged one. -/
theorem le_of_acknowledges {header : PacketHeader} {seq : UInt32}
    (h : acknowledges header seq = true) : seq = header.ack ∨ seq < header.ack := by
  unfold acknowledges at h
  split_ifs at h with heq hlt
  · exact Or.inl heq
  · exact Or.inr hlt.1

theorem acknowledges_ack (header : PacketHeader) : acknowledges header header.ack = true := by
  simp [acknowledges]

theorem receive_sendWindow (o : ByteOrder) (self : ReliableUdp) (datagram : List UInt8)
    (p : Packet) (hp : Packet.fromBytes o (datagram.take (maxPacketSize + 256)) = .ok p) :
    (self.receive o (.ok datagram)).2.sendWindow =
      (self.processAcknowledgments p.header).sendWindow := by
  by_cases hd : p.data = []
  · simp [receive,hp,hd]
  · simp only [receive,hp,List.isEmpty_iff,hd,if_false]
    rcases processReceivedPacket_cases (self.processAcknowledgments p.header).countReceived p with
      ⟨-,h⟩ | ⟨-,bits,h⟩ | ⟨-,h⟩ <;> rw [h] <;> rfl

theorem mem_marked_processAcknowledgments {self : ReliableUdp} {header : PacketHeader}
    {s : UInt32} :
    s ∈ marked self.sendWindow (self.processAcknowledgments header).sendWindow ↔
      ∃ i, (self.sendWindow i).acked = false ∧
        (self.sendWindow i).packet.header.sequence = s ∧ acknowledges header s = true := by
  rw [mem_marked]
  apply exists_congr
  intro i
  cases hacked : (self.sendWindow i).acked with
  | true => simp
  | false =>
    by_cases hseq : (self.sendWindow i).packet.header.sequence = s
    · by_cases hack : acknowledges header s = true <;>
        simp [processAcknowledgments,hacked,hseq,hack]
    · simp [hseq]

namespace Link

/-- The numbers that `process_acknowledgments` marks during a call. -/
def acknowledged (o : ByteOrder) (e : Endpoint) : Call → List UInt32
  | .receive recvFrom => marked e.udp.sendWindow (e.udp.receive o recvFrom).2.sendWindow
  | _ => []

/-- Every number marked was processed by the peer before. -/
def FalseAckFree (o : ByteOrder) (l : Link) (e : Side × Call) : Prop :=
  ∀ s ∈ acknowledged o (l e.1) e.2, s ∈ (l e.1.peer).processed

/-- An unacked packet whose number is the ack field of the arriving datagram has been passed
by the peer's `recv_sequence` in the meantime. -/
def AckPassed (o : ByteOrder) (l : Link) (e : Side × Call) : Prop :=
  ∀ p ∈ arriving o e.2, ∀ i, ((l e.1).udp.sendWindow i).acked = false →
    ((l e.1).udp.sendWindow i).packet.header.sequence = p.header.ack →
    p.header.ack < (l e.1.peer).udp.recvSequence

instance (o : ByteOrder) (l : Link) (e : Side × Call) : Decidable (FalseAckFree o l e) :=
  List.decidableBAll (fun s => s ∈ (l e.1.peer).processed) (acknowledged o (l e.1) e.2)

instance (o : ByteOrder) (l : Link) (e : Side × Call) : Decidable (AckPassed o l e) :=
  inferInstanceAs (Decidable (∀ p ∈ arriving o e.2, ∀ _, _ → _ → _))

/-- The number a receiver awaits has not been processed. -/
theorem not_processed_awaited {taken : List (UInt32 × List UInt8)} {dst : Endpoint}
    (h : Inbound taken dst) : dst.udp.recvSequence ∉ dst.processed := by
  rw [h.recv.processed]
  simp [h.awaited]

theorem processed_of_lt {taken : List (UInt32 × List UInt8)} {dst : Endpoint}
    (h : Inbound taken dst) {s : UInt32} (hs : s < dst.udp.recvSequence) : s ∈ dst.processed :=
  (h.recv.processed s).mpr (Or.inl hs)

/-- At a reachable state the direct branch is the only source of false marks. -/
theorem falseAckFree_iff {o : ByteOrder} {l l' : Link} {e : Side × Call} (h : Joint o l)
    (hstep : step o l e = some l') : FalseAckFree o l e ↔ AckPassed o l e := by
  obtain ⟨side,c⟩ := e
  have hc : l.Deliverable side c := (step_eq hstep).1
  have hpeer := h.inbound side.peer
  cases c with
  | send data ts now sendTo => simp [FalseAckFree,AckPassed,acknowledged,arriving]
  | processRetransmissions now ts sendTo => simp [FalseAckFree,AckPassed,acknowledged,arriving]
  | receive recvFrom =>
    cases recvFrom with
    | error err => simp [FalseAckFree,AckPassed,acknowledged,arriving,receive_error]
    | ok datagram =>
      obtain ⟨p,rfl,hp⟩ := (h.send side.peer).wire datagram hc
      have hack : p.header.ack ≤ (l side.peer).udp.recvSequence :=
        UInt32.le_iff_toNat_le.mpr hp.ack
      simp only [FalseAckFree,AckPassed,acknowledged,arriving,hp.parse o,List.mem_singleton,
        forall_eq,receive_sendWindow o (l side).udp (p.toBytes o) p (hp.parse o),
        mem_marked_processAcknowledgments]
      constructor
      · intro hfree i hun hseq
        have hproc := hfree p.header.ack ⟨i,hun,hseq,acknowledges_ack _⟩
        apply UInt32.lt_of_le_of_ne hack
        intro heq
        rw [heq] at hproc
        exact not_processed_awaited hpeer hproc
      · rintro hpassed s ⟨i,hun,hseq,hyes⟩
        apply processed_of_lt hpeer
        rcases le_of_acknowledges hyes with heq | hlt
        · subst heq
          exact hpassed i hun hseq
        · exact UInt32.lt_of_lt_of_le hlt hack

/-- Along every run, no false acknowledgment is made exactly when no direct ACK meets the
number that the peer still awaits. -/
theorem falseAckFree_run_iff (o : ByteOrder) (now : ℕ) (events : List (Side × Call)) (l : Link)
    (h : run o now events = some l) (hb : Bounded l) :
    Runs.Along (step o) (FalseAckFree o) (new now) events ↔
      Runs.Along (step o) (AckPassed o) (new now) events :=
  Runs.along_congr (I := Joint o) (bounded_of_step o) (fun _ _ _ hstep hbt hs => hs.step hstep hbt)
    (fun _ _ _ hstep _ hs => falseAckFree_iff hs hstep) h hb (joint_new o now)

/-- Both sides send their first packet; each carries ack 0 because nothing was received. -/
def crossing : List (Side × Call) :=
  [(.left,.send [1] 0 0 (.ok ())),(.right,.send [2] 0 0 (.ok ())),
    (.left,.receive (.ok ((Packet.new 0 [2]).toBytes .little)))]

/-- The same, but our packet reaches the peer before the peer's ack 0 reaches us. -/
def answered : List (Side × Call) :=
  [(.left,.send [1] 0 0 (.ok ())),(.right,.send [2] 0 0 (.ok ())),
    (.right,.receive (.ok ((Packet.new 0 [1]).toBytes .little))),
    (.left,.receive (.ok ((Packet.new 0 [2]).toBytes .little)))]

theorem falseAckFree_run_iff_answered :
    ∃ l, run .little 0 answered = some l ∧ Bounded l ∧ (l .left).acked = [0] ∧
      (Runs.Along (step .little) (FalseAckFree .little) (new 0) answered ↔
        Runs.Along (step .little) (AckPassed .little) (new 0) answered) :=
  ⟨_,rfl,by decide,by decide,falseAckFree_run_iff .little 0 answered _ rfl (by decide)⟩

theorem crossing_false_ack :
    ∃ l, run .little 0 crossing = some l ∧ Bounded l ∧ (l .left).acked = [0] ∧
      (l .right).processed = [] ∧
      ¬ Runs.Along (step .little) (FalseAckFree .little) (new 0) crossing :=
  ⟨_,rfl,by decide,by decide,by decide,by decide⟩

end Link
end ReliableUdp
end UProtocols
