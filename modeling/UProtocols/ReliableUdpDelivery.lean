import UProtocols.ReliableUdpLink

/-!
# Delivery over a link

Each direction of a link refines an ordered channel: a call puts at most one message
in, hands out at most one, or leaves the channel alone. The order of the returned
payloads follows from the channel. That nothing is skipped does not: the drain loop
of `process_received_packet` passes buffered packets without returning them.
-/

namespace UProtocols
namespace ReliableUdp
namespace Link

/-- The channel into `side`. -/
def channel (l : Link) (side : Side) : Channel (List UInt8) where
  sent := (l side.peer).taken.map Prod.snd
  next := (l side).udp.recvSequence.toNat
  delivered := (l side).returned.map fun a => a.1.toNat

/-- The caller's own channel stutters or delivers. -/
theorem channel_caller {o : ByteOrder} {l : Link} {side : Side} {c : Call}
    (hin : Inbound (l side.peer).taken ((l side).call o c))
    (hprog : Progress (l side) ((l side).call o c)) :
    Relation.ReflGen Channel.Step (channel l side)
      (channel (Function.update l side ((l side).call o c)) side) := by
  have hle := hin.recv.le_taken
  rcases hprog with ⟨hseq,hret⟩ | ⟨hlt,data,hret⟩
  · have heq : channel (Function.update l side ((l side).call o c)) side = channel l side := by
      simp [channel,hseq,hret]
    rw [heq]
  · have heq : channel (Function.update l side ((l side).call o c)) side =
        { channel l side with
          next := ((l side).call o c).udp.recvSequence.toNat
          delivered := (channel l side).delivered ++ [(channel l side).next] } := by
      simp [channel,hret]
    rw [heq]
    exact .single (.deliver _ _ hlt (by simpa [channel] using hle))

/-- The channel into the peer stutters or takes one more message. -/
theorem channel_peer (o : ByteOrder) (l : Link) (side : Side) (c : Call) :
    Relation.ReflGen Channel.Step (channel l side.peer)
      (channel (Function.update l side ((l side).call o c)) side.peer) := by
  rcases Endpoint.taken_cases o (l side) c with h | ⟨a,h⟩
  · have heq : channel (Function.update l side ((l side).call o c)) side.peer =
        channel l side.peer := by
      simp [channel,h]
    rw [heq]
  · have heq : channel (Function.update l side ((l side).call o c)) side.peer =
        { channel l side.peer with sent := (channel l side.peer).sent ++ [a.2] } := by
      simp [channel,h]
    rw [heq]
    exact .single (.put _ _)

/-- Every step of the link is at most one step of each channel. -/
theorem step_refines {o : ByteOrder} {l l' : Link} {e : Side × Call} (h : Joint o l)
    (hstep : step o l e = some l') (hb : Bounded l') (side : Side) :
    Relation.ReflGen Channel.Step (channel l side) (channel l' side) := by
  have hbl := bounded_of_step o l e l' hstep hb
  obtain ⟨hc,rfl⟩ := step_eq hstep
  obtain ⟨t,c⟩ := e
  obtain ⟨hin,hprog⟩ := h.call hbl hc
  rcases side.eq_or_eq_peer t with rfl | rfl
  · exact channel_caller hin hprog
  · exact channel_peer o l t c

/-- Every reachable link has ordered channels. -/
theorem ordered_run {o : ByteOrder} {now : ℕ} {events : List (Side × Call)} {l : Link}
    (h : run o now events = some l) (hb : Bounded l) (side : Side) :
    (channel l side).Ordered := by
  have hinv := Runs.exec_invariant_along (bounded_of_step o)
    (I := fun l => Joint o l ∧ ∀ side, (channel l side).Ordered)
    (fun l e l' hstep hbt _ hs => ⟨hs.1.step hstep hbt,fun side =>
      (hs.2 side).reflGen (step_refines hs.1 hstep hbt side)⟩) h hb
    (Runs.along_of_forall (fun _ _ => trivial) _ _)
    ⟨joint_new o now,fun _ => Channel.ordered_empty⟩
  exact hinv.2 side

theorem taken_of_returned {o : ByteOrder} {l : Link} (h : Joint o l) (side : Side)
    {a : UInt32 × List UInt8} (ha : a ∈ (l side).returned) :
    (l side.peer).taken[a.1.toNat]? = some a :=
  (h.send side.peer).numbered.getElem?_toNat ((h.inbound side).returned a ha)

/-- The payloads returned are, in order, the payloads that the peer's `send` put under
strictly increasing sequence numbers. -/
theorem returned_in_order (o : ByteOrder) (now : ℕ) (events : List (Side × Call)) (l : Link)
    (h : run o now events = some l) (hb : Bounded l) (side : Side) :
    ∃ numbers : List UInt32, numbers.Pairwise (· < ·) ∧
      List.Forall₂ (fun s data => (l side.peer).taken[s.toNat]? = some (s,data)) numbers
        ((l side).returned.map Prod.snd) := by
  refine ⟨(l side).returned.map Prod.fst,?_,?_⟩
  · have hsorted := (ordered_run h hb side).increasing
    simp only [channel,List.pairwise_map] at hsorted ⊢
    exact hsorted.imp fun hlt => UInt32.lt_iff_toNat_lt.mpr hlt
  · rw [List.forall₂_map_left_iff,List.forall₂_map_right_iff,List.forall₂_same]
    exact fun a ha => taken_of_returned (joint_run h hb) side ha

theorem outputs_channel {o : ByteOrder} {l : Link} (h : Joint o l) (side : Side) :
    (channel l side).outputs = (l side).returned.map Prod.snd := by
  rw [Channel.outputs]
  simp only [channel,List.filterMap_map]
  rw [← List.filterMap_eq_map]
  apply List.filterMap_congr
  intro a ha
  simp [taken_of_returned h side ha]

/-- The call does not drain: an in-order data packet arrives only while the number after
it is not in `recv_buffer`. -/
def NoDrain (o : ByteOrder) (l : Link) (e : Side × Call) : Prop :=
  ∀ p ∈ arriving o e.2, p.data ≠ [] → p.header.sequence = (l e.1).udp.recvSequence →
    (l e.1).udp.recvBuffer.lookup ((l e.1).udp.recvSequence + 1) = none

instance (o : ByteOrder) (l : Link) (e : Side × Call) : Decidable (NoDrain o l e) :=
  inferInstanceAs (Decidable (∀ p ∈ arriving o e.2, _))

/-- Without draining, a call passes at most one number. -/
theorem NoDrain.recvSequence_le {o : ByteOrder} {l : Link} {side : Side} {c : Call}
    (h : Joint o l) (hc : l.Deliverable side c) (hnd : NoDrain o l (side,c)) :
    ((l side).call o c).udp.recvSequence.toNat ≤ (l side).udp.recvSequence.toNat + 1 := by
  cases c with
  | send data ts now sendTo =>
    rcases Endpoint.call_send_cases o (l side) data ts now sendTo with
      heq | ⟨-,-,⟨err,-,heq⟩ | ⟨-,stats,heq⟩⟩ <;> rw [heq] <;> exact Nat.le_succ _
  | receive recvFrom =>
    cases recvFrom with
    | error err => simp [Endpoint.call,receive_error]
    | ok datagram =>
      obtain ⟨p,rfl,hp⟩ := (h.send side.peer).wire datagram hc
      rcases call_receive_cases o (l side) (p.toBytes o) p (hp.parse o) with
        ⟨hseq,-⟩ | ⟨hd,heq,hseq,-⟩ | ⟨-,-,hseq,-⟩
      · rw [hseq]
        exact Nat.le_succ _
      · have hnone := hnd p (mem_arriving.mpr ⟨_,rfl,hp.parse o⟩) hd heq
        rw [hseq,drained,drainBuffered_none hnone,UInt32.toNat_add]
        exact Nat.mod_le _ _
      · rw [hseq]
        exact Nat.le_succ _
  | processRetransmissions now ts sendTo =>
    have hspec := processRetransmissions_spec o (l side).udp now ts sendTo
    simp only [Endpoint.call,hspec.recvSequence]
    exact Nat.le_succ _

theorem gapFree_step {o : ByteOrder} {l l' : Link} {e : Side × Call} (h : Joint o l)
    (hstep : step o l e = some l') (hb : Bounded l') (hnd : NoDrain o l e) {side : Side}
    (hgap : (channel l side).GapFree) : (channel l' side).GapFree := by
  have hbl := bounded_of_step o l e l' hstep hb
  obtain ⟨t,c⟩ := e
  have hc : l.Deliverable t c := (step_eq hstep).1
  rw [(step_eq hstep).2]
  rcases side.eq_or_eq_peer t with rfl | rfl
  · have hle := NoDrain.recvSequence_le h hc hnd
    rcases (h.call hbl hc).2 with ⟨hseq,hret⟩ | ⟨hlt,data,hret⟩
    · simpa [Channel.GapFree,channel,hseq,hret] using hgap
    · have hnext : ((l side).call o c).udp.recvSequence.toNat =
          (l side).udp.recvSequence.toNat + 1 := by omega
      have hsucc := hgap.deliver_next
      simpa [Channel.GapFree,channel,hret,hnext] using hsucc
  · simpa [Channel.GapFree,channel] using hgap

/-- In a run that never drains, the payloads returned are a prefix of the payloads
accepted, as long as every number taken was transmitted. -/
theorem returned_prefix_accepted (o : ByteOrder) (now : ℕ) (events : List (Side × Call))
    (l : Link) (h : run o now events = some l) (hb : Bounded l)
    (hsent : ∀ side, (l side).accepted = (l side).taken)
    (hnd : Runs.Along (step o) (NoDrain o) (new now) events) (side : Side) :
    (l side).returned.map Prod.snd <+: (l side.peer).accepted.map Prod.snd := by
  have hinv := Runs.exec_invariant_along (bounded_of_step o)
    (I := fun l => Joint o l ∧ ∀ side, (channel l side).GapFree)
    (fun l e l' hstep hbt hnd hs => ⟨hs.1.step hstep hbt,fun side =>
      gapFree_step hs.1 hstep hbt hnd (hs.2 side)⟩) h hb hnd
    ⟨joint_new o now,fun _ => rfl⟩
  have hprefix := (hinv.2 side).outputs_isPrefix
  rw [outputs_channel hinv.1] at hprefix
  rw [hsent side.peer]
  exact hprefix

/-- The datagram of a first transmission, at time stamp zero and before anything was received. -/
def firstDatagram (sequence : UInt32) (data : List UInt8) : List UInt8 :=
  (Packet.new sequence data).toBytes .little

/-- Three packets; the second overtakes the first and is drained with it. -/
def overtaking : List (Side × Call) :=
  [(.left,.send [1] 0 0 (.ok ())),(.left,.send [2] 0 0 (.ok ())),(.left,.send [3] 0 0 (.ok ())),
    (.right,.receive (.ok (firstDatagram 1 [2]))),(.right,.receive (.ok (firstDatagram 0 [1]))),
    (.right,.receive (.ok (firstDatagram 2 [3])))]

/-- The same three packets in order. -/
def inOrder : List (Side × Call) :=
  [(.left,.send [1] 0 0 (.ok ())),(.left,.send [2] 0 0 (.ok ())),
    (.right,.receive (.ok (firstDatagram 0 [1]))),(.right,.receive (.ok (firstDatagram 1 [2])))]

theorem returned_in_order_inOrder :
    ∃ l, run .little 0 inOrder = some l ∧ Bounded l ∧
      ∃ numbers : List UInt32, numbers.Pairwise (· < ·) ∧
        List.Forall₂ (fun s data => (l .left).taken[s.toNat]? = some (s,data)) numbers
          ((l .right).returned.map Prod.snd) :=
  ⟨_,rfl,by decide,returned_in_order .little 0 inOrder _ rfl (by decide) .right⟩

theorem returned_prefix_accepted_inOrder :
    ∃ l, run .little 0 inOrder = some l ∧ Bounded l ∧
      Runs.Along (step .little) (NoDrain .little) (new 0) inOrder ∧
      (l .right).returned.map Prod.snd <+: (l .left).accepted.map Prod.snd :=
  ⟨_,rfl,by decide,by decide,
    returned_prefix_accepted .little 0 inOrder _ rfl (by decide) (Side.forall_iff.mpr ⟨rfl,rfl⟩)
      (by decide) .right⟩

theorem overtaking_skips :
    ∃ l, run .little 0 overtaking = some l ∧
      (∀ side, (l side).accepted = (l side).taken ∧ (l side).dropped = []) ∧
      (l .left).accepted.map Prod.snd = [[1],[2],[3]] ∧
      (l .right).returned.map Prod.snd = [[1],[3]] ∧
      ¬ (l .right).returned.map Prod.snd <+: (l .left).accepted.map Prod.snd := by
  refine ⟨_,rfl,Side.forall_iff.mpr ⟨⟨rfl,rfl⟩,rfl,rfl⟩,?_⟩
  decide

end Link
end ReliableUdp
end UProtocols
