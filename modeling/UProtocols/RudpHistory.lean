import UProtocols.Rudp

/-!
# What the C context retransmits and delivers

Two histories over the C functions. `Sender` records what `rudp_send` and
`rudp_retransmit` put on the wire. `Receiver` records what `rudp_recv` returned.
A slot counts as pending when `acked == 0`, which `calloc` also gives to slots never
written, and the receive path fills `recv_buffer` without ever reading it.
-/

namespace UProtocols
namespace Rudp

/-! ### Retransmission -/

/-- A context with the datagrams of its successful sends and of its retransmissions. -/
structure Sender where
  ctx : Ctx
  sent : List Datagram
  resent : List Datagram

inductive Call
  | send (data : List UInt8) (now : UInt64) (sendto : Bool)
  | recv (recvfrom : RecvFrom) (maxLen : ℕ)
  | retransmit (now : UInt64)

namespace Sender

def init : Sender := ⟨rudpInit,[],[]⟩

def step (h : Sender) : Call → Option Sender
  | .send data now sendto =>
    let r := rudpSend h.ctx data now sendto
    some { h with ctx := r.2.1, sent := h.sent ++ r.2.2 }
  | .recv recvfrom maxLen =>
    (rudpRecv h.ctx recvfrom maxLen).map fun r => { h with ctx := r.ctx }
  | .retransmit now =>
    let r := rudpRetransmit h.ctx now
    some { h with ctx := r.1, resent := h.resent ++ r.2 }

end Sender

/-- Some datagram of `sent` is `d` up to the time stamp. -/
def Copies (sent : List Datagram) (d : Datagram) : Prop :=
  ∃ d₀ ∈ sent, d = { d₀ with timestamp := d.timestamp }

theorem Copies.mono {sent sent' : List Datagram} {d : Datagram} (h : Copies sent d)
    (hs : sent ⊆ sent') : Copies sent' d := by
  obtain ⟨d₀,hd,heq⟩ := h
  exact ⟨d₀,hs hd,heq⟩

theorem Copies.retime {sent : List Datagram} {d : Datagram} (h : Copies sent d) (t : UInt64) :
    Copies sent { d with timestamp := t } := by
  obtain ⟨d₀,hd,heq⟩ := h
  exact ⟨d₀,hd,by rw [heq]⟩

theorem copies_of_mem {sent : List Datagram} {d : Datagram} (h : d ∈ sent) : Copies sent d :=
  ⟨d,h,rfl⟩

/-- The slot is sent again by a `rudp_retransmit` at `now`. -/
def resends (ctx : Ctx) (now : UInt64) (i : Fin windowSize) : Bool :=
  timedOut ctx now i && decide ((ctx.sendWindow i).retries < maxRetries)

/-- No send fails while its slot is flagged pending, and no slot other than slot 0 is resent
while its packet still has the sequence number 0 of unwritten memory. -/
def Clean (ctx : Ctx) : Call → Prop
  | .send data _ sendto =>
    data.length ≤ maxPacketSize → windowFull ctx = false → sendto = false →
      (ctx.sendWindow (slotOf ctx.sendSeq)).acked = true
  | .recv _ _ => True
  | .retransmit now => ∀ i, resends ctx now i = true → (ctx.sendWindow i).packet.seq = 0 → i = 0

instance (ctx : Ctx) (c : Call) : Decidable (Clean ctx c) :=
  match c with
  | .send _ _ _ => inferInstanceAs (Decidable (_ → _ → _ → _))
  | .recv _ _ => isTrue trivial
  | .retransmit _ => inferInstanceAs (Decidable (∀ _, _ → _ → _))

/-- A pending slot holds a packet that was sent, or was never written. -/
def SlotInv (sent : List Datagram) (ctx : Ctx) (i : Fin windowSize) : Prop :=
  (ctx.sendWindow i).acked = false →
    Copies sent ((ctx.sendWindow i).packet.datagram (ctx.sendWindow i).packet.dataLen.toNat) ∨
    ((ctx.sendWindow i).packet.seq = 0 ∧ (i = 0 → ctx.sendSeq = 0))

/-- A slot that is resent and clean was sent before. -/
theorem SlotInv.copies {sent : List Datagram} {ctx : Ctx} {now : UInt64} {i : Fin windowSize}
    (h : SlotInv sent ctx i) (hclean : Clean ctx (.retransmit now))
    (hr : resends ctx now i = true) :
    Copies sent ((ctx.sendWindow i).packet.datagram (ctx.sendWindow i).packet.dataLen.toNat) := by
  simp only [resends,timedOut,Bool.and_eq_true,Bool.not_eq_true',decide_eq_true_eq] at hr
  rcases h hr.1.1.1 with hc | ⟨hseq,hzero⟩
  · exact hc
  · have hi : i = 0 := hclean i (by simp [resends,timedOut,hr]) hseq
    have hlt := hr.1.1.2
    rw [hzero hi,hseq] at hlt
    exact absurd hlt (UInt32.lt_irrefl 0)

/-- The loop invariant of `rudp_retransmit`. -/
structure Resending (sent : List Datagram) (now : UInt64) (s : Ctx × List Datagram) : Prop where
  slots : ∀ i, SlotInv sent s.1 i
  clean : Clean s.1 (.retransmit now)
  copies : ∀ d ∈ s.2, Copies sent d

theorem Resending.slot {sent : List Datagram} {now : UInt64} {s : Ctx × List Datagram}
    (h : Resending sent now s) (i : Fin windowSize) :
    Resending sent now (retransmitSlot now s i) := by
  unfold retransmitSlot
  dsimp only
  split_ifs with htime hmax
  · refine ⟨fun j => ?_,fun j => ?_,h.copies⟩
    · by_cases hj : j = i
      · subst hj
        simp [SlotInv]
      · simpa [SlotInv,hj] using h.slots j
    · by_cases hj : j = i
      · subst hj
        simp [resends,timedOut]
      · simpa [resends,timedOut,hj] using h.clean j
  · have hr : resends s.1 now i = true := by
      simp only [resends,htime,Bool.true_and,decide_eq_true_eq]
      omega
    have hcopy := ((h.slots i).copies h.clean hr).retime now
    refine ⟨fun j => ?_,fun j => ?_,fun d hd => ?_⟩
    · by_cases hj : j = i
      · subst hj
        intro _
        simp only [Function.update_self]
        exact Or.inl hcopy
      · simpa [SlotInv,hj] using h.slots j
    · by_cases hj : j = i
      · -- the slot was just sent, so it is no longer timed out
        subst hj
        simp [resends,timedOut,timeoutMs]
      · simpa [resends,timedOut,hj] using h.clean j
    · rcases List.mem_append.mp hd with hd | hd
      · exact h.copies d hd
      · rw [List.mem_singleton.mp hd]
        exact hcopy
  · exact h

theorem rudpSend_cases (ctx : Ctx) (data : List UInt8) (now : UInt64) (sendto : Bool) :
    (∃ ret, rudpSend ctx data now sendto = (ret,ctx,[])) ∨
    (data.length ≤ maxPacketSize ∧ windowFull ctx = false ∧
      ((sendto = false ∧ rudpSend ctx data now sendto = (-1,{ ctx with
          sendSeq := ctx.sendSeq + 1
          sendWindow := Function.update ctx.sendWindow (slotOf ctx.sendSeq)
            { ctx.sendWindow (slotOf ctx.sendSeq) with packet := nextPacket ctx data now } },[])) ∨
        (sendto = true ∧ rudpSend ctx data now sendto = (0,{ ctx with
          sendSeq := ctx.sendSeq + 1
          sendWindow := Function.update ctx.sendWindow (slotOf ctx.sendSeq)
            ⟨nextPacket ctx data now,now,0,false⟩ },[(nextPacket ctx data now).datagram data.length])))) := by
  unfold rudpSend
  split_ifs with hlen hfull hok
  · exact Or.inl ⟨_,rfl⟩
  · exact Or.inl ⟨_,rfl⟩
  · refine Or.inr ⟨by omega,by simpa using hfull,Or.inr ⟨hok,?_⟩⟩
    simp [nextPacket]
  · exact Or.inr ⟨by omega,by simpa using hfull,Or.inl ⟨by simpa using hok,rfl⟩⟩

@[simp] theorem rudpProcessAck_sendSeq (ctx : Ctx) (pkt : Packet) :
    (rudpProcessAck ctx pkt).sendSeq = ctx.sendSeq := rfl

theorem rudpProcessAck_slots {sent : List Datagram} {ctx : Ctx} (pkt : Packet)
    (h : ∀ i, SlotInv sent ctx i) (i : Fin windowSize) : SlotInv sent (rudpProcessAck ctx pkt) i := by
  intro hun
  cases hold : (ctx.sendWindow i).acked with
  | true => simp [rudpProcessAck,hold] at hun
  | false =>
    by_cases hack : acknowledges pkt (ctx.sendWindow i).packet.seq = true
    · simp [rudpProcessAck,hold,hack] at hun
    · simpa [rudpProcessAck,hold,hack] using h i hold

/-- Receiving touches the send side only through `rudp_process_ack`. -/
theorem rudpRecv_sendSide {ctx : Ctx} {recvfrom : RecvFrom} {maxLen : ℕ} {r : Received}
    (h : rudpRecv ctx recvfrom maxLen = some r) :
    r.ctx.sendSeq = ctx.sendSeq ∧ (r.ctx.sendWindow = ctx.sendWindow ∨
      ∃ pkt, r.ctx.sendWindow = (rudpProcessAck ctx pkt).sendWindow) := by
  cases recvfrom with
  | wouldBlock =>
    cases h
    exact ⟨rfl,Or.inl rfl⟩
  | error =>
    cases h
    exact ⟨rfl,Or.inl rfl⟩
  | packet pkt =>
    simp only [rudpRecv] at h
    split_ifs at h <;> cases h <;> exact ⟨rfl,Or.inr ⟨pkt,rfl⟩⟩

namespace Sender

structure Inv (h : Sender) : Prop where
  slots : ∀ i, SlotInv h.sent h.ctx i
  copies : ∀ d ∈ h.resent, Copies h.sent d

theorem inv_init : Inv init := by
  refine ⟨fun i _ => Or.inr ⟨rfl,fun _ => rfl⟩,?_⟩
  simp [init]

/-- The slot that `rudp_send` writes; every other slot keeps its packet. -/
theorem slotInv_written {sent sent' : List Datagram} {ctx ctx' : Ctx} {entry : PendingPacket}
    (h : ∀ i, SlotInv sent ctx i) (hsent : sent ⊆ sent')
    (hwindow : ctx'.sendWindow = Function.update ctx.sendWindow (slotOf ctx.sendSeq) entry)
    (hentry : entry.acked = false →
      Copies sent' (entry.packet.datagram entry.packet.dataLen.toNat)) (i : Fin windowSize) :
    SlotInv sent' ctx' i := by
  by_cases hi : i = slotOf ctx.sendSeq
  · subst hi
    intro hun
    rw [hwindow,Function.update_self] at hun ⊢
    exact Or.inl (hentry hun)
  · intro hun
    rw [hwindow,Function.update_of_ne hi] at hun ⊢
    rcases h i hun with hc | ⟨hseq,hzero⟩
    · exact Or.inl (hc.mono hsent)
    · refine Or.inr ⟨hseq,fun h0 => ?_⟩
      -- an unwritten slot 0 is the very slot that the first send writes
      subst h0
      rw [hzero rfl] at hi
      exact absurd rfl hi

theorem Inv.step {h h' : Sender} {c : Call} (hinv : Inv h) (hs : step h c = some h')
    (hclean : Clean h.ctx c) : Inv h' := by
  cases c with
  | send data now sendto =>
    cases hs
    rcases rudpSend_cases h.ctx data now sendto with
      ⟨ret,heq⟩ | ⟨hlen,hfull,⟨hfail,heq⟩ | ⟨-,heq⟩⟩ <;> simp only [heq]
    · simpa using hinv
    · rw [List.append_nil]
      refine ⟨slotInv_written hinv.slots (List.Subset.refl _) rfl fun hun => ?_,hinv.copies⟩
      rw [hclean hlen hfull hfail] at hun
      cases hun
    · have hsub : h.sent ⊆ h.sent ++ [(nextPacket h.ctx data now).datagram data.length] :=
        List.subset_append_left _ _
      refine ⟨slotInv_written hinv.slots hsub rfl fun _ => copies_of_mem ?_,
        fun d hd => (hinv.copies d hd).mono hsub⟩
      have hdata : (nextPacket h.ctx data now).dataLen.toNat = data.length := by
        have : data.length ≤ 1400 := hlen
        simp [nextPacket]
        omega
      simp [hdata]
  | recv recvfrom maxLen =>
    obtain ⟨r,hr,rfl⟩ := Option.map_eq_some_iff.mp hs
    obtain ⟨hseq,hwindow | ⟨pkt,hwindow⟩⟩ := rudpRecv_sendSide hr
    · refine ⟨fun i => ?_,hinv.copies⟩
      simpa only [SlotInv,hwindow,hseq] using hinv.slots i
    · refine ⟨fun i => ?_,hinv.copies⟩
      simpa only [SlotInv,hwindow,hseq,rudpProcessAck_sendSeq] using
        rudpProcessAck_slots pkt hinv.slots i
  | retransmit now =>
    have hstart : Resending h.sent now (h.ctx,[]) := ⟨hinv.slots,hclean,by simp⟩
    have hloop : Resending h.sent now (rudpRetransmit h.ctx now) :=
      List.foldlRecOn _ _ hstart fun _ hr i _ => hr.slot i
    simp only [Sender.step,Option.some.injEq] at hs
    generalize rudpRetransmit h.ctx now = r at hloop hs
    subst hs
    refine ⟨hloop.slots,fun d hd => ?_⟩
    rcases List.mem_append.mp hd with hd | hd
    · exact hinv.copies d hd
    · exact hloop.copies d hd

/-- In a clean run, every datagram that `rudp_retransmit` sends is, up to its time stamp, one
that a successful `rudp_send` sent before. -/
theorem resent_copies (calls : List Call) (h : Sender)
    (hrun : Runs.exec step init calls = some h)
    (hclean : Runs.Along step (fun h c => Clean h.ctx c) init calls) :
    ∀ d ∈ h.resent, ∃ d₀ ∈ h.sent, d = { d₀ with timestamp := d.timestamp } := by
  have hinv := Runs.exec_invariant_of_along (fun _ _ _ hs hc hi => Inv.step hi hs hc)
    hrun hclean inv_init
  exact hinv.copies

/-- Thirty-two sends write every slot, and all of them time out. -/
def fullWindow : List Call :=
  (List.range 32).map (fun k => .send [UInt8.ofNat k] 1000 true) ++ [.retransmit 1200]

theorem resent_copies_fullWindow :
    ∃ h, Runs.exec step init fullWindow = some h ∧ h.resent.length = 32 ∧
      Runs.Along step (fun h c => Clean h.ctx c) init fullWindow ∧
      ∀ d ∈ h.resent, ∃ d₀ ∈ h.sent, d = { d₀ with timestamp := d.timestamp } := by
  refine ⟨_,rfl,?_,?_,resent_copies fullWindow _ rfl ?_⟩
  · decide +kernel
  · decide +kernel
  · decide +kernel

/-- One send, then a retransmission half a second later. -/
def firstRetransmit : List Call := [.send [65] 1000 true,.retransmit 1500]

/-- The 31 slots never written are sent as empty packets with sequence number 0. -/
theorem firstRetransmit_unsent :
    ∃ h, Runs.exec step init firstRetransmit = some h ∧
      ⟨0,0,0,1500,0,0,[0,0,0,0,0]⟩ ∈ h.resent ∧
      ¬ ∀ d ∈ h.resent, ∃ d₀ ∈ h.sent, d = { d₀ with timestamp := d.timestamp } := by
  refine ⟨_,rfl,?_,?_⟩
  · decide +kernel
  · decide +kernel

end Sender

/-! ### Delivery -/

/-- A context with the payloads returned so far, each under `recv_seq` at its call. -/
structure Receiver where
  ctx : Ctx
  returned : List (UInt32 × List UInt8)

/-- `rudp_recv` puts the packet into `recv_buffer` and sets its bit. -/
def Stores (ctx : Ctx) (pkt : Packet) : Prop :=
  pkt.dataLen > 0 ∧ pkt.seq - ctx.recvSeq ≠ 0 ∧ pkt.seq - ctx.recvSeq < 32

instance (ctx : Ctx) (pkt : Packet) : Decidable (Stores ctx pkt) :=
  inferInstanceAs (Decidable (_ ∧ _ ∧ _))

/-- The call does not bring a packet with number `s`. -/
def Avoids (s : UInt32) : RecvFrom → Prop
  | .packet pkt => pkt.seq ≠ s
  | _ => True

instance (s : UInt32) (r : RecvFrom) : Decidable (Avoids s r) :=
  match r with
  | .packet pkt => inferInstanceAs (Decidable (pkt.seq ≠ s))
  | .wouldBlock => isTrue trivial
  | .error => isTrue trivial

namespace Receiver

def step (r : Receiver) (c : RecvFrom × ℕ) : Option Receiver :=
  (rudpRecv r.ctx c.1 c.2).map fun x =>
    ⟨x.ctx,if x.ret > 0 then r.returned ++ [(r.ctx.recvSeq,x.buffer)] else r.returned⟩

theorem sub_eq_zero_iff {a b : UInt32} : a - b = 0 ↔ a = b := by
  constructor
  · intro h
    have hadd := congrArg (· + b) h
    simpa using hadd
  · rintro rfl
    simp

/-- A call returns nothing and keeps `recv_seq`, or it returns the packet that arrives with
it, under the number that was due. -/
theorem step_cases {r r' : Receiver} {c : RecvFrom × ℕ} (h : step r c = some r') :
    (r'.ctx.recvSeq = r.ctx.recvSeq ∧ r'.returned = r.returned) ∨
    (∃ pkt, c.1 = .packet pkt ∧ pkt.seq = r.ctx.recvSeq ∧
      r'.ctx.recvSeq = r.ctx.recvSeq + 1 ∧
      r'.returned = r.returned ++ [(r.ctx.recvSeq,payload pkt)]) := by
  obtain ⟨recvfrom,maxLen⟩ := c
  obtain ⟨x,hx,rfl⟩ := Option.map_eq_some_iff.mp h
  cases recvfrom with
  | wouldBlock =>
    cases hx
    exact Or.inl ⟨rfl,rfl⟩
  | error =>
    cases hx
    exact Or.inl ⟨rfl,rfl⟩
  | packet pkt =>
    simp only [rudpRecv] at hx
    split_ifs at hx with hlen hzero <;> cases hx
    · have hpos : 0 < pkt.dataLen.toNat := by
        simpa using UInt16.lt_iff_toNat_lt.mp hlen
      refine Or.inr ⟨pkt,rfl,sub_eq_zero_iff.mp hzero,rfl,?_⟩
      simp [hpos]
    · exact Or.inl ⟨rfl,rfl⟩
    · exact Or.inl ⟨rfl,rfl⟩
    · exact Or.inl ⟨rfl,rfl⟩

/-- Without another arrival of `s`, nothing is returned under `s`. -/
theorem not_returned_step {s : UInt32} {r r' : Receiver} {c : RecvFrom × ℕ}
    (h : step r c = some r') (hc : Avoids s c.1)
    (hr : ∀ data, (s,data) ∉ r.returned) : ∀ data, (s,data) ∉ r'.returned := by
  rcases step_cases h with ⟨-,hret⟩ | ⟨pkt,hpkt,hseq,-,hret⟩
  · rw [hret]
    exact hr
  · intro data hmem
    rw [hret,List.mem_append,List.mem_singleton] at hmem
    rcases hmem with hmem | hmem
    · exact hr data hmem
    · rw [hpkt] at hc
      exact hc (hseq.trans (congrArg Prod.fst hmem).symm)

/-- Once `s` is due, the receiver waits for `s` itself. -/
theorem stuck_step {s : UInt32} {r r' : Receiver} {c : RecvFrom × ℕ}
    (h : step r c = some r') (hc : Avoids s c.1) (hr : r.ctx.recvSeq = s) :
    r'.ctx.recvSeq = s ∧ r'.returned = r.returned := by
  rcases step_cases h with ⟨hseq,hret⟩ | ⟨pkt,hpkt,hseq,-,-⟩
  · exact ⟨hseq.trans hr,hret⟩
  · rw [hpkt] at hc
    exact absurd (hseq.trans hr) hc

theorem stuck_run {s : UInt32} {r r' : Receiver} {calls : List (RecvFrom × ℕ)}
    (h : Runs.exec step r calls = some r') (hc : ∀ c ∈ calls, Avoids s c.1)
    (hr : r.ctx.recvSeq = s) : r'.ctx.recvSeq = s ∧ r'.returned = r.returned := by
  refine Runs.exec_invariant_of_forall_mem
    (I := fun u => u.ctx.recvSeq = s ∧ u.returned = r.returned) ?_ h hc ⟨hr,rfl⟩
  intro u c v huv havoids hu
  obtain ⟨hseq,hret⟩ := stuck_step huv havoids hu.1
  exact ⟨hseq,hret.trans hu.2⟩

theorem not_returned_run {s : UInt32} {r r' : Receiver} {calls : List (RecvFrom × ℕ)}
    (h : Runs.exec step r calls = some r') (hc : ∀ c ∈ calls, Avoids s c.1)
    (hr : ∀ data, (s,data) ∉ r.returned) : ∀ data, (s,data) ∉ r'.returned := by
  refine Runs.exec_invariant_of_forall_mem
    (I := fun u => ∀ data, (s,data) ∉ u.returned) ?_ h hc hr
  intro u c v huv havoids hu
  exact not_returned_step huv havoids hu

/-- A stored packet is lost in every run: when `recv_seq` has come to its number without
another arrival of it, its payload has not been returned, and no further call that does not
bring it again returns anything. -/
theorem stored_never_returned (ctx : Ctx) (pkt : Packet) (maxLen : ℕ)
    (calls later : List (RecvFrom × ℕ)) (r r' : Receiver) (hstore : Stores ctx pkt)
    (hrun : Runs.exec step ⟨ctx,[]⟩ ((.packet pkt,maxLen) :: calls) = some r)
    (hreach : r.ctx.recvSeq = pkt.seq) (hlater : Runs.exec step r later = some r')
    (hcalls : ∀ c ∈ calls, Avoids pkt.seq c.1) (havoid : ∀ c ∈ later, Avoids pkt.seq c.1) :
    (∀ data, (pkt.seq,data) ∉ r.returned) ∧ r'.ctx.recvSeq = pkt.seq ∧
      r'.returned = r.returned := by
  obtain ⟨u,hu,hrest⟩ := Runs.exec_cons.mp hrun
  have hnone : u.returned = [] := by
    rcases step_cases hu with ⟨-,hret⟩ | ⟨q,hq,hseq,-,-⟩
    · exact hret
    · cases hq
      exact absurd (sub_eq_zero_iff.mpr hseq) hstore.2.1
  have hmissing := not_returned_run hrest hcalls (by simp [hnone])
  exact ⟨hmissing,stuck_run hlater havoid hreach⟩

/-- A one-byte packet as a peer with nothing received would send it. -/
def bytePacket (seq : UInt32) (byte : UInt8) : Packet :=
  ⟨seq,0,0,0,1,0,fun i => if i = 0 then byte else 0⟩

def arrive (seq : UInt32) (byte : UInt8) : RecvFrom × ℕ := (.packet (bytePacket seq byte),1400)

/-- Packet 1 overtakes packet 0; afterwards packet 2 arrives. -/
theorem stored_never_returned_overtaken :
    ∃ r r', Runs.exec step ⟨rudpInit,[]⟩ [arrive 1 66,arrive 0 65] = some r ∧
      r.ctx.recvSeq = 1 ∧ Runs.exec step r [arrive 2 67] = some r' ∧
      (∀ data, (1,data) ∉ r.returned) ∧ r'.ctx.recvSeq = 1 ∧ r'.returned = r.returned :=
  ⟨_,_,rfl,rfl,rfl,stored_never_returned rudpInit (bytePacket 1 66) 1400 [arrive 0 65]
    [arrive 2 67] _ _ (by decide) rfl rfl rfl (by decide) (by decide)⟩

/-- The payload stored with packet 1 is never handed to the caller. -/
theorem overtaken_payload_lost :
    ∃ r, Runs.exec step ⟨rudpInit,[]⟩ [arrive 1 66,arrive 0 65,arrive 2 67] = some r ∧
      r.ctx.recvSeq = 1 ∧ r.ctx.recvLengths 1 = 1 ∧ r.ctx.recvBuffer 1 0 = 66 ∧
      r.returned = [(0,[65])] :=
  ⟨_,rfl,by decide,by decide,by decide,by decide⟩

end Receiver
end Rudp
end UProtocols
