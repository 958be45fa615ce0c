import UProtocols.RudpHistory

/-!
# Two C contexts and the network between them

Both ends call `rudp_send`, `rudp_recv` and `rudp_retransmit` in any order. The network may lose,
repeat, delay and reorder datagrams: a call of `rudp_recv` gets any datagram that the other end has
ever put on the wire. A `rudp_send` that gets past its two tests numbers its payload, also when
`sendto` fails. Calls of `rudp_recv` that receive nothing change nothing and are left out.
-/

namespace UProtocols
namespace Rudp

open Function Runs

/-- One end with the payloads that it has numbered, the datagrams that it has put on the wire and
what `rudp_recv` has returned. -/
structure Side where
  ctx : Ctx
  numbered : List (List UInt8)
  wire : List Datagram
  returned : List (UInt32 × List UInt8)

abbrev Link := Bool → Side

inductive Action
  | send (data : List UInt8) (now : UInt64) (sendto : Bool)
  | recv (k : ℕ) (tail : ℕ → UInt8) (maxLen : ℕ)
  | retransmit (now : UInt64)

/-- The packet that `recvfrom` reads; the bytes behind the datagram are those of `tail`. -/
def Datagram.read (d : Datagram) (tail : ℕ → UInt8) : Packet :=
  ⟨d.seq,d.ack,d.ackBits,d.timestamp,d.dataLen,d.flags,memcpy tail d.body⟩

namespace Link

def init : Link := fun _ => ⟨rudpInit,[],[],[]⟩

/-- A call at one end; `recv` gets datagram `k` of the other end. -/
def step (l : Link) : Bool × Action → Option Link
  | (w,.send data now sendto) =>
    let r := rudpSend (l w).ctx data now sendto
    let numbers := data.length ≤ maxPacketSize ∧ windowFull (l w).ctx = false
    some (update l w {l w with
      ctx := r.2.1
      numbered := if numbers then (l w).numbered ++ [data] else (l w).numbered
      wire := (l w).wire ++ r.2.2})
  | (w,.recv k tail maxLen) =>
    ((l !w).wire[k]?).bind fun d =>
      (Receiver.step ⟨(l w).ctx,(l w).returned⟩ (.packet (d.read tail),maxLen)).map fun r =>
        update l w {l w with ctx := r.ctx, returned := r.returned}
  | (w,.retransmit now) =>
    let r := rudpRetransmit (l w).ctx now
    some (update l w {l w with ctx := r.1, wire := (l w).wire ++ r.2})

end Link

/-! ## What an end may still send -/

/-- Every packet that is not acknowledged satisfies `P`. -/
def Pending (P : Packet → Prop) (ctx : Ctx) : Prop :=
  ∀ i, (ctx.sendWindow i).acked = false → P (ctx.sendWindow i).packet

/-- The datagram carries a packet that satisfies `P`, with all of its payload. -/
def Carries (P : Packet → Prop) (d : Datagram) : Prop :=
  ∃ p, P p ∧ d = p.datagram p.dataLen.toNat

section Pending

variable {P Q : Packet → Prop} {ctx : Ctx}

theorem Carries.mono {d : Datagram} (h : Carries P d) (hPQ : ∀ p, P p → Q p) : Carries Q d := by
  obtain ⟨p,hp,hd⟩ := h
  exact ⟨p,hPQ p hp,hd⟩

theorem Pending.mono (h : Pending P ctx) (hPQ : ∀ p, P p → Q p) : Pending Q ctx :=
  fun i hi => hPQ _ (h i hi)

theorem Pending.processAck (h : Pending P ctx) (pkt : Packet) :
    Pending P (rudpProcessAck ctx pkt) := by
  intro i hi
  simp only [rudpProcessAck] at hi ⊢
  split at hi
  · simp_all
  · split at hi <;> simp_all [Pending]

theorem Pending.update {entry : PendingPacket} (h : Pending P ctx) {ctx' : Ctx} {j : Fin windowSize}
    (hentry : entry.acked = false → P entry.packet)
    (hwindow : ctx'.sendWindow = Function.update ctx.sendWindow j entry) : Pending P ctx' := by
  intro i hi
  rw [hwindow] at hi ⊢
  by_cases hij : i = j
  · subst hij
    rw [update_self] at hi ⊢
    exact hentry hi
  · rw [update_of_ne hij] at hi ⊢
    exact h i hi

/-- The loop invariant of `rudp_retransmit`: what is sent again was not acknowledged. -/
def Resent (P : Packet → Prop) (s : Ctx × List Datagram) : Prop :=
  Pending P s.1 ∧ ∀ d ∈ s.2, Carries P d

theorem Resent.slot {s : Ctx × List Datagram} (h : Resent P s)
    (htime : ∀ p t, P p → P {p with timestamp := t}) (now : UInt64) (i : Fin windowSize) :
    Resent P (retransmitSlot now s i) := by
  obtain ⟨hpending,hsent⟩ := h
  unfold retransmitSlot
  dsimp only
  split_ifs with htimed hmax
  · exact ⟨hpending.update (by simp) rfl,hsent⟩
  · have hunacked : (s.1.sendWindow i).acked = false := by
      simp only [timedOut,Bool.and_eq_true,Bool.not_eq_true'] at htimed
      exact htimed.1.1
    have hpacket := htime _ now (hpending i hunacked)
    refine ⟨hpending.update (fun _ => hpacket) rfl,?_⟩
    simp only [List.forall_mem_append,List.forall_mem_singleton]
    exact ⟨hsent,_,hpacket,rfl⟩
  · exact ⟨hpending,hsent⟩

theorem Pending.retransmit (h : Pending P ctx) (htime : ∀ p t, P p → P {p with timestamp := t})
    (now : UInt64) : Resent P (rudpRetransmit ctx now) :=
  List.foldlRecOn _ _ (show Resent P (ctx,[]) from ⟨h,by simp⟩) fun _ hs i _ => hs.slot htime now i

end Pending

/-! ## The calls -/

section Calls

variable {ctx : Ctx} {data : List UInt8}

theorem rudpSend_refuses (h : ¬ (data.length ≤ maxPacketSize ∧ windowFull ctx = false))
    (now : UInt64) (sendto : Bool) : ∃ ret, rudpSend ctx data now sendto = (ret,ctx,[]) := by
  unfold rudpSend
  split_ifs with hlen hfull hok
  · exact ⟨_,rfl⟩
  · exact ⟨_,rfl⟩
  · exact absurd ⟨Nat.le_of_not_lt hlen,by simpa using hfull⟩ h
  · exact absurd ⟨Nat.le_of_not_lt hlen,by simpa using hfull⟩ h

/-- A send that numbers its payload puts the next packet into the window, and perhaps on the wire. -/
theorem rudpSend_takes (h : data.length ≤ maxPacketSize ∧ windowFull ctx = false) (now : UInt64)
    (sendto : Bool) : ∃ ret entry ds, rudpSend ctx data now sendto = (ret,{ctx with
        sendSeq := ctx.sendSeq + 1
        sendWindow := update ctx.sendWindow (slotOf ctx.sendSeq) entry},ds) ∧
      entry.packet = nextPacket ctx data now ∧
      ∀ d ∈ ds, d = (nextPacket ctx data now).datagram data.length := by
  unfold rudpSend
  rw [if_neg (Nat.not_lt.mpr h.1),if_neg (by simp [h.2])]
  split_ifs with hok
  · exact ⟨0,⟨nextPacket ctx data now,(nextPacket ctx data now).timestamp,0,false⟩,
      [(nextPacket ctx data now).datagram data.length],by simp,rfl,by simp⟩
  · exact ⟨_,_,_,rfl,rfl,by simp⟩

theorem retransmitSlot_seqs (now : UInt64) (s : Ctx × List Datagram) (i : Fin windowSize) :
    (retransmitSlot now s i).1.sendSeq = s.1.sendSeq ∧
      (retransmitSlot now s i).1.recvSeq = s.1.recvSeq := by
  unfold retransmitSlot
  dsimp only
  split_ifs <;> exact ⟨rfl,rfl⟩

theorem rudpRetransmit_seqs (ctx : Ctx) (now : UInt64) :
    (rudpRetransmit ctx now).1.sendSeq = ctx.sendSeq ∧
      (rudpRetransmit ctx now).1.recvSeq = ctx.recvSeq := by
  have hfold : ∀ is : List (Fin windowSize), ∀ s : Ctx × List Datagram,
      (is.foldl (retransmitSlot now) s).1.sendSeq = s.1.sendSeq ∧
        (is.foldl (retransmitSlot now) s).1.recvSeq = s.1.recvSeq := by
    intro is
    induction is with
    | nil => simp
    | cons i is ih =>
      intro s
      simp [ih,retransmitSlot_seqs]
  unfold rudpRetransmit
  exact hfold (List.finRange windowSize) (ctx,[])

/-- A packet acknowledges; then it is returned, if its number is due and it has a payload, or
nothing is. -/
theorem recv_packet {r r' : Receiver} {pkt : Packet} {maxLen : ℕ}
    (h : Receiver.step r (.packet pkt,maxLen) = some r') : r'.ctx.sendSeq = r.ctx.sendSeq ∧
      r'.ctx.sendWindow = (rudpProcessAck r.ctx pkt).sendWindow ∧
      ((r'.ctx.recvSeq = r.ctx.recvSeq ∧ r'.returned = r.returned) ∨
        (pkt.dataLen > 0 ∧ pkt.seq = r.ctx.recvSeq ∧ r'.ctx.recvSeq = r.ctx.recvSeq + 1 ∧
          r'.returned = r.returned ++ [(r.ctx.recvSeq,payload pkt)])) := by
  obtain ⟨x,hx,rfl⟩ := Option.map_eq_some_iff.mp h
  simp only [rudpRecv] at hx
  split_ifs at hx with hlen hzero <;> cases hx
  · have hpos : 0 < pkt.dataLen.toNat := by simpa using UInt16.lt_iff_toNat_lt.mp hlen
    refine ⟨rfl,rfl,.inr ⟨hlen,Receiver.sub_eq_zero_iff.mp hzero,rfl,?_⟩⟩
    simp [hpos]
  · exact ⟨rfl,rfl,.inl ⟨rfl,rfl⟩⟩
  · exact ⟨rfl,rfl,.inl ⟨rfl,rfl⟩⟩
  · exact ⟨rfl,rfl,.inl ⟨rfl,rfl⟩⟩

/-- What is still unacknowledged does not have the number of the acknowledgement. -/
theorem rudpProcessAck_unacked {pkt : Packet} {i : Fin windowSize}
    (h : ((rudpProcessAck ctx pkt).sendWindow i).acked = false) :
    ((rudpProcessAck ctx pkt).sendWindow i).packet.seq ≠ pkt.ack := by
  intro heq
  cases hold : (ctx.sendWindow i).acked with
  | true => simp [rudpProcessAck,hold] at h
  | false =>
    by_cases hack : acknowledges pkt (ctx.sendWindow i).packet.seq = true
    · simp [rudpProcessAck,hold,hack] at h
    · have hseq : (ctx.sendWindow i).packet.seq = pkt.ack := by
        simpa [rudpProcessAck,hold,hack] using heq
      simp [acknowledges,hseq] at hack

end Calls

/-! ## Numbers and payloads -/

/-- The payload of the packet is the one with its number. -/
def Numbered (payloads : List (List UInt8)) (p : Packet) : Prop :=
  p.dataLen > 0 → payloads[p.seq.toNat]? = some (payload p)

theorem Numbered.append {payloads : List (List UInt8)} {p : Packet} (h : Numbered payloads p)
    (more : List (List UInt8)) : Numbered (payloads ++ more) p := by
  intro hlen
  have hget := h hlen
  have hlt := (List.getElem?_eq_some_iff.mp hget).1
  rw [List.getElem?_append_left hlt]
  exact hget

theorem dataLen_nextPacket (ctx : Ctx) {data : List UInt8} (hlen : data.length ≤ maxPacketSize)
    (now : UInt64) : (nextPacket ctx data now).dataLen.toNat = data.length := by
  have hlt : data.length ≤ 1400 := hlen
  simp only [nextPacket,UInt16.toNat_ofNat']
  omega

theorem payload_nextPacket (ctx : Ctx) {data : List UInt8} (hlen : data.length ≤ maxPacketSize)
    (now : UInt64) : payload (nextPacket ctx data now) = data := by
  rw [payload,dataLen_nextPacket ctx hlen]
  apply List.ext_getElem
  · simp
  · intro k hk hk'
    simp [nextPacket,memcpy,List.getD,hk']

theorem payload_read (p : Packet) (tail : ℕ → UInt8) :
    payload ((p.datagram p.dataLen.toNat).read tail) = payload p := by
  apply List.map_congr_left
  intro k hk
  have hlt : k < p.dataLen.toNat + 5 := by
    have := List.mem_range.mp hk
    simp only [Datagram.read,Packet.datagram] at this
    omega
  simp [Datagram.read,Packet.datagram,memcpy,List.getD,hlt]

/-- The send side of an end: the next number is that of the next payload, and what may still be sent
and what is on the wire has the payload of its number. -/
structure Side.Sends (x : Side) : Prop where
  sendSeq : x.ctx.sendSeq.toNat = x.numbered.length
  pending : Pending (Numbered x.numbered) x.ctx
  wire : ∀ d ∈ x.wire, Carries (Numbered x.numbered) d

/-- `y` has returned the first payloads of `x`. -/
structure Side.Receives (x y : Side) : Prop where
  le : y.ctx.recvSeq.toNat ≤ x.numbered.length
  returned : y.returned.map Prod.snd = x.numbered.take y.ctx.recvSeq.toNat
  nonempty : ∀ r ∈ y.returned, r.2 ≠ []

/-- Since the datagrams `old` the end has sent nothing with number `n`, and it will not. -/
structure Side.Skips (x : Side) (n : UInt32) (old : List Datagram) : Prop where
  pending : Pending (fun p => p.seq ≠ n) x.ctx
  numbered : n.toNat < x.numbered.length
  wire : ∃ more, x.wire = old ++ more ∧ ∀ d ∈ more, d.seq ≠ n

theorem Side.Receives.append {x y : Side} {payloads : List (List UInt8)} {ctx : Ctx}
    {wire : List Datagram} {returned : List (UInt32 × List UInt8)} (h : x.Receives y) :
    Side.Receives ⟨ctx,x.numbered ++ payloads,wire,returned⟩ y where
  le := by
    have := h.le
    simp only [List.length_append]
    omega
  returned := by
    rw [h.returned,List.take_append_of_le_length h.le]
  nonempty := h.nonempty

namespace Link

def Sound (l : Link) : Prop := ∀ w, (l w).Sends ∧ (l !w).Receives (l w)

/-- Neither end has used up the sequence numbers. -/
def Unwrapped (l : Link) : Prop := ∀ w, (l w).numbered.length < 2^32

variable {l l' : Link} {w : Bool} {x : Side} {events : List (Bool × Action)}

theorem sound_init : Sound init := by
  intro w
  refine ⟨⟨rfl,fun i _ => ?_,by simp [init]⟩,⟨by simp [init,rudpInit],rfl,by simp [init]⟩⟩
  simp [init,rudpInit,Numbered]

/-- One end changes. -/
theorem Sound.update (h : Sound l) (hsends : x.Sends) (hreceives : (l !w).Receives x)
    (hreceived : x.Receives (l !w)) : Sound (Function.update l w x) := by
  intro v
  by_cases hv : v = w
  · subst hv
    simpa using ⟨hsends,hreceives⟩
  · have hnot : v = !w := by cases v <;> cases w <;> simp_all
    subst hnot
    simpa using ⟨(h !w).1,hreceived⟩

theorem Sound.send (h : Sound l) {data : List UInt8} {now : UInt64} {sendto : Bool}
    (hstep : step l (w,.send data now sendto) = some l') (hbound : Unwrapped l') : Sound l' := by
  have hsends := (h w).1
  have hreceived : (l w).Receives (l !w) := by simpa using (h !w).2
  cases hstep
  by_cases hnumbers : data.length ≤ maxPacketSize ∧ windowFull (l w).ctx = false
  · obtain ⟨ret,entry,ds,hsend,hentry,hds⟩ := rudpSend_takes hnumbers now sendto
    have hlt := hbound w
    simp only [hsend,if_pos hnumbers,update_self,List.length_append,List.length_singleton] at hlt ⊢
    have hnext : Numbered ((l w).numbered ++ [data]) (nextPacket (l w).ctx data now) := by
      intro _
      rw [payload_nextPacket _ hnumbers.1]
      simp [nextPacket,hsends.sendSeq]
    refine h.update ⟨?_,?_,?_⟩ ⟨(h w).2.le,(h w).2.returned,(h w).2.nonempty⟩ hreceived.append
    · simp only [UInt32.toNat_add,hsends.sendSeq,List.length_append,List.length_singleton]
      exact Nat.mod_eq_of_lt hlt
    · refine (hsends.pending.mono fun p hp => hp.append [data]).update (fun _ => ?_) rfl
      rwa [hentry]
    · simp only [List.forall_mem_append]
      refine ⟨fun d hd => (hsends.wire d hd).mono fun p hp => hp.append [data],fun d hd => ?_⟩
      exact ⟨_,hnext,by rw [hds d hd,dataLen_nextPacket _ hnumbers.1]⟩
  · obtain ⟨ret,hsend⟩ := rudpSend_refuses hnumbers now sendto
    simp only [hsend,if_neg hnumbers,List.append_nil]
    exact h.update hsends (h w).2 hreceived

theorem Sound.retransmit (h : Sound l) {now : UInt64}
    (hstep : step l (w,.retransmit now) = some l') : Sound l' := by
  have hsends := (h w).1
  have hreceived : (l w).Receives (l !w) := by simpa using (h !w).2
  have hresent := hsends.pending.retransmit (fun _ _ hp => hp) now
  have hseqs := rudpRetransmit_seqs (l w).ctx now
  simp only [step,Option.some.injEq] at hstep
  generalize rudpRetransmit (l w).ctx now = r at hresent hseqs hstep
  subst hstep
  refine h.update ⟨?_,hresent.1,?_⟩ ⟨?_,?_,(h w).2.nonempty⟩
    ⟨hreceived.le,hreceived.returned,hreceived.nonempty⟩
  · simpa [hseqs.1] using hsends.sendSeq
  · simp only [List.forall_mem_append]
    exact ⟨hsends.wire,hresent.2⟩
  · simpa [hseqs.2] using (h w).2.le
  · simpa [hseqs.2] using (h w).2.returned

theorem Sound.recv (h : Sound l) (hbound : Unwrapped l) {k maxLen : ℕ} {tail : ℕ → UInt8}
    (hstep : step l (w,.recv k tail maxLen) = some l') : Sound l' := by
  have hsends := (h w).1
  have hold := (h w).2
  have hreceived : (l w).Receives (l !w) := by simpa using (h !w).2
  obtain ⟨d,hd,hstep⟩ := Option.bind_eq_some_iff.mp hstep
  obtain ⟨r,hr,rfl⟩ := Option.map_eq_some_iff.mp hstep
  obtain ⟨hsendSeq,hwindow,hcase⟩ := recv_packet hr
  refine h.update ⟨hsendSeq ▸ hsends.sendSeq,?_,hsends.wire⟩ ?_
    ⟨hreceived.le,hreceived.returned,hreceived.nonempty⟩
  · intro i hi
    rw [hwindow] at hi ⊢
    exact hsends.pending.processAck _ i hi
  · obtain ⟨hseq,hret⟩ | ⟨hlen,hseq,hnext,hret⟩ := hcase
    · exact ⟨hseq ▸ hold.le,by rw [hret,hseq]; exact hold.returned,by rw [hret]; exact hold.nonempty⟩
    · obtain ⟨p,hp,rfl⟩ := (h !w).1.wire d (List.mem_of_getElem? hd)
      have hget : (l !w).numbered[(l w).ctx.recvSeq.toNat]? = some (payload p) := hseq ▸ hp hlen
      have hlt := (List.getElem?_eq_some_iff.mp hget).1
      have hless := hbound !w
      have htoNat : r.ctx.recvSeq.toNat = (l w).ctx.recvSeq.toNat + 1 := by
        rw [hnext,UInt32.toNat_add]
        exact Nat.mod_eq_of_lt (show (l w).ctx.recvSeq.toNat + 1 < 2^32 by omega)
      refine ⟨by rw [htoNat]; exact hlt,?_,?_⟩
      · rw [hret,htoNat,List.map_append,hold.returned,List.take_add_one,hget,payload_read]
        rfl
      · rw [hret]
        simp only [List.forall_mem_append,List.forall_mem_singleton]
        refine ⟨hold.nonempty,fun hnil => ?_⟩
        have hzero := congrArg List.length hnil
        simp only [payload,List.length_map,List.length_range,List.length_nil] at hzero
        have hpos := UInt16.lt_iff_toNat_lt.mp hlen
        simp only [hzero] at hpos
        exact absurd hpos (by decide)

theorem numbered_step {e : Bool × Action} (hstep : step l e = some l') (v : Bool) :
    (l v).numbered <+: (l' v).numbered := by
  obtain ⟨w,action⟩ := e
  cases action with
  | send data now sendto =>
    cases hstep
    by_cases hv : v = w
    · subst hv
      simp only [update_self]
      split <;> simp
    · simp [hv]
  | recv k tail maxLen =>
    obtain ⟨d,-,hstep⟩ := Option.bind_eq_some_iff.mp hstep
    obtain ⟨r,-,rfl⟩ := Option.map_eq_some_iff.mp hstep
    by_cases hv : v = w
    · subst hv
      simp
    · simp [hv]
  | retransmit now =>
    cases hstep
    by_cases hv : v = w
    · subst hv
      simp
    · simp [hv]

theorem Unwrapped.back {e : Bool × Action} (h : Unwrapped l') (hstep : step l e = some l') :
    Unwrapped l := fun v => Nat.lt_of_le_of_lt (numbered_step hstep v).length_le (h v)

theorem Sound.step {e : Bool × Action} (h : Sound l) (hstep : step l e = some l')
    (hbound : Unwrapped l') : Sound l' := by
  obtain ⟨w,action⟩ := e
  cases action with
  | send => exact h.send hstep hbound
  | recv => exact h.recv (hbound.back hstep) hstep
  | retransmit => exact h.retransmit hstep

theorem sound_run (h : exec step init events = some l) (hbound : Unwrapped l) : Sound l :=
  exec_invariant_along (P := fun _ _ => True) (G := Unwrapped)
    (fun _ _ _ hst hb => hb.back hst) (fun _ _ _ hst hb _ hs => hs.step hst hb) h hbound
    (along_of_forall (fun _ _ => trivial) init events) sound_init

/-- Whatever the network does, until one end has numbered 2³² payloads: what `rudp_recv` returns at
an end is, in order and each once, what the other end numbered first, and an empty payload is never
passed. -/
theorem returned_isPrefix (h : exec step init events = some l) (hbound : Unwrapped l) (w : Bool) :
    (l w).returned.map Prod.snd <+: (l !w).numbered.takeWhile (· ≠ []) := by
  have hreceives := ((sound_run h hbound) w).2
  have hnonempty : ∀ data ∈ (l w).returned.map Prod.snd, data ≠ [] := by
    intro data hmem
    obtain ⟨r,hr,rfl⟩ := List.mem_map.mp hmem
    exact hreceives.nonempty r hr
  rw [hreceives.returned] at hnonempty ⊢
  set n := (l w).ctx.recvSeq.toNat
  have hsplit : (((l !w).numbered.take n) ++ (l !w).numbered.drop n).takeWhile (· ≠ []) =
      (l !w).numbered.take n ++ ((l !w).numbered.drop n).takeWhile (· ≠ []) :=
    List.takeWhile_append_of_pos (by simpa using hnonempty)
  rw [List.take_append_drop] at hsplit
  exact hsplit ▸ List.prefix_append _ _

/-- The second payload overtakes the first and has to come again. -/
def overtaken : List (Bool × Action) :=
  [(true,.send [65] 1000 true),(true,.send [66] 1000 true),(false,.recv 1 (fun _ => 0) 1400),
    (false,.recv 0 (fun _ => 0) 1400),(false,.recv 0 (fun _ => 0) 1400),
    (false,.recv 1 (fun _ => 0) 1400)]

theorem returned_isPrefix_overtaken : ∃ l, exec step init overtaken = some l ∧
    (l false).returned.map Prod.snd <+: (l true).numbered.takeWhile (· ≠ []) ∧
    (l false).returned = [(0,[65]),(1,[66])] := by
  have hrun : exec step init overtaken = some _ := rfl
  refine ⟨_,hrun,returned_isPrefix hrun ?_ false,rfl⟩
  intro w
  cases w <;> decide

/-! ## A number that is not sent again -/

variable {n : UInt32} {old : List Datagram} {returned : List (UInt32 × List UInt8)} {k maxLen : ℕ}
  {tail : ℕ → UInt8}

theorem step_other {e : Bool × Action} (hstep : step l e = some l') (hne : e.1 ≠ w) :
    l' w = l w := by
  obtain ⟨v,action⟩ := e
  have hw : ∀ x : Side, Function.update l v x w = l w := fun x =>
    Function.update_of_ne (Ne.symm hne) _ _
  cases action with
  | send | retransmit =>
    cases hstep
    exact hw _
  | recv =>
    obtain ⟨d,-,hstep⟩ := Option.bind_eq_some_iff.mp hstep
    obtain ⟨r,-,rfl⟩ := Option.map_eq_some_iff.mp hstep
    exact hw _

theorem skips_send {data : List UInt8} {now : UInt64} {sendto : Bool} (h : (l w).Skips n old)
    (hsound : Sound l) (hstep : step l (w,.send data now sendto) = some l') :
    (l' w).Skips n old := by
  cases hstep
  rw [Function.update_self]
  by_cases hnumbers : data.length ≤ maxPacketSize ∧ windowFull (l w).ctx = false
  · obtain ⟨ret,entry,ds,hsend,hentry,hds⟩ := rudpSend_takes hnumbers now sendto
    have hnext : (nextPacket (l w).ctx data now).seq ≠ n := by
      rintro rfl
      have hlt := h.numbered
      rw [← (hsound w).1.sendSeq] at hlt
      exact absurd hlt (Nat.lt_irrefl _)
    simp only [hsend,if_pos hnumbers]
    obtain ⟨more,hwire,hmore⟩ := h.wire
    refine ⟨h.pending.update (fun _ => by rwa [hentry]) rfl,?_,more ++ ds,?_,?_⟩
    · simpa using Nat.lt_succ_of_lt h.numbered
    · rw [hwire,List.append_assoc]
    · simp only [List.forall_mem_append]
      exact ⟨hmore,fun d hd => by rw [hds d hd]; exact hnext⟩
  · obtain ⟨ret,hsend⟩ := rudpSend_refuses hnumbers now sendto
    simpa only [hsend,if_neg hnumbers,List.append_nil] using h

theorem skips_retransmit {now : UInt64} (h : (l w).Skips n old)
    (hstep : step l (w,.retransmit now) = some l') : (l' w).Skips n old := by
  have hresent := h.pending.retransmit (fun _ _ hp => hp) now
  simp only [Link.step,Option.some.injEq] at hstep
  generalize rudpRetransmit (l w).ctx now = r at hresent hstep
  subst hstep
  rw [Function.update_self]
  obtain ⟨more,hwire,hmore⟩ := h.wire
  refine ⟨hresent.1,h.numbered,more ++ r.2,?_,?_⟩
  · rw [hwire,List.append_assoc]
  · simp only [List.forall_mem_append]
    refine ⟨hmore,fun d hd => ?_⟩
    obtain ⟨p,hp,rfl⟩ := hresent.2 d hd
    exact hp

theorem skips_recv (h : (l w).Skips n old)
    (hstep : step l (w,.recv k tail maxLen) = some l') : (l' w).Skips n old := by
  obtain ⟨d,-,hstep⟩ := Option.bind_eq_some_iff.mp hstep
  obtain ⟨r,hr,rfl⟩ := Option.map_eq_some_iff.mp hstep
  obtain ⟨-,hwindow,-⟩ := recv_packet hr
  rw [Function.update_self]
  refine ⟨fun i hi => ?_,h.numbered,h.wire⟩
  rw [hwindow] at hi ⊢
  exact h.pending.processAck _ i hi

/-- Whatever arrives, the number is not sent again. -/
theorem skips_step {e : Bool × Action} (h : (l w).Skips n old) (hsound : Sound l)
    (hstep : step l e = some l') : (l' w).Skips n old := by
  by_cases hv : e.1 = w
  · obtain ⟨v,action⟩ := e
    subst hv
    cases action with
    | send => exact skips_send h hsound hstep
    | recv => exact skips_recv h hstep
    | retransmit => exact skips_retransmit h hstep
  · rwa [step_other hstep hv]

/-- It is the number that the other end waits for. -/
structure Stuck (l : Link) (w : Bool) (n : UInt32) (old : List Datagram)
    (returned : List (UInt32 × List UInt8)) : Prop where
  skips : (l w).Skips n old
  awaited : (l !w).ctx.recvSeq = n
  returned : (l !w).returned = returned

/-- A datagram that the number's end has sent since does not have the number. -/
theorem Stuck.recv_other (h : Stuck l w n old returned)
    (hstep : step l (!w,.recv k tail maxLen) = some l')
    (havoid : ∀ d, old[k]? = some d → d.seq ≠ n) :
    (l' !w).ctx.recvSeq = n ∧ (l' !w).returned = returned := by
  obtain ⟨d,hd,hstep⟩ := Option.bind_eq_some_iff.mp hstep
  obtain ⟨r,hr,rfl⟩ := Option.map_eq_some_iff.mp hstep
  obtain ⟨-,-,hcase⟩ := recv_packet hr
  rw [Bool.not_not] at hd
  have hne : d.seq ≠ n := by
    obtain ⟨more,hwire,hmore⟩ := h.skips.wire
    rw [hwire] at hd
    by_cases hk : k < old.length
    · exact havoid d (by rwa [List.getElem?_append_left hk] at hd)
    · rw [List.getElem?_append_right (Nat.le_of_not_lt hk)] at hd
      exact hmore d (List.mem_of_getElem? hd)
  rw [Function.update_self]
  obtain ⟨hseq,hret⟩ | ⟨-,hseq,-⟩ := hcase
  · exact ⟨hseq.trans h.awaited,hret.trans h.returned⟩
  · exact absurd (hseq.trans h.awaited) hne

theorem Stuck.step {e : Bool × Action} (h : Stuck l w n old returned) (hsound : Sound l)
    (hstep : step l e = some l') (havoid : ∀ k tail maxLen, e = (!w,.recv k tail maxLen) →
      ∀ d, old[k]? = some d → d.seq ≠ n) : Stuck l' w n old returned := by
  have hskips := skips_step h.skips hsound hstep
  by_cases hv : e.1 = !w
  · obtain ⟨v,action⟩ := e
    subst hv
    cases action with
    | send data now sendto =>
      cases hstep
      refine ⟨hskips,?_,by simpa using h.returned⟩
      rw [Function.update_self]
      by_cases hnumbers : data.length ≤ maxPacketSize ∧ windowFull (l !w).ctx = false
      · obtain ⟨ret,entry,ds,hsend,-⟩ := rudpSend_takes hnumbers now sendto
        simpa only [hsend] using h.awaited
      · obtain ⟨ret,hsend⟩ := rudpSend_refuses hnumbers now sendto
        simpa only [hsend] using h.awaited
    | recv k tail maxLen =>
      obtain ⟨hseq,hret⟩ := h.recv_other hstep (havoid k tail maxLen rfl)
      exact ⟨hskips,hseq,hret⟩
    | retransmit now =>
      have hseqs := rudpRetransmit_seqs (l !w).ctx now
      simp only [Link.step,Option.some.injEq] at hstep
      generalize rudpRetransmit (l !w).ctx now = r at hseqs hstep
      subst hstep
      refine ⟨hskips,?_,by simpa using h.returned⟩
      rw [Function.update_self]
      exact hseqs.2.trans h.awaited
  · have hsame := step_other hstep hv
    exact ⟨hskips,by rw [hsame,h.awaited],by rw [hsame,h.returned]⟩

/-- A datagram whose `ack` is a number takes it out of the window. -/
theorem skips_of_recv {d : Datagram} {l₁ : Link} (hack : step l (w,.recv k tail maxLen) = some l₁)
    (hd : (l !w).wire[k]? = some d) (hn : d.ack = n) (hnumbered : n.toNat < (l w).numbered.length) :
    (l₁ w).Skips n (l w).wire := by
  obtain ⟨d',hd',hack⟩ := Option.bind_eq_some_iff.mp hack
  obtain rfl : d' = d := Option.some.inj (hd'.symm.trans hd)
  obtain ⟨r,hr,rfl⟩ := Option.map_eq_some_iff.mp hack
  obtain ⟨-,hwindow,-⟩ := recv_packet hr
  rw [Function.update_self]
  refine ⟨fun i hi heq => ?_,hnumbered,[],(List.append_nil _).symm,nofun⟩
  rw [hwindow] at hi heq
  exact (rudpProcessAck_unacked hi) (heq.trans hn.symm)

/-- A datagram acknowledges the very number that its sender waits for: once an end has processed a
datagram whose `ack` is the number that the other end still waits for, it does not send that packet
again, and unless a copy that is already on the wire arrives, the other end never returns anything
more. -/
theorem awaited_is_given_up {d : Datagram} {fs : List (Bool × Action)} {l₁ l₂ : Link}
    (h : exec step init events = some l) (hack : step l (w,.recv k tail maxLen) = some l₁)
    (hd : (l !w).wire[k]? = some d) (hawaited : d.ack = (l !w).ctx.recvSeq)
    (hnumbered : (l !w).ctx.recvSeq.toNat < (l w).numbered.length)
    (hrun : exec step l₁ fs = some l₂) (hbound : Unwrapped l₂) :
    (∃ more, (l₂ w).wire = (l w).wire ++ more ∧ ∀ d ∈ more, d.seq ≠ (l !w).ctx.recvSeq) ∧
    ((∀ j tail maxLen, (!w,.recv j tail maxLen) ∈ fs → ∀ d, (l w).wire[j]? = some d →
      d.seq ≠ (l !w).ctx.recvSeq) → (l₂ !w).returned = (l !w).returned) := by
  have hback : Unwrapped l₁ := exec_reflects (fun _ _ _ hst hb => hb.back hst) hrun hbound
  have hsound := sound_run h (hback.back hack)
  have hsound₁ := hsound.step hack hback
  have hskips := skips_of_recv hack hd hawaited hnumbered
  have hlast : (l₂ w).Skips (l !w).ctx.recvSeq (l w).wire ∧ Sound l₂ :=
    exec_invariant_along (P := fun _ _ => True) (G := Unwrapped)
      (I := fun s => (s w).Skips _ _ ∧ Sound s) (fun _ _ _ hst hb => hb.back hst)
      (fun _ _ _ hst hb _ hs => ⟨skips_step hs.1 hs.2 hst,hs.2.step hst hb⟩) hrun hbound
      (along_of_forall (fun _ _ => trivial) l₁ fs) ⟨hskips,hsound₁⟩
  refine ⟨hlast.1.wire,fun hlost => ?_⟩
  have hother : l₁ (!w) = l (!w) := step_other hack (by cases w <;> simp)
  have hstuck : Stuck l₁ w (l !w).ctx.recvSeq (l w).wire (l !w).returned :=
    ⟨hskips,by rw [hother],by rw [hother]⟩
  have hlast : Stuck l₂ w (l !w).ctx.recvSeq (l w).wire (l !w).returned ∧ Sound l₂ := by
    refine exec_invariant_along (G := Unwrapped) (I := fun s => Stuck s w _ _ _ ∧ Sound s)
      (fun _ _ _ hst hb => hb.back hst) (fun s e t hst hb havoid hs => ?_) hrun hbound
      (along_of_forall_mem (P := fun e => ∀ k tail maxLen, e = (!w,.recv k tail maxLen) →
        ∀ d, (l w).wire[k]? = some d → d.seq ≠ (l !w).ctx.recvSeq) ?_ l₁) ⟨hstuck,hsound₁⟩
    · exact ⟨hs.1.step hs.2 hst havoid,hs.2.step hst hb⟩
    · rintro e he k tail maxLen rfl
      exact hlost k tail maxLen he
  exact hlast.1.returned

/-- The first packet is lost; the other end has nothing received and says so. -/
def lostFirst : List (Bool × Action) := [(true,.send [65] 1000 true),(false,.send [66] 1000 true)]

/-- The first packet is not sent again, and the next one comes too early. -/
def afterLoss : List (Bool × Action) :=
  [(true,.retransmit 2000),(true,.send [67] 2000 true),(false,.recv 1 (fun _ => 0) 1400)]

set_option maxRecDepth 4000 in
theorem awaited_is_given_up_lostFirst : ∃ l l₁ l₂, exec step init lostFirst = some l ∧
    step l (true,.recv 0 (fun _ => 0) 1400) = some l₁ ∧ exec step l₁ afterLoss = some l₂ ∧
    (l₂ false).returned = (l false).returned ∧ (l₂ true).numbered = [[65],[67]] ∧
    ∃ more, (l₂ true).wire = (l true).wire ++ more ∧ ∀ d ∈ more, d.seq ≠ 0 := by
  have hrun : exec step init lostFirst = some _ := rfl
  have hgivenUp := awaited_is_given_up (w := true) hrun
    (show step _ (true,.recv 0 (fun _ => 0) 1400) = some _ from rfl) rfl rfl (by decide)
    (show exec step _ afterLoss = some _ from rfl)
    (by intro w; cases w <;> decide)
  refine ⟨_,_,_,hrun,rfl,rfl,hgivenUp.2 ?_,rfl,hgivenUp.1⟩
  intro j tail maxLen hmem d hd
  obtain ⟨rfl,-⟩ : j = 1 ∧ tail = (fun _ => 0) ∧ maxLen = 1400 := by
    simpa [afterLoss] using hmem
  cases hd

end Link
end Rudp
end UProtocols
