import UProtocols.ReliableUdpEndpoint

/-!
# How often a packet goes out

The datagrams of a Rust endpoint with the times of the calls that sent them, while the clock does
not go back: how often and how fast a packet is repeated, and what the statistics count.
-/

namespace UProtocols
namespace ReliableUdp

open Endpoint

/-- An endpoint with the datagrams on its socket and when they were sent, and the time of the last
call. -/
structure Timed where
  endpoint : Endpoint
  log : List (List UInt8 × ℕ)
  clock : ℕ

/-- A call with the time at which it is made. -/
inductive TimedCall
  | send (data : List UInt8) (timestampUs : UInt64) (now : ℕ) (sendTo : Except IoError Unit)
  | receive (now : ℕ) (recvFrom : Except IoError (List UInt8))
  | processRetransmissions (now : ℕ) (timestampUs : Fin windowSize → UInt64)
      (sendTo : Fin windowSize → Except IoError Unit)

namespace TimedCall

def call : TimedCall → Call
  | .send data timestampUs now sendTo => .send data timestampUs now sendTo
  | .receive _ recvFrom => .receive recvFrom
  | .processRetransmissions now timestampUs sendTo => .processRetransmissions now timestampUs sendTo

def time : TimedCall → ℕ
  | .send _ _ now _ | .receive now _ | .processRetransmissions now _ _ => now

end TimedCall

namespace Timed

def new (now : ℕ) : Timed := ⟨.new now,[],now⟩

/-- The log with what has been put on the socket since it held `n` datagrams. -/
def extend (log : List (List UInt8 × ℕ)) (n : ℕ) (udp : ReliableUdp) (now : ℕ) :
    List (List UInt8 × ℕ) := log ++ (udp.socket.drop n).map fun d => (d,now)

def step (o : ByteOrder) (t : Timed) (c : TimedCall) : Option Timed :=
  if t.clock ≤ c.time then
    let endpoint := t.endpoint.call o c.call
    some ⟨endpoint,extend t.log t.endpoint.udp.socket.length endpoint.udp c.time,c.time⟩
  else none

def run (o : ByteOrder) (now : ℕ) (calls : List TimedCall) : Option Timed :=
  Runs.exec (step o) (new now) calls

/-- When packet `s` was sent. -/
def times (o : ByteOrder) (log : List (List UInt8 × ℕ)) (s : UInt32) : List ℕ :=
  (log.filter fun e => (PacketHeader.read o e.1).sequence = s).map Prod.snd

end Timed

/-! ## One packet -/

/-- At most six times, and each time more than the timeout after the last. -/
structure Paced (ts : List ℕ) : Prop where
  length : ts.length ≤ 6
  apart : ts.Pairwise fun a b => a + timeout < b

/-- The entry was sent once more than it was repeated, the last time at `sendTime`. -/
structure Repeated (ts : List ℕ) (p : PendingPacket) : Prop where
  length : ts.length = p.retryCount.toNat + 1
  last : ∀ a ∈ ts, a ≤ p.sendTime

section Packet

variable {o : ByteOrder} {log : List (List UInt8 × ℕ)} {s : UInt32} {p : Packet} {now : ℕ}
  {ts : List ℕ} {pending : PendingPacket}

theorem times_append (log' : List (List UInt8 × ℕ)) :
    Timed.times o (log ++ log') s = Timed.times o log s ++ Timed.times o log' s := by
  simp [Timed.times]

theorem times_toBytes : Timed.times o [(p.toBytes o,now)] s =
    if p.header.sequence = s then [now] else [] := by
  have hread : PacketHeader.read o (p.toBytes o) = p.header :=
    PacketHeader.read_toBytes o p.header p.data
  by_cases hs : p.header.sequence = s <;> simp [Timed.times,hread,hs]

theorem Paced.append (h : Paced ts) (hrepeated : Repeated ts pending)
    (hretry : pending.retryCount < maxRetries) (hnow : pending.sendTime + timeout < now) :
    Paced (ts ++ [now]) where
  length := by
    have hlt : pending.retryCount.toNat < 5 := hretry
    rw [List.length_append,hrepeated.length,List.length_singleton]
    omega
  apart := by
    rw [List.pairwise_append]
    refine ⟨h.apart,List.pairwise_singleton _ _,fun a ha b hb => ?_⟩
    have := hrepeated.last a ha
    rw [List.mem_singleton.mp hb]
    omega

end Packet

/-! ## All packets -/

/-- Every packet is paced, those that are still unacknowledged may be repeated as their entries
say, and the numbers that are not taken have not been sent. -/
structure Traffic (o : ByteOrder) (udp : ReliableUdp) (log : List (List UInt8 × ℕ)) : Prop where
  inWindow : InWindow udp
  paced : ∀ s, Paced (Timed.times o log s)
  later : ∀ s, udp.sendSequence.toNat ≤ s.toNat → Timed.times o log s = []
  repeated : ∀ i, (udp.sendWindow i).acked = false →
    Repeated (Timed.times o log (udp.sendWindow i).packet.header.sequence) (udp.sendWindow i)

section Calls

variable {o : ByteOrder} {udp udp' : ReliableUdp} {log : List (List UInt8 × ℕ)} {now : ℕ}
  {i : Fin windowSize}

theorem traffic_new (o : ByteOrder) (now : ℕ) : Traffic o (.new now) [] where
  inWindow i hi := by simp [new] at hi
  paced s := ⟨by simp [Timed.times],by simp [Timed.times]⟩
  later s _ := by simp [Timed.times]
  repeated i hi := by simp [new] at hi

/-- Nothing is sent, and entries only get acknowledged or given up. -/
theorem Traffic.quiet (h : Traffic o udp log) (hseq : udp'.sendSequence = udp.sendSequence)
    (hwindow : ∀ i, (udp'.sendWindow i).acked = false → udp'.sendWindow i = udp.sendWindow i) :
    Traffic o udp' log where
  inWindow i hi := by
    have heq := hwindow i hi
    rw [heq] at hi ⊢
    rw [hseq]
    exact h.inWindow i hi
  paced := h.paced
  later s hs := h.later s (hseq ▸ hs)
  repeated i hi := by
    have heq := hwindow i hi
    rw [heq] at hi ⊢
    exact h.repeated i hi

/-- The packet of an entry goes out. -/
theorem Traffic.sent (h : Traffic o udp log) (entry : PendingPacket)
    (hseq : udp'.sendSequence = udp.sendSequence)
    (hwindow : udp'.sendWindow = Function.update udp.sendWindow i entry)
    (hslot : i = slotOf entry.packet.header.sequence)
    (hlt : entry.packet.header.sequence.toNat < udp.sendSequence.toNat)
    (hle : udp.sendSequence.toNat ≤ entry.packet.header.sequence.toNat + 64)
    (hpaced : Paced (Timed.times o log entry.packet.header.sequence ++ [now]))
    (hrepeated : Repeated (Timed.times o log entry.packet.header.sequence ++ [now]) entry) :
    Traffic o udp' (log ++ [(entry.packet.toBytes o,now)]) where
  inWindow j hj := by
    rw [hwindow] at hj ⊢
    rw [hseq]
    by_cases hij : j = i
    · subst hij
      simpa using ⟨hslot,hlt,hle⟩
    · rw [Function.update_of_ne hij] at hj ⊢
      exact h.inWindow j hj
  paced s := by
    rw [times_append,times_toBytes]
    split
    · subst s
      exact hpaced
    · simpa using h.paced s
  later s hs := by
    rw [hseq] at hs
    rw [times_append,times_toBytes,h.later s hs,if_neg]
    · rfl
    · rintro rfl
      omega
  repeated j hj := by
    rw [hwindow] at hj ⊢
    by_cases hij : j = i
    · subst hij
      simpa [times_append,times_toBytes] using hrepeated
    · rw [Function.update_of_ne hij] at hj ⊢
      have hne : entry.packet.header.sequence ≠
          (udp.sendWindow j).packet.header.sequence := by
        intro heq
        rw [heq,← (h.inWindow j hj).1] at hslot
        exact hij hslot.symm
      simpa [times_append,times_toBytes,hne] using h.repeated j hj

theorem Traffic.receive (h : Traffic o udp log) (recvFrom : Except IoError (List UInt8)) :
    Traffic o (udp.receive o recvFrom).2 log := by
  refine h.quiet (receive_sendSide o udp recvFrom).1 ?_
  have hack : ∀ header, ∀ i, ((udp.processAcknowledgments header).sendWindow i).acked = false →
      (udp.processAcknowledgments header).sendWindow i = udp.sendWindow i := by
    intro header i hi
    simp only [processAcknowledgments] at hi ⊢
    split_ifs at hi ⊢ <;> simp_all
  obtain ⟨r,heq,-⟩ | ⟨_,packet,-,-,⟨-,heq⟩ | ⟨-,heq⟩⟩ := receive_cases o udp recvFrom
  · rw [heq]
    exact fun _ _ => rfl
  · rw [heq]
    exact hack packet.header
  · rw [heq]
    obtain ⟨-,heq⟩ | ⟨-,_,heq⟩ | ⟨-,heq⟩ := processReceivedPacket_cases
      (udp.processAcknowledgments packet.header).countReceived packet <;> rw [heq] <;>
      exact hack packet.header

/-- One slot: nothing happens, its packet is given up, or it goes out again. -/
theorem retransmitSlot_again (o : ByteOrder) (now : ℕ) (timestampUs : Fin windowSize → UInt64)
    (sendTo : Fin windowSize → Except IoError Unit) (udp : ReliableUdp) (i : Fin windowSize) :
    ((retransmitSlot o now timestampUs sendTo udp i).socket = udp.socket ∧
      (retransmitSlot o now timestampUs sendTo udp i).sendSequence = udp.sendSequence ∧
      ∀ j, ((retransmitSlot o now timestampUs sendTo udp i).sendWindow j).acked = false →
        (retransmitSlot o now timestampUs sendTo udp i).sendWindow j = udp.sendWindow j) ∨
    ((udp.sendWindow i).acked = false ∧ (udp.sendWindow i).sendTime + timeout < now ∧
      (udp.sendWindow i).retryCount < maxRetries ∧ ∃ stats,
      retransmitSlot o now timestampUs sendTo udp i = {udp with
        socket := udp.socket ++
          [((udp.sendWindow i).packet.withTimestamp (timestampUs i)).toBytes o]
        sendWindow := Function.update udp.sendWindow i
          ⟨(udp.sendWindow i).packet.withTimestamp (timestampUs i),now,
            (udp.sendWindow i).retryCount + 1,false⟩
        stats := stats}) := by
  unfold retransmitSlot
  dsimp only
  split_ifs with hskip htime hmax
  · exact .inl ⟨rfl,rfl,fun _ _ => rfl⟩
  · refine .inl ⟨rfl,rfl,fun j hj => ?_⟩
    by_cases hij : j = i
    · subst hij
      simp at hj
    · simp [hij]
  · have hacked : (udp.sendWindow i).acked = false := by simp_all
    cases hsend : sendTo i with
    | error e => exact .inl ⟨rfl,rfl,fun _ _ => rfl⟩
    | ok u =>
      refine .inr ⟨hacked,by omega,UInt8.not_le.mp hmax,
        {udp.stats with retransmissions := udp.stats.retransmissions + 1},?_⟩
      simp [transmitPacket,hacked]
  · exact .inl ⟨rfl,rfl,fun _ _ => rfl⟩

/-- The loop invariant of `process_retransmissions`, which started with `n` datagrams. -/
structure Resending (o : ByteOrder) (log : List (List UInt8 × ℕ)) (n now : ℕ) (udp : ReliableUdp) :
    Prop where
  traffic : Traffic o udp (Timed.extend log n udp now)
  le : n ≤ udp.socket.length

theorem Resending.slot {n : ℕ} (h : Resending o log n now udp)
    (timestampUs : Fin windowSize → UInt64) (sendTo : Fin windowSize → Except IoError Unit)
    (i : Fin windowSize) :
    Resending o log n now (retransmitSlot o now timestampUs sendTo udp i) := by
  obtain ⟨hsocket,hseq,hwindow⟩ | ⟨hunacked,htime,hretry,stats,heq⟩ :=
    retransmitSlot_again o now timestampUs sendTo udp i
  · refine ⟨?_,hsocket ▸ h.le⟩
    rw [Timed.extend,hsocket]
    exact h.traffic.quiet hseq hwindow
  · have hold := h.traffic.repeated i hunacked
    obtain ⟨hslot,hlt,hle⟩ := h.traffic.inWindow i hunacked
    rw [heq]
    refine ⟨?_,by simpa using Nat.le_succ_of_le h.le⟩
    rw [Timed.extend,List.drop_append_of_le_length h.le,List.map_append,← List.append_assoc]
    have hpaced := (h.traffic.paced _).append hold hretry htime
    have hcount : ((udp.sendWindow i).retryCount + 1).toNat =
        (udp.sendWindow i).retryCount.toNat + 1 := by
      have hlt : (udp.sendWindow i).retryCount.toNat < 5 := hretry
      rw [UInt8.toNat_add]
      exact Nat.mod_eq_of_lt (show _ + 1 < 256 by omega)
    refine h.traffic.sent ⟨(udp.sendWindow i).packet.withTimestamp (timestampUs i),now,
      (udp.sendWindow i).retryCount + 1,false⟩ rfl rfl hslot hlt hle hpaced ⟨?_,?_⟩
    · rw [List.length_append,hcount]
      exact congrArg (· + 1) hold.length
    · intro a ha
      obtain ha | ha := List.mem_append.mp ha
      · have := hold.last a ha
        simp only
        omega
      · exact (List.mem_singleton.mp ha).le

theorem Traffic.processRetransmissions (h : Traffic o udp log) (now : ℕ)
    (timestampUs : Fin windowSize → UInt64) (sendTo : Fin windowSize → Except IoError Unit) :
    Traffic o (udp.processRetransmissions o now timestampUs sendTo)
      (Timed.extend log udp.socket.length (udp.processRetransmissions o now timestampUs sendTo)
        now) := by
  have hstart : Resending o log udp.socket.length now udp :=
    ⟨by simpa [Timed.extend] using h,le_rfl⟩
  have hloop : Resending o log udp.socket.length now
      (udp.processRetransmissions o now timestampUs sendTo) :=
    List.foldlRecOn _ _ hstart fun _ hs i _ => hs.slot timestampUs sendTo i
  exact hloop.traffic

theorem Traffic.advance (h : Traffic o udp log) (hfull : udp.windowFull = false)
    (hnext : (udp.sendSequence + 1).toNat = udp.sendSequence.toNat + 1) :
    Traffic o {udp with sendSequence := udp.sendSequence + 1} log :=
  ⟨h.inWindow.advance hfull hnext,h.paced,fun s hs => h.later s (by simp only at hs; omega),
    h.repeated⟩

theorem Traffic.send {e : Endpoint} (h : Traffic o e.udp log) (hwindow : WindowInv e)
    {data : List UInt8} {timestampUs : UInt64} {sendTo : Except IoError Unit}
    (hb : Bounded (e.call o (.send data timestampUs now sendTo))) :
    Traffic o (e.call o (.send data timestampUs now sendTo)).udp
      (Timed.extend log e.udp.socket.length (e.call o (.send data timestampUs now sendTo)).udp
        now) := by
  obtain heq | ⟨-,hfull,⟨_,-,heq⟩ | ⟨-,_,heq⟩⟩ := call_send_cases o e data timestampUs now sendTo
  · rw [heq]
    simpa [Timed.extend] using h
  · rw [heq] at hb ⊢
    have hnext := toNat_succ hwindow.counted (by simpa [Bounded] using hb)
    simpa [Timed.extend] using h.advance hfull hnext
  · rw [heq] at hb ⊢
    have hnext := toNat_succ hwindow.counted (by simpa [Bounded] using hb)
    have hnone := h.later e.udp.sendSequence le_rfl
    simp only [Timed.extend,List.drop_left,List.map_cons,List.map_nil]
    refine (h.advance hfull hnext).sent ⟨e.udp.nextPacket data timestampUs,now,0,false⟩ rfl rfl rfl
      ?_ ?_ ?_ ?_
    · exact hnext ▸ Nat.lt_succ_self _
    · simp only [nextPacket,Packet.new,hnext]
      omega
    · simp only [nextPacket,Packet.new,hnone]
      exact ⟨by simp,by simp⟩
    · simp only [nextPacket,Packet.new,hnone]
      exact ⟨by simp,by simp⟩

end Calls

namespace Timed

variable {o : ByteOrder} {t t' : Timed} {c : TimedCall} {calls : List TimedCall} {now : ℕ}

/-- The invariant of a run: the packets are paced, and the last call was not before any send. -/
structure Sound (o : ByteOrder) (t : Timed) : Prop where
  window : WindowInv t.endpoint
  traffic : Traffic o t.endpoint.udp t.log
  socket : t.log.map Prod.fst = t.endpoint.udp.socket

theorem sound_new (o : ByteOrder) (now : ℕ) : Sound o (new now) :=
  ⟨windowInv_new now,traffic_new o now,rfl⟩

/-- What has been put on the socket stays there. -/
theorem socket_retransmissions (o : ByteOrder) (udp : ReliableUdp) (now : ℕ)
    (timestampUs : Fin windowSize → UInt64) (sendTo : Fin windowSize → Except IoError Unit) :
    udp.socket <+: (udp.processRetransmissions o now timestampUs sendTo).socket := by
  refine List.foldlRecOn (motive := fun udp' : ReliableUdp => udp.socket <+: udp'.socket) _ _
    (List.prefix_refl _) fun udp' hprefix i _ => ?_
  obtain ⟨hsocket,-⟩ | ⟨-,-,-,stats,heq⟩ := retransmitSlot_again o now timestampUs sendTo udp' i
  · rw [hsocket]
    exact hprefix
  · rw [heq]
    exact hprefix.trans (List.prefix_append _ _)

theorem socket_call (o : ByteOrder) (e : Endpoint) (c : TimedCall) :
    e.udp.socket <+: (e.call o c.call).udp.socket := by
  cases c with
  | send data timestampUs now sendTo =>
    rw [TimedCall.call]
    obtain heq | ⟨-,-,⟨_,-,heq⟩ | ⟨-,_,heq⟩⟩ := call_send_cases o e data timestampUs now sendTo
    · simpa only [heq] using List.prefix_refl e.udp.socket
    · simpa only [heq] using List.prefix_refl e.udp.socket
    · rw [heq]
      exact List.prefix_append _ _
  | receive now recvFrom =>
    simp only [TimedCall.call,Endpoint.call,(receive_sendSide o e.udp recvFrom).2.1]
    exact List.prefix_refl _
  | processRetransmissions now timestampUs sendTo =>
    simp only [TimedCall.call,Endpoint.call]
    exact socket_retransmissions o e.udp now timestampUs sendTo

theorem traffic_call {e : Endpoint} {log : List (List UInt8 × ℕ)} (h : Traffic o e.udp log)
    (hwindow : WindowInv e) (c : TimedCall) (hb : Bounded (e.call o c.call)) :
    Traffic o (e.call o c.call).udp
      (extend log e.udp.socket.length (e.call o c.call).udp c.time) := by
  cases c with
  | send data timestampUs now sendTo => exact h.send hwindow hb
  | receive now recvFrom =>
    simpa [TimedCall.call,Endpoint.call,extend,(receive_sendSide o e.udp recvFrom).2.1] using
      h.receive recvFrom
  | processRetransmissions now timestampUs sendTo =>
    simp only [TimedCall.call,TimedCall.time,Endpoint.call]
    exact h.processRetransmissions now timestampUs sendTo

theorem Sound.step (h : Sound o t) (hstep : step o t c = some t') (hb : Bounded t'.endpoint) :
    Sound o t' := by
  unfold Timed.step at hstep
  split at hstep
  · cases hstep
    refine ⟨h.window.call c.call hb,traffic_call h.traffic h.window c hb,?_⟩
    obtain ⟨more,hmore⟩ := socket_call o t.endpoint c
    have hstamp : (more.map fun d => (d,c.time)).map Prod.fst = more := by
      simp [Function.comp_def]
    simp only [extend,← hmore,List.drop_left,List.map_append,hstamp,h.socket]
  · simp at hstep

/-- In every run whose clock does not go back, no packet is on the socket more than six times, and
each time more than the timeout after the time before. -/
theorem repeats_paced (h : run o now calls = some t) (hb : Bounded t.endpoint) :
    t.log.map Prod.fst = t.endpoint.udp.socket ∧ ∀ s, Paced (times o t.log s) := by
  have hback : ∀ t c t', step o t c = some t' → Bounded t'.endpoint → Bounded t.endpoint := by
    intro t c t' hstep hb'
    unfold step at hstep
    split at hstep
    · cases hstep
      exact bounded_of_step o t.endpoint c.call _ rfl hb'
    · simp at hstep
  have hsound : Sound o t :=
    Runs.exec_invariant_along hback (fun _ _ _ hstep hb' _ hs => hs.step hstep hb') h hb
      (Runs.along_of_forall (fun _ _ => trivial) _ _) (sound_new o now)
  exact ⟨hsound.socket,hsound.traffic.paced⟩

/-- A packet that is sent, not yet repeated after the timeout to the nanosecond, and repeated one
nanosecond later. -/
def oneRepeat : List TimedCall :=
  [.send [65] 7 0 (.ok ()),.processRetransmissions timeout (fun _ => 8) fun _ => .ok (),
    .processRetransmissions (timeout + 1) (fun _ => 9) fun _ => .ok ()]

theorem repeats_paced_once :
    ∃ t, run .little 0 oneRepeat = some t ∧ times .little t.log 0 = [0,timeout + 1] ∧
      ∀ s, Paced (times .little t.log s) := by
  have hrun : ∃ t, run .little 0 oneRepeat = some t ∧ Bounded t.endpoint ∧
      times .little t.log 0 = [0,timeout + 1] := ⟨_,rfl,by decide +kernel,by decide +kernel⟩
  obtain ⟨t,ht,hb,htimes⟩ := hrun
  exact ⟨t,ht,htimes,(repeats_paced ht hb).2⟩

end Timed

end ReliableUdp
end UProtocols
