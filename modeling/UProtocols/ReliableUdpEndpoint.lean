import UProtocols.Runs
import UProtocols.ReliableUdp

/-!
# An endpoint with its history

`Endpoint` adds to the Rust endpoint what its calls have done so far: which numbers
`send` took, which payloads were accepted and returned, which entries were marked.
The history never influences a call. The results are about the send window, for
every sequence of calls and every content of the datagrams received.
-/

namespace UProtocols
namespace ReliableUdp

/-- The sequence numbers of the entries that became acked between two windows. -/
def marked (w w' : Fin windowSize → PendingPacket) : List UInt32 :=
  (List.finRange windowSize).filterMap fun i =>
    if (w i).acked = false ∧ (w' i).acked = true then some (w i).packet.header.sequence else none

theorem mem_marked {w w' : Fin windowSize → PendingPacket} {s : UInt32} :
    s ∈ marked w w' ↔ ∃ i, (w i).acked = false ∧ (w' i).acked = true ∧
      (w i).packet.header.sequence = s := by
  simp only [marked,List.mem_filterMap,List.mem_finRange,true_and,Option.ite_none_right_eq_some,
    Option.some.injEq,and_assoc]

@[simp] theorem marked_self (w : Fin windowSize → PendingPacket) : marked w w = [] := by
  simp [marked]

/-- `process_received_packet` returns the packet's payload or keeps it in `recv_buffer`. -/
def processes (self : ReliableUdp) (packet : Packet) : Bool :=
  (self.processReceivedPacket packet).1.isSome ||
    decide ((self.processReceivedPacket packet).2.recvBuffer.lookup packet.header.sequence =
      some packet)

/-- The number of the data packet that a `receive` call processes, if any. -/
def processedBy (o : ByteOrder) (self : ReliableUdp) (recvFrom : Except IoError (List UInt8)) :
    List UInt32 :=
  match recvFrom with
  | .error _ => []
  | .ok datagram =>
    match Packet.fromBytes o (datagram.take (maxPacketSize + 256)) with
    | .error _ => []
    | .ok packet =>
      if packet.data ≠ [] ∧ self.processes packet then [packet.header.sequence] else []

/-- The endpoint and the history of its calls, oldest entry first. -/
structure Endpoint where
  udp : ReliableUdp
  /-- Number and payload of every `send` that advanced `send_sequence`. -/
  taken : List (UInt32 × List UInt8)
  /-- Number and payload of every `send` that returned `Ok`. -/
  accepted : List (UInt32 × List UInt8)
  /-- Every payload that `receive` returned, with `recv_sequence` at the call. -/
  returned : List (UInt32 × List UInt8)
  processed : List UInt32
  /-- Numbers that `process_acknowledgments` marked. -/
  acked : List UInt32
  /-- Numbers that were given up after `MAX_RETRIES`. -/
  dropped : List UInt32

inductive Call
  | send (data : List UInt8) (timestampUs : UInt64) (now : ℕ) (sendTo : Except IoError Unit)
  | receive (recvFrom : Except IoError (List UInt8))
  | processRetransmissions (now : ℕ) (timestampUs : Fin windowSize → UInt64)
      (sendTo : Fin windowSize → Except IoError Unit)

namespace Endpoint

def new (now : ℕ) : Endpoint := ⟨.new now,[],[],[],[],[],[]⟩

def call (o : ByteOrder) (e : Endpoint) : Call → Endpoint
  | .send data timestampUs now sendTo =>
    let r := e.udp.send o data timestampUs now sendTo
    { e with
      udp := r.2
      taken := if r.2.sendSequence = e.udp.sendSequence then e.taken
        else e.taken ++ [(e.udp.sendSequence,data)]
      accepted := if r.1.isOk then e.accepted ++ [(e.udp.sendSequence,data)] else e.accepted }
  | .receive recvFrom =>
    let r := e.udp.receive o recvFrom
    { e with
      udp := r.2
      returned := match r.1 with
        | .ok (some data) => e.returned ++ [(e.udp.recvSequence,data)]
        | _ => e.returned
      processed := e.processed ++ e.udp.processedBy o recvFrom
      acked := e.acked ++ marked e.udp.sendWindow r.2.sendWindow }
  | .processRetransmissions now timestampUs sendTo =>
    let udp := e.udp.processRetransmissions o now timestampUs sendTo
    { e with
      udp := udp
      dropped := e.dropped ++ marked e.udp.sendWindow udp.sendWindow }

def step (o : ByteOrder) (e : Endpoint) (c : Call) : Option Endpoint := some (e.call o c)

/-- The endpoint after any calls. -/
def run (o : ByteOrder) (now : ℕ) (calls : List Call) : Option Endpoint :=
  Runs.exec (step o) (new now) calls

/-- The numbers taken so far are exactly `0, 1, …` without wrapping. -/
def Bounded (e : Endpoint) : Prop := e.taken.length < 2^32

instance (e : Endpoint) : Decidable e.Bounded := inferInstanceAs (Decidable (_ < _))

/-! ### What a call does to the send side -/

theorem succ_ne_self (n : UInt32) : n + 1 ≠ n := by
  intro h
  have hn := congrArg UInt32.toNat h
  rw [UInt32.toNat_add] at hn
  have := n.toNat_lt
  simp at hn
  omega

/-- The send side of a call: nothing, a number lost to a failed transmit, or a stored packet. -/
theorem call_send_cases (o : ByteOrder) (e : Endpoint) (data : List UInt8) (ts : UInt64)
    (now : ℕ) (sendTo : Except IoError Unit) :
    e.call o (.send data ts now sendTo) = e ∨
    (data.length ≤ maxPacketSize ∧ e.udp.windowFull = false ∧
      ((∃ err, sendTo = .error err ∧ e.call o (.send data ts now sendTo) = { e with
          udp := { e.udp with sendSequence := e.udp.sendSequence + 1 }
          taken := e.taken ++ [(e.udp.sendSequence,data)] }) ∨
        (sendTo = .ok () ∧ ∃ stats, e.call o (.send data ts now sendTo) = { e with
          udp := { e.udp with
            socket := e.udp.socket ++ [(e.udp.nextPacket data ts).toBytes o]
            sendSequence := e.udp.sendSequence + 1
            sendWindow := Function.update e.udp.sendWindow (slotOf e.udp.sendSequence)
              ⟨e.udp.nextPacket data ts,now,0,false⟩
            stats := stats }
          taken := e.taken ++ [(e.udp.sendSequence,data)]
          accepted := e.accepted ++ [(e.udp.sendSequence,data)] }))) := by
  rcases send_cases o e.udp data ts now sendTo with ⟨err,h⟩ | ⟨hlen,hfull,⟨err,hs,h⟩ | ⟨hs,h⟩⟩
  · left
    simp [call,h,Except.isOk,Except.toBool]
  · refine Or.inr ⟨hlen,hfull,Or.inl ⟨err,hs,?_⟩⟩
    simp only [call,h,succ_ne_self,if_false]
    simp [Except.isOk,Except.toBool]
  · refine Or.inr ⟨hlen,hfull,Or.inr ⟨hs,
      { e.udp.stats with packetsSent := e.udp.stats.packetsSent + 1 },?_⟩⟩
    simp only [call,h,succ_ne_self,if_false]
    simp [Except.isOk,Except.toBool]

theorem receive_sendSide (o : ByteOrder) (self : ReliableUdp)
    (recvFrom : Except IoError (List UInt8)) :
    (self.receive o recvFrom).2.sendSequence = self.sendSequence ∧
      (self.receive o recvFrom).2.socket = self.socket ∧
      Ages self.sendWindow (self.receive o recvFrom).2.sendWindow := by
  rcases receive_cases o self recvFrom with
    ⟨r,h,-⟩ | ⟨datagram,packet,-,-,⟨-,h⟩ | ⟨-,h⟩⟩
  · rw [h]
    exact ⟨rfl,rfl,Ages.refl _⟩
  · rw [h]
    exact ⟨rfl,rfl,processAcknowledgments_ages _ _⟩
  · rw [h]
    rcases processReceivedPacket_cases (self.processAcknowledgments packet.header).countReceived
      packet with ⟨-,h⟩ | ⟨-,bits,h⟩ | ⟨-,h⟩ <;> rw [h] <;>
      exact ⟨rfl,rfl,processAcknowledgments_ages _ _⟩

/-! ### The send window -/

theorem slotOf_val (s : UInt32) : (slotOf s).val = s.toNat % 64 := rfl

theorem slotOf_eq {s t : UInt32} (h : s.toNat = t.toNat + 64) : slotOf s = slotOf t := by
  apply Fin.ext
  rw [slotOf_val,slotOf_val,h]
  omega

theorem saturatingSub_toNat (a b : UInt32) : (saturatingSub a b).toNat = a.toNat - b.toNat := by
  unfold saturatingSub
  split_ifs with h
  · have : a.toNat < b.toNat := h
    simp
    omega
  · have hle : b ≤ a := by
      rw [UInt32.le_iff_toNat_le]
      rw [UInt32.lt_iff_toNat_lt] at h
      omega
    exact UInt32.toNat_sub_of_le a b hle

/-- Every unacked entry sits in its own slot and within one window of `send_sequence`. -/
def InWindow (udp : ReliableUdp) : Prop :=
  ∀ i, (udp.sendWindow i).acked = false →
    i = slotOf (udp.sendWindow i).packet.header.sequence ∧
    (udp.sendWindow i).packet.header.sequence.toNat < udp.sendSequence.toNat ∧
    udp.sendSequence.toNat ≤ (udp.sendWindow i).packet.header.sequence.toNat + 64

/-- The saturating comparison is exact: it refuses whenever the slot is still unacked. -/
theorem acked_of_not_windowFull {udp : ReliableUdp} (h : InWindow udp)
    (hfull : udp.windowFull = false) :
    (udp.sendWindow (slotOf udp.sendSequence)).acked = true := by
  by_contra hne
  have hun : (udp.sendWindow (slotOf udp.sendSequence)).acked = false := by simpa using hne
  have hge := (h _ hun).2.2
  have hlt : ¬ saturatingSub udp.sendSequence 64 ≤
      (udp.sendWindow (slotOf udp.sendSequence)).packet.header.sequence := by
    simpa [windowFull,hun] using hfull
  rw [UInt32.le_iff_toNat_le,saturatingSub_toNat] at hlt
  simp at hlt
  omega

theorem InWindow.ages {udp udp' : ReliableUdp} (h : InWindow udp)
    (hseq : udp'.sendSequence = udp.sendSequence) (ha : Ages udp.sendWindow udp'.sendWindow) :
    InWindow udp' := by
  intro i hi
  obtain ⟨t,ht⟩ := (ha i).1
  simpa only [ht,hseq,Packet.withTimestamp_sequence] using h i (ha.unacked hi)

/-- Taking a number keeps the window: the one entry a full window away is acked. -/
theorem InWindow.advance {udp : ReliableUdp} (h : InWindow udp) (hfull : udp.windowFull = false)
    (hnext : (udp.sendSequence + 1).toNat = udp.sendSequence.toNat + 1) :
    InWindow { udp with sendSequence := udp.sendSequence + 1 } := by
  intro i hi
  obtain ⟨hslot,hlt,hge⟩ := h i hi
  have hacked := acked_of_not_windowFull h hfull
  have hne : udp.sendSequence.toNat ≠
      (udp.sendWindow i).packet.header.sequence.toNat + 64 := by
    intro heq
    rw [slotOf_eq heq,← hslot] at hacked
    exact absurd hacked (by simpa using hi)
  dsimp only
  exact ⟨hslot,by omega,by omega⟩

/-- An accepted packet is in its slot, unless it was marked by an ACK or given up. -/
def Kept (e : Endpoint) : Prop :=
  ∀ a ∈ e.accepted, a.1 ∈ e.acked ∨ a.1 ∈ e.dropped ∨
    ((e.udp.sendWindow (slotOf a.1)).acked = false ∧
      (e.udp.sendWindow (slotOf a.1)).packet.header.sequence = a.1 ∧
      (e.udp.sendWindow (slotOf a.1)).packet.data = a.2)

/-- Marking is the only way an aging window loses an unacked packet. -/
theorem Kept.ages {e e' : Endpoint} (h : Kept e) (hacc : e'.accepted = e.accepted)
    (ha : Ages e.udp.sendWindow e'.udp.sendWindow)
    (hacked : ∀ s ∈ e.acked, s ∈ e'.acked) (hdropped : ∀ s ∈ e.dropped, s ∈ e'.dropped)
    (hmarked : ∀ s ∈ marked e.udp.sendWindow e'.udp.sendWindow,
      s ∈ e'.acked ∨ s ∈ e'.dropped) : Kept e' := by
  intro a hin
  rw [hacc] at hin
  rcases h a hin with hl | hl | ⟨hun,hseq,hdata⟩
  · exact Or.inl (hacked _ hl)
  · exact Or.inr (Or.inl (hdropped _ hl))
  · obtain ⟨t,ht⟩ := (ha (slotOf a.1)).1
    cases hnow : (e'.udp.sendWindow (slotOf a.1)).acked with
    | false => exact Or.inr (Or.inr ⟨rfl,by simp [ht,hseq],by simp [ht,hdata]⟩)
    | true =>
      rcases hmarked a.1 (mem_marked.mpr ⟨slotOf a.1,hun,hnow,hseq⟩) with hm | hm
      · exact Or.inl hm
      · exact Or.inr (Or.inl hm)

structure WindowInv (e : Endpoint) : Prop where
  counted : e.udp.sendSequence.toNat = e.taken.length
  inWindow : InWindow e.udp
  kept : Kept e

theorem windowInv_new (now : ℕ) : WindowInv (new now) where
  counted := rfl
  inWindow := by
    intro i hi
    exact absurd hi (by simp [new,ReliableUdp.new])
  kept := by
    intro a ha
    exact absurd ha (by simp [new])

/-- A call takes at most one number. -/
theorem taken_cases (o : ByteOrder) (e : Endpoint) (c : Call) :
    (e.call o c).taken = e.taken ∨ ∃ a, (e.call o c).taken = e.taken ++ [a] := by
  cases c with
  | send data ts now sendTo =>
    rcases call_send_cases o e data ts now sendTo with h | ⟨-,-,⟨err,-,h⟩ | ⟨-,stats,h⟩⟩
    · exact Or.inl (by rw [h])
    · exact Or.inr ⟨_,by rw [h]⟩
    · exact Or.inr ⟨_,by rw [h]⟩
  | receive recvFrom => exact Or.inl (by simp [call])
  | processRetransmissions now ts sendTo => exact Or.inl (by simp [call])

theorem taken_mono (o : ByteOrder) (e : Endpoint) (c : Call) :
    e.taken <+: (e.call o c).taken := by
  rcases taken_cases o e c with h | ⟨a,h⟩ <;> simp [h]

theorem bounded_of_step (o : ByteOrder) (e : Endpoint) (c : Call) (e' : Endpoint)
    (h : step o e c = some e') (hb : Bounded e') : Bounded e := by
  cases h
  exact lt_of_le_of_lt (taken_mono o e c).length_le hb

theorem toNat_succ {n : UInt32} {k : ℕ} (hn : n.toNat = k) (hk : k + 1 < 2^32) :
    (n + 1).toNat = n.toNat + 1 := by
  rw [UInt32.toNat_add,UInt32.toNat_one,Nat.mod_eq_of_lt (by omega)]

theorem WindowInv.call {o : ByteOrder} {e : Endpoint} (h : WindowInv e) (c : Call)
    (hb : Bounded (e.call o c)) : WindowInv (e.call o c) := by
  cases c with
  | send data ts now sendTo =>
    rcases call_send_cases o e data ts now sendTo with
      heq | ⟨-,hfull,⟨err,-,heq⟩ | ⟨-,stats,heq⟩⟩
    · rw [heq]
      exact h
    · -- the number is taken but the transmit fails, so nothing is stored
      rw [heq] at hb ⊢
      have hnext := toNat_succ h.counted (by simpa [Bounded] using hb)
      exact ⟨by simp [hnext,h.counted],h.inWindow.advance hfull hnext,h.kept⟩
    · rw [heq] at hb ⊢
      have hnext := toNat_succ h.counted (by simpa [Bounded] using hb)
      have hacked := acked_of_not_windowFull h.inWindow hfull
      refine ⟨by simp [hnext,h.counted],fun i hi => ?_,fun a ha => ?_⟩
      · by_cases hslot : i = slotOf e.udp.sendSequence
        · subst i
          simp [nextPacket,Packet.new,hnext]
        · have hold := h.inWindow.advance hfull hnext i (by simpa [hslot] using hi)
          simpa [hslot] using hold
      · rcases List.mem_append.mp ha with ha | ha
        · rcases h.kept a ha with hl | hl | ⟨hun,hrest⟩
          · exact Or.inl hl
          · exact Or.inr (Or.inl hl)
          · have hslot : slotOf a.1 ≠ slotOf e.udp.sendSequence := by
              intro hs
              rw [hs,hacked] at hun
              cases hun
            exact Or.inr (Or.inr (by simpa [hslot] using ⟨hun,hrest⟩))
        · rw [List.mem_singleton.mp ha]
          exact Or.inr (Or.inr (by simp [nextPacket,Packet.new]))
  | receive recvFrom =>
    obtain ⟨hseq,-,hages⟩ := receive_sendSide o e.udp recvFrom
    exact ⟨by simpa [Endpoint.call,hseq] using h.counted,h.inWindow.ages hseq hages,
      h.kept.ages rfl hages (fun _ hs => List.mem_append_left _ hs) (fun _ hs => hs)
        (fun _ hs => Or.inl (List.mem_append_right _ hs))⟩
  | processRetransmissions now ts sendTo =>
    have hspec := processRetransmissions_spec o e.udp now ts sendTo
    simp only [Endpoint.call]
    generalize e.udp.processRetransmissions o now ts sendTo = udp at hspec ⊢
    exact ⟨hspec.sendSequence ▸ h.counted,h.inWindow.ages hspec.sendSequence hspec.ages,
      h.kept.ages rfl hspec.ages (fun _ hs => hs) (fun _ hs => List.mem_append_left _ hs)
        (fun _ hs => Or.inr (List.mem_append_right _ hs))⟩

theorem windowInv_run {o : ByteOrder} {now : ℕ} {calls : List Call} {e : Endpoint}
    (h : run o now calls = some e) (hb : Bounded e) : WindowInv e := by
  refine Runs.exec_invariant_along (bounded_of_step o) ?_ h hb
    (Runs.along_of_forall (fun _ _ => trivial) _ _) (windowInv_new now)
  intro s c t hstep hbt _ hs
  cases hstep
  exact hs.call c hbt

/-- The send window keeps every accepted packet: an unacked entry lies in slot
`s % 64` with `send_sequence - 64 ≤ s < send_sequence`, `send` leaves unacked entries
alone, and an accepted packet is pending until it is acked or given up. -/
theorem sendWindow_integrity (o : ByteOrder) (now : ℕ) (calls : List Call) (e : Endpoint)
    (h : run o now calls = some e) (hb : Bounded e) :
    (∀ i, (e.udp.sendWindow i).acked = false →
      i.val = (e.udp.sendWindow i).packet.header.sequence.toNat % 64 ∧
      e.udp.sendSequence.toNat ≤ (e.udp.sendWindow i).packet.header.sequence.toNat + 64 ∧
      (e.udp.sendWindow i).packet.header.sequence.toNat < e.udp.sendSequence.toNat) ∧
    (∀ i data ts now' sendTo, (e.udp.sendWindow i).acked = false →
      (e.udp.send o data ts now' sendTo).2.sendWindow i = e.udp.sendWindow i) ∧
    (∀ s data, (s,data) ∈ e.accepted → s ∈ e.acked ∨ s ∈ e.dropped ∨
      ∃ i, (e.udp.sendWindow i).acked = false ∧
        (e.udp.sendWindow i).packet.header.sequence = s ∧
        (e.udp.sendWindow i).packet.data = data) := by
  have hinv := windowInv_run h hb
  refine ⟨fun i hi => ?_,fun i data ts now' sendTo hi => ?_,fun s data hmem => ?_⟩
  · obtain ⟨hslot,hlt,hge⟩ := hinv.inWindow i hi
    exact ⟨congrArg Fin.val hslot,hge,hlt⟩
  · rcases send_cases o e.udp data ts now' sendTo with
      ⟨err,heq⟩ | ⟨-,hfull,⟨err,-,heq⟩ | ⟨-,heq⟩⟩ <;> rw [heq]
    have hslot : i ≠ slotOf e.udp.sendSequence := by
      rintro rfl
      rw [acked_of_not_windowFull hinv.inWindow hfull] at hi
      cases hi
    simp [hslot]
  · rcases hinv.kept (s,data) hmem with hl | hl | hl
    · exact Or.inl hl
    · exact Or.inr (Or.inl hl)
    · exact Or.inr (Or.inr ⟨_,hl⟩)

/-- One send that is transmitted and one whose transmit fails. -/
def twoSends : List Call :=
  [.send [65] 7 0 (.ok ()),.send [66] 8 1 (.error ⟨.other,"unreachable"⟩)]

theorem sendWindow_integrity_twoSends :
    ∃ e, run .little 0 twoSends = some e ∧ Bounded e ∧ (0,[65]) ∈ e.accepted ∧
      (0 ∈ e.acked ∨ 0 ∈ e.dropped ∨ ∃ i, (e.udp.sendWindow i).acked = false ∧
        (e.udp.sendWindow i).packet.header.sequence = 0 ∧
        (e.udp.sendWindow i).packet.data = [65]) := by
  refine ⟨_,rfl,by decide,by decide,?_⟩
  exact (sendWindow_integrity .little 0 twoSends _ rfl (by decide)).2.2 0 [65] (by decide)

end Endpoint
end ReliableUdp
end UProtocols
