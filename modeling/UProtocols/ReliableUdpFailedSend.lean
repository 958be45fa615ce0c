import UProtocols.ReliableUdpEndpoint

/-!
# Sends that fail

`send` advances `send_sequence` before the fallible `transmit_packet`. A number that the socket
refuses is taken, yet no packet with it is kept.
-/

namespace UProtocols
namespace ReliableUdp

/-- The call gets as far as the socket, and the socket refuses the datagram. -/
structure Refused (udp : ReliableUdp) (data : List UInt8) (sendTo : Except IoError Unit) :
    Prop where
  fits : data.length ≤ maxPacketSize
  open_window : udp.windowFull = false
  refuses : ∃ error, sendTo = .error error

variable {self : ReliableUdp} {data : List UInt8} {sendTo : Except IoError Unit}

theorem send_of_refused (h : self.Refused data sendTo) (o : ByteOrder) (timestampUs : UInt64)
    (now : ℕ) : ∃ error, self.send o data timestampUs now sendTo =
      (.error error,{ self with sendSequence := self.sendSequence + 1 }) := by
  obtain ⟨error,rfl⟩ := h.refuses
  refine ⟨error,?_⟩
  rw [send,if_neg (Nat.not_lt.mpr h.fits),h.open_window]
  rfl

/-- A call that does not get as far as the socket leaves the endpoint as it is. -/
theorem send_error_of_not_refused (h : ¬ self.Refused data sendTo) {o : ByteOrder}
    {timestampUs : UInt64} {now : ℕ} {error : IoError}
    (herror : (self.send o data timestampUs now sendTo).1 = .error error) :
    (self.send o data timestampUs now sendTo).2 = self := by
  rcases send_cases o self data timestampUs now sendTo with
    ⟨e,heq⟩ | ⟨hfits,hopen,⟨e,hrefuses,-⟩ | ⟨-,heq⟩⟩
  · rw [heq]
  · exact absurd ⟨hfits,hopen,e,hrefuses⟩ h
  · rw [heq] at herror
    cases herror

namespace Endpoint

/-- The `send` of this call is refused by the socket. -/
def RefusedCall (e : Endpoint) : Call → Prop
  | .send data _ _ sendTo => e.udp.Refused data sendTo
  | _ => False

/-- A refused number is taken and not accepted. -/
theorem call_of_refused {e : Endpoint} (h : e.udp.Refused data sendTo) (o : ByteOrder)
    (timestampUs : UInt64) (now : ℕ) :
    (e.call o (.send data timestampUs now sendTo)).taken =
        e.taken ++ [(e.udp.sendSequence,data)] ∧
      (e.call o (.send data timestampUs now sendTo)).accepted = e.accepted := by
  obtain ⟨error,heq⟩ := send_of_refused h o timestampUs now
  constructor
  · simp only [call,heq,succ_ne_self,if_false]
  · simp only [call,heq]
    rfl

/-- All other calls take the numbers that they accept. -/
theorem taken_eq_accepted_iff {o : ByteOrder} {e : Endpoint} {c : Call}
    (h : e.taken = e.accepted) :
    (e.call o c).taken = (e.call o c).accepted ↔ ¬ e.RefusedCall c := by
  cases c with
  | send data timestampUs now sendTo =>
    by_cases hrefused : e.udp.Refused data sendTo
    · obtain ⟨htaken,haccepted⟩ := call_of_refused hrefused o timestampUs now
      rw [htaken,haccepted,h]
      simp [RefusedCall,hrefused]
    · refine iff_of_true ?_ hrefused
      rcases call_send_cases o e data timestampUs now sendTo with
        heq | ⟨hfits,hopen,⟨error,hrefuses,-⟩ | ⟨-,stats,heq⟩⟩
      · rw [heq]
        exact h
      · exact absurd ⟨hfits,hopen,error,hrefuses⟩ hrefused
      · simp only [heq,h]
  | receive recvFrom => exact iff_of_true h not_false
  | processRetransmissions now timestampUs sendTo =>
    refine iff_of_true ?_ not_false
    simp only [call]
    exact h

end Endpoint

/-- A `send` that fails changes nothing exactly if it does not fail at the socket. In a run, every
number that is taken is that of a packet that was kept for retransmission, exactly if the socket
refuses no `send`. -/
theorem failed_send_iff (o : ByteOrder) :
    (∀ (self : ReliableUdp) (data : List UInt8) (timestampUs : UInt64) (now : ℕ)
        (sendTo : Except IoError Unit),
      (∀ error, (self.send o data timestampUs now sendTo).1 = .error error →
        (self.send o data timestampUs now sendTo).2.sendSequence = self.sendSequence ∧
        (self.send o data timestampUs now sendTo).2.sendWindow = self.sendWindow ∧
        (self.send o data timestampUs now sendTo).2.stats = self.stats) ↔
      ¬(data.length ≤ maxPacketSize ∧ self.windowFull = false ∧
        ∃ error, sendTo = .error error)) ∧
    ∀ (now : ℕ) (calls : List Call),
      (∀ done e, done <+: calls → Endpoint.run o now done = some e → e.taken = e.accepted) ↔
        Runs.Along (Endpoint.step o) (fun e c => ¬ e.RefusedCall c) (Endpoint.new now) calls := by
  constructor
  · intro self data timestampUs now sendTo
    constructor
    · intro hunchanged ⟨hfits,hopen,hrefuses⟩
      obtain ⟨error,heq⟩ := send_of_refused ⟨hfits,hopen,hrefuses⟩ o timestampUs now
      rw [heq] at hunchanged
      exact Endpoint.succ_ne_self _ (hunchanged error rfl).1
    · intro hcondition error herror
      have hrefused : ¬ self.Refused data sendTo :=
        fun h => hcondition ⟨h.fits,h.open_window,h.refuses⟩
      rw [send_error_of_not_refused hrefused herror]
      exact ⟨rfl,rfl,rfl⟩
  · intro now calls
    obtain ⟨last,hlast⟩ := Runs.exec_total
      (fun e c => ⟨Endpoint.call o e c,rfl⟩ : ∀ e c, ∃ t, Endpoint.step o e c = some t)
      (Endpoint.new now) calls
    have hstep : ∀ (e : Endpoint) (c : Call) (t : Endpoint), Endpoint.step o e c = some t → True →
        e.taken = e.accepted → (t.taken = t.accepted ↔ ¬ e.RefusedCall c) := by
      intro e c t ht _ h
      cases ht
      exact Endpoint.taken_eq_accepted_iff h
    have hreached := Runs.forall_reached_iff (fun _ _ _ _ _ => trivial) hstep hlast trivial
    exact hreached.trans (and_iff_right rfl)

/-- The first packet of a connection, refused by the socket, costs its number. -/
theorem failed_send_unreachable :
    ∃ error, ((new 0).send .little [65] 7 0 (.error ⟨.other,"unreachable"⟩)).1 = .error error ∧
      ((new 0).send .little [65] 7 0 (.error ⟨.other,"unreachable"⟩)).2.sendSequence = 1 ∧
      (new 0).sendSequence = 0 :=
  ⟨_,rfl,rfl,rfl⟩

end ReliableUdp
end UProtocols
