import Mathlib.Data.List.AList
import Mathlib.Data.Fin.Basic
import Mathlib.Logic.Function.Basic
import UProtocols.ByteOrder

/-!
# The Rust reliable-UDP endpoint

A model of `TCPIP/src/20/reliable_udp_implementation.rs`. The clock readings and
the outcomes of `send_to` and `recv_from` are arguments; the socket is the log of
the datagrams handed to it. Unsigned arithmetic wraps.
-/

namespace UProtocols
namespace ReliableUdp

def maxPacketSize : ℕ := 1400
abbrev windowSize : ℕ := 64
/-- `Duration::from_millis(100)` in nanoseconds. -/
def timeout : ℕ := 100000000
def maxRetries : UInt8 := 5

inductive ErrorKind
  | invalidData | invalidInput | wouldBlock | other
  deriving DecidableEq

structure IoError where
  kind : ErrorKind
  message : String
  deriving DecidableEq

structure PacketHeader where
  sequence : UInt32
  ack : UInt32
  ackBitfield : UInt64
  timestampUs : UInt64
  dataLength : UInt16
  flags : UInt8
  reserved : UInt8
  deriving DecidableEq

structure Packet where
  header : PacketHeader
  data : List UInt8
  deriving DecidableEq

namespace PacketHeader

/-- `size_of::<PacketHeader>()` for the packed layout. -/
def size : ℕ := 28

/-- The in-memory image of the packed header on a machine of byte order `o`. -/
def toBytes (o : ByteOrder) (h : PacketHeader) : List UInt8 :=
  o.bytes 4 h.sequence.toNat ++ (o.bytes 4 h.ack.toNat ++ (o.bytes 8 h.ackBitfield.toNat ++
    (o.bytes 8 h.timestampUs.toNat ++ (o.bytes 2 h.dataLength.toNat ++ [h.flags,h.reserved]))))

/-- The field of `width` bytes at `offset`. -/
def field (o : ByteOrder) (bytes : List UInt8) (offset width : ℕ) : ℕ :=
  o.value ((bytes.drop offset).take width)

/-- `read_unaligned` at the start of the buffer. -/
def read (o : ByteOrder) (bytes : List UInt8) : PacketHeader where
  sequence := UInt32.ofNat (field o bytes 0 4)
  ack := UInt32.ofNat (field o bytes 4 4)
  ackBitfield := UInt64.ofNat (field o bytes 8 8)
  timestampUs := UInt64.ofNat (field o bytes 16 8)
  dataLength := UInt16.ofNat (field o bytes 24 2)
  flags := UInt8.ofNat (field o bytes 26 1)
  reserved := UInt8.ofNat (field o bytes 27 1)

@[simp] theorem toBytes_length (o : ByteOrder) (h : PacketHeader) :
    (h.toBytes o).length = size := by
  simp [toBytes,size]

theorem field_here (o : ByteOrder) (xs ys : List UInt8) (w : ℕ) (h : xs.length = w) :
    field o (xs ++ ys) 0 w = o.value xs := by
  simp [field,← h]

theorem field_skip (o : ByteOrder) (xs ys : List UInt8) (n k w : ℕ) (h : xs.length = n) :
    field o (xs ++ ys) (n + k) w = field o ys k w := by
  rw [field,field,← List.drop_drop,List.drop_left' h]

/-- Reading an image back gives the header, whatever follows it. -/
theorem read_toBytes (o : ByteOrder) (h : PacketHeader) (rest : List UInt8) :
    read o (h.toBytes o ++ rest) = h := by
  have hs : field o (h.toBytes o ++ rest) 0 4 = h.sequence.toNat := by
    rw [toBytes,List.append_assoc,field_here _ _ _ _ (by simp)]
    exact o.value_bytes_of_lt h.sequence.toNat_lt
  have ha : field o (h.toBytes o ++ rest) 4 4 = h.ack.toNat := by
    rw [toBytes,List.append_assoc,field_skip o _ _ 4 0 4 (by simp),List.append_assoc,
      field_here _ _ _ _ (by simp)]
    exact o.value_bytes_of_lt h.ack.toNat_lt
  have hb : field o (h.toBytes o ++ rest) 8 8 = h.ackBitfield.toNat := by
    rw [toBytes,List.append_assoc,field_skip o _ _ 4 4 8 (by simp),List.append_assoc,
      field_skip o _ _ 4 0 8 (by simp),List.append_assoc,field_here _ _ _ _ (by simp)]
    exact o.value_bytes_of_lt h.ackBitfield.toNat_lt
  have ht : field o (h.toBytes o ++ rest) 16 8 = h.timestampUs.toNat := by
    rw [toBytes,List.append_assoc,field_skip o _ _ 4 12 8 (by simp),List.append_assoc,
      field_skip o _ _ 4 8 8 (by simp),List.append_assoc,field_skip o _ _ 8 0 8 (by simp),
      List.append_assoc,field_here _ _ _ _ (by simp)]
    exact o.value_bytes_of_lt h.timestampUs.toNat_lt
  have hd : field o (h.toBytes o ++ rest) 24 2 = h.dataLength.toNat := by
    rw [toBytes,List.append_assoc,field_skip o _ _ 4 20 2 (by simp),List.append_assoc,
      field_skip o _ _ 4 16 2 (by simp),List.append_assoc,field_skip o _ _ 8 8 2 (by simp),
      List.append_assoc,field_skip o _ _ 8 0 2 (by simp),List.append_assoc,
      field_here _ _ _ _ (by simp)]
    exact o.value_bytes_of_lt h.dataLength.toNat_lt
  have hlast : ∀ k, field o (h.toBytes o ++ rest) (26 + k) 1 =
      field o (h.flags :: h.reserved :: rest) k 1 := by
    intro k
    have hsplit : h.toBytes o ++ rest = (o.bytes 4 h.sequence.toNat ++ (o.bytes 4 h.ack.toNat ++
        (o.bytes 8 h.ackBitfield.toNat ++ (o.bytes 8 h.timestampUs.toNat ++
        o.bytes 2 h.dataLength.toNat)))) ++ (h.flags :: h.reserved :: rest) := by
      simp [toBytes]
    rw [hsplit]
    exact field_skip o _ _ 26 k 1 (by simp)
  have hbyte : ∀ b : UInt8, o.value [b] = b.toNat := by
    intro b
    cases o <;> simp [ByteOrder.value,ofLeBytes]
  have hf : field o (h.toBytes o ++ rest) 26 1 = h.flags.toNat := by
    simpa [field,hbyte] using hlast 0
  have hr : field o (h.toBytes o ++ rest) 27 1 = h.reserved.toNat := by
    simpa [field,hbyte] using hlast 1
  simp only [read,hs,ha,hb,ht,hd,hf,hr,UInt32.ofNat_toNat,UInt64.ofNat_toNat,
    UInt16.ofNat_toNat,UInt8.ofNat_toNat]

end PacketHeader

namespace Packet

/-- `Packet::new`. -/
def new (sequence : UInt32) (data : List UInt8) : Packet where
  header := ⟨sequence,0,0,0,UInt16.ofNat data.length,0,0⟩
  data := data

def toBytes (o : ByteOrder) (p : Packet) : List UInt8 := p.header.toBytes o ++ p.data

def fromBytes (o : ByteOrder) (bytes : List UInt8) : Except IoError Packet :=
  if bytes.length < PacketHeader.size then
    .error ⟨.invalidData,"Packet too small"⟩
  else
    let header := PacketHeader.read o bytes
    let dataEnd := PacketHeader.size + header.dataLength.toNat
    if bytes.length < dataEnd then
      .error ⟨.invalidData,"Incomplete packet"⟩
    else
      .ok ⟨header,(bytes.take dataEnd).drop PacketHeader.size⟩

/-- A packet with its time stamp replaced, as a retransmission sends it. -/
def withTimestamp (p : Packet) (timestampUs : UInt64) : Packet :=
  { p with header := { p.header with timestampUs := timestampUs } }

@[simp] theorem withTimestamp_sequence (p : Packet) (t : UInt64) :
    (p.withTimestamp t).header.sequence = p.header.sequence := rfl
@[simp] theorem withTimestamp_ack (p : Packet) (t : UInt64) :
    (p.withTimestamp t).header.ack = p.header.ack := rfl
@[simp] theorem withTimestamp_dataLength (p : Packet) (t : UInt64) :
    (p.withTimestamp t).header.dataLength = p.header.dataLength := rfl
@[simp] theorem withTimestamp_data (p : Packet) (t : UInt64) :
    (p.withTimestamp t).data = p.data := rfl
@[simp] theorem withTimestamp_withTimestamp (p : Packet) (t u : UInt64) :
    (p.withTimestamp t).withTimestamp u = p.withTimestamp u := rfl
@[simp] theorem withTimestamp_self (p : Packet) : p.withTimestamp p.header.timestampUs = p := rfl

/-- The length field of the header is the length of the data. -/
def LengthOk (p : Packet) : Prop := p.header.dataLength.toNat = p.data.length

theorem fromBytes_toBytes (o : ByteOrder) (p : Packet) (h : p.LengthOk) :
    fromBytes o (p.toBytes o) = .ok p := by
  have hlen : (p.toBytes o).length = PacketHeader.size + p.data.length := by simp [toBytes]
  have hread : PacketHeader.read o (p.toBytes o) = p.header :=
    PacketHeader.read_toBytes o p.header p.data
  unfold LengthOk at h
  rw [fromBytes,if_neg (by omega)]
  simp only [hread,h,hlen,lt_irrefl,if_false]
  congr 1
  rw [← hlen,List.take_length]
  simp [toBytes]

end Packet

structure PendingPacket where
  packet : Packet
  sendTime : ℕ
  retryCount : UInt8
  acked : Bool

structure Statistics where
  packetsSent : UInt64 := 0
  packetsReceived : UInt64 := 0
  retransmissions : UInt64 := 0
  acksReceived : UInt64 := 0
  packetsDropped : UInt64 := 0

end ReliableUdp

open ReliableUdp in
/-- The endpoint; `socket` lists the datagrams that `send_to` accepted, oldest first. -/
structure ReliableUdp where
  socket : List (List UInt8)
  sendSequence : UInt32
  sendWindow : Fin windowSize → PendingPacket
  recvSequence : UInt32
  recvAckBitfield : UInt64
  recvBuffer : AList fun _ : UInt32 => Packet
  stats : Statistics

namespace ReliableUdp

/-- `ReliableUdp::new`, once the socket is bound and the remote address parsed. -/
def new (now : ℕ) : ReliableUdp where
  socket := []
  sendSequence := 0
  sendWindow := fun _ => ⟨Packet.new 0 [],now,0,true⟩
  recvSequence := 0
  recvAckBitfield := 0
  recvBuffer := ∅
  stats := {}

def saturatingSub (a b : UInt32) : UInt32 := if a < b then 0 else a - b

/-- `sequence as usize % WINDOW_SIZE`. -/
def slotOf (sequence : UInt32) : Fin windowSize := Fin.ofNat windowSize sequence.toNat

def transmitPacket (o : ByteOrder) (self : ReliableUdp) (packet : Packet)
    (sendTo : Except IoError Unit) : Except IoError Unit × ReliableUdp :=
  match sendTo with
  | .error e => (.error e,self)
  | .ok () => (.ok (),{ self with socket := self.socket ++ [packet.toBytes o] })

/-- The packet that `send` builds before it advances `send_sequence`. -/
def nextPacket (self : ReliableUdp) (data : List UInt8) (timestampUs : UInt64) : Packet :=
  let packet := Packet.new self.sendSequence data
  { packet with header :=
    { packet.header with
      ack := self.recvSequence
      ackBitfield := self.recvAckBitfield
      timestampUs := timestampUs } }

/-- `send` refuses when the slot's entry is unacked and still inside the window. -/
def windowFull (self : ReliableUdp) : Bool :=
  let pending := self.sendWindow (slotOf self.sendSequence)
  !pending.acked &&
    decide (pending.packet.header.sequence ≥ saturatingSub self.sendSequence 64)

def send (o : ByteOrder) (self : ReliableUdp) (data : List UInt8) (timestampUs : UInt64)
    (now : ℕ) (sendTo : Except IoError Unit) : Except IoError Unit × ReliableUdp :=
  if data.length > maxPacketSize then
    (.error ⟨.invalidInput,"Data exceeds max packet size"⟩,self)
  else if self.windowFull then
    (.error ⟨.wouldBlock,"Send window full"⟩,self)
  else
    let slot := slotOf self.sendSequence
    let packet := self.nextPacket data timestampUs
    let advanced := { self with sendSequence := self.sendSequence + 1 }
    match transmitPacket o advanced packet sendTo with
    | (.error e,self) => (.error e,self)
    | (.ok (),self) =>
      (.ok (),{ self with
        sendWindow := Function.update self.sendWindow slot ⟨packet,now,0,false⟩
        stats := { self.stats with packetsSent := self.stats.packetsSent + 1 } })

/-- The two tests of `process_acknowledgments` on the sequence of an unacked entry. -/
def acknowledges (header : PacketHeader) (seq : UInt32) : Bool :=
  -- direct ACK
  if seq = header.ack then true
  -- selective ACK bitfield
  else if seq < header.ack ∧ header.ack - seq ≤ 64 then
    let bitPos := header.ack - seq - 1
    decide (header.ackBitfield &&& (1 <<< bitPos.toUInt64) ≠ 0)
  else false

def processAcknowledgments (self : ReliableUdp) (header : PacketHeader) : ReliableUdp :=
  { self with
    stats := { self.stats with acksReceived := self.stats.acksReceived + 1 }
    sendWindow := fun i =>
      let pending := self.sendWindow i
      if pending.acked then pending
      else if acknowledges header pending.packet.header.sequence then { pending with acked := true }
      else pending }

/-- The `while let` loop that removes consecutive packets from `recv_buffer`. The
fuel is the number of buffered packets: every iteration removes one. -/
def drainBuffered : ℕ → UInt32 → AList (fun _ : UInt32 => Packet) → List (List UInt8) →
    UInt32 × AList (fun _ : UInt32 => Packet) × List (List UInt8)
  | 0, seq, buffer, result => (seq,buffer,result)
  | fuel+1, seq, buffer, result =>
    match buffer.lookup seq with
    | none => (seq,buffer,result)
    | some buffered => drainBuffered fuel (seq + 1) (buffer.erase seq) (result ++ [buffered.data])

def processReceivedPacket (self : ReliableUdp) (packet : Packet) :
    Option (List UInt8) × ReliableUdp :=
  let seq := packet.header.sequence
  if seq = self.recvSequence then
    let drained := drainBuffered self.recvBuffer.entries.length (self.recvSequence + 1)
      self.recvBuffer [packet.data]
    -- only the first packet is returned; the drained ones are dropped here
    (drained.2.2.head?,{ self with
      recvSequence := drained.1
      recvAckBitfield := 0
      recvBuffer := drained.2.1 })
  else if seq > self.recvSequence ∧ seq < self.recvSequence + 64 then
    let bitPos := seq - self.recvSequence - 1
    (none,{ self with
      recvAckBitfield := self.recvAckBitfield ||| (1 <<< bitPos.toUInt64)
      recvBuffer := self.recvBuffer.insert seq packet })
  else
    (none,self)

def countReceived (self : ReliableUdp) : ReliableUdp :=
  { self with stats := { self.stats with packetsReceived := self.stats.packetsReceived + 1 } }

/-- `recv_from` fills a buffer of `MAX_PACKET_SIZE + 256` bytes. -/
def receive (o : ByteOrder) (self : ReliableUdp) (recvFrom : Except IoError (List UInt8)) :
    Except IoError (Option (List UInt8)) × ReliableUdp :=
  match recvFrom with
  | .ok datagram =>
    match Packet.fromBytes o (datagram.take (maxPacketSize + 256)) with
    | .error e => (.error e,self)
    | .ok packet =>
      let acked := self.processAcknowledgments packet.header
      if packet.data.isEmpty then (.ok none,acked)
      else
        let received := acked.countReceived.processReceivedPacket packet
        (.ok received.1,received.2)
  | .error e => if e.kind = .wouldBlock then (.ok none,self) else (.error e,self)

/-- One iteration of the loop of `process_retransmissions`. -/
def retransmitSlot (o : ByteOrder) (now : ℕ) (timestampUs : Fin windowSize → UInt64)
    (sendTo : Fin windowSize → Except IoError Unit) (self : ReliableUdp)
    (i : Fin windowSize) : ReliableUdp :=
  let pending := self.sendWindow i
  if pending.acked ∨ pending.packet.header.sequence ≥ self.sendSequence then self
  else if now - pending.sendTime > timeout then
    if pending.retryCount ≥ maxRetries then
      { self with
        sendWindow := Function.update self.sendWindow i { pending with acked := true }
        stats := { self.stats with packetsDropped := self.stats.packetsDropped + 1 } }
    else
      let packet := pending.packet.withTimestamp (timestampUs i)
      match transmitPacket o self packet (sendTo i) with
      | (.error _,self) => self
      | (.ok (),self) =>
        { self with
          sendWindow := Function.update self.sendWindow i
            ⟨packet,now,pending.retryCount + 1,pending.acked⟩
          stats := { self.stats with retransmissions := self.stats.retransmissions + 1 } }
  else self

def processRetransmissions (o : ByteOrder) (self : ReliableUdp) (now : ℕ)
    (timestampUs : Fin windowSize → UInt64) (sendTo : Fin windowSize → Except IoError Unit) :
    ReliableUdp :=
  (List.finRange windowSize).foldl (retransmitSlot o now timestampUs sendTo) self

/-! ### What one call can do -/

theorem send_cases (o : ByteOrder) (self : ReliableUdp) (data : List UInt8)
    (timestampUs : UInt64) (now : ℕ) (sendTo : Except IoError Unit) :
    (∃ e, self.send o data timestampUs now sendTo = (.error e,self)) ∨
    (data.length ≤ maxPacketSize ∧ self.windowFull = false ∧
      ((∃ e, sendTo = .error e ∧ self.send o data timestampUs now sendTo =
          (.error e,{ self with sendSequence := self.sendSequence + 1 })) ∨
        (sendTo = .ok () ∧ self.send o data timestampUs now sendTo = (.ok (),{ self with
          socket := self.socket ++ [(self.nextPacket data timestampUs).toBytes o]
          sendSequence := self.sendSequence + 1
          sendWindow := Function.update self.sendWindow (slotOf self.sendSequence)
            ⟨self.nextPacket data timestampUs,now,0,false⟩
          stats := { self.stats with packetsSent := self.stats.packetsSent + 1 } })))) := by
  unfold send
  split_ifs with hlen hfull
  · exact Or.inl ⟨_,rfl⟩
  · exact Or.inl ⟨_,rfl⟩
  · refine Or.inr ⟨by omega,by simpa using hfull,?_⟩
    cases sendTo with
    | error e => exact Or.inl ⟨e,rfl,rfl⟩
    | ok u => exact Or.inr ⟨rfl,rfl⟩

theorem drainBuffered_none {fuel : ℕ} {seq : UInt32} {buffer : AList fun _ : UInt32 => Packet}
    {result : List (List UInt8)} (h : buffer.lookup seq = none) :
    drainBuffered fuel seq buffer result = (seq,buffer,result) := by
  cases fuel <;> simp [drainBuffered,h]

theorem drainBuffered_some {fuel : ℕ} {seq : UInt32} {buffer : AList fun _ : UInt32 => Packet}
    {result : List (List UInt8)} {p : Packet} (h : buffer.lookup seq = some p) :
    drainBuffered (fuel + 1) seq buffer result =
      drainBuffered fuel (seq + 1) (buffer.erase seq) (result ++ [p.data]) := by
  simp [drainBuffered,h]

/-- The invariant rule of the drain loop. -/
theorem drainBuffered_invariant {M : UInt32 → AList (fun _ : UInt32 => Packet) → Prop}
    (hstep : ∀ seq buffer p, buffer.lookup seq = some p → M seq buffer →
      M (seq + 1) (buffer.erase seq))
    (fuel : ℕ) (seq : UInt32) (buffer : AList fun _ : UInt32 => Packet)
    (result : List (List UInt8)) (h : M seq buffer) :
    M (drainBuffered fuel seq buffer result).1 (drainBuffered fuel seq buffer result).2.1 := by
  induction fuel generalizing seq buffer result with
  | zero => exact h
  | succ fuel ih =>
    cases hl : buffer.lookup seq with
    | none =>
      rw [drainBuffered_none hl]
      exact h
    | some p =>
      rw [drainBuffered_some hl]
      exact ih _ _ _ (hstep seq buffer p hl h)

theorem length_erase_of_lookup {seq : UInt32} {buffer : AList fun _ : UInt32 => Packet}
    {p : Packet} (h : buffer.lookup seq = some p) :
    (buffer.erase seq).entries.length + 1 = buffer.entries.length := by
  have hmem : seq ∈ buffer.keys := AList.mem_keys.mp (AList.lookup_isSome.mp (by simp [h]))
  have hkeys : (buffer.erase seq).keys.length + 1 = buffer.keys.length := by
    rw [AList.keys_erase,List.length_erase_of_mem hmem]
    have := List.length_pos_of_mem hmem
    omega
  simpa [AList.keys,List.keys] using hkeys

/-- The loop ends because the next number is not buffered, not for lack of fuel. -/
theorem drainBuffered_done (fuel : ℕ) (seq : UInt32) (buffer : AList fun _ : UInt32 => Packet)
    (result : List (List UInt8)) (h : buffer.entries.length ≤ fuel) :
    (drainBuffered fuel seq buffer result).2.1.lookup
      (drainBuffered fuel seq buffer result).1 = none := by
  induction fuel generalizing seq buffer result with
  | zero =>
    have hnil : buffer.entries = [] := List.length_eq_zero_iff.mp (by omega)
    simp [drainBuffered,AList.lookup,hnil]
  | succ fuel ih =>
    cases hl : buffer.lookup seq with
    | none =>
      rw [drainBuffered_none hl]
      exact hl
    | some p =>
      have hlen := length_erase_of_lookup hl
      rw [drainBuffered_some hl]
      exact ih (seq + 1) (buffer.erase seq) (result ++ [p.data]) (by omega)

theorem drainBuffered_head (fuel : ℕ) (seq : UInt32) (buffer : AList fun _ : UInt32 => Packet)
    (data : List UInt8) (rest : List (List UInt8)) :
    (drainBuffered fuel seq buffer (data::rest)).2.2.head? = some data := by
  induction fuel generalizing seq buffer rest with
  | zero => rfl
  | succ fuel ih =>
    cases hl : buffer.lookup seq with
    | none => rw [drainBuffered_none hl]; rfl
    | some p =>
      rw [drainBuffered_some hl]
      exact ih (seq + 1) (buffer.erase seq) (rest ++ [p.data])

/-- The receive state after an in-order packet. -/
def drained (self : ReliableUdp) (packet : Packet) :
    UInt32 × AList (fun _ : UInt32 => Packet) × List (List UInt8) :=
  drainBuffered self.recvBuffer.entries.length (self.recvSequence + 1) self.recvBuffer [packet.data]

theorem processReceivedPacket_cases (self : ReliableUdp) (packet : Packet) :
    (packet.header.sequence = self.recvSequence ∧
      self.processReceivedPacket packet = (some packet.data,{ self with
        recvSequence := (self.drained packet).1
        recvAckBitfield := 0
        recvBuffer := (self.drained packet).2.1 })) ∨
    (packet.header.sequence > self.recvSequence ∧
      ∃ bits, self.processReceivedPacket packet = (none,{ self with
        recvAckBitfield := bits
        recvBuffer := self.recvBuffer.insert packet.header.sequence packet })) ∨
    (packet.header.sequence ≠ self.recvSequence ∧
      self.processReceivedPacket packet = (none,self)) := by
  unfold processReceivedPacket
  dsimp only
  split_ifs with heq hwin
  · refine Or.inl ⟨heq,?_⟩
    simp only [drainBuffered_head]
    rfl
  · exact Or.inr (Or.inl ⟨hwin.1,_,rfl⟩)
  · exact Or.inr (Or.inr ⟨heq,rfl⟩)

theorem receive_cases (o : ByteOrder) (self : ReliableUdp)
    (recvFrom : Except IoError (List UInt8)) :
    (∃ r, self.receive o recvFrom = (r,self) ∧ ∀ data, r ≠ .ok (some data)) ∨
    (∃ datagram packet, recvFrom = .ok datagram ∧
      Packet.fromBytes o (datagram.take (maxPacketSize + 256)) = .ok packet ∧
      ((packet.data = [] ∧
          self.receive o recvFrom = (.ok none,self.processAcknowledgments packet.header)) ∨
        (packet.data ≠ [] ∧ self.receive o recvFrom =
          (.ok ((self.processAcknowledgments packet.header).countReceived.processReceivedPacket
              packet).1,
            ((self.processAcknowledgments packet.header).countReceived.processReceivedPacket
              packet).2)))) := by
  cases recvFrom with
  | error e =>
    left
    by_cases hk : e.kind = .wouldBlock
    · exact ⟨.ok none,by simp [receive,hk],by simp⟩
    · exact ⟨.error e,by simp [receive,hk],by simp⟩
  | ok datagram =>
    cases hp : Packet.fromBytes o (datagram.take (maxPacketSize + 256)) with
    | error e => exact Or.inl ⟨.error e,by simp [receive,hp],by simp⟩
    | ok packet =>
      refine Or.inr ⟨datagram,packet,rfl,hp,?_⟩
      by_cases hd : packet.data = []
      · exact Or.inl ⟨hd,by simp [receive,hp,hd]⟩
      · exact Or.inr ⟨hd,by simp [receive,hp,hd]⟩

theorem receive_error (o : ByteOrder) (self : ReliableUdp) (e : IoError) :
    (self.receive o (.error e)).2 = self := by
  simp only [receive]
  split_ifs <;> rfl

theorem retransmitSlot_cases (o : ByteOrder) (now : ℕ) (timestampUs : Fin windowSize → UInt64)
    (sendTo : Fin windowSize → Except IoError Unit) (self : ReliableUdp) (i : Fin windowSize) :
    retransmitSlot o now timestampUs sendTo self i = self ∨
    ((self.sendWindow i).acked = false ∧
      ((∃ stats, retransmitSlot o now timestampUs sendTo self i = { self with
          sendWindow := Function.update self.sendWindow i { self.sendWindow i with acked := true }
          stats := stats }) ∨
        (∃ retries stats, retransmitSlot o now timestampUs sendTo self i = { self with
          socket := self.socket ++
            [((self.sendWindow i).packet.withTimestamp (timestampUs i)).toBytes o]
          sendWindow := Function.update self.sendWindow i
            ⟨(self.sendWindow i).packet.withTimestamp (timestampUs i),now,retries,false⟩
          stats := stats }))) := by
  unfold retransmitSlot
  dsimp only
  split_ifs with hskip htime hmax
  · exact Or.inl rfl
  · have hacked : (self.sendWindow i).acked = false := by simp_all
    exact Or.inr ⟨hacked,Or.inl ⟨_,rfl⟩⟩
  · have hacked : (self.sendWindow i).acked = false := by simp_all
    cases hsend : sendTo i with
    | error e => exact Or.inl rfl
    | ok u =>
      refine Or.inr ⟨hacked,Or.inr ⟨(self.sendWindow i).retryCount + 1,
        { self.stats with retransmissions := self.stats.retransmissions + 1 },?_⟩⟩
      simp [transmitPacket,hacked]
  · exact Or.inl rfl

/-- Window entries keep their packet up to its time stamp, and acked entries stay acked. -/
def Ages (w w' : Fin windowSize → PendingPacket) : Prop :=
  ∀ i, (∃ t, (w' i).packet = (w i).packet.withTimestamp t) ∧
    ((w i).acked = true → (w' i).acked = true)

theorem Ages.refl (w : Fin windowSize → PendingPacket) : Ages w w :=
  fun _ => ⟨⟨_,(Packet.withTimestamp_self _).symm⟩,id⟩

theorem Ages.unacked {w w' : Fin windowSize → PendingPacket} (h : Ages w w') {i : Fin windowSize}
    (hi : (w' i).acked = false) : (w i).acked = false := by
  by_contra hne
  have hacked := (h i).2 (by simpa using hne)
  simp [hi] at hacked

theorem processAcknowledgments_ages (self : ReliableUdp) (header : PacketHeader) :
    Ages self.sendWindow (self.processAcknowledgments header).sendWindow := by
  intro i
  have hpacket : ((self.processAcknowledgments header).sendWindow i).packet =
      (self.sendWindow i).packet := by
    simp only [processAcknowledgments]
    split_ifs <;> rfl
  refine ⟨⟨_,hpacket.trans (Packet.withTimestamp_self _).symm⟩,fun hi => ?_⟩
  simp [processAcknowledgments,hi]

/-- What `process_retransmissions` may change: entries age, and every new datagram is an
unacked entry with a new time stamp. -/
structure Retransmits (o : ByteOrder) (s t : ReliableUdp) : Prop where
  sendSequence : t.sendSequence = s.sendSequence
  recvSequence : t.recvSequence = s.recvSequence
  recvBuffer : t.recvBuffer = s.recvBuffer
  ages : Ages s.sendWindow t.sendWindow
  socket : ∀ b ∈ t.socket, b ∈ s.socket ∨ ∃ i u, (s.sendWindow i).acked = false ∧
    b = ((s.sendWindow i).packet.withTimestamp u).toBytes o

theorem Retransmits.slot {o : ByteOrder} {now : ℕ} {timestampUs : Fin windowSize → UInt64}
    {sendTo : Fin windowSize → Except IoError Unit} {self s : ReliableUdp}
    (h : Retransmits o self s) (i : Fin windowSize) :
    Retransmits o self (retransmitSlot o now timestampUs sendTo s i) := by
  obtain ⟨t,ht⟩ := (h.ages i).1
  rcases retransmitSlot_cases o now timestampUs sendTo s i with
    heq | ⟨hun,⟨stats,heq⟩ | ⟨retries,stats,heq⟩⟩
  · rw [heq]
    exact h
  · rw [heq]
    refine ⟨h.sendSequence,h.recvSequence,h.recvBuffer,fun j => ?_,h.socket⟩
    by_cases hj : j = i
    · subst j
      exact ⟨⟨t,by simpa using ht⟩,by simp⟩
    · simpa [hj] using h.ages j
  · rw [heq]
    refine ⟨h.sendSequence,h.recvSequence,h.recvBuffer,fun j => ?_,fun b hb => ?_⟩
    · by_cases hj : j = i
      · subst j
        refine ⟨⟨timestampUs i,by simp [ht]⟩,fun hi => ?_⟩
        simp [(h.ages i).2 hi] at hun
      · simpa [hj] using h.ages j
    · rcases List.mem_append.mp hb with hb | hb
      · exact h.socket b hb
      · refine Or.inr ⟨i,timestampUs i,h.ages.unacked hun,?_⟩
        rw [List.mem_singleton.mp hb,ht]
        rfl

theorem processRetransmissions_spec (o : ByteOrder) (self : ReliableUdp) (now : ℕ)
    (timestampUs : Fin windowSize → UInt64) (sendTo : Fin windowSize → Except IoError Unit) :
    Retransmits o self (self.processRetransmissions o now timestampUs sendTo) := by
  have hinit : Retransmits o self self := ⟨rfl,rfl,rfl,Ages.refl _,fun _ hb => Or.inl hb⟩
  exact List.foldlRecOn _ _ hinit fun _ hs i _ => hs.slot i

end ReliableUdp
end UProtocols
