import Mathlib.Algebra.Ring.Nat
import Mathlib.Data.Fin.Basic
import Mathlib.Logic.Function.Basic
import UProtocols.Runs

/-!
# The C reliable-UDP context

A model of `TCPIP/src/20/reliable_udp_implementation.c`. Clock readings and the
outcomes of `sendto` and `recvfrom` are arguments. Unsigned arithmetic wraps, and a
call whose `memcpy` would leave its buffer has no successor.
-/

namespace UProtocols
namespace Rudp

def maxPacketSize : ℕ := 1400
abbrev windowSize : ℕ := 32
def timeoutMs : UInt64 := 100
def maxRetries : ℕ := 5

instance neZero_windowSize : NeZero windowSize := Nat.instNeZeroSucc

/-- `packet_t`; `data` is the byte array with the tail padding of the struct behind it. -/
structure Packet where
  seq : UInt32
  ack : UInt32
  ackBits : UInt32
  timestamp : UInt64
  dataLen : UInt16
  flags : UInt8
  data : ℕ → UInt8

/-- What one `sendto` puts on the wire: the header fields and the bytes from `data` on. -/
structure Datagram where
  seq : UInt32
  ack : UInt32
  ackBits : UInt32
  timestamp : UInt64
  dataLen : UInt16
  flags : UInt8
  body : List UInt8
  deriving DecidableEq

/-- The first `sizeof(packet_t) - MAX_PACKET_SIZE + len` bytes. The size is 1432 and `data`
starts at offset 27, so five bytes behind the payload are sent too. -/
def Packet.datagram (p : Packet) (len : ℕ) : Datagram :=
  ⟨p.seq,p.ack,p.ackBits,p.timestamp,p.dataLen,p.flags,(List.range (len + 5)).map p.data⟩

structure PendingPacket where
  packet : Packet
  sendTime : UInt64
  retries : ℕ
  acked : Bool

structure Ctx where
  sendSeq : UInt32
  sendWindow : Fin windowSize → PendingPacket
  recvSeq : UInt32
  recvAckBits : UInt32
  recvBuffer : Fin windowSize → ℕ → UInt8
  recvLengths : Fin windowSize → ℕ

/-- `rudp_init`: all memory comes from `calloc`, so every slot starts with `acked == 0`. -/
def rudpInit : Ctx where
  sendSeq := 0
  sendWindow := fun _ => ⟨⟨0,0,0,0,0,0,fun _ => 0⟩,0,0,false⟩
  recvSeq := 0
  recvAckBits := 0
  recvBuffer := fun _ _ => 0
  recvLengths := fun _ => 0

def slotOf (seq : UInt32) : Fin windowSize := Fin.ofNat windowSize seq.toNat

/-- `memcpy(dst, src, len)` for `len = src.length`. -/
def memcpy (dst : ℕ → UInt8) (src : List UInt8) : ℕ → UInt8 := fun i => src.getD i (dst i)

def payload (p : Packet) : List UInt8 := (List.range p.dataLen.toNat).map p.data

/-- The test of `rudp_send` on the slot it would use. -/
def windowFull (ctx : Ctx) : Bool :=
  let pending := ctx.sendWindow (slotOf ctx.sendSeq)
  !pending.acked && decide (pending.packet.seq ≥ ctx.sendSeq - 32)

/-- The packet that `rudp_send` writes into its slot. -/
def nextPacket (ctx : Ctx) (data : List UInt8) (now : UInt64) : Packet where
  seq := ctx.sendSeq
  ack := ctx.recvSeq
  ackBits := ctx.recvAckBits
  timestamp := now
  dataLen := UInt16.ofNat data.length
  flags := 0
  data := memcpy (ctx.sendWindow (slotOf ctx.sendSeq)).packet.data data

/-- The return value, the context, and the datagram if `sendto` succeeded. The packet is
written and the number taken before `sendto` can fail. -/
def rudpSend (ctx : Ctx) (data : List UInt8) (now : UInt64) (sendto : Bool) :
    ℤ × Ctx × List Datagram :=
  if data.length > maxPacketSize then (-1,ctx,[])
  else if windowFull ctx then (-2,ctx,[])
  else
    let slot := slotOf ctx.sendSeq
    let pending := ctx.sendWindow slot
    let pkt := nextPacket ctx data now
    let written := { ctx with
      sendSeq := ctx.sendSeq + 1
      sendWindow := Function.update ctx.sendWindow slot { pending with packet := pkt } }
    if sendto then
      (0,{ written with
        sendWindow := Function.update written.sendWindow slot ⟨pkt,pkt.timestamp,0,false⟩ },
        [pkt.datagram data.length])
    else (-1,written,[])

/-- The two tests of `rudp_process_ack` on an unacked slot. -/
def acknowledges (pkt : Packet) (seq : UInt32) : Bool :=
  if seq = pkt.ack then true
  else if seq < pkt.ack ∧ pkt.ack - seq ≤ 32 then
    decide (pkt.ackBits &&& (1 <<< (pkt.ack - seq - 1)) ≠ 0)
  else false

def rudpProcessAck (ctx : Ctx) (pkt : Packet) : Ctx :=
  { ctx with sendWindow := fun i =>
      let pending := ctx.sendWindow i
      if pending.acked then pending
      else if acknowledges pkt pending.packet.seq then { pending with acked := true }
      else pending }

/-- The outcome of `recvfrom`; the bytes a short datagram leaves unset are arbitrary. -/
inductive RecvFrom
  | packet (pkt : Packet)
  | wouldBlock
  | error

/-- The return value, the bytes copied into the caller's buffer, and the context. -/
structure Received where
  ret : ℤ
  buffer : List UInt8
  ctx : Ctx

def rudpRecv (ctx : Ctx) (recvfrom : RecvFrom) (maxLen : ℕ) : Option Received :=
  match recvfrom with
  | .wouldBlock => some ⟨0,[],ctx⟩
  | .error => some ⟨-1,[],ctx⟩
  | .packet pkt =>
    let ctx := rudpProcessAck ctx pkt
    if pkt.dataLen > 0 then
      let seqDiff := pkt.seq - ctx.recvSeq
      if seqDiff = 0 then
        -- `max_len` is not checked by the code
        if pkt.dataLen.toNat ≤ maxPacketSize ∧ pkt.dataLen.toNat ≤ maxLen then
          some ⟨pkt.dataLen.toNat,payload pkt,
            { ctx with recvSeq := ctx.recvSeq + 1, recvAckBits := 0 }⟩
        else none
      else if seqDiff < 32 then
        let slot := slotOf pkt.seq
        if pkt.dataLen.toNat ≤ maxPacketSize then
          some ⟨0,[],{ ctx with
            recvBuffer := Function.update ctx.recvBuffer slot
              (memcpy (ctx.recvBuffer slot) (payload pkt))
            recvLengths := Function.update ctx.recvLengths slot pkt.dataLen.toNat
            recvAckBits := ctx.recvAckBits ||| (1 <<< (seqDiff - 1)) }⟩
        else none
      else some ⟨0,[],ctx⟩
    else some ⟨0,[],ctx⟩

/-- The tests that a slot passes before `rudp_retransmit` looks at its retries. -/
def timedOut (ctx : Ctx) (now : UInt64) (i : Fin windowSize) : Bool :=
  let pending := ctx.sendWindow i
  !pending.acked && decide (pending.packet.seq < ctx.sendSeq) &&
    decide (now - pending.sendTime > timeoutMs)

/-- One iteration of the loop of `rudp_retransmit`, with the datagrams sent so far. -/
def retransmitSlot (now : UInt64) (s : Ctx × List Datagram) (i : Fin windowSize) :
    Ctx × List Datagram :=
  let ctx := s.1
  let pending := ctx.sendWindow i
  if timedOut ctx now i then
    if pending.retries ≥ maxRetries then
      ({ ctx with
        sendWindow := Function.update ctx.sendWindow i { pending with acked := true } },s.2)
    else
      let packet := { pending.packet with timestamp := now }
      ({ ctx with
        sendWindow := Function.update ctx.sendWindow i
          { pending with packet := packet, sendTime := now, retries := pending.retries + 1 } },
        s.2 ++ [packet.datagram packet.dataLen.toNat])
  else s

def rudpRetransmit (ctx : Ctx) (now : UInt64) : Ctx × List Datagram :=
  (List.finRange windowSize).foldl (retransmitSlot now) (ctx,[])

end Rudp
end UProtocols
