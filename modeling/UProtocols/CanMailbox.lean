import Mathlib.Data.Nat.Bitwise
import UProtocols.ByteOrder
import UProtocols.RingSlots

/-!
# The mailboxes of the CAN driver

`CAN_TX_IRQHandler` and `CAN_RX_IRQHandler` of `CAN_Ring_Buffer.c` with the ring buffers that they
take messages from and put them into. Neither handler is interrupted by the other side here.
-/

namespace UProtocols
namespace CanMailbox

structure CanMsg where
  id : UInt32
  dlc : UInt8
  data : Vector UInt8 8
  timestamp : UInt32
  isExtended : Bool
  isRtr : Bool
  deriving DecidableEq

/-- `can_ring_buffer_t`; `size` is the number of slots. -/
structure CanRingBuffer where
  buffer : List CanMsg
  head : ℕ
  tail : ℕ
  count : ℕ
  tail_lt : tail < buffer.length
  head_eq : head = (tail + count) % buffer.length
  count_le : count ≤ buffer.length
  deriving DecidableEq

namespace CanRingBuffer

def size (ring : CanRingBuffer) : ℕ := ring.buffer.length

def isEmpty (ring : CanRingBuffer) : Bool := ring.count == 0

def isFull (ring : CanRingBuffer) : Bool := ring.count ≥ ring.size

/-- `can_ring_push`; none where it returns false. -/
def push (ring : CanRingBuffer) (msg : CanMsg) : Option CanRingBuffer :=
  if h : ring.isFull then none
  else some {
    buffer := ring.buffer.set ring.head msg
    head := (ring.head + 1) % ring.size
    tail := ring.tail
    count := ring.count + 1
    tail_lt := by
      rw [List.length_set]
      exact ring.tail_lt
    head_eq := by
      rw [List.length_set,size,ring.head_eq,Nat.mod_add_mod,Nat.add_assoc]
    count_le := by
      have hlt : ring.count < ring.buffer.length := by simpa [isFull,size] using h
      rw [List.length_set]
      exact hlt }

/-- `can_ring_pop`; none where it returns false. -/
def pop (ring : CanRingBuffer) : Option (CanMsg × CanRingBuffer) :=
  if h : ring.isEmpty then none
  else some (ring.buffer.get ⟨ring.tail,ring.tail_lt⟩,{
    buffer := ring.buffer
    head := ring.head
    tail := (ring.tail + 1) % ring.size
    count := ring.count - 1
    tail_lt := Nat.mod_lt _ (Nat.zero_lt_of_lt ring.tail_lt)
    head_eq := by
      have hpos : ring.count ≠ 0 := by simpa [isEmpty] using h
      rw [size,Nat.mod_add_mod,ring.head_eq]
      congr 1
      omega
    count_le := Nat.le_trans (Nat.sub_le _ _) ring.count_le })

/-- The messages in the buffer, the oldest first. -/
def queue (ring : CanRingBuffer) : List CanMsg :=
  (List.range ring.count).map fun i => ring.buffer.get
    ⟨(ring.tail + i) % ring.buffer.length,Nat.mod_lt _ (Nat.zero_lt_of_lt ring.tail_lt)⟩

end CanRingBuffer

/-- The four registers of a mailbox: identifier, length, low and high data. -/
structure Mailbox where
  ir : UInt32
  dtr : UInt32
  dlr : UInt32
  dhr : UInt32
  deriving DecidableEq

/-- The driver: the registers it uses, its buffers and its count of lost messages. -/
structure Driver where
  txMailbox : Mailbox
  rxFifo : Mailbox
  /-- `CAN_IER_TMEIE`. -/
  tmeie : Bool
  /-- `CAN_RF0R_RFOM0`. -/
  rfom0 : Bool
  txRing : CanRingBuffer
  rxRing : CanRingBuffer
  rxOverflowCount : ℕ

def packWord (a b c d : UInt8) : UInt32 :=
  (d.toUInt32 <<< 24) ||| (c.toUInt32 <<< 16) ||| (b.toUInt32 <<< 8) ||| a.toUInt32

def byteOf (word shift : UInt32) : UInt8 := ((word >>> shift) &&& 0xFF).toUInt8

def loadMailbox (msg : CanMsg) : Mailbox where
  ir := ((msg.id <<< 21) ||| (if msg.isExtended then 4 else 0)) ||| 1
  dtr := msg.dlc.toUInt32
  dlr := packWord msg.data[0] msg.data[1] msg.data[2] msg.data[3]
  dhr := packWord msg.data[4] msg.data[5] msg.data[6] msg.data[7]

def canTxIrqHandler (s : Driver) : Driver :=
  match s.txRing.pop with
  | some (msg,txRing) => { s with txMailbox := loadMailbox msg, txRing }
  | none => { s with tmeie := false }

/-- The message that is read from the FIFO into a local variable. The handler never writes its
`is_rtr`, which stays as it was on the stack. -/
def readFifo (fifo : Mailbox) (stack : CanMsg) (tick : UInt32) : CanMsg where
  id := (fifo.ir >>> 21) &&& 0x7FF
  isExtended := fifo.ir &&& 4 != 0
  dlc := (fifo.dtr &&& 0x0F).toUInt8
  data := #v[byteOf fifo.dlr 0,byteOf fifo.dlr 8,byteOf fifo.dlr 16,byteOf fifo.dlr 24,
    byteOf fifo.dhr 0,byteOf fifo.dhr 8,byteOf fifo.dhr 16,byteOf fifo.dhr 24]
  timestamp := tick
  isRtr := stack.isRtr

def canRxIrqHandler (stack : CanMsg) (tick : UInt32) (s : Driver) : Driver :=
  let msg := readFifo s.rxFifo stack tick
  let s := { s with rfom0 := true }
  match s.rxRing.push msg with
  | some rxRing => { s with rxRing }
  | none => { s with rxOverflowCount := s.rxOverflowCount + 1 }

/-! ## The buffers as queues -/

theorem CanRingBuffer.push_of_full {ring : CanRingBuffer} (h : ¬ ring.count < ring.size)
    (msg : CanMsg) : ring.push msg = none := by
  rw [push,dif_pos]
  simpa [isFull] using h

theorem CanRingBuffer.push_spec {ring : CanRingBuffer} (h : ring.count < ring.size)
    (msg : CanMsg) : ∃ next, ring.push msg = some next ∧ next.queue = ring.queue ++ [msg] := by
  have hfull : ¬ ring.isFull = true := by simpa [isFull] using h
  rw [push,dif_neg hfull]
  refine ⟨_,rfl,?_⟩
  rw [queue,List.range_succ,List.map_append]
  congr 1
  · apply List.map_congr_left
    intro i hi
    have hlt := List.mem_range.mp hi
    have hne : ring.head ≠ (ring.tail + i) % ring.buffer.length := by
      intro heq
      rw [ring.head_eq] at heq
      have hcount := RingSlots.add_mod_inj h (Nat.lt_trans hlt h) heq
      omega
    simp [List.getElem_set_ne hne]
  · have heq : (ring.tail + ring.count) % ring.buffer.length = ring.head := ring.head_eq.symm
    simp [heq]

theorem CanRingBuffer.pop_spec {ring : CanRingBuffer} {msg : CanMsg} {rest : List CanMsg}
    (h : ring.queue = msg::rest) : ∃ next, ring.pop = some (msg,next) ∧ next.queue = rest := by
  have hlength : ring.count = rest.length + 1 := by
    have hcount := congrArg List.length h
    simpa [queue] using hcount
  have hempty : ¬ ring.isEmpty = true := by simp [isEmpty,hlength]
  rw [queue,hlength,List.range_succ_eq_map,List.map_cons,List.map_map] at h
  obtain ⟨hfirst,hrest⟩ := List.cons.inj h
  have htail : (ring.tail + 0) % ring.buffer.length = ring.tail := Nat.mod_eq_of_lt ring.tail_lt
  simp only [htail] at hfirst
  rw [pop,dif_neg hempty,hfirst]
  refine ⟨_,rfl,?_⟩
  rw [← hrest,queue]
  have hcount : ring.count - 1 = rest.length := by omega
  simp only [hcount]
  apply List.map_congr_left
  intro i _
  have hslot : ((ring.tail + 1) % ring.size + i) % ring.buffer.length =
      (ring.tail + (i + 1)) % ring.buffer.length := by
    rw [size,Nat.mod_add_mod,Nat.add_assoc,Nat.add_comm 1 i]
  simp only [hslot]
  rfl

/-! ## What the registers carry -/

theorem packWord_toNat (a b c d : UInt8) :
    (packWord a b c d).toNat =
      ((d.toNat * 256 + c.toNat) * 256 + b.toNat) * 256 + a.toNat := by
  have ha := a.toNat_lt
  have hb := b.toNat_lt
  have hc := c.toNat_lt
  have hd := d.toNat_lt
  have hshift : ∀ n : ℕ, n ≤ 24 → ∀ x : UInt8, (x.toNat <<< n) % 2^32 = x.toNat <<< n := by
    intro n hn x
    apply Nat.mod_eq_of_lt
    rw [Nat.shiftLeft_eq]
    calc x.toNat * 2^n < 2^8 * 2^n := Nat.mul_lt_mul_of_pos_right x.toNat_lt (Nat.two_pow_pos n)
      _ ≤ 2^8 * 2^24 := Nat.mul_le_mul_left _ (Nat.pow_le_pow_right (by decide) hn)
      _ = 2^32 := by decide
  rw [← shift_or,← shift_or,← shift_or]
  simp only [packWord,UInt32.toNat_or,UInt32.toNat_shiftLeft,UInt8.toNat_toUInt32,
    Nat.shiftLeft_or_distrib,← Nat.shiftLeft_add]
  change d.toNat <<< 24 % 2^32 ||| c.toNat <<< 16 % 2^32 ||| b.toNat <<< 8 % 2^32 ||| a.toNat = _
  rw [hshift 24 (by decide),hshift 16 (by decide),hshift 8 (by decide)]

theorem byteOf_toNat (word : UInt32) {shift : UInt32} (h : shift.toNat < 32) :
    (byteOf word shift).toNat = word.toNat / 2^shift.toNat % 256 := by
  rw [byteOf,UInt32.toNat_toUInt8,UInt32.toNat_and,UInt32.toNat_shiftRight,Nat.mod_eq_of_lt h,
    Nat.shiftRight_eq_div_pow]
  change (_ &&& 2^8 - 1) % 2^8 = _
  rw [Nat.and_two_pow_sub_one_eq_mod,Nat.mod_mod]

/-- The bytes of a data register come back out of it in their order. -/
theorem byteOf_packWord (a b c d : UInt8) :
    byteOf (packWord a b c d) 0 = a ∧ byteOf (packWord a b c d) 8 = b ∧
      byteOf (packWord a b c d) 16 = c ∧ byteOf (packWord a b c d) 24 = d := by
  have ha := a.toNat_lt
  have hb := b.toNat_lt
  have hc := c.toNat_lt
  have hd := d.toNat_lt
  simp only [← UInt8.toNat_inj,packWord_toNat,
    byteOf_toNat _ (show (0 : UInt32).toNat < 32 by decide),
    byteOf_toNat _ (show (8 : UInt32).toNat < 32 by decide),
    byteOf_toNat _ (show (16 : UInt32).toNat < 32 by decide),
    byteOf_toNat _ (show (24 : UInt32).toNat < 32 by decide)]
  change _ / 1 % 256 = _ ∧ _ / 256 % 256 = _ ∧ _ / 65536 % 256 = _ ∧ _ / 16777216 % 256 = _
  refine ⟨?_,?_,?_,?_⟩ <;> omega

/-- Only the lowest eleven bits of the identifier fit above the flags. -/
theorem ir_id (msg : CanMsg) :
    (((loadMailbox msg).ir >>> 21) &&& 0x7FF).toNat = msg.id.toNat % 2048 := by
  have hflags : (if msg.isExtended then (4 : UInt32) else 0).toNat >>> 21 = 0 := by
    cases msg.isExtended <;> decide
  simp only [loadMailbox,UInt32.toNat_and,UInt32.toNat_shiftRight,UInt32.toNat_or,
    UInt32.toNat_shiftLeft]
  change (((msg.id.toNat <<< 21) % 2^32 ||| _) ||| 1) >>> 21 &&& (2^11 - 1) = _
  rw [Nat.and_two_pow_sub_one_eq_mod,Nat.shiftRight_or_distrib,Nat.shiftRight_or_distrib,hflags,
    Nat.shiftLeft_eq,Nat.shiftRight_eq_div_pow]
  change (_ ||| 0 ||| 0) % _ = _
  rw [Nat.or_zero,Nat.or_zero]
  omega

theorem ir_isExtended (msg : CanMsg) :
    ((loadMailbox msg).ir &&& 4 != 0) = msg.isExtended := by
  have hid : (msg.id.toNat <<< 21) % 2^32 &&& 2^2 = 0 := by
    rw [Nat.and_two_pow,Nat.testBit_mod_two_pow,Nat.testBit_shiftLeft]
    rfl
  have hand : ((loadMailbox msg).ir &&& 4).toNat = if msg.isExtended then 4 else 0 := by
    simp only [loadMailbox,UInt32.toNat_and,UInt32.toNat_or,UInt32.toNat_shiftLeft]
    change (((msg.id.toNat <<< 21) % 2^32 ||| _) ||| 1) &&& 2^2 = _
    rw [Nat.and_or_distrib_right,Nat.and_or_distrib_right,hid]
    cases msg.isExtended <;> decide
  cases hextended : msg.isExtended with
  | true =>
    rw [hextended] at hand
    rw [show (loadMailbox msg).ir &&& 4 = 4 from UInt32.toNat_inj.mp hand]
    rfl
  | false =>
    rw [hextended] at hand
    rw [show (loadMailbox msg).ir &&& 4 = 0 from UInt32.toNat_inj.mp hand]
    rfl

theorem dtr_dlc {msg : CanMsg} (h : msg.dlc.toNat ≤ 8) :
    ((loadMailbox msg).dtr &&& 0x0F).toUInt8 = msg.dlc := by
  rw [← UInt8.toNat_inj,UInt32.toNat_toUInt8,UInt32.toNat_and,loadMailbox,UInt8.toNat_toUInt32]
  change (_ &&& (2^4 - 1)) % _ = _
  rw [Nat.and_two_pow_sub_one_eq_mod]
  omega

/-! ## From mailbox to queue -/

/-- The same message but for its timestamp. -/
def CanMsg.SameFrame (m msg : CanMsg) : Prop :=
  m.id = msg.id ∧ m.isExtended = msg.isExtended ∧ m.isRtr = msg.isRtr ∧ m.dlc = msg.dlc ∧
    m.data = msg.data

theorem vector_eq (data : Vector UInt8 8) :
    #v[data[0],data[1],data[2],data[3],data[4],data[5],data[6],data[7]] = data := by
  obtain ⟨⟨bytes⟩,hsize⟩ := data
  match bytes, hsize with
  | [a,b,c,d,e,f,g,h], _ => rfl

theorem readFifo_data (msg stack : CanMsg) (tick : UInt32) :
    (readFifo (loadMailbox msg) stack tick).data = msg.data := by
  obtain ⟨h0,h1,h2,h3⟩ := byteOf_packWord msg.data[0] msg.data[1] msg.data[2] msg.data[3]
  obtain ⟨h4,h5,h6,h7⟩ := byteOf_packWord msg.data[4] msg.data[5] msg.data[6] msg.data[7]
  simp only [readFifo,loadMailbox,h0,h1,h2,h3,h4,h5,h6,h7]
  exact vector_eq msg.data

theorem readFifo_sameFrame_iff {msg : CanMsg} (hdlc : msg.dlc.toNat ≤ 8) (stack : CanMsg)
    (tick : UInt32) :
    (readFifo (loadMailbox msg) stack tick).SameFrame msg ↔
      msg.id.toNat < 2048 ∧ stack.isRtr = msg.isRtr := by
  have hid : (readFifo (loadMailbox msg) stack tick).id = msg.id ↔ msg.id.toNat < 2048 := by
    rw [← UInt32.toNat_inj,readFifo,ir_id]
    omega
  have hextended : (readFifo (loadMailbox msg) stack tick).isExtended = msg.isExtended :=
    ir_isExtended msg
  have hlength : (readFifo (loadMailbox msg) stack tick).dlc = msg.dlc := dtr_dlc hdlc
  rw [CanMsg.SameFrame,hid,hextended,hlength,readFifo_data]
  simp [readFifo]

theorem canTxIrqHandler_mailbox {s : Driver} {msg : CanMsg} {rest : List CanMsg}
    (h : s.txRing.queue = msg::rest) : (canTxIrqHandler s).txMailbox = loadMailbox msg := by
  obtain ⟨next,hpop,-⟩ := CanRingBuffer.pop_spec h
  rw [canTxIrqHandler,hpop]

/-- A message that goes from one driver's mailbox to another's FIFO is queued as it was sent,
exactly if there is room for it, its identifier has eleven bits and the flag for remote frames that
the handler never sets happens to be right. -/
theorem canRxIrqHandler_queues_iff {tx rx : Driver} {msg : CanMsg} {rest : List CanMsg}
    (hnext : tx.txRing.queue = msg::rest) (hdlc : msg.dlc.toNat ≤ 8)
    (harrives : rx.rxFifo = (canTxIrqHandler tx).txMailbox) (stack : CanMsg) (tick : UInt32) :
    (∃ m, (canRxIrqHandler stack tick rx).rxRing.queue = rx.rxRing.queue ++ [m] ∧
      m.SameFrame msg) ↔
      rx.rxRing.count < rx.rxRing.size ∧ msg.id.toNat < 2048 ∧ stack.isRtr = msg.isRtr := by
  rw [canTxIrqHandler_mailbox hnext] at harrives
  rw [← readFifo_sameFrame_iff hdlc stack tick]
  by_cases hroom : rx.rxRing.count < rx.rxRing.size
  · obtain ⟨next,hpush,hqueue⟩ := CanRingBuffer.push_spec hroom
      (readFifo (loadMailbox msg) stack tick)
    have hring : (canRxIrqHandler stack tick rx).rxRing = next := by
      simp only [canRxIrqHandler,harrives,hpush]
    rw [hring,hqueue,and_iff_right hroom]
    constructor
    · rintro ⟨m,heq,hsame⟩
      have hm := List.append_cancel_left heq
      rw [List.singleton_inj.mp hm]
      exact hsame
    · intro hsame
      exact ⟨_,rfl,hsame⟩
  · have hring : (canRxIrqHandler stack tick rx).rxRing = rx.rxRing := by
      simp only [canRxIrqHandler,CanRingBuffer.push_of_full hroom]
    rw [hring]
    refine iff_of_false ?_ fun h => hroom h.1
    rintro ⟨m,heq,-⟩
    exact absurd heq.symm (by simp)

def blank : CanMsg := ⟨0,0,Vector.replicate 8 0,0,false,false⟩

/-- A driver with one message to send. -/
def sender (msg : CanMsg) : Driver where
  txMailbox := ⟨0,0,0,0⟩
  rxFifo := ⟨0,0,0,0⟩
  tmeie := true
  rfom0 := false
  txRing := ⟨msg::List.replicate 31 blank,1,0,1,by simp,by simp,by simp⟩
  rxRing := ⟨List.replicate 64 blank,0,0,0,by decide,by decide,by decide⟩
  rxOverflowCount := 0

/-- A driver with nothing to send, to which the message has come. -/
def receiver (msg : CanMsg) : Driver :=
  { sender blank with rxFifo := (canTxIrqHandler (sender msg)).txMailbox }

/-- A data frame with an identifier of eleven bits. -/
theorem canRxIrqHandler_queues_standard :
    ∃ m, (canRxIrqHandler blank 9 (receiver { blank with id := 0x123, dlc := 2 })).rxRing.queue =
      (receiver { blank with id := 0x123, dlc := 2 }).rxRing.queue ++ [m] ∧
      m.SameFrame { blank with id := 0x123, dlc := 2 } :=
  (canRxIrqHandler_queues_iff
    (show (sender { blank with id := 0x123, dlc := 2 }).txRing.queue = [_] from rfl) (by decide)
    rfl blank 9).mpr (by decide)

/-- An identifier of 29 bits is cut, and a remote frame becomes a data frame. -/
theorem canRxIrqHandler_loses :
    (canRxIrqHandler blank 9
      (receiver { blank with id := 0x12345, isExtended := true })).rxRing.queue.map (·.id) =
      [0x345] ∧
    (canRxIrqHandler blank 9
      (receiver { blank with id := 0x123, isRtr := true })).rxRing.queue.map (·.isRtr) =
      [false] := by
  decide +kernel

end CanMailbox
end UProtocols
