import UProtocols.OnesComplement

/-!
# The C ping

`checksum`, `send_ping` and `receive_ping` of `ping_implementation.c`. Words and fields are read and
written in the order of the host. The round-trip time, a `double`, is left out.
-/

namespace UProtocols
namespace PingC

open OnesComplement

/-- `sum = (sum >> 16) + (sum & 0xFFFF); sum += (sum >> 16);` -/
def foldTwice (sum : ℕ) : ℕ :=
  let sum := (sum / 65536 + sum % 65536) % 4294967296
  (sum + sum / 65536) % 4294967296

def checksum (host : ByteOrder) (b : List UInt8) : UInt16 :=
  let sum := sumWords host UInt8.toNat b 0
  -- `~sum` cut to an `unsigned short`
  UInt16.ofNat (4294967295 - foldTwice sum)

/-- Write bytes into a buffer. -/
def store (packet : List UInt8) (offset : ℕ) (bytes : List UInt8) : List UInt8 :=
  packet.take offset ++ bytes ++ packet.drop (offset + bytes.length)

/-- `PACKET_SIZE`. -/
def packetSize : ℕ := 64

/-- `sizeof(struct icmp)`. -/
def sizeofIcmp : ℕ := 28

/-- The packet that `send_ping` hands to `sendto`. The id and the sequence number are fields of 16
bits at 4 and 6, the checksum is at 2. -/
def sendPing (host : ByteOrder) (pid seq : ℕ) : List UInt8 :=
  let packet := List.replicate packetSize 0
  let packet := store packet 0 [8]
  let packet := store packet 1 [0]
  let packet := store packet 4 (host.bytes 2 pid)
  let packet := store packet 6 (host.bytes 2 seq)
  let packet := (List.range' sizeofIcmp (packetSize - sizeofIcmp)).foldl
    (fun packet i => store packet i [UInt8.ofNat i]) packet
  let packet := store packet 2 (host.bytes 2 0)
  store packet 2 (host.bytes 2 (checksum host packet).toNat)

/-- The buffer after `recvfrom` has put at most 1024 bytes of a datagram into it; `stale` is what
the rest of it holds. -/
def bufferAt (datagram : List UInt8) (stale : ℕ → UInt8) (i : ℕ) : UInt8 :=
  (datagram.take 1024)[i]?.getD (stale i)

/-- `receive_ping` after `recvfrom` has taken a datagram or has failed. -/
def receivePing (host : ByteOrder) (pid : ℕ) (stale : ℕ → UInt8) (received : Option (List UInt8)) :
    ℤ :=
  match received with
  | none => -1
  | some datagram =>
    let buffer := bufferAt datagram stale
    let ipHdrLen := (buffer 0 &&& 0x0F).toNat <<< 2
    let icmpId := host.value [buffer (ipHdrLen + 4),buffer (ipHdrLen + 5)]
    let icmpSeq := host.value [buffer (ipHdrLen + 6),buffer (ipHdrLen + 7)]
    -- the id has 16 bits, `getpid()` is an `int`
    if buffer ipHdrLen = 0 ∧ icmpId = pid then icmpSeq else -1

/-! ## The checksum -/

theorem wordSum_lt {b : List UInt8} (host : ByteOrder) (hb : b.length ≤ 65536) :
    wordSum host UInt8.toNat b ≤ 2147450880 := by
  have hodd : ∀ c : UInt8, c.toNat < 65536 := by
    intro c
    have hc := c.toNat_lt
    omega
  have hle := wordSum_le (o := host) hodd b
  omega

/-- The second step may leave a bit above the lowest 16, which `~sum` cuts off. -/
theorem foldTwice_mod {sum : ℕ} (h : sum ≤ 2147450880) : foldTwice sum % 65536 = residue sum := by
  have hfirst : carry sum ≤ 98302 := by
    rw [carry]
    omega
  have hsecond : carry (carry sum) ≤ 65535 := by
    rw [carry]
    omega
  have hsteps : foldTwice sum % 65536 = carry (carry sum) := by
    have hcarry : (sum / 65536 + sum % 65536) % 4294967296 = carry sum := by
      rw [carry]
      omega
    simp only [foldTwice,hcarry]
    generalize carry sum = t at hfirst
    rw [carry]
    omega
  rw [hsteps,← residue_carry sum,← residue_carry (carry sum),residue_of_le hsecond]

theorem checksum_toNat (host : ByteOrder) {b : List UInt8} (hb : b.length ≤ 65536) :
    (checksum host b).toNat = 65535 - residue (wordSum host UInt8.toNat b) := by
  have hlt := wordSum_lt host hb
  have hsum : sumWords host UInt8.toNat b 0 = wordSum host UInt8.toNat b := by
    rw [sumWords_eq (by omega),Nat.zero_add]
  have hfold := foldTwice_mod hlt
  have hbound : foldTwice (wordSum host UInt8.toNat b) < 4294967296 := by
    rw [foldTwice]
    exact Nat.mod_lt _ (by decide)
  rw [checksum,hsum,UInt16.toNat_ofNat',← hfold]
  omega

theorem wordSum_field (host : ByteOrder) {before : List UInt8} (heven : Even before.length)
    (v : UInt16) (after : List UInt8) :
    wordSum host UInt8.toNat (before ++ host.bytes 2 v.toNat ++ after) =
      wordSum host UInt8.toNat (before ++ after) + v.toNat := by
  have hvalue := ByteOrder.value_bytes_of_lt host (w := 2) v.toNat_lt
  have hfield : wordSum host UInt8.toNat (host.bytes 2 v.toNat ++ after) =
      host.value (host.bytes 2 v.toNat) + wordSum host UInt8.toNat after := by
    cases host <;> rfl
  rw [List.append_assoc,wordSum_append heven,wordSum_append heven,hfield,hvalue]
  omega

theorem checksum_stored (host : ByteOrder) (before after : List UInt8)
    (heven : Even before.length) (hlength : before.length + 2 + after.length ≤ 65536) :
    checksum host (before ++ host.bytes 2 (checksum host (before ++ [0,0] ++ after)).toNat ++
      after) = 0 ∧
    ∀ b : List UInt8, b.length ≤ 65536 →
      sumWords host UInt8.toNat b 0 = wordSum host UInt8.toNat b ∧
      wordSum host UInt8.toNat b < 4294967296 ∧
      foldTwice (wordSum host UInt8.toNat b) % 65536 = fold (wordSum host UInt8.toNat b) ∧
      (checksum host b).toNat = 65535 - fold (wordSum host UInt8.toNat b) := by
  refine ⟨?_,fun b hb => ?_⟩
  · have hzero : host.bytes 2 (0 : UInt16).toNat = [0,0] := by cases host <;> rfl
    have hfield := wordSum_field host heven
    have hblank : wordSum host UInt8.toNat (before ++ [0,0] ++ after) =
        wordSum host UInt8.toNat (before ++ after) := by
      rw [← hzero]
      exact hfield 0 after
    apply UInt16.toNat_inj.mp
    have hfirst := checksum_toNat host (b := before ++ [0,0] ++ after) (by simp; omega)
    rw [checksum_toNat host (by simp; omega),hfield,hfirst,hblank,residue_add_complement]
    rfl
  · have hlt := wordSum_lt host hb
    refine ⟨?_,by omega,?_,?_⟩
    · rw [sumWords_eq (by omega),Nat.zero_add]
    · rw [foldTwice_mod hlt,fold_eq]
    · rw [checksum_toNat host hb,fold_eq]

/-- A field at the beginning of three bytes. -/
theorem checksum_stored_three :
    checksum .little (ByteOrder.bytes .little 2 (checksum .little [0,0,7]).toNat ++ [7]) = 0 :=
  (checksum_stored .little [] [7] (by decide) (by decide)).1

/-! ## A request and its reply -/

/-- The bytes of an IP header, as many as its first byte says. -/
structure IpHeader where
  first : UInt8
  rest : List UInt8
  hl_ge : 5 ≤ (first &&& 0x0F).toNat
  length_eq : rest.length + 1 = 4 * (first &&& 0x0F).toNat

def IpHeader.bytes (header : IpHeader) : List UInt8 := header.first::header.rest

/-- The packet as a host sends it back: the type of a reply, and a checksum of the host's own. -/
def echoReply (packet : List UInt8) (cksum : UInt8 × UInt8) : List UInt8 :=
  store (store packet 0 [0]) 2 [cksum.1,cksum.2]

theorem store_append (before old after bytes : List UInt8) (h : old.length = bytes.length) :
    store (before ++ (old ++ after)) before.length bytes = before ++ (bytes ++ after) := by
  rw [store,List.take_left,← List.drop_drop,List.drop_left,← h,List.drop_left,List.append_assoc]

/-- The loop that fills the data section. -/
theorem foldl_store (f : ℕ → UInt8) (before old : List UInt8) :
    (List.range' before.length old.length).foldl (fun packet i => store packet i [f i])
      (before ++ old) = before ++ (List.range' before.length old.length).map f := by
  induction old generalizing before with
  | nil => simp
  | cons x old ih =>
    rw [List.length_cons,List.range'_succ,List.foldl_cons,List.map_cons]
    have hstore := store_append before [x] old [f before.length] rfl
    rw [List.singleton_append,List.singleton_append] at hstore
    have hnext := ih (before ++ [f before.length])
    rw [List.length_append,List.length_singleton,List.append_assoc,List.append_assoc,
      List.singleton_append,List.singleton_append] at hnext
    rw [hstore,hnext]

/-- The packet of `send_ping` behind its checksum. -/
def fields (host : ByteOrder) (pid seq : ℕ) : List UInt8 :=
  host.bytes 2 pid ++ (host.bytes 2 seq ++
    (List.replicate 20 0 ++ (List.range' 28 36).map UInt8.ofNat))

theorem sendPing_eq (host : ByteOrder) (pid seq : ℕ) :
    sendPing host pid seq =
      [8,0] ++ (host.bytes 2 (checksum host
        ([8,0] ++ (host.bytes 2 0 ++ fields host pid seq))).toNat ++ fields host pid seq) := by
  have hheader : store (store (store (store (List.replicate packetSize 0) 0 [8]) 1 [0]) 4
      (host.bytes 2 pid)) 6 (host.bytes 2 seq) =
      [8,0,0,0] ++ host.bytes 2 pid ++ host.bytes 2 seq ++ List.replicate 20 0 ++
        List.replicate 36 0 := by
    cases host <;> rfl
  have hfill := foldl_store UInt8.ofNat
    ([8,0,0,0] ++ host.bytes 2 pid ++ host.bytes 2 seq ++ List.replicate 20 0)
    (List.replicate 36 0)
  have hlength : ([8,0,0,0] ++ host.bytes 2 pid ++ host.bytes 2 seq ++
      List.replicate 20 0).length = sizeofIcmp := by
    cases host <;> rfl
  rw [hlength,List.length_replicate] at hfill
  have hcksum : ∀ (old : List UInt8) (v : ℕ) (rest : List UInt8), old.length = 2 →
      store ([8,0] ++ (old ++ rest)) 2 (host.bytes 2 v) = [8,0] ++ (host.bytes 2 v ++ rest) := by
    intro old v rest hold
    exact store_append [8,0] old rest (host.bytes 2 v) (by rw [hold,ByteOrder.bytes_length])
  have hpacket : (List.range' sizeofIcmp (packetSize - sizeofIcmp)).foldl
      (fun packet i => store packet i [UInt8.ofNat i])
      ([8,0,0,0] ++ host.bytes 2 pid ++ host.bytes 2 seq ++ List.replicate 20 0 ++
        List.replicate 36 0) = [8,0] ++ ([0,0] ++ fields host pid seq) := by
    refine hfill.trans ?_
    simp only [List.append_assoc]
    rfl
  simp only [sendPing,hheader,hpacket,hcksum [0,0] 0 _ rfl,
    hcksum _ _ _ (ByteOrder.bytes_length host 2 0)]

theorem echoReply_sendPing (host : ByteOrder) (pid seq : ℕ) (cksum : UInt8 × UInt8) :
    echoReply (sendPing host pid seq) cksum =
      [0,0,cksum.1,cksum.2] ++ fields host pid seq := by
  rw [sendPing_eq]
  generalize fields host pid seq = rest
  generalize (checksum host ([8,0] ++ (host.bytes 2 0 ++ rest))).toNat = old
  cases host <;> rfl

/-- Where `receive_ping` looks for the parts of a reply. -/
theorem buffer_eq (header : IpHeader) (reply : List UInt8) (stale : ℕ → UInt8) (k : ℕ) (x : UInt8)
    (hk : k < 8) (hx : reply[k]? = some x) :
    bufferAt (header.bytes ++ reply) stale ((header.first &&& 0x0F).toNat <<< 2 + k) = x := by
  have hle : (header.first &&& 0x0F).toNat ≤ 15 := by
    rw [UInt8.toNat_and]
    exact Nat.and_le_right
  have hlength : header.bytes.length = (header.first &&& 0x0F).toNat <<< 2 := by
    rw [IpHeader.bytes,List.length_cons,header.length_eq,Nat.shiftLeft_eq,Nat.mul_comm]
  have hshift : (header.first &&& 0x0F).toNat <<< 2 ≤ 60 := by
    rw [Nat.shiftLeft_eq]
    omega
  rw [bufferAt,List.getElem?_take_of_lt (by omega),List.getElem?_append_right (by omega),hlength,
    Nat.add_sub_cancel_left,hx,Option.getD_some]

/-- A reply behind a header of any length is recognised exactly if the process id fits the field
it was sent in. -/
theorem receivePing_echoReply_iff (host : ByteOrder) (pid : ℕ) (seq : UInt16) (header : IpHeader)
    (cksum : UInt8 × UInt8) (stale : ℕ → UInt8) :
    receivePing host pid stale
      (some (header.bytes ++ echoReply (sendPing host pid seq.toNat) cksum)) = seq.toNat ↔
      pid < 65536 := by
  have hid : host.value (host.bytes 2 pid) = pid % 65536 := ByteOrder.value_bytes host 2 pid
  have hseq : host.value (host.bytes 2 seq.toNat) = seq.toNat :=
    ByteOrder.value_bytes_of_lt host seq.toNat_lt
  obtain ⟨a,b,hab⟩ : ∃ a b, host.bytes 2 pid = [a,b] :=
    List.length_eq_two.mp (ByteOrder.bytes_length host 2 pid)
  obtain ⟨c,d,hcd⟩ : ∃ c d, host.bytes 2 seq.toNat = [c,d] :=
    List.length_eq_two.mp (ByteOrder.bytes_length host 2 seq.toNat)
  have hreply := echoReply_sendPing host pid seq.toNat cksum
  rw [fields,hab,hcd] at hreply
  rw [hab] at hid
  rw [hcd] at hseq
  have hbuffer := buffer_eq header (echoReply (sendPing host pid seq.toNat) cksum) stale
  rw [hreply] at hbuffer ⊢
  generalize hdatagram : header.bytes ++ ([0,0,cksum.1,cksum.2] ++ _) = datagram at hbuffer ⊢
  have hfirst : bufferAt datagram stale 0 = header.first := by
    rw [← hdatagram]
    rfl
  have htype := hbuffer 0 0 (by decide) rfl
  rw [Nat.add_zero] at htype
  simp only [receivePing,hfirst,htype,hbuffer 4 a (by decide) rfl,hbuffer 5 b (by decide) rfl,
    hbuffer 6 c (by decide) rfl,hbuffer 7 d (by decide) rfl,hid,hseq,true_and]
  split <;> omega

/-- A header of 20 bytes. -/
def plainHeader : IpHeader := ⟨0x45,List.replicate 19 0,by decide,by decide⟩

/-- Process 70000 does not recognise the reply to its request with number 1. -/
theorem receivePing_large_pid :
    receivePing .little 70000 (fun _ => 0)
      (some (plainHeader.bytes ++ echoReply (sendPing .little 70000 1) (0,0))) = -1 := by
  decide +kernel

end PingC
end UProtocols
