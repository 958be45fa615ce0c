import UProtocols.MqttSnGateway

/-!
# The MQTT-SN gateway in C++

`MqttSnGateway` of `MQTT_SN_Gateway_Implementation.cpp` on a little-endian host. Datagrams
arrive in one buffer that is never cleared, and the handlers read it through packed
structures: bytes behind the end of a short datagram are those of earlier ones. Topic names
are byte strings; the MQTT library receives them as C strings. Console output is left out.
-/

namespace UProtocols
namespace MqttSnCpp

open MqttSn (mqttsnConnect mqttsnConnack mqttsnRegister mqttsnRegack mqttsnPublish mqttsnSubscribe
  mqttsnSuback mqttsnPingreq mqttsnPingresp mqttsnDisconnect mqttsnRcAccepted)

/-! ## Host integers and strings -/

/-- A 16-bit field as the host reads it. -/
def hostU16 (b₀ b₁ : UInt8) : UInt16 := UInt16.ofNat (ByteOrder.little.value [b₀,b₁])

/-- The bytes that `memcpy` copies from a 16-bit integer. -/
def hostBytes (v : UInt16) : List UInt8 := ByteOrder.little.bytes 2 v.toNat

def ntohs (v : UInt16) : UInt16 := UInt16.ofNat (ByteOrder.big.value (hostBytes v))

example : ntohs 1 = 256 := by decide

/-- What a C function sees of a `std::string`: its bytes up to the first NUL. -/
def cStr (s : List UInt8) : List UInt8 := s.takeWhile (· != 0)

/-! ## The receive buffer -/

/-- `buffer` of `run`. -/
structure Buffer where
  bytes : List UInt8
  size : bytes.length = 1024

/-- What `recvfrom` stores of a datagram. -/
def received (data : List UInt8) : List UInt8 := data.take 1024

theorem received_length_le (data : List UInt8) : (received data).length ≤ 1024 := by
  rw [received,List.length_take]
  exact Nat.min_le_left _ _

/-- The buffer after `recvfrom`: the rest of it is as before. -/
def Buffer.recvfrom (b : Buffer) (data : List UInt8) : Buffer where
  bytes := received data ++ b.bytes.drop (received data).length
  size := by
    rw [List.length_append,List.length_drop,b.size]
    exact Nat.add_sub_cancel' (received_length_le data)

def Buffer.byte (b : Buffer) (i : ℕ) : UInt8 := b.bytes.getD i 0

/-- The `n` bytes at position `i`. -/
def Buffer.slice (b : Buffer) (i n : ℕ) : List UInt8 := (b.bytes.drop i).take n

/-! ## The gateway -/

structure SockaddrIn where
  sinAddr : UInt32
  sinPort : UInt16
  deriving DecidableEq

inductive Exception
  | lengthError
  deriving DecidableEq

/-- What the gateway does to the outside world. -/
inductive Effect
  | sendto (response : List UInt8) (addr : SockaddrIn)
  | mosquittoPublish (topic : List UInt8) (payloadlen : ℤ) (payload : List UInt8)
  | mosquittoSubscribe (topic : List UInt8)
  deriving DecidableEq

/-- `client_addresses` is in the order of its keys, in which it is iterated. -/
structure Gateway where
  buffer : Buffer
  topicIdMap : UInt16 → Option (List UInt8)
  topicNameMap : List UInt8 → Option UInt16
  clientAddresses : List (List UInt8 × SockaddrIn)
  nextTopicId : UInt16

/-- A datagram, with what the stack holds at the five bytes of SUBACK that are not written. -/
structure Datagram where
  data : List UInt8
  addr : SockaddrIn
  uninit : Fin 5 → UInt8

abbrev Outcome := Except Exception (Gateway × List Effect)

/-- `map[key] = value` for a `std::map` as the list of its entries. -/
def mapSet (key : List UInt8) (value : SockaddrIn) :
    List (List UInt8 × SockaddrIn) → List (List UInt8 × SockaddrIn)
  | [] => [(key,value)]
  | (k,v)::rest =>
    if key = k then (key,value)::rest
    else if key < k then (key,value)::(k,v)::rest
    else (k,v)::mapSet key value rest

def connack : List UInt8 := [3,mqttsnConnack,mqttsnRcAccepted]

def regack (topicId : UInt16) (msgId : List UInt8) : List UInt8 :=
  [7,mqttsnRegack] ++ hostBytes topicId ++ msgId ++ [mqttsnRcAccepted]

def suback (uninit : Fin 5 → UInt8) : List UInt8 :=
  [8,mqttsnSuback] ++ List.ofFn uninit ++ [mqttsnRcAccepted]

def pingresp : List UInt8 := [2,mqttsnPingresp]

/-- `std::string(buffer + i, len - i)`; a negative length is a huge `size_t`. -/
def stdString (b : Buffer) (i len : ℕ) : Except Exception (List UInt8) :=
  if len < i then .error .lengthError else .ok (b.slice i (len - i))

namespace Gateway

def new (buffer : Buffer) : Gateway where
  buffer := buffer
  topicIdMap := fun _ => none
  topicNameMap := fun _ => none
  clientAddresses := []
  nextTopicId := 1

def handleConnect (g : Gateway) (addr : SockaddrIn) : Outcome :=
  let clientId := cStr (g.buffer.slice 6 23)
  .ok ({g with clientAddresses := mapSet clientId addr g.clientAddresses},[.sendto connack addr])

/-- The gateway after it has given the next topic id to a name; `next_topic_id++` wraps. -/
def assign (g : Gateway) (topicName : List UInt8) : Gateway :=
  {g with
    nextTopicId := g.nextTopicId + 1
    topicIdMap := Function.update g.topicIdMap g.nextTopicId (some topicName)
    topicNameMap := Function.update g.topicNameMap topicName (some g.nextTopicId)}

def handleRegister (g : Gateway) (len : ℕ) (addr : SockaddrIn) : Outcome := do
  let topicName ← stdString g.buffer 6 len
  return (g.assign topicName,[.sendto (regack g.nextTopicId (g.buffer.slice 4 2)) addr])

def handlePublish (g : Gateway) (len : ℕ) : Outcome :=
  let topicId := ntohs (hostU16 (g.buffer.byte 3) (g.buffer.byte 4))
  match g.topicIdMap topicId with
  | none => .ok (g,[])
  | some topic =>
    let dataLen : ℤ := len - 7
    .ok (g,[.mosquittoPublish (cStr topic) dataLen (g.buffer.slice 7 dataLen.toNat)])

def handleSubscribe (g : Gateway) (len : ℕ) (addr : SockaddrIn) (uninit : Fin 5 → UInt8) :
    Outcome := do
  let topic ← stdString g.buffer 5 len
  return (g,[.mosquittoSubscribe (cStr topic),.sendto (suback uninit) addr])

def handlePingreq (g : Gateway) (addr : SockaddrIn) : Outcome := .ok (g,[.sendto pingresp addr])

def handleDisconnect (g : Gateway) : Outcome := .ok (g,[])

def handleMqttsnMessage (g : Gateway) (len : ℕ) (addr : SockaddrIn) (uninit : Fin 5 → UInt8) :
    Outcome :=
  if len < 2 then .ok (g,[])
  else
    let msgType := g.buffer.byte 1
    if msgType = mqttsnConnect then g.handleConnect addr
    else if msgType = mqttsnRegister then g.handleRegister len addr
    else if msgType = mqttsnPublish then g.handlePublish len
    else if msgType = mqttsnSubscribe then g.handleSubscribe len addr uninit
    else if msgType = mqttsnPingreq then g.handlePingreq addr
    else if msgType = mqttsnDisconnect then g.handleDisconnect
    else .ok (g,[])

/-- One turn of the loop of `run`. -/
def receive (g : Gateway) (d : Datagram) : Outcome :=
  let g := {g with buffer := g.buffer.recvfrom d.data}
  let recvLen := (received d.data).length
  if recvLen > 0 then g.handleMqttsnMessage recvLen d.addr d.uninit else .ok (g,[])

/-- An exception ends `run`. -/
def step (g : Gateway) (d : Datagram) : Option Gateway :=
  match g.receive d with
  | .ok (g,_) => some g
  | .error _ => none

def run (buffer : Buffer) (ds : List Datagram) : Option Gateway := Runs.exec step (new buffer) ds

end Gateway

/-! ## Reading the buffer back -/

section Reading

variable (b : Buffer) (data : List UInt8)

theorem slice_recvfrom (i : ℕ) :
    (b.recvfrom data).slice i ((received data).length - i) = (received data).drop i := by
  rw [Buffer.slice,Buffer.recvfrom,List.drop_append,List.take_append_of_le_length (by simp),
    List.take_of_length_le (by simp)]

theorem byte_recvfrom {i : ℕ} (h : i < (received data).length) :
    (b.recvfrom data).byte i = (received data).getD i 0 := by
  rw [Buffer.byte,Buffer.recvfrom,List.getD_eq_getElem?_getD,List.getElem?_append_left h,
    List.getD_eq_getElem?_getD]

theorem received_append {head : List UInt8} (h : head.length ≤ 1024) (tail : List UInt8) :
    received (head ++ tail) = head ++ tail.take (1024 - head.length) := by
  rw [received,List.take_append,List.take_of_length_le h]

end Reading

/-- The host reads back what it has copied out. -/
theorem hostBytes_eq (v : UInt16) :
    ∃ b₀ b₁, hostBytes v = [b₀,b₁] ∧ hostU16 b₀ b₁ = v := by
  have hv : v.toNat < 256^2 := v.toNat_lt
  have hlen : (hostBytes v).length = 2 := ByteOrder.bytes_length _ _ _
  obtain ⟨b₀,b₁,hb⟩ := List.length_eq_two.mp hlen
  refine ⟨b₀,b₁,hb,?_⟩
  rw [hostU16,← hb,hostBytes,ByteOrder.value_bytes_of_lt _ hv,UInt16.ofNat_toNat]

theorem cStr_eq_self_iff (s : List UInt8) : cStr s = s ↔ 0 ∉ s := by
  rw [cStr,List.takeWhile_eq_self_iff]
  constructor
  · intro h hmem
    simpa using h 0 hmem
  · intro h b hb
    simp only [bne_iff_ne,ne_eq]
    rintro rfl
    exact h hb

/-- A name survives the buffer and the C string when it fits and holds no NUL. -/
theorem cStr_take_eq_iff (s : List UInt8) (n : ℕ) :
    cStr (s.take n) = s ↔ s.length ≤ n ∧ 0 ∉ s := by
  by_cases h : s.length ≤ n
  · rw [List.take_of_length_le h,cStr_eq_self_iff]
    simp [h]
  · have hshort : (cStr (s.take n)).length ≤ n :=
      ((List.takeWhile_sublist _).length_le).trans (List.length_take_le n s)
    simp only [h,false_and,iff_false]
    intro heq
    rw [heq] at hshort
    exact h hshort

/-! ## Reading a PUBLISH -/

/-- The topic id and the payload that `handle_publish` reads from a buffer. -/
def decodePublish (b : Buffer) (len : ℕ) : UInt16 × List UInt8 :=
  (ntohs (hostU16 (b.byte 3) (b.byte 4)),b.slice 7 ((len : ℤ) - 7).toNat)

theorem Gateway.handlePublish_eq (g : Gateway) (len : ℕ) : g.handlePublish len =
    .ok (g,(g.topicIdMap (decodePublish g.buffer len).1).toList.map fun topic =>
      .mosquittoPublish (cStr topic) ((len : ℤ) - 7) (decodePublish g.buffer len).2) := by
  rw [handlePublish,decodePublish]
  cases g.topicIdMap (ntohs (hostU16 (g.buffer.byte 3) (g.buffer.byte 4))) <;> rfl

/-- What arrives of a PUBLISH: the id with its bytes swapped, and what the buffer holds of the
payload. -/
theorem decodePublish_recvfrom (b : Buffer) (length flags m₀ m₁ : UInt8) (id : UInt16)
    (payload : List UInt8) {data : List UInt8}
    (hdata : data = [length,mqttsnPublish,flags] ++ hostBytes id ++ [m₀,m₁] ++ payload) :
    decodePublish (b.recvfrom data) (received data).length = (ntohs id,payload.take 1017) := by
  obtain ⟨b₀,b₁,hbytes,hid⟩ := hostBytes_eq id
  have hrec : received data =
      [length,mqttsnPublish,flags] ++ [b₀,b₁] ++ [m₀,m₁] ++ payload.take 1017 := by
    rw [hdata,hbytes]
    apply received_append
    simp
  have hlen : (received data).length = 7 + (payload.take 1017).length := by
    simp [hrec]
    omega
  have h₃ : (b.recvfrom data).byte 3 = b₀ := by
    rw [byte_recvfrom _ _ (by omega),hrec]
    rfl
  have h₄ : (b.recvfrom data).byte 4 = b₁ := by
    rw [byte_recvfrom _ _ (by omega),hrec]
    rfl
  have hcount : (((received data).length : ℤ) - 7).toNat = (received data).length - 7 := by omega
  rw [decodePublish,h₃,h₄,hid,hcount,slice_recvfrom,hrec]
  rfl

/-! ## Register, then publish -/

/-- A client's two datagrams; it is free in all that is not the name and the payload. -/
structure Client where
  addr : SockaddrIn
  name : List UInt8
  payload : List UInt8
  registerLength : UInt8
  registerIds : Fin 4 → UInt8
  publishLength : UInt8
  publishFlags : UInt8
  publishMsgId : Fin 2 → UInt8
  uninit : Fin 5 → UInt8

def Client.register (c : Client) : Datagram where
  data := [c.registerLength,mqttsnRegister] ++ List.ofFn c.registerIds ++ c.name
  addr := c.addr
  uninit := c.uninit

def Client.publish (c : Client) (topicId : List UInt8) : Datagram where
  data := [c.publishLength,mqttsnPublish,c.publishFlags] ++ topicId ++ List.ofFn c.publishMsgId ++
    c.payload
  addr := c.addr
  uninit := c.uninit

namespace Gateway

/-- The client registers its name and publishes with the topic id bytes of the REGACK: its
payload goes to the broker under the name. -/
def RoundTrips (g : Gateway) (c : Client) : Prop :=
  ∃ g₁ ack g₂, g.receive c.register = .ok (g₁,[.sendto ack c.addr]) ∧
    g₁.receive (c.publish ((ack.drop 2).take 2)) =
      .ok (g₂,[.mosquittoPublish c.name c.payload.length c.payload])

variable (g : Gateway) (c : Client)

/-- A datagram of at least two bytes goes to the handler of its type. -/
theorem receive_eq {d : Datagram} (h : 2 ≤ (received d.data).length) :
    g.receive d = {g with buffer := g.buffer.recvfrom d.data}.handleMqttsnMessage
      (received d.data).length d.addr d.uninit := if_pos (by omega)

theorem receive_register : ∃ b msgId, g.receive c.register =
    .ok ({g with buffer := b}.assign (c.name.take 1018),
      [.sendto (regack g.nextTopicId msgId) c.addr]) := by
  have hdata : received c.register.data =
      [c.registerLength,mqttsnRegister] ++ List.ofFn c.registerIds ++ c.name.take 1018 := by
    apply received_append
    simp
  have hlen : 6 ≤ (received c.register.data).length := by
    simp [hdata]
  have htype : (g.buffer.recvfrom c.register.data).byte 1 = mqttsnRegister := by
    rw [byte_recvfrom _ _ (by omega),hdata]
    rfl
  have hname : stdString (g.buffer.recvfrom c.register.data) 6 (received c.register.data).length =
      .ok (c.name.take 1018) := by
    rw [stdString,if_neg (by omega),slice_recvfrom,hdata]
    congr 1
  refine ⟨g.buffer.recvfrom c.register.data,(g.buffer.recvfrom c.register.data).slice 4 2,?_⟩
  rw [receive_eq g (by omega),handleMqttsnMessage,if_neg (by omega)]
  simp only [htype]
  show handleRegister _ _ _ = _
  simp only [handleRegister,hname,bind,Except.bind,pure,Except.pure]
  rfl

/-- PUBLISH with an id as the host has it in memory: the lookup is for its swapped bytes. -/
theorem receive_publish (id : UInt16) :
    g.receive (c.publish (hostBytes id)) =
      .ok ({g with buffer := g.buffer.recvfrom (c.publish (hostBytes id)).data},
        (g.topicIdMap (ntohs id)).toList.map fun topic =>
          .mosquittoPublish (cStr topic) (c.payload.take 1017).length (c.payload.take 1017)) := by
  have hdecode := decodePublish_recvfrom g.buffer c.publishLength c.publishFlags
    (c.publishMsgId 0) (c.publishMsgId 1) id c.payload
    (show (c.publish (hostBytes id)).data = _ from rfl)
  obtain ⟨b₀,b₁,hbytes,-⟩ := hostBytes_eq id
  have hrec : received (c.publish (hostBytes id)).data =
      [c.publishLength,mqttsnPublish,c.publishFlags] ++ [b₀,b₁] ++ List.ofFn c.publishMsgId ++
        c.payload.take 1017 := by
    rw [hbytes]
    apply received_append
    simp
  have hlen : (received (c.publish (hostBytes id)).data).length =
      7 + (c.payload.take 1017).length := by
    simp [hrec]
    omega
  have htype : (g.buffer.recvfrom (c.publish (hostBytes id)).data).byte 1 = mqttsnPublish := by
    rw [byte_recvfrom _ _ (by omega),hrec]
    rfl
  have hdataLen : ((received (c.publish (hostBytes id)).data).length : ℤ) - 7 =
      (c.payload.take 1017).length := by omega
  rw [receive_eq g (by omega),handleMqttsnMessage,if_neg (by omega)]
  simp only [htype]
  show handlePublish _ _ = _
  rw [handlePublish_eq,hdecode,hdataLen]

theorem regack_topicId (id : UInt16) (msgId : List UInt8) :
    ((regack id msgId).drop 2).take 2 = hostBytes id := by
  obtain ⟨b₀,b₁,hbytes,-⟩ := hostBytes_eq id
  rw [regack,hbytes]
  rfl

/-- The one call of `mosquitto_publish` carries the name and the whole payload. -/
theorem published_iff (topic : Option (List UInt8)) :
    (topic.toList.map fun t => Effect.mosquittoPublish (cStr t) (c.payload.take 1017).length
        (c.payload.take 1017)) = [.mosquittoPublish c.name c.payload.length c.payload] ↔
      c.payload.length ≤ 1017 ∧ topic.map cStr = some c.name := by
  cases topic with
  | none => simp
  | some t =>
    constructor
    · intro h
      injection h with hcall
      injection hcall with hname hlen hpayload
      refine ⟨?_,congrArg some hname⟩
      rw [← hpayload]
      exact List.length_take_le _ _
    · rintro ⟨hlen,hname⟩
      rw [List.take_of_length_le hlen,← Option.some.inj hname]
      rfl

/-- The lookup for the swapped id, after the name was given the next one. -/
theorem assign_lookup_iff (id : UInt16) (hid : g.nextTopicId = id) :
    (((g.assign (c.name.take 1018)).topicIdMap (ntohs id)).map cStr = some c.name ↔
      if ntohs id = id then c.name.length ≤ 1018 ∧ 0 ∉ c.name
      else (g.topicIdMap (ntohs id)).map cStr = some c.name) := by
  have hmap : (g.assign (c.name.take 1018)).topicIdMap =
      Function.update g.topicIdMap id (some (c.name.take 1018)) := by
    rw [← hid]
    rfl
  rw [hmap]
  split_ifs with hswap
  · rw [hswap,Function.update_self,Option.map_some,Option.some_inj,cStr_take_eq_iff]
  · rw [Function.update_of_ne hswap]

/-- The payload is published under the name exactly when it fits the buffer and the lookup for
the swapped id finds the name: under an id that is its own swap, or registered before. -/
theorem roundTrips_iff : RoundTrips g c ↔ c.payload.length ≤ 1017 ∧
    if ntohs g.nextTopicId = g.nextTopicId then c.name.length ≤ 1018 ∧ 0 ∉ c.name
    else (g.topicIdMap (ntohs g.nextTopicId)).map cStr = some c.name := by
  obtain ⟨b,msgId,hregister⟩ := receive_register g c
  have hpublish := receive_publish ({g with buffer := b}.assign (c.name.take 1018)) c g.nextTopicId
  have hlookup := assign_lookup_iff {g with buffer := b} c g.nextTopicId rfl
  rw [← hlookup,← published_iff]
  unfold RoundTrips
  constructor
  · rintro ⟨g₁,ack,g₂,h₁,h₂⟩
    rw [hregister] at h₁
    cases h₁
    rw [regack_topicId,hpublish] at h₂
    injection h₂ with h₂
    exact congrArg Prod.snd h₂
  · intro hcalls
    rw [hcalls,← regack_topicId g.nextTopicId msgId] at hpublish
    exact ⟨_,_,_,hregister,hpublish⟩

/-- The first topic is registered under id 1 and looked up under 256: nothing is published. -/
theorem roundTrips_lost_firstTopic :
    ∃ g, run ⟨List.replicate 1024 0,List.length_replicate⟩ [] = some g ∧
      ¬ RoundTrips g ⟨⟨0x7F000001,5000⟩,[0x61],[0x2A],7,fun _ => 0,8,0,fun _ => 0,fun _ => 0⟩ := by
  refine ⟨_,rfl,?_⟩
  rintro ⟨g₁,ack,g₂,h₁,h₂⟩
  cases h₁
  cases h₂

/-! ## Broker messages -/

/-- `publish_msg`: the vector is zero where nothing is written, its size is cut to a byte. -/
def publishMsg (topicId : UInt16) (payload : List UInt8) : List UInt8 :=
  [UInt8.ofNat (7 + payload.length),mqttsnPublish,0] ++ hostBytes topicId ++ [0,0] ++ payload

/-- The datagram that `on_mqtt_message` builds, if the topic has an id. -/
def forwarded (topic payload : List UInt8) : Option (List UInt8) :=
  (g.topicNameMap (cStr topic)).map fun topicId => publishMsg topicId payload

def onMqttMessage (topic payload : List UInt8) : List Effect :=
  match g.forwarded topic payload with
  | none => []
  | some msg => g.clientAddresses.map fun client => .sendto msg client.2

theorem publishMsg_length (id : UInt16) (payload : List UInt8) :
    (publishMsg id payload).length = 7 + payload.length := by
  simp [publishMsg,hostBytes]
  omega

/-- The length byte says how long the datagram is. -/
def LengthRight (msg : List UInt8) : Prop := (msg.getD 0 0).toNat = msg.length

theorem lengthRight_publishMsg (id : UInt16) (payload : List UInt8) :
    LengthRight (publishMsg id payload) ↔ payload.length ≤ 248 := by
  have hbyte : ((publishMsg id payload).getD 0 0).toNat = (7 + payload.length) % 256 :=
    UInt8.toNat_ofNat' ..
  rw [LengthRight,hbyte,publishMsg_length]
  omega

/-- The datagram says its own length, and `handle_publish` reads the topic id and the payload
from it, whatever its buffer held before. -/
def Forwards (topicId : UInt16) (topic payload : List UInt8) : Prop :=
  ∃ msg, g.forwarded topic payload = some msg ∧ LengthRight msg ∧
    ∀ b : Buffer, decodePublish (b.recvfrom msg) (received msg).length = (topicId,payload)

/-- A message on a registered topic is forwarded as it should be exactly when its payload has at
most 248 bytes and the topic id is the same with its bytes swapped. -/
theorem forwards_iff (topicId : UInt16) (topic payload : List UInt8)
    (htopic : g.topicNameMap (cStr topic) = some topicId) :
    g.Forwards topicId topic payload ↔ payload.length ≤ 248 ∧ ntohs topicId = topicId := by
  have hmsg : g.forwarded topic payload = some (publishMsg topicId payload) := by
    rw [forwarded,htopic]
    rfl
  have hdecode (b : Buffer) := decodePublish_recvfrom b _ _ _ _ topicId payload
    (show publishMsg topicId payload = _ from rfl)
  rw [Forwards,hmsg]
  constructor
  · rintro ⟨msg,heq,hlength,hread⟩
    cases heq
    have hblank := hread ⟨List.replicate 1024 0,List.length_replicate⟩
    rw [hdecode] at hblank
    exact ⟨(lengthRight_publishMsg _ _).mp hlength,congrArg Prod.fst hblank⟩
  · rintro ⟨hlength,hswap⟩
    refine ⟨_,rfl,(lengthRight_publishMsg _ _).mpr hlength,?_⟩
    intro b
    rw [hdecode,hswap,List.take_of_length_le (by omega)]

/-- A gateway that has one topic, "a". -/
def oneTopic (topicId : UInt16) : Gateway :=
  {new ⟨List.replicate 1024 0,List.length_replicate⟩ with nextTopicId := topicId}.assign [0x61]

theorem forwards_palindrome : (oneTopic 257).Forwards 257 [0x61] [0x2A] :=
  (forwards_iff (oneTopic 257) 257 [0x61] [0x2A] (by decide)).mpr ⟨by decide,by decide⟩

/-- A message on the first topic goes out under id 1 and is read as one for id 256. -/
theorem forwards_lost_firstTopic :
    (oneTopic 1).topicNameMap (cStr [0x61]) = some 1 ∧ ¬ (oneTopic 1).Forwards 1 [0x61] [0x2A] := by
  refine ⟨by decide,?_⟩
  rintro ⟨msg,hmsg,-,hread⟩
  have hread' := congrArg Prod.fst (hread ⟨List.replicate 1024 0,List.length_replicate⟩)
  cases hmsg
  exact absurd hread' (by decide)

end Gateway
end MqttSnCpp
end UProtocols
