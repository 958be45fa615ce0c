import Mathlib.Data.List.DropRight
import UProtocols.ByteOrder
import UProtocols.Runs

/-!
# The MQTT-SN gateway in Rust

`MqttSnGateway::handle_message` of `MQTT_SN_Gateway_Implementation.rs`. A datagram takes
the gateway to its next state and to what it sends, publishes and subscribes, or makes it
panic; log output is left out. `checks` tells a build with overflow checks, where an
overflow panics, from one without, where it wraps.
-/

namespace UProtocols
namespace MqttSn

def mqttsnSearchgw : UInt8 := 0x01
def mqttsnGwinfo : UInt8 := 0x02
def mqttsnConnect : UInt8 := 0x04
def mqttsnConnack : UInt8 := 0x05
def mqttsnRegister : UInt8 := 0x0A
def mqttsnRegack : UInt8 := 0x0B
def mqttsnPublish : UInt8 := 0x0C
def mqttsnPuback : UInt8 := 0x0D
def mqttsnSubscribe : UInt8 := 0x12
def mqttsnSuback : UInt8 := 0x13
def mqttsnPingreq : UInt8 := 0x16
def mqttsnPingresp : UInt8 := 0x17
def mqttsnDisconnect : UInt8 := 0x18

def mqttsnRcAccepted : UInt8 := 0x00

inductive Panic
  | overflow | indexOutOfBounds | sliceOutOfRange | cursorExhausted
  deriving DecidableEq

/-! ## Checked operations -/

/-- Subtraction in a 64-bit `usize`. -/
def usizeSub (checks : Bool) (a b : ℕ) : Except Panic ℕ :=
  if b ≤ a then .ok (a - b)
  else if checks then .error .overflow
  else .ok (2^64 + a - b)

/-- Addition in a 64-bit `usize`. -/
def usizeAdd (checks : Bool) (a b : ℕ) : Except Panic ℕ :=
  if a + b < 2^64 then .ok (a + b)
  else if checks then .error .overflow
  else .ok ((a + b) % 2^64)

/-- `data[i]`. -/
def index (data : List UInt8) (i : ℕ) : Except Panic UInt8 :=
  match data[i]? with
  | some b => .ok b
  | none => .error .indexOutOfBounds

/-- `data[i..j]`. -/
def slice (data : List UInt8) (i j : ℕ) : Except Panic (List UInt8) :=
  if i ≤ j ∧ j ≤ data.length then .ok ((data.drop i).take (j - i))
  else .error .sliceOutOfRange

/-- `u16::from_be_bytes`. -/
def fromBeBytes (hi lo : UInt8) : UInt16 := UInt16.ofNat (ByteOrder.big.value [hi,lo])

def u16Bytes (v : UInt16) : List UInt8 := ByteOrder.big.bytes 2 v.toNat

/-- `Buf::get_u16` of a cursor over the remaining bytes. -/
def getU16 : List UInt8 → Except Panic (UInt16 × List UInt8)
  | hi::lo::rest => .ok (fromBeBytes hi lo,rest)
  | _ => .error .cursorExhausted

/-! ## Strings -/

/-- A Rust `String`: its Unicode scalar values. -/
abbrev Name := List Char

def isContinuation (b : UInt8) : Bool := 0x80 ≤ b && b ≤ 0xBF

/-- The second bytes that may follow the first byte of a longer sequence. -/
def secondByte (first second : UInt8) : Bool :=
  if first = 0xE0 then 0xA0 ≤ second && second ≤ 0xBF
  else if first = 0xED then 0x80 ≤ second && second ≤ 0x9F
  else if first = 0xF0 then 0x90 ≤ second && second ≤ 0xBF
  else if first = 0xF4 then 0x80 ≤ second && second ≤ 0x8F
  else isContinuation second

/-- The first character of a byte string and the number of further bytes it takes up; an
ill-formed sequence becomes one replacement character as far as it is well-formed. -/
def firstChar (b : UInt8) (rest : List UInt8) : Char × ℕ :=
  let bits (i : ℕ) : ℕ := (rest.getD i 0).toNat % 64
  let continues (i : ℕ) : Bool := (rest[i]?).any isContinuation
  if b < 0x80 then (Char.ofNat b.toNat,0)
  else if 0xC2 ≤ b ∧ b ≤ 0xDF then
    if continues 0 then (Char.ofNat (b.toNat % 32 * 64 + bits 0),1)
    else ('\uFFFD',0)
  else if 0xE0 ≤ b ∧ b ≤ 0xEF then
    if !(rest[0]?).any (secondByte b) then ('\uFFFD',0)
    else if !continues 1 then ('\uFFFD',1)
    else (Char.ofNat ((b.toNat % 16 * 64 + bits 0) * 64 + bits 1),2)
  else if 0xF0 ≤ b ∧ b ≤ 0xF4 then
    if !(rest[0]?).any (secondByte b) then ('\uFFFD',0)
    else if !continues 1 then ('\uFFFD',1)
    else if !continues 2 then ('\uFFFD',2)
    else (Char.ofNat (((b.toNat % 8 * 64 + bits 0) * 64 + bits 1) * 64 + bits 2),3)
  else ('\uFFFD',0)

/-- `String::from_utf8_lossy`, one character for each of at most `fuel` bytes. -/
def decodeLossy : ℕ → List UInt8 → Name
  | 0, _ => []
  | _, [] => []
  | fuel+1, b::rest =>
    let (c,n) := firstChar b rest
    c :: decodeLossy fuel (rest.drop n)

def fromUtf8Lossy (bytes : List UInt8) : Name := decodeLossy bytes.length bytes

/-- A topic name on the wire, without the padding at its end. -/
def topicName (bytes : List UInt8) : Name :=
  (fromUtf8Lossy bytes).rdropWhile fun c => c == '\x00'

example : topicName [0x61,0xC3,0xA9,0xE2,0x82,0x62,0xFF,0x00,0x00] =
    ['a','é','\uFFFD','b','\uFFFD'] := by decide

/-! ## The gateway -/

structure SocketAddr where
  ip : List UInt8
  port : UInt16
  deriving DecidableEq

structure ClientInfo where
  address : SocketAddr
  clientId : Name
  deriving DecidableEq

/-- What the gateway does to the outside world. -/
inductive Effect
  | sendTo (response : List UInt8) (addr : SocketAddr)
  | publish (topic : Name) (payload : List UInt8)
  | subscribe (topic : Name)
  deriving DecidableEq

/-- The maps of the gateway, with the number of topic ids it has allocated. -/
structure Gateway where
  topicIdMap : UInt16 → Option Name
  topicNameMap : Name → Option UInt16
  clientMap : Name → Option ClientInfo
  nextTopicId : UInt16
  allocated : ℕ

structure Datagram where
  data : List UInt8
  addr : SocketAddr
  deriving DecidableEq

def gwinfo : List UInt8 := [3,mqttsnGwinfo,1]

def connack : List UInt8 := [3,mqttsnConnack,mqttsnRcAccepted]

def regack (topicId msgId : UInt16) : List UInt8 :=
  [7,mqttsnRegack] ++ u16Bytes topicId ++ u16Bytes msgId ++ [mqttsnRcAccepted]

def puback (topicId msgId : UInt16) : List UInt8 :=
  [7,mqttsnPuback] ++ u16Bytes topicId ++ u16Bytes msgId ++ [mqttsnRcAccepted]

def suback (topicId msgId : UInt16) : List UInt8 :=
  [8,mqttsnSuback,0] ++ u16Bytes topicId ++ u16Bytes msgId ++ [mqttsnRcAccepted]

def pingresp : List UInt8 := [2,mqttsnPingresp]

/-- A handler's outcome: the gateway after it and what it did, or a panic. -/
abbrev Outcome := Except Panic (Gateway × List Effect)

namespace Gateway

def new : Gateway where
  topicIdMap := fun _ => none
  topicNameMap := fun _ => none
  clientMap := fun _ => none
  nextTopicId := 1
  allocated := 0

/-- The gateway after it has given the next topic id to a name. -/
def assign (g : Gateway) (name : Name) : Gateway :=
  {g with
    topicIdMap := Function.update g.topicIdMap g.nextTopicId (some name)
    topicNameMap := Function.update g.topicNameMap name (some g.nextTopicId)
    nextTopicId := g.nextTopicId + 1
    allocated := g.allocated + 1}

/-- Allocate the next topic id for a name; `*next_id += 1` may overflow. -/
def allocate (checks : Bool) (g : Gateway) (name : Name) : Except Panic (Gateway × UInt16) :=
  if checks ∧ g.nextTopicId = 65535 then .error .overflow
  else .ok (g.assign name,g.nextTopicId)

def handleSearchgw (g : Gateway) (addr : SocketAddr) : Outcome := .ok (g,[.sendTo gwinfo addr])

def handleConnect (checks : Bool) (g : Gateway) (data : List UInt8) (addr : SocketAddr) :
    Outcome := do
  if data.length < 6 then return (g,[])
  let clientIdLen ← usizeSub checks (← index data 0).toNat 6
  let stop ← usizeAdd checks 6 clientIdLen
  let clientId ←
    if data.length ≥ stop then (slice data 6 stop).map fromUtf8Lossy
    else pure ['u','n','k','n','o','w','n']
  let info : ClientInfo := ⟨addr,clientId⟩
  return ({g with clientMap := Function.update g.clientMap clientId (some info)},
    [.sendTo connack addr])

def handleRegister (checks : Bool) (g : Gateway) (data : List UInt8) (addr : SocketAddr) :
    Outcome := do
  if data.length < 7 then return (g,[])
  let cursor ← slice data 2 data.length
  let (_topicIdFromClient,cursor) ← getU16 cursor
  let (msgId,_) ← getU16 cursor
  let name := topicName (← slice data 6 data.length)
  let (g,topicId) ← g.allocate checks name
  return (g,[.sendTo (regack topicId msgId) addr])

def handlePublish (g : Gateway) (data : List UInt8) (addr : SocketAddr) : Outcome := do
  if data.length < 8 then return (g,[])
  let flags ← index data 2
  let topicId := fromBeBytes (← index data 3) (← index data 4)
  let msgId := fromBeBytes (← index data 5) (← index data 6)
  let payload ← slice data 7 data.length
  match g.topicIdMap topicId with
  | none => return (g,[])
  | some name =>
    let ack := if flags &&& 0x60 != 0 then [.sendTo (puback topicId msgId) addr] else []
    return (g,.publish name payload :: ack)

def handleSubscribe (checks : Bool) (g : Gateway) (data : List UInt8) (addr : SocketAddr) :
    Outcome := do
  if data.length < 6 then return (g,[])
  let msgId := fromBeBytes (← index data 3) (← index data 4)
  let name := topicName (← slice data 5 data.length)
  let (g,topicId) ←
    match g.topicNameMap name with
    | some id => pure (g,id)
    | none => g.allocate checks name
  return (g,[.subscribe name,.sendTo (suback topicId msgId) addr])

def handlePingreq (g : Gateway) (addr : SocketAddr) : Outcome := .ok (g,[.sendTo pingresp addr])

def handleDisconnect (g : Gateway) : Outcome := .ok (g,[])

def handleMessage (checks : Bool) (g : Gateway) (d : Datagram) : Outcome := do
  if d.data.length < 2 then return (g,[])
  let msgType ← index d.data 1
  if msgType = mqttsnSearchgw then g.handleSearchgw d.addr
  else if msgType = mqttsnConnect then g.handleConnect checks d.data d.addr
  else if msgType = mqttsnRegister then g.handleRegister checks d.data d.addr
  else if msgType = mqttsnPublish then g.handlePublish d.data d.addr
  else if msgType = mqttsnSubscribe then g.handleSubscribe checks d.data d.addr
  else if msgType = mqttsnPingreq then g.handlePingreq d.addr
  else if msgType = mqttsnDisconnect then g.handleDisconnect
  else return (g,[])

/-- A gateway that panics handles no further datagram. -/
def step (checks : Bool) (g : Gateway) (d : Datagram) : Option Gateway :=
  match g.handleMessage checks d with
  | .ok (g,_) => some g
  | .error _ => none

def run (checks : Bool) (ds : List Datagram) : Option Gateway := Runs.exec (step checks) new ds

end Gateway
end MqttSn
end UProtocols
