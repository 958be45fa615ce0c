import UProtocols.ByteOrder
import UProtocols.ByteStream

/-!
# Messages over TCP, in Rust and in C++

`send_message` and `receive_message` of `bidirectional_example.rs`, `sendPerson` and
`receivePerson` of `bidirectional_example.cpp`. Both write a big-endian size and then the encoded
message. The Rust receiver reads with `read_exact`; the C++ receiver calls `recv` once for the
size and once for the body, and takes what it gets. The protobuf libraries are parameters.
-/

namespace UProtocols
namespace ProtobufFraming

open ByteStream (Source)

/-- What is written for an encoded message: the conversion to 32 bits keeps the low ones. -/
def frame (buf : List UInt8) : List UInt8 := ByteOrder.big.bytes 4 (buf.length % 4294967296) ++ buf

/-! ## Rust -/

inductive IoError (δ : Type)
  | unexpectedEof
  | invalidData (e : δ)
  deriving DecidableEq

section Rust

variable {ι δ : Type} {T : ι → Type} (encode : (i : ι) → T i → List UInt8)
  (decode : (i : ι) → List UInt8 → Except δ (T i))

/-- The stream after the message `msg` of type `T i`. -/
def sendMessage (stream : List UInt8) (i : ι) (msg : T i) : List UInt8 :=
  let buf := encode i msg
  stream ++ frame buf

/-- The stream after messages one after the other. -/
def sendMessages (stream : List UInt8) (msgs : List (Sigma T)) : List UInt8 :=
  msgs.foldl (fun stream msg => sendMessage encode stream msg.1 msg.2) stream

def receiveMessage (i : ι) (stream : Source UInt8) :
    Except (IoError δ) (T i) × Source UInt8 :=
  match stream.readExact 4 with
  | (none,stream) => (.error .unexpectedEof,stream)
  | (some sizeBuf,stream) =>
    let size := ByteOrder.big.value sizeBuf
    match stream.readExact size with
    | (none,stream) => (.error .unexpectedEof,stream)
    | (some buf,stream) =>
      match decode i buf with
      | .ok msg => (.ok msg,stream)
      | .error e => (.error (.invalidData e),stream)

/-- The results of calls one after the other, each for its message type. -/
def receiveMessages : List ι → Source UInt8 →
    List ((i : ι) × Except (IoError δ) (T i)) × Source UInt8
  | [], stream => ([],stream)
  | i::is, stream =>
    let (result,stream) := receiveMessage decode i stream
    let (results,stream) := receiveMessages is stream
    (⟨i,result⟩::results,stream)

end Rust

/-! ## C++ -/

section Cpp

variable {P : Type} (serialize : P → List UInt8) (parse : List UInt8 → Option P)

/-- The stream after `sendPerson`, which is the same for server and client. -/
def sendPerson (stream : List UInt8) (person : P) : List UInt8 :=
  let serialized := serialize person
  stream ++ frame serialized

def sendPersons (stream : List UInt8) (persons : List P) : List UInt8 :=
  persons.foldl (sendPerson serialize) stream

/-- `receivePerson`, with what the memory of `size` holds before. The result is `none` where the
method returns false. -/
def receivePerson (memory : Fin 4 → UInt8) (stream : Source UInt8) : Option P × Source UInt8 :=
  match stream.read 4 with
  | ([],stream) => (none,stream)
  | (b::bytes,stream) =>
    let size := ByteOrder.big.value (b::bytes ++ (List.ofFn memory).drop (b::bytes).length)
    let (buffer,stream) := stream.read size
    (parse buffer,stream)

/-- The results of `n` calls. -/
def receivePersons (memory : ℕ → Fin 4 → UInt8) : ℕ → Source UInt8 →
    List (Option P) × Source UInt8
  | 0, stream => ([],stream)
  | n + 1, stream =>
    let (person,stream) := receivePerson parse (memory 0) stream
    let (persons,stream) := receivePersons (fun i => memory (i + 1)) n stream
    (person::persons,stream)

end Cpp

/-! ## Frames -/

/-- The size of a frame is read back from its four bytes. -/
theorem frame_eq {buf : List UInt8} (h : buf.length < 2^32) :
    ∃ size, frame buf = size ++ buf ∧ size.length = 4 ∧ ByteOrder.big.value size = buf.length := by
  have hmod : buf.length % 4294967296 = buf.length := Nat.mod_eq_of_lt h
  have hlt : buf.length < 256^4 := h
  refine ⟨ByteOrder.big.bytes 4 buf.length,?_,ByteOrder.bytes_length _ _ _,
    ByteOrder.value_bytes_of_lt _ hlt⟩
  rw [frame,hmod]

section Rust

variable {ι δ : Type} {T : ι → Type} {encode : (i : ι) → T i → List UInt8}
  {decode : (i : ι) → List UInt8 → Except δ (T i)}

theorem sendMessages_eq (stream : List UInt8) (msgs : List (Sigma T)) :
    sendMessages encode stream msgs =
      stream ++ msgs.flatMap fun msg => frame (encode msg.1 msg.2) := by
  induction msgs generalizing stream with
  | nil => simp [sendMessages]
  | cons msg msgs ih =>
    have hnext : sendMessages encode stream (msg::msgs) =
        sendMessages encode (sendMessage encode stream msg.1 msg.2) msgs := rfl
    rw [hnext,ih,List.flatMap_cons,sendMessage,List.append_assoc]

/-- One message, however the stream splits it, and whatever follows. -/
theorem receiveMessage_frame (hinv : ∀ i msg, decode i (encode i msg) = .ok msg) {i : ι} {msg : T i}
    (hsize : (encode i msg).length < 2^32) (rest : List UInt8) (sizes : ℕ → ℕ) :
    ∃ sizes', receiveMessage decode i ⟨frame (encode i msg) ++ rest,sizes⟩ =
      (.ok msg,⟨rest,sizes'⟩) := by
  obtain ⟨size,hframe,hfour,hvalue⟩ := frame_eq hsize
  obtain ⟨sizes₁,hread₁⟩ := Source.readExact_append size (encode i msg ++ rest) sizes
  obtain ⟨sizes₂,hread₂⟩ := Source.readExact_append (encode i msg) rest sizes₁
  refine ⟨sizes₂,?_⟩
  rw [hfour] at hread₁
  simp only [receiveMessage,hframe,List.append_assoc,hread₁,hvalue,hread₂,hinv]

theorem receiveMessages_frames (hinv : ∀ i msg, decode i (encode i msg) = .ok msg)
    (msgs : List (Sigma T)) (hsize : ∀ msg ∈ msgs, (encode msg.1 msg.2).length < 2^32)
    (rest : List UInt8) (sizes : ℕ → ℕ) : ∃ sizes',
    receiveMessages decode (msgs.map Sigma.fst)
        ⟨(msgs.flatMap fun msg => frame (encode msg.1 msg.2)) ++ rest,sizes⟩ =
      (msgs.map fun msg => ⟨msg.1,.ok msg.2⟩,⟨rest,sizes'⟩) := by
  induction msgs generalizing sizes with
  | nil => exact ⟨sizes,rfl⟩
  | cons msg msgs ih =>
    obtain ⟨hone,hall⟩ := List.forall_mem_cons.mp hsize
    obtain ⟨sizes₁,hmsg⟩ := receiveMessage_frame hinv hone
      ((msgs.flatMap fun msg => frame (encode msg.1 msg.2)) ++ rest) sizes
    obtain ⟨sizes₂,hmsgs⟩ := ih hall sizes₁
    refine ⟨sizes₂,?_⟩
    simp only [List.map_cons,receiveMessages,List.flatMap_cons,List.append_assoc,hmsg,hmsgs]

/-- As many calls of `receive_message` as messages were sent return these messages in order and
leave nothing unread, however the stream splits the bytes into reads. -/
theorem receiveMessages_sendMessages (hinv : ∀ i msg, decode i (encode i msg) = .ok msg)
    (msgs : List (Sigma T)) (hsize : ∀ msg ∈ msgs, (encode msg.1 msg.2).length < 2^32)
    (sizes : ℕ → ℕ) : ∃ sizes',
    receiveMessages decode (msgs.map Sigma.fst) ⟨sendMessages encode [] msgs,sizes⟩ =
      (msgs.map fun msg => ⟨msg.1,.ok msg.2⟩,⟨[],sizes'⟩) := by
  obtain ⟨sizes',h⟩ := receiveMessages_frames hinv msgs hsize [] sizes
  refine ⟨sizes',?_⟩
  rw [sendMessages_eq,List.nil_append,← h,List.append_nil]

/-- One more call finds the end of the stream. -/
theorem receiveMessage_end (i : ι) (sizes : ℕ → ℕ) :
    (receiveMessage decode i ⟨[],sizes⟩).1 = .error .unexpectedEof := by
  obtain ⟨sizes',h⟩ := Source.readExact_end (s := (⟨[],sizes⟩ : Source UInt8)) (n := 4) (by simp)
  simp only [receiveMessage,h]

end Rust

/-! ## A message with one field

Names of fewer than 128 bytes, as protobuf encodes a string in field 1: the empty one is left
out. -/

abbrev Named := {name : List UInt8 // name.length < 128}

def serializeNamed : Named → List UInt8
  | ⟨[],_⟩ => []
  | ⟨b::bs,_⟩ => 0x0A::UInt8.ofNat (b::bs).length::b::bs

def parseNamed : List UInt8 → Option Named
  | [] => some ⟨[],by decide⟩
  | [_] => none
  | tag::length::name =>
    if h : name.length < 128 then
      if tag = 0x0A ∧ name.length = length.toNat then some ⟨name,h⟩ else none
    else none

theorem parseNamed_serializeNamed (p : Named) : parseNamed (serializeNamed p) = some p := by
  obtain ⟨name,h⟩ := p
  cases name with
  | nil => rfl
  | cons b bs =>
    have hlength : (b::bs).length = (UInt8.ofNat (b::bs).length).toNat := by
      rw [UInt8.toNat_ofNat',Nat.mod_eq_of_lt (by omega)]
    rw [serializeNamed,parseNamed,dif_pos h,if_pos ⟨rfl,hlength⟩]

theorem serializeNamed_length (p : Named) : (serializeNamed p).length < 130 := by
  obtain ⟨name,h⟩ := p
  cases name with
  | nil => simp [serializeNamed]
  | cons b bs =>
    simp only [serializeNamed,List.length_cons] at h ⊢
    omega

theorem serializeNamed_injective : Function.Injective serializeNamed := by
  intro p q h
  have hparse := congrArg parseNamed h
  rw [parseNamed_serializeNamed,parseNamed_serializeNamed] at hparse
  exact Option.some.inj hparse

/-- The first byte is the tag of field 1. -/
theorem serializeNamed_head (p : Named) : (serializeNamed p).head? ≠ some 0 := by
  obtain ⟨name,h⟩ := p
  cases name with
  | nil => simp [serializeNamed]
  | cons b bs => simp [serializeNamed]

/-- The answer of `ParseFromArray` as a result of `decode`. -/
def decodeOf {P : Type} (parse : List UInt8 → Option P) (buf : List UInt8) : Except Unit P :=
  match parse buf with
  | some person => .ok person
  | none => .error ()

/-- The name "A" and an empty one, byte by byte. -/
theorem receiveMessages_bytewise : ∃ sizes',
    receiveMessages (fun _ : Unit => decodeOf parseNamed) [(),()]
        ⟨sendMessages (fun _ : Unit => serializeNamed) [] [⟨(),⟨[0x41],by decide⟩⟩,
          ⟨(),⟨[],by decide⟩⟩],fun _ => 1⟩ =
      ([⟨(),.ok ⟨[0x41],by decide⟩⟩,⟨(),.ok ⟨[],by decide⟩⟩],⟨[],sizes'⟩) := by
  refine @receiveMessages_sendMessages _ _ _ (fun _ : Unit => serializeNamed)
    (fun _ : Unit => decodeOf parseNamed) ?_ [⟨(),⟨[0x41],by decide⟩⟩,⟨(),⟨[],by decide⟩⟩] ?_
    (fun _ => 1)
  · intro i p
    rw [decodeOf,parseNamed_serializeNamed]
  · intro msg _
    exact Nat.lt_trans (serializeNamed_length msg.2) (by decide)

/-! ## One `recv` for each part -/

section Cpp

variable {P : Type} {serialize : P → List UInt8} {parse : List UInt8 → Option P}

/-- Every `recv` gets all that it asks for; there are two of them for each person. -/
def Unsplit (serialize : P → List UInt8) : List P → (ℕ → ℕ) → Prop
  | [], _ => True
  | person::persons, sizes =>
    4 ≤ sizes 0 ∧ (serialize person).length ≤ max 1 (sizes 1) ∧
      Unsplit serialize persons fun i => sizes (i + 2)

theorem sendPersons_eq_sendMessages (stream : List UInt8) (persons : List P) :
    sendPersons serialize stream persons = sendMessages (fun _ : Unit => serialize) stream
      (persons.map fun person => ⟨(),person⟩) := by
  rw [sendPersons,sendMessages,List.foldl_map]
  rfl

theorem sendPersons_eq (persons : List P) : sendPersons serialize [] persons =
    (persons.flatMap fun person => frame (serialize person)) ++ [] := by
  rw [sendPersons_eq_sendMessages,sendMessages_eq,List.flatMap_map,List.nil_append,
    List.append_nil]

/-- A size that one `recv` gets whole. -/
theorem receivePerson_wholeSize {size buf rest : List UInt8} {sizes : ℕ → ℕ}
    (hlength : size.length = 4) (hvalue : ByteOrder.big.value size = buf.length)
    (h : 4 ≤ sizes 0) (memory : Fin 4 → UInt8) :
    receivePerson parse memory ⟨size ++ (buf ++ rest),sizes⟩ =
      (parse (Source.read ⟨buf ++ rest,fun i => sizes (i + 1)⟩ buf.length).1,
        (Source.read ⟨buf ++ rest,fun i => sizes (i + 1)⟩ buf.length).2) := by
  have hread := @Source.read_full _ size (buf ++ rest) sizes (by omega)
  rw [hlength] at hread
  match size, hlength with
  | [b₀,b₁,b₂,b₃], _ =>
    have hmemory : [b₀,b₁,b₂,b₃] ++ (List.ofFn memory).drop [b₀,b₁,b₂,b₃].length =
        [b₀,b₁,b₂,b₃] := by
      rw [List.drop_eq_nil_of_le (by simp),List.append_nil]
    simp only [receivePerson,hread,hmemory,hvalue]

theorem receivePerson_frame (hinv : ∀ p, parse (serialize p) = some p) {person : P}
    (hsize : (serialize person).length < 2^31) {sizes : ℕ → ℕ} (hfour : 4 ≤ sizes 0)
    (hbody : (serialize person).length ≤ max 1 (sizes 1)) (memory : Fin 4 → UInt8)
    (rest : List UInt8) :
    receivePerson parse memory ⟨frame (serialize person) ++ rest,sizes⟩ =
      (some person,⟨rest,fun i => sizes (i + 2)⟩) := by
  obtain ⟨size,hframe,hlength,hvalue⟩ :=
    frame_eq (show (serialize person).length < 2^32 by omega)
  have hread := @Source.read_full _ (serialize person) rest (fun i => sizes (i + 1)) hbody
  rw [hframe,List.append_assoc,receivePerson_wholeSize hlength hvalue hfour,hread,hinv]

/-- Persons one after the other, when no `recv` is short. -/
theorem receivePersons_frames (hinv : ∀ p, parse (serialize p) = some p)
    (hsize : ∀ p, (serialize p).length < 2^31) (persons : List P) (sizes : ℕ → ℕ)
    (h : Unsplit serialize persons sizes) (memory : ℕ → Fin 4 → UInt8) (rest : List UInt8) :
    ∃ sizes', receivePersons parse memory persons.length
        ⟨(persons.flatMap fun person => frame (serialize person)) ++ rest,sizes⟩ =
      (persons.map some,⟨rest,sizes'⟩) := by
  induction persons generalizing sizes memory with
  | nil => exact ⟨sizes,rfl⟩
  | cons person persons ih =>
    obtain ⟨hfour,hbody,hrest⟩ := h
    have hone := receivePerson_frame hinv (hsize person) hfour hbody (memory 0)
      ((persons.flatMap fun person => frame (serialize person)) ++ rest)
    obtain ⟨sizes',hall⟩ := ih (fun i => sizes (i + 2)) hrest (fun i => memory (i + 1))
    refine ⟨sizes',?_⟩
    simp only [List.length_cons,receivePersons,List.flatMap_cons,List.append_assoc,hone,hall,
      List.map_cons]

/-- The C++ receiver returns the persons in order, as the Rust receiver does with the same bytes,
however these reach it. -/
def Agrees (serialize : P → List UInt8) (parse : List UInt8 → Option P) (persons : List P)
    (sizes : ℕ → ℕ) (memory : ℕ → Fin 4 → UInt8) : Prop :=
  (receivePersons parse memory persons.length ⟨sendPersons serialize [] persons,sizes⟩).1 =
      persons.map some ∧
    ∀ sizes', (receiveMessages (fun _ : Unit => decodeOf parse) (persons.map fun _ => ())
        ⟨sendPersons serialize [] persons,sizes'⟩).1 = persons.map fun person => ⟨(),.ok person⟩

/-- If every `recv` gets all that it asks for, the C++ receiver returns what was sent and agrees
with the Rust receiver. -/
theorem agrees_of_unsplit (hinv : ∀ p, parse (serialize p) = some p)
    (hsize : ∀ p, (serialize p).length < 2^31) (persons : List P) (sizes : ℕ → ℕ)
    (memory : ℕ → Fin 4 → UInt8) (h : Unsplit serialize persons sizes) :
    Agrees serialize parse persons sizes memory := by
  rw [Agrees,sendPersons_eq]
  constructor
  · obtain ⟨sizes',hall⟩ := receivePersons_frames hinv hsize persons sizes h memory []
    rw [hall]
  · intro sizes'
    have hdecode : ∀ (i : Unit) (p : P),
        (fun _ : Unit => decodeOf parse) i ((fun _ : Unit => serialize) i p) = .ok p := by
      intro i p
      simp only [decodeOf,hinv]
    obtain ⟨sizes'',hall⟩ := receiveMessages_frames hdecode
      (persons.map fun person => ⟨(),person⟩) (by
        intro msg _
        exact Nat.lt_trans (hsize msg.2) (by decide)) [] sizes'
    rw [List.flatMap_map,List.map_map,List.map_map] at hall
    exact congrArg Prod.fst hall

/-! ### Short reads -/

/-- The size as `receivePerson` has it after a `recv` of `j` of its bytes. -/
def filled (size : List UInt8) (j : ℕ) (memory : Fin 4 → UInt8) : ℕ :=
  ByteOrder.big.value (size.take j ++ (List.ofFn memory).drop j)

/-- With zeros in the memory the size is not too large; a one at its end makes it larger by one. It
can only be right by chance, and then the bytes that are missing are zeros. -/
theorem filled_zero {size : List UInt8} {j : ℕ} (hlength : size.length = 4) (hpos : 0 < j)
    (hlt : j < 4) :
    filled size j (fun _ => 0) ≤ ByteOrder.big.value size ∧
      filled size j (fun i => if i = 3 then 1 else 0) = filled size j (fun _ => 0) + 1 ∧
      (filled size j (fun _ => 0) = ByteOrder.big.value size →
        (size.drop j).head? = some 0) := by
  match size, hlength with
  | [b₀,b₁,b₂,b₃], _ =>
    obtain rfl | rfl | rfl : j = 1 ∨ j = 2 ∨ j = 3 := by omega
    all_goals
      simp only [filled,ByteOrder.value,ofLeBytes,List.ofFn_succ,List.ofFn_zero,List.take_succ_cons,
        List.take_zero,List.drop_succ_cons,List.drop_zero,List.cons_append,List.nil_append,
        List.reverse_cons,List.reverse_nil,List.head?_cons,Option.some.injEq,
        ← UInt8.toNat_inj]
      refine ⟨?_,?_,?_⟩
    all_goals simp
    all_goals omega

theorem receivePerson_shortSize {size buf rest : List UInt8} {sizes : ℕ → ℕ}
    (hlength : size.length = 4) (h : sizes 0 < 4) (memory : Fin 4 → UInt8) :
    (receivePerson parse memory ⟨size ++ (buf ++ rest),sizes⟩).1 =
      parse (Source.read ⟨size.drop (max 1 (sizes 0)) ++ (buf ++ rest),fun i => sizes (i + 1)⟩
        (filled size (max 1 (sizes 0)) memory)).1 := by
  have hj : min (max 1 (sizes 0)) (min 4 (size ++ (buf ++ rest)).length) = max 1 (sizes 0) := by
    rw [List.length_append]
    omega
  have hread : Source.read ⟨size ++ (buf ++ rest),sizes⟩ 4 = (size.take (max 1 (sizes 0)),
      ⟨size.drop (max 1 (sizes 0)) ++ (buf ++ rest),fun i => sizes (i + 1)⟩) := by
    simp only [Source.read,hj]
    rw [List.take_append_of_le_length (by omega),List.drop_append_of_le_length (by omega)]
  have hfirst : (size.take (max 1 (sizes 0))).length = max 1 (sizes 0) :=
    List.length_take_of_le (by omega)
  rw [receivePerson,hread,filled]
  cases htake : size.take (max 1 (sizes 0)) with
  | nil =>
    rw [htake,List.length_nil] at hfirst
    omega
  | cons b bytes =>
    rw [htake] at hfirst
    simp only [hfirst]

/-- A `recv` of the size that is short, with what may be in the memory: the bytes that are then
taken for the body are not the body. -/
theorem exists_memory_body_ne {size buf : List UInt8} {j : ℕ} (hlength : size.length = 4)
    (hvalue : ByteOrder.big.value size = buf.length) (htag : buf.head? ≠ some 0) (hpos : 0 < j)
    (hlt : j < 4) (rest : List UInt8) (sizes : ℕ → ℕ) : ∃ memory,
    (Source.read ⟨size.drop j ++ (buf ++ rest),sizes⟩ (filled size j memory)).1 ≠ buf := by
  obtain ⟨hle,hone,hzero⟩ := filled_zero hlength hpos hlt
  rw [hvalue] at hle hzero
  have htail : (size.drop j ++ (buf ++ rest)).length = 4 - j + (buf.length + rest.length) := by
    rw [List.length_append,List.length_append,List.length_drop,hlength]
  have hread (n : ℕ) : (Source.read ⟨size.drop j ++ (buf ++ rest),sizes⟩ n).1.length =
      min (max 1 (sizes 0)) (min n (4 - j + (buf.length + rest.length))) := by
    rw [Source.read_length,htail]
  by_cases hsmall : filled size j (fun _ => 0) < buf.length
  · refine ⟨fun _ => 0,?_⟩
    intro heq
    have hbody := hread (filled size j fun _ => 0)
    rw [heq] at hbody
    omega
  · refine ⟨fun i => if i = 3 then 1 else 0,?_⟩
    intro heq
    have hbody := hread (filled size j fun i => if i = 3 then 1 else 0)
    rw [heq,hone] at hbody
    -- as many bytes as the body has: they begin with what is missing of the size
    have hmissing := hzero (by omega)
    have hsome : min (max 1 (sizes 0))
        (min (buf.length + 1) (size.drop j ++ (buf ++ rest)).length) ≠ 0 := by omega
    have hhead : buf.head? = some 0 := by
      rw [← heq,hone,show filled size j (fun _ => 0) = buf.length by omega]
      simp only [Source.read]
      rw [List.head?_take,if_neg hsome,List.head?_append,hmissing]
      rfl
    exact htag hhead

/-- A parser that takes nothing but serializations does not find the person after a short `recv`,
if the memory is as it may be. -/
theorem exists_memory_receivePerson_ne (hstrict : ∀ buf p, parse buf = some p → buf = serialize p)
    {person : P} (hsize : (serialize person).length < 2^31)
    (htag : (serialize person).head? ≠ some 0) {sizes : ℕ → ℕ}
    (h : ¬ (4 ≤ sizes 0 ∧ (serialize person).length ≤ max 1 (sizes 1))) (rest : List UInt8) :
    ∃ memory, (receivePerson parse memory ⟨frame (serialize person) ++ rest,sizes⟩).1 ≠
      some person := by
  obtain ⟨size,hframe,hlength,hvalue⟩ :=
    frame_eq (show (serialize person).length < 2^32 by omega)
  rw [hframe,List.append_assoc]
  by_cases hfour : 4 ≤ sizes 0
  · -- the size is read, the body is short
    refine ⟨fun _ => 0,?_⟩
    rw [receivePerson_wholeSize hlength hvalue hfour]
    intro heq
    have hbody := hstrict _ _ heq
    have hshort := Source.read_length ⟨serialize person ++ rest,fun i => sizes (i + 1)⟩
      (serialize person).length
    rw [hbody,List.length_append] at hshort
    simp only [Nat.zero_add] at hshort
    omega
  · have hpos : 0 < max 1 (sizes 0) := by omega
    have hlt : max 1 (sizes 0) < 4 := by omega
    obtain ⟨memory,hne⟩ := exists_memory_body_ne hlength hvalue htag hpos hlt rest
      fun i => sizes (i + 1)
    refine ⟨memory,?_⟩
    rw [receivePerson_shortSize hlength (by omega)]
    intro heq
    exact hne (hstrict _ _ heq)

/-- The run goes wrong at the first short `recv`. -/
theorem exists_memory_receivePersons_ne (hinv : ∀ p, parse (serialize p) = some p)
    (hstrict : ∀ buf p, parse buf = some p → buf = serialize p)
    (hsize : ∀ p, (serialize p).length < 2^31) (htag : ∀ p, (serialize p).head? ≠ some 0)
    (persons : List P) (sizes : ℕ → ℕ) (h : ¬ Unsplit serialize persons sizes)
    (rest : List UInt8) :
    ∃ memory, (receivePersons parse memory persons.length
        ⟨(persons.flatMap fun person => frame (serialize person)) ++ rest,sizes⟩).1 ≠
      persons.map some := by
  induction persons generalizing sizes with
  | nil => exact absurd trivial h
  | cons person persons ih =>
    rw [List.flatMap_cons,List.append_assoc]
    by_cases hone : 4 ≤ sizes 0 ∧ (serialize person).length ≤ max 1 (sizes 1)
    · have hrest : ¬ Unsplit serialize persons fun i => sizes (i + 2) :=
        fun hrest => h ⟨hone.1,hone.2,hrest⟩
      obtain ⟨memory,hne⟩ := ih (fun i => sizes (i + 2)) hrest
      refine ⟨fun i => memory (i - 1),?_⟩
      have hfirst := receivePerson_frame hinv (hsize person) hone.1 hone.2 (memory 0)
        ((persons.flatMap fun person => frame (serialize person)) ++ rest)
      simp only [List.length_cons,receivePersons,hfirst,List.map_cons]
      intro heq
      exact hne (List.cons.inj heq).2
    · obtain ⟨memory,hne⟩ := exists_memory_receivePerson_ne hstrict (hsize person) (htag person)
        hone ((persons.flatMap fun person => frame (serialize person)) ++ rest)
      refine ⟨fun _ => memory,?_⟩
      simp only [List.length_cons,receivePersons,List.map_cons]
      intro heq
      exact hne (List.cons.inj heq).1

/-- A parser that takes nothing but serializations. -/
noncomputable def strictParse (serialize : P → List UInt8) (buf : List UInt8) : Option P :=
  open Classical in if h : ∃ p, serialize p = buf then some h.choose else none

theorem strictParse_serialize (hinj : Function.Injective serialize) (p : P) :
    strictParse serialize (serialize p) = some p := by
  have h : ∃ q, serialize q = serialize p := ⟨p,rfl⟩
  rw [strictParse,dif_pos h,hinj h.choose_spec]

theorem eq_serialize_of_strictParse (buf : List UInt8) (p : P)
    (h : strictParse serialize buf = some p) : buf = serialize p := by
  rw [strictParse] at h
  split at h
  · next hsome =>
    cases h
    exact hsome.choose_spec.symm
  · cases h

/-- A short read can go unnoticed: the size of an empty message, if the memory happens to be 0. -/
example : ¬ Unsplit serializeNamed [⟨[],by decide⟩] (fun _ => 1) ∧
    (receivePersons parseNamed (fun _ _ => 0) 1
      ⟨sendPersons serializeNamed [] [⟨[],by decide⟩],fun _ => 1⟩).1 =
      [some ⟨[],by decide⟩] := by
  constructor
  · rintro ⟨h,-⟩
    exact absurd h (by decide)
  · decide +kernel

end Cpp

end ProtobufFraming
end UProtocols
