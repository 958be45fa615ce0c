import UProtocols.MqttSnGateway

/-!
# What the handlers of the MQTT-SN gateway do

One equation for each handler past its length guard: no index and no slice behind a guard
is out of range. A datagram is then read as a request, with one equation of
`handle_message` for each. What is left that can panic is the length of the client id in
CONNECT and the topic id counter.
-/

namespace UProtocols
namespace MqttSn

variable {checks : Bool} {g g' : Gateway} {d : Datagram} {data : List UInt8} {addr : SocketAddr}
  {out : List Effect} {name : Name} {topicId : UInt16} {i : ℕ}

theorem index_eq (h : i < data.length) : index data i = .ok (data.getD i 0) := by
  simp [index,h]

theorem slice_from (h : i ≤ data.length) : slice data i data.length = .ok (data.drop i) := by
  rw [slice,if_pos ⟨h,Nat.le_refl _⟩,List.take_of_length_le (by rw [List.length_drop])]

/-- The big-endian number at position `i`. -/
def u16At (data : List UInt8) (i : ℕ) : UInt16 :=
  fromBeBytes (data.getD i 0) (data.getD (i + 1) 0)

theorem getU16_drop (h : i + 1 < data.length) :
    getU16 (data.drop i) = .ok (u16At data i,data.drop (i + 2)) := by
  have hi : i < data.length := Nat.lt_of_succ_lt h
  rw [List.drop_eq_getElem_cons hi,List.drop_eq_getElem_cons h,getU16]
  simp [u16At,hi,h]

namespace Gateway

/-! ## Handlers past their guards -/

theorem handleConnect_eq (h : 6 ≤ data.length) (hlen : 6 ≤ (data.getD 0 0).toNat) :
    ∃ clientId, g.handleConnect checks data addr =
      .ok ({g with clientMap := Function.update g.clientMap clientId (some ⟨addr,clientId⟩)},
        [.sendTo connack addr]) := by
  have hguard : ¬ data.length < 6 := by omega
  have hsub : usizeSub checks (data.getD 0 0).toNat 6 = .ok ((data.getD 0 0).toNat - 6) := by
    rw [usizeSub,if_pos hlen]
  have hbyte := (data.getD 0 0).toNat_lt
  have hbyte0 : index data 0 = .ok (data.getD 0 0) := index_eq (by omega)
  have hadd : usizeAdd checks 6 ((data.getD 0 0).toNat - 6) = .ok (data.getD 0 0).toNat := by
    rw [usizeAdd,if_pos (by omega),Nat.add_sub_cancel' hlen]
  by_cases hstop : data.length ≥ (data.getD 0 0).toNat
  · have hslice : slice data 6 (data.getD 0 0).toNat =
        .ok ((data.drop 6).take ((data.getD 0 0).toNat - 6)) := by
      rw [slice,if_pos ⟨hlen,hstop⟩]
    refine ⟨fromUtf8Lossy ((data.drop 6).take ((data.getD 0 0).toNat - 6)),?_⟩
    simp only [handleConnect,if_neg hguard,hbyte0,hsub,hadd,if_pos hstop,hslice,bind,Except.bind,
      pure,Except.pure,Except.map]
  · refine ⟨['u','n','k','n','o','w','n'],?_⟩
    simp only [handleConnect,if_neg hguard,hbyte0,hsub,hadd,if_neg hstop,bind,Except.bind,pure,
      Except.pure]

/-- The length of the client id underflows: the subtraction panics, or the slice that it
bounds starts behind its end. -/
theorem handleConnect_short (h : 6 ≤ data.length) (hlen : (data.getD 0 0).toNat < 6) :
    ∃ p, g.handleConnect checks data addr = .error p := by
  have hguard : ¬ data.length < 6 := by omega
  have hbyte0 : index data 0 = .ok (data.getD 0 0) := index_eq (by omega)
  cases checks with
  | true =>
    have hsub : usizeSub true (data.getD 0 0).toNat 6 = .error .overflow := by
      rw [usizeSub,if_neg (by omega),if_pos rfl]
    refine ⟨.overflow,?_⟩
    simp only [handleConnect,if_neg hguard,hbyte0,hsub,bind,Except.bind]
  | false =>
    have hsub : usizeSub false (data.getD 0 0).toNat 6 =
        .ok (2^64 + (data.getD 0 0).toNat - 6) := by
      rw [usizeSub,if_neg (by omega),if_neg Bool.false_ne_true]
    have hadd : usizeAdd false 6 (2^64 + (data.getD 0 0).toNat - 6) =
        .ok (data.getD 0 0).toNat := by
      rw [usizeAdd,if_neg (by omega),if_neg Bool.false_ne_true]
      congr 1
      omega
    have hslice : slice data 6 (data.getD 0 0).toNat = .error .sliceOutOfRange := by
      rw [slice,if_neg (by omega)]
    have hstop : data.length ≥ (data.getD 0 0).toNat := by omega
    refine ⟨.sliceOutOfRange,?_⟩
    simp only [handleConnect,if_neg hguard,hbyte0,hsub,hadd,if_pos hstop,hslice,bind,Except.bind,
      Except.map]

theorem handleRegister_eq (h : 7 ≤ data.length) :
    g.handleRegister checks data addr =
      (g.allocate checks (topicName (data.drop 6))).map fun r =>
        (r.1,[.sendTo (regack r.2 (u16At data 4)) addr]) := by
  have hguard : ¬ data.length < 7 := by omega
  simp (disch := omega) only [handleRegister,if_neg hguard,slice_from,getU16_drop,bind,
    Except.bind,pure,Except.pure,Except.map]

theorem handlePublish_unknown (h : 8 ≤ data.length) (hid : g.topicIdMap (u16At data 3) = none) :
    g.handlePublish data addr = .ok (g,[]) := by
  have hguard : ¬ data.length < 8 := by omega
  simp (disch := omega) only [handlePublish,if_neg hguard,index_eq,slice_from,bind,Except.bind,
    pure,Except.pure]
  rw [show fromBeBytes (data.getD 3 0) (data.getD 4 0) = u16At data 3 from rfl,hid]

theorem handlePublish_known (h : 8 ≤ data.length) (hid : g.topicIdMap (u16At data 3) = some name) :
    g.handlePublish data addr = .ok (g,.publish name (data.drop 7) ::
      if data.getD 2 0 &&& 0x60 != 0 then [.sendTo (puback (u16At data 3) (u16At data 5)) addr]
      else []) := by
  have hguard : ¬ data.length < 8 := by omega
  simp (disch := omega) only [handlePublish,if_neg hguard,index_eq,slice_from,bind,Except.bind,
    pure,Except.pure]
  rw [show fromBeBytes (data.getD 3 0) (data.getD 4 0) = u16At data 3 from rfl,hid]
  rfl

/-- SUBSCRIBE looks the name up first. -/
theorem handleSubscribe_known (h : 6 ≤ data.length)
    (hname : g.topicNameMap (topicName (data.drop 5)) = some topicId) :
    g.handleSubscribe checks data addr = .ok (g,[.subscribe (topicName (data.drop 5)),
      .sendTo (suback topicId (u16At data 3)) addr]) := by
  have hguard : ¬ data.length < 6 := by omega
  simp (disch := omega) only [handleSubscribe,if_neg hguard,index_eq,slice_from,bind,Except.bind,
    pure,Except.pure]
  rw [hname]
  rfl

theorem handleSubscribe_unknown (h : 6 ≤ data.length)
    (hname : g.topicNameMap (topicName (data.drop 5)) = none) :
    g.handleSubscribe checks data addr =
      (g.allocate checks (topicName (data.drop 5))).map fun r =>
        (r.1,[.subscribe (topicName (data.drop 5)),.sendTo (suback r.2 (u16At data 3)) addr]) := by
  have hguard : ¬ data.length < 6 := by omega
  simp (disch := omega) only [handleSubscribe,if_neg hguard,index_eq,slice_from,bind,Except.bind,
    pure,Except.pure]
  rw [hname]
  rfl

/-! The handlers ignore a datagram that is too short for their fields. -/

theorem handleConnect_ignores (h : data.length < 6) :
    g.handleConnect checks data addr = .ok (g,[]) := by
  simp only [handleConnect,if_pos h,pure,Except.pure]

theorem handleRegister_ignores (h : data.length < 7) :
    g.handleRegister checks data addr = .ok (g,[]) := by
  simp only [handleRegister,if_pos h,pure,Except.pure]

theorem handlePublish_ignores (h : data.length < 8) :
    g.handlePublish data addr = .ok (g,[]) := by
  simp only [handlePublish,if_pos h,pure,Except.pure]

theorem handleSubscribe_ignores (h : data.length < 6) :
    g.handleSubscribe checks data addr = .ok (g,[]) := by
  simp only [handleSubscribe,if_pos h,pure,Except.pure]

end Gateway

/-! ## Requests -/

/-- A datagram as a client means it. -/
inductive Request
  | connect (length : UInt8)
  | register (name : Name) (msgId : UInt16)
  | publish (topicId : UInt16) (payload : List UInt8)
  | subscribe (name : Name) (msgId : UInt16)
  | other
  deriving DecidableEq

/-- Whether a datagram has the given type and is long enough for its fixed fields. -/
def Datagram.HasType (d : Datagram) (msgType : UInt8) (fixed : ℕ) : Prop :=
  d.data[1]? = some msgType ∧ fixed ≤ d.data.length

instance (d : Datagram) (msgType : UInt8) (fixed : ℕ) : Decidable (d.HasType msgType fixed) :=
  inferInstanceAs (Decidable (_ ∧ _))

/-- The fixed fields of PUBLISH take seven bytes: its payload may be empty. -/
def Datagram.request (d : Datagram) : Request :=
  if d.HasType mqttsnConnect 6 then .connect (d.data.getD 0 0)
  else if d.HasType mqttsnRegister 7 then
    .register (topicName (d.data.drop 6)) (u16At d.data 4)
  else if d.HasType mqttsnPublish 7 then .publish (u16At d.data 3) (d.data.drop 7)
  else if d.HasType mqttsnSubscribe 6 then
    .subscribe (topicName (d.data.drop 5)) (u16At d.data 3)
  else .other

theorem hasType_of_connect {length : UInt8} (h : d.request = .connect length) :
    d.HasType mqttsnConnect 6 ∧ length = d.data.getD 0 0 := by
  unfold Datagram.request at h
  split_ifs at h with h1 h2 h3 h4
  injection h with hlength
  exact ⟨h1,hlength.symm⟩

theorem hasType_of_register {msgId : UInt16} (h : d.request = .register name msgId) :
    d.HasType mqttsnRegister 7 ∧ name = topicName (d.data.drop 6) ∧ msgId = u16At d.data 4 := by
  unfold Datagram.request at h
  split_ifs at h with h1 h2 h3 h4
  injection h with hname hid
  exact ⟨h2,hname.symm,hid.symm⟩

theorem hasType_of_publish {payload : List UInt8} (h : d.request = .publish topicId payload) :
    d.HasType mqttsnPublish 7 ∧ topicId = u16At d.data 3 ∧ payload = d.data.drop 7 := by
  unfold Datagram.request at h
  split_ifs at h with h1 h2 h3 h4
  injection h with hid hpayload
  exact ⟨h3,hid.symm,hpayload.symm⟩

theorem hasType_of_subscribe {msgId : UInt16} (h : d.request = .subscribe name msgId) :
    d.HasType mqttsnSubscribe 6 ∧ name = topicName (d.data.drop 5) ∧ msgId = u16At d.data 3 := by
  unfold Datagram.request at h
  split_ifs at h with h1 h2 h3 h4
  injection h with hname hid
  exact ⟨h4,hname.symm,hid.symm⟩

theorem not_hasType_of_other (h : d.request = .other) :
    ¬ d.HasType mqttsnConnect 6 ∧ ¬ d.HasType mqttsnRegister 7 ∧ ¬ d.HasType mqttsnPublish 7 ∧
      ¬ d.HasType mqttsnSubscribe 6 := by
  unfold Datagram.request at h
  split_ifs at h with h1 h2 h3 h4
  exact ⟨h1,h2,h3,h4⟩

theorem length_lt_of_not_hasType {msgType : UInt8} {fixed : ℕ} (hty : d.data[1]? = some msgType)
    (h : ¬ d.HasType msgType fixed) : d.data.length < fixed := by
  by_contra hge
  exact h ⟨hty,Nat.le_of_not_lt hge⟩

namespace Gateway

/-- The message type picks the handler. -/
theorem handleMessage_eq {msgType : UInt8} (h : d.data[1]? = some msgType) :
    g.handleMessage checks d =
      if msgType = mqttsnSearchgw then g.handleSearchgw d.addr
      else if msgType = mqttsnConnect then g.handleConnect checks d.data d.addr
      else if msgType = mqttsnRegister then g.handleRegister checks d.data d.addr
      else if msgType = mqttsnPublish then g.handlePublish d.data d.addr
      else if msgType = mqttsnSubscribe then g.handleSubscribe checks d.data d.addr
      else if msgType = mqttsnPingreq then g.handlePingreq d.addr
      else if msgType = mqttsnDisconnect then g.handleDisconnect
      else .ok (g,[]) := by
  have hlen : ¬ d.data.length < 2 := by
    have := (List.getElem?_eq_some_iff.mp h).1
    omega
  have hindex : index d.data 1 = .ok msgType := by
    rw [index,h]
  simp only [handleMessage,if_neg hlen,hindex,bind,Except.bind,pure,Except.pure]

theorem handleMessage_connect {length : UInt8} (h : d.request = .connect length)
    (hlen : 6 ≤ length.toNat) :
    ∃ clients, g.handleMessage checks d =
      .ok ({g with clientMap := clients},[.sendTo connack d.addr]) := by
  obtain ⟨⟨hty,hfixed⟩,rfl⟩ := hasType_of_connect h
  obtain ⟨clientId,hc⟩ := @handleConnect_eq checks g d.data d.addr hfixed hlen
  refine ⟨Function.update g.clientMap clientId (some ⟨d.addr,clientId⟩),?_⟩
  rw [handleMessage_eq hty,← hc]
  rfl

theorem handleMessage_shortConnect {length : UInt8} (h : d.request = .connect length)
    (hlen : length.toNat < 6) : ∃ p, g.handleMessage checks d = .error p := by
  obtain ⟨⟨hty,hfixed⟩,rfl⟩ := hasType_of_connect h
  rw [handleMessage_eq hty]
  exact handleConnect_short hfixed hlen

theorem handleMessage_register {msgId : UInt16} (h : d.request = .register name msgId) :
    g.handleMessage checks d = (g.allocate checks name).map fun r =>
      (r.1,[.sendTo (regack r.2 msgId) d.addr]) := by
  obtain ⟨⟨hty,hfixed⟩,rfl,rfl⟩ := hasType_of_register h
  rw [handleMessage_eq hty,← handleRegister_eq hfixed]
  rfl

theorem handleMessage_publish_empty (h : d.request = .publish topicId []) :
    g.handleMessage checks d = .ok (g,[]) := by
  obtain ⟨⟨hty,hfixed⟩,-,hpayload⟩ := hasType_of_publish h
  have hlen : d.data.length < 8 := by
    have := List.drop_eq_nil_iff.mp hpayload.symm
    omega
  rw [handleMessage_eq hty,← handlePublish_ignores hlen]
  rfl

theorem length_of_payload {payload : List UInt8} (h : d.request = .publish topicId payload)
    (hne : payload ≠ []) : 8 ≤ d.data.length := by
  obtain ⟨⟨hty,hfixed⟩,-,rfl⟩ := hasType_of_publish h
  have := List.drop_eq_nil_iff.not.mp hne
  omega

theorem handleMessage_publish_unknown {payload : List UInt8}
    (h : d.request = .publish topicId payload) (hid : g.topicIdMap topicId = none) :
    g.handleMessage checks d = .ok (g,[]) := by
  by_cases hne : payload = []
  · subst hne
    exact handleMessage_publish_empty h
  · have hlen := length_of_payload h hne
    obtain ⟨⟨hty,hfixed⟩,rfl,rfl⟩ := hasType_of_publish h
    rw [handleMessage_eq hty,← handlePublish_unknown hlen hid]
    rfl

theorem handleMessage_publish {payload : List UInt8} (h : d.request = .publish topicId payload)
    (hne : payload ≠ []) (hid : g.topicIdMap topicId = some name) :
    ∃ acks, g.handleMessage checks d = .ok (g,.publish name payload :: acks) ∧
      ∀ n p, .publish n p ∉ acks := by
  have hlen := length_of_payload h hne
  obtain ⟨⟨hty,hfixed⟩,rfl,rfl⟩ := hasType_of_publish h
  refine ⟨_,(handleMessage_eq hty).trans (handlePublish_known hlen hid),?_⟩
  intro n p
  split_ifs <;> simp

theorem handleMessage_subscribe {msgId : UInt16} (h : d.request = .subscribe name msgId)
    (hname : g.topicNameMap name = some topicId) :
    g.handleMessage checks d =
      .ok (g,[.subscribe name,.sendTo (suback topicId msgId) d.addr]) := by
  obtain ⟨⟨hty,hfixed⟩,rfl,rfl⟩ := hasType_of_subscribe h
  rw [handleMessage_eq hty,← handleSubscribe_known hfixed hname]
  rfl

theorem handleMessage_subscribe_new {msgId : UInt16} (h : d.request = .subscribe name msgId)
    (hname : g.topicNameMap name = none) :
    g.handleMessage checks d = (g.allocate checks name).map fun r =>
      (r.1,[.subscribe name,.sendTo (suback r.2 msgId) d.addr]) := by
  obtain ⟨⟨hty,hfixed⟩,rfl,rfl⟩ := hasType_of_subscribe h
  rw [handleMessage_eq hty,← handleSubscribe_unknown hfixed hname]
  rfl

theorem keeps_ite {c : Prop} [Decidable c] {a b : Except Panic (Gateway × List Effect)}
    (ha : c → ∃ out, a = .ok (g,out)) (hb : ¬ c → ∃ out, b = .ok (g,out)) :
    ∃ out, (if c then a else b) = .ok (g,out) := by
  by_cases h : c
  · rw [if_pos h]
    exact ha h
  · rw [if_neg h]
    exact hb h

/-- Too short for its type, or of a type that touches no topic. -/
theorem handleMessage_other (h : d.request = .other) :
    ∃ out, g.handleMessage checks d = .ok (g,out) := by
  obtain ⟨hconnect,hregister,hpublish,hsubscribe⟩ := not_hasType_of_other h
  cases hty : d.data[1]? with
  | none =>
    have hlen : d.data.length < 2 := by
      have := List.getElem?_eq_none_iff.mp hty
      omega
    exact ⟨[],by simp only [handleMessage,if_pos hlen,pure,Except.pure]⟩
  | some msgType =>
    rw [handleMessage_eq hty]
    refine keeps_ite (fun _ => ⟨_,rfl⟩) fun _ => ?_
    refine keeps_ite ?_ fun _ => keeps_ite ?_ fun _ => keeps_ite ?_ fun _ =>
      keeps_ite ?_ fun _ => ?_
    · rintro rfl
      exact ⟨[],handleConnect_ignores (length_lt_of_not_hasType hty hconnect)⟩
    · rintro rfl
      exact ⟨[],handleRegister_ignores (length_lt_of_not_hasType hty hregister)⟩
    · rintro rfl
      have hlen := length_lt_of_not_hasType hty hpublish
      exact ⟨[],handlePublish_ignores (Nat.lt_succ_of_lt hlen)⟩
    · rintro rfl
      exact ⟨[],handleSubscribe_ignores (length_lt_of_not_hasType hty hsubscribe)⟩
    · exact keeps_ite (fun _ => ⟨_,rfl⟩) fun _ => keeps_ite (fun _ => ⟨_,rfl⟩) fun _ => ⟨_,rfl⟩

/-! ## Allocation and panics -/

/-- The name that a datagram makes the gateway allocate a topic id for: REGISTER always does,
SUBSCRIBE only for a name that has none. -/
def allocates (g : Gateway) (d : Datagram) : Option Name :=
  match d.request with
  | .register name _ => some name
  | .subscribe name _ => if g.topicNameMap name = none then some name else none
  | _ => none

/-- CONNECT whose length byte does not even cover the fixed fields. -/
def ShortConnect (d : Datagram) : Prop :=
  d.HasType mqttsnConnect 6 ∧ (d.data.getD 0 0).toNat < 6

instance (d : Datagram) : Decidable (ShortConnect d) := inferInstanceAs (Decidable (_ ∧ _))

/-- What a datagram can do: panic on the length byte, leave the topics alone, or allocate a
topic id and answer with it. -/
theorem handleMessage_cases (checks : Bool) (g : Gateway) (d : Datagram) :
    (ShortConnect d ∧ ∃ p, g.handleMessage checks d = .error p) ∨
    (¬ ShortConnect d ∧ g.allocates d = none ∧
      ∃ clients out, g.handleMessage checks d = .ok ({g with clientMap := clients},out)) ∨
    (¬ ShortConnect d ∧ ∃ name, g.allocates d = some name ∧
      ∃ reply : UInt16 → List Effect, g.handleMessage checks d =
        (g.allocate checks name).map fun r => (r.1,reply r.2)) := by
  have hnot : (∀ length, d.request ≠ .connect length) → ¬ ShortConnect d := by
    intro hne hshort
    exact hne (d.data.getD 0 0) (if_pos hshort.1)
  cases hr : d.request with
  | connect length =>
    by_cases hlen : length.toNat < 6
    · obtain ⟨hty,rfl⟩ := hasType_of_connect hr
      exact .inl ⟨⟨hty,hlen⟩,handleMessage_shortConnect hr hlen⟩
    · obtain ⟨clients,hok⟩ := @handleMessage_connect checks g d length hr (by omega)
      obtain ⟨hty,rfl⟩ := hasType_of_connect hr
      exact .inr (.inl ⟨fun h => hlen h.2,by simp [allocates,hr],clients,_,hok⟩)
  | register name msgId =>
    exact .inr (.inr ⟨hnot (by simp [hr]),name,by simp [allocates,hr],
      fun topicId => [.sendTo (regack topicId msgId) d.addr],handleMessage_register hr⟩)
  | publish topicId payload =>
    refine .inr (.inl ⟨hnot (by simp [hr]),by simp [allocates,hr],g.clientMap,?_⟩)
    by_cases hne : payload = []
    · subst hne
      exact ⟨[],handleMessage_publish_empty hr⟩
    · cases hid : g.topicIdMap topicId with
      | none => exact ⟨[],handleMessage_publish_unknown hr hid⟩
      | some name =>
        obtain ⟨acks,hok,-⟩ := @handleMessage_publish checks g d name topicId payload hr hne hid
        exact ⟨_,hok⟩
  | subscribe name msgId =>
    cases hname : g.topicNameMap name with
    | none =>
      exact .inr (.inr ⟨hnot (by simp [hr]),name,by simp [allocates,hr,hname],
        fun topicId => [.subscribe name,.sendTo (suback topicId msgId) d.addr],
        handleMessage_subscribe_new hr hname⟩)
    | some id =>
      exact .inr (.inl ⟨hnot (by simp [hr]),by simp [allocates,hr,hname],g.clientMap,_,
        handleMessage_subscribe hr hname⟩)
  | other =>
    obtain ⟨out,hok⟩ := @handleMessage_other checks g d hr
    exact .inr (.inl ⟨hnot (by simp [hr]),by simp [allocates,hr],g.clientMap,out,hok⟩)

theorem allocate_ok (h : ¬ (checks = true ∧ g.nextTopicId = 65535)) :
    g.allocate checks name = .ok (g.assign name,g.nextTopicId) := if_neg h

theorem allocate_error (h : checks = true ∧ g.nextTopicId = 65535) :
    g.allocate checks name = .error .overflow := if_pos h

/-- A datagram is handled to its end unless it is a CONNECT with too small a length byte or
advances a counter that a checked build cannot advance. -/
theorem handleMessage_ok_iff (checks : Bool) (g : Gateway) (d : Datagram) :
    (∃ r, g.handleMessage checks d = .ok r) ↔ ¬ ShortConnect d ∧
      ¬ (checks = true ∧ g.nextTopicId = 65535 ∧ (g.allocates d).isSome) := by
  obtain ⟨hshort,p,hp⟩ | ⟨hnot,hnone,clients,out,hok⟩ | ⟨hnot,name,hsome,reply,heq⟩ :=
    handleMessage_cases checks g d
  · simp [hshort,hp]
  · simp [hnot,hnone,hok]
  · by_cases hfull : checks = true ∧ g.nextTopicId = 65535
    · rw [heq,allocate_error hfull]
      simp [hsome,hfull,Except.map]
    · rw [heq,allocate_ok hfull]
      have hroom : ¬ (checks = true ∧ g.nextTopicId = 65535 ∧ (g.allocates d).isSome) :=
        fun h => hfull ⟨h.1,h.2.1⟩
      simp only [hnot,hroom,Except.map]
      simp

/-- CONNECT with length byte 5 stops the first gateway in both builds. -/
theorem handleMessage_panics_shortConnect :
    new.handleMessage true ⟨[5,mqttsnConnect,0,0,0,0],⟨[127,0,0,1],1884⟩⟩ =
      .error .overflow ∧
    new.handleMessage false ⟨[5,mqttsnConnect,0,0,0,0],⟨[127,0,0,1],1884⟩⟩ =
      .error .sliceOutOfRange := by
  constructor <;> rfl

/-! ## The acknowledgment of a PUBLISH -/

/-- `MQTTSN_RC_INVALID_TOPIC_ID`, which no handler uses. -/
def mqttsnRcInvalidTopicId : UInt8 := 0x02

/-- A PUBACK with a return code. -/
def pubackWith (topicId msgId : UInt16) (returnCode : UInt8) : List UInt8 :=
  [7,mqttsnPuback] ++ u16Bytes topicId ++ u16Bytes msgId ++ [returnCode]

/-- What `handle_publish` prints. -/
inductive Line (ε : Type)
  | failedToPublish (e : ε)
  | publishedToTopic (topic : Name)

/-- `handle_publish` with what the broker client answers to `publish`: the answer decides what is
printed, and nothing else. -/
def handlePublishAnswered {ε : Type} (broker : Name → List UInt8 → Except ε Unit) (g : Gateway)
    (data : List UInt8) (addr : SocketAddr) :
    Except Panic ((Gateway × List Effect) × List (Line ε)) := do
  if data.length < 8 then return ((g,[]),[])
  let flags ← index data 2
  let topicId := fromBeBytes (← index data 3) (← index data 4)
  let msgId := fromBeBytes (← index data 5) (← index data 6)
  let payload ← slice data 7 data.length
  match g.topicIdMap topicId with
  | none => return ((g,[]),[])
  | some name =>
    let line :=
      match broker name payload with
      | .error e => .failedToPublish e
      | .ok _ => .publishedToTopic name
    let ack := if flags &&& 0x60 != 0 then [.sendTo (puback topicId msgId) addr] else []
    return ((g,.publish name payload :: ack),[line])

section Acknowledgment

variable {ε : Type} {broker : Name → List UInt8 → Except ε Unit}

theorem handlePublishAnswered_unknown (h : 8 ≤ data.length)
    (hid : g.topicIdMap (u16At data 3) = none) :
    handlePublishAnswered broker g data addr = .ok ((g,[]),[]) := by
  have hguard : ¬ data.length < 8 := by omega
  simp (disch := omega) only [handlePublishAnswered,if_neg hguard,index_eq,slice_from,bind,
    Except.bind,pure,Except.pure]
  rw [show fromBeBytes (data.getD 3 0) (data.getD 4 0) = u16At data 3 from rfl,hid]

theorem handlePublishAnswered_known (h : 8 ≤ data.length)
    (hid : g.topicIdMap (u16At data 3) = some name) :
    ∃ line, handlePublishAnswered broker g data addr = .ok ((g,.publish name (data.drop 7) ::
      if data.getD 2 0 &&& 0x60 != 0 then [.sendTo (puback (u16At data 3) (u16At data 5)) addr]
      else []),[line]) := by
  have hguard : ¬ data.length < 8 := by omega
  simp (disch := omega) only [handlePublishAnswered,if_neg hguard,index_eq,slice_from,bind,
    Except.bind,pure,Except.pure]
  rw [show fromBeBytes (data.getD 3 0) (data.getD 4 0) = u16At data 3 from rfl,hid]
  exact ⟨_,rfl⟩

/-- Without what is printed it is `handle_publish`. -/
theorem handlePublishAnswered_effects :
    (handlePublishAnswered broker g data addr).map Prod.fst = g.handlePublish data addr := by
  by_cases h : data.length < 8
  · rw [handlePublish_ignores h]
    simp only [handlePublishAnswered,if_pos h,pure,Except.pure,Except.map]
  · have hlen : 8 ≤ data.length := by omega
    cases hid : g.topicIdMap (u16At data 3) with
    | none =>
      rw [handlePublishAnswered_unknown hlen hid,handlePublish_unknown hlen hid]
      rfl
    | some name =>
      obtain ⟨line,hline⟩ := @handlePublishAnswered_known g data addr name ε broker hlen hid
      rw [hline,handlePublish_known hlen hid]
      rfl

/-- The datagrams among the effects. -/
def sent : List Effect → List (List UInt8 × SocketAddr)
  | [] => []
  | .sendTo response addr::effects => (response,addr)::sent effects
  | .publish _ _::effects => sent effects
  | .subscribe _::effects => sent effects

/-- The broker took the payload under the name of a registered topic id. -/
def Published (broker : Name → List UInt8 → Except ε Unit) (g : Gateway) (data : List UInt8) :
    Prop :=
  ∃ name, g.topicIdMap (u16At data 3) = some name ∧ broker name (data.drop 7) = .ok ()

/-- The sender gets one PUBACK, and its return code says what has become of the message. -/
def Acknowledges (broker : Name → List UInt8 → Except ε Unit) (g : Gateway) (data : List UInt8)
    (addr : SocketAddr) : Prop :=
  ∃ r lines returnCode, handlePublishAnswered broker g data addr = .ok (r,lines) ∧
    sent r.2 = [(pubackWith (u16At data 3) (u16At data 5) returnCode,addr)] ∧
    (returnCode = mqttsnRcAccepted ↔ Published broker g data) ∧
    (g.topicIdMap (u16At data 3) = none → returnCode = mqttsnRcInvalidTopicId)

/-- The PUBACK of the handler has the return code ACCEPTED. -/
theorem code_of_sent_puback {msgId : UInt16} {payload : List UInt8} {c : UInt8}
    (h : sent [.publish name payload,.sendTo (puback topicId msgId) addr] =
      [(pubackWith topicId msgId c,addr)]) : c = mqttsnRcAccepted := by
  injection h with hpair
  have hlast := List.append_cancel_left (congrArg Prod.fst hpair)
  exact (List.cons.inj hlast).1.symm

/-- A PUBLISH with QoS bits is acknowledged as it should be exactly when its topic id is
registered and the broker takes it. -/
theorem acknowledges_iff (broker : Name → List UInt8 → Except ε Unit) (g : Gateway)
    (data : List UInt8) (addr : SocketAddr) (h : 8 ≤ data.length)
    (hqos : data.getD 2 0 &&& 0x60 ≠ 0) :
    Acknowledges broker g data addr ↔ Published broker g data := by
  cases hid : g.topicIdMap (u16At data 3) with
  | none =>
    have hnot : ¬ Published broker g data := by
      rintro ⟨name,hname,-⟩
      simp [hid] at hname
    refine iff_of_false ?_ hnot
    rintro ⟨r,lines,returnCode,hr,hsent,-⟩
    rw [handlePublishAnswered_unknown h hid] at hr
    cases hr
    cases hsent
  | some name =>
    obtain ⟨line,hline⟩ := @handlePublishAnswered_known g data addr name ε broker h hid
    have hbits : (data.getD 2 0 &&& 0x60 != 0) = true := by simpa using hqos
    rw [hbits,if_pos rfl] at hline
    constructor
    · -- the one PUBACK says ACCEPTED
      rintro ⟨r,lines,returnCode,hr,hsent,hiff,-⟩
      cases hline.symm.trans hr
      exact hiff.mp (code_of_sent_puback hsent)
    · intro hpub
      refine ⟨_,_,mqttsnRcAccepted,hline,rfl,iff_of_true rfl hpub,?_⟩
      intro hnone
      simp [hid] at hnone

/-- A PUBLISH with QoS 1 for topic id 1. -/
def qosPublish : List UInt8 := [8,mqttsnPublish,0x20,0,1,0,7,0x2A]

theorem acknowledges_registered :
    Acknowledges (fun _ _ => (.ok () : Except Unit Unit)) (new.assign ['a']) qosPublish
      ⟨[127,0,0,1],1884⟩ :=
  (acknowledges_iff (fun _ _ => .ok ()) (new.assign ['a']) qosPublish ⟨[127,0,0,1],1884⟩
    (by decide) (by decide)).mpr ⟨['a'],by decide,rfl⟩

/-- No answer to an unknown topic id, and ACCEPTED for a message that the broker refuses. -/
theorem not_acknowledges_qosPublish :
    ¬ Acknowledges (fun _ _ => (.ok () : Except Unit Unit)) new qosPublish
      ⟨[127,0,0,1],1884⟩ ∧
    ¬ Acknowledges (fun _ _ => (.error () : Except Unit Unit)) (new.assign ['a']) qosPublish
      ⟨[127,0,0,1],1884⟩ := by
  constructor
  · rintro ⟨r,lines,returnCode,hr,hsent,-⟩
    cases hr
    cases hsent
  · rintro ⟨r,lines,returnCode,hr,hsent,hiff,-⟩
    cases hr
    obtain ⟨name,-,hbroker⟩ := hiff.mp (code_of_sent_puback hsent)
    cases hbroker

end Acknowledgment

end Gateway
end MqttSn
end UProtocols
