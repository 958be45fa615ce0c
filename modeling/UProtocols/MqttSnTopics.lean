import UProtocols.MqttSnHandlers

/-!
# Topic ids of the MQTT-SN gateway

REGISTER and SUBSCRIBE draw topic ids from one 16-bit counter. A client that has been told
an id relies on it for as long as the gateway runs: the id stays with its name as long as
the counter does not come back to an id in use.
-/

namespace UProtocols
namespace MqttSn

theorem u16Bytes_injective : Function.Injective u16Bytes := by
  intro v w h
  have hvalue : ByteOrder.big.value (u16Bytes v) = ByteOrder.big.value (u16Bytes w) :=
    congrArg _ h
  have hv : v.toNat < 256^2 := v.toNat_lt
  have hw : w.toNat < 256^2 := w.toNat_lt
  rw [u16Bytes,u16Bytes,ByteOrder.value_bytes_of_lt _ hv,ByteOrder.value_bytes_of_lt _ hw] at hvalue
  exact UInt16.toNat_inj.mp hvalue

theorem regack_inj {i j m : UInt16} (h : regack i m = regack j m) : i = j := by
  apply u16Bytes_injective
  simpa [regack] using h

theorem suback_inj {i j m : UInt16} (h : suback i m = suback j m) : i = j := by
  apply u16Bytes_injective
  simpa [suback] using h

namespace Gateway

variable {checks : Bool} {g g' h : Gateway} {d d' : Datagram} {ds : List Datagram} {m n : Name}
  {i : UInt16}

/-! ## Steps -/

theorem step_eq_some : step checks g d = some g' ↔
    ∃ out, g.handleMessage checks d = .ok (g',out) := by
  unfold step
  cases hok : g.handleMessage checks d with
  | error p => simp
  | ok r => simp [Prod.ext_iff]

/-- An allocation that did not panic, and what is made of it. -/
theorem map_allocate_eq_ok {α : Type} {f : Gateway × UInt16 → α} {r : α}
    (hok : (g.allocate checks n).map f = .ok r) : r = f (g.assign n,g.nextTopicId) := by
  by_cases hfull : checks = true ∧ g.nextTopicId = 65535
  · rw [allocate_error hfull] at hok
    cases hok
  · rw [allocate_ok hfull] at hok
    cases hok
    rfl

/-- A step leaves the topics alone or gives the next id to a name. -/
theorem step_cases (hstep : step checks g d = some g') :
    (g.allocates d = none ∧ ∃ clients, g' = {g with clientMap := clients}) ∨
    ∃ name, g.allocates d = some name ∧ g' = g.assign name := by
  obtain ⟨out,hout⟩ := step_eq_some.mp hstep
  obtain ⟨hshort,p,hp⟩ | ⟨hnot,hnone,clients,out',hok⟩ | ⟨hnot,name,hsome,reply,heq⟩ :=
    handleMessage_cases checks g d
  · rw [hp] at hout
    cases hout
  · rw [hok] at hout
    cases hout
    exact .inl ⟨hnone,clients,rfl⟩
  · rw [heq] at hout
    cases map_allocate_eq_ok hout
    exact .inr ⟨name,hsome,rfl⟩

theorem assign_topicIdMap_self (g : Gateway) (n : Name) :
    (g.assign n).topicIdMap g.nextTopicId = some n := Function.update_self _ _ _

theorem assign_topicIdMap_of_ne (hne : i ≠ g.nextTopicId) :
    (g.assign n).topicIdMap i = g.topicIdMap i := Function.update_of_ne hne _ _

theorem assign_topicNameMap_self (g : Gateway) (n : Name) :
    (g.assign n).topicNameMap n = some g.nextTopicId := Function.update_self _ _ _

theorem assign_topicNameMap_of_ne (hne : m ≠ n) :
    (g.assign n).topicNameMap m = g.topicNameMap m := Function.update_of_ne hne _ _

/-! ## What a client is told -/

/-- The gateway answers a datagram about name `n` with topic id `i`, in REGACK or SUBACK. -/
def Tells (checks : Bool) (g : Gateway) (d : Datagram) (n : Name) (i : UInt16) : Prop :=
  ∃ g' out msgId, g.handleMessage checks d = .ok (g',out) ∧
    (d.request = .register n msgId ∧ .sendTo (regack i msgId) d.addr ∈ out ∨
      d.request = .subscribe n msgId ∧ .sendTo (suback i msgId) d.addr ∈ out)

/-- The gateway forwards the payload of a datagram to the broker once, under name `n`. -/
def Forwards (checks : Bool) (g : Gateway) (d : Datagram) (n : Name) (payload : List UInt8) :
    Prop :=
  ∃ g' acks, g.handleMessage checks d = .ok (g',.publish n payload :: acks) ∧
    ∀ t p, .publish t p ∉ acks

/-- An id that is told comes from the counter, or from the map for a name that has one. -/
theorem tells_cases (htold : Tells checks g d n i) :
    (g.allocates d = some n ∧ i = g.nextTopicId) ∨
      (g.allocates d = none ∧ g.topicNameMap n = some i) := by
  obtain ⟨g',out,msgId,hok,⟨hr,hmem⟩ | ⟨hr,hmem⟩⟩ := htold
  · rw [handleMessage_register hr] at hok
    cases map_allocate_eq_ok hok
    refine .inl ⟨by simp [allocates,hr],?_⟩
    simp only [List.mem_singleton,Effect.sendTo.injEq,and_true] at hmem
    exact regack_inj hmem
  · cases hname : g.topicNameMap n with
    | none =>
      rw [handleMessage_subscribe_new hr hname] at hok
      cases map_allocate_eq_ok hok
      refine .inl ⟨by simp [allocates,hr,hname],?_⟩
      simp only [List.mem_cons,reduceCtorEq,false_or,List.not_mem_nil,or_false,
        Effect.sendTo.injEq,and_true] at hmem
      exact suback_inj hmem
    | some id =>
      rw [handleMessage_subscribe hr hname] at hok
      cases hok
      refine .inr ⟨by simp [allocates,hr,hname],?_⟩
      simp only [List.mem_cons,reduceCtorEq,false_or,List.not_mem_nil,or_false,
        Effect.sendTo.injEq,and_true] at hmem
      rw [suback_inj hmem]

theorem tells_of_allocates (hstep : step checks g d = some g') (hn : g.allocates d = some n) :
    Tells checks g d n g.nextTopicId := by
  obtain ⟨out,hok⟩ := step_eq_some.mp hstep
  cases hr : d.request with
  | register name msgId =>
    have hname : name = n := by
      simpa [allocates,hr] using hn
    subst hname
    refine ⟨g',out,msgId,hok,.inl ⟨hr,?_⟩⟩
    rw [handleMessage_register hr] at hok
    cases map_allocate_eq_ok hok
    simp
  | subscribe name msgId =>
    have hname : g.topicNameMap name = none ∧ name = n := by
      simpa [allocates,hr] using hn
    obtain ⟨hnone,rfl⟩ := hname
    refine ⟨g',out,msgId,hok,.inr ⟨hr,?_⟩⟩
    rw [handleMessage_subscribe_new hr hnone] at hok
    cases map_allocate_eq_ok hok
    simp
  | connect length => simp [allocates,hr] at hn
  | publish topicId payload => simp [allocates,hr] at hn
  | other => simp [allocates,hr] at hn

/-! ## Ids stay with their names -/

/-- The counter has come back to the id of another name. -/
def Reuses (g : Gateway) (d : Datagram) : Prop :=
  (g.allocates d).isSome ∧ (g.topicIdMap g.nextTopicId).isSome ∧
    g.topicIdMap g.nextTopicId ≠ g.allocates d

instance (g : Gateway) (d : Datagram) : Decidable (Reuses g d) :=
  inferInstanceAs (Decidable (_ ∧ _))

/-- The topic id of a PUBLISH without payload. -/
def emptyPublish : Request → Option UInt16
  | .publish topicId [] => some topicId
  | _ => none

/-- No id in use is allocated again, and no PUBLISH to a known id is without payload. -/
def Keeps (g : Gateway) (d : Datagram) : Prop :=
  ¬ Reuses g d ∧ (emptyPublish d.request).bind g.topicIdMap = none

instance (g : Gateway) (d : Datagram) : Decidable (Keeps g d) :=
  inferInstanceAs (Decidable (_ ∧ _))

/-- Once a client has been told that name `n` has id `i`, a later PUBLISH to `i` is forwarded
under `n` and no later answer gives `i` to another name. -/
def TopicIdentity (checks : Bool) (ds : List Datagram) : Prop :=
  ∀ before d between d' rest, ds = before ++ d::(between ++ d'::rest) →
    ∀ g h n i, run checks before = some g → Runs.exec (step checks) g (d::between) = some h →
      Tells checks g d n i →
        (∀ payload, d'.request = .publish i payload → Forwards checks h d' n payload) ∧
        ∀ m, Tells checks h d' m i → m = n

/-- The name map agrees with the id map. -/
def Recorded (g : Gateway) : Prop :=
  ∀ n i, g.topicNameMap n = some i → g.topicIdMap i = some n

theorem eq_of_not_reuses (hkeep : ¬ Reuses g d) (hn : g.allocates d = some n)
    (hm : g.topicIdMap g.nextTopicId = some m) : m = n := by
  by_contra hne
  apply hkeep
  simp [Reuses,hn,hm,hne]

theorem topicId_step (hstep : step checks g d = some g') (hkeep : ¬ Reuses g d)
    (hid : g.topicIdMap i = some n) : g'.topicIdMap i = some n := by
  obtain ⟨-,clients,rfl⟩ | ⟨m,hm,rfl⟩ := step_cases hstep
  · exact hid
  · by_cases hi : i = g.nextTopicId
    · subst hi
      rw [assign_topicIdMap_self,eq_of_not_reuses hkeep hm hid]
    · rw [assign_topicIdMap_of_ne hi,hid]

theorem recorded_step (hstep : step checks g d = some g') (hkeep : ¬ Reuses g d)
    (hrec : Recorded g) : Recorded g' := by
  intro n i hn
  by_cases hid : g.topicNameMap n = some i
  · exact topicId_step hstep hkeep (hrec n i hid)
  · obtain ⟨-,clients,rfl⟩ | ⟨m,hm,rfl⟩ := step_cases hstep
    · exact absurd hn hid
    · by_cases hnm : n = m
      · subst hnm
        rw [assign_topicNameMap_self] at hn
        cases hn
        exact assign_topicIdMap_self g n
      · rw [assign_topicNameMap_of_ne hnm] at hn
        exact absurd hn hid

/-- An id is in the map under the name it was told for. -/
theorem topicId_of_tells (hstep : step checks g d = some g') (hkeep : ¬ Reuses g d)
    (hrec : Recorded g) (htold : Tells checks g d n i) : g'.topicIdMap i = some n := by
  obtain ⟨hn,rfl⟩ | ⟨hnone,hn⟩ := tells_cases htold
  · obtain ⟨hnone,-⟩ | ⟨m,hm,rfl⟩ := step_cases hstep
    · rw [hn] at hnone
      cases hnone
    · rw [hn] at hm
      cases hm
      exact assign_topicIdMap_self g n
  · exact topicId_step hstep hkeep (hrec n i hn)

theorem recorded_run (hrun : run checks ds = some g)
    (hkeep : Runs.Along (step checks) Keeps new ds) : Recorded g := by
  have hstart : Recorded new := by
    intro n i hn
    cases hn
  exact Runs.exec_invariant_of_along
    (fun _ _ _ hstep hk hrec => recorded_step hstep hk.1 hrec) hrun hkeep hstart

theorem topicId_run (hrun : Runs.exec (step checks) g ds = some h)
    (hkeep : Runs.Along (step checks) Keeps g ds) (hid : g.topicIdMap i = some n) :
    h.topicIdMap i = some n :=
  Runs.exec_invariant_of_along (I := fun g => g.topicIdMap i = some n)
    (fun _ _ _ hstep hk hid => topicId_step hstep hk.1 hid) hrun hkeep hid

theorem forwards_of_topicId {payload : List UInt8} (hkeep : Keeps g d)
    (hr : d.request = .publish i payload) (hid : g.topicIdMap i = some n) :
    Forwards checks g d n payload := by
  have hne : payload ≠ [] := by
    intro hnil
    have hdrop := hkeep.2
    simp [hr,hnil,emptyPublish,hid] at hdrop
  obtain ⟨acks,hok,hacks⟩ := @handleMessage_publish checks g d n i payload hr hne hid
  exact ⟨g,acks,hok,hacks⟩

theorem topicIdentity_of_keeps (hkeep : Runs.Along (step checks) Keeps new ds) :
    TopicIdentity checks ds := by
  rintro before d between d' rest rfl g h n i hbefore hbetween htold
  obtain ⟨hkeep0,hkeep1⟩ := (Runs.along_append hbefore).mp hkeep
  rw [← List.cons_append,Runs.along_append hbetween] at hkeep1
  obtain ⟨u,hu,hrest⟩ := Runs.exec_cons.mp hbetween
  have hrec := recorded_run hbefore hkeep0
  have hidu : u.topicIdMap i = some n := topicId_of_tells hu hkeep1.1.1.1 hrec htold
  have hid : h.topicIdMap i = some n := topicId_run hrest (hkeep1.1.2 u hu) hidu
  have hlast : Keeps h d' := hkeep1.2.1
  constructor
  · intro payload hr
    exact forwards_of_topicId hlast hr hid
  · intro m hm
    obtain ⟨h',out,msgId,hok,-⟩ := id hm
    have hstep : step checks h d' = some h' := step_eq_some.mpr ⟨out,hok⟩
    have hrech : Recorded h :=
      recorded_run (Runs.exec_append.mpr ⟨g,hbefore,hbetween⟩)
        ((Runs.along_append hbefore).mpr ⟨hkeep0,hkeep1.1⟩)
    have hold := topicId_step hstep hlast.1 hid
    rw [topicId_of_tells hstep hlast.1 hrech hm] at hold
    exact Option.some.inj hold

/-- Every id in the map has been told to a client for its name. -/
theorem told_of_topicId (hrun : run checks ds = some g) (hid : g.topicIdMap i = some n) :
    ∃ before d between s, ds = before ++ d::between ∧ run checks before = some s ∧
      Tells checks s d n i := by
  have hexec : Runs.exec (step checks) new ds = some g := hrun
  revert hid
  refine Runs.exec_invariant_trace (I := fun ds g => g.topicIdMap i = some n →
    ∃ before d between s, ds = before ++ d::between ∧ run checks before = some s ∧
      Tells checks s d n i) ?_ ?_ hexec
  · intro es s e t hes ih hstep hid
    -- an id that was there before keeps its witness, with one more datagram behind it
    have hold : s.topicIdMap i = some n → ∃ before d between u, es ++ [e] = before ++ d::between ∧
        run checks before = some u ∧ Tells checks u d n i := by
      intro hs
      obtain ⟨before,d,between,u,rfl,hu,htold⟩ := ih hs
      exact ⟨before,d,between ++ [e],u,by simp,hu,htold⟩
    obtain ⟨-,clients,rfl⟩ | ⟨m,hm,rfl⟩ := step_cases hstep
    · exact hold hid
    · by_cases hi : i = s.nextTopicId
      · subst hi
        rw [assign_topicIdMap_self] at hid
        cases hid
        exact ⟨es,e,[],s,rfl,hes,tells_of_allocates hstep hm⟩
      · rw [assign_topicIdMap_of_ne hi] at hid
        exact hold hid
  · intro hid
    cases hid

theorem TopicIdentity.init {d : Datagram} (htopic : TopicIdentity checks (ds ++ [d])) :
    TopicIdentity checks ds := by
  rintro before d' between d'' rest rfl
  exact htopic before d' between d'' (rest ++ [d]) (by simp)

/-- What the last datagram must not do to the ids told before it. -/
theorem TopicIdentity.keeps (htopic : TopicIdentity checks (ds ++ [d]))
    (hrun : run checks ds = some g) (hstep : step checks g d = some g') : Keeps g d := by
  have hlast : ∀ i n, g.topicIdMap i = some n →
      (∀ payload, d.request = .publish i payload → Forwards checks g d n payload) ∧
        ∀ m, Tells checks g d m i → m = n := by
    intro i n hid
    obtain ⟨before,d',between,s,rfl,hs,htold⟩ := told_of_topicId hrun hid
    obtain ⟨u,hu,hbetween⟩ := Runs.exec_append.mp hrun
    cases hs.symm.trans hu
    exact htopic before d' between d [] (by simp) s g n i hs hbetween htold
  constructor
  · rintro ⟨halloc,hused,hne⟩
    obtain ⟨n,hn⟩ := Option.isSome_iff_exists.mp halloc
    obtain ⟨m,hm⟩ := Option.isSome_iff_exists.mp hused
    have hnm : n = m := (hlast _ m hm).2 n (tells_of_allocates hstep hn)
    exact hne (by rw [hm,hn,hnm])
  · cases hr : d.request with
    | publish i payload =>
      cases payload with
      | nil =>
        cases hid : g.topicIdMap i with
        | none => exact hid
        | some n =>
          obtain ⟨u,acks,hok,-⟩ := (hlast i n hid).1 [] hr
          rw [handleMessage_publish_empty hr] at hok
          cases hok
      | cons b bs => rfl
    | _ => rfl

/-- Topic ids keep their meaning in a run exactly as long as the counter does not come back to
the id of another name and no PUBLISH to a known id is without payload. -/
theorem topicIdentity_iff (hrun : (run checks ds).isSome) :
    TopicIdentity checks ds ↔ Runs.Along (step checks) Keeps new ds := by
  constructor
  · obtain ⟨g,hg⟩ := Option.isSome_iff_exists.mp hrun
    have hexec : Runs.exec (step checks) new ds = some g := hg
    refine Runs.exec_invariant_trace (I := fun ds _ => TopicIdentity checks ds →
      Runs.Along (step checks) Keeps new ds) ?_ ?_ hexec
    · intro es s e t hes ih hstep htopic
      have hkeep : Keeps s e := htopic.keeps hes hstep
      exact (Runs.along_append hes).mpr ⟨ih htopic.init,hkeep,fun u _ => trivial⟩
    · exact fun _ => trivial
  · exact topicIdentity_of_keeps

theorem topicIdentity_iff_registeredTwice :
    TopicIdentity true
      [⟨[7,mqttsnRegister,0,0,0,1,0x61],⟨[10,0,0,1],5000⟩⟩,
        ⟨[6,mqttsnSubscribe,0,0,2,0x62],⟨[10,0,0,2],5000⟩⟩,
        ⟨[7,mqttsnRegister,0,0,0,3,0x61],⟨[10,0,0,1],5000⟩⟩,
        ⟨[8,mqttsnPublish,0,0,1,0,4,0x2A],⟨[10,0,0,1],5000⟩⟩] :=
  (topicIdentity_iff (by decide +kernel)).mpr (by decide +kernel)

/-- Without overflow checks a REGISTER is always answered with the next id. -/
theorem step_register {msgId : UInt16} (hr : d.request = .register n msgId) (g : Gateway) :
    step false g d = some (g.assign n) := by
  apply step_eq_some.mpr
  refine ⟨[.sendTo (regack g.nextTopicId msgId) d.addr],?_⟩
  rw [handleMessage_register hr,allocate_ok (by simp)]
  rfl

theorem tells_register {msgId : UInt16} (hr : d.request = .register n msgId) (g : Gateway) :
    Tells false g d n g.nextTopicId :=
  tells_of_allocates (step_register hr g) (by simp [allocates,hr])

theorem exec_replicate_register {msgId : UInt16} (hr : d.request = .register n msgId) (k : ℕ)
    (g : Gateway) : ∃ h, Runs.exec (step false) g (List.replicate k d) = some h ∧
      h.nextTopicId = g.nextTopicId + UInt16.ofNat k := by
  induction k generalizing g with
  | zero => exact ⟨g,rfl,(UInt16.add_zero _).symm⟩
  | succ k ih =>
    obtain ⟨h,hrun,hnext⟩ := ih (g.assign n)
    refine ⟨h,Runs.exec_cons.mpr ⟨_,step_register hr g,hrun⟩,?_⟩
    rw [hnext]
    show g.nextTopicId + 1 + UInt16.ofNat k = _
    rw [UInt16.add_assoc,UInt16.ofNat_add,UInt16.add_comm 1]
    rfl

/-- After 65536 retransmissions of one REGISTER the counter is back at the first id, which the
next name is given; and a PUBLISH without payload is dropped. -/
theorem topicIdentity_lost_wrapAround :
    ¬ TopicIdentity false
      (⟨[7,mqttsnRegister,0,0,0,1,0x61],⟨[10,0,0,1],5000⟩⟩ ::
        (List.replicate 65535 ⟨[7,mqttsnRegister,0,0,0,1,0x61],⟨[10,0,0,1],5000⟩⟩ ++
          [⟨[7,mqttsnRegister,0,0,0,2,0x62],⟨[10,0,0,2],5000⟩⟩])) ∧
    ¬ TopicIdentity true
      [⟨[7,mqttsnRegister,0,0,0,1,0x61],⟨[10,0,0,1],5000⟩⟩,
        ⟨[7,mqttsnPublish,0,0,1,0,2],⟨[10,0,0,1],5000⟩⟩] := by
  constructor
  · intro htopic
    have ha : Datagram.request ⟨[7,mqttsnRegister,0,0,0,1,0x61],⟨[10,0,0,1],5000⟩⟩ =
        .register ['a'] 1 := by decide
    have hb : Datagram.request ⟨[7,mqttsnRegister,0,0,0,2,0x62],⟨[10,0,0,2],5000⟩⟩ =
        .register ['b'] 2 := by decide
    obtain ⟨h,hrun,hnext⟩ := exec_replicate_register ha 65536 new
    have hone : h.nextTopicId = 1 := by
      rw [hnext]
      decide
    have hsecond := tells_register hb h
    rw [hone] at hsecond
    have hsame : ['b'] = ['a'] :=
      (htopic [] _ _ _ [] rfl new h _ _ rfl hrun (tells_register ha new)).2 _ hsecond
    cases hsame
  · intro htopic
    have hsplit : TopicIdentity true
        ([⟨[7,mqttsnRegister,0,0,0,1,0x61],⟨[10,0,0,1],5000⟩⟩] ++
          [⟨[7,mqttsnPublish,0,0,1,0,2],⟨[10,0,0,1],5000⟩⟩]) := htopic
    have hkeep := hsplit.keeps rfl rfl
    revert hkeep
    decide

/-! ## The two maps -/

def MutuallyInverse (g : Gateway) : Prop :=
  ∀ i n, g.topicIdMap i = some n ↔ g.topicNameMap n = some i

/-- The name of a REGISTER. -/
def registers : Request → Option Name
  | .register name _ => some name
  | _ => none

/-- The datagram is no REGISTER for a name that has an id already. -/
def FirstRegister (g : Gateway) (d : Datagram) : Prop :=
  (registers d.request).bind g.topicNameMap = none

instance (g : Gateway) (d : Datagram) : Decidable (FirstRegister g d) :=
  inferInstanceAs (Decidable (_ = none))

/-- As long as the counter has not come back, it counts the allocations and every id in use
lies below it. -/
structure Counted (g : Gateway) : Prop where
  next : g.nextTopicId.toNat = 1 + g.allocated
  used : ∀ i n, g.topicIdMap i = some n → i.toNat ≤ g.allocated
  recorded : Recorded g

theorem firstRegister_of_none (hnone : g.allocates d = none) : FirstRegister g d := by
  cases hr : d.request with
  | register name msgId => simp [allocates,hr] at hnone
  | _ => simp [FirstRegister,hr,registers]

/-- SUBSCRIBE allocates for new names only, so what is left is REGISTER. -/
theorem firstRegister_iff (hn : g.allocates d = some n) :
    FirstRegister g d ↔ g.topicNameMap n = none := by
  cases hr : d.request with
  | register name msgId =>
    have hname : name = n := by
      simpa [allocates,hr] using hn
    simp [FirstRegister,hr,registers,hname]
  | subscribe name msgId =>
    have hname : g.topicNameMap name = none ∧ name = n := by
      simpa [allocates,hr] using hn
    simp [FirstRegister,hr,registers,← hname.2,hname.1]
  | _ => simp [allocates,hr] at hn

theorem allocated_step (hstep : step checks g d = some g') : g.allocated ≤ g'.allocated := by
  obtain ⟨-,clients,rfl⟩ | ⟨n,-,rfl⟩ := step_cases hstep
  · exact Nat.le_refl _
  · exact Nat.le_succ _

theorem Counted.next_free (hc : Counted g) : g.topicIdMap g.nextTopicId = none := by
  cases hid : g.topicIdMap g.nextTopicId with
  | none => rfl
  | some n =>
    have hused := hc.used _ _ hid
    have hnext := hc.next
    omega

theorem counted_step (hstep : step checks g d = some g') (hfew : g'.allocated < 65535)
    (hc : Counted g) : Counted g' := by
  have hkeep : ¬ Reuses g d := by
    rintro ⟨-,hused,-⟩
    rw [hc.next_free] at hused
    cases hused
  have hrec := recorded_step hstep hkeep hc.recorded
  obtain ⟨-,clients,rfl⟩ | ⟨n,-,rfl⟩ := step_cases hstep
  · exact ⟨hc.next,hc.used,hrec⟩
  · have hnext := hc.next
    have hfew' : g.allocated + 1 < 65535 := hfew
    refine ⟨?_,?_,hrec⟩
    · show (g.nextTopicId + 1).toNat = 1 + (g.allocated + 1)
      rw [UInt16.toNat_add,UInt16.toNat_one]
      omega
    · intro i m hid
      show i.toNat ≤ g.allocated + 1
      by_cases hi : i = g.nextTopicId
      · rw [hi]
        omega
      · rw [assign_topicIdMap_of_ne hi] at hid
        exact Nat.le_succ_of_le (hc.used i m hid)

theorem counted_run (hrun : run checks ds = some g) (hfew : g.allocated < 65535) :
    Counted g := by
  have hstart : Counted new := by
    refine ⟨rfl,?_,?_⟩
    · intro i n hid
      cases hid
    · intro n i hn
      cases hn
  exact Runs.exec_invariant_along (G := fun g => g.allocated < 65535)
    (fun _ _ _ hstep hlt => Nat.lt_of_le_of_lt (allocated_step hstep) hlt)
    (fun _ _ _ hstep hlt _ hc => counted_step hstep hlt hc) hrun hfew
    (Runs.along_of_forall (P := fun _ _ => True) (fun _ _ => trivial) new ds) hstart

/-- A new name keeps the maps inverse; a second id for a name breaks them for good. -/
theorem mutuallyInverse_assign (hc : Counted g) :
    MutuallyInverse (g.assign n) ↔ MutuallyInverse g ∧ g.topicNameMap n = none := by
  constructor
  · intro hinv
    have hne : ∀ i m, g.topicIdMap i = some m → i ≠ g.nextTopicId := by
      rintro i m hid rfl
      rw [hc.next_free] at hid
      cases hid
    have hname : ∀ i m, g.topicIdMap i = some m → m ≠ n ∧ g.topicNameMap m = some i := by
      intro i m hid
      have hnew := (hinv i m).mp ((assign_topicIdMap_of_ne (hne i m hid)).trans hid)
      by_cases hmn : m = n
      · subst hmn
        rw [assign_topicNameMap_self] at hnew
        exact absurd (Option.some.inj hnew).symm (hne i m hid)
      · exact ⟨hmn,(assign_topicNameMap_of_ne hmn).symm.trans hnew⟩
    refine ⟨fun i m => ⟨fun hid => (hname i m hid).2,hc.recorded m i⟩,?_⟩
    cases hn : g.topicNameMap n with
    | none => rfl
    | some i => exact absurd rfl (hname i n (hc.recorded n i hn)).1
  · rintro ⟨hinv,hnone⟩ i m
    by_cases hi : i = g.nextTopicId
    · subst hi
      rw [assign_topicIdMap_self]
      by_cases hmn : m = n
      · subst hmn
        simp [assign_topicNameMap_self]
      · rw [assign_topicNameMap_of_ne hmn,← hinv,hc.next_free]
        simp [Ne.symm hmn]
    · rw [assign_topicIdMap_of_ne hi]
      by_cases hmn : m = n
      · subst hmn
        rw [assign_topicNameMap_self,hinv,hnone]
        simp [Ne.symm hi]
      · rw [assign_topicNameMap_of_ne hmn,hinv]

theorem mutuallyInverse_step (hstep : step checks g d = some g') (hc : Counted g) :
    MutuallyInverse g' ↔ MutuallyInverse g ∧ FirstRegister g d := by
  obtain ⟨hnone,clients,rfl⟩ | ⟨n,hn,rfl⟩ := step_cases hstep
  · exact (and_iff_left (firstRegister_of_none hnone)).symm
  · rw [mutuallyInverse_assign hc,firstRegister_iff hn]

/-- While the counter has not come back, the maps are inverse to each other exactly when no
name was registered that had an id. -/
theorem mutuallyInverse_run (hrun : run checks ds = some g) (hfew : g.allocated < 65535) :
    MutuallyInverse g ↔ Runs.Along (step checks) FirstRegister new ds := by
  have hexec : Runs.exec (step checks) new ds = some g := hrun
  revert hfew
  refine Runs.exec_invariant_trace (I := fun ds g => g.allocated < 65535 →
    (MutuallyInverse g ↔ Runs.Along (step checks) FirstRegister new ds)) ?_ ?_ hexec
  · intro es s e t hes ih hstep hfew
    have hbefore : s.allocated < 65535 := Nat.lt_of_le_of_lt (allocated_step hstep) hfew
    have hlast : Runs.Along (step checks) FirstRegister s [e] ↔ FirstRegister s e :=
      and_iff_left fun _ _ => trivial
    rw [mutuallyInverse_step hstep (counted_run hes hbefore),ih hbefore,Runs.along_append hes,
      hlast]
  · intro _
    have hstart : MutuallyInverse new := by
      intro i n
      simp [new]
    exact iff_of_true hstart trivial

theorem mutuallyInverse_run_subscribedTwice :
    ∃ g, run true [⟨[7,mqttsnRegister,0,0,0,1,0x61],⟨[10,0,0,1],5000⟩⟩,
        ⟨[6,mqttsnSubscribe,0,0,2,0x62],⟨[10,0,0,2],5000⟩⟩,
        ⟨[6,mqttsnSubscribe,0,0,3,0x61],⟨[10,0,0,2],5000⟩⟩] = some g ∧ MutuallyInverse g := by
  have hrun : run true [⟨[7,mqttsnRegister,0,0,0,1,0x61],⟨[10,0,0,1],5000⟩⟩,
      ⟨[6,mqttsnSubscribe,0,0,2,0x62],⟨[10,0,0,2],5000⟩⟩,
      ⟨[6,mqttsnSubscribe,0,0,3,0x61],⟨[10,0,0,2],5000⟩⟩] = some _ := rfl
  exact ⟨_,hrun,(mutuallyInverse_run hrun (by decide)).mpr (by decide)⟩

/-- A retransmitted REGISTER leaves the first id mapped to a name that has the second. -/
theorem mutuallyInverse_lost_registeredTwice :
    ∃ g, run true [⟨[7,mqttsnRegister,0,0,0,1,0x61],⟨[10,0,0,1],5000⟩⟩,
        ⟨[7,mqttsnRegister,0,0,0,1,0x61],⟨[10,0,0,1],5000⟩⟩] = some g ∧ g.allocated < 65535 ∧
      ¬ MutuallyInverse g := by
  refine ⟨_,rfl,by decide,?_⟩
  intro hinv
  have hname := (hinv 1 ['a']).mp (by decide)
  revert hname
  decide

end Gateway
end MqttSn
end UProtocols
