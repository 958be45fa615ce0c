import UProtocols.SpiTimeout

/-!
# SPI transfers with retries

`SpiDriver::transfer` and `transfer_with_retry` of `spi_timeout_management.rs`, on the peripheral
of `UProtocols.SpiTimeout`. A transfer that fails has sent a part of its bytes, and a retry sends
them again: the slave sees all of them. When a transfer has given up waiting for an answer, the
answer is still on its way, and the retry may read it in the place of its own.
-/

namespace UProtocols
namespace SpiTimeout

section Driver

variable (config : TimeoutConfig) (reply : List UInt8 → UInt8)

/-- The loop of `transfer`: the bytes for `rx_data`. -/
def exchangeBytes (start : ℕ) : List UInt8 → Spi (List UInt8)
  | [] => return []
  | txByte::rest => do
    if config.totalTimeoutMs ≤ (← elapsedMs start) then throw .timeout
    let rxByte ← exchangeByte config reply txByte
    return rxByte :: (← exchangeBytes start rest)

/-- `transfer` into a buffer of the given length. -/
def transfer (txData : List UInt8) (rxLength : ℕ) : Spi (List UInt8) := do
  if txData.length ≠ rxLength ∨ txData = [] then throw .invalidParameter
  exchangeBytes config reply (← now) txData

/-- The busy wait before a retry; it has no result when it takes more than `patience` readings. -/
def busyWait (retryDelayMs start : ℕ) : ℕ → Spi Unit
  | 0 => fun _ => none
  | patience + 1 => do
    if (← elapsedMs start) < retryDelayMs then busyWait retryDelayMs start patience

/-- The loop of `transfer_with_retry`, with the retries that are left. -/
def retryLoop (txData : List UInt8) (rxLength retryDelayMs patience : ℕ) : ℕ → Spi (List UInt8)
  | 0 => transfer config reply txData rxLength
  | left + 1 =>
    tryCatch (transfer config reply txData rxLength) fun _ => do
      busyWait retryDelayMs (← now) patience
      retryLoop txData rxLength retryDelayMs patience left

def transferWithRetry (txData : List UInt8) (rxLength : ℕ) (maxRetries : UInt8)
    (retryDelayMs patience : ℕ) : Spi (List UInt8) :=
  retryLoop config reply txData rxLength retryDelayMs patience maxRetries.toNat

end Driver

/-! ## Waiting and catching -/

section Ends

variable {α : Type} {m : Spi α} {p q : Peripheral} {start timeoutMs : ℕ}

theorem ends_tryCatch {handle : SpiError → Spi α} {result : Except SpiError α} :
    Ends (tryCatch m handle) p result q ↔
      (∃ a, Returns m p a q ∧ result = .ok a) ∨
        ∃ e v, Ends m p (.error e) v ∧ Ends (handle e) v result q := by
  have htry : (tryCatch m handle : Spi α) p = (m p).bind fun answer => match answer with
      | (.ok a,v) => some (.ok a,v)
      | (.error e,v) => handle e v := by
    refine congrArg (Option.bind (m p)) ?_
    funext answer
    obtain ⟨answer,v⟩ := answer
    cases answer <;> rfl
  simp only [Returns,Ends,htry,Option.bind_eq_some_iff]
  constructor
  · rintro ⟨⟨a | e,v⟩,hm,hrest⟩
    · exact .inr ⟨_,v,hm,hrest⟩
    · cases hrest
      exact .inl ⟨_,hm,rfl⟩
  · rintro (⟨a,hm,rfl⟩ | ⟨e,v,hm,hrest⟩)
    · exact ⟨(.ok a,q),hm,rfl⟩
    · exact ⟨(.error e,v),hm,hrest⟩

theorem ends_busyWait {patience : ℕ} {result : Except SpiError Unit}
    (h : Ends (busyWait timeoutMs start patience) p result q) : result = .ok () ∧ Waited p q := by
  induction patience generalizing p with
  | zero => cases h
  | succ patience ih =>
    obtain ⟨elapsed,v,helapsed,hrest⟩ | ⟨e,helapsed,-⟩ := ends_bind.mp h
    · obtain ⟨-,rfl⟩ := ends_elapsedMs.mp helapsed
      split at hrest
      · obtain ⟨hok,hwaited⟩ := ih hrest
        exact ⟨hok,hwaited.written_eq,hwaited.delays_eq,hwaited.receiver_eq⟩
      · obtain ⟨rfl,rfl⟩ := ends_pure.mp hrest
        exact ⟨rfl,rfl,rfl,0,rfl⟩
    · cases (ends_elapsedMs.mp helapsed).1

end Ends

/-! ## What is sent and read -/

namespace Receiver

/-- The bytes that have not been read, the first one in front. -/
def incoming (r : Receiver) : List UInt8 := r.register.toList ++ r.shifting.map Prod.fst

theorem incoming_clockInto (register : Option UInt8) (shifting : List (UInt8 × ℕ)) :
    (clockInto register shifting).incoming.Sublist (incoming ⟨register,shifting⟩) := by
  induction shifting generalizing register with
  | nil => exact List.Sublist.refl _
  | cons head rest ih =>
    obtain ⟨byte,_ | left⟩ := head
    · cases register with
      | none => exact ih (some byte)
      | some first =>
        -- the byte is discarded
        exact (ih (some first)).trans ((List.sublist_cons_self _ _).cons_cons _)
    · exact List.Sublist.refl _

theorem incoming_send (r : Receiver) (byte : UInt8) (delay : ℕ) :
    (r.send byte delay).incoming = r.incoming ++ [byte] := by
  simp [incoming,send]

end Receiver

/-- What the slave answers to some bytes after those written so far. -/
def answers (reply : List UInt8 → UInt8) (written : List UInt8) : List UInt8 → List UInt8
  | [] => []
  | byte::rest => reply written :: answers reply (written ++ [byte]) rest

theorem answers_append (reply : List UInt8 → UInt8) (written sent sent' : List UInt8) :
    answers reply written (sent ++ sent') =
      answers reply written sent ++ answers reply (written ++ sent) sent' := by
  induction sent generalizing written with
  | nil => simp [answers]
  | cons byte sent ih => simp [answers,ih]

/-- From one state to another some bytes are sent and some are read: they are, in order, among
those that were there and the answers to those that were sent. -/
structure Exchanges (reply : List UInt8 → UInt8) (p : Peripheral) (sent read : List UInt8)
    (q : Peripheral) : Prop where
  written_eq : q.written = p.written ++ sent
  sublist : (read ++ q.receiver.incoming).Sublist
    (p.receiver.incoming ++ answers reply p.written sent)

section Exchanges

variable {config : TimeoutConfig} {reply : List UInt8 → UInt8} {p q r : Peripheral}
  {sent sent' read read' : List UInt8}

theorem Exchanges.trans (h : Exchanges reply p sent read q)
    (h' : Exchanges reply q sent' read' r) :
    Exchanges reply p (sent ++ sent') (read ++ read') r where
  written_eq := by rw [h'.written_eq,h.written_eq,List.append_assoc]
  sublist := by
    rw [answers_append,← h.written_eq,← List.append_assoc,List.append_assoc read]
    refine (h'.sublist.append_left read).trans ?_
    rw [← List.append_assoc]
    exact h.sublist.append_right _

theorem Waited.exchanges (h : Waited p q) : Exchanges reply p [] [] q where
  written_eq := h.written_eq.trans (List.append_nil _).symm
  sublist := by
    rw [answers,List.append_nil,List.nil_append]
    exact h.receiver_induction (List.Sublist.refl _)
      fun r hr => (Receiver.incoming_clockInto _ _).trans hr

theorem exchanges_write (byte : UInt8) : Exchanges reply p [byte] [] (p.write reply byte) where
  written_eq := rfl
  sublist := by
    rw [Peripheral.write,Receiver.incoming_send]
    exact List.Sublist.refl _

theorem Returns.exchanges_read {byte : UInt8} (hfull : p.receiver.register ≠ none)
    (h : Returns readData p byte q) : Exchanges reply p [] [byte] q := by
  cases h
  refine ⟨(List.append_nil _).symm,?_⟩
  obtain ⟨register,hregister⟩ := Option.ne_none_iff_exists'.mp hfull
  simp [answers,Receiver.incoming,hregister]

/-- Nothing is there to be read. -/
def Peripheral.Idle (p : Peripheral) : Prop := p.receiver = ⟨none,[]⟩

theorem idle_of_front (h : p.receiver.front = ⟨none,[]⟩) : p.Idle := by
  unfold Peripheral.Idle
  revert h
  obtain ⟨_ | _,_ | ⟨_,_⟩⟩ := p.receiver
  all_goals
    intro h
    cases h
  rfl

theorem Waited.idle (h : Waited p q) (hp : p.Idle) : q.Idle :=
  h.receiver_induction (motive := fun r => r = ⟨none,[]⟩) hp fun r hr => by rw [hr]; rfl

/-- An exchange sends its byte and reads one. When it fails it has sent nothing, or it has sent the
byte and waited for the answer in vain. -/
theorem ends_exchangeByte {byte : UInt8} {answer : Except SpiError UInt8}
    (h : Ends (exchangeByte config reply byte) p answer q) :
    (∃ rx, answer = .ok rx ∧ Exchanges reply p [byte] [rx] q ∧
        (p.Idle → rx = reply p.written ∧ q.Idle)) ∨
      (∃ e, answer = .error e) ∧
        (Exchanges reply p [] [] q ∧ (p.Idle → q.Idle) ∨ Exchanges reply p [byte] [] q) := by
  have hok : ∀ rx, answer = .ok rx → p.Idle → rx = reply p.written ∧ q.Idle := by
    rintro rx rfl hp
    obtain ⟨hrx,-,-,hfront⟩ := exchangeByte_ok (by rw [hp]; rfl) h
    rw [Peripheral.arriving,hp] at hrx
    rw [hp] at hfront
    exact ⟨hrx,idle_of_front hfront⟩
  obtain ⟨_,u,htxe,hrest⟩ | ⟨e,htxe,rfl⟩ := ends_bind.mp h
  · have hu : Exchanges reply p [] [] u := (ends_waitForFlag htxe).waited.exchanges
    obtain ⟨_,v,hwrite,hrest⟩ | ⟨e,hwrite,-⟩ := ends_bind.mp hrest
    · cases hwrite
      have hv := hu.trans (exchanges_write byte)
      obtain ⟨_,w,hrxne,hread⟩ | ⟨e,hrxne,rfl⟩ := ends_bind.mp hrest
      · have hw := hv.trans (ends_waitForFlag hrxne).waited.exchanges
        obtain ⟨rx,rfl⟩ : ∃ rx, answer = .ok rx := by
          cases hread
          exact ⟨_,rfl⟩
        have hq := hw.trans (Returns.exchanges_read (ends_waitForFlag hrxne).rxne.2 hread)
        exact .inl ⟨rx,rfl,hq,hok rx rfl⟩
      · exact .inr ⟨⟨e,rfl⟩,.inr (hv.trans (ends_waitForFlag hrxne).waited.exchanges)⟩
    · cases hwrite
  · have hu := (ends_waitForFlag htxe).waited
    exact .inr ⟨⟨e,rfl⟩,.inl ⟨hu.exchanges,hu.idle⟩⟩

/-! ## Attempts -/

/-- What an attempt has sent and read. -/
structure Attempt where
  sent : List UInt8
  read : List UInt8

/-- An attempt that has failed: an answer to its last byte may be missing. -/
structure Attempt.Failed (txData : List UInt8) (a : Attempt) : Prop where
  sent_prefix : a.sent <+: txData
  short : a.read.length < txData.length
  sent_length : a.sent.length = a.read.length ∨ a.sent.length = a.read.length + 1

/-- Every byte that was sent has been answered. -/
def Attempt.Answered (a : Attempt) : Prop := a.sent.length = a.read.length

/-- How a transfer ends: with its bytes exchanged, or in a failed attempt. -/
def Transferred (reply : List UInt8 → UInt8) (txData : List UInt8) (p : Peripheral)
    (result : Except SpiError (List UInt8)) (q : Peripheral) : Prop :=
  (∃ rx, result = .ok rx ∧ rx.length = txData.length ∧ Exchanges reply p txData rx q ∧
      (p.Idle → rx = answers reply p.written txData ∧ q.Idle)) ∨
    ∃ e a, result = .error e ∧ Attempt.Failed txData a ∧ Exchanges reply p a.sent a.read q ∧
      (p.Idle → a.Answered → q.Idle)

variable {txData : List UInt8} {result : Except SpiError (List UInt8)}

theorem Waited.transferred (h : Waited p q) {e : SpiError} (hne : txData ≠ []) :
    Transferred reply txData p (.error e) q :=
  .inr ⟨e,⟨[],[]⟩,rfl,⟨List.nil_prefix,List.length_pos_iff.mpr hne,.inl rfl⟩,h.exchanges,
    fun hp _ => h.idle hp⟩

theorem Transferred.of_waited (h : Waited p q) (h' : Transferred reply txData q result r) :
    Transferred reply txData p result r := by
  have hwritten := h.written_eq
  obtain ⟨rx,hok,hlength,hexchanges,hidle⟩ | ⟨e,a,he,hfailed,hexchanges,hidle⟩ := h'
  · rw [hwritten] at hidle
    exact .inl ⟨rx,hok,hlength,h.exchanges.trans hexchanges,fun hp => hidle (h.idle hp)⟩
  · exact .inr ⟨e,a,he,hfailed,h.exchanges.trans hexchanges,fun hp => hidle (h.idle hp)⟩

theorem Transferred.cons {byte rx : UInt8} {rest : List UInt8}
    (h : Exchanges reply p [byte] [rx] q) (hidle : p.Idle → rx = reply p.written ∧ q.Idle)
    (h' : Transferred reply rest q result r) :
    Transferred reply (byte::rest) p (result.map (rx :: ·)) r := by
  have hwritten := h.written_eq
  obtain ⟨bytes,rfl,hlength,hexchanges,hidle'⟩ | ⟨e,a,rfl,hfailed,hexchanges,hidle'⟩ := h'
  · refine .inl ⟨rx::bytes,rfl,congrArg (· + 1) hlength,h.trans hexchanges,fun hp => ?_⟩
    obtain ⟨hrx,hq⟩ := hidle hp
    obtain ⟨hbytes,hr⟩ := hidle' hq
    rw [hrx,hbytes,hwritten]
    exact ⟨rfl,hr⟩
  · refine .inr ⟨e,⟨byte::a.sent,rx::a.read⟩,rfl,⟨?_,?_,?_⟩,h.trans hexchanges,fun hp ha => ?_⟩
    · exact (List.prefix_cons_inj byte).mpr hfailed.sent_prefix
    · exact Nat.succ_lt_succ hfailed.short
    · exact hfailed.sent_length.imp (congrArg (· + 1)) (congrArg (· + 1))
    · exact hidle' (hidle hp).2 (Nat.succ.inj ha)

/-- A byte whose exchange fails is the last one of its attempt. -/
theorem ends_exchangeByte_error {byte : UInt8} {rest : List UInt8} {e : SpiError}
    (h : Ends (exchangeByte config reply byte) p (.error e) q) :
    Transferred reply (byte::rest) p (.error e) q := by
  obtain ⟨rx,hok,-⟩ | ⟨-,⟨hnothing,hidle⟩ | hsent⟩ := ends_exchangeByte h
  · cases hok
  · exact .inr ⟨e,⟨[],[]⟩,rfl,⟨List.nil_prefix,Nat.succ_pos _,.inl rfl⟩,hnothing,
      fun hp _ => hidle hp⟩
  · exact .inr ⟨e,⟨[byte],[]⟩,rfl,⟨⟨rest,rfl⟩,Nat.succ_pos _,.inr rfl⟩,hsent,nofun⟩

theorem ends_exchangeBytes {start : ℕ}
    (h : Ends (exchangeBytes config reply start txData) p result q) :
    Transferred reply txData p result q := by
  induction txData generalizing p q result with
  | nil =>
    obtain ⟨rfl,rfl⟩ := ends_pure.mp h
    exact .inl ⟨[],rfl,rfl,⟨(List.append_nil _).symm,List.sublist_append_left _ _⟩,
      fun hp => ⟨rfl,hp⟩⟩
  | cons byte rest ih =>
    obtain ⟨elapsed,u,helapsed,hrest⟩ | ⟨e,helapsed,-⟩ := ends_bind.mp h
    · obtain ⟨-,rfl⟩ := ends_elapsedMs.mp helapsed
      refine Transferred.of_waited (q := {p with readings := p.readings + 1}) ⟨rfl,rfl,0,rfl⟩ ?_
      split at hrest
      · obtain ⟨_,_,hthrow,-⟩ | ⟨e,hthrow,rfl⟩ := ends_bind.mp hrest
        · exact absurd hthrow not_returns_throw
        · obtain ⟨-,rfl⟩ := ends_throw.mp hthrow
          exact Waited.transferred ⟨rfl,rfl,0,rfl⟩ (List.cons_ne_nil _ _)
      · obtain ⟨rx,v,hbyte,hrest⟩ | ⟨e,hbyte,rfl⟩ := ends_bind.mp hrest
        · obtain ⟨rx',hrx,hexchanges,hidle⟩ | ⟨⟨e,hrx⟩,-⟩ := ends_exchangeByte hbyte
          · cases hrx
            obtain ⟨bytes,w,hbytes,hlast⟩ | ⟨e,hbytes,rfl⟩ := ends_bind.mp hrest
            · obtain ⟨rfl,rfl⟩ := ends_pure.mp hlast
              exact Transferred.cons hexchanges hidle (ih hbytes)
            · exact Transferred.cons hexchanges hidle (ih hbytes)
          · cases hrx
        · exact ends_exchangeByte_error hbyte
    · cases (ends_elapsedMs.mp helapsed).1

theorem ends_transfer {rxLength : ℕ} (hlength : txData.length = rxLength) (hne : txData ≠ [])
    (h : Ends (transfer config reply txData rxLength) p result q) :
    Transferred reply txData p result q := by
  have hvalid : ¬ (txData.length ≠ rxLength ∨ txData = []) := by simp [hlength,hne]
  simp only [transfer,if_neg hvalid] at h
  obtain ⟨start,u,hnow,hrest⟩ | ⟨e,hnow,-⟩ := ends_bind.mp h
  · exact (ends_exchangeBytes hrest).of_waited (ends_now hnow).2
  · obtain ⟨⟨_,he⟩,-⟩ := ends_now hnow
    cases he

/-! ## Retries -/

/-- What a call with retries has done after some attempts that failed. -/
structure Retried (reply : List UInt8 → UInt8) (txData : List UInt8) (p : Peripheral)
    (failures : List Attempt) (q : Peripheral) : Prop where
  failed : ∀ a ∈ failures, a.Failed txData
  exchanges : Exchanges reply p (failures.flatMap Attempt.sent) (failures.flatMap Attempt.read) q
  idle : p.Idle → (∀ a ∈ failures, a.Answered) → q.Idle

theorem Retried.cons {a : Attempt} {failures : List Attempt} (hfailed : a.Failed txData)
    (h : Exchanges reply p a.sent a.read q) (hidle : p.Idle → a.Answered → q.Idle)
    (h' : Retried reply txData q failures r) : Retried reply txData p (a::failures) r where
  failed := List.forall_mem_cons.mpr ⟨hfailed,h'.failed⟩
  exchanges := h.trans h'.exchanges
  idle := by
    intro hp hall
    obtain ⟨ha,hall⟩ := List.forall_mem_cons.mp hall
    exact h'.idle (hidle hp ha) hall

/-- The attempts that fail come first; the last one succeeds, or there is none left. -/
theorem ends_retryLoop {rxLength retryDelayMs patience left : ℕ}
    (hlength : txData.length = rxLength) (hne : txData ≠ [])
    (h : Ends (retryLoop config reply txData rxLength retryDelayMs patience left) p result q) :
    ∃ failures v, Retried reply txData p failures v ∧
      ((failures.length ≤ left ∧ ∃ rx, result = .ok rx ∧ rx.length = txData.length ∧
          Exchanges reply v txData rx q ∧ (v.Idle → rx = answers reply v.written txData)) ∨
        failures.length = left + 1 ∧ v = q ∧ ∃ e, result = .error e) := by
  have hnone : ∀ p, Retried reply txData p [] p := fun p =>
    ⟨nofun,⟨(List.append_nil _).symm,List.sublist_append_left _ _⟩,fun hp _ => hp⟩
  induction left generalizing p with
  | zero =>
    obtain ⟨rx,hok,hrx,hexchanges,hidle⟩ | ⟨e,a,he,hfailed,hexchanges,hidle⟩ :=
      ends_transfer hlength hne h
    · exact ⟨[],p,hnone p,.inl ⟨Nat.le_refl _,rx,hok,hrx,hexchanges,fun hp => (hidle hp).1⟩⟩
    · exact ⟨[a],q,(hnone q).cons hfailed hexchanges hidle,.inr ⟨rfl,rfl,e,he⟩⟩
  | succ left ih =>
    obtain ⟨rx,hok,rfl⟩ | ⟨e,v,hfail,hrest⟩ := ends_tryCatch.mp h
    · obtain ⟨rx',hok',hrx,hexchanges,hidle⟩ | ⟨e,a,he,-⟩ := ends_transfer hlength hne hok
      · cases hok'
        exact ⟨[],p,hnone p,.inl ⟨Nat.zero_le _,rx,rfl,hrx,hexchanges,fun hp => (hidle hp).1⟩⟩
      · cases he
    · obtain ⟨rx,hok,-⟩ | ⟨e,a,-,hfailed,hexchanges,hidle⟩ := ends_transfer hlength hne hfail
      · cases hok
      · -- the bytes that were on their way may come in during the busy wait
        obtain ⟨start,u,hnow,hrest⟩ | ⟨_,hnow,-⟩ := ends_bind.mp hrest
        · obtain ⟨_,w,hbusy,hrest⟩ | ⟨_,hbusy,-⟩ := ends_bind.mp hrest
          · have hw := (ends_now hnow).2.trans (ends_busyWait hbusy).2
            obtain ⟨failures,x,hretried,hcases⟩ := ih hrest
            have hexchanges' : Exchanges reply p a.sent a.read w := by
              simpa using hexchanges.trans hw.exchanges
            refine ⟨a::failures,x,hretried.cons hfailed hexchanges'
              fun hp ha => hw.idle (hidle hp ha),?_⟩
            simpa using hcases
          · cases (ends_busyWait hbusy).1
        · obtain ⟨⟨_,hok⟩,-⟩ := ends_now hnow
          cases hok

/-- A call that returns has made attempts that failed, each of which has sent a first part of the
data and read an answer to each of these bytes but perhaps to the last. It succeeds only within
the retries it was given, and then the slave has been sent those parts and after them the data.
All bytes that were read are, in their order, among those that were on their way at the start and
the slave's answers; from an idle peripheral, with no answer missing, what the call returns are the
answers to the data. Otherwise all the attempts have failed. -/
theorem transferWithRetry_resends {rxLength retryDelayMs patience : ℕ} {maxRetries : UInt8}
    (hlength : txData.length = rxLength) (hne : txData ≠ [])
    (h : Ends (transferWithRetry config reply txData rxLength maxRetries retryDelayMs patience)
      p result q) :
    ∃ failures : List Attempt, (∀ a ∈ failures, a.Failed txData) ∧
      ((failures.length ≤ maxRetries.toNat ∧ ∃ rx, result = .ok rx ∧ rx.length = txData.length ∧
          q.written = p.written ++ failures.flatMap Attempt.sent ++ txData ∧
          (failures.flatMap Attempt.read ++ rx).Sublist (p.receiver.incoming ++
            answers reply p.written (failures.flatMap Attempt.sent ++ txData)) ∧
          (p.Idle → (∀ a ∈ failures, a.Answered) →
            rx = answers reply (p.written ++ failures.flatMap Attempt.sent) txData)) ∨
        failures.length = maxRetries.toNat + 1 ∧ (∃ e, result = .error e) ∧
          q.written = p.written ++ failures.flatMap Attempt.sent) := by
  obtain ⟨failures,v,hretried,hcases⟩ := ends_retryLoop hlength hne h
  have hv := hretried.exchanges.written_eq
  refine ⟨failures,hretried.failed,hcases.imp ?_ ?_⟩
  · rintro ⟨hle,rx,hok,hrx,hexchanges,hanswers⟩
    have hall := hretried.exchanges.trans hexchanges
    refine ⟨hle,rx,hok,hrx,?_,?_,fun hp ha => ?_⟩
    · rw [hall.written_eq,List.append_assoc]
    · exact (List.sublist_append_left _ _).trans hall.sublist
    · rw [hanswers (hretried.idle hp ha),hv]
  · rintro ⟨hcount,rfl,he⟩
    exact ⟨hcount,he,hv⟩

/-- The answer to the first byte takes four polls, and every reading a millisecond. -/
def lateAnswer : Peripheral where
  written := []
  receiver := ⟨none,[]⟩
  delays := fun n => if n = 0 then 3 else 0
  polls := List.replicate 7 (true,true)
  clock := id
  readings := 0

theorem transferWithRetry_lateAnswer :
    (transferWithRetry ⟨100,2⟩ (fun written => written.length.toUInt8) [0xA0,0xB0] 2 1 2 4
      lateAnswer).map (·.1.toOption) = some (some [0,2]) := by
  decide +kernel

/-- The first attempt gives up waiting for its answer, and the retry reads it in the place of its
own. -/
theorem transferWithRetry_resends_lateAnswer :
    ∃ result q, result.toOption = some [0,2] ∧
      Ends (transferWithRetry ⟨100,2⟩ (fun written => written.length.toUInt8) [0xA0,0xB0] 2 1 2 4)
        lateAnswer result q ∧
      ∃ failures : List Attempt, (∀ a ∈ failures, a.Failed [0xA0,0xB0]) ∧
        ((failures.length ≤ (1 : UInt8).toNat ∧ ∃ rx, result = .ok rx ∧
            rx.length = [(0xA0 : UInt8),0xB0].length ∧
            q.written = lateAnswer.written ++ failures.flatMap Attempt.sent ++ [0xA0,0xB0] ∧
            (failures.flatMap Attempt.read ++ rx).Sublist (lateAnswer.receiver.incoming ++
              answers (fun written => written.length.toUInt8) lateAnswer.written
                (failures.flatMap Attempt.sent ++ [0xA0,0xB0])) ∧
            (lateAnswer.Idle → (∀ a ∈ failures, a.Answered) →
              rx = answers (fun written => written.length.toUInt8)
                (lateAnswer.written ++ failures.flatMap Attempt.sent) [0xA0,0xB0])) ∨
          failures.length = (1 : UInt8).toNat + 1 ∧ (∃ e, result = .error e) ∧
            q.written = lateAnswer.written ++ failures.flatMap Attempt.sent) := by
  obtain ⟨⟨result,q⟩,h,hresult⟩ := Option.map_eq_some_iff.mp transferWithRetry_lateAnswer
  exact ⟨result,q,hresult,h,transferWithRetry_resends rfl (by decide) h⟩

end Exchanges

end SpiTimeout
end UProtocols
