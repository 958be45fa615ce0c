import UProtocols.ArpCacheC
import UProtocols.ByteOrder
import UProtocols.Expiry
import UProtocols.Runs

/-!
# The two ARP caches agree

The C list and the Rust map get the same operations at the same times, in whole seconds. What
both show for an address is the last entry added for it, as long as that is static or younger
than the timeout; a cleanup removes only what is not shown any more.
-/

namespace UProtocols
namespace Arp

open Expiry (Tracks)

/-- The address as `s_addr` has it: the octets in memory order, read by a little-endian machine. -/
def Ipv4Addr.sAddr (ip : Ipv4Addr) : UInt32 := UInt32.ofNat (ofLeBytes ip.octets.toList)

theorem Ipv4Addr.sAddr_inj {ip ip' : Ipv4Addr} : ip.sAddr = ip'.sAddr ↔ ip = ip' := by
  constructor
  · intro h
    have hlength : ip.octets.toList.length = ip'.octets.toList.length := by simp
    have hlt : ∀ i : Ipv4Addr, ofLeBytes i.octets.toList < 2^32 := by
      intro i
      have hbytes := ofLeBytes_lt i.octets.toList
      rw [show i.octets.toList.length = 4 by simp] at hbytes
      exact hbytes
    have hvalue : ofLeBytes ip.octets.toList = ofLeBytes ip'.octets.toList := by
      have hnat := congrArg UInt32.toNat h
      rwa [sAddr,sAddr,UInt32.toNat_ofNat_of_lt' (hlt ip),UInt32.toNat_ofNat_of_lt' (hlt ip')]
        at hnat
    cases ip
    cases ip'
    exact congrArg Ipv4Addr.mk (Vector.toList_inj.mp (ofLeBytes_inj hlength hvalue))
  · rintro rfl
    rfl

/-! ## Operations on both caches -/

/-- An operation with its clock reading in seconds; an `add` also has the address that `malloc`
returns if it is called. -/
inductive Op
  | add (ip : Ipv4Addr) (mac : MacAddress) (isStatic now : ℤ) (address : ℕ)
  | cleanup (now : ℤ)
  deriving DecidableEq

def Op.now : Op → ℤ
  | add _ _ _ now _ => now
  | cleanup now => now

def nanoseconds (seconds : ℤ) : ℤ := seconds * 1000000000

namespace C.Cache

def step (c : Cache) : Op → Option Cache
  | .add ip mac isStatic now address => c.add ip.sAddr mac isStatic now address
  | .cleanup now => c.cleanup now

def run (timeout : ℕ) (ops : List Op) : Option Cache := Runs.exec step (init timeout) ops

end C.Cache

namespace ArpCache

def step (c : ArpCache) : Op → ArpCache
  | .add ip mac isStatic now _ => c.add ip mac (isStatic ≠ 0) (nanoseconds now)
  | .cleanup now => c.cleanup (nanoseconds now)

def run (timeout : ℕ) (ops : List Op) : ArpCache := ops.foldl step (new timeout)

end ArpCache

/-! ## The last entry added -/

structure Added where
  mac : MacAddress
  isStatic : Bool
  time : ℤ
  deriving DecidableEq

def Added.live (timeout : ℕ) (now : ℤ) (d : Added) : Bool := d.isStatic || now - d.time < timeout

def Op.addedFor (ip : Ipv4Addr) : Op → Option Added
  | add ip' mac isStatic now _ => if ip' = ip then some ⟨mac,isStatic ≠ 0,now⟩ else none
  | cleanup _ => none

def lastAdded (ops : List Op) (ip : Ipv4Addr) : Option Added :=
  ops.reverse.findSome? (Op.addedFor ip)

theorem lastAdded_concat (ops : List Op) (op : Op) (ip : Ipv4Addr) :
    lastAdded (ops ++ [op]) ip = (op.addedFor ip).or (lastAdded ops ip) := by
  rw [lastAdded,List.reverse_append]
  cases hop : op.addedFor ip <;> simp [hop,lastAdded]

/-- Once expired, always expired. -/
theorem Added.live_final (timeout : ℕ) (d : Added) (s t : ℤ) (hle : s ≤ t)
    (hlive : d.live timeout t = true) : d.live timeout s = true := by
  simp only [Added.live,Bool.or_eq_true,decide_eq_true_eq] at hlive ⊢
  obtain hstatic | hyoung := hlive
  · exact .inl hstatic
  · exact .inr (by omega)

theorem lastAdded_time {ops : List Op} {ip : Ipv4Addr} {d : Added}
    (h : lastAdded ops ip = some d) : ∃ op ∈ ops, op.now = d.time := by
  obtain ⟨op,hop,hadded⟩ := List.exists_of_findSome?_eq_some h
  refine ⟨op,List.mem_reverse.mp hop,?_⟩
  cases op with
  | add ip' mac isStatic now address =>
    simp only [Op.addedFor,Option.ite_none_right_eq_some,Option.some.injEq] at hadded
    rw [← hadded.2]
    rfl
  | cleanup now => cases hadded

/-! ## The C list -/

namespace C

def Entry.added (e : Entry) : Added := ⟨e.macAddr,e.isStatic ≠ 0,e.timestamp⟩

theorem live_added (timeout : ℕ) (now : ℤ) :
    Added.live timeout now ∘ Entry.added = Entry.live timeout now := by
  funext e
  simp [Entry.live,Added.live,Entry.added]

/-- The entry of the list for an address. -/
def entryFor (ip : UInt32) (entries : List Entry) : Option Entry :=
  entries.find? fun e => e.ipAddr = ip

/-- At most one entry for each address. -/
def Distinct (entries : List Entry) : Prop := (entries.map Entry.ipAddr).Nodup

variable {entries : List Entry} {e : Entry} {ip : UInt32}

theorem setFirst_none (h : setFirst e entries = none) : ∀ x ∈ entries, x.ipAddr ≠ e.ipAddr := by
  induction entries with
  | nil => simp
  | cons x entries ih =>
    by_cases hx : x.ipAddr = e.ipAddr
    · simp [setFirst,hx] at h
    · simp only [setFirst,hx,if_false,Option.map_eq_none_iff] at h
      rw [List.forall_mem_cons]
      exact ⟨hx,ih h⟩

/-- Replacing keeps the addresses and changes the entry of one of them. -/
theorem setFirst_some (ip : UInt32) {entries' : List Entry} (h : setFirst e entries = some entries') :
    entries'.map Entry.ipAddr = entries.map Entry.ipAddr ∧
      entryFor ip entries' = if e.ipAddr = ip then some e else entryFor ip entries := by
  induction entries generalizing entries' with
  | nil => cases h
  | cons x entries ih =>
    by_cases hx : x.ipAddr = e.ipAddr
    · simp only [setFirst,hx,if_true,Option.some.injEq] at h
      subst h
      by_cases he : e.ipAddr = ip <;> simp [entryFor,hx,he]
    · simp only [setFirst,hx,if_false] at h
      obtain ⟨rest,hrest,rfl⟩ := Option.map_eq_some_iff.mp h
      obtain ⟨haddresses,hentry⟩ := ih hrest
      refine ⟨by simp [haddresses],?_⟩
      unfold entryFor at hentry ⊢
      by_cases hxip : x.ipAddr = ip
      · have he : e.ipAddr ≠ ip := fun heq => hx (hxip.trans heq.symm)
        simp [hxip,he]
      · simp [hxip,hentry]

theorem entryFor_put :
    entryFor ip (put e entries) = if e.ipAddr = ip then some e else entryFor ip entries := by
  cases hset : setFirst e entries with
  | none => by_cases he : e.ipAddr = ip <;> simp [put,hset,entryFor,he]
  | some entries' => simpa [put,hset] using (setFirst_some ip hset).2

theorem Distinct.put (h : Distinct entries) : Distinct (put e entries) := by
  unfold Distinct C.put
  cases hset : setFirst e entries with
  | none =>
    have hnew := setFirst_none hset
    rw [Option.getD_none,List.map_cons,List.nodup_cons]
    refine ⟨?_,h⟩
    simpa using hnew
  | some entries' =>
    rw [Option.getD_some,(setFirst_some e.ipAddr hset).1]
    exact h

/-- With one entry for an address, the first one that is live is the one that is live. -/
theorem Distinct.find_live (h : Distinct entries) (p : Entry → Bool) :
    (entries.find? fun e => e.ipAddr = ip ∧ p e) = (entryFor ip entries).filter p := by
  induction entries with
  | nil => rfl
  | cons x entries ih =>
    obtain ⟨hx,hrest⟩ := List.nodup_cons.mp h
    by_cases hip : x.ipAddr = ip
    · subst hip
      have hnone : (entries.find? fun e => e.ipAddr = x.ipAddr ∧ p e) = none := by
        rw [List.find?_eq_none]
        intro y hy
        have hne : y.ipAddr ≠ x.ipAddr := fun heq => hx (heq ▸ List.mem_map_of_mem hy)
        simp [hne]
      cases hp : p x with
      | true =>
        rw [List.find?_cons_of_pos (by simp [hp]),entryFor,List.find?_cons_of_pos (by simp),
          Option.filter_some_pos hp]
      | false =>
        rw [List.find?_cons_of_neg (by simp [hp]),hnone,entryFor,
          List.find?_cons_of_pos (by simp),Option.filter_some_neg hp]
    · simpa [entryFor,hip] using ih hrest

theorem Distinct.entryFor_filter (h : Distinct entries) (p : Entry → Bool) :
    entryFor ip (entries.filter p) = (entryFor ip entries).filter p := by
  rw [← h.find_live p,entryFor,List.find?_filter]
  congr 1
  funext x
  simp [and_comm]

theorem Distinct.filter (h : Distinct entries) (p : Entry → Bool) : Distinct (entries.filter p) :=
  List.Nodup.sublist (List.filter_sublist.map _) h

end C

/-! ## The Rust map -/

def Added.entry (d : Added) : ArpCacheEntry := ⟨d.mac,nanoseconds d.time,d.isStatic⟩

/-- Nanoseconds and seconds give the same ages. -/
theorem fresh_entry (timeout : ℕ) {now : ℤ} {d : Added} (hpast : d.time ≤ now) :
    ArpCache.fresh (timeout * 1000000000) (nanoseconds now) d.entry = d.live timeout now := by
  have hle : nanoseconds d.time ≤ nanoseconds now := by
    unfold nanoseconds
    omega
  have hage : (nanoseconds now - nanoseconds d.time).toNat < timeout * 1000000000 ↔
      now - d.time < timeout := by
    unfold nanoseconds
    omega
  cases hstatic : d.isStatic <;>
    simp [ArpCache.fresh,Added.entry,Added.live,durationSince,hstatic,hle,hage]

/-! ## Agreement -/

/-- No operation comes after `t`. -/
def Until (t : ℤ) (ops : List Op) : Prop := ∀ op ∈ ops, op.now ≤ t

/-- Both caches track the last entry added for each address. -/
structure Agree (timeout : ℕ) (ops : List Op) (c : C.Cache) : Prop where
  timeout_eq : c.timeoutSeconds = timeout
  list : ∃ entries, c.Holds entries ∧ C.Distinct entries ∧ ∀ ip t, Until t ops →
    Tracks (Added.live timeout) t (lastAdded ops ip)
      ((C.entryFor ip.sAddr entries).map C.Entry.added)
  rust_timeout : (ArpCache.run timeout ops).timeout = timeout * 1000000000
  map : ∃ found : Ipv4Addr → Option Added,
    (∀ ip, (ArpCache.run timeout ops).entries ip = (found ip).map Added.entry) ∧
    ∀ ip t, Until t ops → Tracks (Added.live timeout) t (lastAdded ops ip) (found ip)

variable {timeout : ℕ} {ops : List Op} {c c' : C.Cache} {op : Op}

theorem Agree.init (timeout : ℕ) : Agree timeout [] (.init timeout) where
  timeout_eq := rfl
  list := ⟨[],C.Cache.holds_init timeout,List.nodup_nil,fun _ _ _ => .inl rfl⟩
  rust_timeout := rfl
  map := ⟨fun _ => none,fun _ => rfl,fun _ _ _ => .inl rfl⟩

theorem run_concat (timeout : ℕ) (ops : List Op) (op : Op) :
    ArpCache.run timeout (ops ++ [op]) = (ArpCache.run timeout ops).step op := by
  simp [ArpCache.run]

theorem Until.of_concat {t : ℤ} (h : Until t (ops ++ [op])) : Until t ops ∧ op.now ≤ t :=
  ⟨fun o ho => h o (by simp [ho]),h op (by simp)⟩

/-- What is found in a map that tracks the last entries was added in the past. -/
theorem time_le {t : ℤ} {ip : Ipv4Addr} {d : Added} {found : Option Added}
    (h : Tracks (Added.live timeout) t (lastAdded ops ip) found) (hd : found = some d)
    (hpast : Until t ops) : d.time ≤ t := by
  obtain ⟨op,hop,htime⟩ := lastAdded_time (h.eq_of_some hd)
  rw [← htime]
  exact hpast op hop

theorem filter_fresh {now : ℤ} {ip : Ipv4Addr} {found : Option Added}
    (h : Tracks (Added.live timeout) now (lastAdded ops ip) found) (hpast : Until now ops) :
    (found.map Added.entry).filter (ArpCache.fresh (timeout * 1000000000) (nanoseconds now)) =
      (found.filter (Added.live timeout now)).map Added.entry := by
  cases hfound : found with
  | none => rfl
  | some d =>
    have hfresh := fresh_entry timeout (time_le h hfound hpast)
    cases hlive : d.live timeout now with
    | true =>
      rw [Option.map_some,Option.filter_some_pos (hfresh.trans hlive),Option.filter_some_pos hlive]
      rfl
    | false =>
      rw [Option.map_some,Option.filter_some_neg (hfresh.trans hlive),Option.filter_some_neg hlive]
      rfl

theorem agree_add {ip : Ipv4Addr} {mac : MacAddress} {isStatic now : ℤ} {address : ℕ}
    (hstep : c.step (.add ip mac isStatic now address) = some c') (h : Agree timeout ops c) :
    Agree timeout (ops ++ [.add ip mac isStatic now address]) c' := by
  obtain ⟨entries,hholds,hdistinct,htracks⟩ := h.list
  obtain ⟨found,hfound,hmap⟩ := h.map
  have hlast : ∀ ip', lastAdded (ops ++ [.add ip mac isStatic now address]) ip' =
      if ip = ip' then some ⟨mac,isStatic ≠ 0,now⟩ else lastAdded ops ip' := by
    intro ip'
    rw [lastAdded_concat]
    by_cases hip : ip = ip' <;> simp [Op.addedFor,hip]
  obtain ⟨d,hc',hholds',htimeout⟩ | ⟨-,hnone⟩ :=
    C.Cache.holds_add hholds ip.sAddr mac isStatic now address
  · cases hc'.symm.trans hstep
    refine ⟨htimeout.trans h.timeout_eq,⟨_,hholds',hdistinct.put,?_⟩,?_,
      ⟨Function.update found ip (some ⟨mac,isStatic ≠ 0,now⟩),?_,?_⟩⟩
    · intro ip' t hpast
      rw [hlast,C.entryFor_put]
      by_cases hip : ip = ip'
      · subst hip
        simp only [if_true]
        exact .inl rfl
      · rw [if_neg hip,if_neg (fun heq => hip (Ipv4Addr.sAddr_inj.mp heq))]
        exact htracks ip' t hpast.of_concat.1
    · rw [run_concat]
      exact h.rust_timeout
    · intro ip'
      rw [run_concat,ArpCache.step,ArpCache.add]
      by_cases hip : ip' = ip
      · subst hip
        simp [Added.entry]
      · simp [hip,hfound]
    · intro ip' t hpast
      rw [hlast]
      by_cases hip : ip = ip'
      · subst hip
        rw [if_pos rfl,Function.update_self]
        exact .inl rfl
      · rw [if_neg hip,Function.update_of_ne (Ne.symm hip)]
        exact hmap ip' t hpast.of_concat.1
  · cases hnone.symm.trans hstep

theorem agree_cleanup {now : ℤ} (hstep : c.step (.cleanup now) = some c') (hpast : Until now ops)
    (h : Agree timeout ops c) : Agree timeout (ops ++ [.cleanup now]) c' := by
  obtain ⟨entries,hholds,hdistinct,htracks⟩ := h.list
  obtain ⟨found,hfound,hmap⟩ := h.map
  have hlast : ∀ ip, lastAdded (ops ++ [.cleanup now]) ip = lastAdded ops ip := by
    intro ip
    rw [lastAdded_concat]
    rfl
  obtain ⟨d,hc',hholds',htimeout⟩ := C.Cache.holds_cleanup hholds now
  cases hc'.symm.trans hstep
  rw [h.timeout_eq] at hholds'
  refine ⟨htimeout.trans h.timeout_eq,⟨_,hholds',hdistinct.filter _,?_⟩,?_,
    ⟨fun ip => (found ip).filter (Added.live timeout now),?_,?_⟩⟩
  · intro ip t hnow
    have hvisible := (htracks ip now hpast).cleanup (Added.live_final timeout) (le_refl now)
    rw [Option.filter_map,C.live_added] at hvisible
    rw [hlast,hdistinct.entryFor_filter]
    exact hvisible.later (Added.live_final timeout) hnow.of_concat.2
  · rw [run_concat]
    exact h.rust_timeout
  · intro ip
    rw [run_concat,ArpCache.step,ArpCache.cleanup]
    simp only [hfound,h.rust_timeout]
    exact filter_fresh (hmap ip now hpast) hpast
  · intro ip t hnow
    rw [hlast]
    have hvisible := (hmap ip now hpast).cleanup (Added.live_final timeout) (le_refl now)
    exact hvisible.later (Added.live_final timeout) hnow.of_concat.2

theorem agree_run (hclock : (ops.map Op.now).Pairwise (· ≤ ·))
    (hrun : C.Cache.run timeout ops = some c) : Agree timeout ops c := by
  have hinvariant : (ops.map Op.now).Pairwise (· ≤ ·) → Agree timeout ops c := by
    refine Runs.exec_invariant_trace
      (I := fun ops c => (ops.map Op.now).Pairwise (· ≤ ·) → Agree timeout ops c) ?_ ?_ hrun
    · intro es u op v _ ih hstep hsorted
      rw [List.map_append,List.pairwise_append] at hsorted
      cases op with
      | add ip mac isStatic now address => exact agree_add hstep (ih hsorted.1)
      | cleanup now =>
        apply agree_cleanup hstep _ (ih hsorted.1)
        intro o ho
        exact hsorted.2.2 o.now (List.mem_map_of_mem ho) now (by simp [Op.now])
    · intro _
      exact Agree.init timeout
  exact hinvariant hclock

/-- What both caches show. -/
def shown (timeout : ℕ) (ops : List Op) (ip : Ipv4Addr) (now : ℤ) : Option MacAddress :=
  ((lastAdded ops ip).filter (Added.live timeout now)).map Added.mac

theorem Agree.lookup_c (h : Agree timeout ops c) (ip : Ipv4Addr) {now : ℤ}
    (hpast : Until now ops) : c.lookup ip.sAddr now = some (shown timeout ops ip now) := by
  obtain ⟨entries,hholds,hdistinct,htracks⟩ := h.list
  have hvisible := (htracks ip now hpast).visible (Added.live_final timeout) (le_refl now)
  rw [C.Cache.holds_lookup hholds,h.timeout_eq,hdistinct.find_live,shown,← hvisible,
    Option.filter_map,C.live_added,Option.map_map]
  rfl

theorem Agree.lookup_rust (h : Agree timeout ops c) (ip : Ipv4Addr) {now : ℤ}
    (hpast : Until now ops) :
    (ArpCache.run timeout ops).lookup ip (nanoseconds now) = shown timeout ops ip now := by
  obtain ⟨found,hfound,hmap⟩ := h.map
  have hvisible := (hmap ip now hpast).visible (Added.live_final timeout) (le_refl now)
  rw [ArpCache.lookup_eq,hfound,h.rust_timeout,shown,← hvisible,
    filter_fresh (hmap ip now hpast) hpast,Option.map_map]
  rfl

theorem shown_eq_some {ip : Ipv4Addr} {now : ℤ} {mac : MacAddress} :
    shown timeout ops ip now = some mac ↔
      ∃ d, lastAdded ops ip = some d ∧ d.mac = mac ∧ (d.isStatic = true ∨ now - d.time < timeout) := by
  simp only [shown,Option.map_eq_some_iff,Option.filter_eq_some_iff,Added.live,Bool.or_eq_true,
    decide_eq_true_eq]
  constructor
  · rintro ⟨d,⟨hlast,hlive⟩,hmac⟩
    exact ⟨d,hlast,hmac,hlive⟩
  · rintro ⟨d,hlast,hmac,hlive⟩
    exact ⟨d,⟨hlast,hlive⟩,hmac⟩

/-- A cleanup is not seen: the operations before it decide what is shown after it. -/
theorem shown_cleanup (ops : List Op) (cleaned : ℤ) (ip : Ipv4Addr) (now : ℤ) :
    shown timeout (ops ++ [.cleanup cleaned]) ip now = shown timeout ops ip now := by
  rw [shown,lastAdded_concat]
  rfl

theorem Agree.cleanup_unseen (h : Agree timeout ops c) {cleaned later : ℤ} (ip : Ipv4Addr)
    (hpast : Until cleaned ops) (hlater : cleaned ≤ later) :
    (c.cleanup cleaned).bind (fun c' => c'.lookup ip.sAddr later) = c.lookup ip.sAddr later ∧
      ((ArpCache.run timeout ops).cleanup (nanoseconds cleaned)).lookup ip (nanoseconds later) =
        (ArpCache.run timeout ops).lookup ip (nanoseconds later) := by
  obtain ⟨entries,hholds,-⟩ := h.list
  obtain ⟨c',hc',-⟩ := C.Cache.holds_cleanup hholds cleaned
  have hafter : Agree timeout (ops ++ [.cleanup cleaned]) c' := agree_cleanup hc' hpast h
  have hbefore : Until later ops := fun op hop => (hpast op hop).trans hlater
  have huntil : Until later (ops ++ [.cleanup cleaned]) := by
    intro op hop
    obtain hop | hop := List.mem_append.mp hop
    · exact hbefore op hop
    · rw [List.mem_singleton.mp hop]
      exact hlater
  constructor
  · rw [hc',Option.bind_some,hafter.lookup_c ip huntil,h.lookup_c ip hbefore,shown_cleanup]
  · have hrust := hafter.lookup_rust ip huntil
    rw [run_concat,shown_cleanup] at hrust
    exact hrust.trans (h.lookup_rust ip hbefore).symm

/-- The operations of the C cache do not fail, unless `malloc` returns an allocated address. -/
theorem Agree.step_isSome (h : Agree timeout ops c) (op : Op) :
    (c.step op).isSome ∨
      ∃ ip mac isStatic now address, op = .add ip mac isStatic now address ∧ address ∈ c.memory := by
  obtain ⟨entries,hholds,-⟩ := h.list
  cases op with
  | add ip mac isStatic now address =>
    obtain ⟨c',hc',-⟩ | ⟨haddress,-⟩ :=
      C.Cache.holds_add hholds ip.sAddr mac isStatic now address
    · exact .inl (by rw [C.Cache.step,hc']; rfl)
    · exact .inr ⟨ip,mac,isStatic,now,address,rfl,haddress⟩
  | cleanup now =>
    obtain ⟨c',hc',-⟩ := C.Cache.holds_cleanup hholds now
    exact .inl (by rw [C.Cache.step,hc']; rfl)

/-- After the same operations on a shared clock the C list and the Rust map show the same: the last
entry added, if it is static or younger than the timeout. The list has one entry for an address,
cleanups are not seen, and no operation of the C code fails. -/
theorem arpCaches_agree (hclock : (ops.map Op.now).Pairwise (· ≤ ·))
    (hrun : C.Cache.run timeout ops = some c) :
    (∀ ip now, Until now ops →
      c.lookup ip.sAddr now = some ((ArpCache.run timeout ops).lookup ip (nanoseconds now)) ∧
      ∀ mac, (ArpCache.run timeout ops).lookup ip (nanoseconds now) = some mac ↔
        ∃ d, lastAdded ops ip = some d ∧ d.mac = mac ∧
          (d.isStatic = true ∨ now - d.time < timeout)) ∧
    (∃ entries, c.Holds entries ∧ C.Distinct entries) ∧
    (∀ ip cleaned later, Until cleaned ops → cleaned ≤ later →
      (c.cleanup cleaned).bind (fun c' => c'.lookup ip.sAddr later) = c.lookup ip.sAddr later ∧
      ((ArpCache.run timeout ops).cleanup (nanoseconds cleaned)).lookup ip (nanoseconds later) =
        (ArpCache.run timeout ops).lookup ip (nanoseconds later)) ∧
    ∀ op, (c.step op).isSome ∨
      ∃ ip mac isStatic now address, op = .add ip mac isStatic now address ∧ address ∈ c.memory := by
  have h := agree_run hclock hrun
  obtain ⟨entries,hholds,hdistinct,-⟩ := h.list
  refine ⟨?_,⟨entries,hholds,hdistinct⟩,
    fun ip cleaned later hpast hlater => h.cleanup_unseen ip hpast hlater,h.step_isSome⟩
  intro ip now hpast
  rw [h.lookup_c ip hpast,h.lookup_rust ip hpast]
  exact ⟨rfl,fun mac => shown_eq_some⟩

theorem arpCaches_agree_updateAndCleanup :
    ∃ c, C.Cache.run 60 [.add ⟨#v[10,0,0,1]⟩ ⟨#v[2,0,0,0,0,1]⟩ 0 0 100,
        .add ⟨#v[10,0,0,2]⟩ ⟨#v[2,0,0,0,0,2]⟩ 0 5 101,
        .add ⟨#v[10,0,0,1]⟩ ⟨#v[2,0,0,0,0,3]⟩ 1 10 102,.cleanup 65] = some c ∧
      c.memory.keys = [100] ∧
      c.lookup (Ipv4Addr.sAddr ⟨#v[10,0,0,1]⟩) 1000 =
        some ((ArpCache.run 60 [.add ⟨#v[10,0,0,1]⟩ ⟨#v[2,0,0,0,0,1]⟩ 0 0 100,
          .add ⟨#v[10,0,0,2]⟩ ⟨#v[2,0,0,0,0,2]⟩ 0 5 101,
          .add ⟨#v[10,0,0,1]⟩ ⟨#v[2,0,0,0,0,3]⟩ 1 10 102,.cleanup 65]).lookup
            ⟨#v[10,0,0,1]⟩ (nanoseconds 1000)) := by
  have hkeys : (C.Cache.run 60 [.add ⟨#v[10,0,0,1]⟩ ⟨#v[2,0,0,0,0,1]⟩ 0 0 100,
      .add ⟨#v[10,0,0,2]⟩ ⟨#v[2,0,0,0,0,2]⟩ 0 5 101,
      .add ⟨#v[10,0,0,1]⟩ ⟨#v[2,0,0,0,0,3]⟩ 1 10 102,.cleanup 65]).map
        (fun c => c.memory.keys) = some [100] := by decide +kernel
  obtain ⟨c,hc,hmemory⟩ := Option.map_eq_some_iff.mp hkeys
  have hagree := arpCaches_agree (by decide +kernel) hc
  exact ⟨c,hc,hmemory,(hagree.1 _ 1000 (by unfold Until; decide +kernel)).1⟩

end Arp
end UProtocols
