import UProtocols.ArpCache
import UProtocols.ListSegment

/-!
# The ARP cache in C

`arp_cache_t` of `arp_implementation.c`: a singly linked list of entries in memory. Reading a
cell that is not allocated is undefined and gives `none`. A loop runs for at most one more
iteration than there are cells, which is enough for every list.
-/

namespace UProtocols
namespace Arp
namespace C

open ListSegment

structure Entry where
  ipAddr : UInt32
  macAddr : MacAddress
  timestamp : ℤ
  isStatic : ℤ
  deriving DecidableEq

structure Cache where
  memory : Memory Entry
  head : Option ℕ
  timeoutSeconds : ℤ
  deriving DecidableEq

/-- The loop of `arp_cache_add`: the memory with the entry updated, or `none` when the list has no
entry for `ip`. -/
def addLoop (mem : Memory Entry) (ip : UInt32) (mac : MacAddress) (isStatic now : ℤ) :
    ℕ → Option ℕ → Option (Option (Memory Entry))
  | 0, _ => none
  | _ + 1, none => some none
  | fuel + 1, some current =>
    (mem.lookup current).bind fun cell =>
      if cell.value.ipAddr = ip then
        some (some (mem.insert current {cell with
          value := {cell.value with macAddr := mac,timestamp := now,isStatic := isStatic}}))
      else addLoop mem ip mac isStatic now fuel cell.next

def lookupLoop (mem : Memory Entry) (timeout : ℤ) (ip : UInt32) (now : ℤ) :
    ℕ → Option ℕ → Option (Option MacAddress)
  | 0, _ => none
  | _ + 1, none => some none
  | fuel + 1, some current =>
    (mem.lookup current).bind fun cell =>
      if cell.value.ipAddr = ip ∧
          (cell.value.isStatic ≠ 0 ∨ now - cell.value.timestamp < timeout) then
        some (some cell.value.macAddr)
      else lookupLoop mem timeout ip now fuel cell.next

def cleanupLoop (timeout now : ℤ) :
    ℕ → Memory Entry → Option ℕ → Option ℕ → Option ℕ → Option (Memory Entry × Option ℕ)
  | 0, _, _, _, _ => none
  | _ + 1, mem, head, _, none => some (mem,head)
  | fuel + 1, mem, head, prev, some current =>
    (mem.lookup current).bind fun cell =>
      if cell.value.isStatic = 0 ∧ now - cell.value.timestamp ≥ timeout then
        match prev with
        | some before =>
          (mem.lookup before).bind fun cell' =>
            cleanupLoop timeout now fuel
              ((mem.insert before {cell' with next := cell.next}).erase current)
              head prev cell.next
        | none => cleanupLoop timeout now fuel (mem.erase current) cell.next none cell.next
      else cleanupLoop timeout now fuel mem head (some current) cell.next

namespace Cache

def init (timeout : ℤ) : Cache := ⟨∅,none,timeout⟩

/-- More iterations than the list can have cells. -/
def fuel (c : Cache) : ℕ := c.memory.keys.length + 1

/-- `address` is what `malloc` returns, which is not allocated. -/
def add (c : Cache) (ip : UInt32) (mac : MacAddress) (isStatic now : ℤ) (address : ℕ) :
    Option Cache :=
  (addLoop c.memory ip mac isStatic now c.fuel c.head).bind fun updated =>
    match updated with
    | some memory => some {c with memory := memory}
    | none =>
      if address ∈ c.memory then none
      else some {c with
        memory := c.memory.insert address ⟨⟨ip,mac,now,isStatic⟩,c.head⟩
        head := some address}

def lookup (c : Cache) (ip : UInt32) (now : ℤ) : Option (Option MacAddress) :=
  lookupLoop c.memory c.timeoutSeconds ip now c.fuel c.head

def cleanup (c : Cache) (now : ℤ) : Option Cache :=
  (cleanupLoop c.timeoutSeconds now c.fuel c.memory c.head none c.head).map fun result =>
    {c with memory := result.1,head := result.2}

end Cache

/-! ## The list as a sequence of entries -/

/-- The entry is returned by lookups and kept by cleanups. -/
def Entry.live (timeout now : ℤ) (e : Entry) : Bool :=
  e.isStatic ≠ 0 ∨ now - e.timestamp < timeout

/-- The test of `arp_cache_cleanup` is the negation of that of `arp_cache_lookup`. -/
theorem Entry.expired_iff {timeout now : ℤ} {e : Entry} :
    (e.isStatic = 0 ∧ now - e.timestamp ≥ timeout) ↔ ¬ e.live timeout now = true := by
  simp [Entry.live]

/-- The first entry with the address of `e` is replaced. -/
def setFirst (e : Entry) : List Entry → Option (List Entry)
  | [] => none
  | x::entries => if x.ipAddr = e.ipAddr then some (e::entries) else (setFirst e entries).map (x::·)

def put (e : Entry) (entries : List Entry) : List Entry := (setFirst e entries).getD (e::entries)

/-- The list in memory holds the entries, in distinct cells. -/
def Cache.Holds (c : Cache) (entries : List Entry) : Prop :=
  ∃ cells, Seg c.memory c.head cells none ∧ (addresses cells).Nodup ∧
    cells.map Prod.snd = entries

variable {mem : Memory Entry} {p : Option ℕ} {cells : List (ℕ × Entry)} {fuel : ℕ}

theorem addLoop_cases (ip : UInt32) (mac : MacAddress) (isStatic now : ℤ)
    (h : Seg mem p cells none) (hfuel : cells.length < fuel) :
    (setFirst ⟨ip,mac,now,isStatic⟩ (cells.map Prod.snd) = none ∧
      addLoop mem ip mac isStatic now fuel p = some none) ∨
    ∃ before a v after next, cells = before ++ (a,v)::after ∧ mem.lookup a = some ⟨v,next⟩ ∧
      setFirst ⟨ip,mac,now,isStatic⟩ (cells.map Prod.snd) =
        some ((before ++ (a,⟨ip,mac,now,isStatic⟩)::after).map Prod.snd) ∧
      addLoop mem ip mac isStatic now fuel p =
        some (some (mem.insert a ⟨⟨ip,mac,now,isStatic⟩,next⟩)) := by
  induction cells generalizing p fuel with
  | nil =>
    obtain ⟨fuel,rfl⟩ := Nat.exists_eq_add_one.mpr hfuel
    cases h
    exact .inl ⟨rfl,rfl⟩
  | cons cell cells ih =>
    obtain ⟨a,v⟩ := cell
    obtain ⟨rfl,next,hcell,hrest⟩ := h
    obtain ⟨fuel,rfl⟩ := Nat.exists_eq_add_one.mpr (Nat.zero_lt_of_lt hfuel)
    by_cases hip : v.ipAddr = ip
    · refine .inr ⟨[],a,v,cells,next,rfl,hcell,?_,?_⟩
      · simp [setFirst,hip]
      · simp [addLoop,hcell,hip]
    · have hskip : addLoop mem ip mac isStatic now (fuel + 1) (some a) =
          addLoop mem ip mac isStatic now fuel next := by
        simp [addLoop,hcell,hip]
      have hfirst : setFirst ⟨ip,mac,now,isStatic⟩ (((a,v)::cells).map Prod.snd) =
          (setFirst ⟨ip,mac,now,isStatic⟩ (cells.map Prod.snd)).map (v::·) := by
        simp [setFirst,hip]
      rw [hskip,hfirst]
      obtain ⟨hnone,hloop⟩ | ⟨before,b,w,after,next',rfl,hb,hset,hloop⟩ :=
        ih hrest (Nat.lt_of_succ_lt_succ hfuel)
      · exact .inl ⟨by rw [hnone]; rfl,hloop⟩
      · exact .inr ⟨(a,v)::before,b,w,after,next',rfl,hb,by rw [hset]; rfl,hloop⟩

theorem lookupLoop_eq (timeout now : ℤ) (ip : UInt32) (h : Seg mem p cells none)
    (hfuel : cells.length < fuel) :
    lookupLoop mem timeout ip now fuel p =
      some (((cells.map Prod.snd).find? fun e => e.ipAddr = ip ∧ e.live timeout now).map
        (·.macAddr)) := by
  induction cells generalizing p fuel with
  | nil =>
    obtain ⟨fuel,rfl⟩ := Nat.exists_eq_add_one.mpr hfuel
    cases h
    rfl
  | cons cell cells ih =>
    obtain ⟨a,v⟩ := cell
    obtain ⟨rfl,next,hcell,hrest⟩ := h
    obtain ⟨fuel,rfl⟩ := Nat.exists_eq_add_one.mpr (Nat.zero_lt_of_lt hfuel)
    have hrest' := ih hrest (Nat.lt_of_succ_lt_succ hfuel)
    by_cases hfound : v.ipAddr = ip ∧ (v.isStatic ≠ 0 ∨ now - v.timestamp < timeout)
    · simp [lookupLoop,hcell,hfound,Entry.live]
    · have hskip : lookupLoop mem timeout ip now (fuel + 1) (some a) =
          lookupLoop mem timeout ip now fuel next := by
        simp [lookupLoop,hcell,hfound]
      have hnot : ¬ (v.ipAddr = ip ∧ v.live timeout now = true) := by
        simpa [Entry.live] using hfound
      rw [hskip,hrest',List.map_cons,List.find?_cons_of_neg (by simpa using hnot)]

/-- Cells before `p` have been kept; the last of them is `prev`. -/
theorem cleanupLoop_spec (timeout now : ℤ) {head prev : Option ℕ} {kept : List (ℕ × Entry)}
    (h : Seg mem head (kept ++ cells) none) (hnodup : (addresses (kept ++ cells)).Nodup)
    (hprev : prev = (addresses kept).getLast?) (hp : p = (addresses cells).head?)
    (hfuel : cells.length < fuel) :
    ∃ mem' head', cleanupLoop timeout now fuel mem head prev p = some (mem',head') ∧
      Seg mem' head' (kept ++ cells.filter fun cell => cell.2.live timeout now) none := by
  induction cells generalizing mem head prev p kept fuel with
  | nil =>
    obtain ⟨fuel,rfl⟩ := Nat.exists_eq_add_one.mpr hfuel
    subst hp
    exact ⟨mem,head,rfl,h⟩
  | cons cell cells ih =>
    obtain ⟨a,v⟩ := cell
    obtain ⟨fuel,rfl⟩ := Nat.exists_eq_add_one.mpr (Nat.zero_lt_of_lt hfuel)
    subst hp
    obtain ⟨_,hkept,rfl,next,hcell,hrest⟩ := seg_append.mp h
    have hnext := hrest.eq_head
    have hfuel' := Nat.lt_of_succ_lt_succ hfuel
    by_cases hlive : v.live timeout now = true
    · have hkeep : ¬ (v.isStatic = 0 ∧ now - v.timestamp ≥ timeout) := by
        rw [Entry.expired_iff]
        exact fun hnot => hnot hlive
      have hstep : cleanupLoop timeout now (fuel + 1) mem head prev (some a) =
          cleanupLoop timeout now fuel mem head (some a) next := by
        rw [cleanupLoop,hcell,Option.bind_some,if_neg hkeep]
      have hsplit : kept ++ (a,v)::cells = (kept ++ [(a,v)]) ++ cells := by simp
      have hlast : some a = (addresses (kept ++ [(a,v)])).getLast? := by simp [addresses]
      rw [hsplit] at h hnodup
      obtain ⟨mem',head',hloop,hseg⟩ := ih h hnodup hlast hnext hfuel'
      refine ⟨mem',head',hstep.trans hloop,?_⟩
      simpa [hlive] using hseg
    · have hexpired := Entry.expired_iff.mpr hlive
      have hfilter : ((a,v)::cells).filter (fun cell => cell.2.live timeout now) =
          cells.filter fun cell => cell.2.live timeout now := by
        simp [hlive]
      rw [hfilter]
      obtain rfl | ⟨first,⟨b,w⟩,rfl⟩ := kept.eq_nil_or_concat'
      · -- nothing was kept, so the list starts after the cell
        subst hprev
        have hstep : cleanupLoop timeout now (fuel + 1) mem head none (some a) =
            cleanupLoop timeout now fuel (mem.erase a) next none next := by
          rw [cleanupLoop,hcell,Option.bind_some,if_pos hexpired]
        have hseg : Seg (mem.erase a) next ([] ++ cells) none := h.free_head hnodup hcell
        obtain ⟨mem',head',hloop,hseg'⟩ :=
          ih hseg (List.nodup_cons.mp hnodup).2 rfl hnext hfuel'
        exact ⟨mem',head',hstep.trans hloop,hseg'⟩
      · obtain ⟨_,-,rfl,_,hb,-⟩ := seg_append.mp hkept
        have hlast : some b = (addresses (first ++ [(b,w)])).getLast? := by simp [addresses]
        rw [hprev,← hlast]
        have hstep : cleanupLoop timeout now (fuel + 1) mem head (some b) (some a) =
            cleanupLoop timeout now fuel ((mem.insert b ⟨w,next⟩).erase a) head (some b) next := by
          rw [cleanupLoop,hcell,Option.bind_some,if_pos hexpired]
          simp only [hb,Option.bind_some]
        have hsplit : ∀ rest, first ++ [(b,w)] ++ rest = first ++ (b,w)::rest := by simp
        rw [hsplit] at h hnodup
        have hseg := h.unlink hnodup hcell
        have hnodup' : (addresses (first ++ (b,w)::cells)).Nodup := by
          refine List.Nodup.sublist ?_ hnodup
          simp [addresses]
        rw [← hsplit] at hseg hnodup'
        obtain ⟨mem',head',hloop,hseg'⟩ := ih hseg hnodup' hlast hnext hfuel'
        exact ⟨mem',head',hstep.trans hloop,hseg'⟩

/-! ## The operations on the sequence -/

namespace Cache

variable {c : Cache} {entries : List Entry}

theorem fuel_lt (h : Seg c.memory c.head cells none) (hnodup : (addresses cells).Nodup) :
    cells.length < c.fuel := Nat.lt_succ_of_le (h.length_le hnodup)

theorem holds_init (timeout : ℤ) : (init timeout).Holds [] := ⟨[],rfl,List.nodup_nil,rfl⟩

/-- The only way for `add` to fail is a `malloc` that returns an allocated address. -/
theorem holds_add (h : c.Holds entries) (ip : UInt32) (mac : MacAddress) (isStatic now : ℤ)
    (address : ℕ) :
    (∃ c', c.add ip mac isStatic now address = some c' ∧
      c'.Holds (put ⟨ip,mac,now,isStatic⟩ entries) ∧ c'.timeoutSeconds = c.timeoutSeconds) ∨
    address ∈ c.memory ∧ c.add ip mac isStatic now address = none := by
  obtain ⟨cells,hseg,hnodup,rfl⟩ := h
  obtain ⟨hnone,hloop⟩ | ⟨before,a,v,after,next,rfl,hcell,hset,hloop⟩ :=
    addLoop_cases ip mac isStatic now hseg (fuel_lt hseg hnodup)
  · by_cases haddress : address ∈ c.memory
    · exact .inr ⟨haddress,by simp only [add,hloop,Option.bind_some,if_pos haddress]⟩
    · have hadd : c.add ip mac isStatic now address = some {c with
          memory := c.memory.insert address ⟨⟨ip,mac,now,isStatic⟩,c.head⟩
          head := some address} := by
        simp only [add,hloop,Option.bind_some,if_neg haddress]
      refine .inl ⟨_,hadd,⟨(address,⟨ip,mac,now,isStatic⟩)::cells,hseg.push haddress,?_,?_⟩,rfl⟩
      · rw [addresses_cons,List.nodup_cons]
        exact ⟨fun hmem => haddress (hseg.mem_of_mem hmem),hnodup⟩
      · simp [put,hnone]
  · have hadd : c.add ip mac isStatic now address = some {c with
        memory := c.memory.insert a ⟨⟨ip,mac,now,isStatic⟩,next⟩} := by
      simp only [add,hloop,Option.bind_some]
    refine .inl ⟨_,hadd,⟨before ++ (a,⟨ip,mac,now,isStatic⟩)::after,hseg.write hnodup hcell,
      ?_,?_⟩,rfl⟩
    · simpa [addresses] using hnodup
    · rw [put,hset]
      rfl

theorem holds_lookup (h : c.Holds entries) (ip : UInt32) (now : ℤ) :
    c.lookup ip now =
      some ((entries.find? fun e => e.ipAddr = ip ∧ e.live c.timeoutSeconds now).map
        (·.macAddr)) := by
  obtain ⟨cells,hseg,hnodup,rfl⟩ := h
  exact lookupLoop_eq c.timeoutSeconds now ip hseg (fuel_lt hseg hnodup)

theorem holds_cleanup (h : c.Holds entries) (now : ℤ) :
    ∃ c', c.cleanup now = some c' ∧
      c'.Holds (entries.filter (Entry.live c.timeoutSeconds now)) ∧
      c'.timeoutSeconds = c.timeoutSeconds := by
  obtain ⟨cells,hseg,hnodup,rfl⟩ := h
  have hstart : Seg c.memory c.head ([] ++ cells) none := hseg
  obtain ⟨mem',head',hloop,hseg'⟩ := cleanupLoop_spec c.timeoutSeconds now hstart hnodup rfl
    hseg.eq_head (fuel_lt hseg hnodup)
  have hcleanup : c.cleanup now = some {c with memory := mem',head := head'} :=
    congrArg (Option.map _) hloop
  refine ⟨_,hcleanup,⟨_,hseg',?_,?_⟩,rfl⟩
  · exact List.Nodup.sublist (List.filter_sublist.map _) hnodup
  · simp [List.filter_map,Function.comp_def]

end Cache

end C
end Arp
end UProtocols
