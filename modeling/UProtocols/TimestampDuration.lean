import UProtocols.CheckedInt
import UProtocols.SplitNumbers
import Mathlib.Tactic.SplitIfs

/-!
# Timestamps and durations

The arithmetic of `timestamp_and_duration.rs` on the two Protobuf messages, each a 64-bit number
of seconds and a 32-bit number of nanoseconds. An operation that overflows has no result.
-/

namespace UProtocols
namespace TimestampDuration

open CheckedInt SplitNumbers

structure Timestamp where
  seconds : I64
  nanos : I32
  deriving DecidableEq

structure Duration where
  seconds : I64
  nanos : I32
  deriving DecidableEq

def one : I64 := ⟨1,by decide,by decide⟩

/-- 1_000_000_000 -/
def billion : I32 := ⟨1000000000,by decide,by decide⟩

/-- The two halves of a normalisation. -/
def carry (seconds : I64) (nanos : I32) : Option (I64 × I32) := do
  let seconds ← seconds.add one
  let nanos ← nanos.sub billion
  return (seconds,nanos)

def borrow (seconds : I64) (nanos : I32) : Option (I64 × I32) := do
  let seconds ← seconds.sub one
  let nanos ← nanos.add billion
  return (seconds,nanos)

def addDurationToTimestamp (timestamp : Timestamp) (duration : Duration) : Option Timestamp := do
  let seconds ← timestamp.seconds.add duration.seconds
  let nanos ← timestamp.nanos.add duration.nanos
  let (seconds,nanos) ←
    if nanos.val ≥ 1000000000 then carry seconds nanos
    else if nanos.val < 0 then borrow seconds nanos
    else some (seconds,nanos)
  return ⟨seconds,nanos⟩

def Duration.inverse (duration : Duration) : Option Duration := do
  let seconds ← duration.seconds.neg
  let nanos ← duration.nanos.neg
  return ⟨seconds,nanos⟩

def subtractDurationFromTimestamp (timestamp : Timestamp) (duration : Duration) :
    Option Timestamp := do
  let inverseDuration ← duration.inverse
  addDurationToTimestamp timestamp inverseDuration

def timestampDifference (t1 t2 : Timestamp) : Option Duration := do
  let seconds ← t1.seconds.sub t2.seconds
  let nanos ← t1.nanos.sub t2.nanos
  let (seconds,nanos) ← if nanos.val < 0 then borrow seconds nanos else some (seconds,nanos)
  return ⟨seconds,nanos⟩

/-- The carry of `add_durations`, in both directions. -/
def normalizeNanos (seconds : I64) (nanos : I32) : Option (I64 × I32) :=
  if nanos.val ≥ 1000000000 then carry seconds nanos
  else if nanos.val ≤ -1000000000 then borrow seconds nanos
  else some (seconds,nanos)

def ensureSameSign (seconds : I64) (nanos : I32) : Option (I64 × I32) :=
  if seconds.val > 0 ∧ nanos.val < 0 then borrow seconds nanos
  else if seconds.val < 0 ∧ nanos.val > 0 then carry seconds nanos
  else some (seconds,nanos)

def addDurations (d1 d2 : Duration) : Option Duration := do
  let seconds ← d1.seconds.add d2.seconds
  let nanos ← d1.nanos.add d2.nanos
  let (seconds,nanos) ← normalizeNanos seconds nanos
  let (seconds,nanos) ← ensureSameSign seconds nanos
  return ⟨seconds,nanos⟩

def subtractDurations (d1 d2 : Duration) : Option Duration := do
  let inverse ← d2.inverse
  addDurations d1 inverse

def compareDurations (d1 d2 : Duration) : ℤ :=
  if d1.seconds ≠ d2.seconds then
    if d1.seconds.val > d2.seconds.val then 1 else -1
  else if d1.nanos ≠ d2.nanos then
    if d1.nanos.val > d2.nanos.val then 1 else -1
  else 0

/-! ## Canonical forms -/

namespace Timestamp

def split (t : Timestamp) : Split := ⟨t.seconds.val,t.nanos.val⟩

/-- The nanoseconds since the epoch. -/
def total (t : Timestamp) : ℤ := t.split.total 1000000000

abbrev Normal (t : Timestamp) : Prop := t.split.Floor 1000000000

/-- From the year 1 to the year 9999. -/
structure Valid (t : Timestamp) : Prop extends t.Normal where
  first : -62135596800 ≤ t.seconds.val
  last : t.seconds.val ≤ 253402300799

end Timestamp

namespace Duration

def split (d : Duration) : Split := ⟨d.seconds.val,d.nanos.val⟩

def total (d : Duration) : ℤ := d.split.total 1000000000

/-- The nanoseconds have the sign of the seconds, or one of them is zero. -/
abbrev Canonical (d : Duration) : Prop := d.split.Signed 1000000000

/-- A valid Protobuf duration, within ten thousand years. -/
structure Valid (d : Duration) : Prop extends d.Canonical where
  lowest : -315576000000 ≤ d.seconds.val
  highest : d.seconds.val ≤ 315576000000

end Duration

variable {t t₀ t₁ t₂ : Timestamp} {d e : Duration}

theorem Timestamp.total_eq (t : Timestamp) :
    t.total = t.seconds.val * 1000000000 + t.nanos.val := rfl

theorem Duration.total_eq (d : Duration) :
    d.total = d.seconds.val * 1000000000 + d.nanos.val := rfl

theorem Timestamp.normal_iff : t.Normal ↔ 0 ≤ t.nanos.val ∧ t.nanos.val < 1000000000 :=
  ⟨fun h => ⟨h.nonneg,h.lt⟩,fun h => ⟨h.1,h.2⟩⟩

theorem Duration.canonical_iff : d.Canonical ↔
    -1000000000 < d.nanos.val ∧ d.nanos.val < 1000000000 ∧
      (0 < d.seconds.val → 0 ≤ d.nanos.val) ∧ (d.seconds.val < 0 → d.nanos.val ≤ 0) :=
  ⟨fun h => ⟨h.gt,h.lt,h.of_pos,h.of_neg⟩,fun h => ⟨h.1,h.2.1,h.2.2.1,h.2.2.2⟩⟩

/-- A moment has one normal timestamp. -/
theorem Timestamp.Normal.eq (h₁ : t₁.Normal) (h₂ : t₂.Normal) (h : t₁.total = t₂.total) :
    t₁ = t₂ := by
  have hsplit : t₁.split = t₂.split :=
    Split.eq_of_total_eq (by decide) (h₁.follows h₂) (h₂.follows h₁) h
  obtain ⟨s,n⟩ := t₁
  obtain ⟨s',n'⟩ := t₂
  have hseconds : s = s' := Signed.ext (congrArg Split.whole hsplit)
  have hnanos : n = n' := Signed.ext (congrArg Split.part hsplit)
  rw [hseconds,hnanos]

/-! ## Normalisation -/

theorem carry_eq (seconds : I64) (nanos : I32) (hseconds : seconds.val < 9223372036854775807)
    (hnanos : 0 ≤ nanos.val) :
    ∃ s n, carry seconds nanos = some (s,n) ∧ s.val = seconds.val + 1 ∧
      n.val = nanos.val - 1000000000 := by
  have hge := seconds.ge
  have hlt := nanos.lt
  have hone : one.val = 1 := rfl
  have hbillion : billion.val = 1000000000 := rfl
  obtain ⟨s,hs,hsval⟩ := seconds.exists_add one (by omega) (by omega)
  obtain ⟨n,hn,hnval⟩ := nanos.exists_sub billion (by omega) (by omega)
  refine ⟨s,n,?_,hsval,hnval⟩
  rw [carry,hs,hn]
  rfl

theorem borrow_eq (seconds : I64) (nanos : I32) (hseconds : -9223372036854775808 < seconds.val)
    (hnanos : nanos.val ≤ 0) :
    ∃ s n, borrow seconds nanos = some (s,n) ∧ s.val = seconds.val - 1 ∧
      n.val = nanos.val + 1000000000 := by
  have hlt := seconds.lt
  have hge := nanos.ge
  have hone : one.val = 1 := rfl
  have hbillion : billion.val = 1000000000 := rfl
  obtain ⟨s,hs,hsval⟩ := seconds.exists_sub one (by omega) (by omega)
  obtain ⟨n,hn,hnval⟩ := nanos.exists_add billion (by omega) (by omega)
  refine ⟨s,n,?_,hsval,hnval⟩
  rw [borrow,hs,hn]
  rfl

/-- The sum of a timestamp and any duration of a normal size. -/
theorem addDurationToTimestamp_eq (ht : t.Normal) (hgt : -1000000000 < d.nanos.val)
    (hlt : d.nanos.val < 1000000000)
    (hlow : -9223372036854775808 < t.seconds.val + d.seconds.val)
    (hhigh : t.seconds.val + d.seconds.val < 9223372036854775807) :
    ∃ r, addDurationToTimestamp t d = some r ∧ r.Normal ∧ r.total = t.total + d.total := by
  obtain ⟨hnonneg,hnanos⟩ := Timestamp.normal_iff.mp ht
  obtain ⟨s,hs,hsval⟩ := t.seconds.exists_add d.seconds (by omega) (by omega)
  obtain ⟨n,hn,hnval⟩ := t.nanos.exists_add d.nanos (by omega) (by omega)
  simp only [addDurationToTimestamp,hs,hn,Option.bind_eq_bind,Option.bind_some,
    Timestamp.normal_iff,Timestamp.total_eq,Duration.total_eq]
  by_cases hcarry : n.val ≥ 1000000000
  · obtain ⟨s',n',heq,hs',hn'⟩ := carry_eq s n (by omega) (by omega)
    simp only [if_pos hcarry,heq,Option.bind_some]
    refine ⟨⟨s',n'⟩,rfl,?_⟩
    dsimp only
    omega
  · rw [if_neg hcarry]
    by_cases hborrow : n.val < 0
    · obtain ⟨s',n',heq,hs',hn'⟩ := borrow_eq s n (by omega) (by omega)
      simp only [if_pos hborrow,heq,Option.bind_some]
      refine ⟨⟨s',n'⟩,rfl,?_⟩
      dsimp only
      omega
    · rw [if_neg hborrow]
      refine ⟨⟨s,n⟩,rfl,?_⟩
      dsimp only
      omega

theorem inverse_eq (hseconds : -9223372036854775808 < d.seconds.val)
    (hnanos : -2147483648 < d.nanos.val) :
    ∃ e, d.inverse = some e ∧ e.seconds.val = -d.seconds.val ∧ e.nanos.val = -d.nanos.val := by
  obtain ⟨s,hs,hsval⟩ := d.seconds.exists_neg hseconds
  obtain ⟨n,hn,hnval⟩ := d.nanos.exists_neg hnanos
  refine ⟨⟨s,n⟩,?_,hsval,hnval⟩
  rw [Duration.inverse,hs,hn]
  rfl

/-- The difference has the fraction of a timestamp, not that of a duration. -/
theorem timestampDifference_eq (h₁ : t₁.Normal) (h₂ : t₂.Normal)
    (hlow : -9223372036854775808 < t₁.seconds.val - t₂.seconds.val)
    (hhigh : t₁.seconds.val - t₂.seconds.val < 9223372036854775808) :
    ∃ r, timestampDifference t₁ t₂ = some r ∧ 0 ≤ r.nanos.val ∧ r.nanos.val < 1000000000 ∧
      r.total = t₁.total - t₂.total := by
  obtain ⟨hnonneg₁,hnanos₁⟩ := Timestamp.normal_iff.mp h₁
  obtain ⟨hnonneg₂,hnanos₂⟩ := Timestamp.normal_iff.mp h₂
  obtain ⟨s,hs,hsval⟩ := t₁.seconds.exists_sub t₂.seconds (by omega) (by omega)
  obtain ⟨n,hn,hnval⟩ := t₁.nanos.exists_sub t₂.nanos (by omega) (by omega)
  simp only [timestampDifference,hs,hn,Option.bind_eq_bind,Option.bind_some,
    Timestamp.total_eq,Duration.total_eq]
  by_cases hborrow : n.val < 0
  · obtain ⟨s',n',heq,hs',hn'⟩ := borrow_eq s n (by omega) (by omega)
    simp only [if_pos hborrow,heq,Option.bind_some]
    refine ⟨⟨s',n'⟩,rfl,?_⟩
    dsimp only
    omega
  · rw [if_neg hborrow]
    refine ⟨⟨s,n⟩,rfl,?_⟩
    dsimp only
    omega

/-- Subtracting takes the timestamp back by as much. -/
theorem subtractDurationFromTimestamp_eq (ht : t.Normal) (hgt : -1000000000 < d.nanos.val)
    (hlt : d.nanos.val < 1000000000) (hseconds : -9223372036854775808 < d.seconds.val)
    (hlow : -9223372036854775808 < t.seconds.val - d.seconds.val)
    (hhigh : t.seconds.val - d.seconds.val < 9223372036854775807) :
    ∃ r, subtractDurationFromTimestamp t d = some r ∧ r.Normal ∧
      r.total = t.total - d.total := by
  obtain ⟨e,he,hs,hn⟩ := inverse_eq hseconds (by omega)
  obtain ⟨r,hr,hnormal,htotal⟩ := addDurationToTimestamp_eq (d := e) ht (by omega) (by omega)
    (by omega) (by omega)
  refine ⟨r,?_,hnormal,?_⟩
  · rw [subtractDurationFromTimestamp,he]
    exact hr
  · rw [Duration.total_eq] at htotal ⊢
    omega

/-- Timestamps and durations of Protobuf: the sum is exact, and it is undone by subtracting the
duration; the difference of two timestamps leads from one to the other. -/
theorem timestamp_arithmetic_exact (ht : t.Valid) (hd : d.Valid) (h₁ : t₁.Valid) (h₂ : t₂.Valid) :
    (∃ sum, addDurationToTimestamp t d = some sum ∧ sum.Normal ∧
        sum.total = t.total + d.total ∧ subtractDurationFromTimestamp sum d = some t) ∧
      ∃ difference, timestampDifference t₁ t₂ = some difference ∧
        addDurationToTimestamp t₂ difference = some t₁ := by
  obtain ⟨hgt,hlt,-,-⟩ := Duration.canonical_iff.mp hd.toSigned
  have hlowest := hd.lowest
  have hhighest := hd.highest
  constructor
  · have hfirst := ht.first
    have hlast := ht.last
    obtain ⟨sum,hsum,hnormal,htotal⟩ := addDurationToTimestamp_eq ht.toFloor hgt hlt
      (by omega) (by omega)
    have hnanos := Timestamp.normal_iff.mp ht.toFloor
    have hnanos' := Timestamp.normal_iff.mp hnormal
    have hseconds := htotal
    rw [Timestamp.total_eq,Timestamp.total_eq,Duration.total_eq] at hseconds
    obtain ⟨back,hback,hnormal',htotal'⟩ := subtractDurationFromTimestamp_eq (d := d) hnormal hgt
      hlt (by omega) (by omega) (by omega)
    have heq : back = t := hnormal'.eq ht.toFloor (by omega)
    exact ⟨sum,hsum,hnormal,htotal,heq ▸ hback⟩
  · have hfirst₁ := h₁.first
    have hlast₁ := h₁.last
    have hfirst₂ := h₂.first
    have hlast₂ := h₂.last
    obtain ⟨difference,hdifference,hge,hlt',htotal⟩ := timestampDifference_eq h₁.toFloor h₂.toFloor
      (by omega) (by omega)
    have hnanos₁ := Timestamp.normal_iff.mp h₁.toFloor
    have hnanos₂ := Timestamp.normal_iff.mp h₂.toFloor
    have hseconds := htotal
    rw [Timestamp.total_eq,Timestamp.total_eq,Duration.total_eq] at hseconds
    obtain ⟨r,hr,hnormal,htotal'⟩ := addDurationToTimestamp_eq (d := difference) h₂.toFloor
      (by omega) hlt' (by omega) (by omega)
    have heq : r = t₁ := hnormal.eq h₁.toFloor (by omega)
    exact ⟨difference,hdifference,heq ▸ hr⟩

def moment : Timestamp := ⟨⟨0,by decide,by decide⟩,⟨800000000,by decide,by decide⟩⟩

theorem moment_valid : moment.Valid :=
  ⟨Timestamp.normal_iff.mpr (by decide),by decide,by decide⟩

def later : Timestamp := ⟨⟨1,by decide,by decide⟩,⟨900000000,by decide,by decide⟩⟩

theorem later_valid : later.Valid :=
  ⟨Timestamp.normal_iff.mpr (by decide),by decide,by decide⟩

def shorter : Duration := ⟨⟨1,by decide,by decide⟩,⟨700000000,by decide,by decide⟩⟩

theorem shorter_valid : shorter.Valid :=
  ⟨Duration.canonical_iff.mpr (by decide),by decide,by decide⟩

/-- The sum has a carry, and the difference goes back. -/
theorem timestamp_arithmetic_exact_witness :
    (∃ sum, addDurationToTimestamp moment shorter = some sum ∧ sum.total = 2500000000) ∧
    ∃ difference, timestampDifference moment later = some difference ∧
      addDurationToTimestamp later difference = some moment := by
  obtain ⟨⟨sum,hsum,-,htotal,-⟩,hdifference⟩ :=
    timestamp_arithmetic_exact moment_valid shorter_valid moment_valid later_valid
  exact ⟨⟨sum,hsum,htotal⟩,hdifference⟩

/-! ## Durations -/

theorem normalizeNanos_eq (seconds : I64) (nanos : I32)
    (hlow : -9223372036854775808 < seconds.val) (hhigh : seconds.val < 9223372036854775807)
    (hgt : -2000000000 < nanos.val) (hlt : nanos.val < 2000000000) :
    ∃ s n, normalizeNanos seconds nanos = some (s,n) ∧ -1000000000 < n.val ∧
      n.val < 1000000000 ∧
      s.val * 1000000000 + n.val = seconds.val * 1000000000 + nanos.val := by
  rw [normalizeNanos]
  by_cases hcarry : nanos.val ≥ 1000000000
  · obtain ⟨s,n,heq,hs,hn⟩ := carry_eq seconds nanos (by omega) (by omega)
    rw [if_pos hcarry]
    exact ⟨s,n,heq,by omega,by omega,by omega⟩
  · rw [if_neg hcarry]
    by_cases hborrow : nanos.val ≤ -1000000000
    · obtain ⟨s,n,heq,hs,hn⟩ := borrow_eq seconds nanos (by omega) (by omega)
      rw [if_pos hborrow]
      exact ⟨s,n,heq,by omega,by omega,by omega⟩
    · rw [if_neg hborrow]
      exact ⟨seconds,nanos,rfl,by omega,by omega,rfl⟩

/-- The repair of the sign keeps a fraction small. -/
theorem ensureSameSign_eq (seconds : I64) (nanos : I32) (hgt : -1000000000 < nanos.val)
    (hlt : nanos.val < 1000000000) :
    ∃ s n, ensureSameSign seconds nanos = some (s,n) ∧ (⟨s,n⟩ : Duration).Canonical ∧
      s.val * 1000000000 + n.val = seconds.val * 1000000000 + nanos.val := by
  simp only [ensureSameSign,Duration.canonical_iff]
  by_cases hborrow : seconds.val > 0 ∧ nanos.val < 0
  · obtain ⟨s,n,heq,hs,hn⟩ := borrow_eq seconds nanos (by omega) (by omega)
    rw [if_pos hborrow]
    exact ⟨s,n,heq,by omega,by omega⟩
  · rw [if_neg hborrow]
    by_cases hcarry : seconds.val < 0 ∧ nanos.val > 0
    · obtain ⟨s,n,heq,hs,hn⟩ := carry_eq seconds nanos (by omega) (by omega)
      rw [if_pos hcarry]
      exact ⟨s,n,heq,by omega,by omega⟩
    · rw [if_neg hcarry]
      exact ⟨seconds,nanos,rfl,by omega,rfl⟩

theorem addDurations_eq (hd : d.Canonical) (he : e.Canonical)
    (hlow : -9223372036854775808 < d.seconds.val + e.seconds.val)
    (hhigh : d.seconds.val + e.seconds.val < 9223372036854775807) :
    ∃ r, addDurations d e = some r ∧ r.Canonical ∧ r.total = d.total + e.total := by
  obtain ⟨hgt,hlt,-,-⟩ := Duration.canonical_iff.mp hd
  obtain ⟨hgt',hlt',-,-⟩ := Duration.canonical_iff.mp he
  obtain ⟨s,hs,hsval⟩ := d.seconds.exists_add e.seconds (by omega) (by omega)
  obtain ⟨n,hn,hnval⟩ := d.nanos.exists_add e.nanos (by omega) (by omega)
  obtain ⟨s',n',hnormal,hsmall,hsmall',htotal⟩ := normalizeNanos_eq s n (by omega) (by omega)
    (by omega) (by omega)
  obtain ⟨s'',n'',hsign,hcanonical,htotal'⟩ := ensureSameSign_eq s' n' hsmall hsmall'
  refine ⟨⟨s'',n''⟩,?_,hcanonical,?_⟩
  · simp only [addDurations,hs,hn,hnormal,hsign,Option.bind_eq_bind,Option.bind_some]
    rfl
  · simp only [Duration.total_eq]
    omega

/-- Subtracting adds the inverse, which is canonical as well. -/
theorem subtractDurations_eq (hd : d.Canonical) (he : e.Canonical)
    (hseconds : -9223372036854775808 < e.seconds.val)
    (hlow : -9223372036854775808 < d.seconds.val - e.seconds.val)
    (hhigh : d.seconds.val - e.seconds.val < 9223372036854775807) :
    ∃ r, subtractDurations d e = some r ∧ r.Canonical ∧ r.total = d.total - e.total := by
  have hcanonical := Duration.canonical_iff.mp he
  obtain ⟨i,hi,hs,hn⟩ := inverse_eq hseconds (by omega)
  have hinverse : i.Canonical := Duration.canonical_iff.mpr (by omega)
  obtain ⟨r,hr,hresult,htotal⟩ := addDurations_eq hd hinverse (by omega) (by omega)
  refine ⟨r,?_,hresult,?_⟩
  · rw [subtractDurations,hi]
    exact hr
  · rw [htotal,Duration.total_eq i,Duration.total_eq e]
    omega

/-- Where the fractions are of the same kind, the comparison is that of the numbers. -/
theorem compareDurations_eq (hde : Split.Follows 1000000000 d.split e.split)
    (hed : Split.Follows 1000000000 e.split d.split) :
    compareDurations d e = (d.total - e.total).sign := by
  have hlt : d.total < e.total ↔ _ := Split.total_lt_iff (by decide) hde hed
  have hgt : e.total < d.total ↔ _ := Split.total_lt_iff (by decide) hed hde
  simp only [Duration.split] at hlt hgt
  have hseconds : d.seconds = e.seconds ↔ d.seconds.val = e.seconds.val :=
    ⟨congrArg Signed.val,Signed.ext⟩
  have hnanos : d.nanos = e.nanos ↔ d.nanos.val = e.nanos.val :=
    ⟨congrArg Signed.val,Signed.ext⟩
  simp only [compareDurations,ne_eq,hseconds,hnanos]
  rcases Int.lt_trichotomy d.total e.total with h | h | h
  · rw [Int.sign_eq_neg_one_of_neg (by omega)]
    have hless := hlt.mp h
    split_ifs <;> omega
  · rw [h,Int.sub_self,Int.sign_zero]
    split_ifs <;> omega
  · rw [Int.sign_eq_one_of_pos (by omega)]
    have hless := hgt.mp h
    split_ifs <;> omega

/-- A canonical duration is in range with its number. -/
theorem Duration.Canonical.valid_iff (h : d.Canonical) :
    d.Valid ↔ -315576000001000000000 < d.total ∧ d.total < 315576000001000000000 := by
  obtain ⟨hgt,hlt,hpos,hneg⟩ := Duration.canonical_iff.mp h
  rw [Duration.total_eq]
  constructor
  · intro hvalid
    have hlowest := hvalid.lowest
    have hhighest := hvalid.highest
    omega
  · intro htotal
    exact ⟨h,by omega,by omega⟩

/-- Durations of Protobuf: sums and differences are exact and canonical, in range whenever the
exact result is, and the comparison is that of the numbers. -/
theorem duration_arithmetic_exact (hd : d.Valid) (he : e.Valid) :
    (∃ sum, addDurations d e = some sum ∧ sum.Canonical ∧ sum.total = d.total + e.total ∧
        (sum.Valid ↔ -315576000001000000000 < d.total + e.total ∧
          d.total + e.total < 315576000001000000000)) ∧
      (∃ difference, subtractDurations d e = some difference ∧ difference.Canonical ∧
        difference.total = d.total - e.total ∧
        (difference.Valid ↔ -315576000001000000000 < d.total - e.total ∧
          d.total - e.total < 315576000001000000000)) ∧
      compareDurations d e = (d.total - e.total).sign := by
  have hlowest := hd.lowest
  have hhighest := hd.highest
  have hlowest' := he.lowest
  have hhighest' := he.highest
  refine ⟨?_,?_,?_⟩
  · obtain ⟨sum,hsum,hcanonical,htotal⟩ := addDurations_eq hd.toSigned he.toSigned
      (by omega) (by omega)
    exact ⟨sum,hsum,hcanonical,htotal,htotal ▸ hcanonical.valid_iff⟩
  · obtain ⟨difference,hdifference,hcanonical,htotal⟩ :=
      subtractDurations_eq hd.toSigned he.toSigned (by omega) (by omega) (by omega)
    exact ⟨difference,hdifference,hcanonical,htotal,htotal ▸ hcanonical.valid_iff⟩
  · exact compareDurations_eq (hd.toSigned.follows he.toSigned) (he.toSigned.follows hd.toSigned)

/-- Ten thousand years. -/
def longest : Duration := ⟨⟨315576000000,by decide,by decide⟩,⟨0,by decide,by decide⟩⟩

theorem longest_valid : longest.Valid :=
  ⟨Duration.canonical_iff.mpr (by decide),by decide,by decide⟩

/-- Twice the longest duration is canonical, but out of range. -/
theorem duration_arithmetic_exact_longest :
    ∃ sum, addDurations longest longest = some sum ∧ sum.Canonical ∧ ¬sum.Valid := by
  obtain ⟨sum,hsum,hcanonical,htotal⟩ := addDurations_eq longest_valid.toSigned
    longest_valid.toSigned (by decide) (by decide)
  refine ⟨sum,hsum,hcanonical,?_⟩
  rw [hcanonical.valid_iff,htotal]
  decide

def longer : Duration := ⟨⟨2,by decide,by decide⟩,⟨500000000,by decide,by decide⟩⟩

theorem longer_valid : longer.Valid :=
  ⟨Duration.canonical_iff.mpr (by decide),by decide,by decide⟩

/-- The sum has a carry, and in the difference the sign of the fraction is repaired. -/
theorem duration_arithmetic_exact_witness :
    (∃ sum, addDurations shorter longer = some sum ∧ sum.total = 4200000000) ∧
      (∃ difference, subtractDurations shorter longer = some difference ∧
        difference.total = -800000000) ∧ compareDurations shorter longer = -1 := by
  obtain ⟨⟨sum,hsum,-,htotal,-⟩,⟨difference,hdifference,-,htotal',-⟩,hcompare⟩ :=
    duration_arithmetic_exact shorter_valid longer_valid
  exact ⟨⟨sum,hsum,htotal⟩,⟨difference,hdifference,htotal'⟩,hcompare⟩

/-! ## Differences of timestamps as durations -/

theorem borrow_some {seconds s : I64} {nanos n : I32} (h : borrow seconds nanos = some (s,n)) :
    s.val = seconds.val - 1 ∧ n.val = nanos.val + 1000000000 := by
  simp only [borrow,Option.bind_eq_bind,Option.bind_eq_some_iff] at h
  obtain ⟨s',hs,n',hn,heq⟩ := h
  cases heq
  exact ⟨Signed.checked_eq_some_iff.mp hs,Signed.checked_eq_some_iff.mp hn⟩

theorem timestampDifference_some (h₁ : t₁.Normal) (h₂ : t₂.Normal)
    (h : timestampDifference t₁ t₂ = some d) :
    0 ≤ d.nanos.val ∧ d.nanos.val < 1000000000 ∧ d.total = t₁.total - t₂.total := by
  obtain ⟨hnonneg₁,hnanos₁⟩ := Timestamp.normal_iff.mp h₁
  obtain ⟨hnonneg₂,hnanos₂⟩ := Timestamp.normal_iff.mp h₂
  simp only [timestampDifference,Option.bind_eq_bind,Option.bind_eq_some_iff] at h
  obtain ⟨s,hs,n,hn,h⟩ := h
  have hsval := Signed.checked_eq_some_iff.mp hs
  have hnval := Signed.checked_eq_some_iff.mp hn
  simp only [Timestamp.total_eq,Duration.total_eq]
  by_cases hborrow : n.val < 0
  · rw [if_pos hborrow,Option.bind_eq_some_iff] at h
    obtain ⟨⟨s',n'⟩,hnormal,heq⟩ := h
    cases heq
    obtain ⟨hs',hn'⟩ := borrow_some hnormal
    dsimp only
    omega
  · rw [if_neg hborrow] at h
    cases h
    dsimp only
    omega

/-- Differences from one moment are ordered as the timestamps they come from. -/
theorem compareDurations_timestampDifference (h₀ : t₀.Normal) (h₁ : t₁.Normal) (h₂ : t₂.Normal)
    (hd : timestampDifference t₁ t₀ = some d) (he : timestampDifference t₂ t₀ = some e) :
    compareDurations d e = (t₁.total - t₂.total).sign := by
  obtain ⟨hnonneg,hlt,htotal⟩ := timestampDifference_some h₁ h₀ hd
  obtain ⟨hnonneg',hlt',htotal'⟩ := timestampDifference_some h₂ h₀ he
  have hfloor : d.split.Floor 1000000000 := ⟨hnonneg,hlt⟩
  have hfloor' : e.split.Floor 1000000000 := ⟨hnonneg',hlt'⟩
  rw [compareDurations_eq (hfloor.follows hfloor') (hfloor'.follows hfloor),htotal,htotal']
  congr 1
  omega

/-- The negative of a difference is the difference the other way only without a fraction, as both
fractions are those of a timestamp. -/
theorem timestampDifference_neg_iff (h₁ : t₁.Normal) (h₂ : t₂.Normal)
    (hd : timestampDifference t₁ t₂ = some d) (he : timestampDifference t₂ t₁ = some e) :
    e.seconds.val = -d.seconds.val ∧ e.nanos.val = -d.nanos.val ↔ t₁.nanos = t₂.nanos := by
  have hd' := timestampDifference_some h₁ h₂ hd
  have he' := timestampDifference_some h₂ h₁ he
  have hnanos₁ := Timestamp.normal_iff.mp h₁
  have hnanos₂ := Timestamp.normal_iff.mp h₂
  have hnanos : t₁.nanos = t₂.nanos ↔ t₁.nanos.val = t₂.nanos.val :=
    ⟨congrArg Signed.val,Signed.ext⟩
  simp only [Timestamp.total_eq,Duration.total_eq] at hd' he'
  rw [hnanos]
  omega

/-- With equal fractions the difference is that of the seconds. -/
theorem timestampDifference_valid (h₁ : t₁.Normal) (h₂ : t₂.Normal) (h : t₁.nanos = t₂.nanos)
    (hlow : -315576000000 ≤ t₁.seconds.val - t₂.seconds.val)
    (hhigh : t₁.seconds.val - t₂.seconds.val ≤ 315576000000) :
    ∃ r, timestampDifference t₁ t₂ = some r ∧ r.Valid := by
  obtain ⟨r,hr,hnonneg,hlt,htotal⟩ := timestampDifference_eq h₁ h₂ (by omega) (by omega)
  rw [Timestamp.total_eq,Timestamp.total_eq,Duration.total_eq,h] at htotal
  have hcanonical : r.Canonical := Duration.canonical_iff.mpr (by omega)
  exact ⟨r,hr,hcanonical,by omega,by omega⟩

/-- The difference to a later moment is a valid duration only without a fraction. -/
theorem timestampDifference_valid_iff (h₁ : t₁.Normal) (h₂ : t₂.Normal) :
    (∃ d, timestampDifference t₁ t₂ = some d ∧ d.Valid) ↔
      t₂.total ≤ t₁.total ∧ t₁.total - t₂.total < 315576000001000000000 ∨
        t₁.nanos = t₂.nanos ∧ -315576000000 ≤ t₁.seconds.val - t₂.seconds.val ∧
          t₁.seconds.val - t₂.seconds.val ≤ 315576000000 := by
  have hnanos₁ := Timestamp.normal_iff.mp h₁
  have hnanos₂ := Timestamp.normal_iff.mp h₂
  constructor
  · intro ⟨d,hd,hvalid⟩
    have htotal := timestampDifference_some h₁ h₂ hd
    have hcanonical := Duration.canonical_iff.mp hvalid.toSigned
    have hlowest := hvalid.lowest
    have hhighest := hvalid.highest
    have hnanos : t₁.nanos.val = t₂.nanos.val → t₁.nanos = t₂.nanos := Signed.ext
    simp only [Timestamp.total_eq,Duration.total_eq] at htotal ⊢
    by_cases hlater : 0 ≤ d.seconds.val
    · left
      omega
    · right
      refine ⟨hnanos ?_,?_⟩ <;> omega
  · intro h
    cases h with
    | inl hlater =>
      simp only [Timestamp.total_eq] at hlater
      obtain ⟨r,hr,hnonneg,hlt,htotal⟩ := timestampDifference_eq h₁ h₂ (by omega) (by omega)
      simp only [Timestamp.total_eq,Duration.total_eq] at htotal
      have hcanonical : r.Canonical := Duration.canonical_iff.mpr (by omega)
      exact ⟨r,hr,hcanonical,by omega,by omega⟩
    | inr hequal => exact timestampDifference_valid h₁ h₂ hequal.1 hequal.2.1 hequal.2.2

/-- Of the differences of two normal timestamps, both are valid durations, one the negative of the
other, and ordered as their timestamps are, exactly if the timestamps have the same fraction and
are within ten thousand years. -/
theorem timestampDifference_lawful_iff (h₁ : t₁.Normal) (h₂ : t₂.Normal) :
    (∃ d, timestampDifference t₁ t₂ = some d ∧ d.Valid ∧
        (∃ e, timestampDifference t₂ t₁ = some e ∧
          e.seconds.val = -d.seconds.val ∧ e.nanos.val = -d.nanos.val) ∧
        ∀ t₀ d₁ d₂, t₀.Normal → timestampDifference t₁ t₀ = some d₁ →
          timestampDifference t₂ t₀ = some d₂ →
          compareDurations d₁ d₂ = (t₁.total - t₂.total).sign) ↔
      t₁.nanos = t₂.nanos ∧ -315576000000 ≤ t₁.seconds.val - t₂.seconds.val ∧
        t₁.seconds.val - t₂.seconds.val ≤ 315576000000 := by
  constructor
  · intro ⟨d,hd,hvalid,⟨e,he,hneg⟩,_⟩
    have hnanos : t₁.nanos = t₂.nanos := (timestampDifference_neg_iff h₁ h₂ hd he).mp hneg
    have htotal := timestampDifference_some h₁ h₂ hd
    have hlowest := hvalid.lowest
    have hhighest := hvalid.highest
    simp only [Timestamp.total_eq,Duration.total_eq,hnanos] at htotal
    exact ⟨hnanos,by omega,by omega⟩
  · intro ⟨hnanos,hlow,hhigh⟩
    obtain ⟨d,hd,hvalid⟩ := timestampDifference_valid h₁ h₂ hnanos hlow hhigh
    obtain ⟨e,he,-⟩ := timestampDifference_valid h₂ h₁ hnanos.symm (by omega) (by omega)
    exact ⟨d,hd,hvalid,⟨e,he,(timestampDifference_neg_iff h₁ h₂ hd he).mpr hnanos⟩,
      fun _ _ _ h₀ hd₁ hd₂ => compareDurations_timestampDifference h₀ h₁ h₂ hd₁ hd₂⟩

/-- Half a second before the first second. -/
def half : Timestamp := ⟨⟨0,by decide,by decide⟩,⟨500000000,by decide,by decide⟩⟩

def second : Timestamp := ⟨one,⟨0,by decide,by decide⟩⟩

theorem half_normal : half.Normal := Timestamp.normal_iff.mpr (by decide)

theorem second_normal : second.Normal := Timestamp.normal_iff.mpr (by decide)

/-- Half a second is taken as a second back and half a second forth. -/
theorem timestampDifference_lawful_half : half.Normal ∧ second.Normal ∧
    ∃ d, timestampDifference half second = some d ∧ d.seconds.val = -1 ∧
      d.nanos.val = 500000000 ∧ ¬d.Valid := by
  refine ⟨half_normal,second_normal,⟨⟨-1,by decide,by decide⟩,half.nanos⟩,by decide,rfl,rfl,?_⟩
  intro hvalid
  exact absurd (hvalid.of_neg (by decide)) (by decide)

/-- A second after `half`. -/
def nextHalf : Timestamp := ⟨one,half.nanos⟩

theorem nextHalf_normal : nextHalf.Normal := Timestamp.normal_iff.mpr (by decide)

theorem timestampDifference_lawful_witness : half.total < nextHalf.total ∧
    ∃ d, timestampDifference half nextHalf = some d ∧ d.Valid ∧
      ∃ e, timestampDifference nextHalf half = some e ∧
        e.seconds.val = -d.seconds.val ∧ e.nanos.val = -d.nanos.val := by
  obtain ⟨d,hd,hvalid,hneg,-⟩ :=
    (timestampDifference_lawful_iff half_normal nextHalf_normal).mpr (by decide)
  exact ⟨by decide,d,hd,hvalid,hneg⟩

end TimestampDuration
end UProtocols
