import Mathlib.Algebra.GroupWithZero.Nat
import Mathlib.Data.List.Infix
import Mathlib.Logic.Function.Basic
import Mathlib.Tactic.Common

/-!
# Relays

A relay writes back on each connection what it has read there. Connections are numbered as they
are accepted and a number is not used again. The log holds what was read and written, in order;
`Books` says of a log what is still owed on every open connection and what was left out, and `Desk`
says it of a relay that knows its connections by descriptors, which are used again.
-/

namespace UProtocols
namespace Relays

open Function

variable {β : Type}

/-! ## Streams that do not block -/

/-- What a read answers; no bytes mean that the other end has closed the stream. -/
inductive ReadAnswer (β : Type)
  | bytes (data : List β)
  | wouldBlock | failed

/-- What a write answers. -/
inductive WriteAnswer
  | taken (n : ℕ)
  | wouldBlock | failed

inductive WriteEnd
  | finished | blocked | failed
  deriving DecidableEq

/-- Write until everything is taken, the stream would block or a write fails: how it ends, what was
taken and what is left. A stream does not take more than it is given. -/
def offer : List WriteAnswer → List β → Option (WriteEnd × List β × List β)
  | _, [] => some (.finished,[],[])
  | [], _::_ => none
  | .wouldBlock::_, xs => some (.blocked,[],xs)
  | .failed::_, xs => some (.failed,[],xs)
  | .taken n::answers, xs =>
    if n ≤ xs.length then
      (offer answers (xs.drop n)).map fun (e,taken,rest) => (e,xs.take n ++ taken,rest)
    else none

theorem offer_spec {answers : List WriteAnswer} {xs taken rest : List β} {e : WriteEnd}
    (h : offer answers xs = some (e,taken,rest)) :
    taken ++ rest = xs ∧ (e = .finished ↔ rest = []) := by
  fun_induction offer answers xs generalizing taken rest with
  | case1 => simp_all
  | case2 => simp at h
  | case3 | case4 =>
    simp only [Option.some.injEq,Prod.mk.injEq] at h
    obtain ⟨rfl,rfl,rfl⟩ := h
    simp_all
  | case5 n answers xs _ hn ih =>
    simp only [Option.map_eq_some_iff,Prod.exists,Prod.mk.injEq] at h
    obtain ⟨e',taken',rest',hoffer,rfl,rfl,rfl⟩ := h
    obtain ⟨happend,hend⟩ := ih hoffer
    simp [happend,hend]
  | case6 => simp at h

/-! ## Logs -/

/-- What was read from, and written to, a connection. -/
inductive Traffic (β : Type)
  | heard (conn : ℕ) (bytes : List β)
  | said (conn : ℕ) (bytes : List β)
  deriving DecidableEq

def Traffic.heardOn (conn : ℕ) : Traffic β → List β
  | .heard c bytes => if c = conn then bytes else []
  | .said .. => []

def Traffic.saidOn (conn : ℕ) : Traffic β → List β
  | .heard .. => []
  | .said c bytes => if c = conn then bytes else []

/-- Everything that was read from a connection. -/
def heard (log : List (Traffic β)) (conn : ℕ) : List β := log.flatMap (Traffic.heardOn conn)

/-- Everything that was written to a connection. -/
def said (log : List (Traffic β)) (conn : ℕ) : List β := log.flatMap (Traffic.saidOn conn)

section Log

variable {log log' : List (Traffic β)} {c d : ℕ} {xs : List β}

@[simp] theorem heard_nil : heard ([] : List (Traffic β)) c = [] := rfl

@[simp] theorem said_nil : said ([] : List (Traffic β)) c = [] := rfl

@[simp] theorem heard_append : heard (log ++ log') c = heard log c ++ heard log' c := by
  simp [heard]

@[simp] theorem said_append : said (log ++ log') c = said log c ++ said log' c := by
  simp [said]

@[simp] theorem heard_heard : heard [.heard d xs] c = if d = c then xs else [] := by
  simp [heard,Traffic.heardOn]

@[simp] theorem heard_said : heard [.said d xs] c = [] := by simp [heard,Traffic.heardOn]

@[simp] theorem said_heard : said [.heard d xs] c = [] := by simp [said,Traffic.saidOn]

@[simp] theorem said_said : said [.said d xs] c = if d = c then xs else [] := by
  simp [said,Traffic.saidOn]

end Log

/-! ## Bytes left behind -/

/-- The parts of what came on a connection that were left behind, in their order. -/
def lost (left : List (ℕ × List β)) (c : ℕ) : List (List β) :=
  (left.filter (·.1 = c)).map Prod.snd

@[simp] theorem lost_nil : lost ([] : List (ℕ × List β)) = fun _ => [] := rfl

@[simp] theorem lost_append (left : List (ℕ × List β)) (c : ℕ) (rest : List β) :
    lost (left ++ [(c,rest)]) = update (lost left) c (lost left c ++ [rest]) := by
  funext d
  by_cases h : d = c
  · simp [lost,h]
  · simp [lost,h,Ne.symm h]

theorem mem_of_lost {left : List (ℕ × List β)} {c : ℕ} {part : List β} (h : part ∈ lost left c) :
    (c,part) ∈ left := by
  obtain ⟨⟨d,part⟩,hmem,rfl⟩ := List.mem_map.mp h
  obtain ⟨hl,hd⟩ := List.mem_filter.mp hmem
  obtain rfl : d = c := by simpa using hd
  exact hl

theorem lost_eq_nil_iff {left : List (ℕ × List β)} {c : ℕ} :
    lost left c = [] ↔ ∀ l ∈ left, l.1 ≠ c := by
  simp [lost]

/-- The stream `whole` is `kept` and the parts `out`, each of them in the place where it was left
out. -/
inductive Woven : List (List β) → List β → List β → Prop
  | nil : Woven [] [] []
  | keep {out : List (List β)} {kept whole : List β} (xs : List β) :
    Woven out kept whole → Woven out (kept ++ xs) (whole ++ xs)
  | leave {out : List (List β)} {kept whole : List β} (xs : List β) :
    Woven out kept whole → Woven (out ++ [xs]) kept (whole ++ xs)

namespace Woven

variable {out : List (List β)} {kept whole : List β}

theorem sublist (h : Woven out kept whole) : kept.Sublist whole := by
  induction h with
  | nil => exact List.Sublist.refl _
  | keep xs _ ih => exact ih.append_right xs
  | leave xs _ ih => exact ih.trans (List.sublist_append_left _ xs)

theorem length (h : Woven out kept whole) :
    kept.length + out.flatten.length = whole.length := by
  induction h with
  | nil => rfl
  | keep xs _ ih =>
    simp only [List.length_append]
    omega
  | leave xs _ ih =>
    simp only [List.length_append,List.flatten_append,List.flatten_singleton]
    omega

/-- Without a part nothing was left out. -/
theorem exact (h : Woven [] kept whole) : kept = whole :=
  h.sublist.eq_of_length (by simpa using h.length)

/-- Nothing was left out exactly when there are no parts, none of which is empty. -/
theorem eq_iff (h : Woven out kept whole) (hne : ∀ part ∈ out, part ≠ []) :
    kept = whole ↔ out = [] := by
  constructor
  · rintro rfl
    have hzero : out.flatten.length = 0 := by
      have hlength := h.length
      omega
    refine List.eq_nil_iff_forall_not_mem.mpr fun part hpart => hne part hpart ?_
    exact List.flatten_eq_nil_iff.mp (List.length_eq_zero_iff.mp hzero) part hpart
  · rintro rfl
    exact h.exact

end Woven

/-! ## One connection -/

/-- `rest` is still owed on a connection, and the parts `out` of what was read there before will not
come. -/
def Account (log : List (Traffic β)) (c : ℕ) (rest : List β) (out : List (List β)) : Prop :=
  ∃ before, Woven out (said log c) before ∧ before ++ rest = heard log c

namespace Account

variable {log : List (Traffic β)} {c d : ℕ} {xs rest : List β} {out : List (List β)}

theorem hear (h : Account log c rest out) : Account (log ++ [.heard c xs]) c (rest ++ xs) out := by
  obtain ⟨before,hwoven,heq⟩ := h
  exact ⟨before,by simpa using hwoven,by simp [← heq]⟩

theorem say (h : Account log c (xs ++ rest) out) : Account (log ++ [.said c xs]) c rest out := by
  obtain ⟨before,hwoven,heq⟩ := h
  exact ⟨before ++ xs,by simpa using hwoven.keep xs,by simp [← heq]⟩

/-- The bytes that were to come next are given up. -/
theorem forget (h : Account log c (xs ++ rest) out) : Account log c rest (out ++ [xs]) := by
  obtain ⟨before,hwoven,heq⟩ := h
  exact ⟨before ++ xs,hwoven.leave xs,by simp [← heq]⟩

theorem hear_other (h : Account log c rest out) (hne : d ≠ c) :
    Account (log ++ [.heard d xs]) c rest out := by
  simpa [Account,hne] using h

theorem say_other (h : Account log c rest out) (hne : d ≠ c) :
    Account (log ++ [.said d xs]) c rest out := by
  simpa [Account,hne] using h

theorem sublist (h : Account log c rest out) : (said log c).Sublist (heard log c) := by
  obtain ⟨before,hwoven,heq⟩ := h
  rw [← heq]
  exact hwoven.sublist.trans (List.sublist_append_left before rest)

/-- Without a loss nothing was left out. -/
theorem exact (h : Account log c rest []) : said log c ++ rest = heard log c := by
  obtain ⟨before,hwoven,heq⟩ := h
  rw [hwoven.exact,heq]

/-- Where nothing is owed, all that is missing are the parts that were left out. -/
theorem woven (h : Account log c [] out) : Woven out (said log c) (heard log c) := by
  obtain ⟨before,hwoven,heq⟩ := h
  rw [List.append_nil] at heq
  rwa [← heq]

end Account

/-! ## All connections -/

/-- The books of a relay that has accepted the connections below `next`: what is owed on the open
ones, and what was left out on each. -/
structure Books (log : List (Traffic β)) (next : ℕ) (owed : ℕ → Option (List β))
    (lost : ℕ → List (List β)) : Prop where
  account : ∀ c, ∃ rest, Account log c rest (lost c) ∧ ∀ o, owed c = some o → o = rest
  later : ∀ c, next ≤ c → owed c = none ∧ heard log c = []

namespace Books

variable {log : List (Traffic β)} {next c d : ℕ} {owed : ℕ → Option (List β)}
  {lost : ℕ → List (List β)} {xs rest : List β}

theorem empty (next : ℕ) : Books ([] : List (Traffic β)) next (fun _ => none) fun _ => [] where
  account c := ⟨[],⟨[],Woven.nil,rfl⟩,by simp⟩
  later c _ := by simp

/-- What is owed on an open connection. -/
theorem owes (h : Books log next owed lost) (hc : owed c = some rest) :
    Account log c rest (lost c) := by
  obtain ⟨rest',hacc,howed⟩ := h.account c
  rwa [howed rest hc]

theorem lt_next (h : Books log next owed lost) (hc : owed c = some rest) : c < next := by
  by_contra hle
  have := (h.later c (Nat.le_of_not_lt hle)).1
  simp [hc] at this

/-- The books change on one connection, which had been accepted. -/
theorem change {log' : List (Traffic β)} {o : Option (List β)}
    {out : List (List β)}
    (h : Books log next owed lost) (hc : c < next)
    (hother : ∀ d r, c ≠ d → Account log d r (lost d) → Account log' d r (lost d))
    (hquiet : ∀ d, c ≠ d → heard log' d = heard log d)
    (hacc : ∃ rest, Account log' c rest out ∧ ∀ o', o = some o' → o' = rest) :
    Books log' next (update owed c o) (update lost c out) where
  account d := by
    rcases eq_or_ne c d with rfl | hne
    · simpa using hacc
    · obtain ⟨r,hr,howed⟩ := h.account d
      refine ⟨r,?_,?_⟩
      · simpa [update_of_ne hne.symm] using hother d r hne hr
      · simpa [update_of_ne hne.symm] using howed
  later d hd := by
    have hne : c ≠ d := by omega
    simp only [update_of_ne hne.symm,hquiet d hne]
    exact h.later d hd

/-- A connection is accepted. -/
theorem accept (h : Books log next owed lost) :
    Books log (next + 1) (update owed next (some [])) lost where
  account c := by
    obtain ⟨rest,hacc,howed⟩ := h.account c
    refine ⟨rest,hacc,?_⟩
    rcases eq_or_ne next c with rfl | hne
    · obtain ⟨before,-,heq⟩ := hacc
      rw [(h.later next le_rfl).2,List.append_eq_nil_iff] at heq
      simp [heq.2]
    · simpa [update_of_ne hne.symm] using howed
  later c hc := by
    have hne : c ≠ next := by omega
    simpa [update_of_ne hne] using h.later c (by omega)

/-- A connection is refused; its number is not used again. -/
theorem skip (h : Books log next owed lost) : Books log (next + 1) owed lost where
  account := h.account
  later c hc := h.later c (by omega)

theorem hear (h : Books log next owed lost) (hc : owed c = some rest) (xs : List β) :
    Books (log ++ [.heard c xs]) next (update owed c (some (rest ++ xs))) lost := by
  have hbooks := h.change (o := some (rest ++ xs)) (h.lt_next hc)
    (fun d r hne hd => hd.hear_other hne) (fun d hne => by simp [hne])
    ⟨rest ++ xs,(h.owes hc).hear,by simp⟩
  simpa using hbooks

theorem say (h : Books log next owed lost) (hc : owed c = some (xs ++ rest)) :
    Books (log ++ [.said c xs]) next (update owed c (some rest)) lost := by
  have hbooks := h.change (o := some rest) (h.lt_next hc)
    (fun d r hne hd => hd.say_other hne) (fun d hne => by simp)
    ⟨rest,(h.owes hc).say,by simp⟩
  simpa using hbooks

theorem forget (h : Books log next owed lost) (hc : owed c = some (xs ++ rest)) :
    Books log next (update owed c (some rest)) (update lost c (lost c ++ [xs])) :=
  h.change (h.lt_next hc) (fun _ _ _ hd => hd) (fun _ _ => rfl)
    ⟨rest,(h.owes hc).forget,by simp⟩

/-- A connection is closed; what is owed there stays open. -/
theorem close (h : Books log next owed lost) (c : ℕ) :
    Books log next (update owed c none) lost where
  account d := by
    obtain ⟨rest,hacc,howed⟩ := h.account d
    refine ⟨rest,hacc,fun o ho => ?_⟩
    rcases eq_or_ne c d with rfl | hne
    · simp at ho
    · exact howed o (by simpa [update_of_ne hne.symm] using ho)
  later d hd := by
    rcases eq_or_ne c d with rfl | hne
    · simpa using (h.later c hd).2
    · simpa [update_of_ne hne.symm] using h.later d hd

/-- Nothing is made up, doubled or put in another order. -/
theorem sublist (h : Books log next owed lost) (c : ℕ) :
    (said log c).Sublist (heard log c) := by
  obtain ⟨rest,hacc,-⟩ := h.account c
  exact hacc.sublist

/-- Without a loss nothing is left out either. -/
theorem isPrefix (h : Books log next owed lost) (hlost : lost c = []) :
    said log c <+: heard log c := by
  obtain ⟨rest,hacc,-⟩ := h.account c
  rw [hlost] at hacc
  exact ⟨rest,hacc.exact⟩

theorem exact (h : Books log next owed lost) (hlost : lost c = []) (hc : owed c = some rest) :
    said log c ++ rest = heard log c := by
  have hacc := h.owes hc
  rw [hlost] at hacc
  exact hacc.exact

end Books

/-! ## Descriptors -/

/-- The connection behind each open descriptor, and the number of connections so far. -/
structure Table where
  conn : ℕ → Option ℕ
  next : ℕ

namespace Table

def empty : Table := ⟨fun _ => none,0⟩

/-- The descriptor stands for the next connection. -/
def accept (t : Table) (fd : ℕ) : Table := ⟨update t.conn fd (some t.next),t.next + 1⟩

def close (t : Table) (fd : ℕ) : Table := {t with conn := update t.conn fd none}

end Table

/-- The books of a relay that keeps what it owes under descriptors. -/
structure Desk (log : List (Traffic β)) (t : Table) (buffer : ℕ → List β)
    (lost : ℕ → List (List β)) : Prop where
  books : ∃ owed, Books log t.next owed lost ∧
    ∀ fd c, t.conn fd = some c → owed c = some (buffer fd)
  distinct : ∀ fd fd' c, t.conn fd = some c → t.conn fd' = some c → fd = fd'

namespace Desk

variable {log : List (Traffic β)} {t : Table} {buffer : ℕ → List β}
  {lost : ℕ → List (List β)} {fd c : ℕ} {xs rest : List β}

theorem empty : Desk ([] : List (Traffic β)) .empty (fun _ => []) fun _ => [] where
  books := ⟨_,Books.empty 0,by simp [Table.empty]⟩
  distinct := by simp [Table.empty]

theorem lt_next (h : Desk log t buffer lost) (hc : t.conn fd = some c) : c < t.next := by
  obtain ⟨owed,hbooks,howed⟩ := h.books
  exact hbooks.lt_next (howed fd c hc)

/-- What the relay owes behind one descriptor changes. -/
theorem change {log' : List (Traffic β)} {owed : ℕ → Option (List β)}
    {lost' : ℕ → List (List β)}
    (h : Desk log t buffer lost) (hc : t.conn fd = some c)
    (howed : ∀ fd c, t.conn fd = some c → owed c = some (buffer fd))
    (hbooks : Books log' t.next (update owed c (some xs)) lost') :
    Desk log' t (update buffer fd xs) lost' where
  books := by
    refine ⟨_,hbooks,fun fd' c' hc' => ?_⟩
    by_cases hfd : fd' = fd
    · subst hfd
      obtain rfl : c = c' := Option.some.inj (hc.symm.trans hc')
      simp
    · have hne : c' ≠ c := by
        rintro rfl
        exact hfd (h.distinct fd' fd c' hc' hc)
      simpa [hfd,hne] using howed fd' c' hc'
  distinct := h.distinct

theorem hear (h : Desk log t buffer lost) (hc : t.conn fd = some c) (xs : List β) :
    Desk (log ++ [.heard c xs]) t (update buffer fd (buffer fd ++ xs)) lost := by
  obtain ⟨owed,hbooks,howed⟩ := h.books
  exact h.change hc howed (hbooks.hear (howed fd c hc) xs)

theorem say (h : Desk log t buffer lost) (hc : t.conn fd = some c) (hxs : buffer fd = xs ++ rest) :
    Desk (log ++ [.said c xs]) t (update buffer fd rest) lost := by
  obtain ⟨owed,hbooks,howed⟩ := h.books
  exact h.change hc howed (hbooks.say (hxs ▸ howed fd c hc))

theorem forget (h : Desk log t buffer lost) (hc : t.conn fd = some c)
    (hxs : buffer fd = xs ++ rest) :
    Desk log t (update buffer fd rest) (update lost c (lost c ++ [xs])) := by
  obtain ⟨owed,hbooks,howed⟩ := h.books
  exact h.change hc howed (hbooks.forget (hxs ▸ howed fd c hc))

/-- A descriptor that is not open stands for a new connection; nothing must be left under it. -/
theorem accept (h : Desk log t buffer lost) (hc : t.conn fd = none) (hempty : buffer fd = []) :
    Desk log (t.accept fd) buffer lost := by
  obtain ⟨owed,hbooks,howed⟩ := h.books
  have hnew : ∀ fd' c', t.conn fd' = some c' → c' ≠ t.next := fun fd' c' hc' =>
    Nat.ne_of_lt (h.lt_next hc')
  constructor
  · refine ⟨_,hbooks.accept,fun fd' c' hc' => ?_⟩
    by_cases hfd : fd' = fd
    · subst hfd
      simp only [Table.accept,update_self,Option.some.injEq] at hc'
      simp [← hc',hempty]
    · simp only [Table.accept,update_of_ne hfd] at hc'
      simpa [hnew fd' c' hc'] using howed fd' c' hc'
  · intro fd₁ fd₂ c' h₁ h₂
    simp only [Table.accept,update_apply] at h₁ h₂
    split at h₁ <;> split at h₂
    · simp_all
    · exact absurd (Option.some.inj h₁).symm (hnew fd₂ c' h₂)
    · exact absurd (Option.some.inj h₂).symm (hnew fd₁ c' h₁)
    · exact h.distinct fd₁ fd₂ c' h₁ h₂

/-- A descriptor is closed; what is kept under it does not matter any more. -/
theorem close (h : Desk log t buffer lost) (fd : ℕ) (xs : List β) :
    Desk log (t.close fd) (update buffer fd xs) lost := by
  obtain ⟨owed,hbooks,howed⟩ := h.books
  have hopen : ∀ fd' c', (t.close fd).conn fd' = some c' → fd' ≠ fd ∧ t.conn fd' = some c' := by
    intro fd' c' hc'
    by_cases hfd : fd' = fd <;> simp_all [Table.close]
  constructor
  · refine ⟨owed,hbooks,fun fd' c' hc' => ?_⟩
    obtain ⟨hne,hc'⟩ := hopen fd' c' hc'
    simpa [hne] using howed fd' c' hc'
  · intro fd₁ fd₂ c' h₁ h₂
    exact h.distinct fd₁ fd₂ c' (hopen fd₁ c' h₁).2 (hopen fd₂ c' h₂).2

theorem sublist (h : Desk log t buffer lost) (c : ℕ) : (said log c).Sublist (heard log c) := by
  obtain ⟨owed,hbooks,-⟩ := h.books
  exact hbooks.sublist c

theorem isPrefix (h : Desk log t buffer lost) (hlost : lost c = []) :
    said log c <+: heard log c := by
  obtain ⟨owed,hbooks,-⟩ := h.books
  exact hbooks.isPrefix hlost

theorem exact (h : Desk log t buffer lost) (hc : t.conn fd = some c) (hlost : lost c = []) :
    said log c ++ buffer fd = heard log c := by
  obtain ⟨owed,hbooks,howed⟩ := h.books
  exact hbooks.exact hlost (howed fd c hc)

/-- What is owed behind a descriptor. -/
theorem account (h : Desk log t buffer lost) (hc : t.conn fd = some c) :
    Account log c (buffer fd) (lost c) := by
  obtain ⟨owed,hbooks,howed⟩ := h.books
  exact hbooks.owes (howed fd c hc)

end Desk

end Relays
end UProtocols
