import Mathlib.Data.List.DropRight
import Mathlib.Data.List.Nodup
import UProtocols.Runs
import UProtocols.Relays

/-!
# The echo server on poll

The loop of `tcp_server_with_poll.rs`. The entry of the listening socket, which is the first of the
array, is left out of the lists here. What poll says and what the streams answer are inputs; a
failure of poll ends the program. Connections are told apart by their number.
-/

namespace UProtocols
namespace PollServer

open Function Relays Runs

/-- What poll says of an entry: POLLIN, and one of POLLERR, POLLHUP and POLLNVAL. -/
structure Revents where
  pollin : Bool
  hangup : Bool
  deriving DecidableEq

def Revents.clear : Revents := ⟨false,false⟩

/-- An entry of the array; a descriptor of -1 is none. -/
structure PollFd where
  fd : Option ℕ
  revents : Revents
  deriving DecidableEq

/-- Poll says nothing of entries without a descriptor. -/
def PollFd.poll (reports : ℕ → Revents) (e : PollFd) : PollFd :=
  {e with revents := e.fd.elim .clear reports}

@[simp] theorem PollFd.poll_fd (reports : ℕ → Revents) (e : PollFd) :
    (e.poll reports).fd = e.fd := rfl

/-- The entry of a client and its stream, which is known by its descriptor. The source has two
vectors, which are pushed, popped and indexed together. -/
structure Slot extends PollFd where
  stream : Option ℕ
  deriving DecidableEq

namespace Slot

def new (fd : ℕ) : Slot := ⟨⟨some fd,.clear⟩,some fd⟩

def drop (s : Slot) : Slot := ⟨⟨none,s.revents⟩,none⟩

def poll (reports : ℕ → Revents) (s : Slot) : Slot := ⟨s.toPollFd.poll reports,s.stream⟩

end Slot

def maxClients : ℕ := 100

/-- The first empty slot is used again. -/
def reuse (fd : ℕ) : List Slot → Option (List Slot)
  | [] => none
  | s::ss => if s.fd = none then some (.new fd::ss) else (reuse fd ss).map (s::·)

/-- Find an empty slot or add a new one. -/
def seat (fd : ℕ) (slots : List Slot) : Option (List Slot) :=
  match reuse fd slots with
  | some slots => some slots
  | none => if slots.length + 1 < maxClients then some (slots ++ [.new fd]) else none

/-- The open descriptors, and what went over the connections. -/
structure Wire where
  table : Table
  log : List (Traffic UInt8)

/-- To drop a stream closes its descriptor. -/
def Wire.drop (w : Wire) : Option ℕ → Wire
  | none => w
  | some fd => {w with table := w.table.close fd}

inductive AcceptAnswer
  | connection (fd : ℕ)
  | wouldBlock | failed

/-- What poll says of the clients, what `accept` answers if the listening socket is reported, and
what the streams answer. -/
structure Round where
  reports : ℕ → Revents
  accepted : Option AcceptAnswer
  reads : ℕ → ReadAnswer UInt8
  writes : ℕ → List WriteAnswer

structure Running where
  wire : Wire
  slots : List Slot

namespace Running

def start : Running := ⟨⟨.empty,[]⟩,[]⟩

/-- The system gives out descriptors that are not open. A stream without a slot is dropped. -/
def accept (w : Wire) (slots : List Slot) : Option AcceptAnswer → Option (Wire × List Slot)
  | none | some .wouldBlock | some .failed => some (w,slots)
  | some (.connection fd) =>
    if w.table.conn fd = none then
      let w := {w with table := w.table.accept fd}
      match seat fd slots with
      | some slots => some (w,slots)
      | none => some (w.drop fd,slots)
    else none

/-- Only an open descriptor gives bytes. -/
def read (round : Round) (w : Wire) (s : Slot) : Option (Wire × Slot) :=
  match s.stream with
  | none => some (w,s)
  | some fd =>
    match round.reads fd with
    | .bytes [] | .failed => some (w.drop s.stream,s.drop)
    | .wouldBlock => some (w,s)
    | .bytes (b::bs) =>
      (w.table.conn fd).bind fun c =>
        (offer (round.writes fd) (b::bs)).map fun (e,written,_) =>
          let w := {w with log := w.log ++ [.heard c (b::bs),.said c written]}
          if e = .finished then (w,s) else (w.drop s.stream,s.drop)

/-- The body of the loop over the clients. -/
def serve (round : Round) (w : Wire) (s : Slot) : Option (Wire × Slot) :=
  if s.fd = none then some (w,s)
  else
    let revents := s.revents
    (if revents.pollin then read round w s else some (w,s)).map fun (w,s) =>
      let (w,s) := if revents.hangup then (w.drop s.stream,s.drop) else (w,s)
      (w,{s with revents := .clear})

def serveAll (round : Round) (w : Wire) : List Slot → Option (Wire × List Slot)
  | [] => some (w,[])
  | s::ss =>
    (serve round w s).bind fun (w,s) =>
      (serveAll round w ss).map fun (w,ss) => (w,s::ss)

/-- One round of the loop of `main`; at its end the empty slots at the back are removed. -/
def step (r : Running) (round : Round) : Option Running :=
  (accept r.wire (r.slots.map (Slot.poll round.reports)) round.accepted).bind fun (w,slots) =>
    (serveAll round w slots).map fun (w,slots) => ⟨w,slots.rdropWhile fun s => s.fd = none⟩

end Running

/-! ## Slots and descriptors -/

/-- The descriptors of the slots in use. -/
def used (slots : List Slot) : List ℕ := slots.filterMap fun s => s.fd

@[simp] theorem used_nil : used [] = [] := rfl

@[simp] theorem used_append (xs ys : List Slot) : used (xs ++ ys) = used xs ++ used ys := by
  simp [used]

@[simp] theorem used_cons (s : Slot) (ss : List Slot) :
    used (s::ss) = s.fd.toList ++ used ss := by
  cases h : s.fd <;> simp [used,h]

@[simp] theorem used_poll (reports : ℕ → Revents) (slots : List Slot) :
    used (slots.map (Slot.poll reports)) = used slots := by
  simp [used,List.filterMap_map,Function.comp_def,Slot.poll]

theorem reuse_spec {fd : ℕ} {slots slots' : List Slot} (h : reuse fd slots = some slots') :
    ∃ pre s post, slots = pre ++ s::post ∧ s.fd = none ∧ slots' = pre ++ .new fd::post := by
  induction slots generalizing slots' with
  | nil => simp [reuse] at h
  | cons s ss ih =>
    rw [reuse] at h
    split at h
    · exact ⟨[],s,ss,rfl,‹_›,(Option.some.inj h).symm⟩
    · obtain ⟨ss',hss',rfl⟩ := Option.map_eq_some_iff.mp h
      obtain ⟨pre,t,post,rfl,ht,rfl⟩ := ih hss'
      exact ⟨s::pre,t,post,rfl,ht,rfl⟩

theorem reuse_eq_none {fd : ℕ} {slots : List Slot} (h : reuse fd slots = none) :
    (used slots).length = slots.length := by
  induction slots with
  | nil => rfl
  | cons s ss ih =>
    rw [reuse] at h
    split at h
    · simp at h
    · have hss := ih (Option.map_eq_none_iff.mp h)
      obtain ⟨fd',hfd'⟩ := Option.ne_none_iff_exists'.mp ‹_›
      simp [hfd',hss]

theorem seat_none_iff {fd : ℕ} {slots : List Slot} (hlen : slots.length + 1 ≤ maxClients) :
    seat fd slots = none ↔ (used slots).length + 1 = maxClients := by
  have hle : (used slots).length ≤ slots.length := List.length_filterMap_le _ _
  rw [seat]
  cases hreuse : reuse fd slots with
  | some slots' =>
    obtain ⟨pre,s,post,rfl,hs,-⟩ := reuse_spec hreuse
    have h₁ : (used pre).length ≤ pre.length := List.length_filterMap_le _ _
    have h₂ : (used post).length ≤ post.length := List.length_filterMap_le _ _
    simp only [List.length_append,List.length_cons] at hlen
    simp [hs]
    omega
  | none =>
    have hfull := reuse_eq_none hreuse
    simp only [hfull]
    split <;> simp <;> omega

theorem seat_spec {fd : ℕ} {slots slots' : List Slot} (h : seat fd slots = some slots') :
    (∃ pre s post, slots = pre ++ s::post ∧ s.fd = none ∧ slots' = pre ++ .new fd::post) ∨
      slots.length + 1 < maxClients ∧ slots' = slots ++ [.new fd] := by
  rw [seat] at h
  split at h
  · cases h
    exact .inl (reuse_spec ‹_›)
  · split at h
    · exact .inr ⟨‹_›,(Option.some.inj h).symm⟩
    · simp at h

theorem used_trim (slots : List Slot) :
    used (slots.rdropWhile fun s => s.fd = none) = used slots := by
  induction slots using List.reverseRecOn with
  | nil => rfl
  | append_singleton ss s ih =>
    by_cases hs : s.fd = none
    · rw [List.rdropWhile_concat_pos _ _ _ (by simpa using hs),ih]
      simp [hs]
    · rw [List.rdropWhile_concat_neg _ _ _ (by simpa using hs)]

/-! ## The invariant -/

/-- Each slot in use has its stream, and the slots in use have just the open descriptors, each one
once. -/
structure Seated (t : Table) (slots : List Slot) : Prop where
  stream : ∀ s ∈ slots, s.stream = s.fd
  nodup : (used slots).Nodup
  mem_used : ∀ fd, fd ∈ used slots ↔ t.conn fd ≠ none
  length : slots.length + 1 ≤ maxClients

namespace Seated

variable {t : Table} {slots slots' pre post : List Slot} {s s' : Slot} {fd : ℕ}

theorem poll (h : Seated t slots) (reports : ℕ → Revents) :
    Seated t (slots.map (Slot.poll reports)) where
  stream := by
    simp only [List.forall_mem_map]
    exact h.stream
  nodup := by simpa using h.nodup
  mem_used := by simpa using h.mem_used
  length := by simpa using h.length

/-- A slot is rewritten but for its descriptor and its stream. -/
theorem rewrite (h : Seated t (pre ++ s::post)) (hfd : s'.fd = s.fd)
    (hstream : s'.stream = s.stream) : Seated t (pre ++ s'::post) where
  stream := by
    have hall := h.stream
    simp only [List.forall_mem_append,List.forall_mem_cons] at hall ⊢
    exact ⟨hall.1,by rw [hfd,hstream,hall.2.1],hall.2.2⟩
  nodup := by simpa [hfd] using h.nodup
  mem_used := by simpa [hfd] using h.mem_used
  length := by simpa using h.length

/-- A stream is dropped and its slot is free again. -/
theorem drop (h : Seated t (pre ++ s::post)) (hfd : s.fd = some fd) :
    Seated (t.close fd) (pre ++ s.drop::post) := by
  have hnodup := h.nodup
  simp only [used_append,used_cons,hfd,Option.toList_some,List.singleton_append,
    List.nodup_middle,List.nodup_cons] at hnodup
  refine ⟨?_,by simpa [Slot.drop] using hnodup.2,fun fd' => ?_,by simpa using h.length⟩
  · have hall := h.stream
    simp only [List.forall_mem_append,List.forall_mem_cons] at hall ⊢
    exact ⟨hall.1,rfl,hall.2.2⟩
  · have hmem := h.mem_used fd'
    simp only [used_append,used_cons,hfd,Option.toList_some,List.singleton_append] at hmem
    by_cases hne : fd' = fd
    · subst hne
      simpa [Table.close,Slot.drop] using hnodup.1
    · simpa [Table.close,Slot.drop,hne] using hmem

/-- A new stream gets a free slot. -/
theorem reuse (h : Seated t (pre ++ s::post)) (hs : s.fd = none) (hfd : t.conn fd = none) :
    Seated (t.accept fd) (pre ++ .new fd::post) where
  stream := by
    have hall := h.stream
    simp only [List.forall_mem_append,List.forall_mem_cons] at hall ⊢
    exact ⟨hall.1,rfl,hall.2.2⟩
  nodup := by
    have hnew : fd ∉ used (pre ++ s::post) := by
      rw [h.mem_used]
      exact not_not.mpr hfd
    have hnodup := h.nodup
    simp only [used_append,used_cons,hs,Option.toList_none,List.nil_append] at hnew hnodup
    simpa [Slot.new,List.nodup_middle,hnodup] using hnew
  mem_used fd' := by
    have hmem := h.mem_used fd'
    simp only [used_append,used_cons,hs,Option.toList_none,List.nil_append] at hmem
    by_cases hne : fd' = fd
    · simp [Slot.new,Table.accept,hne]
    · simpa [Slot.new,Table.accept,hne] using hmem
  length := by simpa using h.length

theorem push (h : Seated t slots) (hlen : slots.length + 1 < maxClients)
    (hfd : t.conn fd = none) : Seated (t.accept fd) (slots ++ [.new fd]) := by
  have hempty : Seated t (slots ++ [⟨⟨none,.clear⟩,none⟩]) := by
    refine ⟨?_,by simpa using h.nodup,by simpa using h.mem_used,?_⟩
    swap
    · simpa using Nat.succ_le_of_lt hlen
    simpa [or_imp,forall_and] using h.stream
  exact hempty.reuse rfl hfd

theorem seat (h : Seated t slots) (hfd : t.conn fd = none)
    (hseat : PollServer.seat fd slots = some slots') : Seated (t.accept fd) slots' := by
  obtain ⟨pre,s,post,rfl,hs,rfl⟩ | ⟨hlen,rfl⟩ := seat_spec hseat
  · exact h.reuse hs hfd
  · exact h.push hlen hfd

/-- A connection that gets no slot is closed at once. -/
theorem turnAway (h : Seated t slots) (hfd : t.conn fd = none) :
    Seated ((t.accept fd).close fd) slots where
  stream := h.stream
  nodup := h.nodup
  mem_used fd' := by
    by_cases hne : fd' = fd
    · subst hne
      simp [h.mem_used,hfd,Table.accept,Table.close]
    · simp [h.mem_used,hne,Table.accept,Table.close]
  length := h.length

/-- The empty slots at the back are removed. -/
theorem trim (h : Seated t slots) : Seated t (slots.rdropWhile fun s => s.fd = none) where
  stream s hs := h.stream s ((List.rdropWhile_prefix _ _).mem hs)
  nodup := by
    rw [used_trim]
    exact h.nodup
  mem_used := by
    rw [used_trim]
    exact h.mem_used
  length := (Nat.succ_le_succ (List.rdropWhile_prefix _ _).length_le).trans h.length

end Seated

namespace Running

variable {w w' : Wire} {slots slots' pre post : List Slot} {s s' : Slot} {fd c : ℕ} {round : Round}
  {r r' : Running} {rounds : List Round}

/-- Nothing is kept between the calls. -/
structure Sound (w : Wire) (slots : List Slot) : Prop where
  desk : Desk w.log w.table (fun _ => []) fun _ => []
  seated : Seated w.table slots

theorem sound_start : Sound start.wire start.slots where
  desk := Desk.empty
  seated := ⟨by simp [start],by simp [start],by simp [start,Table.empty],by decide⟩

theorem Sound.drop (h : Sound w (pre ++ s::post)) :
    Sound (w.drop s.stream) (pre ++ s.drop::post) := by
  have hstream : s.stream = s.fd := h.seated.stream s (by simp)
  rw [hstream]
  cases hfd : s.fd with
  | none => exact ⟨h.desk,h.seated.rewrite hfd.symm (hstream.trans hfd).symm⟩
  | some fd => exact ⟨by simpa [Wire.drop] using h.desk.close fd [],h.seated.drop hfd⟩

theorem Sound.accept (h : Sound w slots) {answer : Option AcceptAnswer}
    (haccept : Running.accept w slots answer = some (w',slots')) : Sound w' slots' := by
  unfold Running.accept at haccept
  split at haccept
  · cases haccept
    exact h
  · cases haccept
    exact h
  · cases haccept
    exact h
  next fd =>
    split at haccept
    · next hfd =>
      have hdesk := h.desk.accept hfd rfl
      split at haccept
      · next hseat =>
        cases haccept
        exact ⟨hdesk,h.seated.seat hfd hseat⟩
      · cases haccept
        exact ⟨by simpa [Wire.drop] using hdesk.close fd [],h.seated.turnAway hfd⟩
    · simp at haccept

theorem Sound.read (h : Sound w (pre ++ s::post))
    (hread : Running.read round w s = some (w',s')) : Sound w' (pre ++ s'::post) := by
  rw [Running.read] at hread
  split at hread
  · cases hread
    exact h
  next fd hstream =>
    have hfd : s.fd = some fd := (h.seated.stream s (by simp)).symm.trans hstream
    split at hread
    · cases hread
      exact h.drop
    · cases hread
      exact h.drop
    · cases hread
      exact h
    next b bs hbytes =>
      obtain ⟨c,hc,hrest⟩ := Option.bind_eq_some_iff.mp hread
      obtain ⟨⟨e,written,left⟩,hoffer,heq⟩ := Option.map_eq_some_iff.mp hrest
      obtain ⟨happend,hend⟩ := offer_spec hoffer
      have hhear := h.desk.hear hc (b::bs)
      have hbytes : update (fun _ => []) fd ([] ++ (b::bs)) fd = written ++ left := by
        simp [happend]
      have hsay := hhear.say hc hbytes
      simp only [update_idem,List.append_assoc,List.singleton_append] at hsay
      simp only at heq
      split at heq
      · have hleft : left = [] := hend.mp ‹_›
        cases heq
        exact ⟨by simpa [hleft] using hsay,h.seated⟩
      · cases heq
        rw [hstream]
        exact ⟨by simpa [Wire.drop] using hsay.close fd [],h.seated.drop hfd⟩

theorem Sound.serve (h : Sound w (pre ++ s::post))
    (hserve : Running.serve round w s = some (w',s')) : Sound w' (pre ++ s'::post) := by
  rw [Running.serve] at hserve
  split at hserve
  · cases hserve
    exact h
  · obtain ⟨⟨w₁,s₁⟩,hread,heq⟩ := Option.map_eq_some_iff.mp hserve
    have hsound : Sound w₁ (pre ++ s₁::post) := by
      split at hread
      · exact h.read hread
      · cases hread
        exact h
    simp only at heq
    split at heq
    · cases heq
      have hdrop := hsound.drop
      exact ⟨hdrop.desk,hdrop.seated.rewrite rfl rfl⟩
    · cases heq
      exact ⟨hsound.desk,hsound.seated.rewrite rfl rfl⟩

theorem Sound.serveAll (h : Sound w (pre ++ slots))
    (hserve : Running.serveAll round w slots = some (w',slots')) : Sound w' (pre ++ slots') := by
  induction slots generalizing pre w slots' with
  | nil =>
    cases hserve
    exact h
  | cons s ss ih =>
    obtain ⟨⟨w₁,s₁⟩,hfirst,hrest⟩ := Option.bind_eq_some_iff.mp hserve
    obtain ⟨⟨w₂,ss₂⟩,hall,heq⟩ := Option.map_eq_some_iff.mp hrest
    cases heq
    have hsound := h.serve hfirst
    rw [List.append_cons] at hsound
    simpa using ih hsound hall

theorem Sound.step (h : Sound r.wire r.slots) (hstep : step r round = some r') :
    Sound r'.wire r'.slots := by
  obtain ⟨⟨w₁,slots₁⟩,haccept,hrest⟩ := Option.bind_eq_some_iff.mp hstep
  obtain ⟨⟨w₂,slots₂⟩,hserve,rfl⟩ := Option.map_eq_some_iff.mp hrest
  have hpolled : Sound r.wire (r.slots.map (Slot.poll round.reports)) :=
    ⟨h.desk,h.seated.poll round.reports⟩
  have haccepted : Sound w₁ ([] ++ slots₁) := hpolled.accept haccept
  have hserved := haccepted.serveAll hserve
  exact ⟨hserved.desk,hserved.seated.trim⟩

/-! ## What a round touches -/

/-- The clients are served out of `slots`: only a slot with a report has its stream read or
dropped. -/
structure Within (slots : List Slot) (w w' : Wire) : Prop where
  heard : ∀ c, Relays.heard w'.log c ≠ Relays.heard w.log c →
    ∃ s ∈ slots, s.revents.pollin ∧ ∃ fd, s.stream = some fd ∧ w.table.conn fd = some c
  closed : ∀ fd, w'.table.conn fd ≠ w.table.conn fd → w'.table.conn fd = none ∧
    ∃ s ∈ slots, s.stream = some fd ∧ s.revents ≠ .clear

theorem Within.refl (slots : List Slot) (w : Wire) : Within slots w w :=
  ⟨fun _ h => absurd rfl h,fun _ h => absurd rfl h⟩

theorem Within.open_of_open (h : Within slots w w') (hc : w'.table.conn fd = some c) :
    w.table.conn fd = some c := by
  by_contra hne
  have := (h.closed fd fun heq => hne (heq ▸ hc)).1
  simp [hc] at this

theorem Within.mono (h : Within slots w w') (hsub : slots ⊆ slots') : Within slots' w w' where
  heard c hne := by
    obtain ⟨s,hs,hrest⟩ := h.heard c hne
    exact ⟨s,hsub hs,hrest⟩
  closed fd hne := by
    obtain ⟨hnone,s,hs,hrest⟩ := h.closed fd hne
    exact ⟨hnone,s,hsub hs,hrest⟩

theorem Within.trans {w'' : Wire} (h : Within slots w w') (h' : Within slots w' w'') :
    Within slots w w'' where
  heard c hne := by
    by_cases heq : Relays.heard w'.log c = Relays.heard w.log c
    · obtain ⟨s,hs,hpollin,fd,hfd,hc⟩ := h'.heard c (heq ▸ hne)
      exact ⟨s,hs,hpollin,fd,hfd,h.open_of_open hc⟩
    · exact h.heard c heq
  closed fd hne := by
    by_cases heq : w''.table.conn fd = w'.table.conn fd
    · rw [heq] at hne ⊢
      exact h.closed fd hne
    · exact h'.closed fd heq

theorem within_drop (w : Wire) (hs : s.revents ≠ .clear) : Within [s] w (w.drop s.stream) := by
  cases hstream : s.stream with
  | none => exact .refl _ _
  | some fd =>
    refine ⟨fun _ h => absurd rfl h,fun fd' hne => ?_⟩
    by_cases hfd : fd' = fd
    · subst hfd
      exact ⟨by simp [Wire.drop,Table.close],s,by simp,hstream,hs⟩
    · simp [Wire.drop,Table.close,hfd] at hne

theorem within_read (hpollin : s.revents.pollin) (hread : Running.read round w s = some (w',s')) :
    Within [s] w w' ∧ (s' = s ∨ s' = s.drop) := by
  have hrevents : s.revents ≠ .clear := by
    intro h
    simp [h,Revents.clear] at hpollin
  unfold Running.read at hread
  split at hread
  · cases hread
    exact ⟨.refl _ _,.inl rfl⟩
  next fd hstream =>
    split at hread
    · cases hread
      exact ⟨within_drop w hrevents,.inr rfl⟩
    · cases hread
      exact ⟨within_drop w hrevents,.inr rfl⟩
    · cases hread
      exact ⟨.refl _ _,.inl rfl⟩
    next b bs hbytes =>
      obtain ⟨c,hc,hrest⟩ := Option.bind_eq_some_iff.mp hread
      obtain ⟨⟨e,written,left⟩,hoffer,heq⟩ := Option.map_eq_some_iff.mp hrest
      have hlog : Within [s] w
          {w with log := w.log ++ [.heard c (b::bs),.said c written]} := by
        refine ⟨fun d hne => ⟨s,by simp,hpollin,fd,hstream,?_⟩,fun _ h => absurd rfl h⟩
        by_cases hd : c = d
        · exact hd ▸ hc
        · simp [Relays.heard,Traffic.heardOn,hd] at hne
      simp only at heq
      split at heq
      · cases heq
        exact ⟨hlog,.inl rfl⟩
      · cases heq
        exact ⟨hlog.trans (within_drop _ hrevents),.inr rfl⟩

theorem within_serve (hserve : Running.serve round w s = some (w',s')) : Within [s] w w' := by
  rw [Running.serve] at hserve
  split at hserve
  · cases hserve
    exact .refl _ _
  · obtain ⟨⟨w₁,s₁⟩,hread,heq⟩ := Option.map_eq_some_iff.mp hserve
    have hwithin : Within [s] w w₁ ∧ (s₁ = s ∨ s₁ = s.drop) := by
      split at hread
      · exact within_read ‹_› hread
      · cases hread
        exact ⟨.refl _ _,.inl rfl⟩
    simp only at heq
    split at heq
    · cases heq
      obtain ⟨hfirst,rfl | rfl⟩ := hwithin
      · refine hfirst.trans (within_drop _ fun h => ?_)
        simp_all [Revents.clear]
      · exact hfirst
    · cases heq
      exact hwithin.1

theorem within_serveAll (hserve : Running.serveAll round w slots = some (w',slots')) :
    Within slots w w' := by
  induction slots generalizing w slots' with
  | nil =>
    cases hserve
    exact .refl _ _
  | cons s ss ih =>
    obtain ⟨⟨w₁,s₁⟩,hfirst,hrest⟩ := Option.bind_eq_some_iff.mp hserve
    obtain ⟨⟨w₂,ss₂⟩,hall,heq⟩ := Option.map_eq_some_iff.mp hrest
    cases heq
    have hhead : Within (s::ss) w w₁ := (within_serve hfirst).mono (by simp)
    exact hhead.trans ((ih hall).mono (by simp))

/-! ## Results -/

theorem mem_seat (hseat : seat fd slots = some slots') (hs : s ∈ slots') :
    s = .new fd ∨ s ∈ slots := by
  obtain ⟨pre,t,post,rfl,-,rfl⟩ | ⟨-,rfl⟩ := seat_spec hseat
  · simp only [List.mem_append,List.mem_cons] at hs ⊢
    tauto
  · simpa [or_comm] using hs

theorem mem_accept {answer : Option AcceptAnswer}
    (haccept : accept w slots answer = some (w',slots')) (hs : s ∈ slots') :
    s ∈ slots ∨ ∃ fd, s = .new fd ∧ w.table.conn fd = none := by
  unfold accept at haccept
  split at haccept
  · cases haccept
    exact .inl hs
  · cases haccept
    exact .inl hs
  · cases haccept
    exact .inl hs
  next fd =>
    split at haccept
    · next hfd =>
      split at haccept
      · next hseat =>
        cases haccept
        obtain rfl | hs := mem_seat hseat hs
        · exact .inr ⟨fd,rfl,hfd⟩
        · exact .inl hs
      · cases haccept
        exact .inl hs
    · simp at haccept

theorem sound_exec (h : exec step start rounds = some r) : Sound r.wire r.slots :=
  exec_invariant (I := fun r : Running => Sound r.wire r.slots)
    (fun _ _ _ ht hs => hs.step ht) h sound_start

theorem accept_wire {answer : Option AcceptAnswer}
    (haccept : accept w slots answer = some (w',slots')) :
    w'.log = w.log ∧ ∀ fd, w.table.conn fd ≠ none → w'.table.conn fd = w.table.conn fd := by
  unfold accept at haccept
  split at haccept
  · cases haccept
    exact ⟨rfl,fun _ _ => rfl⟩
  · cases haccept
    exact ⟨rfl,fun _ _ => rfl⟩
  · cases haccept
    exact ⟨rfl,fun _ _ => rfl⟩
  next fd =>
    split at haccept
    · next hfd =>
      have hother : ∀ fd', w.table.conn fd' ≠ none → fd' ≠ fd := by
        rintro fd' hfd' rfl
        exact hfd' hfd
      split at haccept
      · cases haccept
        exact ⟨rfl,fun fd' hfd' => by simp [Table.accept,hother fd' hfd']⟩
      · cases haccept
        exact ⟨rfl,fun fd' hfd' => by simp [Wire.drop,Table.close,Table.accept,hother fd' hfd']⟩
    · simp at haccept

/-- In every run each connection gets back, in order, what was read from it, and an open one has
had all of it. A connection is read only in a round in which poll has reported it. -/
theorem echo_when_reported (h : exec step start rounds = some r) :
    (∀ c, said r.wire.log c <+: heard r.wire.log c) ∧
    (∀ fd c, r.wire.table.conn fd = some c → said r.wire.log c = heard r.wire.log c) ∧
    ∀ round r', step r round = some r' → ∀ c, heard r'.wire.log c ≠ heard r.wire.log c →
      ∃ fd, r.wire.table.conn fd = some c ∧ (round.reports fd).pollin := by
  have hsound := sound_exec h
  refine ⟨fun c => hsound.desk.isPrefix rfl,fun fd c hc => ?_,fun round r' hstep c hne => ?_⟩
  · simpa using hsound.desk.exact hc rfl
  · obtain ⟨⟨w₁,slots₁⟩,haccept,hrest⟩ := Option.bind_eq_some_iff.mp hstep
    obtain ⟨⟨w₂,slots₂⟩,hserve,rfl⟩ := Option.map_eq_some_iff.mp hrest
    obtain ⟨hlog,hconn⟩ := accept_wire haccept
    obtain ⟨s,hs,hpollin,fd,hstream,hc⟩ :=
      (within_serveAll hserve).heard c (by simpa [hlog] using hne)
    obtain hs | ⟨_,rfl,-⟩ := mem_accept haccept hs
    · obtain ⟨s₀,hs₀,rfl⟩ := List.mem_map.mp hs
      have hfd : s₀.fd = some fd := (hsound.seated.stream s₀ hs₀).symm.trans hstream
      have hopen : r.wire.table.conn fd ≠ none :=
        (hsound.seated.mem_used fd).mp (List.mem_filterMap.mpr ⟨s₀,hs₀,hfd⟩)
      refine ⟨fd,(hconn fd hopen).symm.trans hc,?_⟩
      simpa [Slot.poll,PollFd.poll,hfd] using hpollin
    · simp [Slot.new,Revents.clear] at hpollin

/-- The first client is gone with an answer half taken; the next one gets its slot and its
descriptor. -/
def reusedSlot : List Round :=
  [⟨fun _ => .clear,some (.connection 5),fun _ => .wouldBlock,fun _ => []⟩,
    ⟨fun _ => .clear,some (.connection 6),fun _ => .wouldBlock,fun _ => []⟩,
    ⟨fun _ => ⟨true,false⟩,none,fun _ => .bytes [1,2],
      fun fd => if fd = 5 then [.taken 1,.failed] else [.taken 2]⟩,
    ⟨fun _ => .clear,some (.connection 5),fun _ => .wouldBlock,fun _ => []⟩]

theorem echo_when_reported_reusedSlot : ∃ r, exec step start reusedSlot = some r ∧
    used r.slots = [5,6] ∧ said r.wire.log 0 = [1] ∧ said r.wire.log 1 = [1,2] ∧
    ∀ c, said r.wire.log c <+: heard r.wire.log c :=
  ⟨_,rfl,rfl,rfl,rfl,(echo_when_reported (show exec step start reusedSlot = some _ from rfl)).1⟩

/-- The slots in use stand for the open descriptors, one each. A new connection is turned away
exactly when 99 others are open; otherwise it is open after the round. -/
theorem turned_away_iff (h : exec step start rounds = some r) :
    (used r.slots).Nodup ∧ (∀ fd, fd ∈ used r.slots ↔ r.wire.table.conn fd ≠ none) ∧
    ∀ round r' fd, step r round = some r' → round.accepted = some (.connection fd) →
      r'.wire.table.conn fd =
        if (used r.slots).length + 1 = maxClients then none else some r.wire.table.next := by
  have hsound := sound_exec h
  refine ⟨hsound.seated.nodup,hsound.seated.mem_used,fun round r' fd hstep haccepted => ?_⟩
  obtain ⟨⟨w₁,slots₁⟩,haccept,hrest⟩ := Option.bind_eq_some_iff.mp hstep
  obtain ⟨⟨w₂,slots₂⟩,hserve,rfl⟩ := Option.map_eq_some_iff.mp hrest
  rw [haccepted] at haccept
  have hstill : w₂.table.conn fd = w₁.table.conn fd := by
    by_contra hne
    obtain ⟨-,s,hs,hstream,hrevents⟩ := (within_serveAll hserve).closed fd hne
    obtain hs | ⟨_,rfl,-⟩ := mem_accept haccept hs
    · obtain ⟨s₀,hs₀,rfl⟩ := List.mem_map.mp hs
      have hfd : s₀.fd = some fd := (hsound.seated.stream s₀ hs₀).symm.trans hstream
      have hopen := (hsound.seated.mem_used fd).mp (List.mem_filterMap.mpr ⟨s₀,hs₀,hfd⟩)
      rw [accept] at haccept
      simp [hopen] at haccept
    · exact hrevents rfl
  have hnone : seat fd (r.slots.map (Slot.poll round.reports)) = none ↔
      (used r.slots).length + 1 = maxClients := by
    rw [seat_none_iff (by simpa using hsound.seated.length),used_poll]
  rw [accept] at haccept
  split at haccept
  · split at haccept
    · next hseat =>
      cases haccept
      have hfree : ¬ (used r.slots).length + 1 = maxClients := by
        rw [← hnone,hseat]
        simp
      rw [hstill,if_neg hfree]
      simp [Table.accept]
    · next hseat =>
      cases haccept
      rw [hstill,if_pos (hnone.mp hseat)]
      simp [Wire.drop,Table.close]
  · simp at haccept

/-- A round in which a client comes and nothing else happens. -/
def arrival (fd : ℕ) : Round :=
  ⟨fun _ => .clear,some (.connection fd),fun _ => .wouldBlock,fun _ => []⟩

/-- After 99 clients the next one is turned away. -/
theorem turned_away_iff_fullTable : ∃ r r',
    exec step start ((List.range' 4 99).map arrival) = some r ∧ (used r.slots).length = 99 ∧
      step r (arrival 103) = some r' ∧ r'.wire.table.conn 103 = none := by
  have hlength : (exec step start ((List.range' 4 99).map arrival)).bind (fun r =>
      (step r (arrival 103)).map fun _ => (used r.slots).length) = some 99 := by
    decide +kernel
  obtain ⟨r,hrun,hnext⟩ := Option.bind_eq_some_iff.mp hlength
  obtain ⟨r',hstep,hused⟩ := Option.map_eq_some_iff.mp hnext
  have hconn := (turned_away_iff hrun).2.2 (arrival 103) r' 103 hstep rfl
  rw [if_pos (by rw [hused]; rfl)] at hconn
  exact ⟨r,r',hrun,hused,hstep,hconn⟩

end Running
end PollServer
end UProtocols
