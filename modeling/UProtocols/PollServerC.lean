import UProtocols.PollServer

/-!
# The echo server on poll in C

The loop of `tcp_server_with_poll.c`, over the invariant of `UProtocols.PollServer`. The array has
its full length from the start; poll looks at the first `nfds` entries only, and what it has said of
an entry stays there until it says something else. The sockets block: a call of recv without a
report waits for the client.
-/

namespace UProtocols
namespace PollServerC

open Function Relays Runs PollServer

inductive AcceptAnswer
  | connection (fd : ℕ)
  | failed
  deriving DecidableEq

/-- What recv answers, and for a chunk how much of it send takes; a send that fails takes
nothing. -/
inductive Received
  | failed
  | data (bytes : List UInt8) (sent : ℕ)

structure Round where
  reports : ℕ → Revents
  accepted : Option AcceptAnswer
  answers : ℕ → Received

/-- The open descriptors, what went over the connections, what send did not take, and the
connections that recv was called on in this round. -/
structure Wire where
  table : Table
  log : List (Traffic UInt8)
  left : List (ℕ × List UInt8)
  received : List ℕ

namespace Wire

/-- The descriptor -1 cannot be closed. -/
def close (w : Wire) : Option ℕ → Wire
  | none => w
  | some fd => {w with table := w.table.close fd}

end Wire

/-- The entries of the clients; `nfds` is without the listening socket. -/
structure Running where
  wire : Wire
  fds : List PollFd
  nfds : ℕ

namespace Running

/-- The array is not initialized but for the descriptors. -/
def start (garbage : Fin (maxClients - 1) → Revents) : Running :=
  ⟨⟨.empty,[],[],[]⟩,List.ofFn fun i => ⟨none,garbage i⟩,0⟩

/-- The loop that looks for an unused entry, and the index it has found. -/
def seat (fd : ℕ) : List PollFd → Option (ℕ × List PollFd)
  | [] => none
  | e::es =>
    if e.fd = none then some (0,{e with fd := some fd}::es)
    else (seat fd es).map fun (i,es) => (i + 1,e::es)

/-- The system gives out descriptors that are not open. -/
def accept (w : Wire) (fds : List PollFd) (nfds fd : ℕ) : Option (Wire × List PollFd × ℕ) :=
  if w.table.conn fd = none then
    let w := {w with table := w.table.accept fd}
    match seat fd fds with
    | none => some (w.close (some fd),fds,nfds)
    | some (i,fds) => some (w,fds,if nfds ≤ i then i + 1 else nfds)
  else none

def recv (round : Round) (w : Wire) (e : PollFd) (fd : ℕ) : Option (Wire × PollFd) :=
  (w.table.conn fd).bind fun c =>
    let w := {w with received := w.received ++ [c]}
    match round.answers fd with
    | .failed | .data [] _ => some (w.close e.fd,{e with fd := none})
    | .data (b::bs) sent =>
      if sent ≤ (b::bs).length then
        some ({w with
          log := w.log ++ [.heard c (b::bs),.said c ((b::bs).take sent)]
          left := w.left ++ [(c,(b::bs).drop sent)]},e)
      else none

/-- The body of the loop over the clients. -/
def serve (round : Round) (w : Wire) (e : PollFd) : Option (Wire × PollFd) :=
  match e.fd with
  | none => some (w,e)
  | some fd =>
    (if e.revents.pollin then recv round w e fd else some (w,e)).map fun (w,e) =>
      if e.revents.hangup then (w.close e.fd,{e with fd := none}) else (w,e)

def serveAll (round : Round) (w : Wire) : List PollFd → Option (Wire × List PollFd)
  | [] => some (w,[])
  | e::es =>
    (serve round w e).bind fun (w,e) =>
      (serveAll round w es).map fun (w,es) => (w,e::es)

/-- The loop over the clients, and the removal of unused entries from the end. -/
def finish (round : Round) (w : Wire) (fds : List PollFd) (nfds : ℕ) : Option Running :=
  (serveAll round w (fds.take nfds)).map fun (w,es) =>
    ⟨w,es ++ fds.drop nfds,(es.rdropWhile fun e => e.fd = none).length⟩

/-- One round of the loop of `main`; when accept fails the clients are not looked at. -/
def step (r : Running) (round : Round) : Option Running :=
  let w := {r.wire with received := []}
  let fds := (r.fds.take r.nfds).map (PollFd.poll round.reports) ++ r.fds.drop r.nfds
  match round.accepted with
  | none => finish round w fds r.nfds
  | some .failed => some ⟨w,fds,r.nfds⟩
  | some (.connection fd) =>
    (accept w fds r.nfds fd).bind fun (w,fds,nfds) => finish round w fds nfds

end Running

/-! ## Entries as slots -/

/-- An entry with the socket behind it. -/
def asSlot (e : PollFd) : Slot := ⟨e,e.fd⟩

@[simp] theorem asSlot_fd (e : PollFd) : (asSlot e).fd = e.fd := rfl

theorem mem_used_asSlot {fds : List PollFd} {fd : ℕ} :
    fd ∈ used (fds.map asSlot) ↔ ∃ e ∈ fds, e.fd = some fd := by
  simp [used]

/-- What poll says of the entries does not touch their sockets. -/
theorem seated_congr {t : Table} {fds fds' : List PollFd}
    (h : Seated t (fds.map asSlot)) (hfds : fds'.map PollFd.fd = fds.map PollFd.fd) :
    Seated t (fds'.map asSlot) := by
  have hused : ∀ fds : List PollFd, used (fds.map asSlot) = (fds.map PollFd.fd).filterMap id := by
    intro fds
    simp [used,List.filterMap_map,Function.comp_def]
  refine ⟨by simp [asSlot],?_,?_,?_⟩
  · rw [hused,hfds,← hused]
    exact h.nodup
  · rw [hused,hfds,← hused]
    exact h.mem_used
  · have hlength := congrArg List.length hfds
    simp only [List.length_map] at hlength
    simpa [hlength] using h.length

namespace Running

variable {w w' : Wire} {fds fds' pre post es es' : List PollFd} {e e' : PollFd} {fd c nfds nfds' : ℕ}
  {round : Round} {r r' : Running} {rounds : List Round} {garbage : Fin (maxClients - 1) → Revents}

/-- Nothing is kept between the calls, and what send did not take is lost. -/
structure Booked (w : Wire) (fds : List PollFd) : Prop where
  desk : Desk w.log w.table (fun _ => []) (lost w.left)
  seated : Seated w.table (fds.map asSlot)

theorem Booked.close (h : Booked w (pre ++ e::post)) :
    Booked (w.close e.fd) (pre ++ {e with fd := none}::post) := by
  cases hfd : e.fd with
  | none =>
    have heq : {e with fd := none} = e := by rw [← hfd]
    rw [heq]
    exact h
  | some fd =>
    refine ⟨by simpa [Wire.close] using h.desk.close fd [],?_⟩
    have hseated := h.seated
    simp only [List.map_append,List.map_cons] at hseated ⊢
    exact hseated.drop hfd

theorem Booked.recv (h : Booked w (pre ++ e::post))
    (hrecv : Running.recv round w e fd = some (w',e')) : Booked w' (pre ++ e'::post) := by
  obtain ⟨c,hc,hanswer⟩ := Option.bind_eq_some_iff.mp hrecv
  have hcalled : Booked {w with received := w.received ++ [c]} (pre ++ e::post) :=
    ⟨h.desk,h.seated⟩
  split at hanswer
  · cases hanswer
    exact hcalled.close
  · cases hanswer
    exact hcalled.close
  next b bs sent hdata =>
    split at hanswer
    · cases hanswer
      refine ⟨?_,h.seated⟩
      have hbytes : update (fun _ => []) fd ([] ++ (b::bs)) fd =
          (b::bs).take sent ++ (b::bs).drop sent := by simp
      have hsay := (h.desk.hear hc (b::bs)).say hc hbytes
      have hrest : update (update (fun _ => []) fd ([] ++ (b::bs))) fd ((b::bs).drop sent) fd =
          (b::bs).drop sent ++ [] := by simp
      have hforget := hsay.forget hc hrest
      simp only [update_idem,List.append_assoc,List.singleton_append] at hforget
      simpa using hforget
    · simp at hanswer

theorem Booked.serve (h : Booked w (pre ++ e::post))
    (hserve : Running.serve round w e = some (w',e')) : Booked w' (pre ++ e'::post) := by
  rw [Running.serve] at hserve
  split at hserve
  · cases hserve
    exact h
  next fd hfd =>
    obtain ⟨⟨w₁,e₁⟩,hrecv,heq⟩ := Option.map_eq_some_iff.mp hserve
    have hbooked : Booked w₁ (pre ++ e₁::post) := by
      split at hrecv
      · exact h.recv hrecv
      · cases hrecv
        exact h
    simp only at heq
    split at heq
    · cases heq
      exact hbooked.close
    · cases heq
      exact hbooked

theorem Booked.serveAll (h : Booked w (pre ++ es ++ post))
    (hserve : Running.serveAll round w es = some (w',es')) : Booked w' (pre ++ es' ++ post) := by
  induction es generalizing pre w es' with
  | nil =>
    cases hserve
    exact h
  | cons e es ih =>
    obtain ⟨⟨w₁,e₁⟩,hfirst,hrest⟩ := Option.bind_eq_some_iff.mp hserve
    obtain ⟨⟨w₂,es₂⟩,hall,heq⟩ := Option.map_eq_some_iff.mp hrest
    cases heq
    rw [List.append_assoc,List.cons_append] at h
    have hbooked := h.serve hfirst
    rw [List.append_cons,← List.append_assoc] at hbooked
    simpa using ih hbooked hall

theorem seat_spec {i : ℕ} (h : seat fd fds = some (i,fds')) :
    ∃ pre e post, fds = pre ++ e::post ∧ pre.length = i ∧ e.fd = none ∧
      (∀ e ∈ pre, e.fd ≠ none) ∧ fds' = pre ++ {e with fd := some fd}::post := by
  induction fds generalizing i fds' with
  | nil => simp [seat] at h
  | cons e es ih =>
    rw [seat] at h
    split at h
    · cases h
      exact ⟨[],e,es,rfl,rfl,‹_›,by simp,rfl⟩
    · obtain ⟨⟨j,es'⟩,hseat,heq⟩ := Option.map_eq_some_iff.mp h
      cases heq
      obtain ⟨pre,t,post,rfl,rfl,ht,hpre,rfl⟩ := ih hseat
      exact ⟨e::pre,t,post,rfl,rfl,ht,by simpa using ⟨‹_›,hpre⟩,rfl⟩

theorem seat_none (h : seat fd fds = none) : ∀ e ∈ fds, e.fd ≠ none := by
  induction fds with
  | nil => simp
  | cons e es ih =>
    rw [seat] at h
    split at h
    · simp at h
    · exact List.forall_mem_cons.mpr ⟨‹_›,ih (Option.map_eq_none_iff.mp h)⟩

/-- A connection gets the first entry that is unused, or is closed. -/
theorem Booked.accept (h : Booked w fds)
    (haccept : Running.accept w fds nfds fd = some (w',fds',nfds')) : Booked w' fds' := by
  rw [Running.accept] at haccept
  split at haccept
  · next hfd =>
    have hdesk := h.desk.accept hfd rfl
    split at haccept
    · cases haccept
      exact ⟨by simpa [Wire.close] using hdesk.close fd [],h.seated.turnAway hfd⟩
    · next hseat =>
      cases haccept
      obtain ⟨pre,e,post,rfl,-,he,-,rfl⟩ := seat_spec hseat
      refine ⟨hdesk,?_⟩
      have hseated := h.seated
      simp only [List.map_append,List.map_cons] at hseated ⊢
      exact (hseated.reuse he hfd).rewrite rfl rfl
  · simp at haccept

theorem drop_behind (h : pre.length < nfds) :
    (pre ++ e::post).drop nfds = post.drop (nfds - (pre.length + 1)) := by
  rw [List.append_cons,List.drop_append,List.drop_eq_nil_of_le (by simpa using Nat.succ_le_of_lt h)]
  simp

/-- The entries behind the table are unused, and the array keeps its length. -/
structure Sound (r : Running) : Prop where
  booked : Booked r.wire r.fds
  behind : ∀ e ∈ r.fds.drop r.nfds, e.fd = none
  length : r.fds.length + 1 = maxClients

theorem start_free : ∀ e ∈ (start garbage).fds, e.fd = none := by
  intro e he
  obtain ⟨i,rfl⟩ := List.mem_ofFn.mp he
  rfl

theorem length_start : (start garbage).fds.length + 1 = maxClients := by
  rw [start,List.length_ofFn]
  rfl

theorem sound_start : Sound (start garbage) where
  booked := by
    have hused : used ((start garbage).fds.map asSlot) = [] := by
      rw [used,List.filterMap_eq_nil_iff]
      simpa using start_free
    refine ⟨Desk.empty,?_,?_,?_,?_⟩
    · simp [asSlot]
    · simp [hused]
    · simp only [hused]
      simp [start,Table.empty]
    · rw [List.length_map,length_start]
  behind e he := start_free e (List.mem_of_mem_drop he)
  length := length_start

theorem serveAll_length (hserve : serveAll round w es = some (w',es')) :
    es'.length = es.length := by
  induction es generalizing w es' with
  | nil =>
    cases hserve
    rfl
  | cons e es ih =>
    obtain ⟨⟨w₁,e₁⟩,-,hrest⟩ := Option.bind_eq_some_iff.mp hserve
    obtain ⟨⟨w₂,es₂⟩,hall,heq⟩ := Option.map_eq_some_iff.mp hrest
    cases heq
    simp [ih hall]

theorem Booked.finish (h : Booked w fds) (hbehind : ∀ e ∈ fds.drop nfds, e.fd = none)
    (hlength : fds.length + 1 = maxClients) (hfinish : Running.finish round w fds nfds = some r') :
    Sound r' := by
  obtain ⟨⟨w₁,es⟩,hserve,rfl⟩ := Option.map_eq_some_iff.mp hfinish
  have hbooked : Booked w ([] ++ fds.take nfds ++ fds.drop nfds) := by simpa using h
  have hall := hbooked.serveAll hserve
  refine ⟨by simpa using hall,fun e he => ?_,?_⟩
  · have hsplit : es ++ fds.drop nfds = es.rdropWhile (fun e => e.fd = none) ++
        (es.rtakeWhile (fun e => e.fd = none) ++ fds.drop nfds) := by
      rw [← List.append_assoc,List.rdropWhile_append_rtakeWhile]
    simp only [hsplit,List.drop_left,List.mem_append] at he
    obtain he | he := he
    · simpa using List.mem_rtakeWhile_imp he
    · exact hbehind e he
  · have hlen := serveAll_length hserve
    simp only [List.length_append,hlen]
    rw [← List.length_append,List.take_append_drop]
    exact hlength

theorem accept_behind (hbehind : ∀ e ∈ fds.drop nfds, e.fd = none)
    (haccept : accept w fds nfds fd = some (w',fds',nfds')) :
    (∀ e ∈ fds'.drop nfds', e.fd = none) ∧ fds'.length = fds.length := by
  rw [accept] at haccept
  split at haccept
  · split at haccept
    · cases haccept
      exact ⟨hbehind,rfl⟩
    · next hseat =>
      cases haccept
      obtain ⟨pre,e,post,rfl,rfl,he,hpre,rfl⟩ := seat_spec hseat
      refine ⟨fun e' he' => ?_,by simp⟩
      have hbeyond : pre.length < (if nfds ≤ pre.length then pre.length + 1 else nfds) := by
        split <;> omega
      have hle : nfds ≤ (if nfds ≤ pre.length then pre.length + 1 else nfds) := by
        split <;> omega
      rw [drop_behind hbeyond,← drop_behind (e := e) hbeyond] at he'
      exact hbehind e' ((List.drop_sublist_drop_left _ hle).mem he')
  · simp at haccept

theorem polled_fds (reports : ℕ → Revents) (fds : List PollFd) (nfds : ℕ) :
    ((fds.take nfds).map (PollFd.poll reports) ++ fds.drop nfds).map PollFd.fd =
      fds.map PollFd.fd := by
  have hpoll : PollFd.fd ∘ PollFd.poll reports = PollFd.fd := by
    funext e
    rfl
  rw [List.map_append,List.map_map,hpoll,← List.map_append,List.take_append_drop]

theorem drop_polled (reports : ℕ → Revents) (fds : List PollFd) (nfds : ℕ) :
    ((fds.take nfds).map (PollFd.poll reports) ++ fds.drop nfds).drop nfds = fds.drop nfds := by
  obtain hlt | hle := Nat.lt_or_ge fds.length nfds
  · rw [List.drop_eq_nil_of_le (by simpa using by omega),List.drop_eq_nil_of_le hlt.le]
  · exact List.drop_left' (by simp [hle])

theorem Sound.step (h : Sound r) (hstep : step r round = some r') : Sound r' := by
  have hpolled : Booked {r.wire with received := []}
      ((r.fds.take r.nfds).map (PollFd.poll round.reports) ++ r.fds.drop r.nfds) :=
    ⟨h.booked.desk,seated_congr h.booked.seated (polled_fds _ _ _)⟩
  have hbehind := h.behind
  rw [← drop_polled round.reports] at hbehind
  have hlength := congrArg List.length (polled_fds round.reports r.fds r.nfds)
  simp only [List.length_map] at hlength
  rw [Running.step] at hstep
  split at hstep
  · exact hpolled.finish hbehind (hlength ▸ h.length) hstep
  · cases hstep
    exact ⟨hpolled,hbehind,hlength ▸ h.length⟩
  · obtain ⟨⟨w₁,fds₁,nfds₁⟩,haccept,hfinish⟩ := Option.bind_eq_some_iff.mp hstep
    obtain ⟨hbehind₁,hlength₁⟩ := accept_behind hbehind haccept
    exact (hpolled.accept haccept).finish hbehind₁ (hlength₁.trans hlength ▸ h.length) hfinish

theorem sound_exec (h : exec step (start garbage) rounds = some r) : Sound r :=
  exec_invariant (fun _ _ _ ht hs => hs.step ht) h sound_start

/-! ## Calls of recv -/

/-- The connection of an entry that has a report. -/
def Reported (w : Wire) (e : PollFd) (c : ℕ) : Prop :=
  e.revents.pollin ∧ ∃ fd, e.fd = some fd ∧ w.table.conn fd = some c

@[simp] theorem close_received (w : Wire) (fd : Option ℕ) : (w.close fd).received = w.received := by
  cases fd <;> rfl

theorem close_conn {o : Option ℕ} (hfd : o ≠ some fd) :
    (w.close o).table.conn fd = w.table.conn fd := by
  cases o with
  | none => rfl
  | some fd' =>
    have hne : fd ≠ fd' := fun heq => hfd (congrArg some heq.symm)
    simp [Wire.close,Table.close,hne]

/-- What serving an entry does to the report there, to other sockets and to the calls. -/
structure Serves (w : Wire) (e : PollFd) (w' : Wire) (e' : PollFd) : Prop where
  revents : e'.revents = e.revents
  other : ∀ fd, e.fd ≠ some fd → w'.table.conn fd = w.table.conn fd
  received : ∀ c, c ∈ w'.received ↔ c ∈ w.received ∨ Reported w e c

theorem serves_recv (hfd : e.fd = some fd) (hpollin : e.revents.pollin)
    (hrecv : recv round w e fd = some (w',e')) :
    Serves w e w' e' ∧ (e'.fd = none ∨ e'.fd = e.fd) := by
  obtain ⟨c,hc,hanswer⟩ := Option.bind_eq_some_iff.mp hrecv
  have hreported : ∀ d, Reported w e d ↔ d = c := by
    intro d
    simp [Reported,hpollin,hfd,hc,eq_comm]
  split at hanswer
  · cases hanswer
    exact ⟨⟨rfl,fun fd' hfd' => close_conn hfd',by simp [hreported]⟩,.inl rfl⟩
  · cases hanswer
    exact ⟨⟨rfl,fun fd' hfd' => close_conn hfd',by simp [hreported]⟩,.inl rfl⟩
  · split at hanswer
    · cases hanswer
      exact ⟨⟨rfl,fun _ _ => rfl,by simp [hreported]⟩,.inr rfl⟩
    · simp at hanswer

theorem serves_serve (hserve : serve round w e = some (w',e')) : Serves w e w' e' := by
  rw [serve] at hserve
  split at hserve
  · next hfd =>
    cases hserve
    exact ⟨rfl,fun _ _ => rfl,by simp [Reported,hfd]⟩
  next fd hfd =>
    obtain ⟨⟨w₁,e₁⟩,hrecv,heq⟩ := Option.map_eq_some_iff.mp hserve
    have hserves : Serves w e w₁ e₁ ∧ (e₁.fd = none ∨ e₁.fd = e.fd) := by
      split at hrecv
      · exact serves_recv hfd ‹_› hrecv
      · cases hrecv
        exact ⟨⟨rfl,fun _ _ => rfl,by simp_all [Reported]⟩,.inr rfl⟩
    obtain ⟨hserves,hsocket⟩ := hserves
    simp only at heq
    split at heq
    · cases heq
      refine ⟨hserves.revents,fun fd' hfd' => ?_,by simpa using hserves.received⟩
      rw [← hserves.other fd' hfd']
      apply close_conn
      obtain hnone | hsame := hsocket
      · simp [hnone]
      · rwa [hsame]
    · cases heq
      exact hserves

/-- Recv is called for the entries with a report, and what poll has said stays. -/
theorem serves_serveAll (hdistinct : (es.filterMap PollFd.fd).Nodup)
    (hserve : serveAll round w es = some (w',es')) :
    es'.map PollFd.revents = es.map PollFd.revents ∧
      ∀ c, c ∈ w'.received ↔ c ∈ w.received ∨ ∃ e ∈ es, Reported w e c := by
  induction es generalizing w es' with
  | nil =>
    cases hserve
    simp
  | cons e es ih =>
    obtain ⟨⟨w₁,e₁⟩,hfirst,hrest⟩ := Option.bind_eq_some_iff.mp hserve
    obtain ⟨⟨w₂,es₂⟩,hall,heq⟩ := Option.map_eq_some_iff.mp hrest
    cases heq
    have hserves := serves_serve hfirst
    have htail : (es.filterMap PollFd.fd).Nodup :=
      hdistinct.sublist ((List.sublist_cons_self e es).filterMap _)
    obtain ⟨hrevents,hreceived⟩ := ih htail hall
    have hsame : ∀ e' ∈ es, ∀ c, Reported w₁ e' c ↔ Reported w e' c := by
      intro e' he' c
      refine and_congr_right fun _ => exists_congr fun fd => and_congr_right fun hfd => ?_
      rw [hserves.other]
      intro hfirst
      rw [List.filterMap_cons,hfirst] at hdistinct
      exact (List.nodup_cons.mp hdistinct).1 (List.mem_filterMap.mpr ⟨e',he',hfd⟩)
    refine ⟨by simp [hserves.revents,hrevents],fun c => ?_⟩
    have hlast : (∃ e' ∈ es, Reported w₁ e' c) ↔ ∃ e' ∈ es, Reported w e' c :=
      exists_congr fun e' => and_congr_right fun he' => hsame e' he' c
    rw [hreceived,hserves.received,hlast]
    simp [or_assoc]

/-- The entries that poll looks at are all in use. -/
def Full (r : Running) : Prop := ∀ e ∈ r.fds.take r.nfds, e.fd ≠ none

/-- What the first entry behind these has from earlier rounds. -/
def leftOver (r : Running) : Option Revents := (r.fds[r.nfds]?).map PollFd.revents

theorem take_middle (h : pre.length < nfds) :
    (pre ++ e::post).take nfds = pre ++ e::post.take (nfds - (pre.length + 1)) := by
  have hpos : nfds - pre.length = (nfds - (pre.length + 1)) + 1 := by omega
  rw [List.take_append,List.take_of_length_le h.le,hpos,List.take_succ_cons]

theorem take_polled (reports : ℕ → Revents) (fds : List PollFd) (nfds : ℕ) :
    ((fds.take nfds).map (PollFd.poll reports) ++ fds.drop nfds).take nfds =
      (fds.take nfds).map (PollFd.poll reports) := by
  obtain hlt | hle := Nat.lt_or_ge fds.length nfds
  · rw [List.drop_eq_nil_of_le hlt.le,List.append_nil,List.take_of_length_le]
    rw [List.length_map]
    exact List.length_take_le _ _
  · exact List.take_left' (by simp [hle])

theorem mem_open (h : Sound r) (he : e ∈ r.fds) (hfd : e.fd = some fd) :
    r.wire.table.conn fd ≠ none :=
  (h.booked.seated.mem_used fd).mp (mem_used_asSlot.mpr ⟨e,he,hfd⟩)

/-- Of the entries that poll looks at, those with a report stand for the connections that it
reports. -/
theorem reported_polled (h : Sound r) (reports : ℕ → Revents)
    (hconn : ∀ fd, r.wire.table.conn fd ≠ none → w.table.conn fd = r.wire.table.conn fd) (c : ℕ) :
    (∃ e ∈ (r.fds.take r.nfds).map (PollFd.poll reports), Reported w e c) ↔
      ∃ fd, r.wire.table.conn fd = some c ∧ (reports fd).pollin := by
  constructor
  · rintro ⟨_,hmem,hpollin,fd,hfd,hc⟩
    obtain ⟨e,he,rfl⟩ := List.mem_map.mp hmem
    have hopen := mem_open h (List.mem_of_mem_take he) hfd
    refine ⟨fd,(hconn fd hopen).symm.trans hc,?_⟩
    have hfd' : e.fd = some fd := hfd
    simpa [PollFd.poll,hfd'] using hpollin
  · rintro ⟨fd,hc,hpollin⟩
    have hopen : r.wire.table.conn fd ≠ none := by simp [hc]
    obtain ⟨e,he,hfd⟩ := mem_used_asSlot.mp ((h.booked.seated.mem_used fd).mpr hopen)
    rw [← List.take_append_drop r.nfds r.fds,List.mem_append] at he
    obtain he | he := he
    · refine ⟨_,List.mem_map_of_mem he,?_,fd,hfd,(hconn fd hopen).trans hc⟩
      simpa [PollFd.poll,hfd] using hpollin
    · simp [h.behind e he] at hfd

/-- The entries that are served after an acceptance: the table with the new connection in a hole
that poll has cleared, or at its end with what was left over there. -/
theorem accept_table (h : Sound r) {reports : ℕ → Revents}
    (haccept : accept w ((r.fds.take r.nfds).map (PollFd.poll reports) ++ r.fds.drop r.nfds) r.nfds
      fd = some (w',fds',nfds')) :
    let table := (r.fds.take r.nfds).map (PollFd.poll reports)
    (fds'.take nfds' = table ∧ r.leftOver = none) ∨
      w'.table.conn fd = some w.table.next ∧
        ((∃ pre e post, table = pre ++ e::post ∧ e.fd = none ∧
            fds'.take nfds' = pre ++ ⟨some fd,.clear⟩::post) ∨
          ∃ v, r.Full ∧ r.leftOver = some v ∧ fds'.take nfds' = table ++ [⟨some fd,v⟩]) := by
  intro table
  rw [accept] at haccept
  split at haccept
  swap
  · simp at haccept
  have htake : (table ++ r.fds.drop r.nfds).take r.nfds = table := take_polled _ _ _
  split at haccept
  · next hseat =>
    cases haccept
    refine .inl ⟨htake,?_⟩
    have hnone : r.fds.drop r.nfds = [] := by
      refine List.eq_nil_iff_forall_not_mem.mpr fun e he => ?_
      exact seat_none hseat e (List.mem_append_right _ he) (h.behind e he)
    rw [leftOver,List.getElem?_eq_none (by simpa using hnone)]
    rfl
  · next i fds₁ hseat =>
    cases haccept
    refine .inr ⟨by simp [Table.accept],?_⟩
    obtain ⟨pre,e,post,hsplit,rfl,he,hpre,rfl⟩ := seat_spec hseat
    obtain hlt | hle := Nat.lt_or_ge pre.length r.nfds
    · left
      have hsplit' : table = pre ++ e::post.take (r.nfds - (pre.length + 1)) := by
        rw [← htake,hsplit,take_middle hlt]
      have hrevents : e.revents = .clear := by
        have hmem : e ∈ table := by simp [hsplit']
        obtain ⟨e₀,-,rfl⟩ := List.mem_map.mp hmem
        have hfd : e₀.fd = none := he
        simp [PollFd.poll,hfd]
      refine ⟨pre,e,_,hsplit',he,?_⟩
      rw [if_neg (by omega),take_middle hlt,hrevents]
    · right
      have hbehind : ∀ e ∈ pre.drop r.nfds, False := by
        intro e' he'
        refine hpre e' (List.mem_of_mem_drop he') (h.behind e' ?_)
        rw [← drop_polled reports,hsplit,List.drop_append]
        exact List.mem_append_left _ he'
      have hlength : pre.length = r.nfds := by
        have hnil : pre.drop r.nfds = [] := List.eq_nil_iff_forall_not_mem.mpr hbehind
        have := List.drop_eq_nil_iff.mp hnil
        omega
      have htable : table = pre := by rw [← htake,hsplit,← hlength,List.take_left]
      have hdrop : r.fds.drop r.nfds = e::post := by
        have hsplit' : table ++ r.fds.drop r.nfds = pre ++ e::post := hsplit
        rw [htable] at hsplit'
        exact List.append_cancel_left hsplit'
      refine ⟨e.revents,fun e₀ he₀ => ?_,?_,?_⟩
      · have hmem : e₀.poll reports ∈ table := List.mem_map_of_mem he₀
        rw [htable] at hmem
        exact hpre (e₀.poll reports) hmem
      · have hget : r.fds[r.nfds]? = (r.fds.drop r.nfds)[0]? := by simp
        rw [leftOver,hget,hdrop]
        rfl
      · rw [if_pos hle,htable,take_middle (Nat.lt_succ_self _),Nat.sub_self,List.take_zero]

theorem finish_received (h : Booked w fds) (hfinish : finish round w fds nfds = some r') (c : ℕ) :
    c ∈ r'.wire.received ↔ c ∈ w.received ∨ ∃ e ∈ fds.take nfds, Reported w e c := by
  obtain ⟨⟨w₁,es⟩,hserve,rfl⟩ := Option.map_eq_some_iff.mp hfinish
  have hdistinct : (fds.filterMap PollFd.fd).Nodup := by
    simpa [used,List.filterMap_map,Function.comp_def] using h.seated.nodup
  have htable := hdistinct.sublist ((List.take_sublist nfds fds).filterMap _)
  exact (serves_serveAll htable hserve).2 c

theorem booked_polled (h : Sound r) (reports : ℕ → Revents) :
    Booked {r.wire with received := []}
      ((r.fds.take r.nfds).map (PollFd.poll reports) ++ r.fds.drop r.nfds) :=
  ⟨h.booked.desk,seated_congr h.booked.seated (polled_fds _ _ _)⟩

theorem accept_conn (haccept : accept w fds nfds fd = some (w',fds',nfds')) :
    w'.received = w.received ∧
      ∀ fd, w.table.conn fd ≠ none → w'.table.conn fd = w.table.conn fd := by
  rw [accept] at haccept
  split at haccept
  · next hfd =>
    have hother : ∀ fd', w.table.conn fd' ≠ none → fd' ≠ fd := by
      rintro fd' hfd' rfl
      exact hfd' hfd
    split at haccept
    · cases haccept
      exact ⟨rfl,fun fd' hfd' => by simp [Wire.close,Table.close,Table.accept,hother fd' hfd']⟩
    · cases haccept
      exact ⟨rfl,fun fd' hfd' => by simp [Table.accept,hother fd' hfd']⟩
  · simp at haccept

/-- In a round of any run recv is called on the connections that poll has reported, and, before
there is any report of it, on the new connection if all entries before its own are in use and POLLIN
was left over in its own. -/
theorem received_iff (h : exec step (start garbage) rounds = some r)
    (hstep : step r round = some r') (c : ℕ) :
    c ∈ r'.wire.received ↔ round.accepted ≠ some .failed ∧
      ((∃ fd, r.wire.table.conn fd = some c ∧ (round.reports fd).pollin) ∨
        c = r.wire.table.next ∧ (∃ fd, round.accepted = some (.connection fd)) ∧ r.Full ∧
          ∃ v, r.leftOver = some v ∧ v.pollin) := by
  have hsound := sound_exec h
  have hpolled := booked_polled hsound round.reports
  rw [step] at hstep
  split at hstep
  · next hnone =>
    have hold := reported_polled hsound round.reports (fun _ _ => rfl) c
    refine (finish_received hpolled hstep c).trans ?_
    rw [take_polled]
    refine (or_congr_right hold).trans ?_
    simp [hnone]
  · next hfailed =>
    cases hstep
    simp [hfailed]
  · next fd hconnection =>
    obtain ⟨⟨w₁,fds₁,nfds₁⟩,haccept,hfinish⟩ := Option.bind_eq_some_iff.mp hstep
    obtain ⟨hreceived,hconn⟩ := accept_conn haccept
    have hold := reported_polled hsound round.reports hconn c
    rw [finish_received (hpolled.accept haccept) hfinish,hreceived,hconnection]
    obtain ⟨htake,hleft⟩ | ⟨hnew,⟨pre,e,post,htable,he,htake⟩ | ⟨v,hfull,hleft,htake⟩⟩ :=
      accept_table hsound haccept
    · rw [htake,hold]
      simp [hleft]
    · have hhole : ¬ r.Full := by
        intro hfull
        have hmem : e ∈ (r.fds.take r.nfds).map (PollFd.poll round.reports) := by simp [htable]
        obtain ⟨e₀,he₀,rfl⟩ := List.mem_map.mp hmem
        exact hfull e₀ he₀ he
      rw [htable] at hold
      rw [htake,← hold]
      simp [hhole,Reported,Revents.clear,he,or_and_right,exists_or]
    · have hnext : Reported w₁ ⟨some fd,v⟩ c ↔ v.pollin ∧ c = r.wire.table.next := by
        rw [@eq_comm _ c]
        simp [Reported,hnew]
      rw [htake,← hold]
      simp only [List.mem_append,List.mem_singleton,or_and_right,exists_or,exists_eq_left,hnext]
      simp [hleft,hfull,and_comm]

/-- A client arrives on descriptor 4; nobody is reported. -/
def arrival : Round := ⟨fun _ => .clear,some (.connection 4),fun _ => .data [7] 1⟩

/-- It is reported and has closed its end. -/
def departure : Round := ⟨fun _ => ⟨true,false⟩,none,fun _ => .data [] 0⟩

theorem received_iff_nextClient : ∃ r r',
    exec step (start fun _ => .clear) [arrival,departure] = some r ∧ step r arrival = some r' ∧
      r.wire.table.next ∈ r'.wire.received := by
  obtain ⟨r,hrun,hempty,hleft,r',hstep⟩ : ∃ r,
      exec step (start fun _ => .clear) [arrival,departure] = some r ∧ r.nfds = 0 ∧
        r.leftOver = some ⟨true,false⟩ ∧ ∃ r', step r arrival = some r' :=
    ⟨_,rfl,rfl,rfl,_,rfl⟩
  have hfull : r.Full := by simp [Full,hempty]
  refine ⟨r,r',hrun,hstep,?_⟩
  exact (received_iff hrun hstep _).mpr ⟨by decide,.inr ⟨rfl,⟨4,rfl⟩,hfull,_,hleft,rfl⟩⟩

/-! ## What is left over -/

theorem seat_revents {i : ℕ} (h : seat fd fds = some (i,fds')) :
    fds'.map PollFd.revents = fds.map PollFd.revents := by
  obtain ⟨pre,e,post,rfl,-,-,-,rfl⟩ := seat_spec h
  simp

theorem accept_revents (haccept : accept w fds nfds fd = some (w',fds',nfds')) :
    fds'.map PollFd.revents = fds.map PollFd.revents := by
  rw [accept] at haccept
  split at haccept
  · split at haccept
    · cases haccept
      rfl
    · next hseat =>
      cases haccept
      exact seat_revents hseat
  · simp at haccept

theorem finish_revents (h : Booked w fds) (hfinish : finish round w fds nfds = some r') :
    r'.fds.map PollFd.revents = fds.map PollFd.revents := by
  obtain ⟨⟨w₁,es⟩,hserve,rfl⟩ := Option.map_eq_some_iff.mp hfinish
  have hdistinct : (fds.filterMap PollFd.fd).Nodup := by
    simpa [used,List.filterMap_map,Function.comp_def] using h.seated.nodup
  have htable := hdistinct.sublist ((List.take_sublist nfds fds).filterMap _)
  rw [List.map_append,(serves_serveAll htable hserve).1,← List.map_append,List.take_append_drop]

/-- Only poll writes its reports. -/
theorem step_revents (h : Sound r) (hstep : step r round = some r') :
    r'.fds.map PollFd.revents =
      ((r.fds.take r.nfds).map (PollFd.poll round.reports) ++ r.fds.drop r.nfds).map
        PollFd.revents := by
  have hpolled := booked_polled h round.reports
  rw [step] at hstep
  split at hstep
  · exact finish_revents hpolled hstep
  · cases hstep
    rfl
  · obtain ⟨⟨w₁,fds₁,nfds₁⟩,haccept,hfinish⟩ := Option.bind_eq_some_iff.mp hstep
    exact (finish_revents (hpolled.accept haccept) hfinish).trans (accept_revents haccept)

/-- An entry that was in use before the round, and is the first one behind the table after it, has
the last report of its socket left over. -/
theorem leftOver_eq (h : Sound r) (hstep : step r round = some r')
    (he : r.fds[r'.nfds]? = some e) (hfd : e.fd = some fd) :
    r'.leftOver = some (round.reports fd) := by
  have hlt : r'.nfds < r.nfds := by
    by_contra hge
    have hmem : e ∈ r.fds.drop r.nfds := by
      refine List.mem_iff_getElem?.mpr ⟨r'.nfds - r.nfds,?_⟩
      rwa [List.getElem?_drop,Nat.add_sub_cancel' (Nat.le_of_not_lt hge)]
    simp [h.behind e hmem] at hfd
  have htable : (r.fds.take r.nfds)[r'.nfds]? = some e := by rwa [List.getElem?_take_of_lt hlt]
  obtain ⟨hbound,-⟩ := List.getElem?_eq_some_iff.mp htable
  rw [leftOver,← List.getElem?_map,step_revents h hstep,List.getElem?_map,
    List.getElem?_append_left (by simpa using hbound),List.getElem?_map,htable]
  simp [PollFd.poll,hfd]

/-- A client leaves, and its entry is the first one behind a table in use. The next client is
received from before poll has reported it exactly when the last report of the one that has left had
POLLIN. -/
theorem next_received_iff {r₁ r₂ : Running} {leaving entering : Round} {fd' : ℕ}
    (h : exec step (start garbage) rounds = some r) (hleave : step r leaving = some r₁)
    (he : r.fds[r₁.nfds]? = some e) (hfd : e.fd = some fd) (hfull : r₁.Full)
    (henter : step r₁ entering = some r₂) (haccepted : entering.accepted = some (.connection fd')) :
    r₁.wire.table.next ∈ r₂.wire.received ↔ (leaving.reports fd).pollin := by
  have hrun : exec step (start garbage) (rounds ++ [leaving]) = some r₁ :=
    exec_append.mpr ⟨r,h,exec_cons.mpr ⟨r₁,hleave,rfl⟩⟩
  have hunknown : ∀ fd, r₁.wire.table.conn fd ≠ some r₁.wire.table.next := fun fd hc =>
    Nat.lt_irrefl _ ((sound_exec hrun).booked.desk.lt_next hc)
  rw [received_iff hrun henter]
  simp [haccepted,hunknown,hfull,leftOver_eq (sound_exec h) hleave he hfd]

theorem next_received_iff_sameDescriptor : ∃ r r₁ r₂,
    exec step (start fun _ => .clear) [arrival] = some r ∧ step r departure = some r₁ ∧
      step r₁ arrival = some r₂ ∧ r₁.wire.table.next ∈ r₂.wire.received := by
  obtain ⟨r,hrun,r₁,hleave,⟨v,he⟩,hempty,r₂,henter⟩ : ∃ r,
      exec step (start fun _ => .clear) [arrival] = some r ∧ ∃ r₁, step r departure = some r₁ ∧
        (∃ v, r.fds[r₁.nfds]? = some ⟨some 4,v⟩) ∧ r₁.nfds = 0 ∧ ∃ r₂, step r₁ arrival = some r₂ :=
    ⟨_,rfl,_,rfl,⟨_,rfl⟩,rfl,_,rfl⟩
  have hfull : r₁.Full := by simp [Full,hempty]
  refine ⟨r,r₁,r₂,hrun,hleave,henter,?_⟩
  exact (next_received_iff hrun hleave he rfl hfull henter rfl).mpr rfl

/-- Each connection gets back, in order, only what was received from it; on an open one just the
parts that send did not take are missing. -/
theorem echo_but_unsent (h : exec step (start garbage) rounds = some r) :
    (∀ c, (said r.wire.log c).Sublist (heard r.wire.log c)) ∧
      ∀ fd c, r.wire.table.conn fd = some c →
        Woven (lost r.wire.left c) (said r.wire.log c) (heard r.wire.log c) := by
  have hdesk := (sound_exec h).booked.desk
  exact ⟨hdesk.sublist,fun _ _ hc => (hdesk.account hc).woven⟩

end Running
end PollServerC
end UProtocols
