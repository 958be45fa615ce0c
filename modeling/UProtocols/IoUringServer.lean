import Mathlib.Data.Finset.Card
import Mathlib.Data.List.Perm.Basic
import UProtocols.Runs
import UProtocols.Relays

/-!
# The echo server on io_uring

The event loop of `io_uring_tcp_echo_server.rs`. The server pushes entries into the submission
queue and keeps what it knows of each operation under the token of its entry; the kernel carries
out the entries it was given and completes them in any order with any result. An entry says which
bytes it sends, or whose bytes it receives, so that the kernel and the server may disagree.
-/

namespace UProtocols
namespace IoUringServer

open Function Relays Runs

def queueDepth : ℕ := 256

def bufferSize : ℕ := 4096

inductive EventType
  | accept | read | write
  deriving DecidableEq

/-- `buffer` is the part of the buffer that the operation sends. -/
structure ConnectionInfo where
  eventType : EventType
  fd : ℕ
  buffer : List UInt8
  deriving DecidableEq

/-- An entry of the submission queue, with its token as user data. -/
structure Entry where
  token : ℕ
  opcode : EventType
  fd : ℕ
  data : List UInt8
  deriving DecidableEq

/-- How the kernel completes an entry. -/
inductive Completion
  | failed
  | accepted (fd : ℕ)
  | received (data : List UInt8)
  | sent (n : ℕ)

/-- `taken` counts the entries that the kernel took at the last submission: a push still counts
them, because the queue was synchronised before. -/
structure Server where
  tokenCounter : ℕ
  buffers : ℕ → Option ConnectionInfo
  taken : ℕ
  sq : List Entry

/-- The server with the entries that the kernel works on, the open descriptors of clients, what
went over the connections, what was left of a chunk by a short send, and whether a push has found
the submission queue full. -/
structure Running where
  server : Server
  kernel : List Entry
  table : Table
  log : List (Traffic UInt8)
  left : List (ℕ × List UInt8)
  panicked : Bool

/-- A descriptor that is accepted is not open, and no more is moved than there is room for. -/
def Entry.allows (e : Entry) (t : Table) : Completion → Bool
  | .failed => true
  | .accepted fd => e.opcode = .accept ∧ t.conn fd = none
  | .received data => e.opcode = .read ∧ data.length ≤ bufferSize
  | .sent n => e.opcode = .write ∧ n ≤ e.data.length

namespace Running

/-- Push an entry with the next token and keep what is known of it. -/
def submit (r : Running) (eventType : EventType) (fd : ℕ) (buffer : List UInt8) : Running :=
  let token := r.server.tokenCounter + 1
  if r.server.taken + r.server.sq.length < queueDepth then
    {r with server := {r.server with
      tokenCounter := token
      buffers := update r.server.buffers token (some ⟨eventType,fd,buffer⟩)
      sq := r.server.sq ++ [⟨token,eventType,fd,buffer⟩]}}
  else {r with panicked := true}

/-- Take what is kept under a token. -/
def remove (r : Running) (token : ℕ) : Running :=
  {r with server := {r.server with buffers := update r.server.buffers token none}}

def accept (r : Running) (fd : ℕ) : Running := {r with table := r.table.accept fd}

def close (r : Running) (fd : ℕ) : Running := {r with table := r.table.close fd}

/-- The kernel is given what was pushed. -/
def flush (r : Running) : Running :=
  {r with server := {r.server with taken := r.server.sq.length, sq := []},
          kernel := r.kernel ++ r.server.sq}

def empty : Running := ⟨⟨0,fun _ => none,0,[]⟩,[],.empty,[],[],false⟩

def start (listener : ℕ) : Running := (empty.submit .accept listener []).flush

/-- What goes over the connection of an entry. -/
def transfer (r : Running) (e : Entry) : Completion → Running
  | .received data =>
    match r.table.conn e.fd with
    | some c => {r with log := r.log ++ [.heard c data]}
    | none => r
  | .sent n =>
    match r.table.conn e.fd with
    | some c => {r with
        log := r.log ++ [.said c (e.data.take n)]
        left := if n < e.data.length then r.left ++ [(c,e.data.drop n)] else r.left}
    | none => r
  | .failed | .accepted _ => r

/-- What the loop does with a completion, by what it has kept under the token. -/
def handle (listener : ℕ) (r : Running) (token : ℕ) (completion : Completion) : Option Running :=
  match r.server.buffers token with
  | none => some r
  | some info =>
    let r := r.remove token
    match info.eventType, completion with
    | .accept, .failed => some r
    | .read, .failed | .write, .failed => some (r.close info.fd)
    | .accept, .accepted fd =>
      some (((r.accept fd).submit .read fd []).submit .accept listener [])
    | .read, .received [] => some (r.close info.fd)
    | .read, .received (b::bs) => some (r.submit .write info.fd (b::bs))
    | .write, .sent _ => some (r.submit .read info.fd [])
    | _, _ => none

end Running

/-- The kernel completes the entry at a place of its list, or is given what was pushed. -/
inductive Event
  | complete (i : ℕ) (completion : Completion)
  | submitAndWait

namespace Running

def step (listener : ℕ) (r : Running) : Event → Option Running
  | .complete i completion =>
    match r.kernel[i]? with
    | none => none
    | some e =>
      if r.panicked = false ∧ e.allows r.table completion then
        handle listener ({r with kernel := r.kernel.eraseIdx i}.transfer e completion) e.token
          completion
      else none
  | .submitAndWait => if r.panicked then none else some r.flush

/-- All entries that are not completed. -/
def entries (r : Running) : List Entry := r.kernel ++ r.server.sq

end Running

/-! ## What is kept under the tokens -/

/-- The server keeps under each token what the entry says, and nothing else. At most one entry
accepts connections, and only writes have bytes to send. -/
structure Known (es : List Entry) (buffers : ℕ → Option ConnectionInfo) (tokenCounter : ℕ) :
    Prop where
  known : ∀ e ∈ es, buffers e.token = some ⟨e.opcode,e.fd,e.data⟩
  used : ∀ token info, buffers token = some info → ∃ e ∈ es, e.token = token
  tokens : (es.map Entry.token).Nodup
  below : ∀ e ∈ es, e.token ≤ tokenCounter
  accepts : es.countP (·.opcode = .accept) ≤ 1
  quiet : ∀ e ∈ es, e.opcode ≠ .write → e.data = []

namespace Known

variable {e : Entry} {es es' : List Entry} {buffers : ℕ → Option ConnectionInfo}
  {tokenCounter : ℕ}

theorem perm (h : Known es buffers tokenCounter) (hp : es.Perm es') : Known es' buffers tokenCounter where
  known e he := h.known e (hp.mem_iff.mpr he)
  used token info ht := by
    obtain ⟨e,he,heq⟩ := h.used token info ht
    exact ⟨e,hp.mem_iff.mp he,heq⟩
  tokens := (hp.map _).nodup_iff.mp h.tokens
  below e he := h.below e (hp.mem_iff.mpr he)
  accepts := hp.countP_eq _ ▸ h.accepts
  quiet e he := h.quiet e (hp.mem_iff.mpr he)

theorem head (h : Known (e::es) buffers tokenCounter) :
    buffers e.token = some ⟨e.opcode,e.fd,e.data⟩ :=
  h.known e List.mem_cons_self

/-- The entry of a token is completed. -/
theorem complete (h : Known (e::es) buffers tokenCounter) :
    Known es (update buffers e.token none) tokenCounter := by
  have hnodup := h.tokens
  rw [List.map_cons,List.nodup_cons,List.mem_map] at hnodup
  obtain ⟨hnew,htokens⟩ := hnodup
  have hother : ∀ e' ∈ es, e'.token ≠ e.token := fun e' he' heq => hnew ⟨e',he',heq⟩
  refine ⟨fun e' he' => ?_,fun token info ht => ?_,htokens,?_,?_,?_⟩
  · simpa [hother e' he'] using h.known e' (List.mem_cons_of_mem _ he')
  · by_cases htoken : token = e.token
    · simp [htoken] at ht
    · obtain ⟨e',he',rfl⟩ := h.used token info (by simpa [htoken] using ht)
      obtain rfl | hmem := List.mem_cons.mp he'
      · exact absurd rfl htoken
      · exact ⟨e',hmem,rfl⟩
  · exact fun e' he' => h.below e' (List.mem_cons_of_mem _ he')
  · exact (List.sublist_cons_self e es).countP_le.trans h.accepts
  · exact fun e' he' => h.quiet e' (List.mem_cons_of_mem _ he')

/-- An entry with the next token is pushed. -/
theorem push (h : Known es buffers tokenCounter) {opcode : EventType} {fd : ℕ} {data : List UInt8}
    (haccept : opcode = .accept → es.countP (·.opcode = .accept) = 0)
    (hquiet : opcode ≠ .write → data = []) :
    Known (⟨tokenCounter + 1,opcode,fd,data⟩::es)
      (update buffers (tokenCounter + 1) (some ⟨opcode,fd,data⟩)) (tokenCounter + 1) := by
  have hother : ∀ e ∈ es, e.token ≠ tokenCounter + 1 := fun e he heq => by
    have := h.below e he
    omega
  refine ⟨?_,fun token info ht => ?_,?_,?_,?_,?_⟩
  · simp only [List.forall_mem_cons,update_self,true_and]
    exact fun e he => by simpa [hother e he] using h.known e he
  · by_cases htoken : token = tokenCounter + 1
    · exact ⟨_,List.mem_cons_self,htoken.symm⟩
    · obtain ⟨e,he,heq⟩ := h.used token info (by simpa [htoken] using ht)
      exact ⟨e,List.mem_cons_of_mem _ he,heq⟩
  · simpa [h.tokens] using hother
  · simp only [List.forall_mem_cons,le_refl,true_and]
    exact fun e he => (h.below e he).trans (Nat.le_succ _)
  · by_cases hop : opcode = .accept
    · simp [hop,haccept hop]
    · simpa [hop] using h.accepts
  · simpa [hquiet] using ⟨hquiet,h.quiet⟩

end Known

/-! ## What is under way for the clients -/

/-- The descriptors that entries serve, with what the entries send. -/
def jobs (es : List Entry) : List (ℕ × List UInt8) :=
  (es.filter (·.opcode ≠ .accept)).map fun e => (e.fd,e.data)

/-- Each open descriptor has one job, with just the bytes that are owed there. -/
structure Served (js : List (ℕ × List UInt8)) (t : Table) (log : List (Traffic UInt8))
    (left : List (ℕ × List UInt8)) : Prop where
  single : (js.map Prod.fst).Nodup
  opened : ∀ fd, (∃ c, t.conn fd = some c) ↔ fd ∈ js.map Prod.fst
  desk : ∃ buffer, Desk log t buffer (lost left) ∧ ∀ j ∈ js, buffer j.1 = j.2

namespace Served

variable {js js' : List (ℕ × List UInt8)} {t : Table} {log : List (Traffic UInt8)}
  {left : List (ℕ × List UInt8)} {fd c : ℕ} {xs ys rest : List UInt8}

theorem perm (h : Served js t log left) (hp : js.Perm js') : Served js' t log left where
  single := (hp.map _).nodup_iff.mp h.single
  opened fd := (h.opened fd).trans (hp.map _).mem_iff
  desk := by
    obtain ⟨buffer,hdesk,hjs⟩ := h.desk
    exact ⟨buffer,hdesk,fun j hj => hjs j (hp.mem_iff.mpr hj)⟩

theorem conn (h : Served ((fd,xs)::js) t log left) : ∃ c, t.conn fd = some c :=
  (h.opened fd).mpr (by simp)

/-- The books change for the descriptor of one job. -/
theorem change {log' : List (Traffic UInt8)} {left' : List (ℕ × List UInt8)}
    (h : Served ((fd,xs)::js) t log left)
    (hdesk : ∀ buffer, Desk log t buffer (lost left) → buffer fd = xs →
      Desk log' t (update buffer fd ys) (lost left')) : Served ((fd,ys)::js) t log' left' where
  single := h.single
  opened := h.opened
  desk := by
    obtain ⟨buffer,hold,hjs⟩ := h.desk
    rw [List.forall_mem_cons] at hjs
    have hsingle := h.single
    simp only [List.map_cons,List.nodup_cons,List.mem_map] at hsingle
    refine ⟨_,hdesk buffer hold hjs.1,?_⟩
    simp only [List.forall_mem_cons,update_self,true_and]
    intro j hj
    have hne : j.1 ≠ fd := fun heq => hsingle.1 ⟨j,hj,heq⟩
    simpa [hne] using hjs.2 j hj

theorem hear (h : Served ((fd,xs)::js) t log left) (hc : t.conn fd = some c) (ys : List UInt8) :
    Served ((fd,xs ++ ys)::js) t (log ++ [.heard c ys]) left :=
  h.change fun _ hdesk hxs => hxs ▸ hdesk.hear hc ys

/-- What was not taken of a chunk is left behind. -/
theorem say (h : Served ((fd,xs)::js) t log left) (hc : t.conn fd = some c) (n : ℕ) :
    Served ((fd,[])::js) t (log ++ [.said c (xs.take n)])
      (if n < xs.length then left ++ [(c,xs.drop n)] else left) := by
  have hsplit : xs = xs.take n ++ xs.drop n := (List.take_append_drop n xs).symm
  split
  · refine h.change fun buffer hdesk hxs => ?_
    have hsay := hdesk.say hc (hxs.trans hsplit)
    have hleft : update buffer fd (xs.drop n) fd = xs.drop n ++ [] := by simp
    simpa using hsay.forget hc hleft
  · rename_i hn
    refine h.change fun buffer hdesk hxs => ?_
    have hdrop : xs.drop n = [] := List.drop_eq_nil_of_le (Nat.le_of_not_lt hn)
    simpa [hdrop] using hdesk.say hc (hxs.trans hsplit)

theorem close (h : Served ((fd,xs)::js) t log left) : Served js (t.close fd) log left := by
  have hsingle := h.single
  simp only [List.map_cons,List.nodup_cons] at hsingle
  refine ⟨hsingle.2,fun d => ?_,?_⟩
  · by_cases hd : d = fd
    · simp [hd,Table.close,hsingle.1]
    · simpa [hd,Table.close] using h.opened d
  · obtain ⟨buffer,hdesk,hjs⟩ := h.desk
    refine ⟨_,hdesk.close fd (buffer fd),fun j hj => ?_⟩
    simpa using hjs j (List.mem_cons_of_mem _ hj)

theorem accept (h : Served js t log left) (hc : t.conn fd = none) :
    Served ((fd,[])::js) (t.accept fd) log left := by
  have hnew : fd ∉ js.map Prod.fst := fun hmem => by
    obtain ⟨c,hsome⟩ := (h.opened fd).mpr hmem
    simp [hc] at hsome
  refine ⟨by simpa [h.single] using hnew,fun d => ?_,?_⟩
  · by_cases hd : d = fd
    · simp [hd,Table.accept]
    · simpa [hd,Table.accept] using h.opened d
  · obtain ⟨buffer,hdesk,hjs⟩ := h.desk
    have hclosed : (t.close fd).conn fd = none := by simp [Table.close]
    have hclear := (hdesk.close fd []).accept hclosed (by simp)
    refine ⟨update buffer fd [],?_,?_⟩
    · simpa [Table.close,Table.accept,← hc] using hclear
    · simp only [List.forall_mem_cons,update_self,true_and]
      intro j hj
      have hne : j.1 ≠ fd := fun heq => hnew (List.mem_map.mpr ⟨j,hj,heq⟩)
      simpa [hne] using hjs j hj

end Served

/-! ## Runs -/

namespace Running

variable {listener fd c token : ℕ} {r r' : Running} {e : Entry} {es : List Entry}
  {opcode : EventType} {data : List UInt8} {completion : Completion} {events : List Event}

theorem submit_table : (r.submit opcode fd data).table = r.table := by
  unfold submit
  split <;> rfl

theorem submit_log : (r.submit opcode fd data).log = r.log := by
  unfold submit
  split <;> rfl

theorem submit_left : (r.submit opcode fd data).left = r.left := by
  unfold submit
  split <;> rfl

theorem submit_taken : (r.submit opcode fd data).server.taken = r.server.taken := by
  unfold submit
  split <;> rfl

theorem submit_kernel : (r.submit opcode fd data).kernel = r.kernel := by
  unfold submit
  split <;> rfl

attribute [simp] submit_table submit_log submit_left submit_taken submit_kernel

/-- A push that finds room. -/
theorem submit_eq (h : (r.submit opcode fd data).panicked = false) :
    r.panicked = false ∧ (r.submit opcode fd data).server =
      ⟨r.server.tokenCounter + 1,update r.server.buffers (r.server.tokenCounter + 1)
        (some ⟨opcode,fd,data⟩),r.server.taken,
        r.server.sq ++ [⟨r.server.tokenCounter + 1,opcode,fd,data⟩]⟩ := by
  unfold submit at h ⊢
  split at h
  · simp_all
  · simp at h

theorem entries_submit (h : (r.submit opcode fd data).panicked = false) :
    (⟨r.server.tokenCounter + 1,opcode,fd,data⟩::r.entries).Perm
      (r.submit opcode fd data).entries := by
  have hentries : (r.submit opcode fd data).entries =
      r.entries ++ [⟨r.server.tokenCounter + 1,opcode,fd,data⟩] := by
    simp [entries,(submit_eq h).2]
  rw [hentries]
  exact (List.perm_append_singleton _ _).symm

/-- The invariant: the server knows each entry, and each client is served by one. -/
structure Sound (r : Running) : Prop where
  known : Known r.entries r.server.buffers r.server.tokenCounter
  served : Served (jobs r.entries) r.table r.log r.left

theorem jobs_perm {es' : List Entry} (h : es.Perm es') : (jobs es).Perm (jobs es') :=
  (h.filter _).map _

/-- The next operation for a client is pushed. -/
theorem Sound.submit_job (h : Known r.entries r.server.buffers r.server.tokenCounter)
    (hserved : Served ((fd,data)::jobs r.entries) r.table r.log r.left) (hop : opcode ≠ .accept)
    (hquiet : opcode ≠ .write → data = [])
    (hp : (r.submit opcode fd data).panicked = false) : Sound (r.submit opcode fd data) where
  known := by
    have hpush : Known (⟨r.server.tokenCounter + 1,opcode,fd,data⟩::r.entries) _ _ :=
      h.push (fun heq => absurd heq hop) hquiet
    simpa [(submit_eq hp).2] using hpush.perm (entries_submit hp)
  served := by
    have hjobs := jobs_perm (entries_submit hp)
    simp only [submit_table,submit_log,submit_left]
    refine hserved.perm ?_
    simpa [jobs,hop] using hjobs

/-- The next accept is pushed. -/
theorem Sound.submit_accept (h : Sound r)
    (haccept : r.entries.countP (·.opcode = .accept) = 0)
    (hp : (r.submit .accept fd []).panicked = false) : Sound (r.submit .accept fd []) where
  known := by
    have hpush : Known (⟨r.server.tokenCounter + 1,.accept,fd,[]⟩::r.entries) _ _ :=
      h.known.push (fun _ => haccept) fun _ => rfl
    simpa [(submit_eq hp).2] using hpush.perm (entries_submit hp)
  served := by
    have hjobs := jobs_perm (entries_submit hp)
    simp only [submit_table,submit_log,submit_left]
    refine h.served.perm ?_
    simpa [jobs] using hjobs

theorem Sound.flush (h : Sound r) : Sound r.flush := by
  have hentries : r.flush.entries = r.entries := by simp [Running.flush,entries]
  constructor
  · rw [hentries]
    exact h.known
  · rw [hentries]
    exact h.served

theorem sound_empty : Sound empty where
  known := ⟨by simp [entries,empty],by simp [empty],by simp [entries,empty],
    by simp [entries,empty],by simp [entries,empty],by simp [entries,empty]⟩
  served := ⟨by simp [jobs,entries,empty],by simp [jobs,entries,empty,Table.empty],
    ⟨_,Desk.empty,by simp [jobs,entries,empty]⟩⟩

theorem sound_start : Sound (start listener) :=
  (sound_empty.submit_accept (by simp [entries,empty]) (by simp [submit,empty,queueDepth])).flush

/-- The accept is completed: the client that came is read from, and the next one is waited for. -/
theorem Sound.complete_accept
    (hknown : Known (⟨token,.accept,fd,data⟩::r.entries) r.server.buffers r.server.tokenCounter)
    (hserved : Served (jobs r.entries) r.table r.log r.left)
    (hallows : Entry.allows ⟨token,.accept,fd,data⟩ r.table completion)
    (hstep : handle listener (r.transfer ⟨token,.accept,fd,data⟩ completion) token completion =
      some r') (hp : r'.panicked = false) : Sound r' := by
  have hrest := hknown.complete
  have hnone : r.entries.countP (·.opcode = .accept) = 0 := by simpa using hknown.accepts
  cases completion with
  | failed =>
    simp only [handle,transfer,hknown.head] at hstep
    obtain rfl := Option.some.inj hstep
    exact ⟨hrest,hserved⟩
  | accepted fd' =>
    simp only [handle,transfer,hknown.head] at hstep
    obtain rfl := Option.some.inj hstep
    have hnew : r.table.conn fd' = none := by simpa [Entry.allows] using hallows
    have hroom := (submit_eq hp).1
    have hread : Sound (((r.remove token).accept fd').submit .read fd' []) :=
      Sound.submit_job hrest (hserved.accept hnew) (by simp) (by simp) hroom
    refine hread.submit_accept ?_ hp
    rw [← (entries_submit hroom).countP_eq,List.countP_cons_of_neg (by simp)]
    exact hnone
  | received | sent => simp [Entry.allows] at hallows

/-- A read is completed: the client has gone, or it is written to. -/
theorem Sound.complete_read
    (hknown : Known (⟨token,.read,fd,[]⟩::r.entries) r.server.buffers r.server.tokenCounter)
    (hserved : Served ((fd,[])::jobs r.entries) r.table r.log r.left)
    (hallows : Entry.allows ⟨token,.read,fd,[]⟩ r.table completion)
    (hstep : handle listener (r.transfer ⟨token,.read,fd,[]⟩ completion) token completion = some r')
    (hp : r'.panicked = false) : Sound r' := by
  have hrest := hknown.complete
  obtain ⟨c,hc⟩ := hserved.conn
  cases completion with
  | failed =>
    simp only [handle,transfer,hknown.head] at hstep
    obtain rfl := Option.some.inj hstep
    exact ⟨hrest,hserved.close⟩
  | received bytes =>
    simp only [handle,transfer,hc,hknown.head] at hstep
    have hheard := hserved.hear hc bytes
    cases bytes with
    | nil =>
      obtain rfl := Option.some.inj hstep
      exact ⟨hrest,hheard.close⟩
    | cons b bs =>
      obtain rfl := Option.some.inj hstep
      exact Sound.submit_job hrest hheard (by simp) (by simp) hp
  | accepted | sent => simp [Entry.allows] at hallows

/-- A write is completed: the client is read from again, whatever was taken. -/
theorem Sound.complete_write
    (hknown : Known (⟨token,.write,fd,data⟩::r.entries) r.server.buffers r.server.tokenCounter)
    (hserved : Served ((fd,data)::jobs r.entries) r.table r.log r.left)
    (hallows : Entry.allows ⟨token,.write,fd,data⟩ r.table completion)
    (hstep : handle listener (r.transfer ⟨token,.write,fd,data⟩ completion) token completion =
      some r') (hp : r'.panicked = false) : Sound r' := by
  have hrest := hknown.complete
  obtain ⟨c,hc⟩ := hserved.conn
  cases completion with
  | failed =>
    simp only [handle,transfer,hknown.head] at hstep
    obtain rfl := Option.some.inj hstep
    exact ⟨hrest,hserved.close⟩
  | sent n =>
    simp only [handle,transfer,hc,hknown.head] at hstep
    obtain rfl := Option.some.inj hstep
    exact Sound.submit_job hrest (hserved.say hc n) (by simp) (by simp) hp
  | accepted | received => simp [Entry.allows] at hallows

/-- What a completion does. -/
theorem step_complete {i : ℕ} (hstep : step listener r (.complete i completion) = some r') :
    ∃ e, r.entries.Perm (e::({r with kernel := r.kernel.eraseIdx i} : Running).entries) ∧
      r.panicked = false ∧ e.allows r.table completion ∧
      handle listener (({r with kernel := r.kernel.eraseIdx i} : Running).transfer e completion)
        e.token completion = some r' := by
  simp only [Running.step] at hstep
  split at hstep
  · simp at hstep
  · rename_i e he
    split at hstep
    · rename_i hallows
      refine ⟨e,?_,hallows.1,hallows.2,hstep⟩
      obtain ⟨hi,rfl⟩ := List.getElem?_eq_some_iff.mp he
      exact (List.getElem_cons_eraseIdx_perm hi).symm.append_right _
    · simp at hstep

theorem step_submitAndWait (hstep : step listener r .submitAndWait = some r') :
    r.panicked = false ∧ r' = r.flush := by
  simp only [Running.step] at hstep
  split at hstep <;> simp_all

theorem step_panicked {event : Event} (hstep : step listener r event = some r') :
    r.panicked = false := by
  cases event with
  | submitAndWait => exact (step_submitAndWait hstep).1
  | complete =>
    obtain ⟨_,-,hp,-⟩ := step_complete hstep
    exact hp

theorem Sound.step (h : Sound r) {event : Event} (hstep : step listener r event = some r')
    (hp : r'.panicked = false) : Sound r' := by
  cases event with
  | submitAndWait => exact (step_submitAndWait hstep).2 ▸ h.flush
  | complete i completion =>
    obtain ⟨⟨token,opcode,fd,data⟩,hperm,-,hallows,hhandle⟩ := step_complete hstep
    have hknown := h.known.perm hperm
    have hserved := h.served.perm (jobs_perm hperm)
    cases opcode with
    | accept => exact Sound.complete_accept hknown hserved hallows hhandle hp
    | read =>
      obtain rfl : data = [] := hknown.quiet _ List.mem_cons_self (by simp)
      exact Sound.complete_read hknown hserved hallows hhandle hp
    | write => exact Sound.complete_write hknown hserved hallows hhandle hp

theorem sound_run (h : exec (step listener) (start listener) events = some r)
    (hp : r.panicked = false) : Sound r :=
  exec_invariant (I := fun r => r.panicked = false → Sound r)
    (fun _ _ _ ht hs hp => (hs (step_panicked ht)).step ht hp) h (fun _ => sound_start) hp

theorem mem_jobs {fd : ℕ} {xs : List UInt8} :
    (fd,xs) ∈ jobs es ↔ ∃ e ∈ es, e.opcode ≠ .accept ∧ e.fd = fd ∧ e.data = xs := by
  simp [jobs,and_assoc]

/-- Entries that serve one client are one. -/
theorem jobs_injOn (h : ((jobs es).map Prod.fst).Nodup) {e e' : Entry} (he : e ∈ es) (he' : e' ∈ es)
    (hop : e.opcode ≠ .accept) (hop' : e'.opcode ≠ .accept) (hfd : e.fd = e'.fd) : e = e' := by
  have hnodup : ((es.filter (·.opcode ≠ .accept)).map Entry.fd).Nodup := by
    simpa [jobs,comp_def] using h
  refine List.inj_on_of_nodup_map hnodup ?_ ?_ hfd
  · simpa using ⟨he,hop⟩
  · simpa using ⟨he',hop'⟩

/-- A client sends two bytes, of which one is echoed. -/
def shortSend : List Event :=
  [.complete 0 (.accepted 5),.submitAndWait,.complete 0 (.received [1,2]),.submitAndWait,
    .complete 1 (.sent 1)]

/-- At most `n` clients are connected. -/
def AtMost (n : ℕ) (r : Running) : Prop :=
  ∀ fds : Finset ℕ, (∀ fd ∈ fds, ∃ c, r.table.conn fd = some c) → fds.card ≤ n

theorem AtMost.length_jobs {n : ℕ} (h : AtMost n r) {js : List (ℕ × List UInt8)}
    (hserved : Served js r.table r.log r.left) : js.length ≤ n := by
  have hcard := h (js.map Prod.fst).toFinset fun fd hfd =>
    (hserved.opened fd).mpr (List.mem_toFinset.mp hfd)
  rwa [List.toFinset_card_of_nodup hserved.single,List.length_map] at hcard

theorem length_entries : es.length = (jobs es).length + es.countP (·.opcode = .accept) := by
  rw [jobs,List.length_map,← List.countP_eq_length_filter,Nat.add_comm,
    List.length_eq_countP_add_countP (·.opcode = .accept)]
  simp

/-- No push has failed and `k` more would find room. -/
def Room (k : ℕ) (r : Running) : Prop :=
  r.panicked = false ∧ r.server.taken + r.server.sq.length + k ≤ queueDepth

theorem Room.mono {k k' : ℕ} (h : Room k r) (hle : k' ≤ k) : Room k' r :=
  ⟨h.1,by have := h.2; omega⟩

theorem Room.submit {k : ℕ} (h : Room (k + 1) r) : Room k (r.submit opcode fd data) := by
  obtain ⟨hp,hroom⟩ := h
  have hlt : r.server.taken + r.server.sq.length < queueDepth := by omega
  simp only [Running.submit,hlt,if_true,Room,hp,List.length_append,List.length_singleton,true_and]
  omega

@[simp] theorem transfer_server : (r.transfer e completion).server = r.server := by
  unfold transfer
  split <;> (try split) <;> rfl

@[simp] theorem transfer_panicked : (r.transfer e completion).panicked = r.panicked := by
  unfold transfer
  split <;> (try split) <;> rfl

/-- A completion makes at most one push, and two if a client has come. -/
theorem Room.handle (h : Room 1 r) (haccept : ∀ fd, completion = .accepted fd → Room 2 r)
    (hstep : handle listener r token completion = some r') :
    Room 0 r' ∧ r'.server.taken = r.server.taken := by
  unfold Running.handle at hstep
  split at hstep
  · cases hstep
    exact ⟨h.mono (Nat.zero_le 1),rfl⟩
  · rename_i info hinfo
    have hnone : Room 0 (r.remove token) := h.mono (Nat.zero_le 1)
    have hone : Room 1 (r.remove token) := h
    simp only at hstep
    split at hstep
    · cases hstep
      exact ⟨hnone,rfl⟩
    · cases hstep
      exact ⟨hnone,rfl⟩
    · cases hstep
      exact ⟨hnone,rfl⟩
    · rename_i fd hevent
      cases hstep
      have htwo : Room 2 ((r.remove token).accept fd) := haccept fd rfl
      exact ⟨htwo.submit.submit,by simp [accept,remove]⟩
    · cases hstep
      exact ⟨hnone,rfl⟩
    · cases hstep
      exact ⟨hone.submit,by simp [remove]⟩
    · cases hstep
      exact ⟨hone.submit,by simp [remove]⟩
    · simp at hstep

theorem length_entries_le (h : Sound r) {n : ℕ} (hmost : AtMost n r) : r.entries.length ≤ n + 1 := by
  have hjobs := hmost.length_jobs h.served
  have haccepts := h.known.accepts
  rw [length_entries]
  omega

/-- A client has come: only the entries of the others are in flight. -/
theorem length_entries_accepted {n : ℕ} (hknown : Known (e::r.entries) r.server.buffers
      r.server.tokenCounter) (hserved : Served (jobs (e::r.entries)) r.table r.log r.left)
    (hallows : e.allows r.table (.accepted fd))
    (hstep : handle listener (r.transfer e (.accepted fd)) e.token (.accepted fd) = some r')
    (hmost : AtMost n r') : r.entries.length + 1 ≤ n := by
  obtain ⟨hop,hnew⟩ : e.opcode = .accept ∧ r.table.conn fd = none := by
    simpa [Entry.allows] using hallows
  have htable : r'.table = r.table.accept fd := by
    simp only [handle,transfer,hknown.head,hop,Option.some.injEq] at hstep
    subst hstep
    simp [accept,remove]
  have hnone : r.entries.countP (·.opcode = .accept) = 0 := by simpa [hop] using hknown.accepts
  have hjobs : AtMost n (r.accept fd) := by simpa [AtMost,htable,accept] using hmost
  have hothers : Served (jobs r.entries) r.table r.log r.left := by simpa [jobs,hop] using hserved
  have hlength := hjobs.length_jobs (hothers.accept hnew)
  rwa [length_entries,hnone]

/-- While at most 127 clients are connected before and after a completion, its pushes find room. -/
theorem room_complete {i : ℕ} (h : Sound r) (htaken : r.server.taken ≤ 128) (hmost : AtMost 127 r)
    (hmost' : AtMost 127 r') (hstep : step listener r (.complete i completion) = some r') :
    r'.panicked = false ∧ r'.server.taken ≤ 128 := by
  obtain ⟨e,hperm,hp,hallows,hhandle⟩ := step_complete hstep
  have hknown := h.known.perm hperm
  have hserved := h.served.perm (jobs_perm hperm)
  have hlength := hperm.length_eq ▸ length_entries_le h hmost
  have hsq : r.server.sq.length ≤
      ({r with kernel := r.kernel.eraseIdx i} : Running).entries.length := by simp [entries]
  rw [List.length_cons] at hlength
  have hone : Room 1 (({r with kernel := r.kernel.eraseIdx i} : Running).transfer e completion) := by
    refine ⟨by simpa using hp,?_⟩
    simp only [transfer_server,queueDepth]
    omega
  have hroom := hone.handle ?_ hhandle
  · exact ⟨hroom.1.1,hroom.2 ▸ by simpa using htaken⟩
  · rintro fd rfl
    have haccepted := length_entries_accepted hknown hserved hallows hhandle hmost'
    refine ⟨by simpa using hp,?_⟩
    simp only [transfer_server,queueDepth]
    omega

/-- While no more than 127 clients are ever connected at once, no push finds the queue full: what
is pushed between two submissions and what the last one took always fit into it together. -/
theorem pushes_succeed (h : exec (step listener) (start listener) events = some r)
    (hmost : ∀ es s, es <+: events → exec (step listener) (start listener) es = some s →
      AtMost 127 s) : r.panicked = false := by
  have hrun : (∀ es s, es <+: events → exec (step listener) (start listener) es = some s →
      AtMost 127 s) → r.panicked = false ∧ r.server.taken ≤ 128 := by
    refine exec_invariant_trace (I := fun events r => (∀ es s, es <+: events →
      exec (step listener) (start listener) es = some s → AtMost 127 s) →
        r.panicked = false ∧ r.server.taken ≤ 128) ?_ ?_ h
    · intro es s event t hs hinv hst hall
      obtain ⟨hp,htaken⟩ := hinv fun es' s' hes' => hall es' s' (hes'.trans (List.prefix_append _ _))
      have hsound := sound_run hs hp
      have hmost := hall es s (List.prefix_append _ _) hs
      cases event with
      | complete i completion =>
        refine room_complete hsound htaken hmost (hall _ t (List.prefix_refl _) ?_) hst
        exact exec_append.mpr ⟨s,hs,exec_cons.mpr ⟨t,hst,rfl⟩⟩
      | submitAndWait =>
        obtain ⟨-,rfl⟩ := step_submitAndWait hst
        have hlength := length_entries_le hsound hmost
        refine ⟨hp,?_⟩
        simp only [entries,List.length_append,flush] at hlength ⊢
        omega
    · intro _
      simp [start,submit,empty,flush,queueDepth]
  exact (hrun hmost).1

theorem pushes_succeed_shortSend : ∃ r, exec (step 3) (start 3) shortSend = some r ∧
    r.panicked = false := by
  refine ⟨_,rfl,pushes_succeed (show exec (step 3) (start 3) shortSend = some _ from rfl) ?_⟩
  intro es s hes hs fds hfds
  have honly : ∀ fd, (∃ c, s.table.conn fd = some c) → fd = 5 := by
    rw [← List.mem_inits] at hes
    simp only [shortSend,List.inits,List.map_cons,List.map_nil,List.mem_cons,
      List.not_mem_nil,or_false] at hes
    obtain rfl | rfl | rfl | rfl | rfl | rfl := hes <;> cases hs <;> rintro fd ⟨c,hc⟩ <;>
      by_contra hne <;> revert hc <;>
      simp [start,flush,empty,transfer,remove,accept,Table.empty,Table.accept,hne]
  have hsub : fds ⊆ {5} := fun fd hfd => Finset.mem_singleton.mpr (honly fd (hfds fd hfd))
  exact (Finset.card_le_card hsub).trans (by decide)

end Running
end IoUringServer
end UProtocols
