import UProtocols.Runs
import UProtocols.Relays

/-!
# The echo server on kqueue

`WebSocketServer` of `websocket_server_with_kqueue.cpp`, which keeps what a client has not taken yet
under its descriptor. The answers of the system calls are inputs. A descriptor that was closed is
used again for a later connection, so that connections are told apart by their number.
-/

namespace UProtocols

open Function Relays Runs

namespace KqueueServer

/-- What `accept` answers, with the answer of `kevent` for the new descriptor. -/
inductive AcceptAnswer
  | connection (fd : ℕ) (registered : Bool)
  | failed

structure WebSocketServer where
  writeBuffers : ℕ → Option (List UInt8)

/-- What waits for the client behind a descriptor. -/
def WebSocketServer.queued (s : WebSocketServer) (fd : ℕ) : List UInt8 :=
  (s.writeBuffers fd).getD []

/-- The server, the open descriptors, and what went over the connections. -/
structure Running where
  server : WebSocketServer
  table : Table
  log : List (Traffic UInt8)

namespace Running

def start : Running := ⟨⟨fun _ => none⟩,.empty,[]⟩

def closeConnection (r : Running) (fd : ℕ) : Running where
  server := ⟨update r.server.writeBuffers fd none⟩
  table := r.table.close fd
  log := r.log

/-- The system gives out descriptors that are not open. -/
def handleNewConnection (r : Running) : List AcceptAnswer → Option Running
  | [] => none
  | .failed::_ => some r
  | .connection fd registered::answers =>
    if r.table.conn fd = none then
      let r := {r with table := r.table.accept fd}
      let r := if registered then r else {r with table := r.table.close fd}
      handleNewConnection r answers
    else none

/-- Only an open descriptor gives bytes. -/
def handleClientRead (r : Running) (fd : ℕ) : List (ReadAnswer UInt8) → Option Running
  | [] => none
  | .wouldBlock::_ => some r
  | .failed::_ | .bytes []::_ => some (r.closeConnection fd)
  | .bytes (b::bs)::answers =>
    (r.table.conn fd).bind fun c =>
      let data := b::bs
      let writeBuf := r.server.queued fd ++ data
      let server := ⟨update r.server.writeBuffers fd (some writeBuf)⟩
      handleClientRead {r with server := server, log := r.log ++ [.heard c data]} fd answers

def handleClientWrite (r : Running) (fd : ℕ) (answer : WriteAnswer) : Option Running :=
  match r.server.writeBuffers fd, answer with
  | none, _ | some [], _ => some r
  | some (_::_), .wouldBlock => some r
  | some (_::_), .failed => some (r.closeConnection fd)
  | some (b::bs), .taken n =>
    if n ≤ (b::bs).length then
      (r.table.conn fd).map fun c =>
        let rest := (b::bs).drop n
        let kept := if rest = [] then none else some rest
        let server := ⟨update r.server.writeBuffers fd kept⟩
        {r with server := server, log := r.log ++ [.said c ((b::bs).take n)]}
    else none

end Running

/-- An event of `run`. -/
inductive Event
  | server (answers : List AcceptAnswer)
  | read (fd : ℕ) (answers : List (ReadAnswer UInt8))
  | write (fd : ℕ) (answer : WriteAnswer)

namespace Running

def step (r : Running) : Event → Option Running
  | .server answers => r.handleNewConnection answers
  | .read fd answers => r.handleClientRead fd answers
  | .write fd answer => r.handleClientWrite fd answer

/-- The books of the server are in order. A descriptor that is not open has no buffer, and a buffer
is never empty. -/
structure Sound (r : Running) : Prop where
  desk : Desk r.log r.table r.server.queued fun _ => []
  closed : ∀ fd, r.table.conn fd = none → r.server.writeBuffers fd = none
  nonempty : ∀ fd, r.server.writeBuffers fd ≠ some []

theorem sound_start : Sound start where
  desk := Desk.empty
  closed _ _ := rfl
  nonempty _ := by simp [start]

@[simp] theorem queued_update (buffers : ℕ → Option (List UInt8)) (fd : ℕ)
    (kept : Option (List UInt8)) :
    WebSocketServer.queued ⟨update buffers fd kept⟩ =
      update (WebSocketServer.queued ⟨buffers⟩) fd (kept.getD []) := by
  funext d
  by_cases h : d = fd <;> simp [WebSocketServer.queued,h]

variable {r r' : Running} {fd c : ℕ} {events : List Event}

theorem Sound.closeConnection (h : Sound r) (fd : ℕ) : Sound (r.closeConnection fd) where
  desk := by simpa [Running.closeConnection] using h.desk.close fd []
  closed d hd := by
    by_cases hfd : d = fd
    · simp [Running.closeConnection,hfd]
    · simp only [Running.closeConnection,Table.close,update_of_ne hfd] at hd ⊢
      exact h.closed d hd
  nonempty d := by
    by_cases hfd : d = fd
    · simp [Running.closeConnection,hfd]
    · simpa [Running.closeConnection,hfd] using h.nonempty d

/-- What is kept for an open connection changes, and the books with it. -/
theorem Sound.keep (h : Sound r) (hc : r.table.conn fd = some c) {kept : Option (List UInt8)}
    {log : List (Traffic UInt8)} (hkept : kept ≠ some [])
    (hdesk : Desk log r.table (update r.server.queued fd (kept.getD [])) fun _ => []) :
    Sound ⟨⟨update r.server.writeBuffers fd kept⟩,r.table,log⟩ where
  desk := by simpa using hdesk
  closed d hd := by
    have hfd : d ≠ fd := by
      rintro rfl
      simp [hc] at hd
    simpa [hfd] using h.closed d hd
  nonempty d := by
    by_cases hfd : d = fd
    · simpa [hfd] using hkept
    · simpa [hfd] using h.nonempty d

theorem Sound.handleNewConnection (h : Sound r) {answers : List AcceptAnswer}
    (hstep : r.handleNewConnection answers = some r') : Sound r' := by
  fun_induction Running.handleNewConnection r answers with
  | case1 => simp at hstep
  | case2 => exact Option.some.inj hstep ▸ h
  | case3 r fd registered answers hfd r₁ r₂ ih =>
    refine ih ?_ hstep
    have hempty : r.server.queued fd = [] := by simp [WebSocketServer.queued,h.closed fd hfd]
    have haccept : Sound r₁ := by
      refine ⟨h.desk.accept hfd hempty,fun d hd => h.closed d ?_,h.nonempty⟩
      by_cases hne : d = fd
      · exact hne ▸ hfd
      · simpa [r₁,Table.accept,hne] using hd
    cases registered with
    | true => exact haccept
    | false =>
      have hclose := haccept.closeConnection fd
      have hsame : update r.server.writeBuffers fd none = r.server.writeBuffers := by
        simp [h.closed fd hfd]
      simpa [Running.closeConnection,r₁,r₂,hsame] using hclose
  | case4 => simp at hstep

theorem Sound.handleClientRead (h : Sound r) {answers : List (ReadAnswer UInt8)}
    (hstep : r.handleClientRead fd answers = some r') : Sound r' := by
  induction answers generalizing r with
  | nil => simp [Running.handleClientRead] at hstep
  | cons answer answers ih =>
    match answer with
    | .wouldBlock => exact Option.some.inj hstep ▸ h
    | .failed | .bytes [] => exact Option.some.inj hstep ▸ h.closeConnection fd
    | .bytes (b::bs) =>
      obtain ⟨c,hc,hrest⟩ := Option.bind_eq_some_iff.mp hstep
      exact ih (h.keep hc (by simp) (by simpa using h.desk.hear hc (b::bs))) hrest

theorem Sound.handleClientWrite (h : Sound r) {answer : WriteAnswer}
    (hstep : r.handleClientWrite fd answer = some r') : Sound r' := by
  unfold Running.handleClientWrite at hstep
  split at hstep
  · exact Option.some.inj hstep ▸ h
  · exact Option.some.inj hstep ▸ h
  · exact Option.some.inj hstep ▸ h
  · exact Option.some.inj hstep ▸ h.closeConnection fd
  · rename_i b bs n hbuffer
    split at hstep
    · obtain ⟨c,hc,rfl⟩ := Option.map_eq_some_iff.mp hstep
      have hqueued : r.server.queued fd = (b::bs).take n ++ (b::bs).drop n := by
        simp [WebSocketServer.queued,hbuffer]
      refine h.keep hc (by split <;> simp_all) ?_
      have hsay := h.desk.say hc hqueued
      split <;> simp_all
    · simp at hstep

theorem Sound.step (h : Sound r) {e : Event} (hstep : step r e = some r') : Sound r' := by
  cases e with
  | server answers => exact h.handleNewConnection hstep
  | read fd answers => exact h.handleClientRead hstep
  | write fd answer => exact h.handleClientWrite hstep

/-- In every run each connection gets back what was read from it, without a gap, in order and
nothing of another connection, also where its descriptor had stood for others before. An open
connection has a buffer exactly while something is missing, and it holds just that. -/
theorem echo_over_reused_descriptors (h : exec step start events = some r) :
    (∀ c, said r.log c <+: heard r.log c) ∧ ∀ fd c, r.table.conn fd = some c →
      said r.log c ++ r.server.queued fd = heard r.log c ∧
      (r.server.writeBuffers fd = none ↔ said r.log c = heard r.log c) := by
  have hsound : Sound r := exec_invariant (fun _ _ _ ht hs => hs.step ht) h sound_start
  refine ⟨fun c => hsound.desk.isPrefix rfl,fun fd c hc => ?_⟩
  have hexact := hsound.desk.exact hc rfl
  refine ⟨hexact,?_⟩
  have hnonempty := hsound.nonempty fd
  rw [← hexact,List.self_eq_append_right,WebSocketServer.queued]
  cases hbuffer : r.server.writeBuffers fd <;> simp_all

/-- The descriptor of a client that is gone with a byte unsaid stands for the next one. -/
def reusedDescriptor : List Event :=
  [.server [.connection 5 true,.failed],.read 5 [.bytes [1,2],.wouldBlock],.write 5 (.taken 1),
    .read 5 [.bytes []],.server [.connection 5 true,.failed],.read 5 [.bytes [3],.wouldBlock],
    .write 5 (.taken 1)]

theorem echo_over_reused_descriptors_next : ∃ r, exec step start reusedDescriptor = some r ∧
    said r.log 0 = [1] ∧ said r.log 1 = [3] ∧ ∀ c, said r.log c <+: heard r.log c :=
  ⟨_,rfl,rfl,rfl,(echo_over_reused_descriptors (show exec step start reusedDescriptor = some _ from rfl)).1⟩

end Running
end KqueueServer
end UProtocols
