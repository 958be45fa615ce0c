import UProtocols.Runs
import UProtocols.Relays

/-!
# The echo server on epoll

The loop of `websocket_server_with_epoll.c`. It writes what it has read at once; when the client
does not take all of it, the rest of the chunk is left behind in a buffer that the next read
overwrites.
-/

namespace UProtocols
namespace EpollServer

open Function Relays Runs

/-- What `accept` answers, with the answer of `epoll_ctl` for the new descriptor. -/
inductive AcceptAnswer
  | connection (fd : ℕ) (registered : Bool)
  | failed

/-- What `read` answers, and for a chunk what the writes of it answer. -/
inductive Round
  | chunk (data : List UInt8) (writes : List WriteAnswer)
  | wouldBlock | failed

/-- The open descriptors, what went over the connections, and what was left of a chunk whenever a
write would have blocked. -/
structure Running where
  table : Table
  log : List (Traffic UInt8)
  left : List (ℕ × List UInt8)

namespace Running

def start : Running := ⟨.empty,[],[]⟩

/-- The system gives out descriptors that are not open. -/
def handleNewConnection (r : Running) : List AcceptAnswer → Option Running
  | [] => none
  | .failed::_ => some r
  | .connection fd registered::answers =>
    if r.table.conn fd = none then
      let r := {r with table := r.table.accept fd}
      let r := if registered then r else {r with table := r.table.close fd}
      handleNewConnection r answers
    else none

def closeConn (r : Running) (fd : ℕ) : Running := {r with table := r.table.close fd}

/-- The inner loop: write the chunk until it is taken, a write would block or fails. -/
def echo (r : Running) (c : ℕ) (data : List UInt8) (writes : List WriteAnswer) :
    Option (WriteEnd × Running) :=
  (offer writes data).map fun (e,written,rest) =>
    (e,{r with
      log := r.log ++ [.heard c data,.said c written]
      left := if e = .blocked then r.left ++ [(c,rest)] else r.left})

/-- Only an open descriptor gives bytes. -/
def handleClientData (r : Running) (fd : ℕ) : List Round → Option Running
  | [] => none
  | .wouldBlock::_ => some r
  | .failed::_ | .chunk [] _::_ => some (r.closeConn fd)
  | .chunk (b::bs) writes::rounds =>
    (r.table.conn fd).bind fun c =>
      (r.echo c (b::bs) writes).bind fun (e,r) =>
        if e = .failed then some (r.closeConn fd) else handleClientData r fd rounds

end Running

/-- An event of the loop of `main`. -/
inductive Event
  | server (answers : List AcceptAnswer)
  | client (fd : ℕ) (rounds : List Round)

namespace Running

def step (r : Running) : Event → Option Running
  | .server answers => r.handleNewConnection answers
  | .client fd rounds => r.handleClientData fd rounds

/-- Nothing is kept between the calls. What is left behind is never empty, and connections that
were not accepted yet have left nothing. -/
structure Sound (r : Running) : Prop where
  desk : Desk r.log r.table (fun _ => []) (lost r.left)
  nonempty : ∀ l ∈ r.left, l.2 ≠ []

variable {r r' : Running} {fd c : ℕ} {events : List Event}

theorem sound_start : Sound start := ⟨Desk.empty,by simp [start]⟩

theorem Sound.closeConn (h : Sound r) (fd : ℕ) : Sound (r.closeConn fd) where
  desk := by simpa [Running.closeConn] using h.desk.close fd []
  nonempty := h.nonempty

theorem Sound.handleNewConnection (h : Sound r) {answers : List AcceptAnswer}
    (hstep : r.handleNewConnection answers = some r') : Sound r' := by
  fun_induction Running.handleNewConnection r answers with
  | case1 => simp at hstep
  | case2 => exact Option.some.inj hstep ▸ h
  | case3 r fd registered answers hfd r₁ r₂ ih =>
    have haccept : Sound r₁ := ⟨h.desk.accept hfd rfl,h.nonempty⟩
    refine ih ?_ hstep
    cases registered with
    | true => exact haccept
    | false => exact haccept.closeConn fd
  | case4 => simp at hstep

/-- After a chunk the books are in order, unless a write has failed in the middle of it. -/
theorem Sound.echo (h : Sound r) (hc : r.table.conn fd = some c) {data : List UInt8}
    {writes : List WriteAnswer} {e : WriteEnd} (hecho : r.echo c data writes = some (e,r')) :
    if e = .failed then Sound (r'.closeConn fd) else Sound r' := by
  simp only [Running.echo,Option.map_eq_some_iff,Prod.exists,Prod.mk.injEq] at hecho
  obtain ⟨e',written,rest,hoffer,rfl,rfl⟩ := hecho
  obtain ⟨rfl,hend⟩ := offer_spec hoffer
  have hsay : Desk (r.log ++ [.heard c (written ++ rest),.said c written]) r.table
      (update (fun _ => []) fd rest) (lost r.left) := by
    have hhear := h.desk.hear hc (written ++ rest)
    simpa using hhear.say hc (by simp)
  cases e' with
  | finished =>
    obtain rfl := hend.mp rfl
    exact ⟨by simpa using hsay,by simpa using h.nonempty⟩
  | failed =>
    refine ⟨by simpa [Running.closeConn] using hsay.close fd [],?_⟩
    simpa [Running.closeConn] using h.nonempty
  | blocked =>
    have hrest' : update (fun _ => []) fd rest fd = rest ++ [] := by simp
    refine ⟨by simpa using hsay.forget hc hrest',?_⟩
    have hrest : rest ≠ [] := fun hnil => by simpa using hend.mpr hnil
    simpa [or_imp,forall_and,hrest] using h.nonempty

theorem Sound.handleClientData (h : Sound r) {rounds : List Round}
    (hstep : r.handleClientData fd rounds = some r') : Sound r' := by
  induction rounds generalizing r with
  | nil => simp [Running.handleClientData] at hstep
  | cons round rounds ih =>
    match round with
    | .wouldBlock => exact Option.some.inj hstep ▸ h
    | .failed | .chunk [] _ => exact Option.some.inj hstep ▸ h.closeConn fd
    | .chunk (b::bs) writes =>
      obtain ⟨c,hc,hstep⟩ := Option.bind_eq_some_iff.mp hstep
      obtain ⟨⟨e,r₁⟩,hecho,hstep⟩ := Option.bind_eq_some_iff.mp hstep
      have hsound := h.echo hc hecho
      simp only at hstep
      split at hstep
      · rw [if_pos ‹_›] at hsound
        exact Option.some.inj hstep ▸ hsound
      · rw [if_neg ‹_›] at hsound
        exact ih hsound hstep

theorem Sound.step (h : Sound r) {e : Event} (hstep : step r e = some r') : Sound r' := by
  cases e with
  | server answers => exact h.handleNewConnection hstep
  | client fd rounds => exact h.handleClientData hstep

/-- A client sends four bytes at once and takes one; the next byte it sends is echoed at once. -/
def slowClient : List Event :=
  [.server [.connection 5 true,.failed],
    .client 5 [.chunk [1,2,3,4] [.taken 1,.wouldBlock],.chunk [5] [.taken 1],.wouldBlock]]

end Running
end EpollServer
end UProtocols
