import UProtocols.Runs
import UProtocols.Relays

/-!
# The echo server on mio

`Client` and `WebSocketServer` of `websocket_server_with_mio.rs`. The answers of the streams, of
the listener and of the poll's registry are inputs, in the order in which the calls are made; what
a loop does not call for is not looked at. A token is never given out again, so that it names the
connection.
-/

namespace UProtocols
namespace MioServer

open Function Relays Runs

inductive Interest
  | readable | readableWritable
  deriving DecidableEq

structure Client where
  writeBuffer : List UInt8
  interest : Interest
  deriving DecidableEq

/-- What the listener answers, with the answer of the registry for an accepted stream. -/
inductive AcceptAnswer
  | stream (registered : Bool)
  | wouldBlock | failed

/-! ## The client -/

namespace Client

def new : Client := ⟨[],.readable⟩

/-- What the loop of `readable` returns, with the bytes it has read. -/
def readLoop (data : List UInt8) :
    List (ReadAnswer UInt8) → Option (Except Unit (Option (List UInt8)) × List UInt8)
  | [] => none
  | .bytes []::_ => some (.ok none,data)
  | .bytes (b::bs)::answers => readLoop (data ++ b::bs) answers
  | .wouldBlock::_ => some (.ok (some data),data)
  | .failed::_ => some (.error (),data)

def readable (answers : List (ReadAnswer UInt8)) :
    Option (Except Unit (Option (List UInt8)) × List UInt8) :=
  readLoop [] answers

/-- The result, the client and the bytes that were written. -/
def writable (c : Client) (answers : List WriteAnswer) (registered : Bool) :
    Option (Except Unit Unit × Client × List UInt8) :=
  (offer answers c.writeBuffer).map fun (e,written,rest) =>
    match e with
    | .failed => (.error (),{c with writeBuffer := rest},written)
    | .finished | .blocked =>
      if rest = [] then
        if registered then (.ok (),⟨rest,.readable⟩,written)
        else (.error (),{c with writeBuffer := rest},written)
      else (.ok (),{c with writeBuffer := rest},written)

def queueWrite (c : Client) (data : List UInt8) (registered : Bool) : Except Unit Unit × Client :=
  if registered then (.ok (),⟨c.writeBuffer ++ data,.readableWritable⟩)
  else (.error (),{c with writeBuffer := c.writeBuffer ++ data})

theorem readLoop_data {answers : List (ReadAnswer UInt8)} {data bytes : List UInt8}
    {received : List UInt8} (h : readLoop data answers = some (.ok (some received),bytes)) :
    received = bytes := by
  fun_induction readLoop data answers with
  | case1 => simp at h
  | case2 => simp at h
  | case3 data b bs answers ih => exact ih h
  | case4 =>
    simp only [Option.some.injEq,Prod.mk.injEq,Except.ok.injEq] at h
    exact h.1.symm.trans h.2
  | case5 => simp at h

/-- A client waits for the stream to take bytes exactly when it has some. -/
def Armed (c : Client) : Prop := c.interest = .readableWritable ↔ c.writeBuffer ≠ []

theorem armed_new : new.Armed := by simp [Armed,new]

/-- What `writable` writes comes from the front of the buffer. -/
theorem writable_spec {c c' : Client} {answers : List WriteAnswer} {registered : Bool}
    {result : Except Unit Unit} {written : List UInt8}
    (h : c.writable answers registered = some (result,c',written)) :
    written ++ c'.writeBuffer = c.writeBuffer ∧ (c.Armed → result = .ok () → c'.Armed) := by
  simp only [writable,Option.map_eq_some_iff,Prod.exists] at h
  obtain ⟨e,w,rest,hoffer,hend⟩ := h
  obtain ⟨happend,-⟩ := offer_spec hoffer
  have hkept : ∀ c₁ : Client, c₁ = {c with writeBuffer := rest} → rest ≠ [] →
      c.Armed → c₁.Armed := by
    rintro _ rfl hrest harmed
    have hbuffer : c.writeBuffer ≠ [] := by
      rw [← happend]
      simp [hrest]
    simpa [Armed,hrest,hbuffer] using harmed
  cases e with
  | failed =>
    simp only [Prod.mk.injEq] at hend
    obtain ⟨rfl,rfl,rfl⟩ := hend
    simp [happend]
  | finished | blocked =>
    by_cases hrest : rest = []
    · subst hrest
      cases registered <;>
        simp only [if_true,Bool.false_eq_true,if_false,Prod.mk.injEq] at hend <;>
        obtain ⟨rfl,rfl,rfl⟩ := hend <;> simp_all [Armed]
    · simp only [hrest,if_false,Prod.mk.injEq] at hend
      obtain ⟨rfl,rfl,rfl⟩ := hend
      exact ⟨happend,fun harmed _ => hkept _ rfl hrest harmed⟩

end Client

/-! ## The server -/

structure WebSocketServer where
  clients : ℕ → Option Client
  nextToken : ℕ

/-- What a handler returns, the server after it and what went over the streams. -/
structure Handled where
  result : Except Unit Unit
  server : WebSocketServer
  traffic : List (Traffic UInt8)

def serverToken : ℕ := 0

namespace WebSocketServer

def new : WebSocketServer := ⟨fun _ => none,1⟩

def insert (s : WebSocketServer) (token : ℕ) (client : Client) : WebSocketServer :=
  {s with clients := update s.clients token (some client)}

def remove (s : WebSocketServer) (token : ℕ) : WebSocketServer :=
  {s with clients := update s.clients token none}

def acceptConnections : WebSocketServer → List AcceptAnswer →
    Option (Except Unit Unit × WebSocketServer)
  | _, [] => none
  | s, .wouldBlock::_ => some (.ok (),s)
  | s, .failed::_ => some (.error (),s)
  | s, .stream registered::answers =>
    let token := s.nextToken
    let s := {s with nextToken := token + 1}
    if registered then acceptConnections (s.insert token Client.new) answers
    else some (.error (),s)

def handleClientReadable (s : WebSocketServer) (token : ℕ) (answers : List (ReadAnswer UInt8))
    (registered : Bool) : Option Handled :=
  match s.clients token with
  | none => some ⟨.ok (),s,[]⟩
  | some client =>
    (Client.readable answers).map fun (result,bytes) =>
      let traffic := [.heard token bytes]
      match result with
      | .error e => ⟨.error e,s,traffic⟩
      | .ok none => ⟨.ok (),s.remove token,traffic⟩
      | .ok (some []) => ⟨.ok (),s,traffic⟩
      | .ok (some data) =>
        let queued := client.queueWrite data registered
        ⟨queued.1,s.insert token queued.2,traffic⟩

def handleClientWritable (s : WebSocketServer) (token : ℕ) (answers : List WriteAnswer)
    (registered : Bool) : Option Handled :=
  match s.clients token with
  | none => some ⟨.ok (),s,[]⟩
  | some client =>
    (client.writable answers registered).map fun (result,client,bytes) =>
      ⟨result,s.insert token client,[.said token bytes]⟩

end WebSocketServer

/-- `run` removes a client whose handler has failed. -/
def Handled.settle (h : Handled) (token : ℕ) : WebSocketServer × List (Traffic UInt8) :=
  match h.result with
  | .ok () => (h.server,h.traffic)
  | .error _ => (h.server.remove token,h.traffic)

/-- An event of the poll, with the answers to the calls that its handlers make. -/
structure Event where
  token : ℕ
  accepts : List AcceptAnswer
  readable : Option (List (ReadAnswer UInt8) × Bool)
  writable : Option (List WriteAnswer × Bool)

/-- The loop of `run`: the server, what went over the streams, and whether the loop has returned
an error. -/
structure Running where
  server : WebSocketServer
  log : List (Traffic UInt8)
  stopped : Bool

namespace Running

def start : Running := ⟨.new,[],false⟩

def handleReadable (r : Running) (e : Event) : Option Running :=
  match e.readable with
  | none => some r
  | some (answers,registered) =>
    (r.server.handleClientReadable e.token answers registered).map fun handled =>
      let (server,traffic) := handled.settle e.token
      {r with server := server, log := r.log ++ traffic}

def handleWritable (r : Running) (e : Event) : Option Running :=
  match e.writable with
  | none => some r
  | some (answers,registered) =>
    (r.server.handleClientWritable e.token answers registered).map fun handled =>
      let (server,traffic) := handled.settle e.token
      {r with server := server, log := r.log ++ traffic}

/-- One event of the loop of `run`. -/
def step (r : Running) (e : Event) : Option Running :=
  if r.stopped then none
  else if e.token = serverToken then
    (r.server.acceptConnections e.accepts).map fun (result,server) =>
      {r with server := server, stopped := result = .error ()}
  else (r.handleReadable e).bind fun r => r.handleWritable e

end Running

/-! ## What the handlers do -/

namespace WebSocketServer

/-- What is still to be written to each client. -/
def owed (s : WebSocketServer) (token : ℕ) : Option (List UInt8) :=
  (s.clients token).map Client.writeBuffer

@[simp] theorem owed_insert (s : WebSocketServer) (token : ℕ) (client : Client) :
    (s.insert token client).owed = update s.owed token (some client.writeBuffer) := by
  funext t
  by_cases h : t = token <;> simp [owed,insert,h]

@[simp] theorem owed_remove (s : WebSocketServer) (token : ℕ) :
    (s.remove token).owed = update s.owed token none := by
  funext t
  by_cases h : t = token <;> simp [owed,remove,h]

@[simp] theorem nextToken_insert (s : WebSocketServer) (token : ℕ) (client : Client) :
    (s.insert token client).nextToken = s.nextToken := rfl

@[simp] theorem nextToken_remove (s : WebSocketServer) (token : ℕ) :
    (s.remove token).nextToken = s.nextToken := rfl

@[simp] theorem remove_insert (s : WebSocketServer) (token : ℕ) (client : Client) :
    (s.insert token client).remove token = s.remove token := by
  simp [insert,remove]

end WebSocketServer

namespace Running

variable {r r' : Running} {e : Event}

/-- The client is kept with what was read, or removed. -/
theorem handleReadable_cases (h : r.handleReadable e = some r') :
    r' = r ∨ ∃ client bytes, r.server.clients e.token = some client ∧
      r'.log = r.log ++ [.heard e.token bytes] ∧ r'.stopped = r.stopped ∧
      (r'.server = r.server.remove e.token ∨ r'.server = r.server ∧ bytes = [] ∨
        r'.server = r.server.insert e.token ⟨client.writeBuffer ++ bytes,.readableWritable⟩ ∧
          bytes ≠ []) := by
  unfold handleReadable at h
  split at h
  · exact .inl (Option.some.inj h).symm
  · rename_i answers registered _
    simp only [WebSocketServer.handleClientReadable] at h
    split at h
    · left
      simpa [Handled.settle] using h.symm
    · rename_i client hclient
      right
      simp only [Option.map_map,Option.map_eq_some_iff,Prod.exists,Function.comp] at h
      obtain ⟨result,bytes,hread,rfl⟩ := h
      refine ⟨client,bytes,hclient,?_⟩
      match result with
      | .error _ => simp [Handled.settle]
      | .ok none => simp [Handled.settle]
      | .ok (some data) =>
        have hdata := Client.readLoop_data hread
        subst hdata
        cases data with
        | nil => simp [Handled.settle]
        | cons b bs => cases registered <;> simp [Handled.settle,Client.queueWrite]

/-- Bytes from the front of the buffer are written; the client is kept with the rest, or
removed. -/
theorem handleWritable_cases (h : r.handleWritable e = some r') :
    r' = r ∨ ∃ client client' bytes, r.server.clients e.token = some client ∧
      bytes ++ client'.writeBuffer = client.writeBuffer ∧
      r'.log = r.log ++ [.said e.token bytes] ∧ r'.stopped = r.stopped ∧
      (r'.server = r.server.remove e.token ∨
        r'.server = r.server.insert e.token client' ∧ (client.Armed → client'.Armed)) := by
  unfold handleWritable at h
  split at h
  · exact .inl (Option.some.inj h).symm
  · rename_i answers registered _
    simp only [WebSocketServer.handleClientWritable] at h
    split at h
    · left
      simpa [Handled.settle] using h.symm
    · rename_i client hclient
      right
      simp only [Option.map_map,Option.map_eq_some_iff,Prod.exists,Function.comp] at h
      obtain ⟨result,client',bytes,hwrite,rfl⟩ := h
      obtain ⟨happend,harmed⟩ := Client.writable_spec hwrite
      refine ⟨client,client',bytes,hclient,happend,?_⟩
      cases result with
      | error _ => simp [Handled.settle]
      | ok _ => simpa [Handled.settle] using .inr fun h => harmed h rfl

/-! ## Runs -/

end Running

namespace WebSocketServer

/-- Each client waits for what it needs, and the listener's token is not a client's. -/
structure Registered (s : WebSocketServer) : Prop where
  armed : ∀ token client, s.clients token = some client → client.Armed
  listener : s.clients serverToken = none
  nextToken : serverToken < s.nextToken

namespace Registered

variable {s s' : WebSocketServer} {token : ℕ} {client : Client}

theorem new : Registered new where
  armed token client h := by simp [WebSocketServer.new] at h
  listener := rfl
  nextToken := Nat.one_pos

theorem insert (h : Registered s) (hclient : client.Armed) (hne : token ≠ serverToken) :
    Registered (s.insert token client) where
  armed t c ht := by
    by_cases heq : t = token
    · simp only [WebSocketServer.insert,heq,update_self,Option.some.injEq] at ht
      exact ht ▸ hclient
    · exact h.armed t c (by simpa [WebSocketServer.insert,heq] using ht)
  listener := by simpa [WebSocketServer.insert,update_of_ne hne.symm] using h.listener
  nextToken := h.nextToken

theorem remove (h : Registered s) (token : ℕ) : Registered (s.remove token) where
  armed t c ht := by
    by_cases heq : t = token
    · simp [WebSocketServer.remove,heq] at ht
    · exact h.armed t c (by simpa [WebSocketServer.remove,heq] using ht)
  listener := by
    by_cases heq : serverToken = token <;> simp [WebSocketServer.remove,heq]
    exact h.listener
  nextToken := h.nextToken

end Registered
end WebSocketServer

namespace Running

variable {r r' : Running} {e : Event} {events : List Event}

/-- The books of the server are in order and its streams are registered. -/
structure Sound (r : Running) : Prop where
  books : Books r.log r.server.nextToken r.server.owed fun _ => []
  registered : r.server.Registered

theorem sound_start : Sound start := ⟨Books.empty 1,.new⟩

theorem Sound.handleReadable (h : Sound r) (hne : e.token ≠ serverToken)
    (hstep : r.handleReadable e = some r') : Sound r' := by
  obtain rfl | ⟨client,bytes,hclient,hlog,-,hserver⟩ := handleReadable_cases hstep
  · exact h
  have howed : r.server.owed e.token = some client.writeBuffer := by
    simp [WebSocketServer.owed,hclient]
  have hheard := h.books.hear howed bytes
  obtain hserver | ⟨hserver,rfl⟩ | ⟨hserver,hbytes⟩ := hserver
  · constructor
    · simpa [hlog,hserver] using hheard.close e.token
    · simpa [hserver] using h.registered.remove e.token
  · constructor
    · rw [hlog,hserver]
      simpa [← howed] using hheard
    · simpa [hserver] using h.registered
  · constructor
    · simpa [hlog,hserver] using hheard
    · rw [hserver]
      exact h.registered.insert (by simp [Client.Armed,hbytes]) hne

theorem Sound.handleWritable (h : Sound r) (hne : e.token ≠ serverToken)
    (hstep : r.handleWritable e = some r') : Sound r' := by
  obtain rfl | ⟨client,client',bytes,hclient,happend,hlog,-,hserver⟩ := handleWritable_cases hstep
  · exact h
  have howed : r.server.owed e.token = some (bytes ++ client'.writeBuffer) := by
    simp [WebSocketServer.owed,hclient,happend]
  have hsaid := h.books.say howed
  obtain hserver | ⟨hserver,harmed⟩ := hserver
  · constructor
    · simpa [hlog,hserver] using hsaid.close e.token
    · simpa [hserver] using h.registered.remove e.token
  · constructor
    · simpa [hlog,hserver] using hsaid
    · rw [hserver]
      exact h.registered.insert (harmed (h.registered.armed _ _ hclient)) hne

/-- Accepting connections opens accounts under tokens that were not used before. -/
theorem sound_acceptConnections {s s' : WebSocketServer} {answers : List AcceptAnswer}
    {result : Except Unit Unit} {log : List (Traffic UInt8)}
    (hbooks : Books log s.nextToken s.owed fun _ => []) (hreg : s.Registered)
    (h : s.acceptConnections answers = some (result,s')) :
    Books log s'.nextToken s'.owed (fun _ => []) ∧ s'.Registered := by
  fun_induction WebSocketServer.acceptConnections s answers with
  | case1 => simp at h
  | case2 =>
    simp only [Option.some.injEq,Prod.mk.injEq] at h
    exact h.2 ▸ ⟨hbooks,hreg⟩
  | case3 =>
    simp only [Option.some.injEq,Prod.mk.injEq] at h
    exact h.2 ▸ ⟨hbooks,hreg⟩
  | case4 s answers token s₁ ih =>
    refine ih ?_ ?_ h
    · rw [WebSocketServer.owed_insert]
      exact hbooks.accept
    · exact WebSocketServer.Registered.insert ⟨hreg.armed,hreg.listener,by
        have := hreg.nextToken
        simp only [s₁,token]
        omega⟩ Client.armed_new (Nat.ne_of_gt hreg.nextToken)
  | case5 s registered answers token s₁ =>
    simp only [Option.some.injEq,Prod.mk.injEq] at h
    rw [← h.2]
    exact ⟨hbooks.skip,hreg.armed,hreg.listener,Nat.lt_succ_of_lt hreg.nextToken⟩

theorem Sound.step (h : Sound r) (hstep : step r e = some r') : Sound r' := by
  unfold Running.step at hstep
  split at hstep
  · simp at hstep
  split at hstep
  · simp only [Option.map_eq_some_iff,Prod.exists] at hstep
    obtain ⟨result,server,haccept,rfl⟩ := hstep
    obtain ⟨hbooks,hreg⟩ := sound_acceptConnections h.books h.registered haccept
    exact ⟨hbooks,hreg⟩
  · rename_i hne
    obtain ⟨r₁,hreadable,hwritable⟩ := Option.bind_eq_some_iff.mp hstep
    exact (h.handleReadable hne hreadable).handleWritable hne hwritable

/-- In every run the server writes back to each client what it has read from it, without a gap and
in order. What is still missing is in the client's buffer, and the server waits for the stream to
take bytes exactly while something is missing. -/
theorem echo_and_interest (h : exec step start events = some r) (token : ℕ) :
    said r.log token <+: heard r.log token ∧
      ∀ client, r.server.clients token = some client →
        said r.log token ++ client.writeBuffer = heard r.log token ∧
        (client.interest = .readable ↔ said r.log token = heard r.log token) := by
  have hsound : Sound r := exec_invariant (fun _ _ _ ht hs => hs.step ht) h sound_start
  refine ⟨hsound.books.isPrefix rfl,fun client hclient => ?_⟩
  have hexact : said r.log token ++ client.writeBuffer = heard r.log token := by
    refine hsound.books.exact rfl ?_
    simp [WebSocketServer.owed,hclient]
  refine ⟨hexact,?_⟩
  have harmed := hsound.registered.armed token client hclient
  rw [← hexact,List.self_eq_append_right]
  cases hinterest : client.interest <;> simp_all [Client.Armed]

/-- One client sends two bytes and takes one of them back. -/
def partialEcho : List Event :=
  [⟨serverToken,[.stream true,.wouldBlock],none,none⟩,
    ⟨1,[],some ([.bytes [1,2],.wouldBlock],true),some ([.taken 1,.wouldBlock],true)⟩]

theorem echo_and_interest_partial : ∃ r, exec step start partialEcho = some r ∧
    said r.log 1 = [1] ∧ heard r.log 1 = [1,2] ∧ said r.log 1 <+: heard r.log 1 :=
  ⟨_,rfl,rfl,rfl,(echo_and_interest (show exec step start partialEcho = some _ from rfl) 1).1⟩

end Running
end MioServer
end UProtocols
