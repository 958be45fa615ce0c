import Mathlib.Data.List.Nodup
import Mathlib.Logic.Function.Basic
import UProtocols.Runs

/-!
# The WebSocket authentication server

`handle_connection` of `websocket_authentication.rs`, one task for each accepted connection over
one store of sessions. The store is keyed by the peer's address, and a task takes its entry out
only when it ends. What the client sends is already parsed; `decode` is that of the JWT library,
which also reads the time. Whether a response can be sent decides nothing past the first one.
-/

namespace UProtocols
namespace Authentication

structure Claims where
  sub : String
  roles : List String
  exp : ℕ
  deriving DecidableEq

structure Session where
  userId : String
  roles : List String
  authenticated : Bool
  tokenExpiry : ℕ
  deriving DecidableEq

inductive ClientMessage
  | auth (token : String)
  | subscribe (channel : String)
  | adminAction (action : String)
  | message (content : String)
  deriving DecidableEq

inductive ServerMessage
  | authRequired
  | authSuccess (userId : String)
  | authFailed (reason : String)
  | unauthorized (reason : String)
  | tokenExpired
  | subscribed (channel : String)
  | error (message : String)
  deriving DecidableEq

/-- What the next read of a connection gives; `text none` does not parse, and frames of the
other kinds are skipped. -/
inductive Incoming
  | text (message : Option ClientMessage)
  | close
  | failure
  | other
  deriving DecidableEq

/-- What the server does for a connection. -/
inductive Action
  | subscribe (channel : String)
  | adminAction (action : String)
  | message (content : String)
  deriving DecidableEq

def hasRole (session : Session) (requiredRole : String) : Bool :=
  session.roles.contains requiredRole

def Session.ofClaims (claims : Claims) : Session := ⟨claims.sub,claims.roles,true,claims.exp⟩

/-- One round of the message loop: the claims of a token that is accepted, the action that is
performed, the responses, and whether the loop goes on. -/
structure Round where
  accepted : Option Claims
  performed : Option Action
  responses : List ServerMessage
  goesOn : Bool
  deriving DecidableEq

def Round.reply (response : ServerMessage) (goesOn : Bool) : Round := ⟨none,none,[response],goesOn⟩

def handleAuth (decoded : Option Claims) (now : ℕ) : Round :=
  match decoded with
  | none => .reply (.authFailed "Invalid token") false
  | some claims =>
    if claims.exp < now then .reply .tokenExpired false
    else ⟨some claims,none,[.authSuccess claims.sub],true⟩

def handleSubscribe (found : Option Session) (channel : String) (now : ℕ) : Round :=
  match found with
  | none => .reply .authRequired true
  | some session =>
    if !session.authenticated then .reply .authRequired true
    else if session.tokenExpiry < now then .reply .tokenExpired false
    else if "premium_".toList.isPrefixOf channel.toList && !hasRole session "premium" then
      .reply (.unauthorized "Premium subscription required") true
    else ⟨none,some (.subscribe channel),[.subscribed channel],true⟩

/-- Neither the flag nor the expiry of the session is looked at. -/
def handleAdminAction (found : Option Session) (action : String) : Round :=
  match found with
  | none => ⟨none,none,[],true⟩
  | some session =>
    if !hasRole session "admin" then .reply (.unauthorized "Admin role required") true
    else ⟨none,some (.adminAction action),[],true⟩

/-- That there is a session is all that is asked for. -/
def handleMessage (found : Option Session) (content : String) : Round :=
  match found with
  | none => .reply .authRequired true
  | some _ => ⟨none,some (.message content),[],true⟩

section

variable (decode : String → ℕ → Option Claims)

def handleIncoming (found : Option Session) (incoming : Incoming) (now : ℕ) : Round :=
  match incoming with
  | .text (some (.auth token)) => handleAuth (decode token now) now
  | .text (some (.subscribe channel)) => handleSubscribe found channel now
  | .text (some (.adminAction action)) => handleAdminAction found action
  | .text (some (.message content)) => handleMessage found content
  | .text none => .reply (.error "Invalid message format") true
  | .close | .failure => ⟨none,none,[],false⟩
  | .other => ⟨none,none,[],true⟩

end

/-! ## The server -/

/-- A connection, numbered in the order of acceptance, and whether its loop has ended. -/
structure Task where
  conn : ℕ
  addr : String
  ended : Bool
  deriving DecidableEq

inductive Record
  | authenticated (conn : ℕ) (claims : Claims)
  | performed (conn : ℕ) (action : Action) (now : ℕ)
  deriving DecidableEq

structure State where
  sessions : String → Option Session
  tasks : List Task
  nextConn : ℕ
  clock : ℕ
  log : List Record

/-- `finish` is the end of a task past its loop, where the session is removed. -/
inductive Event
  | accept (addr : String) (greeted : Bool)
  | receive (conn : ℕ) (incoming : Incoming) (now : ℕ)
  | finish (conn : ℕ)
  deriving DecidableEq

namespace State

def initial : State := ⟨fun _ => none,[],0,0,[]⟩

def findTask (s : State) (conn : ℕ) : Option Task := s.tasks.find? fun task => task.conn == conn

/-- The effects of a round of a task. -/
def record (s : State) (task : Task) (round : Round) (now : ℕ) : State where
  sessions :=
    match round.accepted with
    | some claims => Function.update s.sessions task.addr (some (.ofClaims claims))
    | none => s.sessions
  tasks :=
    if round.goesOn then s.tasks
    else s.tasks.map fun other =>
      if other.conn = task.conn then {other with ended := true} else other
  nextConn := s.nextConn
  clock := now
  log := s.log ++ ((round.accepted.map (Record.authenticated task.conn)).toList ++
    (round.performed.map fun action => Record.performed task.conn action now).toList)

section

variable (decode : String → ℕ → Option Claims)

/-- A connection whose greeting cannot be sent is gone at once. -/
def step (s : State) : Event → Option State
  | .accept addr greeted =>
    some {s with tasks := if greeted then ⟨s.nextConn,addr,false⟩::s.tasks else s.tasks
                 nextConn := s.nextConn + 1}
  | .receive conn incoming now =>
    match s.findTask conn with
    | some task =>
      if task.ended || decide (now < s.clock) then none
      else some (s.record task (handleIncoming decode (s.sessions task.addr) incoming now) now)
    | none => none
  | .finish conn =>
    match s.findTask conn with
    | some task =>
      if task.ended then
        some {s with sessions := Function.update s.sessions task.addr none
                     tasks := s.tasks.filter fun other => other.conn != conn}
      else none
    | none => none

def run (events : List Event) : Option State := Runs.exec (step decode) initial events

end
end State

/-- Every action was performed after a successful authentication on the same connection with a
token that had not expired, an admin action with one that lists the role. -/
def Justified (log : List Record) : Prop :=
  ∀ before after conn action now, log = before ++ .performed conn action now::after →
    ∃ claims, .authenticated conn claims ∈ before ∧ now ≤ claims.exp ∧
      ∀ name, action = .adminAction name → "admin" ∈ claims.roles

/-- No connection is accepted from an address whose last task is not over, and admin actions and
messages that find a session find one whose token has not expired. -/
def Guarded (s : State) : Event → Prop
  | .accept addr greeted => greeted → ∀ task ∈ s.tasks, task.addr ≠ addr
  | .receive conn (.text (some (.adminAction _))) now =>
    ∀ task ∈ s.findTask conn, ∀ session ∈ s.sessions task.addr,
      hasRole session "admin" → now ≤ session.tokenExpiry
  | .receive conn (.text (some (.message _))) now =>
    ∀ task ∈ s.findTask conn, ∀ session ∈ s.sessions task.addr, now ≤ session.tokenExpiry
  | _ => True

instance decidableGuarded (s : State) (e : Event) : Decidable (Guarded s e) :=
  match e with
  | .accept addr greeted =>
    inferInstanceAs (Decidable (greeted → ∀ task ∈ s.tasks, task.addr ≠ addr))
  | .receive conn (.text (some (.adminAction _))) now =>
    inferInstanceAs (Decidable (∀ task ∈ s.findTask conn, ∀ session ∈ s.sessions task.addr,
      hasRole session "admin" → now ≤ session.tokenExpiry))
  | .receive conn (.text (some (.message _))) now =>
    inferInstanceAs (Decidable (∀ task ∈ s.findTask conn, ∀ session ∈ s.sessions task.addr,
      now ≤ session.tokenExpiry))
  | .receive _ (.text (some (.auth _))) _ | .receive _ (.text (some (.subscribe _))) _
  | .receive _ (.text none) _ | .receive _ .close _ | .receive _ .failure _
  | .receive _ .other _ | .finish _ => isTrue trivial

/-! ## Rounds -/

section

variable {decode : String → ℕ → Option Claims} {found : Option Session} {incoming : Incoming}
  {now : ℕ} {action : Action}

/-- An action is performed for a session: a subscription for one that has not expired, an admin
action for one with the role. -/
theorem handleIncoming_performed
    (h : (handleIncoming decode found incoming now).performed = some action) :
    (handleIncoming decode found incoming now).accepted = none ∧ ∃ session, found = some session ∧
      ((∃ channel, action = .subscribe channel ∧ now ≤ session.tokenExpiry) ∨
        (∃ name, incoming = .text (some (.adminAction name)) ∧ action = .adminAction name ∧
          hasRole session "admin") ∨
        ∃ content, incoming = .text (some (.message content)) ∧ action = .message content) := by
  cases incoming with
  | text parsed =>
    cases parsed with
    | none => cases h
    | some message =>
      cases message with
      | auth token =>
        simp only [handleIncoming,handleAuth] at h
        cases hdecode : decode token now with
        | none => simp [hdecode,Round.reply] at h
        | some claims =>
          simp only [hdecode] at h
          split_ifs at h
          all_goals cases h
      | subscribe channel =>
        cases found with
        | none => cases h
        | some session =>
          simp only [handleIncoming,handleSubscribe] at h ⊢
          split_ifs at h ⊢ with hauth hexpired hpremium
          all_goals cases h
          exact ⟨rfl,session,rfl,.inl ⟨channel,rfl,Nat.le_of_not_lt hexpired⟩⟩
      | adminAction name =>
        cases found with
        | none => cases h
        | some session =>
          simp only [handleIncoming,handleAdminAction] at h ⊢
          split_ifs at h ⊢ with hrole
          all_goals cases h
          exact ⟨rfl,session,rfl,.inr (.inl ⟨name,rfl,rfl,by simpa using hrole⟩)⟩
      | message content =>
        cases found with
        | none => cases h
        | some session =>
          cases h
          exact ⟨rfl,session,rfl,.inr (.inr ⟨content,rfl,rfl⟩)⟩
  | close => cases h
  | failure => cases h
  | other => cases h

end

/-! ## Logs -/

/-- One record more: an action must be justified by what was recorded before it. -/
theorem Justified.snoc {log : List Record} (h : Justified log) {r : Record}
    (hr : ∀ conn action now, r = .performed conn action now →
      ∃ claims, .authenticated conn claims ∈ log ∧ now ≤ claims.exp ∧
        ∀ name, action = .adminAction name → "admin" ∈ claims.roles) :
    Justified (log ++ [r]) := by
  intro before after conn action now heq
  cases after using List.reverseRecOn with
  | nil =>
    obtain ⟨rfl,hlast⟩ := List.append_inj' heq rfl
    exact hr conn action now (List.singleton_inj.mp hlast)
  | append_singleton after last =>
    rw [← List.cons_append,← List.append_assoc] at heq
    exact h before after conn action now (List.append_inj' heq rfl).1

namespace State

/-- The connections and the addresses of the tasks. -/
def owners (s : State) : List (ℕ × String) := s.tasks.map fun task => (task.conn,task.addr)

/-- A session belongs to the only task with its address and was made by its authentication. -/
structure Owned (s : State) : Prop where
  conns_nodup : (s.owners.map Prod.fst).Nodup
  conns_lt : ∀ owner ∈ s.owners, owner.1 < s.nextConn
  addrs_nodup : (s.owners.map Prod.snd).Nodup
  sessions : ∀ addr session, s.sessions addr = some session →
    ∃ conn claims, (conn,addr) ∈ s.owners ∧ .authenticated conn claims ∈ s.log ∧
      session = .ofClaims claims
  justified : Justified s.log

variable {s t : State} {task : Task} {conn : ℕ}

theorem mem_owners (h : s.findTask conn = some task) :
    task.conn = conn ∧ (conn,task.addr) ∈ s.owners := by
  have hconn : task.conn = conn := by simpa using List.find?_some h
  refine ⟨hconn,List.mem_map.mpr ⟨task,List.mem_of_find?_eq_some h,?_⟩⟩
  rw [hconn]

theorem owners_record (s : State) (task : Task) (round : Round) (now : ℕ) :
    (s.record task round now).owners = s.owners := by
  simp only [owners,record]
  split_ifs
  · rfl
  · rw [List.map_map]
    refine List.map_congr_left fun other _ => ?_
    simp only [Function.comp_apply]
    split_ifs <;> rfl

theorem Owned.conn_unique (h : s.Owned) {addr : String} {c d : ℕ} (hc : (c,addr) ∈ s.owners)
    (hd : (d,addr) ∈ s.owners) : c = d :=
  congrArg Prod.fst (List.inj_on_of_nodup_map h.addrs_nodup hc hd rfl)

theorem Owned.addr_unique (h : s.Owned) {addr other : String} (hc : (conn,addr) ∈ s.owners)
    (hd : (conn,other) ∈ s.owners) : addr = other :=
  congrArg Prod.snd (List.inj_on_of_nodup_map h.conns_nodup hc hd rfl)

theorem Owned.accept (h : s.Owned) {addr : String} (hfree : ∀ task ∈ s.tasks, task.addr ≠ addr) :
    Owned {s with tasks := ⟨s.nextConn,addr,false⟩::s.tasks, nextConn := s.nextConn + 1} where
  conns_nodup := by
    refine List.nodup_cons.mpr ⟨fun hmem => ?_,h.conns_nodup⟩
    obtain ⟨owner,howner,heq⟩ := List.mem_map.mp hmem
    exact absurd heq (Nat.ne_of_lt (h.conns_lt owner howner))
  conns_lt := by
    refine List.forall_mem_cons.mpr ⟨Nat.lt_succ_self _,fun owner howner => ?_⟩
    exact Nat.lt_succ_of_lt (h.conns_lt owner howner)
  addrs_nodup := by
    refine List.nodup_cons.mpr ⟨fun hmem => ?_,h.addrs_nodup⟩
    obtain ⟨owner,howner,heq⟩ := List.mem_map.mp hmem
    obtain ⟨task,htask,rfl⟩ := List.mem_map.mp howner
    exact hfree task htask heq
  sessions := by
    intro a session hsession
    obtain ⟨c,claims,hc,hrest⟩ := h.sessions a session hsession
    exact ⟨c,claims,List.mem_cons_of_mem _ hc,hrest⟩
  justified := h.justified

theorem Owned.finish (h : s.Owned) (htask : s.findTask conn = some task) :
    Owned {s with sessions := Function.update s.sessions task.addr none
                  tasks := s.tasks.filter fun other => other.conn != conn} := by
  have howners : owners {s with
      sessions := Function.update s.sessions task.addr none
      tasks := s.tasks.filter fun other => other.conn != conn} =
        s.owners.filter fun owner => owner.1 != conn := by
    rw [owners,owners,List.filter_map]
    rfl
  obtain ⟨-,hmem⟩ := mem_owners htask
  refine ⟨?_,?_,?_,?_,h.justified⟩
  · rw [howners]
    exact ((List.filter_sublist).map Prod.fst).nodup h.conns_nodup
  · intro owner howner
    rw [howners] at howner
    exact h.conns_lt owner (List.mem_of_mem_filter howner)
  · rw [howners]
    exact ((List.filter_sublist).map Prod.snd).nodup h.addrs_nodup
  · intro addr session hsession
    by_cases heq : addr = task.addr
    · simp [heq] at hsession
    · simp only [Function.update_of_ne heq] at hsession
      obtain ⟨c,claims,hc,hrest⟩ := h.sessions addr session hsession
      refine ⟨c,claims,?_,hrest⟩
      rw [howners]
      refine List.mem_filter.mpr ⟨hc,?_⟩
      have hne : c ≠ conn := by
        rintro rfl
        exact heq (h.addr_unique hc hmem)
      simpa using hne

/-- A session outlives a longer log. -/
theorem Owned.sessions_append (h : s.Owned) (records : List Record) {addr : String}
    {session : Session} (hsession : s.sessions addr = some session) :
    ∃ conn claims, (conn,addr) ∈ s.owners ∧ .authenticated conn claims ∈ s.log ++ records ∧
      session = .ofClaims claims := by
  obtain ⟨c,claims,hc,hauth,heq⟩ := h.sessions addr session hsession
  exact ⟨c,claims,hc,List.mem_append_left _ hauth,heq⟩

theorem Owned.record (h : s.Owned) (hmem : (task.conn,task.addr) ∈ s.owners) {round : Round}
    {now : ℕ} (honce : ∀ action, round.performed = some action → round.accepted = none)
    (hperformed : ∀ action, round.performed = some action → ∃ session,
      s.sessions task.addr = some session ∧ now ≤ session.tokenExpiry ∧
        ∀ name, action = .adminAction name → hasRole session "admin") :
    (s.record task round now).Owned := by
  have howners := owners_record s task round now
  refine ⟨howners ▸ h.conns_nodup,howners ▸ h.conns_lt,howners ▸ h.addrs_nodup,?_,?_⟩
  · rw [howners]
    intro addr session hsession
    cases haccepted : round.accepted with
    | none =>
      simp only [State.record,haccepted] at hsession ⊢
      exact h.sessions_append _ hsession
    | some claims =>
      simp only [State.record,haccepted] at hsession ⊢
      by_cases heq : addr = task.addr
      · subst heq
        simp only [Function.update_self,Option.some.injEq] at hsession
        exact ⟨task.conn,claims,hmem,by simp,hsession.symm⟩
      · simp only [Function.update_of_ne heq] at hsession
        exact h.sessions_append _ hsession
  · cases hdone : round.performed with
    | none =>
      cases haccepted : round.accepted with
      | none => simpa [State.record,hdone,haccepted] using h.justified
      | some claims =>
        simpa [State.record,hdone,haccepted] using h.justified.snoc (r := .authenticated _ _) nofun
    | some action =>
      obtain ⟨session,hfound,hfresh,hadmin⟩ := hperformed action hdone
      obtain ⟨c,claims,hc,hauth,rfl⟩ := h.sessions task.addr session hfound
      have hsame : c = task.conn := h.conn_unique hc hmem
      simp only [State.record,hdone,honce action hdone,Option.map_none,Option.toList_none,
        List.nil_append,Option.map_some,Option.toList_some]
      refine h.justified.snoc fun conn' action' now' heq => ?_
      cases heq
      refine ⟨claims,hsame ▸ hauth,hfresh,fun name hname => ?_⟩
      simpa [hasRole,Session.ofClaims] using hadmin name hname

theorem Owned.step {decode : String → ℕ → Option Claims} {e : Event}
    (hstep : s.step decode e = some t) (hguarded : Guarded s e) (h : s.Owned) : t.Owned := by
  cases e with
  | accept addr greeted =>
    cases hstep
    cases greeted with
    | true => exact h.accept (hguarded rfl)
    | false =>
      exact {h with conns_lt := fun owner howner => Nat.lt_succ_of_lt (h.conns_lt owner howner)}
  | receive conn incoming now =>
    cases htask : s.findTask conn with
    | none => simp [State.step,htask] at hstep
    | some task =>
      simp only [State.step,htask,Option.ite_none_left_eq_some,Option.some.injEq] at hstep
      obtain ⟨-,rfl⟩ := hstep
      obtain ⟨rfl,hmem⟩ := mem_owners htask
      refine h.record hmem (fun action hdone => (handleIncoming_performed hdone).1) ?_
      intro action hdone
      obtain ⟨-,session,hfound,hcases⟩ := handleIncoming_performed hdone
      refine ⟨session,hfound,?_⟩
      rcases hcases with ⟨channel,rfl,hfresh⟩ | ⟨name,rfl,rfl,hrole⟩ | ⟨content,rfl,rfl⟩
      · exact ⟨hfresh,nofun⟩
      · exact ⟨hguarded task htask session hfound hrole,fun _ _ => hrole⟩
      · exact ⟨hguarded task htask session hfound,nofun⟩
  | finish conn =>
    cases htask : s.findTask conn with
    | none => simp [State.step,htask] at hstep
    | some task =>
      simp only [State.step,htask,Option.ite_none_right_eq_some,Option.some.injEq] at hstep
      obtain ⟨-,rfl⟩ := hstep
      exact h.finish htask

theorem owned_initial : initial.Owned where
  conns_nodup := List.nodup_nil
  conns_lt := nofun
  addrs_nodup := List.nodup_nil
  sessions := nofun
  justified := by
    intro before after conn action now heq
    simp [initial] at heq

end State

/-- As long as no connection comes from an address in use, and admin actions and messages find
only sessions that have not expired, every action is justified. -/
theorem authentication_justified (decode : String → ℕ → Option Claims) (events : List Event)
    {s : State} (hrun : State.run decode events = some s)
    (hguarded : Runs.Along (State.step decode) Guarded State.initial events) :
    Justified s.log :=
  (Runs.exec_invariant_of_along (I := State.Owned)
    (fun _ _ _ hstep hguard h => h.step hstep hguard) hrun hguarded State.owned_initial).justified

/-- A decoder that knows one token, valid until 100 with a minute of leeway. -/
def sampleDecode (token : String) (now : ℕ) : Option Claims :=
  if token = "t" ∧ now ≤ 160 then some ⟨"user123",["user"],100⟩ else none

theorem authentication_justified_message :
    ∃ s, State.run sampleDecode [.accept "a" true,.receive 0 (.text (some (.auth "t"))) 50,
        .receive 0 (.text (some (.message "hello"))) 90] = some s ∧
      s.log = [.authenticated 0 ⟨"user123",["user"],100⟩,.performed 0 (.message "hello") 90] ∧
      Justified s.log := by
  have hlog : (State.run sampleDecode [.accept "a" true,.receive 0 (.text (some (.auth "t"))) 50,
      .receive 0 (.text (some (.message "hello"))) 90]).map State.log =
        some [.authenticated 0 ⟨"user123",["user"],100⟩,.performed 0 (.message "hello") 90] := by
    decide +kernel
  obtain ⟨s,hs,heq⟩ := Option.map_eq_some_iff.mp hlog
  exact ⟨s,hs,heq,authentication_justified sampleDecode _ hs (by decide +kernel)⟩

/-- A message is taken from a session whose token expired long ago. -/
theorem message_after_expiry :
    ∃ s, State.run sampleDecode [.accept "a" true,.receive 0 (.text (some (.auth "t"))) 50,
        .receive 0 (.text (some (.message "hello"))) 200] = some s ∧ ¬ Justified s.log := by
  have hlog : (State.run sampleDecode [.accept "a" true,.receive 0 (.text (some (.auth "t"))) 50,
      .receive 0 (.text (some (.message "hello"))) 200]).map State.log =
        some [.authenticated 0 ⟨"user123",["user"],100⟩,.performed 0 (.message "hello") 200] := by
    decide +kernel
  obtain ⟨s,hs,heq⟩ := Option.map_eq_some_iff.mp hlog
  refine ⟨s,hs,fun hjustified => ?_⟩
  obtain ⟨claims,hmem,hexp,-⟩ :=
    hjustified [.authenticated 0 ⟨"user123",["user"],100⟩] [] 0 (.message "hello") 200 heq
  cases List.mem_singleton.mp hmem
  exact absurd hexp (by decide)

end Authentication
end UProtocols
