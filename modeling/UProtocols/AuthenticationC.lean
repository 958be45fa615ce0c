import Mathlib.Data.List.Infix
import Mathlib.Data.List.Nodup
import UProtocols.Runs

/-!
# The session table of the WebSocket authentication server

`get_session`, `remove_session` and `callback_websocket` of `websocket_authentication.c`. A
connection is known by the address of its `wsi`, which may be used again once it is closed. The
time, and the bytes that follow a token of 255 characters on the stack, are inputs. The
signature that `validate_jwt_token` computes decides nothing and is left out.
-/

namespace UProtocols
namespace AuthenticationC

abbrev Text := List Char

structure ClientSession where
  wsi : ℕ
  userId : Text
  token : Text
  tokenExpiry : ℕ
  authenticated : Bool
  roles : Text
  deriving DecidableEq, Inhabited

/-- `MAX_CLIENTS`. -/
def maxClients : ℕ := 100

/-- `TOKEN_EXPIRY`. -/
def tokenExpiryTime : ℕ := 3600

/-- The array of slots, of which the first `sessionCount` are in use. -/
structure Store where
  sessions : List ClientSession
  sessionCount : ℕ
  deriving DecidableEq

namespace Store

/-- Static storage is zero at the start. -/
def initial : Store := ⟨List.replicate maxClients ⟨0,[],[],0,false,[]⟩,0⟩

/-- The search loop: `n` more slots from index `i` on. -/
def search (sessions : List ClientSession) (wsi : ℕ) : ℕ → ℕ → Option ℕ
  | 0, _ => none
  | n + 1, i =>
    if (sessions.getD i default).wsi = wsi then some i else search sessions wsi n (i + 1)

/-- A slot that is taken again keeps the other fields of its last user. -/
def getSession (s : Store) (wsi : ℕ) : Store × Option ℕ :=
  match search s.sessions wsi s.sessionCount 0 with
  | some i => (s,some i)
  | none =>
    if s.sessionCount < maxClients then
      let slot := s.sessions.getD s.sessionCount default
      (⟨s.sessions.set s.sessionCount {slot with wsi, authenticated := false},s.sessionCount + 1⟩,
        some s.sessionCount)
    else (s,none)

/-- The inner loop of `remove_session`: `n` more slots from index `j` on. -/
def shift : ℕ → ℕ → List ClientSession → List ClientSession
  | 0, _, sessions => sessions
  | n + 1, j, sessions => shift n (j + 1) (sessions.set j (sessions.getD (j + 1) default))

def removeSession (s : Store) (wsi : ℕ) : Store :=
  match search s.sessions wsi s.sessionCount 0 with
  | some i => ⟨shift (s.sessionCount - 1 - i) i s.sessions,s.sessionCount - 1⟩
  | none => s

/-- The entries of the table. -/
def entries (s : Store) : List ClientSession := s.sessions.take s.sessionCount

end Store

/-! ## Tokens -/

/-- The next nonempty piece between dots, and the text after it. -/
def strtok (text : Text) : Option (Text × Text) :=
  match text.dropWhile (· == '.') with
  | [] => none
  | c::rest => some ((c::rest).takeWhile (· != '.'),((c::rest).dropWhile (· != '.')).drop 1)

/-- The user and the roles of a token with three parts. A copy of 255 characters has no end of
its own and goes on with what is on the stack. -/
def validateJwtToken (token stack : Text) : Option (Text × Text) := do
  let tokenCopy := if token.length < 255 then token else token.take 255 ++ stack
  let header ← strtok tokenCopy
  let payload ← strtok header.2
  let _ ← strtok payload.2
  return ("user123".toList,"admin,user".toList)

def hasRole (userRoles requiredRole : Text) : Bool := decide (requiredRole <:+: userRoles)

/-- `sscanf` with a literal text and `%<width>[^"]`: what follows has no part in the result. -/
def scanQuoted (literal : Text) (width : ℕ) (message : Text) : Option Text :=
  if literal.isPrefixOf message then
    match ((message.drop literal.length).take width).takeWhile (· != '"') with
    | [] => none
    | word => some word
  else none

def scanAuth (message : Text) : Option Text :=
  scanQuoted "\x7b\"type\":\"auth\",\"token\":\"".toList 255 message

def scanAction (message : Text) : Option Text :=
  scanQuoted "\x7b\"type\":\"".toList 63 message

/-! ## Callbacks -/

/-- The table, the text that is written, the return value, and whether `validate_jwt_token`
was called and returned 1. -/
structure Outcome where
  store : Store
  reply : Option String
  code : ℤ
  validated : Bool
  deriving DecidableEq

def established (s : Store) (wsi : ℕ) : Outcome :=
  let found := s.getSession wsi
  match found.2 with
  | none => ⟨found.1,none,-1,false⟩
  | some _ => ⟨found.1,some "\x7b\"type\":\"auth_required\"\x7d",0,false⟩

/-- The fields are written where `session` points. -/
def authenticate (s : Store) (i : ℕ) (user roles token : Text) (now : ℕ) : Store :=
  let session := {s.sessions.getD i default with
    authenticated := true
    userId := user.take 63
    token := token.take 255
    roles := roles.take 127
    tokenExpiry := now + tokenExpiryTime}
  {s with sessions := s.sessions.set i session}

def isAdminAction (message : Text) : Bool :=
  match scanAction message with
  | some action => decide (action = "admin_action".toList)
  | none => false

/-- An expired token ends the connection; an admin action asks for the role. -/
def act (s : Store) (session : ClientSession) (message : Text) (now : ℕ) : Outcome :=
  if session.tokenExpiry < now then ⟨s,some "\x7b\"type\":\"token_expired\"\x7d",-1,false⟩
  else if isAdminAction message && !hasRole session.roles "admin".toList then
    ⟨s,some "\x7b\"type\":\"unauthorized\"\x7d",0,false⟩
  else ⟨s,none,0,false⟩

def receive (s : Store) (wsi : ℕ) (message : Text) (now : ℕ) (stack : Text) : Outcome :=
  let found := s.getSession wsi
  match found.2 with
  | none => ⟨found.1,none,-1,false⟩
  | some i =>
    let session := found.1.sessions.getD i default
    if session.authenticated then act found.1 session message now
    else
      match scanAuth message with
      | none => ⟨found.1,none,0,false⟩
      | some token =>
        match validateJwtToken token stack with
        | none => ⟨found.1,some "\x7b\"type\":\"auth_failed\"\x7d",-1,false⟩
        | some (user,roles) =>
          ⟨authenticate found.1 i user roles token now,
            some "\x7b\"type\":\"auth_success\"\x7d",0,true⟩

/-! ## Histories -/

inductive Event
  | established (wsi : ℕ)
  | receive (wsi : ℕ) (message : Text) (now : ℕ) (stack : Text)
  | closed (wsi : ℕ)
  deriving DecidableEq

/-- What happened on the connections. -/
inductive Mark
  | established (wsi : ℕ)
  | validated (wsi : ℕ)
  | closed (wsi : ℕ)
  deriving DecidableEq

structure State where
  store : Store
  connected : List ℕ
  log : List Mark
  deriving DecidableEq

namespace State

def initial : State := ⟨Store.initial,[],[]⟩

/-- The callbacks of a connection come between its established and its closed event. -/
def step (s : State) : Event → Option State
  | .established wsi =>
    if wsi ∈ s.connected then none
    else some ⟨(AuthenticationC.established s.store wsi).store,wsi::s.connected,
      s.log ++ [.established wsi]⟩
  | .receive wsi message now stack =>
    if wsi ∈ s.connected then
      let outcome := AuthenticationC.receive s.store wsi message now stack
      some ⟨outcome.store,s.connected,
        s.log ++ if outcome.validated then [.validated wsi] else []⟩
    else none
  | .closed wsi =>
    if wsi ∈ s.connected then
      some ⟨s.store.removeSession wsi,s.connected.filter (· != wsi),s.log ++ [.closed wsi]⟩
    else none

def run (events : List Event) : Option State := Runs.exec step initial events

end State

/-- A token was validated on the connection since it was last established. -/
def ValidatedSince (log : List Mark) (wsi : ℕ) : Prop :=
  ∃ before after, log = before ++ .validated wsi::after ∧ .established wsi ∉ after

/-! ## The table -/

namespace Store

theorem search_eq (sessions : List ClientSession) (wsi n i : ℕ) (h : i + n ≤ sessions.length) :
    search sessions wsi n i =
      (((sessions.drop i).take n).findIdx? fun e => e.wsi == wsi).map (i + ·) := by
  induction n generalizing i with
  | zero => simp [search]
  | succ n ih =>
    have hi : i < sessions.length := by omega
    rw [search,ih (i + 1) (by omega),List.drop_eq_getElem_cons hi,List.take_succ_cons,
      List.findIdx?_cons,List.getD_eq_getElem?_getD,List.getElem?_eq_getElem hi,Option.getD_some]
    by_cases hwsi : sessions[i].wsi = wsi
    · simp [hwsi]
    · simp only [hwsi,beq_iff_eq,if_false,Option.map_map]
      congr 1
      funext k
      simp only [Function.comp_apply]
      omega

/-- The first `n` places after `j` move one place down. -/
theorem shift_eq (n j : ℕ) (sessions : List ClientSession) (h : j + n < sessions.length) :
    (shift n j sessions).length = sessions.length ∧
      (shift n j sessions).take (j + n) = sessions.take j ++ (sessions.drop (j + 1)).take n := by
  induction n generalizing j sessions with
  | zero => simp [shift]
  | succ n ih =>
    have hnext : j + 1 < sessions.length := by omega
    have hlength : j + 1 + n < (sessions.set j (sessions.getD (j + 1) default)).length := by
      rw [List.length_set]
      omega
    obtain ⟨hlen,htake⟩ := ih (j + 1) _ hlength
    refine ⟨by rw [shift,hlen,List.length_set],?_⟩
    rw [shift,show j + (n + 1) = j + 1 + n by omega,htake,List.take_add_one,
      List.take_set_of_le (Nat.le_refl j),List.drop_set_of_lt (by omega),
      List.getElem?_set_self (by omega),List.drop_eq_getElem_cons hnext,List.take_succ_cons,
      List.getD_eq_getElem?_getD,List.getElem?_eq_getElem hnext]
    simp

/-- The table has room for its entries, and no two of them for one connection. -/
structure Valid (s : Store) : Prop where
  length_sessions : s.sessions.length = maxClients
  count_le : s.sessionCount ≤ maxClients
  nodup : (s.entries.map ClientSession.wsi).Nodup

variable {s : Store} {wsi i : ℕ}

theorem valid_initial : initial.Valid where
  length_sessions := List.length_replicate
  count_le := Nat.zero_le _
  nodup := List.nodup_nil

namespace Valid

theorem count_le_length (h : s.Valid) : s.sessionCount ≤ s.sessions.length := by
  rw [h.length_sessions]
  exact h.count_le

theorem length_entries (h : s.Valid) : s.entries.length = s.sessionCount := by
  rw [entries,List.length_take,Nat.min_eq_left h.count_le_length]

theorem search_entries (h : s.Valid) (wsi : ℕ) :
    search s.sessions wsi s.sessionCount 0 = s.entries.findIdx? fun e => e.wsi == wsi := by
  rw [search_eq _ _ _ _ (by simpa using h.count_le_length)]
  simp [entries]

end Valid

/-- With distinct keys, erasing the first entry of a key leaves those of the other keys. -/
theorem eraseIdx_findIdx {l : List ClientSession} (hnodup : (l.map ClientSession.wsi).Nodup)
    (h : l.findIdx? (fun e => e.wsi == wsi) = some i) :
    l.eraseIdx i = l.filter fun e => e.wsi != wsi := by
  induction l generalizing i with
  | nil => cases h
  | cons e rest ih =>
    rw [List.map_cons,List.nodup_cons] at hnodup
    rw [List.findIdx?_cons] at h
    by_cases hwsi : e.wsi = wsi
    · simp only [hwsi,BEq.rfl,if_true,Option.some.injEq] at h
      subst h hwsi
      have hrest : (rest.filter fun x => x.wsi != e.wsi) = rest := by
        refine List.filter_eq_self.mpr fun x hx => ?_
        have hne : x.wsi ≠ e.wsi := fun heq => hnodup.1 (List.mem_map.mpr ⟨x,hx,heq⟩)
        simpa using hne
      rw [List.filter_cons_of_neg (by simp),hrest,List.eraseIdx_cons_zero]
    · simp only [beq_iff_eq,hwsi,if_false,Option.map_eq_some_iff] at h
      obtain ⟨k,hk,rfl⟩ := h
      rw [List.eraseIdx_cons_succ,ih hnodup.2 hk,List.filter_cons_of_pos (by simpa using hwsi)]

namespace Valid

/-- `remove_session` leaves every other entry as it is and in order. -/
theorem removeSession_entries (h : s.Valid) (wsi : ℕ) :
    (s.removeSession wsi).entries = s.entries.filter fun e => e.wsi != wsi := by
  have hlength := h.length_entries
  have hcount := h.count_le_length
  rw [removeSession,h.search_entries]
  cases hfound : s.entries.findIdx? fun e => e.wsi == wsi with
  | none =>
    rw [List.findIdx?_eq_none_iff] at hfound
    refine (List.filter_eq_self.mpr fun e he => ?_).symm
    simpa [bne] using hfound e he
  | some i =>
    have hi : i < s.entries.length := (List.findIdx?_eq_some_iff_getElem.mp hfound).1
    rw [← eraseIdx_findIdx h.nodup hfound,List.eraseIdx_eq_take_drop_succ]
    simp only [entries]
    obtain ⟨-,htake⟩ := shift_eq (s.sessionCount - 1 - i) i s.sessions (by omega)
    rw [show i + (s.sessionCount - 1 - i) = s.sessionCount - 1 by omega] at htake
    rw [htake,List.take_take,List.drop_take,Nat.min_eq_left (by omega)]
    congr 2
    omega

theorem removeSession (h : s.Valid) (wsi : ℕ) : (s.removeSession wsi).Valid := by
  have hentries := h.removeSession_entries wsi
  refine ⟨?_,?_,?_⟩
  · rw [Store.removeSession,h.search_entries]
    cases hfound : s.entries.findIdx? fun e => e.wsi == wsi with
    | none => exact h.length_sessions
    | some i =>
      have hi : i < s.entries.length := (List.findIdx?_eq_some_iff_getElem.mp hfound).1
      have hlength := h.length_entries
      have hcount := h.count_le_length
      rw [← h.length_sessions]
      exact (shift_eq (s.sessionCount - 1 - i) i s.sessions (by omega)).1
  · have hcount := h.count_le
    rw [Store.removeSession]
    cases search s.sessions wsi s.sessionCount 0 with
    | none => exact hcount
    | some i => exact Nat.le_trans (Nat.sub_le _ _) hcount
  · rw [hentries]
    exact ((List.filter_sublist).map ClientSession.wsi).nodup h.nodup

/-- A new entry at the end of the table. -/
theorem append (h : s.Valid) (hroom : s.sessionCount < maxClients) {e : ClientSession}
    (hfresh : e.wsi ∉ s.entries.map ClientSession.wsi) :
    Valid ⟨s.sessions.set s.sessionCount e,s.sessionCount + 1⟩ ∧
      entries ⟨s.sessions.set s.sessionCount e,s.sessionCount + 1⟩ = s.entries ++ [e] := by
  have hlt : s.sessionCount < s.sessions.length := h.length_sessions ▸ hroom
  have hentries : entries ⟨s.sessions.set s.sessionCount e,s.sessionCount + 1⟩ =
      s.entries ++ [e] := by
    simp only [entries]
    rw [List.take_add_one,List.take_set_of_le (Nat.le_refl _),List.getElem?_set_self hlt]
    rfl
  refine ⟨⟨?_,hroom,?_⟩,hentries⟩
  · rw [List.length_set]
    exact h.length_sessions
  · rw [hentries,List.map_append,List.map_singleton,← List.concat_eq_append,List.nodup_concat]
    exact ⟨hfresh,h.nodup⟩

/-- An entry changes its other fields. -/
theorem set (h : s.Valid) {old : ClientSession} (hi : s.entries[i]? = some old)
    (new : ClientSession) (hwsi : new.wsi = old.wsi) :
    Valid {s with sessions := s.sessions.set i new} ∧
      entries {s with sessions := s.sessions.set i new} = s.entries.set i new := by
  have hentries : entries {s with sessions := s.sessions.set i new} = s.entries.set i new := by
    rw [entries,List.take_set,entries]
  refine ⟨⟨?_,h.count_le,?_⟩,hentries⟩
  · rw [List.length_set]
    exact h.length_sessions
  · have hkey : (s.entries.map ClientSession.wsi)[i]? = some new.wsi := by
      rw [List.getElem?_map,hi,hwsi,Option.map_some]
    obtain ⟨hlt,hget⟩ := List.getElem?_eq_some_iff.mp hkey
    rw [hentries,List.map_set,← hget,List.set_getElem_self]
    exact h.nodup

/-- The slot that `get_session` returns belongs to the connection: it was there before, or it is
new and not authenticated. -/
theorem getSession_cases (h : s.Valid) (wsi : ℕ) :
    (∃ i e, s.getSession wsi = (s,some i) ∧ s.entries[i]? = some e ∧ e.wsi = wsi) ∨
    (∃ t e, s.getSession wsi = (t,some s.sessionCount) ∧ t.Valid ∧ t.entries = s.entries ++ [e] ∧
      e.wsi = wsi ∧ e.authenticated = false) ∨
    s.getSession wsi = (s,none) := by
  cases hfound : s.entries.findIdx? fun e => e.wsi == wsi with
  | some i =>
    obtain ⟨hi,hwsi,-⟩ := List.findIdx?_eq_some_iff_getElem.mp hfound
    refine .inl ⟨i,s.entries[i],?_,List.getElem?_eq_getElem hi,by simpa using hwsi⟩
    rw [getSession,h.search_entries,hfound]
  | none =>
    rw [List.findIdx?_eq_none_iff] at hfound
    have hfresh : wsi ∉ s.entries.map ClientSession.wsi := by
      intro hmem
      obtain ⟨e,he,heq⟩ := List.mem_map.mp hmem
      simpa [heq] using hfound e he
    rw [← List.findIdx?_eq_none_iff] at hfound
    by_cases hroom : s.sessionCount < maxClients
    · obtain ⟨hvalid,hentries⟩ := h.append hroom
        (e := {s.sessions.getD s.sessionCount default with wsi, authenticated := false}) hfresh
      refine .inr (.inl ⟨_,_,?_,hvalid,hentries,rfl,rfl⟩)
      simp only [getSession,h.search_entries,hfound,hroom,if_true]
    · refine .inr (.inr ?_)
      simp only [getSession,h.search_entries,hfound,hroom,if_false]

end Valid
end Store

/-! ## Histories -/

namespace ValidatedSince

variable {log : List Mark} {wsi : ℕ}

/-- Only a new connection at the same address ends it. -/
theorem append (h : ValidatedSince log wsi) {marks : List Mark}
    (hmarks : .established wsi ∉ marks) : ValidatedSince (log ++ marks) wsi := by
  obtain ⟨before,after,rfl,hafter⟩ := h
  refine ⟨before,after ++ marks,by simp,fun hmem => ?_⟩
  exact (List.mem_append.mp hmem).elim hafter hmarks

theorem now (log : List Mark) (wsi : ℕ) : ValidatedSince (log ++ [.validated wsi]) wsi :=
  ⟨log,[],rfl,List.not_mem_nil⟩

end ValidatedSince

/-- An entry is of an open connection, and authenticated only by a token of that connection. -/
def Vouched (connected : List ℕ) (log : List Mark) (e : ClientSession) : Prop :=
  e.wsi ∈ connected ∧ (e.authenticated → ValidatedSince log e.wsi)

namespace State

structure Trusted (s : State) : Prop where
  valid : s.store.Valid
  vouched : ∀ e ∈ s.store.entries, Vouched s.connected s.log e

variable {s t : State} {wsi : ℕ}

/-- `get_session` of an open connection finds or adds an entry of that connection. -/
theorem Trusted.getSession (h : s.Trusted) (hopen : wsi ∈ s.connected) :
    Trusted {s with store := (s.store.getSession wsi).1} ∧
      ∀ i, (s.store.getSession wsi).2 = some i →
        ∃ e, (s.store.getSession wsi).1.entries[i]? = some e ∧ e.wsi = wsi := by
  rcases h.valid.getSession_cases wsi with
    ⟨i,e,hget,hi,hwsi⟩ | ⟨t,e,hget,hvalid,hentries,rfl,hauth⟩ | hget
  · rw [hget]
    refine ⟨h,fun k hk => ?_⟩
    cases hk
    exact ⟨e,hi,hwsi⟩
  · rw [hget]
    refine ⟨⟨hvalid,fun x hx => ?_⟩,fun k hk => ?_⟩
    · rw [hentries] at hx
      rcases List.mem_append.mp hx with hold | hlast
      · exact h.vouched x hold
      · cases List.mem_singleton.mp hlast
        exact ⟨hopen,fun hauthenticated => by simp [hauth] at hauthenticated⟩
    · cases hk
      refine ⟨e,?_,rfl⟩
      rw [hentries,← h.valid.length_entries]
      exact List.getElem?_concat_length
  · rw [hget]
    exact ⟨h,nofun⟩

theorem Trusted.established (h : s.Trusted) (hnew : wsi ∉ s.connected) :
    Trusted ⟨(AuthenticationC.established s.store wsi).store,wsi::s.connected,
      s.log ++ [.established wsi]⟩ := by
  -- entries are of open connections, so none of them is for this address
  have hnext : Trusted ⟨s.store,wsi::s.connected,s.log ++ [.established wsi]⟩ := by
    refine ⟨h.valid,fun e he => ?_⟩
    obtain ⟨hopen,hauth⟩ := h.vouched e he
    refine ⟨List.mem_cons_of_mem _ hopen,fun hauthenticated => ?_⟩
    refine (hauth hauthenticated).append fun hmem => ?_
    cases List.mem_singleton.mp hmem
    exact hnew hopen
  have hstore : (AuthenticationC.established s.store wsi).store = (s.store.getSession wsi).1 := by
    simp only [AuthenticationC.established]
    split <;> rfl
  rw [hstore]
  exact (hnext.getSession List.mem_cons_self).1

/-- Writing the fields of a validated session. -/
theorem Trusted.authenticate (h : s.Trusted) {i : ℕ} {e : ClientSession}
    (hi : s.store.entries[i]? = some e) (user roles token : Text) (now : ℕ) :
    Trusted ⟨AuthenticationC.authenticate s.store i user roles token now,s.connected,
      s.log ++ [.validated e.wsi]⟩ := by
  have hslot : s.store.sessions.getD i default = e := by
    obtain ⟨hlt,hget⟩ := List.getElem?_eq_some_iff.mp hi
    rw [List.getD_eq_getElem?_getD,← List.getElem?_take_of_lt (h.valid.length_entries ▸ hlt)]
    exact congrArg (Option.getD · default) hi
  unfold AuthenticationC.authenticate
  rw [hslot]
  obtain ⟨hvalid,hentries⟩ := h.valid.set hi {e with
    authenticated := true, userId := user.take 63, token := token.take 255,
    roles := roles.take 127, tokenExpiry := now + tokenExpiryTime} rfl
  refine ⟨hvalid,fun x hx => ?_⟩
  rw [hentries] at hx
  rcases List.mem_or_eq_of_mem_set hx with hold | rfl
  · obtain ⟨hopen,hauth⟩ := h.vouched x hold
    exact ⟨hopen,fun hauthenticated => (hauth hauthenticated).append (by simp)⟩
  · exact ⟨(h.vouched e (List.mem_of_getElem? hi)).1,fun _ => ValidatedSince.now _ _⟩

/-- Past `get_session`, only a validated token changes the table. -/
theorem receive_cases (s : Store) (wsi : ℕ) (message : Text) (now : ℕ) (stack : Text) :
    ((receive s wsi message now stack).store = (s.getSession wsi).1 ∧
      (receive s wsi message now stack).validated = false) ∨
    ∃ i user roles token, (s.getSession wsi).2 = some i ∧
      (receive s wsi message now stack).store =
        AuthenticationC.authenticate (s.getSession wsi).1 i user roles token now ∧
      (receive s wsi message now stack).validated = true := by
  unfold receive
  dsimp only
  cases hfound : (s.getSession wsi).2 with
  | none => exact .inl ⟨rfl,rfl⟩
  | some i =>
    dsimp only
    split_ifs with hauth
    · refine .inl ?_
      unfold act
      split_ifs <;> exact ⟨rfl,rfl⟩
    · cases scanAuth message with
      | none => exact .inl ⟨rfl,rfl⟩
      | some token =>
        dsimp only
        cases validateJwtToken token stack with
        | none => exact .inl ⟨rfl,rfl⟩
        | some identity => exact .inr ⟨i,identity.1,identity.2,token,rfl,rfl,rfl⟩

theorem Trusted.receive (h : s.Trusted) (hopen : wsi ∈ s.connected) (message : Text) (now : ℕ)
    (stack : Text) :
    Trusted ⟨(receive s.store wsi message now stack).store,s.connected,
      s.log ++ if (receive s.store wsi message now stack).validated then [.validated wsi]
        else []⟩ := by
  obtain ⟨hget,hslot⟩ := h.getSession hopen
  rcases receive_cases s.store wsi message now stack with
    ⟨hstore,hnot⟩ | ⟨i,user,roles,token,hfound,hstore,hvalidated⟩
  · rw [hstore,hnot]
    simpa using hget
  · obtain ⟨e,hi,rfl⟩ := hslot i hfound
    rw [hstore,hvalidated,if_pos rfl]
    exact hget.authenticate hi user roles token now

theorem Trusted.closed (h : s.Trusted) (wsi : ℕ) :
    Trusted ⟨s.store.removeSession wsi,s.connected.filter (· != wsi),s.log ++ [.closed wsi]⟩ := by
  refine ⟨h.valid.removeSession wsi,fun e he => ?_⟩
  rw [h.valid.removeSession_entries] at he
  obtain ⟨hmem,hne⟩ := List.mem_filter.mp he
  obtain ⟨hopen,hauth⟩ := h.vouched e hmem
  refine ⟨List.mem_filter.mpr ⟨hopen,hne⟩,fun hauthenticated => ?_⟩
  exact (hauth hauthenticated).append (by simp)

theorem Trusted.step {e : Event} (hstep : s.step e = some t) (h : s.Trusted) : t.Trusted := by
  cases e with
  | established wsi =>
    simp only [State.step,Option.ite_none_left_eq_some,Option.some.injEq] at hstep
    obtain ⟨hnew,rfl⟩ := hstep
    exact h.established hnew
  | receive wsi message now stack =>
    simp only [State.step,Option.ite_none_right_eq_some,Option.some.injEq] at hstep
    obtain ⟨hopen,rfl⟩ := hstep
    exact h.receive hopen message now stack
  | closed wsi =>
    simp only [State.step,Option.ite_none_right_eq_some,Option.some.injEq] at hstep
    obtain ⟨-,rfl⟩ := hstep
    exact h.closed wsi

end State

/-- In every history: one entry at most for a connection, no more than 100 of them, the removal
of one leaves the others as they are and in order, and an entry is authenticated only if a token
was validated on its connection since that was established. -/
theorem sessionTable_trusted (events : List Event) {s : State} (hrun : State.run events = some s) :
    (s.store.entries.map ClientSession.wsi).Nodup ∧
      s.store.entries.length = s.store.sessionCount ∧ s.store.sessionCount ≤ 100 ∧
      (∀ wsi, (s.store.removeSession wsi).entries =
        s.store.entries.filter fun e => e.wsi != wsi) ∧
      ∀ e ∈ s.store.entries, e.authenticated → ValidatedSince s.log e.wsi := by
  have htrusted : s.Trusted :=
    Runs.exec_invariant (fun s e t hstep h => h.step hstep) hrun ⟨Store.valid_initial,nofun⟩
  have hvalid := htrusted.valid
  refine ⟨hvalid.nodup,hvalid.length_entries,hvalid.count_le,hvalid.removeSession_entries,?_⟩
  intro e he
  exact (htrusted.vouched e he).2

/-- Two connections, the first closed and its address used again. -/
def reuse : List Event :=
  [.established 7,.established 8,
    .receive 7 "\x7b\"type\":\"auth\",\"token\":\"a.b.c\"\x7d".toList 50 [],
    .receive 8 "\x7b\"type\":\"auth\",\"token\":\"a.b.c\"\x7d".toList 60 [],
    .closed 7,.established 7]

theorem sessionTable_trusted_reuse :
    ∃ s, State.run reuse = some s ∧
      s.store.entries.map (fun e => (e.wsi,e.authenticated)) = [(8,true),(7,false)] ∧
      ∀ e ∈ s.store.entries, e.authenticated → ValidatedSince s.log e.wsi := by
  have hentries : (State.run reuse).map
      (fun s => s.store.entries.map fun e => (e.wsi,e.authenticated)) =
        some [(8,true),(7,false)] := by decide +kernel
  obtain ⟨s,hs,hlist⟩ := Option.map_eq_some_iff.mp hentries
  exact ⟨s,hs,hlist,(sessionTable_trusted reuse hs).2.2.2.2⟩

end AuthenticationC
end UProtocols
