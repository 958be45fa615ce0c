import UProtocols.ConnectionMigrationCpp
import UProtocols.LatestValue

/-!
# The resume point of the migrating clients

Both clients store the number of every `Ack` as it comes. The Rust client sends it when it
resumes a session.
-/

namespace UProtocols

open LatestValue

namespace ConnectionMigration

/-- The stored number never falls, and a session is resumed from the largest `Ack`. -/
def NeverMovesBack (events : List Event) : Prop :=
  (∀ es fs u v, es <+: fs → fs <+: events → History.run es = some u → History.run fs = some v →
    u.client.lastAckedSequence ≤ v.client.lastAckedSequence) ∧
  ∀ es u token lastSeq, es <+: events → History.run es = some u →
    u.client.controlMessage = .resumeSession token lastSeq →
      lastSeq = largest (es.filterMap Event.ack)

theorem lastAckedSequence_tracks :
    Tracks History.step Event.ack (fun h => h.client.lastAckedSequence) History.start where
  start := rfl
  step := by
    intro h e h' hstep
    cases hstep
    cases e with
    | sendMessage payload time => cases time <;> rfl
    | opened controlOk flushOk =>
      simp only [Event.client,WebSocketMigration.openSession]
      split_ifs <;> rfl
    | text control pongOk =>
      cases control with
      | none => rfl
      | some control => cases control <;> rfl
    | lost => rfl

theorem run_isSome (events : List Event) : ∃ h, History.run events = some h := by
  have htotal : ∀ h : History, ∃ h', Runs.exec History.step h events = some h' := by
    induction events with
    | nil => exact fun h => ⟨h,rfl⟩
    | cons e events ih =>
      intro h
      obtain ⟨h',hrun⟩ := ih ⟨e.client h.client,h.sent ++ (e.queues h.client).toList,
        h.acks ++ e.ack.toList⟩
      exact ⟨h',Runs.exec_cons.mpr ⟨_,rfl,hrun⟩⟩
  exact htotal History.start

theorem neverMovesBack_iff (events : List Event) :
    NeverMovesBack events ↔ (events.filterMap Event.ack).Pairwise (· ≤ ·) := by
  obtain ⟨h,hrun⟩ := run_isSome events
  have hmono := lastAckedSequence_tracks.monotone_iff hrun
  refine ⟨fun hback => hmono.mp hback.1,fun hsorted => ⟨hmono.mpr hsorted,?_⟩⟩
  intro es u token lastSeq hes hu hcontrol
  have hlast : lastSeq = u.client.lastAckedSequence := by
    unfold WebSocketMigration.controlMessage at hcontrol
    split at hcontrol
    · cases hcontrol
    · cases hcontrol
      rfl
  have hlatest := lastAckedSequence_tracks.eq_latest hu
  rw [hlast,hlatest]
  exact latest_eq_largest (hsorted.sublist (hes.filterMap _).sublist)

end ConnectionMigration

namespace ConnectionMigrationCpp

/-- The number that a message acknowledges. -/
def Event.ack : Event → Option ℕ
  | onMessageReceived message =>
    if message.takeWhile (· ≠ ':') = "ACK".toList ∧ message.dropWhile (· ≠ ':') ≠ [] then
      stoull (message.dropWhile (· ≠ ':')).tail
    else none
  | _ => none

variable (lwsPre : ℕ) (behind : ℕ → ℕ → Char)

/-- The stored number never falls. -/
def NeverMovesBack (events : List Event) : Prop :=
  ∀ es fs u v, es <+: fs → fs <+: events →
    Wire.run lwsPre behind es = some u → Wire.run lwsPre behind fs = some v →
      u.client.lastAckedSequence ≤ v.client.lastAckedSequence

variable {lwsPre behind}

theorem onMessageReceived_lastAcked {c c' : WebSocketMigration} {message : List Char}
    (h : c.onMessageReceived message = some c') :
    c'.lastAckedSequence = (Event.onMessageReceived message).ack.getD c.lastAckedSequence := by
  unfold WebSocketMigration.onMessageReceived at h
  split at h
  · rename_i hdrop
    cases h
    rw [Event.ack,if_neg fun hack => hack.2 hdrop]
    rfl
  · rename_i colon msgData hdrop
    simp only at h
    split_ifs at h with htoken hack
    · cases h
      have hnot : message.takeWhile (· ≠ ':') ≠ "ACK".toList := by
        rw [htoken]
        decide
      rw [Event.ack,if_neg fun hack => hnot hack.1]
      rfl
    · obtain ⟨ackSeq,hack',rfl⟩ := Option.map_eq_some_iff.mp h
      have hsome : message.dropWhile (· ≠ ':') ≠ [] := by
        rw [hdrop]
        exact List.cons_ne_nil _ _
      rw [Event.ack,if_pos ⟨hack,hsome⟩,hdrop,List.tail_cons,hack']
      rfl
    · cases h
      rw [Event.ack,if_neg fun hack' => hack hack'.1]
      rfl

theorem lastAckedSequence_tracks :
    Tracks (Wire.step lwsPre behind) Event.ack (fun w => w.client.lastAckedSequence) Wire.start where
  start := rfl
  step := by
    intro w e w' hstep
    cases e with
    | sendMessage message writeOk =>
      cases hstep
      simp only [WebSocketMigration.sendMessage]
      split_ifs <;> rfl
    | onConnected writeOk =>
      cases hstep
      simp only [WebSocketMigration.onConnected]
      split_ifs <;> rfl
    | onDisconnected =>
      cases hstep
      rfl
    | onMessageReceived message =>
      obtain ⟨client,hclient,rfl⟩ := Option.map_eq_some_iff.mp hstep
      exact onMessageReceived_lastAcked hclient

theorem neverMovesBack_iff {events : List Event} {w : Wire}
    (hrun : Wire.run lwsPre behind events = some w) :
    NeverMovesBack lwsPre behind events ↔ (events.filterMap Event.ack).Pairwise (· ≤ ·) :=
  lastAckedSequence_tracks.monotone_iff hrun

end ConnectionMigrationCpp

/-- The resume point of either client never moves back exactly when the `Ack` messages come in
order. -/
theorem resumePoint_iff (events : List ConnectionMigration.Event) (lwsPre : ℕ)
    (behind : ℕ → ℕ → Char) {events' : List ConnectionMigrationCpp.Event}
    {w : ConnectionMigrationCpp.Wire}
    (hrun : ConnectionMigrationCpp.Wire.run lwsPre behind events' = some w) :
    (ConnectionMigration.NeverMovesBack events ↔
      (events.filterMap ConnectionMigration.Event.ack).Pairwise (· ≤ ·)) ∧
    (ConnectionMigrationCpp.NeverMovesBack lwsPre behind events' ↔
      (events'.filterMap ConnectionMigrationCpp.Event.ack).Pairwise (· ≤ ·)) :=
  ⟨ConnectionMigration.neverMovesBack_iff events,ConnectionMigrationCpp.neverMovesBack_iff hrun⟩

theorem resumePoint_iff_inOrder :
    ConnectionMigration.NeverMovesBack
      [.text (some (.ack 3)) true,.text (some (.ack 3)) true,.text (some (.ack 5)) true] ∧
    ConnectionMigrationCpp.NeverMovesBack 16 (fun _ _ => 'x')
      [.onMessageReceived "ACK:3".toList,.onMessageReceived "ACK:5".toList] := by
  have hsome : (ConnectionMigrationCpp.Wire.run 16 (fun _ _ => 'x')
      [.onMessageReceived "ACK:3".toList,.onMessageReceived "ACK:5".toList]).isSome = true := by decide +kernel
  obtain ⟨w,hw⟩ := Option.isSome_iff_exists.mp hsome
  have hboth := resumePoint_iff
    [.text (some (.ack 3)) true,.text (some (.ack 3)) true,.text (some (.ack 5)) true] _ _ hw
  exact ⟨hboth.1.mpr (by decide +kernel),hboth.2.mpr (by decide +kernel)⟩

/-- A late `Ack` moves both clients back. -/
theorem resumePoint_iff_late :
    (¬ ∀ events, ConnectionMigration.NeverMovesBack events) ∧
    ¬ ∀ lwsPre behind events w, ConnectionMigrationCpp.Wire.run lwsPre behind events = some w →
      ConnectionMigrationCpp.NeverMovesBack lwsPre behind events := by
  constructor
  · intro h
    have hsorted := (ConnectionMigration.neverMovesBack_iff _).mp
      (h [.text (some (.ack 5)) true,.text (some (.ack 3)) true])
    revert hsorted
    decide +kernel
  · intro h
    have hsome : (ConnectionMigrationCpp.Wire.run 16 (fun _ _ => 'x')
        [.onMessageReceived "ACK:5".toList,.onMessageReceived "ACK:3".toList]).isSome = true := by decide +kernel
    obtain ⟨w,hw⟩ := Option.isSome_iff_exists.mp hsome
    have hsorted := (ConnectionMigrationCpp.neverMovesBack_iff hw).mp (h _ _ _ w hw)
    revert hsorted
    decide +kernel

end UProtocols
