import UProtocols.ConnectionMigration
import UProtocols.Heartbeats

/-!
# When the migrating client gives up a connection

`health_check_loop` of `websocket_connection_migration.rs` beside the pongs of `handle_message`,
over one connection while it stays open. Times are milliseconds, and the ticks are on time.
-/

namespace UProtocols

open Heartbeats

namespace ConnectionMigration

/-- The fields that the health checker shares with `handle_message`. -/
structure Health where
  state : ConnectionState
  lastPong : ℕ
  missedPongs : ℕ
  deriving DecidableEq

namespace Health

/-- The branch of `handle_message` that changes these fields. -/
def handleMessage (h : Health) (control : Option ControlMessage) (now : ℕ) : Health :=
  match control with
  | some .pong => {h with lastPong := now, missedPongs := 0}
  | _ => h

/-- `health_check_loop` after a tick, with `time_since_pong`. -/
def tick (h : Health) (now : ℕ) : Health × ℕ :=
  let timeSincePong := now - h.lastPong
  if timeSincePong > 30000 then
    let missed := h.missedPongs + 1
    if missed ≥ 3 then ({h with missedPongs := missed, state := .reconnecting},timeSincePong)
    else ({h with missedPongs := missed},timeSincePong)
  else (h,timeSincePong)

theorem tick_eq (h : Health) (now : ℕ) : h.tick now =
    (⟨if 30000 < now - h.lastPong ∧ 3 ≤ h.missedPongs + 1 then .reconnecting else h.state,
      h.lastPong,if 30000 < now - h.lastPong then h.missedPongs + 1 else h.missedPongs⟩,
      now - h.lastPong) := by
  by_cases hstale : 30000 < now - h.lastPong
  · by_cases hcount : 3 ≤ h.missedPongs + 1
    · simp only [tick,gt_iff_lt,ge_iff_le,hstale,hcount,and_self,if_true]
    · simp only [tick,gt_iff_lt,ge_iff_le,hstale,hcount,and_false,if_true,if_false]
  · simp only [tick,gt_iff_lt,hstale,false_and,if_false]

end Health

/-- A connection from the moment it is made, with what the ticks have found. -/
structure Watched where
  health : Health
  ticks : ℕ
  clock : ℕ
  silences : List ℕ
  deriving DecidableEq

inductive WatchEvent
  | text (control : Option ControlMessage) (now : ℕ)
  | tick

namespace Watched

/-- `connect` has made the connection at `now`; `handle_connection` starts the checker later, and
the interval ticks at once. -/
def connected (now start : ℕ) : Watched := ⟨⟨.connected,now,0⟩,0,start,[]⟩

def schedule (start : ℕ) : Schedule := ⟨start,10000,30000,3⟩

theorem bound_schedule (start : ℕ) : (schedule start).bound = 50000 := by
  have hlimit : (schedule start).limit = 30000 := rfl
  have hperiod : (schedule start).period = 10000 := rfl
  have hcount : (schedule start).count = 3 := rfl
  rw [Schedule.bound,hlimit,hperiod,hcount]

/-- The next tick of the interval. -/
def due (start : ℕ) (w : Watched) : ℕ := start + 10000 * w.ticks

/-- Texts come in between the ticks; the loop ends once it has given up the connection. -/
def step (start : ℕ) (w : Watched) : WatchEvent → Option Watched
  | .text control now =>
    if w.clock ≤ now ∧ (w.health.state = .reconnecting ∨ now ≤ w.due start) then
      some {w with clock := now, health := w.health.handleMessage control now}
    else none
  | .tick =>
    if w.health.state = .reconnecting then none
    else
      let checked := w.health.tick (w.due start)
      some ⟨checked.1,w.ticks + 1,w.due start,w.silences ++ [checked.2]⟩

/-- The client as a detector of silence. -/
def detector (w : Watched) : Detector where
  checks := w.ticks
  clock := w.clock
  lastBeat := w.health.lastPong
  missed := w.health.missedPongs
  suspected := decide (w.health.state = .reconnecting)
  silences := w.silences

variable {start : ℕ} {w w' : Watched} {e : WatchEvent} {events : List WatchEvent}

theorem step_refines (h : w.step start e = some w') :
    ∃ e', w.detector.step (schedule start) e' = some w'.detector := by
  cases e with
  | text control now =>
    simp only [step] at h
    split at h
    · rename_i hnow
      cases h
      have hguard : w.detector.clock ≤ now ∧
          (w.detector.suspected = true ∨ now ≤ w.detector.due (schedule start)) := by
        simpa [detector,Detector.due,schedule,due] using hnow
      by_cases hpong : control = some .pong
      · subst hpong
        exact ⟨.beat now,by rw [Detector.step,if_pos hguard]; rfl⟩
      · have hsame : w.health.handleMessage control now = w.health := by
          unfold Health.handleMessage
          split
          · exact absurd rfl hpong
          · rfl
        exact ⟨.other now,by rw [Detector.step,if_pos hguard,hsame]; rfl⟩
    · cases h
  | tick =>
    simp only [step] at h
    split at h
    · cases h
    · rename_i halive
      cases h
      refine ⟨.check,?_⟩
      have hsuspected : decide ((if 30000 < w.due start - w.health.lastPong ∧
          3 ≤ w.health.missedPongs + 1 then ConnectionState.reconnecting
          else w.health.state) = .reconnecting) =
          (decide (30000 < w.due start - w.health.lastPong) &&
            decide (3 ≤ if 30000 < w.due start - w.health.lastPong then w.health.missedPongs + 1
              else w.health.missedPongs)) := by
        by_cases hstale : 30000 < w.due start - w.health.lastPong <;>
          by_cases hcount : 3 ≤ w.health.missedPongs + 1 <;>
          simp only [hstale,hcount,halive,and_self,and_false,false_and,if_true,if_false,
            decide_true,decide_false,Bool.and_self,Bool.and_false,Bool.false_and]
      rw [Detector.step,if_neg (by simpa [detector] using halive),Health.tick_eq]
      simp only [detector,hsuspected]
      rfl

def Sound (start : ℕ) (w : Watched) : Prop := Detector.Sound (schedule start) w.detector

theorem Sound.step (h : w.Sound start) (hstep : w.step start e = some w') : w'.Sound start := by
  obtain ⟨e',he'⟩ := step_refines hstep
  exact Detector.Sound.step h (Nat.succ_pos 2) he'

theorem sound_run {now : ℕ} (hnow : now ≤ start) (hstart : start ≤ now + 40000)
    (h : Runs.exec (step start) (connected now start) events = some w) : w.Sound start := by
  have hlimit : (schedule start).limit = 30000 := rfl
  have hperiod : (schedule start).period = 10000 := rfl
  have hfirst : start ≤ now + (schedule start).limit + (schedule start).period := by
    omega
  exact Runs.exec_invariant (fun _ _ _ hstep hs => hs.step hstep) h
    (Detector.sound_new (Nat.succ_pos 2) hnow hfirst)

/-- The only pong comes after seven seconds. -/
def onePong : List WatchEvent :=
  [.tick,.text (some .pong) 7000,.text none 9000,.tick,.tick,.tick,.tick,.tick,.tick]

end Watched
end ConnectionMigration
end UProtocols
