import Mathlib.Data.List.ReduceOption
import UProtocols.Runs
import UProtocols.WebSocketFrame

/-!
# Reassembly of frames from any chunking

A session feeds chunks to the frame buffer and asks for frames in between; a call
that panics has no successor. The parser is a decoder in the sense of `FrameCode`,
so the session stays in step with the stream of frames whatever the chunks are.
-/

namespace UProtocols
namespace WebSocket

open Framing Runs

inductive Call
  | addReceivedData (data : List UInt8)
  | tryExtractFrame
  deriving DecidableEq

/-- A frame buffer with the bytes it was given and the results it returned. -/
structure Session where
  buffer : WebSocketFrameBuffer
  fed : List UInt8
  results : List (Option (List UInt8))
  deriving DecidableEq

namespace Session

def start : Session := ⟨WebSocketFrameBuffer.new,[],[]⟩

/-- The payloads returned, in order. -/
def payloads (s : Session) : List (List UInt8) := s.results.reduceOption

def step (s : Session) : Call → Option Session
  | .addReceivedData data =>
    some {s with buffer := s.buffer.addReceivedData data, fed := s.fed ++ data}
  | .tryExtractFrame =>
    match s.buffer.tryExtractFrame with
    | .error _ => none
    | .ok (r,b) => some {s with buffer := b, results := s.results ++ [r]}

def run (s : Session) (calls : List Call) : Option Session := exec step s calls

end Session

/-- The bytes that a list of calls feeds. -/
def chunk : Call → List UInt8
  | .addReceivedData data => data
  | .tryExtractFrame => []

def fedBytes (calls : List Call) : List UInt8 := calls.flatMap chunk

/-- The session is at a position of the stream of frames. -/
def Session.InStep (frames : List Frame) (s : Session) : Prop :=
  frameCode.Synced frames s.fed s.buffer.recvBuffer.data s.payloads

namespace Session

theorem inStep_start (frames : List Frame) : start.InStep frames :=
  FrameCode.synced_start frames

/-- The outcomes of an extraction while the session is in step: it does not panic. -/
theorem step_extract_cases {frames : List Frame} {s : Session} (h : s.InStep frames) :
    (step s .tryExtractFrame = some {s with results := s.results ++ [none]} ∧
      (s.fed = frameCode.encodeAll frames → s.payloads = frames.map Frame.payload)) ∨
    ∃ t v, step s .tryExtractFrame = some t ∧ t.results = s.results ++ [some v] ∧
      t.fed = s.fed ∧ t.InStep frames := by
  obtain ⟨fs,gs,hframes,hout,hfed,hcut⟩ := id h
  obtain ⟨hnone,-⟩ | ⟨f,gs',q,-,-,-,hsome⟩ := frameCode.next_cases hcut
  · left
    refine ⟨by simp [step,tryExtractFrame_none hnone],fun hall => ?_⟩
    have hsync : frameCode.Synced frames (frameCode.encodeAll frames)
        s.buffer.recvBuffer.data s.payloads := hall ▸ h
    exact hsync.complete hnone
  · right
    obtain ⟨b,hb,hdata⟩ := tryExtractFrame_some hsome
    refine ⟨{s with buffer := b, results := s.results ++ [some f.payload]},f.payload,?_,rfl,rfl,?_⟩
    · simp only [step,hb]
      rfl
    · have hnext := FrameCode.Synced.extract h hsome
      rw [← hdata] at hnext
      show frameCode.Synced frames s.fed b.recvBuffer.data
        (s.results ++ [some f.payload]).reduceOption
      rw [List.reduceOption_append]
      exact hnext

/-- A call that stays within the stream succeeds and keeps the session in step. -/
theorem InStep.call {frames : List Frame} {s : Session} (h : s.InStep frames) {c : Call}
    (hfits : s.fed ++ chunk c <+: frameCode.encodeAll frames) :
    ∃ t, step s c = some t ∧ t.fed = s.fed ++ chunk c ∧ t.InStep frames := by
  cases c with
  | addReceivedData data =>
    refine ⟨_,rfl,rfl,?_⟩
    have hnext := FrameCode.Synced.feed h hfits
    simpa [InStep,payloads,WebSocketFrameBuffer.addReceivedData,chunk] using hnext
  | tryExtractFrame =>
    obtain ⟨hstep,-⟩ | ⟨t,v,hstep,-,hfed,ht⟩ := step_extract_cases h
    · refine ⟨_,hstep,by simp [chunk],?_⟩
      simpa [InStep,payloads,List.reduceOption_append] using h
    · exact ⟨t,hstep,by simp [chunk,hfed],ht⟩

theorem InStep.run {frames : List Frame} {s : Session} (h : s.InStep frames) {calls : List Call}
    (hfits : s.fed ++ fedBytes calls <+: frameCode.encodeAll frames) :
    ∃ t, s.run calls = some t ∧ t.fed = s.fed ++ fedBytes calls ∧ t.InStep frames := by
  induction calls generalizing s with
  | nil => exact ⟨s,rfl,by simp [fedBytes],h⟩
  | cons c calls ih =>
    have hsplit : fedBytes (c::calls) = chunk c ++ fedBytes calls := rfl
    rw [hsplit,← List.append_assoc] at hfits
    obtain ⟨u,hu,hfed,hin⟩ := h.call ((List.prefix_append _ _).trans hfits)
    rw [← hfed] at hfits
    obtain ⟨t,ht,hfed',hin'⟩ := ih hin hfits
    refine ⟨t,exec_cons.mpr ⟨u,hu,ht⟩,?_,hin'⟩
    rw [hfed',hfed,hsplit,List.append_assoc]

theorem payloads_length_of_some {s t : Session} {v : List UInt8}
    (h : t.results = s.results ++ [some v]) : t.payloads.length = s.payloads.length + 1 := by
  simp [payloads,h,List.reduceOption_append]

/-- Each extraction that returns a payload uses up a frame, so one of them returns none. -/
theorem InStep.drains {frames : List Frame} (n : ℕ) {s : Session} (h : s.InStep frames)
    (hn : frames.length ≤ s.payloads.length + n) :
    ∃ k t, k ≤ n ∧ s.run (List.replicate (k + 1) .tryExtractFrame) = some t ∧
      t.results.getLast? = some none := by
  induction n generalizing s with
  | zero =>
    obtain ⟨hstep,-⟩ | ⟨t,v,hstep,hres,-,ht⟩ := step_extract_cases h
    · exact ⟨0,_,Nat.le_refl 0,exec_cons.mpr ⟨_,hstep,rfl⟩,by simp⟩
    · have hle := FrameCode.Synced.length_le ht
      rw [payloads_length_of_some hres] at hle
      omega
  | succ n ih =>
    obtain ⟨hstep,-⟩ | ⟨t,v,hstep,hres,-,ht⟩ := step_extract_cases h
    · exact ⟨0,_,Nat.zero_le _,exec_cons.mpr ⟨_,hstep,rfl⟩,by simp⟩
    · have hmore : frames.length ≤ t.payloads.length + n := by
        rw [payloads_length_of_some hres]
        omega
      obtain ⟨k,u,hk,hrun,hlast⟩ := ih ht hmore
      exact ⟨k + 1,u,by omega,exec_cons.mpr ⟨t,hstep,hrun⟩,hlast⟩

/-- Once every byte is fed, an extraction returns none only behind the last frame. -/
theorem InStep.complete_of_none {frames : List Frame} {s t : Session} (h : s.InStep frames)
    (hall : s.fed = frameCode.encodeAll frames) (hstep : step s .tryExtractFrame = some t)
    (hnone : t.results.getLast? = some none) : t.payloads = frames.map Frame.payload := by
  obtain ⟨hcall,hdone⟩ | ⟨u,v,hcall,hres,-⟩ := step_extract_cases h
  · cases hcall.symm.trans hstep
    simpa [payloads,List.reduceOption_append] using hdone hall
  · cases hcall.symm.trans hstep
    simp [hres] at hnone

/-- A call that returns no frame leaves the buffer as it is. -/
def NoneKeeps (s : Session) (c : Call) : Prop :=
  c = .tryExtractFrame → ∀ t, step s c = some t → t.results = s.results ++ [none] →
    t.buffer = s.buffer

theorem noneKeeps (s : Session) (c : Call) : NoneKeeps s c := by
  rintro rfl t ht hres
  simp only [step] at ht
  cases hcall : s.buffer.tryExtractFrame with
  | error p => simp [hcall] at ht
  | ok result =>
    obtain ⟨r,b⟩ := result
    simp only [hcall,Option.some.injEq] at ht
    subst ht
    have hr : r = none := by simpa using hres
    subst hr
    exact tryExtractFrame_keeps hcall

/-- Reassembly does not depend on the chunks: the payloads returned are the first
ones of the stream, all of them once every byte is fed and an extraction has
returned none, which it does after at most one extraction per frame; and an
extraction that returns none leaves the buffer as it is. -/
theorem reassembly (frames : List Frame) (calls : List Call)
    (hfits : fedBytes calls <+: frameCode.encodeAll frames) :
    ∃ s, start.run calls = some s ∧
      s.payloads <+: frames.map Frame.payload ∧
      Along step NoneKeeps start calls ∧
      (fedBytes calls = frameCode.encodeAll frames →
        (calls.getLast? = some .tryExtractFrame → s.results.getLast? = some none →
          s.payloads = frames.map Frame.payload) ∧
        ∃ k t, k ≤ frames.length ∧
          start.run (calls ++ List.replicate (k + 1) .tryExtractFrame) = some t ∧
          t.results.getLast? = some none) := by
  obtain ⟨s,hs,hfed,hin⟩ := (inStep_start frames).run hfits
  refine ⟨s,hs,hin.out_isPrefix,along_of_forall noneKeeps start calls,fun hall => ⟨?_,?_⟩⟩
  · intro hlast hnone
    obtain ⟨cs,rfl⟩ := List.getLast?_eq_some_iff.mp hlast
    have hcs : fedBytes cs = frameCode.encodeAll frames := by
      rw [← hall]
      simp [fedBytes,chunk]
    have hwhole : start.fed ++ fedBytes cs <+: frameCode.encodeAll frames := by
      rw [hcs]
      exact List.prefix_refl _
    obtain ⟨u,hu,hfedu,hinu⟩ := (inStep_start frames).run hwhole
    obtain ⟨u',hu',hlast⟩ := exec_append.mp hs
    cases hu.symm.trans hu'
    obtain ⟨t,hstep,ht⟩ := exec_cons.mp hlast
    cases ht
    exact hinu.complete_of_none (hfedu.trans hcs) hstep hnone
  · obtain ⟨k,t,hk,ht,hlast⟩ := hin.drains frames.length (Nat.le_add_left _ _)
    exact ⟨k,t,hk,exec_append.mpr ⟨s,hs,ht⟩,hlast⟩

/-- A text frame and a masked frame whose length is written in sixteen bits. -/
def twoFrames : List Frame :=
  [⟨0x81,.bits7,none,[0x48,0x69],by decide,by decide⟩,
   ⟨0x02,.bits16,some ⟨[1,2,3,4],rfl⟩,[10,20,30,40,50],by decide,by decide⟩]

/-- The first chunk ends inside the second header, the next one inside the masking key. -/
def cutCalls : List Call :=
  [.tryExtractFrame,.addReceivedData [0x81,0x02,0x48,0x69,0x02],.tryExtractFrame,
   .tryExtractFrame,.addReceivedData [0xFE,0,5,1,2],.tryExtractFrame,
   .addReceivedData [3,4,11,22,29,44,51],.tryExtractFrame,.tryExtractFrame]

theorem reassembly_twoFrames : ∃ s, start.run cutCalls = some s ∧
    s.payloads = [[0x48,0x69],[10,20,30,40,50]] := by
  obtain ⟨s,hs,-,-,hall⟩ := reassembly twoFrames cutCalls (by decide)
  have hlast : (start.run cutCalls).map (fun t => t.results.getLast?) = some (some none) := by
    decide +kernel
  rw [hs,Option.map_some] at hlast
  exact ⟨s,hs,(hall (by decide)).1 rfl (Option.some.inj hlast)⟩

end Session
end WebSocket
end UProtocols
