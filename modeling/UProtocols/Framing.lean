import Mathlib.Data.List.Infix

/-!
# Self-delimiting codes over a growing stream

A receiver holds the bytes it has been given and not yet used, and asks for the
first frame of them. `FrameCode` says what such a decoder, which may fail on other
streams, must do on a frame that is complete and on one that is cut off; `Synced`
is the position of the receiver in a stream of frames, and every way of cutting
the stream keeps it.
-/

namespace UProtocols
namespace Framing

variable {F V β ε : Type}

/-- An encoder of frames `F` and a decoder that splits the first frame off a stream. -/
structure FrameCode (F V β ε : Type) where
  encode : F → List β
  value : F → V
  next : List β → Except ε (Option (V × List β))
  next_nil : next [] = .ok none
  next_complete : ∀ f rest, next (encode f ++ rest) = .ok (some (value f,rest))
  next_partial : ∀ f p, p <+: encode f → p ≠ encode f → next p = .ok none

namespace FrameCode

variable (C : FrameCode F V β ε)

def encodeAll (frames : List F) : List β := frames.flatMap C.encode

@[simp] theorem encodeAll_nil : C.encodeAll [] = [] := rfl

@[simp] theorem encodeAll_cons (f : F) (frames : List F) :
    C.encodeAll (f::frames) = C.encode f ++ C.encodeAll frames := rfl

@[simp] theorem encodeAll_append (fs gs : List F) :
    C.encodeAll (fs ++ gs) = C.encodeAll fs ++ C.encodeAll gs := by
  simp [encodeAll]

/-- What the decoder can find at the front of a stream of frames that is cut anywhere. -/
theorem next_cases {p : List β} {frames : List F} (h : p <+: C.encodeAll frames) :
    (C.next p = .ok none ∧ (p = C.encodeAll frames → frames = [])) ∨
    ∃ f fs q, frames = f::fs ∧ p = C.encode f ++ q ∧ q <+: C.encodeAll fs ∧
      C.next p = .ok (some (C.value f,q)) := by
  cases frames with
  | nil =>
    left
    have hp : p = [] := List.prefix_nil.mp h
    exact ⟨hp ▸ C.next_nil,fun _ => rfl⟩
  | cons f fs =>
    -- Either the cut falls inside the first frame or behind it.
    rw [encodeAll_cons] at h
    by_cases hlen : (C.encode f).length ≤ p.length
    · right
      obtain ⟨q,rfl⟩ := List.prefix_of_prefix_length_le (List.prefix_append _ _) h hlen
      refine ⟨f,fs,q,rfl,rfl,?_,C.next_complete f q⟩
      exact (List.prefix_append_right_inj _).mp h
    · left
      have hle : p.length ≤ (C.encode f).length := by omega
      have hcut := List.prefix_of_prefix_length_le h (List.prefix_append _ _) hle
      refine ⟨C.next_partial f p hcut ?_,?_⟩
      · intro heq
        exact hlen (by rw [heq])
      · intro hall
        have hlong := congrArg List.length hall
        rw [encodeAll_cons,List.length_append] at hlong
        omega

/-- The receiver has the values of the first frames and holds the start of the rest. -/
def Synced (frames : List F) (fed pending : List β) (out : List V) : Prop :=
  ∃ fs gs, frames = fs ++ gs ∧ out = fs.map C.value ∧ fed = C.encodeAll fs ++ pending ∧
    pending <+: C.encodeAll gs

variable {C} {frames : List F} {fed pending : List β} {out : List V}

theorem synced_start (frames : List F) : C.Synced frames [] [] [] :=
  ⟨[],frames,rfl,rfl,rfl,List.nil_prefix⟩

/-- The values handed out are the first ones of the stream. -/
theorem Synced.out_isPrefix (h : C.Synced frames fed pending out) :
    out <+: frames.map C.value := by
  obtain ⟨fs,gs,rfl,rfl,-⟩ := h
  simp

theorem Synced.feed (h : C.Synced frames fed pending out) {chunk : List β}
    (hfits : fed ++ chunk <+: C.encodeAll frames) :
    C.Synced frames (fed ++ chunk) (pending ++ chunk) out := by
  obtain ⟨fs,gs,rfl,hout,rfl,-⟩ := h
  refine ⟨fs,gs,rfl,hout,List.append_assoc _ _ _,?_⟩
  rw [encodeAll_append,List.append_assoc] at hfits
  exact (List.prefix_append_right_inj _).mp hfits

/-- Splitting off a frame moves the receiver one frame ahead. -/
theorem Synced.extract (h : C.Synced frames fed pending out) {v : V} {q : List β}
    (hnext : C.next pending = .ok (some (v,q))) : C.Synced frames fed q (out ++ [v]) := by
  obtain ⟨fs,gs,rfl,rfl,rfl,hcut⟩ := h
  obtain ⟨hnone,-⟩ | ⟨f,gs',q',rfl,rfl,hq,hsome⟩ := C.next_cases hcut
  · rw [hnone] at hnext
    cases hnext
  · rw [hsome] at hnext
    cases hnext
    exact ⟨fs ++ [f],gs',by simp,by simp,by simp,hq⟩

/-- Once the whole stream is fed, the decoder finds nothing only behind the last frame. -/
theorem Synced.complete (h : C.Synced frames (C.encodeAll frames) pending out)
    (hnext : C.next pending = .ok none) : out = frames.map C.value := by
  obtain ⟨fs,gs,rfl,rfl,hfed,hcut⟩ := h
  obtain ⟨-,hlast⟩ | ⟨f,gs',q,-,-,-,hsome⟩ := C.next_cases hcut
  · have hgs : gs = [] := by
      apply hlast
      rw [encodeAll_append] at hfed
      exact (List.append_cancel_left hfed).symm
    simp [hgs]
  · rw [hnext] at hsome
    cases hsome

/-- There are no more values than frames. -/
theorem Synced.length_le (h : C.Synced frames fed pending out) :
    out.length ≤ frames.length := by
  simpa using h.out_isPrefix.length_le

end FrameCode
end Framing
end UProtocols
