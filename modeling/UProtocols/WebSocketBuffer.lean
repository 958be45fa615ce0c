import Mathlib.Algebra.Ring.Nat
import Mathlib.Data.List.Basic

/-!
# The byte buffer under the WebSocket frame parser

`DynamicBuffer` of `websocket_buffer_management.rs`. Vector capacities and the
growth factor decide only when memory is reallocated and are left out; every
panic of the frame parser is an explicit outcome.
-/

namespace UProtocols
namespace WebSocket

/-- The ways in which the parser can abort. -/
inductive Panic
  | overflow | indexOutOfBounds
  deriving DecidableEq

/-- Addition in a 64-bit `usize`. -/
def usizeAdd (a b : ℕ) : Except Panic ℕ :=
  if a + b < 2^64 then .ok (a + b) else .error .overflow

/-- The subslice `data[i..i + n]`. -/
def slice (data : List UInt8) (i n : ℕ) : List UInt8 := (data.drop i).take n

theorem slice_append {xs ys : List UInt8} {i n : ℕ} (hi : xs.length = i) (hn : ys.length = n)
    (zs : List UInt8) : slice (xs ++ (ys ++ zs)) i n = ys := by
  subst hi hn
  simp [slice]

/-- A slice inside a prefix is the slice of the whole. -/
theorem slice_of_isPrefix {p d : List UInt8} (h : p <+: d) {i n : ℕ} (hin : i + n ≤ p.length) :
    slice p i n = slice d i n := by
  obtain ⟨q,rfl⟩ := h
  rw [slice,slice,List.drop_append_of_le_length (by omega)]
  rw [List.take_append_of_le_length (by rw [List.length_drop]; omega)]

/-- A vector with a read position in it; the bytes before it are used up. -/
structure DynamicBuffer where
  bytes : List UInt8
  readPos : ℕ
  readPos_le : readPos ≤ bytes.length
  deriving DecidableEq

namespace DynamicBuffer

def new : DynamicBuffer := ⟨[],0,Nat.le_refl 0⟩

def append (b : DynamicBuffer) (data : List UInt8) : DynamicBuffer where
  bytes := b.bytes ++ data
  readPos := b.readPos
  readPos_le := by
    have h := b.readPos_le
    simp only [List.length_append]
    omega

/-- The unread bytes. -/
def data (b : DynamicBuffer) : List UInt8 := b.bytes.drop b.readPos

def size (b : DynamicBuffer) : ℕ := b.bytes.length - b.readPos

/-- Move the read position, and drop the used bytes once they are more than half. -/
def consume (b : DynamicBuffer) (count : ℕ) : ℕ × DynamicBuffer :=
  let available := b.bytes.length - b.readPos
  let toConsume := min count available
  let readPos := b.readPos + toConsume
  if readPos > b.bytes.length / 2 ∧ readPos > 0 then
    (toConsume,⟨b.bytes.drop readPos,0,Nat.zero_le _⟩)
  else
    (toConsume,⟨b.bytes,readPos,by have h := b.readPos_le; omega⟩)

def clear (_ : DynamicBuffer) : DynamicBuffer := new

def peek (b : DynamicBuffer) (count : ℕ) : List UInt8 :=
  slice b.bytes b.readPos (min count b.size)

def extract (b : DynamicBuffer) (count : ℕ) : List UInt8 × DynamicBuffer :=
  let available := min count b.size
  (slice b.bytes b.readPos available,(b.consume available).2)

@[simp] theorem data_new : new.data = [] := rfl

@[simp] theorem data_append (b : DynamicBuffer) (data : List UInt8) :
    (b.append data).data = b.data ++ data := List.drop_append_of_le_length b.readPos_le

/-- Compaction is not visible: either way the first `count` unread bytes are gone. -/
@[simp] theorem data_consume (b : DynamicBuffer) (count : ℕ) :
    (b.consume count).2.data = b.data.drop count := by
  have hpos := b.readPos_le
  have hdrop : b.bytes.drop (b.readPos + min count (b.bytes.length - b.readPos)) =
      (b.bytes.drop b.readPos).drop count := by
    rw [List.drop_drop]
    by_cases h : count ≤ b.bytes.length - b.readPos
    · rw [Nat.min_eq_left h]
    · rw [List.drop_of_length_le (by omega),List.drop_of_length_le (by omega)]
  simp only [consume]
  split
  · exact hdrop
  · exact hdrop

end DynamicBuffer
end WebSocket
end UProtocols
