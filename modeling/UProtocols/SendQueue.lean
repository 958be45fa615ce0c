import UProtocols.WebSocketFrame

/-!
# The send queue of the WebSocket frame buffer

`queue_send_data` and `get_send_data` of `websocket_buffer_management.rs` work on the circular
buffer. The `CircularBuffer::write` of `websocket_buffer_management.cpp` looks at the free space
first; its buffer has the same fields.
-/

namespace UProtocols

namespace BufferManagement.CircularBuffer

/-- The C++ `write`: all of the data or nothing. A size above the capacity has no result. -/
def Cpp.write (s : CircularBuffer) (data : List UInt8) : Option (CircularBuffer × Bool) := do
  if (← checkedSub s.capacity s.size) < data.length then return (s,false)
  let t ← writeLoop data data.length 0 s
  return (t,true)

theorem Represents.cpp_write {s : CircularBuffer} {capacity : ℕ} {q : List UInt8}
    (h : s.Represents capacity q) (data : List UInt8) :
    ∃ t, Cpp.write s data = some (t,decide (data.length ≤ capacity - q.length)) ∧
      (capacity - q.length < data.length → t = s) ∧
      (data.length ≤ capacity - q.length → t.Represents capacity (q ++ data)) := by
  have hfits := h.fits
  rw [Cpp.write,h.checkedSub_eq]
  rcases Nat.lt_or_ge (capacity - q.length) data.length with hlong | hroom
  · refine ⟨s,?_,fun _ => rfl,fun hle => absurd hlong (Nat.not_lt.mpr hle)⟩
    rw [decide_eq_false (Nat.not_le.mpr hlong)]
    exact if_pos hlong
  · obtain ⟨t,ht,hrep⟩ := writeLoop_ok h data (n := data.length) (i := 0) (by omega) (by omega)
    rw [List.drop_zero,List.take_length] at hrep
    refine ⟨t,?_,fun hlt => absurd hlt (Nat.not_lt.mpr hroom),fun _ => hrep⟩
    rw [decide_eq_true hroom]
    simp [Nat.not_lt.mpr hroom,ht]

end BufferManagement.CircularBuffer

namespace WebSocket

/-! ## Sequences of calls -/

inductive BufferCall
  | addReceivedData (data : List UInt8)
  | tryExtractFrame
  | queueSendData (data : List UInt8)
  | getSendData (buffer : List UInt8)
  deriving DecidableEq

namespace WebSocketFrameBuffer

/-- The buffer after a call; a call that panics has no result. -/
def step (b : WebSocketFrameBuffer) : BufferCall → Option WebSocketFrameBuffer
  | .addReceivedData data => some (b.addReceivedData data)
  | .tryExtractFrame => b.tryExtractFrame.toOption.map Prod.snd
  | .queueSendData data => (b.queueSendData data).map Prod.snd
  | .getSendData buffer => (b.getSendData buffer).map fun r => r.2.2

def run (calls : List BufferCall) : Option WebSocketFrameBuffer := Runs.exec step new calls

/-- The bytes that wait to be sent, in their order: what a `peek` of all of them finds. -/
def pendingBytes (b : WebSocketFrameBuffer) : Option (List UInt8) :=
  (b.sendBuffer.peek (List.replicate b.pendingSendSize 0)).map Prod.snd

/-- The send buffer holds the bytes `q`. -/
def Sends (b : WebSocketFrameBuffer) (q : List UInt8) : Prop :=
  b.sendBuffer.Represents sendBufferSize q

variable {b : WebSocketFrameBuffer} {q : List UInt8}

theorem sends_new : new.Sends [] :=
  BufferManagement.CircularBuffer.represents_new sendBufferSize

theorem Sends.pendingSendSize (h : b.Sends q) : b.pendingSendSize = q.length := h.size_eq

theorem Sends.pendingBytes (h : b.Sends q) : b.pendingBytes = some q := by
  rw [WebSocketFrameBuffer.pendingBytes,h.pendingSendSize,h.peek_ok]
  simp

theorem Sends.queueSendData (h : b.Sends q) (data : List UInt8) :
    ∃ c, b.queueSendData data =
        some (decide (data.length ≤ sendBufferSize - q.length),c) ∧
      c.Sends (q ++ data.take (sendBufferSize - q.length)) := by
  obtain ⟨d,hd,hrep⟩ := h.write_ok data
  have hall : (min data.length (sendBufferSize - q.length) == data.length) =
      decide (data.length ≤ sendBufferSize - q.length) := by
    rw [Bool.eq_iff_iff,beq_iff_eq,decide_eq_true_iff]
    omega
  rw [Nat.min_comm,← List.take_eq_take_min] at hrep
  refine ⟨{b with sendBuffer := d},?_,hrep⟩
  rw [WebSocketFrameBuffer.queueSendData,hd,← hall]
  rfl

theorem Sends.getSendData (h : b.Sends q) (buffer : List UInt8) :
    ∃ c, b.getSendData buffer = some (min buffer.length q.length,
        q.take (min buffer.length q.length) ++ buffer.drop (min buffer.length q.length),c) ∧
      c.Sends (q.drop (min buffer.length q.length)) := by
  obtain ⟨d,hd,hrep⟩ := h.read_ok buffer
  refine ⟨{b with sendBuffer := d},?_,hrep⟩
  rw [WebSocketFrameBuffer.getSendData,hd]
  rfl

/-- Extraction of a frame leaves the send buffer alone. -/
theorem Sends.tryExtractFrame (h : b.Sends q) {c : WebSocketFrameBuffer}
    {frame : Option (List UInt8)} (hextract : b.tryExtractFrame = .ok (frame,c)) : c.Sends q := by
  rw [WebSocketFrameBuffer.tryExtractFrame] at hextract
  split at hextract
  · cases hextract
  · cases hextract
    exact h
  · cases hextract
    exact h

theorem Sends.step {c : WebSocketFrameBuffer} {call : BufferCall} (h : b.Sends q)
    (hstep : b.step call = some c) : ∃ q', c.Sends q' := by
  cases call with
  | addReceivedData data =>
    cases hstep
    exact ⟨q,h⟩
  | tryExtractFrame =>
    cases hextract : b.tryExtractFrame with
    | error p => simp [WebSocketFrameBuffer.step,hextract,Except.toOption] at hstep
    | ok r =>
      obtain ⟨frame,d⟩ := r
      rw [WebSocketFrameBuffer.step,hextract] at hstep
      cases hstep
      exact ⟨q,h.tryExtractFrame hextract⟩
  | queueSendData data =>
    obtain ⟨d,hqueue,hsends⟩ := h.queueSendData data
    rw [WebSocketFrameBuffer.step,hqueue] at hstep
    cases hstep
    exact ⟨_,hsends⟩
  | getSendData buffer =>
    obtain ⟨d,hget,hsends⟩ := h.getSendData buffer
    rw [WebSocketFrameBuffer.step,hget] at hstep
    cases hstep
    exact ⟨_,hsends⟩

theorem exists_sends {calls : List BufferCall} (hrun : run calls = some b) : ∃ q, b.Sends q :=
  Runs.exec_invariant (I := fun b => ∃ q, b.Sends q)
    (fun _ _ _ hstep ⟨_,h⟩ => h.step hstep) hrun ⟨[],sends_new⟩

/-! ## All or nothing -/

/-- A call that returns `false` leaves the queue as it was exactly when the data fit or nothing
at all does. The C++ `write` returns the same on the same buffer, and leaves it as it was where
that is `false`. -/
theorem queueSendData_unchanged_iff (calls : List BufferCall) (b : WebSocketFrameBuffer)
    (hrun : run calls = some b) (data : List UInt8) :
    ∃ all c t, b.queueSendData data = some (all,c) ∧
      ((all = false →
          c.pendingBytes = b.pendingBytes ∧ c.pendingSendSize = b.pendingSendSize) ↔
        data.length ≤ sendBufferSize - b.pendingSendSize ∨
          b.pendingSendSize = sendBufferSize) ∧
      BufferManagement.CircularBuffer.Cpp.write b.sendBuffer data = some (t,all) ∧
      (all = false → t = b.sendBuffer) := by
  obtain ⟨q,h⟩ := exists_sends hrun
  obtain ⟨c,hc,hsends⟩ := h.queueSendData data
  obtain ⟨t,ht,hsame,-⟩ := h.cpp_write data
  refine ⟨_,c,t,hc,?_,ht,fun hfalse => hsame (Nat.not_le.mp (of_decide_eq_false hfalse))⟩
  have hfits : q.length ≤ sendBufferSize := h.fits
  have hlength : (q ++ data.take (sendBufferSize - q.length)).length =
      q.length + min (sendBufferSize - q.length) data.length := by
    rw [List.length_append,List.length_take]
  rw [hsends.pendingBytes,hsends.pendingSendSize,h.pendingBytes,h.pendingSendSize,
    decide_eq_false_iff_not,hlength]
  constructor
  · intro hsame
    by_cases hroom : data.length ≤ sendBufferSize - q.length
    · exact Or.inl hroom
    · have hsize := (hsame hroom).2
      exact Or.inr (by omega)
  · rintro (hroom | hfull) hlong
    · exact absurd hroom hlong
    · rw [hfull,Nat.sub_self,List.take_zero,List.append_nil]
      exact ⟨rfl,by omega⟩

/-- The buffer after a first call that queues `n` zeros. -/
theorem run_queueSendData_replicate {n : ℕ} (hn : n ≤ sendBufferSize) :
    ∃ b, run [.queueSendData (List.replicate n 0)] = some b ∧ b.Sends (List.replicate n 0) := by
  obtain ⟨b,hb,hsends⟩ := sends_new.queueSendData (List.replicate n 0)
  have htake : (List.replicate n (0 : UInt8)).take (sendBufferSize - 0) = List.replicate n 0 := by
    apply List.take_of_length_le
    rw [List.length_replicate]
    exact hn
  rw [List.nil_append,List.length_nil,htake] at hsends
  refine ⟨b,?_,hsends⟩
  rw [run,Runs.exec_cons]
  exact ⟨b,by rw [WebSocketFrameBuffer.step,hb]; rfl,rfl⟩

/-- A full buffer takes nothing and stays as it was. -/
theorem queueSendData_unchanged_full :
    ∃ b c, run [.queueSendData (List.replicate 131072 0)] = some b ∧
      b.queueSendData [1,2] = some (false,c) ∧
      c.pendingBytes = b.pendingBytes ∧ c.pendingSendSize = b.pendingSendSize ∧
      BufferManagement.CircularBuffer.Cpp.write b.sendBuffer [1,2] = some (b.sendBuffer,false) := by
  obtain ⟨b,hrun,hsends⟩ := run_queueSendData_replicate (n := 131072) (Nat.le_refl _)
  have hfull : b.pendingSendSize = sendBufferSize :=
    hsends.pendingSendSize.trans List.length_replicate
  obtain ⟨all,c,t,hc,hiff,hcpp,hsame⟩ := queueSendData_unchanged_iff _ b hrun [1,2]
  obtain ⟨d,hd,-⟩ := hsends.queueSendData [1,2]
  obtain rfl : all = false := by
    rw [hc,List.length_replicate] at hd
    exact (Prod.mk.inj (Option.some.inj hd)).1
  obtain ⟨hbytes,hsize⟩ := hiff.mpr (.inr hfull) rfl
  exact ⟨b,c,hrun,hc,hbytes,hsize,by rw [hcpp,hsame rfl]⟩

/-- With room for one byte, the first of two bytes stays in the queue. -/
theorem queueSendData_prefix :
    ∃ b c, run [.queueSendData (List.replicate 131071 0)] = some b ∧
      b.queueSendData [1,2] = some (false,c) ∧ c.pendingBytes ≠ b.pendingBytes := by
  obtain ⟨b,hrun,hsends⟩ := run_queueSendData_replicate (n := 131071) (by decide)
  obtain ⟨c,hc,hlast⟩ := hsends.queueSendData [1,2]
  rw [List.length_replicate] at hc hlast
  refine ⟨b,c,hrun,hc,?_⟩
  rw [hlast.pendingBytes,hsends.pendingBytes]
  intro hsame
  have hsize := congrArg List.length (Option.some.inj hsame)
  rw [List.length_append,List.length_replicate] at hsize
  exact absurd hsize (by decide)

end WebSocketFrameBuffer
end WebSocket
end UProtocols
