/-
# Outbound delivery

The bytes that the kernel has taken and the bytes that wait in `outBuf_` form a queue
whose history should be everything sent on the connection.  A write of `handleWrite`
pops its front.  `sendTask` pushes the message and pops what the kernel takes at once,
with one exception: the `-1` of a direct write that fails is stored in an unsigned `n`,
where it is larger than every size, so the message is neither written nor kept.
`delivery_iff` is the sharp statement for runs of sends and writable events.
-/
import Lotta.TcpConnection
import Lotta.Lib.Fifo
import Lotta.Lib.Runs

namespace Lotta

namespace TcpConnection

/-- The queue that a connection stands for. -/
def fifo (c : TcpConnection) : Fifo UInt8 := ⟨c.kernel, c.outBuf⟩

/-- What the kernel returns for a message fits: a count of accepted bytes is kept by the
conversion to `size_type`. -/
theorem toSize_accepted (msg : Message) (k : ℕ) :
    toSize ((WriteResult.accepted k).returned msg.size) = min k msg.size := by
  have hlt : msg.size < 2 ^ 63 := msg.length_lt
  simp only [toSize, WriteResult.returned]
  omega

/-- The `-1` of a failed write becomes the largest `size_type`. -/
theorem toSize_failed (msg : Message) :
    msg.size ≤ toSize (WriteResult.failed.returned msg.size) := by
  have hlt : msg.size < 2 ^ 63 := msg.length_lt
  simp only [toSize, WriteResult.returned]
  omega

/-! ## The two paths of `sendTask` -/

/-- What is left of a message is pushed; the state stays. -/
theorem keepRest_frame (c : TcpConnection) (msg : Message) (n : ℕ) :
    (c.keepRest msg n).fifo = c.fifo.push (msg.bytes.drop n) ∧
      (c.keepRest msg n).state = c.state := by
  rw [keepRest]
  split
  · simp only
    split
    · obtain ⟨hkernel, hout, hstate⟩ :=
        frame_interest (c.setOutBuf (c.outBuf ++ msg.bytes.drop n)) .enableWriting
      exact ⟨by rw [fifo, hkernel, hout]; rfl, hstate⟩
    · exact ⟨rfl, rfl⟩
  · rename_i hn
    exact ⟨by rw [List.drop_eq_nil_of_le (not_lt.mp hn), Fifo.push_nil], rfl⟩

@[simp] theorem fifo_keepRest (c : TcpConnection) (msg : Message) (n : ℕ) :
    (c.keepRest msg n).fifo = c.fifo.push (msg.bytes.drop n) := (keepRest_frame c msg n).1

@[simp] theorem state_keepRest (c : TcpConnection) (msg : Message) (n : ℕ) :
    (c.keepRest msg n).state = c.state := (keepRest_frame c msg n).2

/-- With output pending or writing enabled, the whole message is queued. -/
theorem fifo_sendTask_buffered {c : TcpConnection} (hc : c.writesDirectly = false)
    (msg : Message) (r : WriteResult) :
    (c.sendTask msg r).fifo = c.fifo.push msg.bytes := by
  simp [sendTask, sendCount, hc]

/-- A direct write that the kernel accepts, in full or in part: the message goes through
the empty queue. -/
theorem fifo_sendTask_accepted {c : TcpConnection} (hc : c.writesDirectly = true)
    (msg : Message) (k : ℕ) :
    (c.sendTask msg (.accepted k)).fifo = (c.fifo.push msg.bytes).pop (min k msg.size) := by
  have hempty : c.outBuf = [] := by
    simp only [writesDirectly, Bool.and_eq_true, List.isEmpty_iff] at hc
    exact hc.2
  have hcount : c.sendCount msg (.accepted k) = min k msg.size := by
    simp [sendCount, hc, toSize_accepted]
  have htaken : (Effect.write msg.bytes (WriteResult.returned (.accepted k) msg.size)).taken =
      msg.bytes.take (min k msg.size) := by
    rw [Effect.taken, WriteResult.returned, Int.toNat_natCast]
  simp only [sendTask, hcount, hc, if_true, fifo_keepRest]
  simp [fifo, Fifo.push, Fifo.pop, hempty, htaken]

/-- A direct write that fails: the queue is left as it was. -/
theorem fifo_sendTask_failed {c : TcpConnection} (hc : c.writesDirectly = true)
    (msg : Message) : (c.sendTask msg .failed).fifo = c.fifo := by
  have hcount : msg.size ≤ c.sendCount msg .failed := by
    simpa [sendCount, hc] using toSize_failed msg
  simp only [sendTask, hc, if_true, fifo_keepRest]
  -- `n` lies past the end of the message, so no rest of it is kept
  rw [List.drop_eq_nil_of_le hcount, Fifo.push_nil]
  simp [fifo, Effect.taken, WriteResult.returned]

theorem state_sendTask (c : TcpConnection) (msg : Message) (r : WriteResult) :
    (c.sendTask msg r).state = c.state := by
  simp only [sendTask, state_keepRest]
  split <;> rfl

/-! ## The writable event -/

/-- `handleWrite` pops the bytes that the kernel takes and leaves the state alone. -/
theorem handleWrite_frame (c : TcpConnection) (r : WriteResult) :
    (∃ n, (c.handleWrite r).fifo = c.fifo.pop n) ∧ (c.handleWrite r).state = c.state := by
  rw [handleWrite]
  split
  · exact ⟨⟨0, (Fifo.pop_zero _).symm⟩, rfl⟩
  · simp only
    generalize r.returned c.outBuf.length = n
    have hwritten : (c.emit (.write c.outBuf n)).kernel = c.kernel ++ c.outBuf.take n.toNat := by
      rw [kernel_emit, Effect.taken]
    split
    · -- the kernel has taken nothing
      rename_i hn
      refine ⟨⟨0, ?_⟩, rfl⟩
      rw [Int.toNat_of_nonpos hn, List.take_zero, List.append_nil] at hwritten
      rw [Fifo.pop_zero, fifo, hwritten]
      rfl
    · split
      · -- the queue is empty now: what follows moves no bytes
        obtain ⟨hkernel, hout, hstate⟩ := frame_outputDone
          ((c.emit (.write c.outBuf n)).setOutBuf (c.outBuf.drop n.toNat))
        refine ⟨⟨n.toNat, ?_⟩, hstate⟩
        rw [outBuf_emit, fifo, hkernel, hout, kernel_setOutBuf, hwritten]
        rfl
      · refine ⟨⟨n.toNat, ?_⟩, rfl⟩
        rw [outBuf_emit, fifo, kernel_setOutBuf, hwritten]
        rfl

end TcpConnection

/-! ## Runs -/

/-- A connection with everything sent on it so far. -/
structure Outbound where
  conn : TcpConnection
  sent : List UInt8

/-- The steps of a run: a call of `send`, and a writable event. -/
inductive OutboundOp where
  | send (msg : Message) (r : WriteResult)
  | writable (r : WriteResult)

namespace Outbound

/-- A connection after `connEstablished`. -/
def init (asserts : Bool) (fd : ℤ) : Outbound := ⟨TcpConnection.established asserts fd, []⟩

/-- One step of a connection that has not been stopped by an assertion. -/
def step (s : Outbound) (op : OutboundOp) : Option Outbound :=
  if s.conn.aborted then none
  else
    match op with
    | .send msg r => some ⟨s.conn.send msg r, s.sent ++ msg.bytes⟩
    | .writable r => some ⟨s.conn.handleWrite r, s.sent⟩

/-- The bytes the kernel has taken, followed by those in `outBuf_`, are what was sent. -/
def Delivery (s : Outbound) : Prop := s.conn.fifo.history = s.sent

instance (s : Outbound) : Decidable s.Delivery := inferInstanceAs (Decidable (_ = _))

/-- The condition on a step: no direct write of a message with content fails. -/
def NoDirectFailure (s : Outbound) : OutboundOp → Prop
  | .send msg r => ¬ (s.conn.writesDirectly = true ∧ r = .failed ∧ msg.bytes ≠ [])
  | .writable _ => True

/-- A send keeps the law exactly when its direct write does not fail. -/
theorem delivery_send_iff {s : Outbound} (hs : s.conn.state = .connected) (h : s.Delivery)
    (msg : Message) (r : WriteResult) :
    Delivery ⟨s.conn.send msg r, s.sent ++ msg.bytes⟩ ↔ s.NoDirectFailure (.send msg r) := by
  have hlaw : s.conn.fifo.history = s.sent := h
  have hsend : s.conn.send msg r = s.conn.sendTask msg r := by
    rw [TcpConnection.send, if_neg (not_not.mpr hs)]
  simp only [Delivery, NoDirectFailure, hsend]
  cases hc : s.conn.writesDirectly with
  | false =>
      rw [TcpConnection.fifo_sendTask_buffered hc, Fifo.history_push, hlaw]
      simp
  | true =>
      cases r with
      | accepted k =>
          rw [TcpConnection.fifo_sendTask_accepted hc, Fifo.history_pop, Fifo.history_push, hlaw]
          simp
      | failed =>
          rw [TcpConnection.fifo_sendTask_failed hc, hlaw]
          simp

/-- A step stays in `Connected`. -/
theorem state_step {s t : Outbound} {op : OutboundOp} (hs : s.conn.state = .connected)
    (h : s.step op = some t) : t.conn.state = .connected := by
  unfold step at h
  split at h
  · cases h
  · cases op with
    | send msg r =>
        obtain rfl := Option.some.inj h
        show (s.conn.send msg r).state = _
        rw [TcpConnection.send, if_neg (not_not.mpr hs), TcpConnection.state_sendTask, hs]
    | writable r =>
        obtain rfl := Option.some.inj h
        exact (TcpConnection.handleWrite_frame _ _).2.trans hs

/-- One step keeps the law exactly when it meets the condition. -/
theorem delivery_step_iff {s t : Outbound} {op : OutboundOp} (hs : s.conn.state = .connected)
    (hd : s.Delivery) (h : s.step op = some t) : t.Delivery ↔ s.NoDirectFailure op := by
  unfold step at h
  split at h
  · cases h
  · cases op with
    | send msg r =>
        obtain rfl := Option.some.inj h
        exact delivery_send_iff hs hd msg r
    | writable r =>
        obtain rfl := Option.some.inj h
        obtain ⟨⟨n, hn⟩, -⟩ := TcpConnection.handleWrite_frame s.conn r
        refine iff_of_true ?_ trivial
        rw [Delivery, hn, Fifo.history_pop]
        exact hd

/-- The law holds along a run of sends and writable events exactly when no direct write
of a message with content fails in the run. -/
theorem delivery_iff (asserts : Bool) (fd : ℤ) (ops : List OutboundOp) :
    Runs.Along step Delivery (init asserts fd) ops ↔
      Runs.AllSteps step NoDirectFailure (init asserts fd) ops :=
  Runs.along_iff_allSteps (J := fun s => s.conn.state = .connected)
    (fun _ _ _ hs h => state_step hs h)
    (fun _ _ _ hs hd h => delivery_step_iff hs hd h)
    (by cases asserts <;> rfl) (by cases asserts <;> rfl)

/-- The first message is refused by a full socket buffer: it is gone. -/
theorem not_delivery_refused :
    ¬ Runs.Along step Delivery (init true 7) [.send ⟨[104, 105], by decide⟩ .failed] := by
  decide

end Outbound

end Lotta
