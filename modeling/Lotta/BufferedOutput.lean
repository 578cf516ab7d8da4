/-
# The output of a connection in a real `Buffer`

`TcpConnection` keeps `outBuf_` as an ideal byte queue.  Here it is the `Buffer` of the source:
`sendTask` appends to it, `handleWrite` offers the bytes between its index and its end to the
kernel and retrieves those that were taken.  `BufferedThread` is the loop thread of such a
connection, with every move of `LoopThread`.

Read through `ideal`, which replaces the buffer by its content, a move of the one is the same
move of the other, unless `sendTask` appends to a buffer that is drained and full: there
`makeSpace` makes consumed bytes readable again.  `mirrored_iff` says so for whole runs, and
`delivery_iff` which runs deliver exactly the bytes that were sent.
-/
import Lotta.BufferQueue
import Lotta.ConnectionLoop
import Lotta.Lib.Simulation
import Lotta.Outbound

namespace Lotta

/-- A connection with its output in a `Buffer`; `base` is the rest of it, and the field
`outBuf` of `base` is not used. -/
structure BufferedConnection where
  base : TcpConnection
  outBuf : Buffer

namespace BufferedConnection

/-- The connection with an ideal queue in the place of the buffer. -/
def ideal (c : BufferedConnection) : TcpConnection := c.base.setOutBuf c.outBuf.content

/-- The test of `sendTask` before it writes to the kernel itself. -/
def writesDirectly (c : BufferedConnection) : Bool :=
  !c.base.channel.isWriting && c.outBuf.readable == 0

/-- The value of `n` in `sendTask` after the write. -/
def sendCount (c : BufferedConnection) (msg : Message) (r : WriteResult) : ℕ :=
  if c.writesDirectly then
    let n := toSize (r.returned msg.size)
    if n < 0 then 0 else n
  else 0

/-- The second half of `sendTask`: `outBuf_.append`, and the interest in writing. -/
def keepRest (c : BufferedConnection) (msg : Message) (n slack : ℕ) : BufferedConnection :=
  if n < msg.size then
    let c := { c with outBuf := c.outBuf.append (msg.bytes.drop n) slack }
    if !c.base.channel.isWriting then { c with base := c.base.interest .enableWriting } else c
  else c

/-- `sendTask`. -/
def sendTask (c : BufferedConnection) (msg : Message) (r : WriteResult) (slack : ℕ) :
    BufferedConnection :=
  let n := c.sendCount msg r
  let c := if c.writesDirectly then
    { c with base := c.base.emit (.write msg.bytes (r.returned msg.size)) } else c
  c.keepRest msg n slack

/-- `send` on the loop thread. -/
def send (c : BufferedConnection) (msg : Message) (r : WriteResult) (slack : ℕ) :
    BufferedConnection :=
  if c.base.state ≠ .connected then c else c.sendTask msg r slack

/-- `handleWrite`; `none` when the assertion of `retrieve` fails. -/
def handleWrite (c : BufferedConnection) (r : WriteResult) : Option BufferedConnection :=
  if !c.base.channel.isWriting then some c
  else
    let n := r.returned c.outBuf.readable
    let c := { c with base := c.base.emit (.write c.outBuf.content n) }
    if n ≤ 0 then some c
    else (c.outBuf.retrieve n.toNat).map fun (_, b) =>
      let c := { c with outBuf := b }
      if c.outBuf.readable = 0 then { c with base := c.base.outputDone } else c

end BufferedConnection

/-- The loop thread of such a connection. -/
structure BufferedThread where
  conn : BufferedConnection
  todo : List Todo

namespace BufferedThread

/-- A move of which the output buffer is no part. -/
def elsewhere (s : BufferedThread) (m : Move) : Option BufferedThread :=
  (LoopThread.step ⟨s.conn.base, s.todo⟩ m).map fun t => ⟨⟨t.conn, s.conn.outBuf⟩, t.todo⟩

/-- One move, with the slack that the vector has when it grows. -/
def step (s : BufferedThread) (op : Move × ℕ) : Option BufferedThread :=
  if s.conn.base.aborted then none
  else
    match op.1 with
    | .send msg r =>
        if LoopThread.userRuns s.todo then some ⟨s.conn.send msg r op.2, s.todo⟩ else none
    | .proceed n r =>
        match s.todo with
        | .writeTest :: rest =>
            if isWritable s.conn.base.channel.revents then (s.conn.handleWrite r).map (⟨·, rest⟩)
            else some ⟨s.conn, rest⟩
        | _ => s.elsewhere (.proceed n r)
    | m => s.elsewhere m

/-- A connection in the `connCallback_` of `connEstablished`; its buffer is new. -/
def init (asserts : Bool) (fd : ℤ) (capacity : ℕ) : BufferedThread :=
  ⟨⟨TcpConnection.established asserts fd, Buffer.init capacity⟩, [.userCode]⟩

/-- The next piece of code calls `handleRead`. -/
def reads (s : BufferedThread) : Bool := LoopThread.reads ⟨s.conn.base, s.todo⟩

/-- An assertion in the code that runs. -/
def check (s : BufferedThread) (b : Bool) : BufferedThread :=
  ⟨{ s.conn with base := s.conn.base.check b }, s.todo⟩

/-- The thread with an ideal queue in the place of the buffer. -/
def ideal (s : BufferedThread) : LoopThread := ⟨s.conn.ideal, s.todo⟩

theorem ideal_init (asserts : Bool) (fd : ℤ) (capacity : ℕ) :
    (init asserts fd capacity).ideal = LoopThread.init asserts fd := by
  cases asserts <;> rfl

end BufferedThread

/-! ## What does not look at the output -/

namespace TcpConnection

variable (c : TcpConnection) (xs : List UInt8)

@[simp] theorem emit_setOutBuf (e : Effect) : (c.setOutBuf xs).emit e = (c.emit e).setOutBuf xs :=
  rfl

@[simp] theorem setState_setOutBuf (st : ConnState) :
    (c.setOutBuf xs).setState st = (c.setState st).setOutBuf xs := rfl

@[simp] theorem check_setOutBuf (b : Bool) :
    (c.setOutBuf xs).check b = (c.check b).setOutBuf xs := rfl

theorem ite_setOutBuf (b : Prop) [Decidable b] (d : TcpConnection) :
    (if b then c else d).setOutBuf xs = if b then c.setOutBuf xs else d.setOutBuf xs :=
  apply_ite (fun e : TcpConnection => e.setOutBuf xs) b c d

theorem thenDo_setOutBuf {f : TcpConnection → TcpConnection}
    (hf : ∀ d : TcpConnection, f (d.setOutBuf xs) = (f d).setOutBuf xs) :
    (c.setOutBuf xs).thenDo f = (c.thenDo f).setOutBuf xs := by
  unfold thenDo
  rw [hf, ite_setOutBuf]
  rfl

@[simp] theorem updateChannel_setOutBuf :
    (c.setOutBuf xs).updateChannel = c.updateChannel.setOutBuf xs := by
  unfold updateChannel
  cases hreg : c.registration with
  | fresh => simp only [emit, setOutBuf, hreg]
  | registered => simp only [emit, setOutBuf, hreg]
  | removed => simp only [emit, setOutBuf, check, hreg]

@[simp] theorem interest_setOutBuf (k : InterestCall) :
    (c.setOutBuf xs).interest k = (c.interest k).setOutBuf xs :=
  updateChannel_setOutBuf { c with channel := k.apply c.channel } xs

@[simp] theorem removeChannel_setOutBuf :
    (c.setOutBuf xs).removeChannel = c.removeChannel.setOutBuf xs := by
  unfold removeChannel
  refine thenDo_setOutBuf (c.check c.channel.isEmptyEvent) xs fun d => ?_
  cases hreg : d.registration with
  | registered => simp only [emit, setOutBuf, hreg]
  | fresh => simp only [emit, setOutBuf, check, hreg]
  | removed => simp only [emit, setOutBuf, check, hreg]

@[simp] theorem shutdownTask_setOutBuf :
    (c.setOutBuf xs).shutdownTask = c.shutdownTask.setOutBuf xs := by
  unfold shutdownTask
  rw [ite_setOutBuf]
  rfl

@[simp] theorem outputDone_setOutBuf :
    (c.setOutBuf xs).outputDone = c.outputDone.setOutBuf xs := by
  unfold outputDone
  rw [interest_setOutBuf]
  refine thenDo_setOutBuf _ xs fun d => ?_
  rw [shutdownTask_setOutBuf, ite_setOutBuf]
  rfl

@[simp] theorem handleClose_setOutBuf :
    (c.setOutBuf xs).handleClose = c.handleClose.setOutBuf xs := by
  unfold handleClose
  rw [setState_setOutBuf, interest_setOutBuf]
  exact thenDo_setOutBuf _ xs fun d => removeChannel_setOutBuf d xs

@[simp] theorem shutdown_setOutBuf :
    (c.setOutBuf xs).shutdown = c.shutdown.setOutBuf xs := by
  unfold shutdown
  rw [setState_setOutBuf, shutdownTask_setOutBuf, ite_setOutBuf]
  rfl

@[simp] theorem resetSocket_setOutBuf :
    (c.setOutBuf xs).resetSocket = c.resetSocket.setOutBuf xs := by
  unfold resetSocket
  rw [ite_setOutBuf]
  rfl

end TcpConnection

namespace LoopThread

/-- The thread with other bytes in the output queue of its connection. -/
def withOutBuf (xs : List UInt8) (s : LoopThread) : LoopThread := ⟨s.conn.setOutBuf xs, s.todo⟩

variable (c : TcpConnection) (xs : List UInt8)

theorem handleClose_setOutBuf (rest : List Todo) :
    handleClose (c.setOutBuf xs) rest = (handleClose c rest).withOutBuf xs := by
  unfold handleClose withOutBuf
  rw [TcpConnection.handleClose_setOutBuf]
  rw [TcpConnection.thenDo_setOutBuf _ xs fun d => TcpConnection.emit_setOutBuf d xs _]

theorem close_setOutBuf (rest : List Todo) :
    close (c.setOutBuf xs) rest = (close c rest).withOutBuf xs := by
  unfold close closeTask
  rw [TcpConnection.setState_setOutBuf, handleClose_setOutBuf]

theorem handleRead_setOutBuf (n : ℤ) (rest : List Todo) :
    handleRead (c.setOutBuf xs) n rest = (handleRead c n rest).withOutBuf xs := by
  unfold handleRead
  rw [handleClose_setOutBuf]
  split_ifs <;> rfl

/-- A piece of code other than the test for writing. -/
theorem proceed_setOutBuf (n : ℤ) (r : WriteResult) {todo : List Todo}
    (h : todo.head? ≠ some .writeTest) :
    proceed (c.setOutBuf xs) n r todo = (proceed c n r todo).map (withOutBuf xs) := by
  cases todo with
  | nil => rfl
  | cons k rest =>
      cases k with
      | hangUpTest =>
          simp only [proceed, handleClose_setOutBuf, Option.map_some]
          rw [apply_ite (withOutBuf xs)]
          rfl
      | readTest =>
          simp only [proceed, handleRead_setOutBuf, Option.map_some]
          rw [apply_ite (withOutBuf xs)]
          rfl
      | resetSocket =>
          simp only [proceed, TcpConnection.resetSocket_setOutBuf, Option.map_some]
          rfl
      | writeTest => exact absurd rfl h
      | handleEvent | errorTest | userCode | rmConnCallback => rfl

/-- A move other than `send` and a write of `handleWrite`. -/
theorem step_withOutBuf (s : LoopThread) {m : Move} (hsend : ∀ msg r, m ≠ .send msg r)
    (hwrite : ∀ n r, m = .proceed n r → s.todo.head? ≠ some .writeTest) :
    (s.withOutBuf xs).step m = (s.step m).map (withOutBuf xs) := by
  unfold step
  rw [apply_ite (Option.map (withOutBuf xs))]
  refine ite_congr rfl (fun _ => rfl) fun _ => ?_
  cases m with
  | send msg r => exact absurd rfl (hsend msg r)
  | poll revents =>
      rw [apply_ite (Option.map (withOutBuf xs))]
      rfl
  | shutdown =>
      simp only [apply_ite (Option.map (withOutBuf xs)), withOutBuf, Option.map_some,
        TcpConnection.shutdown_setOutBuf, Option.map_none]
  | close =>
      rw [apply_ite (Option.map (withOutBuf xs)), Option.map_some, ← close_setOutBuf]
      rfl
  | proceed n r => exact proceed_setOutBuf s.conn xs n r (hwrite n r rfl)

end LoopThread

/-! ## A move of the one is a move of the other -/

namespace BufferedConnection

variable (c : BufferedConnection) (msg : Message) (r : WriteResult)

/-- An append of `sendTask` finds the buffer drained and full. -/
def Refills : Prop := c.sendCount msg r < msg.size ∧ c.outBuf.DrainedFull

instance : Decidable (c.Refills msg r) := inferInstanceAs (Decidable (_ ∧ _))

/-- `sendTask` does not lose its message to a direct write that fails, and it does not append
to a buffer that is drained and full. -/
def KeepsBytes : Prop :=
  ¬ (c.writesDirectly = true ∧ r = .failed ∧ msg.bytes ≠ []) ∧ ¬ c.Refills msg r

instance : Decidable (c.KeepsBytes msg r) := inferInstanceAs (Decidable (_ ∧ _))

@[simp] theorem writesDirectly_ideal : c.ideal.writesDirectly = c.writesDirectly := by
  have hlen : c.ideal.outBuf.isEmpty = (c.outBuf.readable == 0) := by
    rw [← Buffer.length_content, Bool.eq_iff_iff, List.isEmpty_iff, beq_iff_eq,
      List.length_eq_zero_iff]
    rfl
  rw [TcpConnection.writesDirectly, hlen]
  rfl

@[simp] theorem sendCount_ideal : c.ideal.sendCount msg r = c.sendCount msg r := by
  rw [TcpConnection.sendCount, writesDirectly_ideal]
  rfl

/-- `outBuf_` after the second half of `sendTask`. -/
theorem ideal_keepRest (n slack : ℕ) :
    (c.keepRest msg n slack).ideal = (c.ideal.keepRest msg n).setOutBuf
      (if n < msg.size then (c.outBuf.append (msg.bytes.drop n) slack).content
        else c.outBuf.content) := by
  unfold keepRest TcpConnection.keepRest
  have hwriting : (c.ideal.setOutBuf (c.ideal.outBuf ++ msg.bytes.drop n)).channel.isWriting =
      c.base.channel.isWriting := rfl
  by_cases hn : n < msg.size
  · simp only [if_pos hn, hwriting]
    cases hw : c.base.channel.isWriting with
    | true => rfl
    | false =>
        simp only [Bool.not_false, if_true, ideal, TcpConnection.interest_setOutBuf]
        rfl
  · rw [if_neg hn, if_neg hn, if_neg hn]
    rfl

/-- What `outBuf_` holds after `sendTask`. -/
def afterSend (slack : ℕ) : List UInt8 :=
  if c.sendCount msg r < msg.size then
    (c.outBuf.append (msg.bytes.drop (c.sendCount msg r)) slack).content
  else c.outBuf.content

theorem ideal_sendTask (slack : ℕ) :
    (c.sendTask msg r slack).ideal =
      (c.ideal.sendTask msg r).setOutBuf (c.afterSend msg r slack) := by
  unfold sendTask TcpConnection.sendTask
  simp only [sendCount_ideal, writesDirectly_ideal]
  cases hc : c.writesDirectly with
  | true =>
      simp only [if_true]
      exact ideal_keepRest _ msg _ slack
  | false => exact ideal_keepRest c msg _ slack

/-- An ideal `sendTask` puts the rest of the message behind the bytes that wait. -/
theorem outBuf_sendTask_ideal :
    (c.ideal.sendTask msg r).outBuf = c.outBuf.content ++ msg.bytes.drop (c.sendCount msg r) := by
  have hkeep : ∀ d : TcpConnection, d.outBuf = c.outBuf.content →
      (d.keepRest msg (c.sendCount msg r)).outBuf =
        c.outBuf.content ++ msg.bytes.drop (c.sendCount msg r) := by
    intro d hd
    have hfifo := congrArg Fifo.content (TcpConnection.fifo_keepRest d msg (c.sendCount msg r))
    rw [← hd]
    exact hfifo
  unfold TcpConnection.sendTask
  simp only [sendCount_ideal]
  split
  · exact hkeep _ rfl
  · exact hkeep _ rfl

/-- The buffer holds what the ideal queue does unless the append finds it drained and full. -/
theorem afterSend_eq_iff {c : BufferedConnection} (hwf : c.outBuf.Wf) (slack : ℕ) :
    c.afterSend msg r slack = (c.ideal.sendTask msg r).outBuf ↔ ¬ c.Refills msg r := by
  rw [outBuf_sendTask_ideal]
  unfold afterSend Refills
  by_cases hn : c.sendCount msg r < msg.size
  · rw [if_pos hn, Buffer.content_append hwf, Buffer.content_makeSpace, List.append_left_inj]
    by_cases hd : c.outBuf.DrainedFull
    · -- the consumed bytes are back
      rw [if_pos hd, (Buffer.content_eq_nil_iff c.outBuf).mpr hd.2.1]
      exact iff_of_false hd.1 fun h => h ⟨hn, hd⟩
    · rw [if_neg hd]
      exact iff_of_true rfl fun h => hd h.2
  · rw [if_neg hn, List.drop_eq_nil_of_le (not_lt.mp hn), List.append_nil]
    exact iff_of_true rfl fun h => hn h.1

/-- `sendTask` is the ideal one unless its append finds the buffer drained and full. -/
theorem ideal_sendTask_iff {c : BufferedConnection} (hwf : c.outBuf.Wf) (slack : ℕ) :
    (c.sendTask msg r slack).ideal = c.ideal.sendTask msg r ↔ ¬ c.Refills msg r := by
  rw [ideal_sendTask, ← afterSend_eq_iff msg r hwf slack]
  constructor
  · intro h
    exact congrArg TcpConnection.outBuf h
  · intro h
    rw [h]
    rfl

/-- `handleWrite` never fails its assertion, and it is the ideal one. -/
theorem ideal_handleWrite : (c.handleWrite r).map ideal = some (c.ideal.handleWrite r) := by
  unfold handleWrite TcpConnection.handleWrite
  have hlen : c.ideal.outBuf.length = c.outBuf.readable := Buffer.length_content c.outBuf
  have hwriting : c.ideal.channel.isWriting = c.base.channel.isWriting := rfl
  rw [hwriting, apply_ite (Option.map ideal)]
  cases c.base.channel.isWriting with
  | false => rfl
  | true =>
      simp only [Bool.not_true, Bool.false_eq_true, if_false, hlen]
      have hle : (r.returned c.outBuf.readable).toNat ≤ c.outBuf.readable := by
        cases r with
        | accepted k => simp [WriteResult.returned]
        | failed => simp [WriteResult.returned]
      generalize r.returned c.outBuf.readable = n at hle
      by_cases hn : n ≤ 0
      · rw [if_pos hn, if_pos hn]
        rfl
      · have hr : c.outBuf.retrieve n.toNat = some (⟨.at c.outBuf.idx, n.toNat⟩,
            { c.outBuf with idx := c.outBuf.idx + n.toNat }) :=
          Buffer.retrieve_eq_some_iff.mpr ⟨hle, rfl, rfl⟩
        have hcontent := (Buffer.content_retrieve hr).2
        rw [if_neg hn, if_neg hn, hr, Option.map_some, Option.map_some]
        generalize ({ c.outBuf with idx := c.outBuf.idx + n.toNat } : Buffer) = b at hcontent
        have hout : c.ideal.outBuf.drop n.toNat = b.content := hcontent.symm
        -- both have written the same bytes and keep the same rest
        have hwritten : (c.ideal.emit (.write c.ideal.outBuf n)).setOutBuf
            ((c.ideal.emit (.write c.ideal.outBuf n)).outBuf.drop n.toNat) =
            (c.base.emit (.write c.outBuf.content n)).setOutBuf b.content := by
          rw [TcpConnection.outBuf_emit, hout]
          rfl
        have hempty :
            ((c.base.emit (.write c.outBuf.content n)).setOutBuf b.content).outBuf.length =
              b.readable := Buffer.length_content b
        rw [hwritten, TcpConnection.outputDone_setOutBuf, hempty, apply_ite ideal]
        rfl

theorem wf_sendTask {c : BufferedConnection} (hwf : c.outBuf.Wf) (slack : ℕ) :
    (c.sendTask msg r slack).outBuf.Wf := by
  have hkeep : ∀ (d : BufferedConnection) (n : ℕ), d.outBuf.Wf →
      (d.keepRest msg n slack).outBuf.Wf := by
    intro d n hd
    unfold keepRest
    split
    · simp only
      split
      · exact Buffer.wf_append hd _ slack
      · exact Buffer.wf_append hd _ slack
    · exact hd
  unfold sendTask
  simp only
  split
  · exact hkeep _ _ hwf
  · exact hkeep _ _ hwf

theorem wf_handleWrite {c d : BufferedConnection} {r : WriteResult} (hwf : c.outBuf.Wf)
    (h : c.handleWrite r = some d) : d.outBuf.Wf := by
  unfold handleWrite at h
  split at h
  · obtain rfl := Option.some.inj h
    exact hwf
  · simp only at h
    split at h
    · obtain rfl := Option.some.inj h
      exact hwf
    · rw [Option.map_eq_some_iff] at h
      obtain ⟨⟨slice, b⟩, hr, rfl⟩ := h
      have hb := Buffer.wf_retrieve hwf hr
      split
      · exact hb
      · exact hb

end BufferedConnection

namespace BufferedThread

variable {s t : BufferedThread} {op : Move × ℕ}

/-- The condition on a step: no append of `sendTask` finds the buffer drained and full. -/
def RoomOk (s : BufferedThread) (op : Move × ℕ) : Prop :=
  match op.1 with
  | .send msg r => s.conn.base.state = .connected → ¬ s.conn.Refills msg r
  | _ => True

/-- The ideal thread makes the same move. -/
abbrev Mirrored (s : BufferedThread) (op : Move × ℕ) : Prop :=
  Runs.Mirrored step LoopThread.step ideal Prod.fst s op

theorem ideal_elsewhere (s : BufferedThread) {m : Move} (hsend : ∀ msg r, m ≠ .send msg r)
    (hwrite : ∀ n r, m = .proceed n r → s.todo.head? ≠ some .writeTest) :
    (s.elsewhere m).map ideal = s.ideal.step m := by
  have hstep := LoopThread.step_withOutBuf s.conn.outBuf.content ⟨s.conn.base, s.todo⟩ hsend hwrite
  rw [elsewhere, Option.map_map]
  exact hstep.symm

/-- The moves: a send, a write of `handleWrite`, and those that leave the buffer alone. -/
inductive Moved (s : BufferedThread) : Move × ℕ → BufferedThread → Prop where
  | sent (msg : Message) (r : WriteResult) (slack : ℕ)
      (huser : LoopThread.userRuns s.todo = true) :
      Moved s (.send msg r, slack) ⟨s.conn.send msg r slack, s.todo⟩
  | wrote (n : ℤ) (r : WriteResult) (slack : ℕ) (rest : List Todo) (c : BufferedConnection)
      (htodo : s.todo = .writeTest :: rest)
      (hevent : isWritable s.conn.base.channel.revents = true)
      (hc : s.conn.handleWrite r = some c) : Moved s (.proceed n r, slack) ⟨c, rest⟩
  | elsewhere (m : Move) (slack : ℕ) (t : BufferedThread) (hsend : ∀ msg r, m ≠ .send msg r)
      (hideal : s.ideal.step m = some t.ideal) (hout : t.conn.outBuf = s.conn.outBuf) :
      Moved s (m, slack) t

theorem moved_of_elsewhere {m : Move} {slack : ℕ} (hsend : ∀ msg r, m ≠ .send msg r)
    (hwrite : ∀ n r, m = .proceed n r → s.todo.head? ≠ some .writeTest)
    (h : s.elsewhere m = some t) : Moved s (m, slack) t := by
  have hideal := ideal_elsewhere s hsend hwrite
  rw [h] at hideal
  refine .elsewhere m slack t hsend hideal.symm ?_
  unfold elsewhere at h
  rw [Option.map_eq_some_iff] at h
  obtain ⟨u, -, rfl⟩ := h
  rfl

theorem ideal_step_writeTest (hrun : s.conn.base.aborted = false) {rest : List Todo}
    (htodo : s.todo = .writeTest :: rest) (n : ℤ) (r : WriteResult) :
    s.ideal.step (.proceed n r) =
      some (if isWritable s.conn.base.channel.revents then ⟨s.conn.ideal.handleWrite r, rest⟩
        else ⟨s.conn.ideal, rest⟩) := by
  have hideal : ¬ s.ideal.conn.aborted = true := by
    rw [Bool.not_eq_true]
    exact hrun
  unfold LoopThread.step
  rw [if_neg hideal]
  simp only [ideal, htodo, LoopThread.proceed]
  rfl

theorem moved_of_step (h : s.step op = some t) : s.conn.base.aborted = false ∧ Moved s op t := by
  obtain ⟨m, slack⟩ := op
  unfold step at h
  split at h
  · cases h
  · rename_i hrun
    replace hrun : s.conn.base.aborted = false := by simpa using hrun
    refine ⟨hrun, ?_⟩
    cases m with
    | send msg r =>
        simp only [Option.ite_none_right_eq_some, Option.some.injEq] at h
        obtain ⟨huser, rfl⟩ := h
        exact .sent msg r slack huser
    | poll revents =>
        exact moved_of_elsewhere (fun _ _ => by simp) (fun _ _ hm => by cases hm) h
    | shutdown => exact moved_of_elsewhere (fun _ _ => by simp) (fun _ _ hm => by cases hm) h
    | close => exact moved_of_elsewhere (fun _ _ => by simp) (fun _ _ hm => by cases hm) h
    | proceed n r =>
        simp only at h
        split at h
        · rename_i rest htodo
          have hideal := ideal_step_writeTest hrun htodo n r
          split at h
          · rename_i hevent
            rw [Option.map_eq_some_iff] at h
            obtain ⟨c, hc, rfl⟩ := h
            exact .wrote n r slack rest c htodo hevent hc
          · rename_i hevent
            obtain rfl := Option.some.inj h
            rw [if_neg hevent] at hideal
            exact .elsewhere _ slack _ (fun _ _ => by simp) hideal rfl
        · rename_i hwrite
          refine moved_of_elsewhere (fun _ _ => by simp) (fun _ _ _ hhead => ?_) h
          obtain ⟨rest, htodo⟩ := List.head?_eq_some_iff.mp hhead
          exact hwrite rest htodo

theorem wf_step (hwf : s.conn.outBuf.Wf) (h : s.step op = some t) : t.conn.outBuf.Wf := by
  cases (moved_of_step h).2 with
  | sent msg r slack =>
      show (s.conn.send msg r slack).outBuf.Wf
      unfold BufferedConnection.send
      split
      · exact hwf
      · exact BufferedConnection.wf_sendTask msg r hwf slack
  | wrote n r slack rest c htodo hevent hc => exact BufferedConnection.wf_handleWrite hwf hc
  | elsewhere m slack t hsend hideal hout => rwa [hout]

/-- A step is mirrored exactly when it meets the condition. -/
theorem mirrored_step_iff (hwf : s.conn.outBuf.Wf) (h : s.step op = some t) :
    s.Mirrored op ↔ s.RoomOk op := by
  obtain ⟨hrun, hmoved⟩ := moved_of_step h
  have hideal : s.ideal.conn.aborted = false := hrun
  rw [Mirrored, Runs.Mirrored, h, Option.map_some]
  cases hmoved with
  | sent msg r slack huser =>
      have huser' : LoopThread.userRuns s.ideal.todo = true := huser
      have hstep : s.ideal.step (.send msg r) = some ⟨s.conn.ideal.send msg r, s.todo⟩ := by
        rw [LoopThread.step, hideal]
        simp only [Bool.false_eq_true, if_false, huser', if_true]
        rfl
      have hstate : s.conn.ideal.state = s.conn.base.state := rfl
      show s.ideal.step (.send msg r) = _ ↔ (s.conn.base.state = .connected → _)
      rw [hstep, Option.some.injEq, ideal, LoopThread.mk.injEq, and_iff_left rfl,
        BufferedConnection.send, TcpConnection.send, hstate]
      by_cases hs : s.conn.base.state = .connected
      · rw [if_neg (not_not.mpr hs), if_neg (not_not.mpr hs), eq_comm,
          BufferedConnection.ideal_sendTask_iff msg r hwf slack]
        exact ⟨fun hroom _ => hroom, fun hroom => hroom hs⟩
      · rw [if_pos hs, if_pos hs]
        exact iff_of_true rfl fun hconn => absurd hconn hs
  | wrote n r slack rest c htodo hevent hc =>
      have hwrite := BufferedConnection.ideal_handleWrite s.conn r
      rw [hc, Option.map_some, Option.some.injEq] at hwrite
      refine iff_of_true ?_ trivial
      rw [ideal_step_writeTest hrun htodo, if_pos hevent, ← hwrite]
      rfl
  | elsewhere m slack t hsend hstep hout =>
      refine iff_of_true hstep ?_
      cases m with
      | send msg r => exact absurd rfl (hsend msg r)
      | _ => trivial

/-! ## The bytes that the moves pass on -/

end BufferedThread

namespace TcpConnection

variable (c : TcpConnection)

theorem fifo_of_frame {c d : TcpConnection} (h : Frame c d) : d.fifo = c.fifo := by
  rw [fifo, fifo, h.kernel, h.outBuf]

/-- An effect that gives no bytes to the kernel. -/
theorem fifo_emit {e : Effect} (h : e.taken = []) : (c.emit e).fifo = c.fifo := by
  rw [fifo, kernel_emit, h, List.append_nil]
  rfl

theorem fifo_setState (st : ConnState) : (c.setState st).fifo = c.fifo :=
  fifo_emit c (e := .store st) rfl

theorem fifo_thenDo {f : TcpConnection → TcpConnection}
    (hf : ∀ d : TcpConnection, (f d).fifo = d.fifo) : (c.thenDo f).fifo = c.fifo :=
  thenDo_cases (P := fun d => d.fifo = c.fifo) c rfl (hf c)

theorem fifo_removeChannel : c.removeChannel.fifo = c.fifo := by
  refine fifo_thenDo (c.check c.channel.isEmptyEvent) fun d => ?_
  have hemit : (d.emit .removeChannel).fifo = d.fifo := fifo_emit d rfl
  simp only
  split
  · exact hemit
  · exact hemit

theorem fifo_handleClose : c.handleClose.fifo = c.fifo := by
  unfold handleClose
  rw [fifo_thenDo _ fifo_removeChannel, fifo_of_frame (frame_interest _ _), fifo_setState]

theorem fifo_shutdown : c.shutdown.fifo = c.fifo := by
  unfold shutdown
  split
  · rfl
  · rw [fifo_of_frame (frame_shutdownTask _), fifo_setState]

theorem fifo_resetSocket : c.resetSocket.fifo = c.fifo := by
  unfold resetSocket
  split
  · exact fifo_emit c (e := .closeSocket) rfl
  · rfl

end TcpConnection

namespace LoopThread

theorem fifo_handleClose (c : TcpConnection) (rest : List Todo) :
    (handleClose c rest).conn.fifo = c.fifo := by
  show (c.handleClose.thenDo fun d => d.emit .closeCallback).fifo = c.fifo
  rw [TcpConnection.fifo_thenDo _ fun d => TcpConnection.fifo_emit d rfl,
    TcpConnection.fifo_handleClose]

theorem served_of_ran {s t : LoopThread} {n : ℤ} {r : WriteResult} (h : Ran s n r t) :
    s.conn.fifo.Served t.conn.fifo := by
  cases h with
  | closed k rest => exact Fifo.Served.of_eq (fifo_handleClose _ _)
  | removed rest => exact Fifo.Served.of_eq (TcpConnection.fifo_emit s.conn rfl)
  | quiet k rest pre c htodo hk hpre hevent hc =>
      cases hc with
      | skip => exact Fifo.Served.of_eq rfl
      | msgCallback => exact Fifo.Served.of_eq (TcpConnection.fifo_emit s.conn rfl)
      | written => exact (TcpConnection.handleWrite_frame s.conn r).1
      | socketReset => exact Fifo.Served.of_eq (TcpConnection.fifo_resetSocket s.conn)

/-- Only a send puts bytes into the queue. -/
theorem served_of_step {s t : LoopThread} {m : Move} (hsend : ∀ msg r, m ≠ .send msg r)
    (h : s.step m = some t) : s.conn.fifo.Served t.conn.fifo := by
  cases (moved_of_step h).2 with
  | polled => exact Fifo.Served.of_eq rfl
  | sent msg r => exact absurd rfl (hsend msg r)
  | shutdown => exact Fifo.Served.of_eq (TcpConnection.fifo_shutdown s.conn)
  | closed =>
      refine Fifo.Served.of_eq ?_
      show (handleClose (s.conn.setState .disconnecting) (.resetSocket :: s.todo)).conn.fifo = _
      rw [fifo_handleClose, TcpConnection.fifo_setState]
  | ran n r t h => exact served_of_ran h

end LoopThread

namespace BufferedThread

variable {s t : BufferedThread} {op : Move × ℕ}

/-- Every move of the connection is the same move of the ideal one exactly in those runs in
which no append of `sendTask` finds the buffer drained and full.  What holds along an ideal run
holds along such a run. -/
theorem run_refines (asserts : Bool) (fd : ℤ) (capacity : ℕ) (ops : List (Move × ℕ)) :
    (Runs.AllSteps step Mirrored (init asserts fd capacity) ops ↔
      Runs.AllSteps step RoomOk (init asserts fd capacity) ops) ∧
    ∀ P : LoopThread → Prop, Runs.AllSteps step RoomOk (init asserts fd capacity) ops →
      Runs.Along LoopThread.step P (LoopThread.init asserts fd) (ops.map Prod.fst) →
        Runs.Along step (fun s => P s.ideal) (init asserts fd capacity) ops := by
  have hiff : Runs.AllSteps step Mirrored (init asserts fd capacity) ops ↔
      Runs.AllSteps step RoomOk (init asserts fd capacity) ops :=
    Runs.allSteps_congr (J := fun s => s.conn.outBuf.Wf) (fun _ _ _ hwf h => wf_step hwf h)
      (fun _ _ _ hwf h => mirrored_step_iff hwf h) (Buffer.wf_init capacity)
  refine ⟨hiff, fun P hok halong => ?_⟩
  rw [← ideal_init asserts fd capacity] at halong
  exact Runs.Along.of_mirrored (hiff.mpr hok) halong

end BufferedThread

namespace BufferedConnection

/-- A refill leaves more in the buffer than the ideal queue has. -/
theorem length_history_lt {c : BufferedConnection} (hwf : c.outBuf.Wf) {msg : Message}
    {r : WriteResult} (slack : ℕ) (h : c.Refills msg r) :
    (c.ideal.sendTask msg r).fifo.history.length <
      (c.sendTask msg r slack).ideal.fifo.history.length := by
  have hdata : 0 < c.outBuf.data.data.length := List.length_pos_of_ne_nil h.2.1
  have hcontent : c.outBuf.content = [] := (Buffer.content_eq_nil_iff c.outBuf).mpr h.2.2.1
  have hideal := outBuf_sendTask_ideal c msg r
  have hafter : c.afterSend msg r slack =
      c.outBuf.data.data ++ msg.bytes.drop (c.sendCount msg r) := by
    rw [afterSend, if_pos h.1, Buffer.content_append hwf, Buffer.content_makeSpace, if_pos h.2]
  rw [hcontent, List.nil_append] at hideal
  rw [ideal_sendTask, hafter]
  show ((c.ideal.sendTask msg r).kernel ++ (c.ideal.sendTask msg r).outBuf).length <
    ((c.ideal.sendTask msg r).kernel ++ (c.outBuf.data.data ++ _)).length
  rw [hideal, List.length_append, List.length_append, List.length_append]
  omega

/-- The ideal queue loses a message exactly when its direct write fails. -/
theorem history_sendTask_ideal_iff (c : BufferedConnection) (msg : Message) (r : WriteResult) :
    (c.ideal.sendTask msg r).fifo.history = c.ideal.fifo.history ++ msg.bytes ↔
      ¬ (c.writesDirectly = true ∧ r = .failed ∧ msg.bytes ≠ []) := by
  rw [← writesDirectly_ideal]
  cases hc : c.ideal.writesDirectly with
  | false =>
      rw [TcpConnection.fifo_sendTask_buffered hc, Fifo.history_push]
      simp
  | true =>
      cases r with
      | accepted k =>
          rw [TcpConnection.fifo_sendTask_accepted hc, Fifo.history_pop, Fifo.history_push]
          simp
      | failed =>
          rw [TcpConnection.fifo_sendTask_failed hc]
          simp

/-- `sendTask` puts its message, and nothing else, behind the bytes before it exactly when it
meets the condition. -/
theorem history_sendTask_iff {c : BufferedConnection} (hwf : c.outBuf.Wf) (msg : Message)
    (r : WriteResult) (slack : ℕ) :
    (c.sendTask msg r slack).ideal.fifo.history = c.ideal.fifo.history ++ msg.bytes ↔
      c.KeepsBytes msg r := by
  have hlaw := history_sendTask_ideal_iff c msg r
  by_cases hrefill : c.Refills msg r
  · refine iff_of_false (fun h => ?_) fun h => h.2 hrefill
    have hlt := length_history_lt hwf slack hrefill
    -- what is appended was not lost, so the ideal queue keeps the law
    have hkept : ¬ (c.writesDirectly = true ∧ r = .failed ∧ msg.bytes ≠ []) := by
      rintro ⟨hdirect, rfl, -⟩
      have hcount : msg.size ≤ c.sendCount msg .failed := by
        simpa [sendCount, hdirect] using TcpConnection.toSize_failed msg
      exact absurd hrefill.1 (not_lt.mpr hcount)
    rw [h, ← hlaw.mpr hkept] at hlt
    exact lt_irrefl _ hlt
  · rw [(ideal_sendTask_iff msg r hwf slack).mpr hrefill, hlaw]
    exact ⟨fun h => ⟨h, hrefill⟩, fun h => h.1⟩

end BufferedConnection

/-- The loop thread of a connection with the bytes sent on it so far. -/
structure BufferedOutput where
  thread : BufferedThread
  sent : List UInt8

namespace BufferedOutput

variable {s t : BufferedOutput} {op : Move × ℕ}

/-- The bytes of a call of `send` that finds the connection in `Connected`. -/
def sends (s : BufferedOutput) : Move → List UInt8
  | .send msg _ => if s.thread.conn.base.state = .connected then msg.bytes else []
  | _ => []

/-- One move of the thread. -/
def step (s : BufferedOutput) (op : Move × ℕ) : Option BufferedOutput :=
  (s.thread.step op).map fun t => ⟨t, s.sent ++ s.sends op.1⟩

/-- A connection in its `connCallback_`, on which nothing has been sent. -/
def init (asserts : Bool) (fd : ℤ) (capacity : ℕ) : BufferedOutput :=
  ⟨BufferedThread.init asserts fd capacity, []⟩

/-- The bytes that the kernel has taken, followed by the content of `outBuf_`, are what was
sent. -/
def Delivery (s : BufferedOutput) : Prop := s.thread.conn.ideal.fifo.history = s.sent

instance (s : BufferedOutput) : Decidable s.Delivery := inferInstanceAs (Decidable (_ = _))

/-- The condition on a step: a send in `Connected` keeps the bytes. -/
def KeepsBytes (s : BufferedOutput) (op : Move × ℕ) : Prop :=
  match op.1 with
  | .send msg r => s.thread.conn.base.state = .connected → s.thread.conn.KeepsBytes msg r
  | _ => True

/-- One move keeps the law exactly when it meets the condition. -/
theorem delivery_step_iff (hwf : s.thread.conn.outBuf.Wf) (hs : s.Delivery)
    (h : s.step op = some t) : t.Delivery ↔ s.KeepsBytes op := by
  have hlaw : s.thread.conn.ideal.fifo.history = s.sent := hs
  unfold step at h
  rw [Option.map_eq_some_iff] at h
  obtain ⟨u, hstep, rfl⟩ := h
  unfold Delivery KeepsBytes sends
  cases (BufferedThread.moved_of_step hstep).2 with
  | sent msg r slack huser =>
      simp only [BufferedConnection.send]
      by_cases hconn : s.thread.conn.base.state = .connected
      · rw [if_neg (not_not.mpr hconn), if_pos hconn, ← hlaw,
          BufferedConnection.history_sendTask_iff hwf msg r slack]
        exact ⟨fun hkeep _ => hkeep, fun hkeep => hkeep hconn⟩
      · rw [if_pos hconn, if_neg hconn, List.append_nil]
        exact iff_of_true hlaw fun hc => absurd hc hconn
  | wrote n r slack rest c htodo hevent hc =>
      have hwrite := BufferedConnection.ideal_handleWrite s.thread.conn r
      rw [hc, Option.map_some, Option.some.injEq] at hwrite
      obtain ⟨k, hk⟩ := (TcpConnection.handleWrite_frame s.thread.conn.ideal r).1
      refine iff_of_true ?_ trivial
      show c.ideal.fifo.history = s.sent ++ []
      rw [hwrite, hk, Fifo.history_pop, hlaw, List.append_nil]
  | elsewhere m slack t hsend hideal hout =>
      have hsame := (LoopThread.served_of_step hsend hideal).history
      cases m with
      | send msg r => exact absurd rfl (hsend msg r)
      | _ =>
          refine iff_of_true ?_ trivial
          show u.ideal.conn.fifo.history = s.sent ++ []
          rw [hsame, List.append_nil]
          exact hlaw

/-- Along a run of all the moves of the loop thread, the bytes that the kernel has taken and
those in the real `outBuf_` are what was sent, in order, exactly when no direct write of a
message with content fails and no append finds the buffer drained and full. -/
theorem run_delivery_iff (asserts : Bool) (fd : ℤ) (capacity : ℕ) (ops : List (Move × ℕ)) :
    Runs.Along step Delivery (init asserts fd capacity) ops ↔
      Runs.AllSteps step KeepsBytes (init asserts fd capacity) ops := by
  refine Runs.along_iff_allSteps (J := fun s => s.thread.conn.outBuf.Wf) (fun s op t hwf h => ?_)
    (fun _ _ _ hwf hs h => delivery_step_iff hwf hs h) (Buffer.wf_init capacity) ?_
  · unfold step at h
    rw [Option.map_eq_some_iff] at h
    obtain ⟨u, hstep, rfl⟩ := h
    exact BufferedThread.wf_step hwf hstep
  · cases asserts <;> rfl

-- two bytes fill a new buffer and are written later; the next message brings them back
example : ¬ Runs.Along step Delivery (init true 7 0)
    [(.send ⟨[1, 2], by decide⟩ (.accepted 0), 0), (.proceed 0 .failed, 0), (.poll 4, 0),
      (.proceed 0 .failed, 0), (.proceed 0 .failed, 0), (.proceed 0 .failed, 0),
      (.proceed 0 .failed, 0), (.proceed 0 (.accepted 2), 0),
      (.send ⟨[3], by decide⟩ (.accepted 0), 0)] := by
  decide

end BufferedOutput

end Lotta
