/-
# Orderly shutdown

A message that `send()` has accepted on another thread is in one of three places: in the task
queue of the loop, in `outBuf_`, or in the kernel.  `shutdown()` on the loop thread looks at
the write interest only, so it waits for `outBuf_` and not for the task queue.  A `sendTask`
that is still queued when the half-close is made comes too late.

`OrderlyShutdown` puts a connection that nobody closes next to its loop and the threads that
send on it.  Every call of `send` that goes through is numbered, so that two calls with equal
bytes can be told apart.  `stream` lists the calls in the order in which their tasks run, and
`accepted` those that had returned before `shutdown()` was called.  `run_losesNone_iff` says
which runs lose none of them.
-/
import Lotta.EventLoop
import Lotta.CrossThread
import Lotta.HalfClose
import Lotta.Outbound

namespace Lotta

/-! ## The model -/

/-- A call of `send` that has seen `Connected`: its number and its message. -/
structure Sent where
  id : ℕ
  msg : Message
  deriving DecidableEq

/-- The functions in the queue of the loop: the tasks of `send`, and others. -/
inductive Job where
  | sendTask (x : Sent)
  | other
  deriving DecidableEq

/-- The call that a function belongs to. -/
def Job.sent : Job → Option Sent
  | .sendTask x => some x
  | .other => none

/-- Where a thread is inside `send`: after the test of `state_`, or after the push. -/
inductive Sender where
  | idle
  | tested (msg : Message)
  | pushed (x : Sent)
  deriving DecidableEq

/-- A connection with its loop and the threads that send on it.  `sends` is the number of
calls so far. -/
structure OrderlyShutdown (τ : Type*) where
  ev : EventLoop Job τ
  loop : LoopThread
  senders : τ → Sender
  sends : ℕ
  stream : List Sent
  accepted : List Sent
  asked : Bool

/-- The steps: of the loop where they do not involve the connection, of the connection on its
loop thread, the return of consumed bytes to `outBuf_`, a queued task whose write takes `k`
bytes, and the three steps of `send` on another thread. -/
inductive ShutdownOp (τ : Type*) where
  | loop (op : LoopOp Job τ)
  | poll (revents : BitVec 32)
  | move (m : Move)
  | refill (stale : List UInt8)
  | runTask (k : ℕ)
  | start (t : τ) (msg : Message)
  | push (t : τ)
  | returns (t : τ)

/-- The kernel refuses a write of the move. -/
def Move.refused : Move → Bool
  | .send _ .failed => true
  | .proceed _ .failed => true
  | _ => false

namespace OrderlyShutdown

variable {τ : Type*} [DecidableEq τ]

/-- The connection in its `connCallback_`, when nothing has been sent on it. -/
def init (asserts : Bool) (fd : ℤ) (pc : LoopPc) : OrderlyShutdown τ where
  ev := { EventLoop.init with pc := pc, doingFuncQueue := pc.doing }
  loop := LoopThread.init asserts fd
  senders := fun _ => .idle
  sends := 0
  stream := []
  accepted := []
  asked := false

/-- A step of the loop that does not involve the connection.  The loop thread goes on only
when the connection has nothing to do; user code may run in its callbacks. -/
def foreign (s : OrderlyShutdown τ) : LoopOp Job τ → Bool
  | .call => false
  | .pushLocal job => job == .other && LoopThread.userRuns s.loop.todo
  | .testWakeup => LoopThread.userRuns s.loop.todo
  | .quitLocal => LoopThread.userRuns s.loop.todo
  | .push t job => job == .other && s.senders t == .idle
  | .wakeup t => s.senders t == .idle
  | .quit t => s.senders t == .idle
  | _ => s.loop.todo.isEmpty

/-- The thread `t` is at `sender` in its call. -/
def setSender (s : OrderlyShutdown τ) (t : τ) (sender : Sender) : OrderlyShutdown τ :=
  { s with senders := Function.update s.senders t sender }

/-- A call of `send` returns. -/
def accept (s : OrderlyShutdown τ) (x : Sent) : OrderlyShutdown τ :=
  if s.asked then s else { s with accepted := s.accepted ++ [x] }

/-- What a call made by user code on the loop thread adds to the record. -/
def called (s : OrderlyShutdown τ) : Move → OrderlyShutdown τ
  | .send msg _ =>
      if s.loop.conn.state ≠ .connected then s
      else
        { s.accept ⟨s.sends, msg⟩ with
          sends := s.sends + 1, stream := s.stream ++ [⟨s.sends, msg⟩] }
  | .shutdown => { s with asked := true }
  | _ => s

/-- Run a queued function whose write takes `k` bytes. -/
def run (s : OrderlyShutdown τ) (k : ℕ) : Job → OrderlyShutdown τ
  | .sendTask x =>
      { s with loop := ⟨s.loop.conn.sendTask x.msg (.accepted k), []⟩, stream := s.stream ++ [x] }
  | .other => s

/-- One step of a connection that nobody closes and that no write fails on. -/
def step (s : OrderlyShutdown τ) (op : ShutdownOp τ) : Option (OrderlyShutdown τ) :=
  if s.loop.conn.aborted then none
  else
    match op with
    | .loop op => if s.foreign op then (s.ev.step op).map fun ev => { s with ev := ev } else none
    | .poll revents =>
        (s.ev.step .pollReturns).bind fun ev =>
          (s.loop.step (.poll revents)).map fun loop => { s with ev := ev, loop := loop }
    | .move m =>
        if ConnSystem.runsCode s.ev.pc ∧ m.isPoll = false ∧ s.loop.closes m = false ∧
            m.refused = false then
          (s.loop.step m).map fun loop => { s.called m with loop := loop }
        else none
    | .refill stale =>
        if s.loop.conn.outBuf = [] then none
        else some { s with
          loop := { s.loop with conn := s.loop.conn.setOutBuf (stale ++ s.loop.conn.outBuf) } }
    | .runTask k =>
        if s.loop.todo.length = 0 then
          s.ev.batch.head?.bind fun job =>
            (s.ev.step .call).map fun ev => { s.run k job with ev := ev }
        else none
    | .start t msg =>
        if s.senders t = .idle ∧ s.ev.threads t = .idle then
          some (if s.loop.conn.state ≠ .connected then s else s.setSender t (.tested msg))
        else none
    | .push t =>
        match s.senders t with
        | .tested msg =>
            (s.ev.step (.push t (.sendTask ⟨s.sends, msg⟩))).map fun ev =>
              { s.setSender t (.pushed ⟨s.sends, msg⟩) with ev := ev, sends := s.sends + 1 }
        | _ => none
    | .returns t =>
        match s.senders t with
        | .pushed x =>
            (s.ev.step (.wakeup t)).map fun ev =>
              { (s.setSender t .idle).accept x with ev := ev }
        | _ => none

end OrderlyShutdown

/-! ## What is lost -/

namespace TcpConnection

/-- The bytes that the kernel has taken before the first half-close. -/
def beforeHalfClose (c : TcpConnection) : List UInt8 :=
  (c.log.takeWhile (· ≠ .shutdownWrite)).flatMap Effect.taken

/-- A writable event on which the kernel takes all of `outBuf_`. -/
def drains (c : TcpConnection) (r : WriteResult) : Bool :=
  c.channel.isWriting && decide (c.outBuf.length ≤ (r.returned c.outBuf.length).toNat)

end TcpConnection

/-- A move that makes the half-close: `shutdown()` while no bytes wait in `outBuf_`, or the
writable event that drains it after `shutdown()`. -/
def LoopThread.halfCloses (s : LoopThread) : Move → Bool
  | .shutdown => s.conn.state == .connected && !s.conn.channel.isWriting
  | .proceed _ r =>
      s.todo.head? == some .writeTest && isWritable s.conn.channel.revents &&
        (s.conn.state == .disconnecting && s.conn.drains r)
  | _ => false

/-- The bytes of a series of calls. -/
def streamBytes (xs : List Sent) : List UInt8 := xs.flatMap fun x => x.msg.bytes

/-- The calls up to `x`. -/
def through (xs : List Sent) (x : Sent) : List Sent := xs.take (xs.idxOf x + 1)

namespace OrderlyShutdown

variable {τ : Type*} [DecidableEq τ]

/-- The message of `x` has been written in full, behind the messages before it, when the
half-close is made.  Stale bytes that `outBuf_` gives back may stand between its bytes. -/
def Delivered (s : OrderlyShutdown τ) (x : Sent) : Prop :=
  x ∈ s.stream ∧ (streamBytes (through s.stream x)).Sublist s.loop.conn.beforeHalfClose

instance (s : OrderlyShutdown τ) (x : Sent) : Decidable (s.Delivered x) :=
  inferInstanceAs (Decidable (_ ∧ _))

/-- Once the half-close is made, every accepted message with content was written before it. -/
def LosesNone (s : OrderlyShutdown τ) : Prop :=
  .shutdownWrite ∈ s.loop.conn.log → ∀ x ∈ s.accepted, x.msg.bytes = [] ∨ s.Delivered x

instance : DecidablePred (LosesNone : OrderlyShutdown τ → Prop) := fun _ =>
  inferInstanceAs (Decidable (_ → _))

/-- The calls whose tasks wait in the batch and in the queue. -/
def pending (s : OrderlyShutdown τ) : List Sent :=
  (s.ev.batch ++ s.ev.queue).filterMap Job.sent

/-- An accepted message with content waits in the task queue. -/
def Waiting (s : OrderlyShutdown τ) : Prop :=
  ∃ x ∈ s.accepted, x ∈ s.pending ∧ x.msg.bytes ≠ []

/-- A step that makes the half-close. -/
def halfCloses (s : OrderlyShutdown τ) : ShutdownOp τ → Bool
  | .move m => s.loop.halfCloses m
  | _ => false

/-- The condition on a step: the half-close is made only when no accepted message with
content waits in the task queue. -/
def NoneWaiting (s : OrderlyShutdown τ) (op : ShutdownOp τ) : Prop :=
  s.halfCloses op = true → ¬ s.Waiting

end OrderlyShutdown

/-! ## What the connection does with its output -/

namespace TcpConnection

variable {c d : TcpConnection} {asked asked' makes : Bool} {new : List UInt8}

/-- The effects before the first half-close, when there is one. -/
theorem takeWhile_made {pre : List Effect} (h : .shutdownWrite ∉ pre) (post : List Effect) :
    (pre ++ .shutdownWrite :: post).takeWhile (· ≠ .shutdownWrite) = pre := by
  have hpre : ∀ e ∈ pre, decide (e ≠ .shutdownWrite) = true := by
    intro e he
    have hne : e ≠ .shutdownWrite := fun heq => h (heq ▸ he)
    simpa using hne
  rw [List.takeWhile_append_of_pos hpre, List.takeWhile_cons_of_neg (by simp), List.append_nil]

/-- The half-close itself: everything the kernel has was taken before it. -/
theorem beforeHalfClose_of_last {pre : List Effect} (hlog : c.log = pre ++ [.shutdownWrite])
    (h : .shutdownWrite ∉ pre) : c.beforeHalfClose = c.kernel := by
  rw [beforeHalfClose, kernel, hlog, takeWhile_made h, List.flatMap_append]
  simp [Effect.taken]

/-- What comes after the half-close does not count. -/
theorem beforeHalfClose_of_made (h : .shutdownWrite ∈ c.log) (hgrows : c.log <+: d.log) :
    d.beforeHalfClose = c.beforeHalfClose := by
  obtain ⟨more, hmore⟩ := hgrows
  obtain ⟨pre, post, hlog, hpre⟩ := List.eq_append_cons_of_mem h
  rw [beforeHalfClose, beforeHalfClose, ← hmore, hlog, List.append_assoc, List.cons_append,
    takeWhile_made hpre, takeWhile_made hpre]

/-- What holds until the connection is closed: its channel is registered, no assertion has
failed, `state_` says whether `shutdown()` has been called, and the channel is interested in
writing exactly while bytes wait. -/
structure Serving (c : TcpConnection) (asked : Bool) : Prop where
  registered : c.registration = .registered
  running : c.aborted = false
  state : c.state = if asked then .disconnecting else .connected
  writing_iff : c.channel.isWriting = true ↔ c.outBuf ≠ []

/-- Whether a piece of code makes the half-close; it does so as its last act, when no bytes
wait. -/
inductive HalfClosing (c d : TcpConnection) : Bool → Prop where
  | no (h : .shutdownWrite ∈ d.log ↔ .shutdownWrite ∈ c.log) : HalfClosing c d false
  | yes (pre : List Effect) (hlog : d.log = pre ++ [.shutdownWrite])
      (hpre : .shutdownWrite ∈ pre ↔ .shutdownWrite ∈ c.log) (hout : d.outBuf = []) :
      HalfClosing c d true

/-- The piece may begin earlier, as long as nothing before it makes the half-close. -/
theorem HalfClosing.mono {b : TcpConnection} (h : HalfClosing c d makes)
    (hlog : .shutdownWrite ∈ c.log ↔ .shutdownWrite ∈ b.log) : HalfClosing b d makes := by
  cases h with
  | no h => exact .no (h.trans hlog)
  | yes pre hpre hmade hout => exact .yes pre hpre (hmade.trans hlog) hout

/-- What a piece of code does: it puts the bytes `new` into the output, and `makes` says
whether it makes the half-close. -/
structure Piece (c d : TcpConnection) (asked : Bool) (new : List UInt8) (makes : Bool) : Prop where
  serving : d.Serving asked
  grows : c.log <+: d.log
  history : d.fifo.history = c.fifo.history ++ new
  half : HalfClosing c d makes

theorem Serving.refl (h : c.Serving asked) : Piece c c asked [] false :=
  ⟨h, List.prefix_rfl, (List.append_nil _).symm, .no Iff.rfl⟩

theorem Serving.emit (h : c.Serving asked) (e : Effect) : (c.emit e).Serving asked :=
  ⟨h.registered, h.running, h.state, h.writing_iff⟩

/-- An effect that moves no bytes. -/
theorem Serving.quiet (h : c.Serving asked) {e : Effect} (htaken : e.taken = [])
    (hshut : e ≠ .shutdownWrite) : Piece c (c.emit e) asked [] false where
  serving := h.emit e
  grows := List.prefix_append _ _
  history := by simp [fifo, Fifo.history, htaken]
  half := .no (by simp [TcpConnection.emit, hshut.symm])

/-- Keeping the rest of a message enables writing when there is a rest. -/
theorem Serving.keepRest (h : c.Serving asked) (msg : Message) (n : ℕ) :
    (c.keepRest msg n).Serving asked ∧ c.log <+: (c.keepRest msg n).log ∧
      (.shutdownWrite ∈ (c.keepRest msg n).log ↔ .shutdownWrite ∈ c.log) := by
  rcases keepRest_cases h.registered msg n with
    heq | ⟨out, channel, log, heq, hout, hw, hgrows, hmade⟩
  · rw [heq]
    exact ⟨h, List.prefix_rfl, Iff.rfl⟩
  · rw [heq]
    exact ⟨⟨h.registered, h.running, h.state, iff_of_true hw hout⟩, hgrows, hmade⟩

/-- `sendTask` puts the message into the output. -/
theorem Serving.sendTask (h : c.Serving asked) (msg : Message) (k : ℕ) :
    Piece c (c.sendTask msg (.accepted k)) asked msg.bytes false := by
  have hhistory : (c.sendTask msg (.accepted k)).fifo.history = c.fifo.history ++ msg.bytes := by
    cases hc : c.writesDirectly with
    | false => rw [fifo_sendTask_buffered hc, Fifo.history_push]
    | true => rw [fifo_sendTask_accepted hc, Fifo.history_pop, Fifo.history_push]
  unfold TcpConnection.sendTask at hhistory ⊢
  simp only at hhistory ⊢
  generalize c.sendCount msg (.accepted k) = n at hhistory ⊢
  split at hhistory
  · rename_i hdirect
    rw [if_pos hdirect]
    obtain ⟨hserving, hgrows, hmade⟩ := (h.emit _).keepRest msg n
    refine ⟨hserving, (List.prefix_append _ _).trans hgrows, hhistory, .no (hmade.trans ?_)⟩
    simp [TcpConnection.emit]
  · rename_i hdirect
    rw [if_neg hdirect]
    obtain ⟨hserving, hgrows, hmade⟩ := h.keepRest msg n
    exact ⟨hserving, hgrows, hhistory, .no hmade⟩

/-- `shutdown` before it has been called: the half-close is made at once when the channel is not
interested in writing. -/
theorem Serving.shutdown (h : c.Serving asked) :
    Piece c c.shutdown true [] (c.state == .connected && !c.channel.isWriting) := by
  rw [TcpConnection.shutdown]
  cases asked with
  | true =>
      have hstate : c.state = .disconnecting := h.state
      rw [if_pos (by rw [hstate]; decide), hstate]
      exact h.refl
  | false =>
      have hstate : c.state = .connected := h.state
      rw [if_neg (not_not.mpr hstate), hstate, shutdownTask]
      split
      · rename_i hw
        replace hw : c.channel.isWriting = true := hw
        rw [hw]
        refine ⟨⟨h.registered, h.running, rfl, h.writing_iff⟩, List.prefix_append _ _, ?_, .no ?_⟩
        · simp [fifo, Fifo.history, kernel, setState, Effect.taken]
        · simp [setState]
      · rename_i hw
        replace hw : c.channel.isWriting = false := Bool.eq_false_iff.mpr hw
        have hout : c.outBuf = [] := by
          by_contra hout
          rw [h.writing_iff.mpr hout] at hw
          cases hw
        rw [hw]
        refine ⟨⟨h.registered, h.running, rfl, h.writing_iff⟩, ?_, ?_,
          .yes (c.log ++ [.store .disconnecting]) rfl (by simp) hout⟩
        · exact (List.prefix_append _ _).trans (List.prefix_append _ _)
        · simp [fifo, Fifo.history, kernel, TcpConnection.emit, setState, Effect.taken]

/-- The last byte is written: the half-close is made when `shutdown()` was called. -/
theorem Serving.outputDone (hreg : c.registration = .registered) (hrun : c.aborted = false)
    (hstate : c.state = if asked then .disconnecting else .connected) (hout : c.outBuf = []) :
    Piece c c.outputDone asked [] asked := by
  have hidle : (InterestCall.disableWriting.apply c.channel).isWriting = false :=
    Channel.isWriting_disableWriting _
  have hhistory : c.outputDone.fifo.history = c.fifo.history ++ [] := by
    obtain ⟨hkernel, houtBuf, -⟩ := frame_outputDone c
    rw [fifo, hkernel, houtBuf, List.append_nil]
    rfl
  rw [outputDone_eq hreg hrun hstate, interest_registered hreg] at hhistory ⊢
  cases asked with
  | true =>
      exact ⟨⟨hreg, hrun, hstate, by simp [hidle, hout, TcpConnection.emit]⟩,
        (List.prefix_append _ _).trans (List.prefix_append _ _), hhistory,
        .yes _ rfl (by simp) hout⟩
  | false =>
      exact ⟨⟨hreg, hrun, hstate, by simp [hidle, hout]⟩, List.prefix_append _ _, hhistory,
        .no (by simp)⟩

/-- `handleWrite` makes the half-close when it drains the output after `shutdown()`. -/
theorem Serving.handleWrite (h : c.Serving asked) (r : WriteResult) :
    Piece c (c.handleWrite r) asked [] (asked && c.drains r) := by
  have hhistory : (c.handleWrite r).fifo.history = c.fifo.history ++ [] := by
    obtain ⟨⟨n, hn⟩, -⟩ := handleWrite_frame c r
    rw [hn, Fifo.history_pop, List.append_nil]
  unfold TcpConnection.handleWrite at hhistory ⊢
  unfold drains
  cases hw : c.channel.isWriting with
  | false =>
      rw [Bool.false_and, Bool.and_false]
      exact h.refl
  | true =>
      have hout : c.outBuf ≠ [] := h.writing_iff.mp hw
      have hpos : 0 < c.outBuf.length := List.length_pos_of_ne_nil hout
      simp only [hw, Bool.not_true, Bool.false_eq_true, if_false, Bool.true_and] at hhistory ⊢
      generalize r.returned c.outBuf.length = n at hhistory ⊢
      by_cases hn : n ≤ 0
      · -- the kernel has taken nothing
        rw [if_pos hn] at hhistory ⊢
        rw [decide_eq_false (by omega), Bool.and_false]
        exact ⟨h.emit _, List.prefix_append _ _, hhistory, .no (by simp [TcpConnection.emit])⟩
      · rw [if_neg hn] at hhistory ⊢
        by_cases hle : c.outBuf.length ≤ n.toNat
        · have hempty : c.outBuf.drop n.toNat = [] := List.drop_eq_nil_of_le hle
          rw [outBuf_emit, if_pos (by simp [setOutBuf, hempty])] at hhistory ⊢
          rw [decide_eq_true hle, Bool.and_true]
          obtain ⟨hserving, hgrows, -, hhalf⟩ := Serving.outputDone
            (c := (c.emit (.write c.outBuf n)).setOutBuf (c.outBuf.drop n.toNat))
            h.registered h.running h.state hempty
          refine ⟨hserving, (List.prefix_append _ _).trans hgrows, hhistory, ?_⟩
          exact hhalf.mono (by simp [setOutBuf, TcpConnection.emit])
        · have hrest : c.outBuf.drop n.toNat ≠ [] := by
            rw [Ne, List.drop_eq_nil_iff]
            exact hle
          have hlong : ((c.emit (.write c.outBuf n)).setOutBuf
              (c.outBuf.drop n.toNat)).outBuf.length ≠ 0 :=
            fun hzero => hrest (List.eq_nil_of_length_eq_zero hzero)
          rw [outBuf_emit, if_neg hlong] at hhistory ⊢
          rw [decide_eq_false hle, Bool.and_false]
          exact ⟨⟨h.registered, h.running, h.state, iff_of_true hw hrest⟩,
            List.prefix_append _ _, hhistory, .no (by simp [setOutBuf, TcpConnection.emit])⟩

end TcpConnection

namespace LoopThread

variable {s t : LoopThread} {asked : Bool}

/-- The next piece of code, when it does not close the connection. -/
theorem piece_of_proceed {n : ℤ} {r : WriteResult} (h : s.conn.Serving asked)
    (hclose : s.closesNext n = false) (hstep : proceed s.conn n r s.todo = some t) :
    TcpConnection.Piece s.conn t.conn asked [] (s.halfCloses (.proceed n r)) := by
  obtain ⟨c, todo⟩ := s
  cases todo with
  | nil => cases hstep
  | cons k rest =>
      cases k with
      | writeTest =>
          obtain rfl := Option.some.inj hstep
          have hstate : (c.state == .disconnecting) = asked := by
            rw [show c.state = _ from h.state]
            cases asked <;> rfl
          simp only [halfCloses, List.head?_cons, BEq.rfl, Bool.true_and, hstate]
          cases hwritable : isWritable c.channel.revents with
          | false => exact h.refl
          | true => exact h.handleWrite r
      | hangUpTest =>
          obtain rfl := Option.some.inj hstep
          rw [if_neg (by rw [show hangsUp c.channel.revents = false from hclose]; decide)]
          exact h.refl
      | readTest =>
          obtain rfl := Option.some.inj hstep
          split
          · rename_i hread
            have hn : n ≠ 0 := by
              rintro rfl
              rw [closesNext, hread] at hclose
              cases hclose
            rw [handleRead, if_neg hn]
            split
            · exact h.refl
            · exact h.quiet rfl (by simp)
          · exact h.refl
      | rmConnCallback =>
          obtain rfl := Option.some.inj hstep
          exact h.quiet rfl (by simp)
      | resetSocket =>
          obtain rfl := Option.some.inj hstep
          show TcpConnection.Piece c c.resetSocket asked [] false
          rw [TcpConnection.resetSocket]
          split
          · obtain ⟨⟨hreg, hrun, hstate, hw⟩, hgrows, hhistory, hhalf⟩ :=
              h.quiet (e := .closeSocket) rfl (by simp)
            refine ⟨⟨hreg, hrun, hstate, hw⟩, hgrows, hhistory, ?_⟩
            cases hhalf with
            | no hmade => exact .no hmade
          · exact h.refl
      | handleEvent | errorTest | userCode =>
          obtain rfl := Option.some.inj hstep
          exact h.refl

/-- What a move sends. -/
def sends (s : LoopThread) : Move → List UInt8
  | .send msg _ => if s.conn.state ≠ .connected then [] else msg.bytes
  | _ => []

/-- A move that neither closes the connection nor meets a failing write. -/
theorem piece_of_step {m : Move} (h : s.conn.Serving asked) (hclose : s.closes m = false)
    (hrefused : m.refused = false) (hstep : s.step m = some t) :
    TcpConnection.Piece s.conn t.conn (asked || HalfClose.asks m) (s.sends m)
      (s.halfCloses m) := by
  have hrun : ¬ s.conn.aborted = true := by simp [h.running]
  cases m with
  | poll revents =>
      rw [step, if_neg hrun, Option.ite_none_right_eq_some, Option.some.injEq] at hstep
      obtain ⟨-, rfl⟩ := hstep
      rw [show (asked || HalfClose.asks (.poll revents)) = asked from Bool.or_false _]
      exact ⟨⟨h.registered, h.running, h.state, h.writing_iff⟩, List.prefix_rfl,
        (List.append_nil _).symm, .no Iff.rfl⟩
  | send msg r =>
      rw [step, if_neg hrun, Option.ite_none_right_eq_some, Option.some.injEq] at hstep
      obtain ⟨-, rfl⟩ := hstep
      rw [show (asked || HalfClose.asks (.send msg r)) = asked from Bool.or_false _]
      show TcpConnection.Piece s.conn (s.conn.send msg r) asked
        (if s.conn.state ≠ .connected then [] else msg.bytes) false
      rw [TcpConnection.send]
      split
      · exact h.refl
      · cases r with
        | failed => cases hrefused
        | accepted k => exact h.sendTask msg k
  | shutdown =>
      rw [step, if_neg hrun, Option.ite_none_right_eq_some, Option.some.injEq] at hstep
      obtain ⟨-, rfl⟩ := hstep
      rw [show (asked || HalfClose.asks .shutdown) = true from Bool.or_true _]
      exact h.shutdown
  | close => cases hclose
  | proceed n r =>
      rw [step, if_neg hrun] at hstep
      rw [show (asked || HalfClose.asks (.proceed n r)) = asked from Bool.or_false _]
      exact piece_of_proceed h hclose hstep

end LoopThread

/-! ## The record of the calls -/

/-- Calls that come later do not change which come before `x`. -/
theorem through_append {xs : List Sent} {x : Sent} (hx : x ∈ xs) (ys : List Sent) :
    through (xs ++ ys) x = through xs x := by
  rw [through, through, List.idxOf_append_of_mem hx,
    List.take_append_of_le_length (List.idxOf_lt_length_of_mem hx)]

theorem streamBytes_append (xs ys : List Sent) :
    streamBytes (xs ++ ys) = streamBytes xs ++ streamBytes ys := List.flatMap_append

theorem streamBytes_through (xs : List Sent) (x : Sent) :
    streamBytes (through xs x) <+: streamBytes xs := by
  conv_rhs => rw [← List.take_append_drop (xs.idxOf x + 1) xs, streamBytes_append]
  exact List.prefix_append _ _

namespace OrderlyShutdown

variable {τ : Type*} [DecidableEq τ] {s t : OrderlyShutdown τ}

/-- The calls whose messages the connection has, and those whose tasks wait. -/
def known (s : OrderlyShutdown τ) : List Sent := s.stream ++ s.pending

/-- The calls are told apart by their numbers, and no call that was accepted or whose task
was pushed is forgotten. -/
structure Recorded (s : OrderlyShutdown τ) : Prop where
  nodup : s.known.Nodup
  numbered : ∀ x ∈ s.known, x.id < s.sends
  accepted : s.accepted ⊆ s.known
  pushed : ∀ u x, s.senders u = .pushed x → x ∈ s.known

/-- What every step keeps. -/
structure Inv (s : OrderlyShutdown τ) : Prop where
  ev : s.ev.Inv
  serving : s.loop.conn.Serving s.asked
  carried : (streamBytes s.stream).Sublist s.loop.conn.fifo.history
  made : .shutdownWrite ∈ s.loop.conn.log → s.asked = true
  record : s.Recorded

/-- What a step does; `makes` says whether it makes the half-close. -/
structure Goes (s t : OrderlyShutdown τ) (makes : Bool) : Prop where
  inv : t.Inv
  grows : s.loop.conn.log <+: t.loop.conn.log
  half : TcpConnection.HalfClosing s.loop.conn t.loop.conn makes
  stream : s.stream <+: t.stream
  accepted : s.asked = true → t.accepted = s.accepted
  calls : makes = true → t.stream = s.stream ∧ t.accepted = s.accepted

omit [DecidableEq τ] in
/-- What has been written before the half-close stays so. -/
theorem Goes.delivered {makes : Bool} (hg : Goes s t makes)
    (hmade : .shutdownWrite ∈ s.loop.conn.log) {x : Sent} (hx : s.Delivered x) :
    t.Delivered x := by
  obtain ⟨hmem, hsub⟩ := hx
  obtain ⟨more, hmore⟩ := hg.stream
  rw [Delivered, ← hmore, through_append hmem,
    TcpConnection.beforeHalfClose_of_made hmade hg.grows]
  exact ⟨List.mem_append_left _ hmem, hsub⟩

omit [DecidableEq τ] in
/-- When the half-close is made with an empty output, the calls in the stream are delivered. -/
theorem delivered_of_last (h : t.Inv) {pre : List Effect}
    (hlog : t.loop.conn.log = pre ++ [.shutdownWrite]) (hpre : .shutdownWrite ∉ pre)
    (hout : t.loop.conn.outBuf = []) {x : Sent} (hx : x ∈ t.stream) : t.Delivered x := by
  refine ⟨hx, (streamBytes_through _ _).sublist.trans ?_⟩
  rw [TcpConnection.beforeHalfClose_of_last hlog hpre]
  have hcarried : (streamBytes t.stream).Sublist (t.loop.conn.kernel ++ t.loop.conn.outBuf) :=
    h.carried
  rwa [hout, List.append_nil] at hcarried

omit [DecidableEq τ] in
/-- A step loses an accepted message exactly when it makes the half-close while one waits. -/
theorem Goes.losesNone_iff {makes : Bool} (h : s.Inv) (hg : Goes s t makes) (hs : s.LosesNone) :
    t.LosesNone ↔ (makes = true → ¬ s.Waiting) := by
  cases hg.half with
  | no hmade =>
      refine iff_of_true (fun hlog x hx => ?_) (by simp)
      have hbefore := hmade.mp hlog
      rw [hg.accepted (h.made hbefore)] at hx
      exact (hs hbefore x hx).imp_right (hg.delivered hbefore)
  | yes pre hlog hpre hout =>
      obtain ⟨hstream, haccepted⟩ := hg.calls rfl
      have hmade : .shutdownWrite ∈ t.loop.conn.log := by simp [hlog]
      rw [LosesNone, haccepted]
      constructor
      · -- a waiting message is not in the stream
        rintro ht - ⟨x, hx, hwaits, hne⟩
        have hmem := ((ht hmade x hx).resolve_left hne).1
        rw [hstream] at hmem
        exact List.disjoint_of_nodup_append h.record.nodup hmem hwaits
      · intro hnone _ x hx
        by_cases hbefore : .shutdownWrite ∈ s.loop.conn.log
        · exact (hs hbefore x hx).imp_right (hg.delivered hbefore)
        · rcases List.mem_append.mp (h.record.accepted hx) with hmem | hwaits
          · exact Or.inr (delivered_of_last hg.inv hlog (mt hpre.mp hbefore) hout (hstream ▸ hmem))
          · refine Or.inl ?_
            by_contra hne
            exact hnone rfl ⟨x, hx, hwaits, hne⟩

/-! ## Steps -/

omit [DecidableEq τ] in
/-- The connection runs a piece of code that puts the messages of `xs` into its output. -/
theorem goes_of_piece (xs : List Sent) {makes : Bool} (h : s.Inv) (hev : t.ev.Inv)
    (hrecord : t.Recorded)
    (hp : TcpConnection.Piece s.loop.conn t.loop.conn t.asked (streamBytes xs) makes)
    (hstream : t.stream = s.stream ++ xs) (hasked : s.asked = true → t.asked = true)
    (haccepted : s.asked = true → t.accepted = s.accepted)
    (hmakes : makes = true → t.asked = true ∧ xs = [] ∧ t.accepted = s.accepted) :
    Goes s t makes where
  inv := by
    refine ⟨hev, hp.serving, ?_, fun hmade => ?_, hrecord⟩
    · rw [hstream, streamBytes_append, hp.history]
      exact h.carried.append_right _
    · cases hp.half with
      | no hiff => exact hasked (h.made (hiff.mp hmade))
      | yes => exact (hmakes rfl).1
  grows := hp.grows
  half := hp.half
  stream := ⟨xs, hstream.symm⟩
  accepted := haccepted
  calls := fun hm => ⟨by rw [hstream, (hmakes hm).2.1, List.append_nil], (hmakes hm).2.2⟩

omit [DecidableEq τ] in
/-- The same calls are known after a step. -/
theorem Recorded.of_eq (h : s.Recorded) (hknown : t.known = s.known) (hsends : t.sends = s.sends)
    (haccepted : ∀ x ∈ t.accepted, x ∈ s.accepted ∨ ∃ u, s.senders u = .pushed x)
    (hpushed : ∀ u x, t.senders u = .pushed x → s.senders u = .pushed x) : t.Recorded where
  nodup := hknown ▸ h.nodup
  numbered := by
    rw [hknown, hsends]
    exact h.numbered
  accepted := by
    intro x hx
    rw [hknown]
    exact (haccepted x hx).elim (fun hacc => h.accepted hacc) fun ⟨u, hu⟩ => h.pushed u x hu
  pushed := by
    intro u x hu
    rw [hknown]
    exact h.pushed u x (hpushed u x hu)

omit [DecidableEq τ] in
/-- One call more is known after a step. -/
theorem Recorded.add (h : s.Recorded) (msg : Message)
    (hknown : t.known.Perm (⟨s.sends, msg⟩ :: s.known)) (hsends : t.sends = s.sends + 1)
    (haccepted : t.accepted ⊆ ⟨s.sends, msg⟩ :: s.accepted)
    (hpushed : ∀ u x, t.senders u = .pushed x → x = ⟨s.sends, msg⟩ ∨ s.senders u = .pushed x) :
    t.Recorded where
  nodup := by
    rw [hknown.nodup_iff, List.nodup_cons]
    exact ⟨fun hmem => lt_irrefl _ (h.numbered _ hmem), h.nodup⟩
  numbered := by
    intro x hx
    rw [hsends]
    rcases List.mem_cons.mp (hknown.mem_iff.mp hx) with rfl | hold
    · exact Nat.lt_succ_self _
    · exact Nat.lt_succ_of_lt (h.numbered x hold)
  accepted := by
    intro x hx
    rw [hknown.mem_iff]
    exact List.cons_subset_cons _ h.accepted (haccepted hx)
  pushed := by
    intro u x hu
    rw [hknown.mem_iff, List.mem_cons]
    exact (hpushed u x hu).imp_right (h.pushed u x)

omit [DecidableEq τ] in
/-- A step that leaves the connection and its calls alone. -/
theorem goes_of_same (h : s.Inv) (hev : t.ev.Inv) (hrecord : t.Recorded)
    (hloop : t.loop.conn = s.loop.conn) (hstream : t.stream = s.stream) (hasked : t.asked = s.asked)
    (haccepted : s.asked = true → t.accepted = s.accepted) : Goes s t false := by
  refine goes_of_piece [] h hev hrecord ?_ (by simp [hstream]) (fun ha => by rwa [hasked])
    haccepted (fun hm => by cases hm)
  rw [hloop, hasked]
  exact h.serving.refl

/-- What waits after a step of the loop other than a call. -/
theorem pending_of_step {ev : EventLoop Job τ} {op : LoopOp Job τ} (h : s.ev.Inv)
    (hop : op ≠ .call) (hstep : s.ev.step op = some ev) :
    pending { s with ev := ev } = s.pending ++ (op.pushes.bind Job.sent).toList := by
  rw [pending, EventLoop.waiting_of_step h hop hstep, List.filterMap_append]
  cases op.pushes with
  | none => rfl
  | some job => cases job <;> rfl

omit [DecidableEq τ] in
/-- A step of the loop that does not involve the connection is no call and pushes none of its
tasks. -/
theorem pushes_of_foreign {op : LoopOp Job τ} (h : s.foreign op = true) :
    op ≠ .call ∧ op.pushes.bind Job.sent = none := by
  cases op with
  | call => cases h
  | pushLocal job | push u job =>
      simp only [foreign, Bool.and_eq_true, beq_iff_eq] at h
      obtain ⟨rfl, -⟩ := h
      exact ⟨by simp, rfl⟩
  | _ => exact ⟨by simp, rfl⟩

theorem goes_ev {ev : EventLoop Job τ} {op : LoopOp Job τ} (h : s.Inv) (hop : s.foreign op = true)
    (hstep : s.ev.step op = some ev) : Goes s { s with ev := ev } false := by
  obtain ⟨hcall, hpush⟩ := pushes_of_foreign hop
  have hpending : pending { s with ev := ev } = s.pending := by
    rw [pending_of_step h.ev hcall hstep, hpush]
    exact List.append_nil _
  refine goes_of_same h (EventLoop.inv_step h.ev hstep) ?_ rfl rfl rfl fun _ => rfl
  exact h.record.of_eq (by rw [known, known, hpending]) rfl (fun _ => Or.inl) fun _ _ => id

/-- The poller reports the connection. -/
theorem goes_poll {ev : EventLoop Job τ} {loop : LoopThread} {revents : BitVec 32} (h : s.Inv)
    (hev : s.ev.step .pollReturns = some ev) (hloop : s.loop.step (.poll revents) = some loop) :
    Goes s { s with ev := ev, loop := loop } false := by
  have hpending : pending { s with ev := ev, loop := loop } = s.pending := by
    have hsame := pending_of_step h.ev (by simp) hev
    exact hsame.trans (List.append_nil _)
  have hp := LoopThread.piece_of_step h.serving rfl rfl hloop
  rw [show (s.asked || HalfClose.asks (.poll revents)) = s.asked from Bool.or_false _] at hp
  refine goes_of_piece [] h (EventLoop.inv_step h.ev hev) ?_ hp
    (List.append_nil _).symm id (fun _ => rfl) (fun hm => by cases hm)
  exact h.record.of_eq (by rw [known, known, hpending]) rfl (fun _ => Or.inl) fun _ _ => id

omit [DecidableEq τ] in
/-- A half-close is made after `shutdown()` has been called. -/
theorem asked_of_halfCloses {m : Move} (h : s.Inv) (hm : s.loop.halfCloses m = true) :
    (s.asked || HalfClose.asks m) = true := by
  cases m with
  | shutdown => exact Bool.or_true _
  | proceed n r =>
      simp only [LoopThread.halfCloses, Bool.and_eq_true, beq_iff_eq] at hm
      have hstate := h.serving.state
      rw [hm.2.1] at hstate
      cases hasked : s.asked with
      | true => rfl
      | false =>
          rw [hasked] at hstate
          cases hstate
  | _ => cases hm

omit [DecidableEq τ] in
/-- `send` on the loop thread: its message is in the output when it returns. -/
theorem goes_send {loop : LoopThread} {msg : Message} {r : WriteResult} (h : s.Inv)
    (hrefused : (Move.send msg r).refused = false) (hstep : s.loop.step (.send msg r) = some loop) :
    Goes s { s.called (.send msg r) with loop := loop } false := by
  have hp := LoopThread.piece_of_step h.serving rfl hrefused hstep
  rw [show (s.asked || HalfClose.asks (.send msg r)) = s.asked from Bool.or_false _,
    LoopThread.sends] at hp
  by_cases hstate : s.loop.conn.state = .connected
  · have hasked : s.asked = false := by
      have hs := h.serving.state
      rw [hstate] at hs
      cases ha : s.asked with
      | false => rfl
      | true =>
          rw [ha] at hs
          cases hs
    rw [if_neg (not_not.mpr hstate)] at hp
    rw [called, if_neg (not_not.mpr hstate), accept, if_neg (by simp [hasked])]
    refine goes_of_piece [⟨s.sends, msg⟩] h h.ev ?_ ?_ rfl id (fun ha => ?_)
      (fun hm => by cases hm)
    · refine h.record.add msg ?_ rfl ?_ fun _ _ => Or.inr
      · show (s.stream ++ [(⟨s.sends, msg⟩ : Sent)] ++ s.pending).Perm _
        rw [List.append_assoc]
        exact List.perm_middle
      · exact (List.perm_append_singleton _ _).subset
    · rw [streamBytes, List.flatMap_singleton]
      exact hp
    · rw [hasked] at ha
      cases ha
  · rw [if_pos hstate] at hp
    rw [called, if_pos hstate]
    refine goes_of_piece [] h h.ev ?_ hp (List.append_nil _).symm id (fun _ => rfl)
      (fun hm => by cases hm)
    exact h.record.of_eq rfl rfl (fun _ => Or.inl) fun _ _ => id

omit [DecidableEq τ] in
/-- The loop thread runs code of the connection, or user code calls it. -/
theorem goes_move {loop : LoopThread} {m : Move} (h : s.Inv) (hclose : s.loop.closes m = false)
    (hrefused : m.refused = false) (hstep : s.loop.step m = some loop) :
    Goes s { s.called m with loop := loop } (s.loop.halfCloses m) := by
  have hp := LoopThread.piece_of_step h.serving hclose hrefused hstep
  have hmakes := asked_of_halfCloses (m := m) h
  cases m with
  | send msg r => exact goes_send h hrefused hstep
  | close => cases hclose
  | shutdown =>
      rw [show (s.asked || HalfClose.asks .shutdown) = true from Bool.or_true _] at hp
      refine goes_of_piece [] h h.ev ?_ hp (List.append_nil _).symm (fun _ => rfl)
        (fun _ => rfl) fun _ => ⟨rfl, rfl, rfl⟩
      exact h.record.of_eq rfl rfl (fun _ => Or.inl) fun _ _ => id
  | poll | proceed =>
      simp only [HalfClose.asks, Bool.or_false] at hp hmakes
      refine goes_of_piece [] h h.ev ?_ hp (List.append_nil _).symm id (fun _ => rfl)
        fun hm => ⟨hmakes hm, rfl, rfl⟩
      exact h.record.of_eq rfl rfl (fun _ => Or.inl) fun _ _ => id

omit [DecidableEq τ] in
/-- Consumed bytes come back to an output that is not empty. -/
theorem goes_refill (h : s.Inv) (hout : s.loop.conn.outBuf ≠ []) (stale : List UInt8) :
    Goes s { s with
      loop := { s.loop with conn := s.loop.conn.setOutBuf (stale ++ s.loop.conn.outBuf) } }
      false where
  inv := by
    refine ⟨h.ev, ⟨h.serving.registered, h.serving.running, h.serving.state, ?_⟩, ?_, h.made,
      h.record.of_eq rfl rfl (fun _ => Or.inl) fun _ _ => id⟩
    · exact iff_of_true (h.serving.writing_iff.mpr hout) (by simp [TcpConnection.setOutBuf, hout])
    · refine h.carried.trans ?_
      show (s.loop.conn.kernel ++ s.loop.conn.outBuf).Sublist
        (s.loop.conn.kernel ++ (stale ++ s.loop.conn.outBuf))
      exact (List.sublist_append_right _ _).append_left _
  grows := List.prefix_rfl
  half := .no Iff.rfl
  stream := List.prefix_rfl
  accepted := fun _ => rfl
  calls := fun hm => by cases hm

/-- The loop calls a queued function: a task puts its message into the output. -/
theorem goes_run {ev : EventLoop Job τ} {job : Job} {k : ℕ} (h : s.Inv)
    (hjob : s.ev.batch.head? = some job) (hstep : s.ev.step .call = some ev) :
    Goes s { s.run k job with ev := ev } false := by
  obtain ⟨f, hbatch, hqueue⟩ := EventLoop.batch_of_call hstep
  obtain rfl : f = job := by
    rw [hbatch] at hjob
    exact Option.some.inj hjob
  have hpending : s.pending = f.sent.toList ++ pending { s with ev := ev } := by
    rw [pending, pending, hbatch, hqueue, List.cons_append, List.filterMap_cons]
    cases f <;> rfl
  have hev := EventLoop.inv_step h.ev hstep
  cases f with
  | other =>
      refine goes_of_same h hev ?_ rfl rfl rfl fun _ => rfl
      exact h.record.of_eq (by rw [known, known, hpending]; rfl) rfl (fun _ => Or.inl) fun _ _ => id
  | sendTask x =>
      refine goes_of_piece [x] h hev ?_ ?_ rfl id (fun _ => rfl) (fun hm => by cases hm)
      · refine h.record.of_eq ?_ rfl (fun _ => Or.inl) fun _ _ => id
        rw [known, known, hpending]
        exact List.append_assoc _ _ _
      · rw [streamBytes, List.flatMap_singleton]
        exact h.serving.sendTask x.msg k

/-- A push: the task of a new call waits. -/
theorem goes_push {ev : EventLoop Job τ} {u : τ} {msg : Message} (h : s.Inv)
    (hstep : s.ev.step (.push u (.sendTask ⟨s.sends, msg⟩)) = some ev) :
    Goes s { s.setSender u (.pushed ⟨s.sends, msg⟩) with ev := ev, sends := s.sends + 1 }
      false := by
  refine goes_of_same h (EventLoop.inv_step h.ev hstep) ?_ rfl rfl rfl fun _ => rfl
  refine h.record.add msg ?_ rfl (List.subset_cons_self _ _) fun v x hv => ?_
  · have hpending := pending_of_step h.ev (by simp) hstep
    show (s.stream ++ pending { s with ev := ev }).Perm _
    rw [hpending, ← List.append_assoc]
    exact List.perm_append_singleton _ _
  · replace hv : Function.update s.senders u (.pushed ⟨s.sends, msg⟩) v = .pushed x := hv
    by_cases hvu : v = u
    · subst hvu
      rw [Function.update_self, Sender.pushed.injEq] at hv
      exact Or.inl hv.symm
    · rw [Function.update_of_ne hvu] at hv
      exact Or.inr hv

/-- The place of a thread changes to one that is not behind a push. -/
theorem pushed_of_setSender {u v : τ} {sender : Sender} {x : Sent}
    (hsender : ∀ y, sender ≠ .pushed y) (hv : (s.setSender u sender).senders v = .pushed x) :
    s.senders v = .pushed x := by
  replace hv : Function.update s.senders u sender v = .pushed x := hv
  by_cases hvu : v = u
  · subst hvu
    rw [Function.update_self] at hv
    exact absurd hv (hsender x)
  · rwa [Function.update_of_ne hvu] at hv

/-- The call returns: it is accepted when `shutdown()` has not been called yet. -/
theorem goes_returns {ev : EventLoop Job τ} {u : τ} {x : Sent} (h : s.Inv)
    (hu : s.senders u = .pushed x) (hstep : s.ev.step (.wakeup u) = some ev) :
    Goes s { (s.setSender u .idle).accept x with ev := ev } false := by
  have hpending : pending { s with ev := ev } = s.pending := by
    rw [pending_of_step h.ev (by simp) hstep]
    exact List.append_nil _
  have hknown : known { s with ev := ev } = s.known := by rw [known, known, hpending]
  have hev := EventLoop.inv_step h.ev hstep
  rw [accept]
  split
  · refine goes_of_same h hev ?_ rfl rfl rfl fun _ => rfl
    exact h.record.of_eq hknown rfl (fun _ => Or.inl) fun _ _ => pushed_of_setSender (by simp)
  · rename_i hasked
    refine goes_of_same h hev ?_ rfl rfl rfl fun ha => absurd ha hasked
    refine h.record.of_eq hknown rfl (fun y hy => ?_) fun _ _ => pushed_of_setSender (by simp)
    rcases List.mem_append.mp hy with hold | hnew
    · exact Or.inl hold
    · exact Or.inr ⟨u, List.mem_singleton.mp hnew ▸ hu⟩

/-- What one step does. -/
theorem goes_of_step {op : ShutdownOp τ} (h : s.Inv) (hstep : s.step op = some t) :
    Goes s t (s.halfCloses op) := by
  unfold step at hstep
  rw [if_neg (by simp [h.serving.running])] at hstep
  cases op with
  | loop op =>
      simp only [Option.ite_none_right_eq_some, Option.map_eq_some_iff] at hstep
      obtain ⟨hop, ev, hev, rfl⟩ := hstep
      exact goes_ev h hop hev
  | poll revents =>
      simp only [Option.bind_eq_some_iff, Option.map_eq_some_iff] at hstep
      obtain ⟨ev, hev, loop, hloop, rfl⟩ := hstep
      exact goes_poll h hev hloop
  | move m =>
      simp only [Option.ite_none_right_eq_some, Option.map_eq_some_iff] at hstep
      obtain ⟨⟨-, -, hclose, hrefused⟩, loop, hloop, rfl⟩ := hstep
      exact goes_move h hclose hrefused hloop
  | refill stale =>
      simp only [Option.ite_none_left_eq_some, Option.some.injEq] at hstep
      obtain ⟨hout, rfl⟩ := hstep
      exact goes_refill h hout stale
  | runTask k =>
      simp only [Option.ite_none_right_eq_some, Option.bind_eq_some_iff,
        Option.map_eq_some_iff] at hstep
      obtain ⟨-, job, hjob, ev, hev, rfl⟩ := hstep
      exact goes_run h hjob hev
  | start u msg =>
      simp only [Option.ite_none_right_eq_some, Option.some.injEq] at hstep
      obtain ⟨-, rfl⟩ := hstep
      split
      · exact goes_of_same h h.ev h.record rfl rfl rfl fun _ => rfl
      · refine goes_of_same h h.ev ?_ rfl rfl rfl fun _ => rfl
        exact h.record.of_eq rfl rfl (fun _ => Or.inl) fun _ _ => pushed_of_setSender (by simp)
  | push u =>
      simp only at hstep
      split at hstep
      · rw [Option.map_eq_some_iff] at hstep
        obtain ⟨ev, hev, rfl⟩ := hstep
        exact goes_push h hev
      · cases hstep
  | returns u =>
      simp only at hstep
      split at hstep
      · rename_i x hu
        rw [Option.map_eq_some_iff] at hstep
        obtain ⟨ev, hev, rfl⟩ := hstep
        exact goes_returns h hu hev
      · cases hstep

/-! ## Runs -/

omit [DecidableEq τ] in
theorem inv_init (asserts : Bool) (fd : ℤ) (pc : LoopPc) :
    Inv (init asserts fd pc : OrderlyShutdown τ) where
  ev := ⟨rfl, rfl, Nat.le_refl _, fun _ => rfl, rfl, fun hq => absurd rfl hq⟩
  serving := by
    have hrunning := HalfClose.running_init asserts fd
    exact ⟨hrunning.registered, hrunning.running, hrunning.state, hrunning.discipline.writing_iff⟩
  carried := List.nil_sublist _
  made := fun hmade => by
    have hrunning := HalfClose.running_init asserts fd
    exact absurd rfl ((hrunning.discipline.made_iff.mp hmade).1.symm ▸ Bool.false_ne_true)
  record :=
    { nodup := List.nodup_nil
      numbered := fun _ hx => absurd hx List.not_mem_nil
      accepted := List.nil_subset _
      pushed := fun _ _ hu => by cases hu }

/-- Every accepted message is written in full before the half-close in exactly those runs in
which the half-close is made only when none of them waits in the task queue. -/
theorem run_losesNone_iff (asserts : Bool) (fd : ℤ) (pc : LoopPc) (ops : List (ShutdownOp τ)) :
    Runs.Along step LosesNone (init asserts fd pc) ops ↔
      Runs.AllSteps step NoneWaiting (init asserts fd pc) ops :=
  Runs.along_iff_allSteps (J := Inv) (fun _ _ _ h hstep => (goes_of_step h hstep).inv)
    (fun _ _ _ h hs hstep => (goes_of_step h hstep).losesNone_iff h hs) (inv_init asserts fd pc)
    fun _ _ hx => absurd hx List.not_mem_nil

/-- A thread sends two bytes and `send()` returns; then `connCallback_` calls `shutdown()`. -/
theorem not_losesNone_queued :
    ¬ Runs.Along step LosesNone (init true 7 .inFunc : OrderlyShutdown Unit)
      [.start () ⟨[104, 105], by decide⟩, .push (), .returns (), .move .shutdown] := by
  decide

end OrderlyShutdown

end Lotta
