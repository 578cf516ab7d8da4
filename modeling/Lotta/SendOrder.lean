/-
# The order of messages from several threads

`exec` runs a function at once on the loop thread and queues it on another.  A message that
`send` is called with on the loop thread goes past the messages that other threads have
queued, so the stream of the connection is some interleaving of the messages of all threads.
`SendOrder` puts a connection with its real output buffer next to its loop, all its moves and
the threads that call `send`, `shutdown` and `close`.  `calls` records for each thread the
messages of its calls that have gone through (the loop thread is `none`), and `stream` the
messages in the order in which their `sendTask` has run.

`run_ordered` says of every run that each thread's messages are its calls in program order,
those in the stream before those that still wait, and of exactly which runs that the bytes
written and in `outBuf_` are those of the stream, as long as the connection has its socket.
-/
import Lotta.BufferedOutput
import Lotta.CrossThread
import Lotta.Lib.Tagged

namespace Lotta

/-- A queued function with the thread that has pushed it. -/
abbrev TaggedTask (τ : Type*) := Option τ × Task

/-- The message of a queued `sendTask`, with its thread. -/
def TaggedTask.message {τ : Type*} : TaggedTask τ → Option (Option τ × Message)
  | (u, .sendTask msg) => some (u, msg)
  | _ => none

/-- A connection with its loop and the threads that call it. -/
structure SendOrder (τ : Type*) where
  ev : EventLoop (TaggedTask τ) τ
  thread : BufferedThread
  callers : τ → Caller
  calls : Option τ → List Message
  stream : List (Option τ × Message)

/-- The steps: of the loop where they do not involve the connection, of the connection on its
loop thread, of a queued task, and of a thread in a call. -/
inductive SendOp (τ : Type*) where
  | loop (op : LoopOp (TaggedTask τ) τ)
  | poll (revents : BitVec 32)
  | move (m : Move) (slack : ℕ)
  | runTask (r : WriteResult) (slack : ℕ)
  | start (t : τ) (call : Call)
  | advance (t : τ)

namespace SendOrder

variable {τ : Type*} [DecidableEq τ]

/-- The connection in its `connCallback_`, with no task in the queue of its loop. -/
def init (asserts : Bool) (fd : ℤ) (capacity : ℕ) (pc : LoopPc) : SendOrder τ where
  ev := { EventLoop.init with pc := pc, doingFuncQueue := pc.doing }
  thread := BufferedThread.init asserts fd capacity
  callers := fun _ => .idle
  calls := fun _ => []
  stream := []

/-- A step of the loop that does not involve the connection.  The loop thread goes on only
when the connection has nothing to do; user code may run in its callbacks. -/
def foreign (s : SendOrder τ) : LoopOp (TaggedTask τ) τ → Bool
  | .call => false
  | .pushLocal a => a.2 == .other && LoopThread.userRuns s.thread.todo
  | .testWakeup => LoopThread.userRuns s.thread.todo
  | .quitLocal => LoopThread.userRuns s.thread.todo
  | .push t a => a.2 == .other && s.callers t == .idle
  | .wakeup _ => true
  | .quit t => s.callers t == .idle
  | _ => s.thread.todo.isEmpty

/-- The thread `t` is at `caller` in its call. -/
def setCaller (s : SendOrder τ) (t : τ) (caller : Caller) : SendOrder τ :=
  { s with callers := Function.update s.callers t caller }

/-- A store of `state_` on another thread. -/
def setState (s : SendOrder τ) (st : ConnState) : SendOrder τ :=
  { s with thread := ⟨{ s.thread.conn with base := s.thread.conn.base.setState st },
    s.thread.todo⟩ }

/-- A call of `send` by the thread `u` has gone through. -/
def record (s : SendOrder τ) (u : Option τ) (msg : Message) : SendOrder τ :=
  { s with calls := Function.update s.calls u (s.calls u ++ [msg]) }

/-- What a call made by user code on the loop thread adds to the record. -/
def called (s : SendOrder τ) : Move → SendOrder τ
  | .send msg _ =>
      if s.thread.conn.base.state ≠ .connected then s
      else { s.record none msg with stream := s.stream ++ [(none, msg)] }
  | _ => s

/-- Run a queued task. -/
def run (s : SendOrder τ) (r : WriteResult) (slack : ℕ) : TaggedTask τ → SendOrder τ
  | (u, .sendTask msg) =>
      { s with
        thread := ⟨s.thread.conn.sendTask msg r slack, []⟩
        stream := s.stream ++ [(u, msg)] }
  | (_, .shutdownTask) =>
      { s with
        thread := ⟨{ s.thread.conn with base := s.thread.conn.base.shutdownTask }, []⟩ }
  | (_, .closeTask) =>
      let closed := LoopThread.closeTask s.thread.conn.base []
      { s with thread := ⟨{ s.thread.conn with base := closed.conn }, closed.todo⟩ }
  | (_, .other) => s

/-- The first step of a call: `send` and `shutdown` test the state, `close` stores. -/
def startCall (s : SendOrder τ) (t : τ) : Call → SendOrder τ
  | .send msg =>
      if s.thread.conn.base.state ≠ .connected then s else s.setCaller t (.sendTested msg)
  | .shutdown =>
      if s.thread.conn.base.state ≠ .connected then s else s.setCaller t .shutdownTested
  | .close => (s.setState .disconnecting).setCaller t .closeStored

/-- The push at the end of a call. -/
def pushTask (s : SendOrder τ) (t : τ) (task : Task) : Option (SendOrder τ) :=
  (s.ev.step (.push t (some t, task))).map fun ev => { s.setCaller t .idle with ev := ev }

/-- One step of a process that no assertion has stopped. -/
def step (s : SendOrder τ) (op : SendOp τ) : Option (SendOrder τ) :=
  if s.thread.conn.base.aborted then none
  else
    match op with
    | .loop op => if s.foreign op then (s.ev.step op).map fun ev => { s with ev := ev } else none
    | .poll revents =>
        (s.ev.step .pollReturns).bind fun ev =>
          (s.thread.step (.poll revents, 0)).map fun thread =>
            { s with ev := ev, thread := thread }
    | .move m slack =>
        if ConnSystem.runsCode s.ev.pc ∧ m.isPoll = false then
          (s.thread.step (m, slack)).map fun thread => { s.called m with thread := thread }
        else none
    | .runTask r slack =>
        if s.thread.todo.length = 0 then
          s.ev.batch.head?.bind fun task =>
            (s.ev.step .call).map fun ev => { s.run r slack task with ev := ev }
        else none
    | .start t call =>
        if s.callers t = .idle ∧ s.ev.threads t = .idle then some (s.startCall t call) else none
    | .advance t =>
        match s.callers t with
        | .idle => none
        | .sendTested msg => (s.record (some t) msg).pushTask t (.sendTask msg)
        | .shutdownTested => some ((s.setState .disconnecting).setCaller t .shutdownStored)
        | .shutdownStored => s.pushTask t .shutdownTask
        | .closeStored => s.pushTask t .closeTask

/-! ## What is stated -/

/-- The messages whose tasks wait in the batch and in the queue, with their threads. -/
def pending (s : SendOrder τ) : List (Option τ × Message) :=
  (s.ev.batch ++ s.ev.queue).filterMap TaggedTask.message

/-- The messages of each thread are its calls, those in the stream before those that wait. -/
def InProgramOrder (s : SendOrder τ) : Prop :=
  ∀ u, Tagged.itemsOf u s.stream ++ Tagged.itemsOf u s.pending = s.calls u

/-- The bytes of the stream. -/
def streamBytes (s : SendOrder τ) : List UInt8 := s.stream.flatMap fun x => x.2.bytes

/-- While the connection has its socket, the bytes that the kernel has taken and those in
`outBuf_` are the bytes of the stream. -/
def CarriesStream (s : SendOrder τ) : Prop :=
  s.thread.conn.base.socket = true → s.thread.conn.ideal.fifo.history = s.streamBytes

/-- The condition on a step: while the connection has its socket, each `sendTask` that runs
keeps the bytes. -/
def KeepsBytes (s : SendOrder τ) (op : SendOp τ) : Prop :=
  s.thread.conn.base.socket = true →
    match op with
    | .move (.send msg r) _ =>
        s.thread.conn.base.state = .connected → s.thread.conn.KeepsBytes msg r
    | .runTask r _ =>
        ∀ u msg, s.ev.batch.head? = some (u, .sendTask msg) → s.thread.conn.KeepsBytes msg r
    | _ => True

/-- A statement about the message of the next task, if it is a `sendTask`. -/
def decidableOfHead {P : Message → Prop} [DecidablePred P] : (o : Option (TaggedTask τ)) →
    Decidable (∀ u msg, o = some (u, .sendTask msg) → P msg)
  | none => isTrue fun _ _ h => by cases h
  | some (u, .sendTask msg) =>
      decidable_of_iff (P msg) ⟨fun h _ _ heq => by cases heq; exact h, fun h => h u msg rfl⟩
  | some (_, .shutdownTask) => isTrue fun _ _ h => by cases h
  | some (_, .closeTask) => isTrue fun _ _ h => by cases h
  | some (_, .other) => isTrue fun _ _ h => by cases h

omit [DecidableEq τ] in
instance (s : SendOrder τ) : (op : SendOp τ) → Decidable (s.KeepsBytes op)
  | .move (.send _ _) _ => inferInstanceAs (Decidable (_ → _ → _))
  | .runTask r _ =>
      have := decidableOfHead (P := fun msg => s.thread.conn.KeepsBytes msg r) s.ev.batch.head?
      inferInstanceAs (Decidable (_ → _))
  | .move (.poll _) _ | .move (.proceed _ _) _ | .move .shutdown _ | .move .close _
  | .loop _ | .poll _ | .start _ _ | .advance _ => isTrue fun _ => trivial

end SendOrder

/-! ## What keeps the socket -/

/-- A move other than a send in `Connected` adds no bytes and brings no socket back. -/
theorem BufferedThread.still_of_step {s t : BufferedThread} {op : Move × ℕ}
    (h : s.step op = some t)
    (hsend : ∀ msg r, op.1 = .send msg r → s.conn.base.state ≠ .connected) :
    s.conn.ideal.fifo.Served t.conn.ideal.fifo ∧
      (t.conn.base.socket = true → s.conn.base.socket = true) := by
  cases (moved_of_step h).2 with
  | sent msg r slack huser =>
      have hsame : s.conn.send msg r slack = s.conn := if_pos (hsend msg r rfl)
      simp only [hsame]
      exact ⟨.of_eq rfl, id⟩
  | wrote n r slack rest c htodo hevent hc =>
      have hwrite := BufferedConnection.ideal_handleWrite s.conn r
      rw [hc, Option.map_some, Option.some.injEq] at hwrite
      have hsocket : c.ideal.socket = s.conn.ideal.socket := by
        rw [hwrite]
        exact TcpConnection.socket_handleWrite _ r
      refine ⟨?_, fun hc => hsocket.symm.trans hc⟩
      rw [hwrite]
      exact (TcpConnection.handleWrite_frame s.conn.ideal r).1
  | elsewhere m slack t hmove hideal hout =>
      exact ⟨LoopThread.served_of_step hmove hideal, LoopThread.socket_of_step hideal⟩

theorem BufferedThread.socket_of_reads {s t : BufferedThread} {n : ℤ} {r : WriteResult}
    {slack : ℕ} (hreads : s.reads = true) (h : s.step (.proceed n r, slack) = some t) :
    t.conn.base.socket = s.conn.base.socket := by
  cases (moved_of_step h).2 with
  | wrote n r slack rest c htodo hevent hc =>
      obtain ⟨_, hread, -⟩ := LoopThread.exists_of_reads hreads
      cases hread.symm.trans htodo
  | elsewhere m slack t hmove hideal hout =>
      have hideal' : s.ideal.reads = true := hreads
      exact LoopThread.socket_of_reads hideal' hideal

namespace SendOrder

variable {τ : Type*} [DecidableEq τ] {s t : SendOrder τ}

/-! ## Steps -/

/-- What every step keeps, whether bytes are lost or not. -/
structure Inv (s : SendOrder τ) : Prop where
  ev : EventLoop.Inv s.ev
  order : ∀ u, Tagged.itemsOf u (s.stream ++ s.pending) = s.calls u
  direct : Tagged.itemsOf none s.pending = []
  wf : s.thread.conn.outBuf.Wf

/-- A `sendTask` runs. -/
structure SendsTask (s t : SendOrder τ) (u : Option τ) (msg : Message) (r : WriteResult)
    (slack : ℕ) : Prop where
  conn : t.thread.conn = s.thread.conn.sendTask msg r slack
  stream : t.stream = s.stream ++ [(u, msg)]

/-- No `sendTask` runs: no bytes are added, and a socket that is gone stays so. -/
structure Still (s t : SendOrder τ) : Prop where
  fifo : s.thread.conn.ideal.fifo.Served t.thread.conn.ideal.fifo
  socket : t.thread.conn.base.socket = true → s.thread.conn.base.socket = true
  stream : t.stream = s.stream

/-- The messages that wait after a step of the loop other than a call. -/
theorem pending_of_step {ev : EventLoop (TaggedTask τ) τ} {op : LoopOp (TaggedTask τ) τ}
    (h : s.Inv) (hop : op ≠ .call) (hstep : s.ev.step op = some ev) :
    pending { s with ev := ev } = s.pending ++ op.pushes.toList.filterMap TaggedTask.message := by
  unfold pending
  rw [EventLoop.waiting_of_step h.ev hop hstep, List.filterMap_append]

/-- A call takes the first function of the batch; its message, if any, waited first. -/
theorem pending_of_call {ev : EventLoop (TaggedTask τ) τ} {task : TaggedTask τ}
    (htask : s.ev.batch.head? = some task) (hstep : s.ev.step .call = some ev) :
    s.pending = (TaggedTask.message task).toList ++ pending { s with ev := ev } := by
  obtain ⟨f, hbatch, hqueue⟩ := EventLoop.batch_of_call hstep
  obtain rfl : f = task := by
    rw [hbatch] at htask
    exact Option.some.inj htask
  unfold pending
  rw [hbatch, hqueue, List.cons_append, List.filterMap_cons]
  cases TaggedTask.message f <;> rfl

omit [DecidableEq τ] in
/-- A foreign step of the loop is no call and pushes no message. -/
theorem message_of_foreign {op : LoopOp (TaggedTask τ) τ} (hop : s.foreign op = true) :
    op ≠ .call ∧ op.pushes.toList.filterMap TaggedTask.message = [] := by
  have hother : ∀ a : TaggedTask τ, a.2 = .other → TaggedTask.message a = none := by
    rintro ⟨u, task⟩ rfl
    rfl
  cases op with
  | call => cases hop
  | pushLocal a =>
      simp only [foreign, Bool.and_eq_true, beq_iff_eq] at hop
      exact ⟨by simp, by simp [LoopOp.pushes, hother a hop.1]⟩
  | push u a =>
      simp only [foreign, Bool.and_eq_true, beq_iff_eq] at hop
      exact ⟨by simp, by simp [LoopOp.pushes, hother a hop.1]⟩
  | _ => exact ⟨by simp, rfl⟩

/-- Steps that leave the record of the messages alone keep it. -/
theorem Inv.of_same (h : s.Inv) (hev : EventLoop.Inv t.ev) (hwf : t.thread.conn.outBuf.Wf)
    (hcalls : t.calls = s.calls) (hstream : t.stream = s.stream)
    (hpending : t.pending = s.pending) : t.Inv where
  ev := hev
  order := by
    rw [hcalls, hstream, hpending]
    exact h.order
  direct := by
    rw [hpending]
    exact h.direct
  wf := hwf

/-- What a step does to the bytes: either no `sendTask` runs, or one does and the condition on
the step is that it keeps the bytes. -/
inductive Goes (s : SendOrder τ) (op : SendOp τ) (t : SendOrder τ) : Prop where
  | still (h : Still s t) (hok : s.KeepsBytes op)
  | sent (u : Option τ) (msg : Message) (r : WriteResult) (slack : ℕ)
      (h : SendsTask s t u msg r slack)
      (hok : s.KeepsBytes op ↔
        (s.thread.conn.base.socket = true → s.thread.conn.KeepsBytes msg r))

/-- The poller reports the connection. -/
theorem goes_poll {ev : EventLoop (TaggedTask τ) τ} {thread : BufferedThread}
    {revents : BitVec 32} (h : s.Inv) (hev : s.ev.step .pollReturns = some ev)
    (hthread : s.thread.step (.poll revents, 0) = some thread) :
    Inv { s with ev := ev, thread := thread } ∧
      Goes s (.poll revents) { s with ev := ev, thread := thread } := by
  obtain ⟨hserved, hsocket⟩ := BufferedThread.still_of_step hthread (fun _ _ hm => by cases hm)
  refine ⟨h.of_same (EventLoop.inv_step h.ev hev) (BufferedThread.wf_step h.wf hthread) rfl rfl ?_,
    .still ⟨hserved, hsocket, rfl⟩ fun _ => trivial⟩
  exact (pending_of_step h (by simp) hev).trans (List.append_nil _)

/-- The loop thread runs code of the connection, or user code calls it. -/
theorem goes_move {thread : BufferedThread} {m : Move} {slack : ℕ} (h : s.Inv)
    (hthread : s.thread.step (m, slack) = some thread) :
    Inv { s.called m with thread := thread } ∧
      Goes s (.move m slack) { s.called m with thread := thread } := by
  have hwf := BufferedThread.wf_step h.wf hthread
  by_cases hsend : ∃ msg r, m = .send msg r ∧ s.thread.conn.base.state = .connected
  · obtain ⟨msg, r, rfl, hstate⟩ := hsend
    obtain ⟨msg', r', slack', huser⟩ | _ | ⟨_, _, _, hmove⟩ :=
      (BufferedThread.moved_of_step hthread).2
    · have hcalled : s.called (.send msg r) =
          { s.record none msg with stream := s.stream ++ [(none, msg)] } :=
        if_neg (not_not.mpr hstate)
      rw [hcalled]
      refine ⟨⟨h.ev, fun u => ?_, h.direct, hwf⟩, .sent none msg r slack ⟨?_, rfl⟩ ?_⟩
      · -- the loop thread itself has nothing waiting
        have hinsert := Tagged.itemsOf_insert s.stream h.direct msg u
        rw [h.order none, funext h.order] at hinsert
        show Tagged.itemsOf u (s.stream ++ [(none, msg)] ++ s.pending) =
          Function.update s.calls none (s.calls none ++ [msg]) u
        rw [← hinsert, List.append_assoc, List.singleton_append]
      · show s.thread.conn.send msg r slack = _
        rw [BufferedConnection.send, if_neg (not_not.mpr hstate)]
      · exact forall_congr' fun _ => ⟨fun hok => hok hstate, fun hok _ => hok⟩
    · exact absurd rfl (hmove msg r)
  · have hquiet : ∀ msg r, m = .send msg r → s.thread.conn.base.state ≠ .connected :=
      fun msg r hm hstate => hsend ⟨msg, r, hm, hstate⟩
    obtain ⟨hserved, hsocket⟩ := BufferedThread.still_of_step hthread hquiet
    have hcalled : s.called m = s := by
      unfold called
      split
      · rename_i msg r
        rw [if_pos (hquiet msg r rfl)]
      · rfl
    rw [hcalled]
    refine ⟨h.of_same h.ev hwf rfl rfl rfl, .still ⟨hserved, hsocket, rfl⟩ fun _ => ?_⟩
    cases m with
    | send msg r => exact fun hstate => absurd hstate (hquiet msg r rfl)
    | _ => trivial

omit [DecidableEq τ] in
/-- Where the parts of a step that the bytes depend on are the same. -/
theorem Still.of_conn (hbase : t.thread.conn.base.fifo = s.thread.conn.base.fifo)
    (hout : t.thread.conn.outBuf = s.thread.conn.outBuf)
    (hsocket : t.thread.conn.base.socket = s.thread.conn.base.socket)
    (hstream : t.stream = s.stream) : Still s t where
  fifo := by
    have hkernel : t.thread.conn.base.kernel = s.thread.conn.base.kernel :=
      congrArg Fifo.taken hbase
    refine .of_eq ?_
    show (⟨t.thread.conn.base.kernel, t.thread.conn.outBuf.content⟩ : Fifo UInt8) =
      ⟨s.thread.conn.base.kernel, s.thread.conn.outBuf.content⟩
    rw [hkernel, hout]
  socket := hsocket.symm.trans
  stream := hstream

/-- The loop calls a queued function. -/
theorem goes_run {ev : EventLoop (TaggedTask τ) τ} {task : TaggedTask τ} {r : WriteResult}
    {slack : ℕ} (h : s.Inv) (htask : s.ev.batch.head? = some task)
    (hstep : s.ev.step .call = some ev) :
    Inv { s.run r slack task with ev := ev } ∧
      Goes s (.runTask r slack) { s.run r slack task with ev := ev } := by
  have hev := EventLoop.inv_step h.ev hstep
  have hpending := pending_of_call htask hstep
  -- a function that is no `sendTask` adds no message and no bytes
  have hstill : ∀ x : SendOrder τ, TaggedTask.message task = none → x.ev = ev →
      x.calls = s.calls → x.stream = s.stream → x.thread.conn.base.fifo = s.thread.conn.base.fifo →
      x.thread.conn.outBuf = s.thread.conn.outBuf →
      x.thread.conn.base.socket = s.thread.conn.base.socket →
      x.Inv ∧ Goes s (.runTask r slack) x := by
    intro x hmessage hx hcalls hstream hfifo hout hsocket
    rw [hmessage] at hpending
    have hsame : x.pending = s.pending := by
      rw [hpending, pending, hx]
      rfl
    refine ⟨h.of_same (hx ▸ hev) (hout ▸ h.wf) hcalls hstream hsame,
      .still (.of_conn hfifo hout hsocket hstream) fun _ u msg hhead => ?_⟩
    rw [htask, Option.some.injEq] at hhead
    rw [hhead] at hmessage
    cases hmessage
  obtain ⟨u, task⟩ := task
  cases task with
  | sendTask msg =>
      refine ⟨⟨hev, fun v => ?_, ?_, BufferedConnection.wf_sendTask msg r h.wf slack⟩,
        .sent u msg r slack ⟨rfl, rfl⟩ ?_⟩
      · refine Eq.trans ?_ (h.order v)
        rw [hpending]
        exact congrArg (Tagged.itemsOf v) (List.append_assoc _ _ _)
      · have hdirect := h.direct
        rw [hpending, Tagged.itemsOf_append, List.append_eq_nil_iff] at hdirect
        exact hdirect.2
      · refine forall_congr' fun _ => ⟨fun hok => hok u msg htask, fun hok v msg' hhead => ?_⟩
        rw [htask, Option.some.injEq, Prod.mk.injEq, Task.sendTask.injEq] at hhead
        rwa [← hhead.2]
  | shutdownTask =>
      exact hstill _ rfl rfl rfl rfl
        (TcpConnection.fifo_of_frame (TcpConnection.frame_shutdownTask _)) rfl
        (TcpConnection.socket_shutdownTask _)
  | closeTask =>
      exact hstill _ rfl rfl rfl rfl (LoopThread.fifo_handleClose _ [.resetSocket]) rfl
        (LoopThread.socket_handleClose _ [.resetSocket])
  | other => exact hstill _ rfl rfl rfl rfl rfl rfl rfl

/-- A thread pushes its task: the message of a `sendTask` waits behind all its earlier ones. -/
theorem goes_push {ev : EventLoop (TaggedTask τ) τ} {u : τ} {msg : Message} (h : s.Inv)
    (hstep : s.ev.step (.push u (some u, .sendTask msg)) = some ev) :
    Inv { (s.record (some u) msg).setCaller u .idle with ev := ev } := by
  have hpending : pending { s with ev := ev } = s.pending ++ [(some u, msg)] :=
    pending_of_step h (by simp) hstep
  refine ⟨EventLoop.inv_step h.ev hstep, fun v => ?_, ?_, h.wf⟩
  · have hinsert := Tagged.itemsOf_insert (s.stream ++ s.pending)
      (Tagged.itemsOf_nil (some u)) msg v
    rw [List.append_nil, h.order (some u), funext h.order] at hinsert
    show Tagged.itemsOf v (s.stream ++ pending { s with ev := ev }) =
      Function.update s.calls (some u) (s.calls (some u) ++ [msg]) v
    rw [hpending, ← List.append_assoc, hinsert]
  · show Tagged.itemsOf none (pending { s with ev := ev }) = []
    rw [hpending, Tagged.itemsOf_append, h.direct, List.nil_append,
      Tagged.itemsOf_cons_of_ne (by simp), Tagged.itemsOf_nil]

/-- A thread pushes a task without a message. -/
theorem inv_push {x : SendOrder τ} {u : τ} {task : Task}
    (hmessage : TaggedTask.message (some u, task) = none) (h : s.Inv)
    (hstep : s.pushTask u task = some x) : x.Inv ∧ Still s x := by
  unfold pushTask at hstep
  rw [Option.map_eq_some_iff] at hstep
  obtain ⟨ev, hev, rfl⟩ := hstep
  refine ⟨h.of_same (EventLoop.inv_step h.ev hev) h.wf rfl rfl ?_, .of_eq rfl, id, rfl⟩
  refine (pending_of_step h (by simp) hev).trans ?_
  simp [LoopOp.pushes, hmessage]

/-- What one step does. -/
theorem goes_of_step {op : SendOp τ} (h : s.Inv) (hstep : s.step op = some t) :
    t.Inv ∧ Goes s op t := by
  unfold step at hstep
  split at hstep
  · cases hstep
  · cases op with
    | loop op =>
        simp only [Option.ite_none_right_eq_some, Option.map_eq_some_iff] at hstep
        obtain ⟨hop, ev, hev, rfl⟩ := hstep
        obtain ⟨hcall, hmessage⟩ := message_of_foreign hop
        refine ⟨h.of_same (EventLoop.inv_step h.ev hev) h.wf rfl rfl ?_,
          .still ⟨.of_eq rfl, id, rfl⟩ fun _ => trivial⟩
        rw [pending_of_step h hcall hev, hmessage, List.append_nil]
    | poll revents =>
        simp only [Option.bind_eq_some_iff, Option.map_eq_some_iff] at hstep
        obtain ⟨ev, hev, thread, hthread, rfl⟩ := hstep
        exact goes_poll h hev hthread
    | move m slack =>
        simp only [Option.ite_none_right_eq_some, Option.map_eq_some_iff] at hstep
        obtain ⟨-, thread, hthread, rfl⟩ := hstep
        exact goes_move h hthread
    | runTask r slack =>
        simp only [Option.ite_none_right_eq_some, Option.bind_eq_some_iff,
          Option.map_eq_some_iff] at hstep
        obtain ⟨-, task, htask, ev, hev, rfl⟩ := hstep
        exact goes_run h htask hev
    | start u call =>
        simp only [Option.ite_none_right_eq_some, Option.some.injEq] at hstep
        obtain ⟨-, rfl⟩ := hstep
        cases call with
        | send msg | shutdown =>
            unfold startCall
            simp only
            split
            · exact ⟨h, .still ⟨.of_eq rfl, id, rfl⟩ fun _ => trivial⟩
            · exact ⟨h.of_same h.ev h.wf rfl rfl rfl, .still ⟨.of_eq rfl, id, rfl⟩ fun _ => trivial⟩
        | close =>
            exact ⟨h.of_same h.ev h.wf rfl rfl rfl,
              .still (.of_conn (TcpConnection.fifo_setState _ _) rfl rfl rfl) fun _ => trivial⟩
    | advance u =>
        simp only at hstep
        split at hstep
        · cases hstep
        · simp only [pushTask, Option.map_eq_some_iff] at hstep
          obtain ⟨ev, hev, rfl⟩ := hstep
          exact ⟨goes_push h hev, .still ⟨.of_eq rfl, id, rfl⟩ fun _ => trivial⟩
        · obtain rfl := Option.some.inj hstep
          exact ⟨h.of_same h.ev h.wf rfl rfl rfl,
            .still (.of_conn (TcpConnection.fifo_setState _ _) rfl rfl rfl) fun _ => trivial⟩
        · obtain ⟨hinv, hstill⟩ := inv_push rfl h hstep
          exact ⟨hinv, .still hstill fun _ => trivial⟩
        · obtain ⟨hinv, hstill⟩ := inv_push rfl h hstep
          exact ⟨hinv, .still hstill fun _ => trivial⟩

omit [DecidableEq τ] in
/-- A step keeps the bytes of the stream exactly when it meets the condition. -/
theorem Goes.carriesStream_iff {op : SendOp τ} (hgoes : Goes s op t) (hwf : s.thread.conn.outBuf.Wf)
    (hs : s.CarriesStream) : t.CarriesStream ↔ s.KeepsBytes op := by
  cases hgoes with
  | still h hok =>
      refine iff_of_true (fun hsocket => ?_) hok
      rw [h.fifo.history, hs (h.socket hsocket), streamBytes, streamBytes, h.stream]
  | sent u msg r slack h hok =>
      have hsocket : t.thread.conn.base.socket = s.thread.conn.base.socket := by
        have hideal := congrArg TcpConnection.socket
          (BufferedConnection.ideal_sendTask s.thread.conn msg r slack)
        rw [h.conn]
        exact hideal.trans (TcpConnection.socket_sendTask s.thread.conn.ideal msg r)
      have hbytes : t.streamBytes = s.streamBytes ++ msg.bytes := by
        rw [streamBytes, streamBytes, h.stream, List.flatMap_append, List.flatMap_singleton]
      rw [hok, CarriesStream, hsocket]
      refine forall_congr' fun hopen => ?_
      rw [h.conn, hbytes, ← hs hopen, BufferedConnection.history_sendTask_iff hwf]

/-! ## Runs -/

theorem inv_init (asserts : Bool) (fd : ℤ) (capacity : ℕ) (pc : LoopPc) :
    Inv (init asserts fd capacity pc : SendOrder τ) where
  ev := ⟨rfl, rfl, Nat.le_refl _, fun _ => rfl, rfl, fun hq => absurd rfl hq⟩
  order := fun _ => rfl
  direct := rfl
  wf := Buffer.wf_init capacity

/-- In every run the messages of each thread are its calls in program order, those that have
been written or kept before those that wait.  While the connection has its socket, the bytes
taken by the kernel and those in `outBuf_` are the bytes of the messages whose tasks have run,
message by message, in exactly those runs in which no direct write of a message with content
fails and no append finds the output buffer drained and full. -/
theorem run_ordered (asserts : Bool) (fd : ℤ) (capacity : ℕ) (pc : LoopPc)
    (ops : List (SendOp τ)) :
    Runs.Along step InProgramOrder (init asserts fd capacity pc) ops ∧
      (Runs.Along step CarriesStream (init asserts fd capacity pc) ops ↔
        Runs.AllSteps step KeepsBytes (init asserts fd capacity pc) ops) := by
  constructor
  · refine (Runs.Along.of_invariant (P := Inv)
      (fun _ _ _ h hstep => (goes_of_step h hstep).1) (inv_init asserts fd capacity pc)).mono ?_
    intro s h u
    rw [← h.order u, Tagged.itemsOf_append]
  · refine Runs.along_iff_allSteps (J := Inv) (fun _ _ _ h hstep => (goes_of_step h hstep).1)
      (fun _ _ _ h hs hstep => (goes_of_step h hstep).2.carriesStream_iff h.wf hs)
      (inv_init asserts fd capacity pc) fun _ => ?_
    cases asserts <;> rfl

end SendOrder

end Lotta
