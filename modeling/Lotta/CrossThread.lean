/-
# A connection used from other threads

`send`, `shutdown` and `close` called on another thread test or store `state_` there and
leave the work to a task in the queue of the connection's loop.  `ConnSystem` puts the
parts together: the event loop with its threads, the connection on its loop thread, and
for each thread the call that it is in.  A thread's test of `state_`, its store and its
push are separate steps.

`strayed` records what queued `sendTask` and `shutdownTask` calls do to the descriptor and
to the poller after `handleClose` has run.  Nothing checks the state again when a task
runs, so the condition for `strayed` to stay empty is on the moment of the close: no task
that would use the connection is still to come.
-/
import Lotta.ConnectionEffects
import Lotta.EventLoop
import Mathlib.Data.Fintype.Basic

namespace Lotta

/-- The functions in the queue of the loop: the tasks of the connection, and others. -/
inductive Task where
  | sendTask (msg : Message)
  | shutdownTask
  | closeTask
  | other
  deriving DecidableEq

/-- The calls that another thread makes. -/
inductive Call where
  | send (msg : Message)
  | shutdown
  | close

/-- Where a thread is inside such a call: after the test of `state_`, after the store of
`Disconnecting`, in each case before the push. -/
inductive Caller where
  | idle
  | sendTested (msg : Message)
  | shutdownTested
  | shutdownStored
  | closeStored
  deriving DecidableEq

/-- The task that a thread will still push. -/
def Caller.task : Caller → Option Task
  | .idle => none
  | .sendTested msg => some (.sendTask msg)
  | .shutdownTested => some .shutdownTask
  | .shutdownStored => some .shutdownTask
  | .closeStored => some .closeTask

/-- A task that would use the connection when `outBuf_` holds `out`.  Only the send of an
empty message behind pending output does nothing. -/
def Task.uses (out : List UInt8) : Task → Bool
  | .sendTask msg => !(msg.bytes.isEmpty && !out.isEmpty)
  | .shutdownTask => true
  | .closeTask => false
  | .other => false

/-- The loop, its connection and the threads that call it. -/
structure ConnSystem (τ : Type*) where
  ev : EventLoop Task τ
  loop : LoopThread
  callers : τ → Caller
  strayed : List Effect

/-- The steps: of the loop where they do not involve the connection, of the connection on
its loop thread, of a queued task, and of a thread in a call. -/
inductive SystemOp (τ : Type*) where
  | loop (op : LoopOp Task τ)
  | poll (revents : BitVec 32)
  | move (m : Move)
  | runTask (r : WriteResult)
  | start (t : τ) (call : Call)
  | advance (t : τ)

/-- A move other than a poll. -/
def Move.isPoll : Move → Bool
  | .poll _ => true
  | _ => false

namespace ConnSystem

variable {τ : Type*} [DecidableEq τ]

/-- The connection in its `connCallback_`, with no task in the queue of its loop. -/
def init (asserts : Bool) (fd : ℤ) (pc : LoopPc) : ConnSystem τ where
  ev := { EventLoop.init with pc := pc, doingFuncQueue := pc.doing }
  loop := LoopThread.init asserts fd
  callers := fun _ => .idle
  strayed := []

/-- A step of the loop that does not involve the connection.  The loop thread goes on
only when the connection has nothing to do; user code may run in its callbacks. -/
def Foreign (s : ConnSystem τ) : LoopOp Task τ → Prop
  | .call => False
  | .pushLocal a => a = .other ∧ LoopThread.userRuns s.loop.todo = true
  | .testWakeup => LoopThread.userRuns s.loop.todo = true
  | .quitLocal => LoopThread.userRuns s.loop.todo = true
  | .push t a => a = .other ∧ s.callers t = .idle
  | .wakeup _ => True
  | .quit t => s.callers t = .idle
  | _ => s.loop.todo = []

instance (s : ConnSystem τ) : (op : LoopOp Task τ) → Decidable (s.Foreign op)
  | .call => inferInstanceAs (Decidable False)
  | .pushLocal _ => inferInstanceAs (Decidable (_ ∧ _))
  | .testWakeup => inferInstanceAs (Decidable (_ = _))
  | .quitLocal => inferInstanceAs (Decidable (_ = _))
  | .push _ _ => inferInstanceAs (Decidable (_ ∧ _))
  | .wakeup _ => inferInstanceAs (Decidable True)
  | .quit _ => inferInstanceAs (Decidable (_ = _))
  | .enter => inferInstanceAs (Decidable (_ = _))
  | .testQuit => inferInstanceAs (Decidable (_ = _))
  | .pollReturns => inferInstanceAs (Decidable (_ = _))
  | .pollFails => inferInstanceAs (Decidable (_ = _))
  | .handleWakeup => inferInstanceAs (Decidable (_ = _))
  | .handlersDone => inferInstanceAs (Decidable (_ = _))
  | .swap => inferInstanceAs (Decidable (_ = _))
  | .funcReturns => inferInstanceAs (Decidable (_ = _))
  | .batchDone => inferInstanceAs (Decidable (_ = _))

/-- The loop thread runs handlers or a function. -/
def runsCode : LoopPc → Bool
  | .handlers _ => true
  | .inFunc => true
  | _ => false

/-- `handleClose` has run for the connection. -/
def closed (s : ConnSystem τ) : Bool := s.loop.conn.registration == .removed

/-- What the code adds to the log. -/
def effects (before after : TcpConnection) : List Effect := after.log.drop before.log.length

/-- Go on with the connection `c` after a queued `sendTask` or `shutdownTask`. -/
def stray (s : ConnSystem τ) (c : TcpConnection) : ConnSystem τ :=
  { s with
    loop := ⟨c, []⟩
    strayed := s.strayed ++ if s.closed then effects s.loop.conn c else [] }

/-- Run a queued task. -/
def run (s : ConnSystem τ) (r : WriteResult) : Task → ConnSystem τ
  | .sendTask msg => s.stray (s.loop.conn.sendTask msg r)
  | .shutdownTask => s.stray s.loop.conn.shutdownTask
  | .closeTask => { s with loop := LoopThread.closeTask s.loop.conn [] }
  | .other => s

/-- The thread `t` is at `caller` in its call. -/
def setCaller (s : ConnSystem τ) (t : τ) (caller : Caller) : ConnSystem τ :=
  { s with callers := Function.update s.callers t caller }

/-- A store of `state_` on another thread. -/
def setState (s : ConnSystem τ) (st : ConnState) : ConnSystem τ :=
  { s with loop := ⟨s.loop.conn.setState st, s.loop.todo⟩ }

/-- The first step of a call: `send` and `shutdown` test the state, `close` stores. -/
def startCall (s : ConnSystem τ) (t : τ) : Call → ConnSystem τ
  | .send msg => if s.loop.conn.state ≠ .connected then s else s.setCaller t (.sendTested msg)
  | .shutdown => if s.loop.conn.state ≠ .connected then s else s.setCaller t .shutdownTested
  | .close => (s.setState .disconnecting).setCaller t .closeStored

/-- The push at the end of a call. -/
def pushTask (s : ConnSystem τ) (t : τ) (task : Task) : Option (ConnSystem τ) :=
  (s.ev.step (.push t task)).map fun ev => { s.setCaller t .idle with ev := ev }

/-- One step of a process that no assertion has stopped. -/
def step (s : ConnSystem τ) (op : SystemOp τ) : Option (ConnSystem τ) :=
  if s.loop.conn.aborted then none
  else
    match op with
    | .loop op => if s.Foreign op then (s.ev.step op).map fun ev => { s with ev := ev } else none
    | .poll revents =>
        (s.ev.step .pollReturns).bind fun ev =>
          (s.loop.step (.poll revents)).map fun loop => { s with ev := ev, loop := loop }
    | .move m =>
        if runsCode s.ev.pc ∧ m.isPoll = false then
          (s.loop.step m).map fun loop => { s with loop := loop }
        else none
    | .runTask r =>
        if s.loop.todo.length = 0 then
          s.ev.batch.head?.bind fun task =>
            (s.ev.step .call).map fun ev => { s.run r task with ev := ev }
        else none
    | .start t call =>
        if s.callers t = .idle ∧ s.ev.threads t = .idle then some (s.startCall t call) else none
    | .advance t =>
        match s.callers t with
        | .idle => none
        | .sendTested msg => s.pushTask t (.sendTask msg)
        | .shutdownTested => some ((s.setState .disconnecting).setCaller t .shutdownStored)
        | .shutdownStored => s.pushTask t .shutdownTask
        | .closeStored => s.pushTask t .closeTask

/-! ## The condition -/

/-- A task is in the batch or in the queue, or a thread is about to push it. -/
def Pending (s : ConnSystem τ) (task : Task) : Prop :=
  (task ∈ s.ev.batch ∨ task ∈ s.ev.queue) ∨ ∃ t, (s.callers t).task = some task

/-- No pending task would use the connection. -/
def Unused (s : ConnSystem τ) : Prop :=
  ∀ task, s.Pending task → task.uses s.loop.conn.outBuf = false

omit [DecidableEq τ] in
theorem unused_iff (s : ConnSystem τ) : s.Unused ↔
    (∀ task ∈ s.ev.batch ++ s.ev.queue, task.uses s.loop.conn.outBuf = false) ∧
      ∀ t, ∀ task ∈ (s.callers t).task, task.uses s.loop.conn.outBuf = false := by
  constructor
  · intro h
    exact ⟨fun task htask => h task (Or.inl (List.mem_append.mp htask)),
      fun t task htask => h task (Or.inr ⟨t, htask⟩)⟩
  · rintro ⟨hqueued, hcalled⟩ task (hmem | ⟨t, ht⟩)
    · exact hqueued task (List.mem_append.mpr hmem)
    · exact hcalled t task ht

instance [Fintype τ] (s : ConnSystem τ) : Decidable s.Unused :=
  decidable_of_iff _ (unused_iff s).symm

/-- A step that runs `handleClose`. -/
def closes (s : ConnSystem τ) : SystemOp τ → Bool
  | .move m => s.loop.closes m
  | .runTask _ => s.ev.batch.head? == some .closeTask
  | _ => false

/-- The condition on a step: `handleClose` runs only when no pending task would use the
connection. -/
def ClosesUnused (s : ConnSystem τ) (op : SystemOp τ) : Prop := s.closes op = true → s.Unused

instance [Fintype τ] (s : ConnSystem τ) (op : SystemOp τ) : Decidable (s.ClosesUnused op) :=
  inferInstanceAs (Decidable (_ → _))

end ConnSystem

namespace TcpConnection

variable {c : TcpConnection}

/-- A task that would not use the connection does nothing when it runs. -/
theorem sendTask_unused {msg : Message} (hmsg : Task.uses c.outBuf (.sendTask msg) = false)
    (r : WriteResult) : c.sendTask msg r = c := by
  simp only [Task.uses, Bool.not_eq_false', Bool.and_eq_true, List.isEmpty_iff,
    Bool.not_eq_true', List.isEmpty_eq_false_iff] at hmsg
  have hdirect : c.writesDirectly = false := by simp [writesDirectly, hmsg.2]
  simp [sendTask, sendCount, hdirect, keepRest, Message.size, hmsg.1]

end TcpConnection

/-! ## Steps -/

namespace ConnSystem

variable {τ : Type*} [DecidableEq τ]

/-- What every step that meets the condition keeps: nothing has strayed, and once the
connection is gone no pending task would use it. -/
structure Inv (s : ConnSystem τ) : Prop where
  strayed : s.strayed = []
  not_fresh : s.loop.conn.registration ≠ .fresh
  gone : s.loop.conn.registration = .removed → s.loop.conn.Gone ∧ s.Unused

omit [DecidableEq τ] in
/-- When fewer tasks are pending and the output is the same, they are still unused. -/
theorem Unused.mono {s t : ConnSystem τ} (h : s.Unused)
    (hout : t.loop.conn.outBuf = s.loop.conn.outBuf)
    (hpending : ∀ task, t.Pending task → s.Pending task ∨ task.uses s.loop.conn.outBuf = false) :
    t.Unused := by
  intro task htask
  rw [hout]
  exact (hpending task htask).elim (h task) id

omit [DecidableEq τ] in
theorem inv_init (asserts : Bool) (fd : ℤ) (pc : LoopPc) :
    Inv (init asserts fd pc : ConnSystem τ) where
  strayed := rfl
  not_fresh := by simp [init, LoopThread.init, TcpConnection.established_eq]
  gone := by simp [init, LoopThread.init, TcpConnection.established_eq]

/-- The caller of a thread changes: its task is no longer pending, the new one is. -/
theorem pending_setCaller {s : ConnSystem τ} {t : τ} {caller : Caller} {task : Task}
    (h : (s.setCaller t caller).Pending task) : s.Pending task ∨ caller.task = some task := by
  rcases h with h | ⟨u, hu⟩
  · exact Or.inl (Or.inl h)
  · replace hu : (Function.update s.callers t caller u).task = some task := hu
    by_cases hut : u = t
    · subst hut
      rw [Function.update_self] at hu
      exact Or.inr hu
    · rw [Function.update_of_ne hut] at hu
      exact Or.inl (Or.inr ⟨u, hu⟩)

/-- A step of the event loop adds to the pending tasks only what it pushes. -/
theorem pending_ev {s : ConnSystem τ} {ev : EventLoop Task τ} {op : LoopOp Task τ}
    (hstep : s.ev.step op = some ev) {task : Task} (h : Pending { s with ev := ev } task) :
    s.Pending task ∨ op.pushes = some task := by
  rcases h with h | h
  · exact (EventLoop.mem_of_step hstep h).imp_left Or.inl
  · exact Or.inl (Or.inr h)

omit [DecidableEq τ] in
/-- Such a step pushes no task of the connection. -/
theorem foreign_pushes {s : ConnSystem τ} {op : LoopOp Task τ} {task : Task}
    (hop : s.Foreign op) (hpush : op.pushes = some task) : task = .other := by
  cases op with
  | pushLocal a => exact (Option.some.inj hpush).symm.trans hop.1
  | push t a => exact (Option.some.inj hpush).symm.trans hop.1
  | _ => cases hpush

/-- A step of the event loop that pushes no task of the connection keeps the invariant. -/
theorem inv_ev {s : ConnSystem τ} {ev : EventLoop Task τ} {op : LoopOp Task τ} (h : Inv s)
    (hpush : ∀ task, op.pushes = some task → task = .other) (hstep : s.ev.step op = some ev) :
    Inv { s with ev := ev } := by
  refine ⟨h.strayed, h.not_fresh, fun hreg => ⟨(h.gone hreg).1, (h.gone hreg).2.mono rfl ?_⟩⟩
  intro task htask
  refine (pending_ev hstep htask).imp_right fun hpushed => ?_
  rw [hpush task hpushed]
  rfl

omit [DecidableEq τ] in
/-- A move of the loop thread keeps the invariant when it meets the condition. -/
theorem inv_move {s : ConnSystem τ} {loop : LoopThread} {m : Move} (h : Inv s)
    (hok : s.loop.closes m = true → s.Unused) (hstep : s.loop.step m = some loop) :
    Inv { s with loop := loop } := by
  obtain ⟨hrun, hm⟩ := LoopThread.moved_of_step hstep
  have hgone : (s.loop.closes m = true ∨ s.loop.conn.Gone) → s.Unused →
      Inv { s with loop := loop } := by
    intro hclose hunused
    obtain ⟨hg, hout⟩ := LoopThread.gone_of_moved h.not_fresh hrun hm hclose
    exact ⟨h.strayed, hg.not_fresh, fun _ => ⟨hg, hunused.mono hout fun _ => Or.inl⟩⟩
  cases hclose : s.loop.closes m with
  | true => exact hgone (Or.inl hclose) (hok hclose)
  | false =>
      cases hreg : s.loop.conn.registration with
      | fresh => exact absurd hreg h.not_fresh
      | removed => exact hgone (Or.inr (h.gone hreg).1) (h.gone hreg).2
      | registered =>
          have hreg' := LoopThread.registered_of_moved hm hclose hreg
          exact ⟨h.strayed, by rw [hreg']; decide, fun hrem => by rw [hreg'] at hrem; cases hrem⟩

omit [DecidableEq τ] in
/-- A queued task does nothing to a connection that is gone and would not be used, and
leaves a registered one registered. -/
theorem inv_stray {s : ConnSystem τ} (h : Inv s) {c : TcpConnection}
    (hsame : s.loop.conn.SameLife c) (hgone : s.loop.conn.Gone → c = s.loop.conn) :
    Inv (s.stray c) := by
  cases hreg : s.loop.conn.registration with
  | fresh => exact absurd hreg h.not_fresh
  | removed =>
      -- the task changes nothing, so it has no effects to record
      obtain ⟨hg, hunused⟩ := h.gone hreg
      obtain rfl := hgone hg
      refine ⟨?_, h.not_fresh, fun _ => ⟨hg, hunused.mono rfl fun _ => Or.inl⟩⟩
      simp [stray, effects, h.strayed]
  | registered =>
      have hclosed : s.closed = false := by
        rw [closed, hreg]
        rfl
      have hreg' : c.registration = .registered := hsame.registration.trans hreg
      refine ⟨?_, ?_, fun hrem => ?_⟩
      · simp [stray, hclosed, h.strayed]
      · rw [stray, hreg']
        decide
      · rw [stray, hreg'] at hrem
        cases hrem

omit [DecidableEq τ] in
/-- A queued task keeps the invariant when it meets the condition. -/
theorem inv_run {s : ConnSystem τ} {task : Task} (h : Inv s) (hrun : s.loop.conn.aborted = false)
    (hpending : s.Pending task) (hok : task = .closeTask → s.Unused) (r : WriteResult) :
    Inv (s.run r task) := by
  cases task with
  | sendTask msg =>
      refine inv_stray h (TcpConnection.sameLife_sendTask h.not_fresh msg r) fun hg => ?_
      exact TcpConnection.sendTask_unused ((h.gone hg.registration).2 _ hpending) r
  | shutdownTask =>
      refine inv_stray h TcpConnection.sameLife_shutdownTask fun hg => ?_
      have hused := (h.gone hg.registration).2 _ hpending
      cases hused
  | closeTask =>
      obtain ⟨hg, hout⟩ := LoopThread.gone_handleClose h.not_fresh hrun [.resetSocket]
      exact ⟨h.strayed, hg.not_fresh, fun _ => ⟨hg, (hok rfl).mono hout fun _ => Or.inl⟩⟩
  | other => exact h

/-- The first step of a call keeps the invariant: a connection that is gone is not
`Connected`, so only `close` goes on. -/
theorem inv_startCall {s : ConnSystem τ} (h : Inv s) (t : τ) (call : Call) :
    Inv (s.startCall t call) := by
  have htested : ∀ caller : Caller, s.loop.conn.state = .connected → Inv (s.setCaller t caller) :=
    fun caller hstate => ⟨h.strayed, h.not_fresh, fun hreg => absurd hstate (h.gone hreg).1.state⟩
  cases call with
  | send msg =>
      rw [startCall]
      split
      · exact h
      · rename_i hstate
        exact htested _ (not_not.mp hstate)
  | shutdown =>
      rw [startCall]
      split
      · exact h
      · rename_i hstate
        exact htested _ (not_not.mp hstate)
  | close =>
      -- no test of the state, but the new task is one that uses nothing
      refine ⟨h.strayed, h.not_fresh, fun hreg => ?_⟩
      obtain ⟨hg, hunused⟩ := h.gone hreg
      refine ⟨hg.setState (by decide), hunused.mono rfl fun task htask => ?_⟩
      exact (pending_setCaller htask).imp_right fun htask => by cases htask; rfl

/-- A push at the end of a call keeps the invariant: the task was pending before. -/
theorem inv_pushTask {s u : ConnSystem τ} (h : Inv s) {t : τ} {task : Task}
    (hcaller : (s.callers t).task = some task) (hstep : s.pushTask t task = some u) : Inv u := by
  rw [pushTask, Option.map_eq_some_iff] at hstep
  obtain ⟨ev, hev, rfl⟩ := hstep
  refine ⟨h.strayed, h.not_fresh, fun hreg => ⟨(h.gone hreg).1, (h.gone hreg).2.mono rfl ?_⟩⟩
  intro task' htask
  refine Or.inl ?_
  rcases pending_ev (s := s.setCaller t .idle) hev htask with hold | hpush
  · exact (pending_setCaller hold).resolve_right (by simp [Caller.task])
  · obtain rfl := Option.some.inj hpush
    exact Or.inr ⟨t, hcaller⟩

/-- Every step that meets the condition keeps the invariant. -/
theorem inv_step {s u : ConnSystem τ} {op : SystemOp τ} (h : Inv s) (hok : s.ClosesUnused op)
    (hstep : s.step op = some u) : Inv u := by
  unfold step at hstep
  split at hstep
  · cases hstep
  · rename_i hrun
    replace hrun : s.loop.conn.aborted = false := by simpa using hrun
    cases op with
    | loop op =>
        simp only [Option.ite_none_right_eq_some, Option.map_eq_some_iff] at hstep
        obtain ⟨hop, ev, hev, rfl⟩ := hstep
        exact inv_ev h (fun _ => foreign_pushes hop) hev
    | poll revents =>
        simp only [Option.bind_eq_some_iff, Option.map_eq_some_iff] at hstep
        obtain ⟨ev, hev, loop, hloop, rfl⟩ := hstep
        have hmove : Inv { s with loop := loop } := inv_move h (fun hc => by cases hc) hloop
        exact inv_ev hmove (fun _ hpush => by cases hpush) hev
    | move m =>
        simp only [Option.ite_none_right_eq_some, Option.map_eq_some_iff] at hstep
        obtain ⟨-, loop, hloop, rfl⟩ := hstep
        exact inv_move h hok hloop
    | runTask r =>
        simp only [Option.ite_none_right_eq_some, Option.bind_eq_some_iff,
          Option.map_eq_some_iff] at hstep
        obtain ⟨-, task, htask, ev, hev, rfl⟩ := hstep
        -- the task comes from the batch, so it was pending
        have hpending : s.Pending task := Or.inl (Or.inl (List.mem_of_head? htask))
        have hinv := inv_run h hrun hpending (fun hclose => hok (by
          rw [closes, htask, hclose]
          rfl)) r
        have hsame : (s.run r task).ev = s.ev := by cases task <;> rfl
        rw [← hsame] at hev
        exact inv_ev hinv (fun _ hpush => by cases hpush) hev
    | start t call =>
        simp only [Option.ite_none_right_eq_some, Option.some.injEq] at hstep
        obtain ⟨-, rfl⟩ := hstep
        exact inv_startCall h t call
    | advance t =>
        simp only at hstep
        split at hstep
        · cases hstep
        · rename_i msg hcaller
          exact inv_pushTask h (by rw [hcaller]; rfl) hstep
        · -- `shutdown` stores `Disconnecting`; its task was pending since the test
          rename_i hcaller
          obtain rfl := Option.some.inj hstep
          refine ⟨h.strayed, h.not_fresh, fun hreg => ?_⟩
          obtain ⟨hg, hunused⟩ := h.gone hreg
          refine ⟨hg.setState (by decide), hunused.mono rfl fun task htask => Or.inl ?_⟩
          refine (pending_setCaller htask).elim id fun htask => Or.inr ⟨t, ?_⟩
          rw [hcaller]
          exact htask
        · rename_i hcaller
          exact inv_pushTask h (by rw [hcaller]; rfl) hstep
        · rename_i hcaller
          exact inv_pushTask h (by rw [hcaller]; rfl) hstep

/-! ## Runs -/

/-- In a run in which `handleClose` only runs when no pending task would use the
connection, no queued `sendTask` or `shutdownTask` touches it afterwards. -/
theorem strayed_eq_nil (asserts : Bool) (fd : ℤ) (pc : LoopPc) (ops : List (SystemOp τ))
    (h : Runs.AllSteps step ClosesUnused (init asserts fd pc) ops) :
    Runs.Along step (fun s => s.strayed = []) (init asserts fd pc) ops :=
  (Runs.Along.of_steps (fun _ _ _ hs hok hstep => inv_step hs hok hstep)
    (inv_init asserts fd pc) h).mono fun _ hs => hs.strayed

/-- The peer hangs up before the other thread tests the state. -/
theorem strayed_eq_nil_hangUp :
    Runs.Along step (fun s => s.strayed = []) (init true 7 .inFunc : ConnSystem Unit)
      [.move (.proceed 0 .failed), .loop .funcReturns, .loop .batchDone, .loop .testQuit,
        .poll pollHup, .move (.proceed 0 .failed), .move (.proceed 0 .failed),
        .start () (.send ⟨[104, 105], by decide⟩), .move (.proceed 0 .failed),
        .move (.proceed 0 .failed)] :=
  strayed_eq_nil true 7 .inFunc _ (by decide)

/-- A send from another thread is queued, the peer hangs up, and the task then writes to
the descriptor of the closed connection. -/
theorem not_strayed_eq_nil_hangUp :
    ¬ Runs.Along step (fun s => s.strayed = []) (init true 7 .inFunc : ConnSystem Unit)
      [.move (.proceed 0 .failed), .loop .funcReturns, .loop .batchDone, .loop .testQuit,
        .poll pollHup, .start () (.send ⟨[104, 105], by decide⟩), .advance (),
        .move (.proceed 0 .failed), .move (.proceed 0 .failed), .move (.proceed 0 .failed),
        .move (.proceed 0 .failed), .move (.proceed 0 .failed), .move (.proceed 0 .failed),
        .move (.proceed 0 .failed), .loop .handlersDone, .loop .swap,
        .runTask (.accepted 2)] := by
  decide

end ConnSystem

end Lotta
