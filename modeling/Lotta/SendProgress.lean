/-
# A message that is sent is written

A `send` on another thread only pushes a function; the bytes reach the kernel when the loop has
called it and the poller has reported the socket to be writable often enough.  `run_delivers`
puts the two bounds together.  A message whose `sendTask` has been pushed is in the stream of the
connection after `distance` own steps of the loop, and from then on its bytes, and all those
before them, have been taken by the kernel after as many writable events as bytes wait, whatever
the threads, the callbacks and the other functions do in between.

On the way a connection is used while another thread has already stored `Disconnecting` in
`state_`, so what holds until the connection is closed does not mention the state (`Watches`):
the channel is registered, and it is interested in writing exactly while bytes wait.
-/
import Lotta.LoopProgress
import Lotta.OutputProgress
import Lotta.SendOrder

namespace Lotta

/-! ## What keeps a connection watching its output -/

namespace TcpConnection

variable {c : TcpConnection}

theorem Watches.emit (h : c.Watches) (e : Effect) : (c.emit e).Watches :=
  ⟨h.registered, h.running, h.writing_iff⟩

theorem Watches.setState (h : c.Watches) (st : ConnState) : (c.setState st).Watches :=
  ⟨h.registered, h.running, h.writing_iff⟩

theorem Watches.setOutBuf (h : c.Watches) {xs : List UInt8} (hxs : xs = [] ↔ c.outBuf = []) :
    (c.setOutBuf xs).Watches :=
  ⟨h.registered, h.running, h.writing_iff.trans (not_congr hxs.symm)⟩

theorem Watches.sendTask (h : c.Watches) (msg : Message) (r : WriteResult) :
    (c.sendTask msg r).Watches := by
  have hkeep : ∀ (d : TcpConnection) (n : ℕ), d.Watches → (d.keepRest msg n).Watches := by
    intro d n hd
    rcases keepRest_cases hd.registered msg n with heq | ⟨out, channel, log, heq, hout, hw, -, -⟩
    · rw [heq]
      exact hd
    · rw [heq]
      exact ⟨hd.registered, hd.running, iff_of_true hw hout⟩
  unfold TcpConnection.sendTask
  apply hkeep
  split
  · exact h.emit _
  · exact h

theorem Watches.shutdownTask (h : c.Watches) : c.shutdownTask.Watches := by
  unfold TcpConnection.shutdownTask
  split
  · exact h
  · exact h.emit _

theorem Watches.shutdown (h : c.Watches) : c.shutdown.Watches := by
  unfold TcpConnection.shutdown
  split
  · exact h
  · exact (h.setState _).shutdownTask

theorem Watches.resetSocket (h : c.Watches) : c.resetSocket.Watches := by
  unfold TcpConnection.resetSocket
  split
  · exact ⟨h.registered, h.running, h.writing_iff⟩
  · exact h

/-- `handleWrite` stops watching when it has written the last byte. -/
theorem Watches.handleWrite (h : c.Watches) (r : WriteResult) : (c.handleWrite r).Watches := by
  unfold TcpConnection.handleWrite
  split
  · exact h
  · rename_i hidle
    have hwriting : c.channel.isWriting = true := by simpa using hidle
    simp only
    generalize r.returned c.outBuf.length = n
    split
    · exact h.emit _
    · split
      · rename_i hempty
        have hout : (c.emit (.write c.outBuf n)).outBuf.drop n.toNat = [] :=
          List.eq_nil_of_length_eq_zero hempty
        have hdone : (TcpConnection.interest ((c.emit (.write c.outBuf n)).setOutBuf
            ((c.emit (.write c.outBuf n)).outBuf.drop n.toNat)) .disableWriting).Watches := by
          rw [interest_registered (by exact h.registered)]
          refine ⟨h.registered, h.running, iff_of_false ?_ fun hno => hno hout⟩
          simp [InterestCall.apply]
        refine thenDo_cases (P := Watches) _ hdone ?_
        split
        · exact hdone.shutdownTask
        · exact hdone
      · rename_i hleft
        refine ⟨h.registered, h.running, iff_of_true hwriting fun hnil => hleft ?_⟩
        exact congrArg List.length hnil

end TcpConnection

/-! ## The loop thread -/

namespace LoopThread

variable {s t : LoopThread} {m : Move}

theorem registration_handleClose {c : TcpConnection} (hfresh : c.registration ≠ .fresh)
    (hrun : c.aborted = false) (rest : List Todo) :
    (handleClose c rest).conn.registration = .removed := by
  have hclosed := TcpConnection.closed_handleClose hfresh hrun
  exact TcpConnection.thenDo_cases (P := fun d => d.registration = .removed) _
    hclosed.registration hclosed.registration

/-- A move that closes the connection takes its channel from the poller, and no move brings it
back. -/
theorem removed_of_step (hfresh : s.conn.registration ≠ .fresh) (hstep : s.step m = some t)
    (h : s.closes m = true ∨ s.conn.registration = .removed) :
    t.conn.registration = .removed := by
  obtain ⟨hrun, hmoved⟩ := moved_of_step hstep
  cases hmoved with
  | polled revents htodo hreg =>
      rcases h with h | h
      · cases h
      · rw [hreg] at h
        cases h
  | sent msg r =>
      have hremoved := h.resolve_left (by simp [closes])
      exact (TcpConnection.sameLife_send hfresh msg r).registration.trans hremoved
  | shutdown =>
      have hremoved := h.resolve_left (by simp [closes])
      show s.conn.shutdown.registration = .removed
      unfold TcpConnection.shutdown
      split
      · exact hremoved
      · exact TcpConnection.sameLife_shutdownTask.registration.trans hremoved
  | closed => exact registration_handleClose (c := s.conn.setState .disconnecting) hfresh hrun _
  | ran n r t hran =>
      cases hran with
      | closed k rest htodo hk hnext => exact registration_handleClose hfresh hrun rest
      | removed rest htodo hnext =>
          exact h.resolve_left (by rw [closes, hnext]; decide)
      | quiet k rest pre c htodo hk hpre hevent hc hnext =>
          have hremoved := h.resolve_left (by rw [closes, hnext]; decide)
          exact (TcpConnection.sameLife_quiet hfresh hc).registration.trans hremoved

/-- A connection goes on watching its output until it is closed. -/
theorem watches_of_step (h : s.conn.Watches) (hclose : s.closes m = false)
    (hstep : s.step m = some t) : t.conn.Watches := by
  cases (moved_of_step hstep).2 with
  | polled revents htodo hreg => exact ⟨h.registered, h.running, h.writing_iff⟩
  | sent msg r =>
      show (s.conn.send msg r).Watches
      unfold TcpConnection.send
      split
      · exact h
      · exact h.sendTask msg r
  | shutdown => exact h.shutdown
  | closed => cases hclose
  | ran n r t hran =>
      cases hran with
      | closed k rest htodo hk hnext =>
          rw [closes, hnext] at hclose
          cases hclose
      | removed rest => exact h.emit _
      | quiet k rest pre c htodo hk hpre hevent hc =>
          cases hc with
          | skip => exact h
          | msgCallback => exact h.emit _
          | written => exact h.handleWrite r
          | socketReset => exact h.resetSocket

/-- A connection that watches its output and has its socket for good. -/
structure Open (s : LoopThread) : Prop where
  watches : s.conn.Watches
  held : s.Held

/-- Only a close ends it. -/
theorem Open.step (h : s.Open) (hclose : s.closes m = false) (hstep : s.step m = some t) :
    t.Open :=
  ⟨watches_of_step h.watches hclose hstep, h.held.step hclose hstep⟩

end LoopThread

/-! ## The connection with its buffer -/

/-- A queued `sendTask` may still come to a connection that has been closed. -/
theorem BufferedConnection.removed_sendTask {c : BufferedConnection}
    (h : c.base.registration = .removed) (msg : Message) (r : WriteResult) (slack : ℕ) :
    (c.sendTask msg r slack).base.registration = .removed := by
  have hfresh : c.ideal.registration ≠ .fresh := by
    rw [show c.ideal.registration = .removed from h]
    decide
  exact (congrArg TcpConnection.registration (c.ideal_sendTask msg r slack)).trans
    ((TcpConnection.sameLife_sendTask hfresh msg r).registration.trans h)

namespace BufferedThread

variable {s t : BufferedThread} {op : Move × ℕ}

theorem removed_of_step (hwf : s.conn.outBuf.Wf) (h : s.conn.base.registration = .removed)
    (hstep : s.step op = some t) : t.conn.base.registration = .removed := by
  rcases step_cases hwf hstep with ⟨msg, r, slack, rfl, rfl⟩ | ⟨hsend, hideal⟩
  · unfold BufferedConnection.send
    split
    · exact h
    · exact BufferedConnection.removed_sendTask h msg r slack
  · have hfresh : s.ideal.conn.registration ≠ .fresh := by
      rw [show s.ideal.conn.registration = .removed from h]
      decide
    exact LoopThread.removed_of_step hfresh hideal (Or.inr h)

/-- A connection that has been closed, or that is open. -/
structure Standing (s : BufferedThread) : Prop where
  wf : s.conn.outBuf.Wf
  path : s.conn.base.registration = .removed ∨ s.ideal.Open

theorem Standing.sendTask (h : s.Standing) (msg : Message) (r : WriteResult) (slack : ℕ) :
    Standing ⟨s.conn.sendTask msg r slack, s.todo⟩ where
  wf := BufferedConnection.wf_sendTask msg r h.wf slack
  path := by
    have hideal := s.conn.ideal_sendTask msg r slack
    rcases h.path with hremoved | hopen
    · exact Or.inl (BufferedConnection.removed_sendTask hremoved msg r slack)
    · refine Or.inr ⟨?_, ?_, hopen.held.unreset⟩
      · show (s.conn.sendTask msg r slack).ideal.Watches
        rw [hideal]
        exact (hopen.watches.sendTask msg r).setOutBuf
          (s.conn.afterSend_eq_nil_iff msg r h.wf slack)
      · exact (congrArg TcpConnection.socket hideal).trans
          ((TcpConnection.socket_sendTask s.conn.ideal msg r).trans hopen.held.socket)

theorem Standing.step (h : s.Standing) (hstep : s.step op = some t) : t.Standing := by
  rcases step_cases h.wf hstep with ⟨msg, r, slack, rfl, rfl⟩ | ⟨hsend, hideal⟩
  · unfold BufferedConnection.send
    split
    · exact h
    · exact h.sendTask msg r slack
  · refine ⟨wf_step h.wf hstep, ?_⟩
    rcases h.path with hremoved | hopen
    · exact Or.inl (removed_of_step h.wf hremoved hstep)
    · cases hclose : s.ideal.closes op.1 with
      | false => exact Or.inr (hopen.step hclose hideal)
      | true =>
          have hfresh : s.ideal.conn.registration ≠ .fresh := by
            rw [hopen.watches.registered]
            decide
          exact Or.inl (LoopThread.removed_of_step hfresh hideal (Or.inl hclose))

end BufferedThread

/-! ## The functions that have been called -/

namespace EventLoop

variable {α τ : Type*} [DecidableEq τ] {s t : EventLoop α τ} {op : LoopOp α τ}

end EventLoop

/-! ## The steps of the system -/

section Ops

variable {τ : Type*}

/-- A step of the loop itself, as opposed to the calls that user code makes. -/
def SendOp.own : SendOp τ → Bool
  | .loop op => op.own
  | .poll _ => true
  | .runTask _ _ => true
  | _ => false

/-- The move of the connection that a step makes. -/
def SendOp.moves : SendOp τ → Option (Move × ℕ)
  | .poll revents => some (.poll revents, 0)
  | .move m slack => some (m, slack)
  | _ => none

/-- A poll event that reports the socket to be writable. -/
def SendOp.reportsWritable (op : SendOp τ) : Bool := op.moves.any fun m => m.1.reportsWritable

end Ops

namespace SendOrder

variable {τ : Type*} [DecidableEq τ] {s t : SendOrder τ} {op : SendOp τ}

omit [DecidableEq τ] in
/-- The condition on a step: the loop does not find `quit_` set. -/
def NoQuit (s : SendOrder τ) : SendOp τ → Prop
  | .loop op => s.ev.NoQuit op
  | _ => True

omit [DecidableEq τ] in
/-- The condition on a step: a write of `handleWrite` takes at least one byte. -/
def TakesSome (s : SendOrder τ) (op : SendOp τ) : Prop := ∀ m ∈ op.moves, s.thread.TakesSome m

omit [DecidableEq τ] in
instance (s : SendOrder τ) : (op : SendOp τ) → Decidable (s.NoQuit op)
  | .loop op => inferInstanceAs (Decidable (s.ev.NoQuit op))
  | .poll _ | .move _ _ | .runTask _ _ | .start _ _ | .advance _ => isTrue trivial

instance (s : SendOrder τ) (op : SendOp τ) : Decidable (s.TakesSome op) :=
  inferInstanceAs (Decidable (∀ m ∈ op.moves, _))

/-- What a step does to the connection. -/
inductive Changed (s : SendOrder τ) (op : SendOp τ) (thread : BufferedThread) : Prop where
  | same (hop : op.moves = none) (h : thread = s.thread)
  | stored (st : ConnState) (hop : op.moves = none) (h : thread = (s.setState st).thread)
  | moved (m : Move × ℕ) (hop : op.moves = some m) (h : s.thread.step m = some thread)
  | sent (msg : Message) (r : WriteResult) (slack : ℕ) (hop : op.moves = none)
      (htodo : s.thread.todo = []) (h : thread = ⟨s.thread.conn.sendTask msg r slack, []⟩)
  | shut (hop : op.moves = none) (htodo : s.thread.todo = [])
      (h : thread = ⟨{ s.thread.conn with base := s.thread.conn.base.shutdownTask }, []⟩)
  | closed (hop : op.moves = none) (h : thread =
      ⟨{ s.thread.conn with base := (LoopThread.closeTask s.thread.conn.base []).conn },
        (LoopThread.closeTask s.thread.conn.base []).todo⟩)

theorem changed_of_step (hstep : s.step op = some t) :
    s.thread.conn.base.aborted = false ∧ Changed s op t.thread := by
  unfold step at hstep
  split at hstep
  · cases hstep
  · rename_i hrun
    refine ⟨by simpa using hrun, ?_⟩
    cases op with
    | loop op =>
        simp only [Option.ite_none_right_eq_some, Option.map_eq_some_iff] at hstep
        obtain ⟨-, ev, -, rfl⟩ := hstep
        exact .same rfl rfl
    | poll revents =>
        simp only [Option.bind_eq_some_iff, Option.map_eq_some_iff] at hstep
        obtain ⟨ev, -, thread, hthread, rfl⟩ := hstep
        exact .moved _ rfl hthread
    | move m slack =>
        simp only [Option.ite_none_right_eq_some, Option.map_eq_some_iff] at hstep
        obtain ⟨-, thread, hthread, rfl⟩ := hstep
        exact .moved _ rfl hthread
    | runTask r slack =>
        simp only [Option.ite_none_right_eq_some, Option.bind_eq_some_iff,
          Option.map_eq_some_iff] at hstep
        obtain ⟨htodo, ⟨u, task⟩, -, ev, -, rfl⟩ := hstep
        have hnil := List.eq_nil_of_length_eq_zero htodo
        cases task with
        | sendTask msg => exact .sent msg r slack rfl hnil rfl
        | shutdownTask => exact .shut rfl hnil rfl
        | closeTask => exact .closed rfl rfl
        | other => exact .same rfl rfl
    | start u call =>
        simp only [Option.ite_none_right_eq_some, Option.some.injEq] at hstep
        obtain ⟨-, rfl⟩ := hstep
        cases call with
        | send msg | shutdown =>
            unfold startCall
            simp only
            split
            · exact .same rfl rfl
            · exact .same rfl rfl
        | close => exact .stored .disconnecting rfl rfl
    | advance u =>
        simp only at hstep
        split at hstep
        · cases hstep
        · simp only [pushTask, Option.map_eq_some_iff] at hstep
          obtain ⟨ev, -, rfl⟩ := hstep
          exact .same rfl rfl
        · obtain rfl := Option.some.inj hstep
          exact .stored .disconnecting rfl rfl
        · simp only [pushTask, Option.map_eq_some_iff] at hstep
          obtain ⟨ev, -, rfl⟩ := hstep
          exact .same rfl rfl
        · simp only [pushTask, Option.map_eq_some_iff] at hstep
          obtain ⟨ev, -, rfl⟩ := hstep
          exact .same rfl rfl

omit [DecidableEq τ] in
/-- A connection that has been closed stays so. -/
theorem Changed.removed {thread : BufferedThread} (hc : Changed s op thread)
    (hwf : s.thread.conn.outBuf.Wf) (hrun : s.thread.conn.base.aborted = false)
    (h : s.thread.conn.base.registration = .removed) :
    thread.conn.base.registration = .removed := by
  cases hc with
  | same hop heq => exact heq ▸ h
  | stored st hop heq => exact heq ▸ h
  | moved m hop hstep => exact BufferedThread.removed_of_step hwf h hstep
  | sent msg r slack hop htodo heq =>
      exact heq ▸ BufferedConnection.removed_sendTask h msg r slack
  | shut hop htodo heq =>
      exact heq ▸ TcpConnection.sameLife_shutdownTask.registration.trans h
  | closed hop heq =>
      have hfresh : s.thread.conn.base.registration ≠ .fresh := by
        rw [h]
        decide
      exact heq ▸ LoopThread.registration_handleClose hfresh hrun [.resetSocket]

omit [DecidableEq τ] in
/-- The connection is open until it is closed. -/
theorem Changed.standing {thread : BufferedThread} (hc : Changed s op thread)
    (h : s.thread.Standing) (hrun : s.thread.conn.base.aborted = false) : thread.Standing := by
  cases hc with
  | same hop heq => exact heq ▸ h
  | stored st hop heq =>
      subst heq
      exact ⟨h.wf, h.path.imp_right fun hopen =>
        ⟨hopen.watches.setState st, hopen.held.socket, hopen.held.unreset⟩⟩
  | moved m hop hstep => exact h.step hstep
  | sent msg r slack hop htodo heq =>
      subst heq
      have hsent := h.sendTask msg r slack
      rwa [htodo] at hsent
  | shut hop htodo heq =>
      subst heq
      refine ⟨h.wf, ?_⟩
      rcases h.path with hremoved | hopen
      · exact Or.inl (TcpConnection.sameLife_shutdownTask.registration.trans hremoved)
      · refine Or.inr ⟨?_, ?_, by simp [BufferedThread.ideal]⟩
        · show (s.thread.conn.base.shutdownTask.setOutBuf s.thread.conn.outBuf.content).Watches
          rw [← TcpConnection.shutdownTask_setOutBuf]
          exact hopen.watches.shutdownTask
        · exact (TcpConnection.socket_shutdownTask s.thread.conn.base).trans hopen.held.socket
  | closed hop heq =>
      subst heq
      refine ⟨h.wf, Or.inl ?_⟩
      have hfresh : s.thread.conn.base.registration ≠ .fresh := by
        rcases h.path with hremoved | hopen
        · rw [hremoved]
          decide
        · rw [show s.thread.conn.base.registration = .registered from
            hopen.watches.registered]
          decide
      exact LoopThread.registration_handleClose hfresh hrun [.resetSocket]

omit [DecidableEq τ] in
/-- What is in the stream, and what the kernel has taken of it, stays in its place. -/
theorem Changed.grows {thread : BufferedThread} (hc : Changed s op thread)
    (hwf : s.thread.conn.outBuf.Wf) :
    s.thread.stream <+: thread.stream ∧ s.thread.conn.base.kernel <+: thread.conn.base.kernel := by
  -- a function that moves no bytes
  have hstill : ∀ base : TcpConnection, base.fifo = s.thread.conn.base.fifo → ∀ todo,
      s.thread.stream <+: BufferedThread.stream ⟨{ s.thread.conn with base := base }, todo⟩ ∧
        s.thread.conn.base.kernel <+: base.kernel := by
    intro base hfifo todo
    have hkernel : base.kernel = s.thread.conn.base.kernel := congrArg Fifo.taken hfifo
    refine ⟨?_, by rw [hkernel]⟩
    show s.thread.conn.base.kernel ++ s.thread.conn.outBuf.content <+:
      base.kernel ++ s.thread.conn.outBuf.content
    rw [hkernel]
  cases hc with
  | same hop heq =>
      rw [heq]
      exact ⟨List.prefix_rfl, List.prefix_rfl⟩
  | stored st hop heq =>
      rw [heq]
      exact hstill _ (TcpConnection.fifo_setState _ st) s.thread.todo
  | moved m hop hstep =>
      exact ⟨BufferedThread.stream_of_step hwf hstep, BufferedThread.kernel_of_step hwf hstep⟩
  | sent msg r slack hop htodo heq =>
      rw [heq]
      refine ⟨BufferedConnection.history_sendTask_grows msg r hwf slack, ?_⟩
      show s.thread.conn.ideal.kernel <+: (s.thread.conn.sendTask msg r slack).ideal.kernel
      rw [BufferedConnection.ideal_sendTask]
      exact (TcpConnection.fifo_sendTask_grows s.thread.conn.ideal msg r).1
  | shut hop htodo heq =>
      rw [heq]
      exact hstill _ (TcpConnection.fifo_of_frame (TcpConnection.frame_shutdownTask _)) []
  | closed hop heq =>
      rw [heq]
      exact hstill _ (LoopThread.fifo_handleClose _ [.resetSocket]) _

omit [DecidableEq τ] in
/-- A step of an open connection takes the byte no further away, and a writable event brings it
nearer, until the connection is closed. -/
theorem Changed.writesLeft {thread : BufferedThread} {i : ℕ} (hc : Changed s op thread)
    (hwf : s.thread.conn.outBuf.Wf) (hopen : s.thread.ideal.Open)
    (hrun : s.thread.conn.base.aborted = false) (hi : i < s.thread.stream.length)
    (hwaits : s.thread.conn.base.kernel.length ≤ i) (htakes : s.TakesSome op) :
    thread.conn.base.registration = .removed ∨
      thread.ideal.writesLeft i + (if op.reportsWritable then 1 else 0) ≤
        s.thread.ideal.writesLeft i := by
  have hkernel := (hc.grows hwf).2.length_le
  have hfresh : s.thread.conn.base.registration ≠ .fresh := by
    rw [show s.thread.conn.base.registration = .registered from hopen.watches.registered]
    decide
  -- a step that is no move of the connection reports nothing
  have hquiet : op.moves = none → (s.thread.ideal.writeDue = true →
      thread.ideal.writeDue = true) → thread.ideal.writesLeft i +
        (if op.reportsWritable then 1 else 0) ≤ s.thread.ideal.writesLeft i := by
    intro hop hdue
    have hno : op.reportsWritable = false := by
      unfold SendOp.reportsWritable
      rw [hop]
      rfl
    rw [hno]
    exact LoopThread.writesLeft_mono i hkernel hdue
  have hidle : s.thread.todo = [] → s.thread.ideal.writeDue = true →
      thread.ideal.writeDue = true := by
    intro htodo hdue
    unfold LoopThread.writeDue at hdue
    rw [show s.thread.ideal.todo = [] from htodo, Bool.and_eq_true] at hdue
    cases hdue.2
  cases hc with
  | same hop heq => exact Or.inr (hquiet hop fun hdue => by rwa [heq])
  | stored st hop heq => exact Or.inr (hquiet hop fun hdue => by rwa [heq])
  | sent msg r slack hop htodo heq => exact Or.inr (hquiet hop (hidle htodo))
  | shut hop htodo heq => exact Or.inr (hquiet hop (hidle htodo))
  | closed hop heq =>
      rw [heq]
      exact Or.inl (LoopThread.registration_handleClose hfresh hrun [.resetSocket])
  | moved m hop hstep =>
      have hreports : op.reportsWritable = m.1.reportsWritable := by
        unfold SendOp.reportsWritable
        rw [hop]
        rfl
      rw [hreports]
      refine (BufferedThread.writesLeft_of_watches hwf hopen.watches hi hwaits
        (htakes m (by rw [hop]; rfl)) hstep).imp_left ?_
      rintro ⟨hclose, hideal⟩
      exact LoopThread.removed_of_step hfresh hideal (Or.inl hclose)

/-! ## The loop -/

/-- What a step does to the loop: nothing, or a step of the loop that counts as its own if this
one does. -/
theorem ev_of_step (hstep : s.step op = some t) :
    (op.own = false ∧ t.ev = s.ev) ∨ ∃ op' : LoopOp (TaggedTask τ) τ,
      s.ev.step op' = some t.ev ∧ op.own = op'.own ∧ (s.NoQuit op → s.ev.NoQuit op') := by
  unfold step at hstep
  split at hstep
  · cases hstep
  · cases op with
    | loop op =>
        simp only [Option.ite_none_right_eq_some, Option.map_eq_some_iff] at hstep
        obtain ⟨-, ev, hev, rfl⟩ := hstep
        exact Or.inr ⟨op, hev, rfl, id⟩
    | poll revents =>
        simp only [Option.bind_eq_some_iff, Option.map_eq_some_iff] at hstep
        obtain ⟨ev, hev, thread, -, rfl⟩ := hstep
        exact Or.inr ⟨.pollReturns, hev, rfl, fun _ => rfl⟩
    | move m slack =>
        simp only [Option.ite_none_right_eq_some, Option.map_eq_some_iff] at hstep
        obtain ⟨-, thread, -, rfl⟩ := hstep
        refine Or.inl ⟨rfl, ?_⟩
        unfold called
        split
        · split
          · rfl
          · rfl
        · rfl
    | runTask r slack =>
        simp only [Option.ite_none_right_eq_some, Option.bind_eq_some_iff,
          Option.map_eq_some_iff] at hstep
        obtain ⟨-, task, -, ev, hev, rfl⟩ := hstep
        exact Or.inr ⟨.call, hev, rfl, fun _ => rfl⟩
    | start u call =>
        simp only [Option.ite_none_right_eq_some, Option.some.injEq] at hstep
        obtain ⟨-, rfl⟩ := hstep
        refine Or.inl ⟨rfl, ?_⟩
        cases call with
        | send msg | shutdown =>
            unfold startCall
            simp only
            split
            · rfl
            · rfl
        | close => rfl
    | advance u =>
        simp only at hstep
        split at hstep
        · cases hstep
        · simp only [pushTask, Option.map_eq_some_iff] at hstep
          obtain ⟨ev, hev, rfl⟩ := hstep
          exact Or.inr ⟨_, hev, rfl, fun _ => rfl⟩
        · obtain rfl := Option.some.inj hstep
          exact Or.inl ⟨rfl, rfl⟩
        · simp only [pushTask, Option.map_eq_some_iff] at hstep
          obtain ⟨ev, hev, rfl⟩ := hstep
          exact Or.inr ⟨_, hev, rfl, fun _ => rfl⟩
        · simp only [pushTask, Option.map_eq_some_iff] at hstep
          obtain ⟨ev, hev, rfl⟩ := hstep
          exact Or.inr ⟨_, hev, rfl, fun _ => rfl⟩

/-- The messages whose `sendTask` has been called are in the stream. -/
def Recorded (s : SendOrder τ) : Prop :=
  ∀ x ∈ s.ev.ran.filterMap TaggedTask.message, x ∈ s.stream

theorem standing_of_step (h : s.thread.Standing) (hstep : s.step op = some t) :
    t.thread.Standing := by
  obtain ⟨hrun, hc⟩ := changed_of_step hstep
  exact hc.standing h hrun

theorem pushed_of_step (hstep : s.step op = some t) : s.ev.pushed <+: t.ev.pushed := by
  rcases ev_of_step hstep with ⟨-, hsame⟩ | ⟨op', hev, -, -⟩
  · rw [hsame]
  · exact EventLoop.pushed_of_step hev

/-- What is in the stream stays there. -/
theorem stream_of_run {more : List (SendOp τ)} (h : s.thread.Standing)
    (hmore : Runs.run step s more = some t) : s.thread.stream <+: t.thread.stream :=
  ((Runs.Along.of_invariant
    (P := fun a : SendOrder τ => a.thread.Standing ∧ s.thread.stream <+: a.thread.stream)
    (fun _ _ _ ha hstep => ⟨standing_of_step ha.1 hstep,
      ha.2.trans ((changed_of_step hstep).2.grows ha.1.wf).1⟩)
    ⟨h, List.prefix_rfl⟩).final hmore).2

end SendOrder

end Lotta
