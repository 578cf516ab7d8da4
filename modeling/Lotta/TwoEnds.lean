/-
# The two ends of a connection

A connection carries a stream of bytes in each direction.  At each end is a process with its
threads, its loop and a connection with real buffers: messages go from the threads over the
queue of the loop and `outBuf_` into the kernel, and at the other end from the kernel into
`inBuf`, from which user code retrieves them.  Between the two kernels TCP carries the bytes
that it has taken, in order, with any delay.

`run_oneStream` follows a byte through all of it.  In every run of the two processes, what one
end has retrieved, what waits in its `inBuf` and at its socket, and what is on the way, are
together the bytes that the kernel of the other end has taken on the socket, and these are the
first bytes of the messages of its threads, each thread's in program order: in exactly those
runs in which each step keeps the bytes that pass through it.

This is said of an end while it has its socket.  `close()` in another callback of the iteration
gives the socket up while `handleEvent` of the connection is still to come, and a `sendTask` may
still wait in the queue: then the code writes to the descriptor and reads from it, whatever it
is by then.
-/
import Lotta.ReadFailure
import Lotta.SendOrder

namespace Lotta

/-! ## One end -/

/-- One end of a connection.  `unread` are the bytes that have arrived at its socket; `flow`
are the bytes that its kernel has taken on the socket, of which the first `arrived` have come to
the other end. -/
structure StreamEnd (τ : Type*) where
  out : SendOrder τ
  input : Buffer.Traced
  unread : List UInt8
  flow : List UInt8
  arrived : ℕ

/-- The step runs the next piece of code. -/
def SendOp.proceeds {τ : Type*} : SendOp τ → Bool
  | .move m _ => m.isProceed
  | _ => false

namespace StreamEnd

variable {τ : Type*} [DecidableEq τ]

/-- An end in the `connCallback_` of its connection. -/
def init (asserts : Bool) (fd : ℤ) (capacity : ℕ) (pc : LoopPc) : StreamEnd τ where
  out := SendOrder.init asserts fd capacity pc
  input := Buffer.Traced.init Buffer.kInitLen
  unread := []
  flow := []
  arrived := 0

/-- The connection still has its socket. -/
def hasSocket (x : StreamEnd τ) : Bool := x.out.thread.conn.base.socket

/-- The bytes that its kernel has taken and that have not arrived. -/
def wire (x : StreamEnd τ) : List UInt8 := x.flow.drop x.arrived

/-- What user code has retrieved, and what it can retrieve. -/
def received (x : StreamEnd τ) : List UInt8 := x.input.fifo.history

/-- The end after a step of its threads; what goes to another socket is no part of the flow. -/
def advance (x : StreamEnd τ) (out : SendOrder τ) : StreamEnd τ :=
  { x with out := out, flow := if x.hasSocket then out.thread.conn.base.kernel else x.flow }

/-- A step of its threads other than `handleRead`. -/
def act (x : StreamEnd τ) (op : SendOp τ) : Option (StreamEnd τ) :=
  if op.proceeds = true ∧ x.out.thread.reads = true then none
  else (x.out.step op).map x.advance

/-- The end with what a call of `readFrom` has come to. -/
def fill (x : StreamEnd τ) (o : ReadOutcome) : StreamEnd τ :=
  { x with
    out := { x.out with thread := x.out.thread.check o.full }
    input := { x.input with buf := o.inBuf, appended := x.input.appended ++ o.taken }
    unread := o.unread }

/-- The rest of `handleRead`, when `readFrom` has returned `ret`. -/
def afterRead (x : StreamEnd τ) (ret : ℤ) : Option (StreamEnd τ) :=
  if x.out.thread.conn.base.aborted then some x
  else (x.out.step (.move (.proceed ret .failed) 0)).map x.advance

/-- `handleRead` calls `readFrom`, and this has come to `o`. -/
def read (x : StreamEnd τ) (o : ReadOutcome) : Option (StreamEnd τ) :=
  if x.out.thread.reads = true ∧ x.out.thread.conn.base.aborted = false then
    (x.fill o).afterRead o.ret
  else none

/-- `handleRead`. -/
def handleRead (x : StreamEnd τ) (r : ReadResult) (slack : ℕ) : Option (StreamEnd τ) :=
  if x.hasSocket then x.read (x.input.buf.readSocket x.unread r slack) else none

/-- `handleRead` when `close()` has given the socket up. -/
def handleReadGivenUp (x : StreamEnd τ) {n : ℕ} (r : ReadAnswer n) (slack : ℕ) :
    Option (StreamEnd τ) :=
  if x.hasSocket then none else x.read (x.input.buf.readGivenUp x.unread r slack)

/-- User code on the loop thread retrieves bytes from `inBuf`. -/
def consume (x : StreamEnd τ) : Buffer.Op → Option (StreamEnd τ)
  | .append _ _ => none
  | op =>
      if ConnSystem.runsCode x.out.ev.pc ∧ LoopThread.userRuns x.out.thread.todo = true then
        (x.input.step op).map fun input => { x with input := input }
      else none

end StreamEnd

/-! ## Both ends -/

/-- The two ends of a connection. -/
inductive Side where
  | client
  | server
  deriving DecidableEq, Repr

/-- The other end. -/
def Side.other : Side → Side
  | .client => .server
  | .server => .client

@[simp] theorem Side.other_other (e : Side) : e.other.other = e := by cases e <;> rfl

theorem Side.other_ne (e : Side) : e.other ≠ e := by cases e <;> decide

/-- A connection with both its ends. -/
structure TwoEnds (τ : Type*) where
  ends : Side → StreamEnd τ

/-- The steps: the threads of an end make one, its loop thread reads from its socket or from the
descriptor that it had, its user code retrieves bytes, and `k` bytes from an end arrive at the
other. -/
inductive TwoEndsOp (τ : Type*) where
  | act (e : Side) (op : SendOp τ)
  | handleRead (e : Side) (r : ReadResult) (slack : ℕ)
  | handleReadGivenUp (e : Side) (n : ℕ) (r : ReadAnswer n) (slack : ℕ)
  | consume (e : Side) (op : Buffer.Op)
  | arrive (e : Side) (k : ℕ)

namespace TwoEnds

variable {τ : Type*} [DecidableEq τ]

/-- A connection both of whose ends are in their `connCallback_`. -/
def init (asserts : Side → Bool) (fd : Side → ℤ) (capacity : Side → ℕ) (pc : Side → LoopPc) :
    TwoEnds τ :=
  ⟨fun e => StreamEnd.init (asserts e) (fd e) (capacity e) (pc e)⟩

/-- One end goes on. -/
def setEnd (s : TwoEnds τ) (e : Side) (x : StreamEnd τ) : TwoEnds τ :=
  ⟨Function.update s.ends e x⟩

/-- The next `k` bytes from the end `e` arrive. -/
def arrive (s : TwoEnds τ) (e : Side) (k : ℕ) : TwoEnds τ :=
  let x := s.ends e
  let y := s.ends e.other
  (s.setEnd e { x with arrived := x.arrived + k }).setEnd e.other
    { y with unread := y.unread ++ x.wire.take k }

/-- One step. -/
def step (s : TwoEnds τ) : TwoEndsOp τ → Option (TwoEnds τ)
  | .act e op => ((s.ends e).act op).map (s.setEnd e)
  | .handleRead e r slack => ((s.ends e).handleRead r slack).map (s.setEnd e)
  | .handleReadGivenUp e _ r slack => ((s.ends e).handleReadGivenUp r slack).map (s.setEnd e)
  | .consume e op => ((s.ends e).consume op).map (s.setEnd e)
  | .arrive e k => if k ≤ (s.ends e).wire.length then some (s.arrive e k) else none

end TwoEnds

/-! ## What is stated -/

namespace StreamEnd

variable {τ : Type*}

/-- The read fills the room that has been made for it, and `inBuf` is a byte queue. -/
def ReadsAll (x : StreamEnd τ) (r : ReadResult) : Prop :=
  r.count x.unread.length = x.unread.length ∧ ¬ x.input.buf.DrainedFull

end StreamEnd

namespace TwoEnds

variable {τ : Type*} [DecidableEq τ]

/-- The bytes pass from end to end. -/
structure OneStream (s : TwoEnds τ) : Prop where
  /-- The messages of each thread are its calls, those in the stream before those that wait. -/
  order : ∀ e, (s.ends e).out.InProgramOrder
  /-- While the other end has its socket, what the kernel has taken is where it should be. -/
  carried : ∀ e, (s.ends e.other).hasSocket = true →
    (s.ends e.other).received ++ (s.ends e.other).unread ++ (s.ends e).wire = (s.ends e).flow
  /-- While the connection has its socket, the rest of the messages waits in `outBuf_`. -/
  whole : ∀ e, (s.ends e).hasSocket = true →
    (s.ends e).flow ++ (s.ends e).out.thread.conn.outBuf.content = (s.ends e).out.streamBytes
  /-- What the kernel has taken are the first bytes of the messages. -/
  beginning : ∀ e, (s.ends e).flow <+: (s.ends e).out.streamBytes

/-- The condition on a step: it keeps the bytes that pass through it. -/
def Keeps (s : TwoEnds τ) : TwoEndsOp τ → Prop
  | .act e op => (s.ends e).out.KeepsBytes op
  | .handleRead e r _ => (s.ends e).ReadsAll r
  | _ => True

end TwoEnds

/-! ## What the kernel has taken stays taken -/

/-- A `sendTask` takes nothing back from the kernel. -/
theorem BufferedConnection.kernel_sendTask (c : BufferedConnection) (msg : Message)
    (r : WriteResult) (slack : ℕ) : c.base.kernel <+: (c.sendTask msg r slack).base.kernel := by
  have hideal := congrArg TcpConnection.kernel (ideal_sendTask c msg r slack)
  show c.ideal.fifo.taken <+: (c.sendTask msg r slack).ideal.kernel
  rw [hideal]
  show c.ideal.fifo.taken <+: (c.ideal.sendTask msg r).fifo.taken
  cases hc : c.ideal.writesDirectly with
  | false =>
      rw [TcpConnection.fifo_sendTask_buffered hc]
      exact List.prefix_rfl
  | true =>
      cases r with
      | accepted k =>
          rw [TcpConnection.fifo_sendTask_accepted hc]
          exact List.prefix_append _ _
      | failed => rw [TcpConnection.fifo_sendTask_failed hc]

namespace SendOrder

variable {τ : Type*} {s t : SendOrder τ} {op : SendOp τ}

theorem Goes.kernel (h : Goes s op t) :
    s.thread.conn.base.kernel <+: t.thread.conn.base.kernel := by
  cases h with
  | still h => exact h.fifo.taken
  | sent u msg r slack h =>
      rw [h.conn]
      exact BufferedConnection.kernel_sendTask _ msg r slack

/-- The stream only grows. -/
theorem Goes.streamBytes (h : Goes s op t) : s.streamBytes <+: t.streamBytes := by
  unfold SendOrder.streamBytes
  cases h with
  | still h => rw [h.stream]
  | sent u msg r slack h =>
      rw [h.stream, List.flatMap_append]
      exact List.prefix_append _ _

/-- A step that keeps the bytes leads to the bytes of the stream, even if it is the one that
gives the socket up. -/
theorem Goes.history (h : Goes s op t) (hwf : s.thread.conn.outBuf.Wf) (hs : s.CarriesStream)
    (hsocket : s.thread.conn.base.socket = true) (hok : s.KeepsBytes op) :
    t.thread.conn.ideal.fifo.history = t.streamBytes := by
  cases h with
  | still h =>
      rw [h.fifo.history, hs hsocket, SendOrder.streamBytes, SendOrder.streamBytes, h.stream]
  | sent u msg r slack h hiff =>
      have hbytes : t.streamBytes = s.streamBytes ++ msg.bytes := by
        rw [SendOrder.streamBytes, SendOrder.streamBytes, h.stream, List.flatMap_append,
          List.flatMap_singleton]
      rw [h.conn, hbytes, ← hs hsocket]
      exact (BufferedConnection.history_sendTask_iff hwf msg r slack).mpr (hiff.mp hok hsocket)

/-- `handleRead` keeps the socket. -/
theorem socket_of_reads [DecidableEq τ] {ret : ℤ} (hreads : s.thread.reads = true)
    (hstep : s.step (.move (.proceed ret .failed) 0) = some t) :
    t.thread.conn.base.socket = s.thread.conn.base.socket := by
  unfold step at hstep
  split at hstep
  · cases hstep
  · simp only [Option.ite_none_right_eq_some, Option.map_eq_some_iff] at hstep
    obtain ⟨-, thread, hthread, rfl⟩ := hstep
    exact BufferedThread.socket_of_reads hreads hthread

/-- A socket that has been given up does not come back. -/
theorem Goes.socket (h : Goes s op t) (ht : t.thread.conn.base.socket = true) :
    s.thread.conn.base.socket = true := by
  cases h with
  | still h => exact h.socket ht
  | sent u msg r slack h =>
      rw [h.conn] at ht
      have hideal := congrArg TcpConnection.socket
        (BufferedConnection.ideal_sendTask s.thread.conn msg r slack)
      exact (hideal.trans (TcpConnection.socket_sendTask s.thread.conn.ideal msg r)).symm.trans ht

end SendOrder

/-! ## Steps of one end -/

namespace StreamEnd

variable {τ : Type*} [DecidableEq τ] {x y : StreamEnd τ}

/-- What every step of an end keeps. -/
structure Inv (x : StreamEnd τ) : Prop where
  out : SendOrder.Inv x.out
  input : x.input.buf.Wf
  kernel : x.hasSocket = true → x.flow = x.out.thread.conn.base.kernel
  arrived_le : x.arrived ≤ x.flow.length

/-- What a step of an end leaves as it is for the other end. -/
structure Kept (x y : StreamEnd τ) : Prop where
  arrived : y.arrived = x.arrived
  flow : x.flow <+: y.flow
  socket : y.hasSocket = true → x.hasSocket = true
  read : y.hasSocket = true → y.input.appended ++ y.unread = x.input.appended ++ x.unread

omit [DecidableEq τ] in
theorem Kept.trans {z : StreamEnd τ} (h : Kept x y) (h' : Kept y z) : Kept x z where
  arrived := h'.arrived.trans h.arrived
  flow := h.flow.trans h'.flow
  socket := fun hz => h.socket (h'.socket hz)
  read := fun hz => (h'.read hz).trans (h.read (h'.socket hz))

/-- The output of the end is in order. -/
structure OutSound (x : StreamEnd τ) : Prop where
  carries : x.out.CarriesStream
  beginning : x.flow <+: x.out.streamBytes

/-- While the end has its socket, its `inBuf` is a byte queue. -/
def InSound (x : StreamEnd τ) : Prop := x.hasSocket = true → x.input.ByteQueue

theorem inv_init (asserts : Bool) (fd : ℤ) (capacity : ℕ) (pc : LoopPc) :
    Inv (init asserts fd capacity pc : StreamEnd τ) where
  out := SendOrder.inv_init asserts fd capacity pc
  input := Buffer.wf_init _
  kernel := fun _ => by cases asserts <;> rfl
  arrived_le := Nat.le_refl 0

omit [DecidableEq τ] in
theorem outSound_init (asserts : Bool) (fd : ℤ) (capacity : ℕ) (pc : LoopPc) :
    OutSound (init asserts fd capacity pc : StreamEnd τ) where
  carries := fun _ => by cases asserts <;> rfl
  beginning := List.prefix_rfl

/-- A step of the threads of an end. -/
theorem advance_of_step {op : SendOp τ} {out : SendOrder τ} (h : x.Inv)
    (hstep : x.out.step op = some out) :
    (x.advance out).Inv ∧ Kept x (x.advance out) ∧
      (x.OutSound → ((x.advance out).OutSound ↔ x.out.KeepsBytes op)) := by
  obtain ⟨hinv, hgoes⟩ := SendOrder.goes_of_step h.out hstep
  have hsocket : (x.advance out).hasSocket = true → x.hasSocket = true := hgoes.socket
  have hflow : x.flow <+: (x.advance out).flow := by
    show x.flow <+: if x.hasSocket then out.thread.conn.base.kernel else x.flow
    split
    · rename_i hopen
      rw [h.kernel hopen]
      exact hgoes.kernel
    · exact List.prefix_rfl
  refine ⟨⟨hinv, h.input, fun hopen => if_pos (hsocket hopen), ?_⟩,
    ⟨rfl, hflow, hsocket, fun _ => rfl⟩, fun hs => ?_⟩
  · exact h.arrived_le.trans hflow.length_le
  · have hiff := hgoes.carriesStream_iff h.out.wf hs.carries
    refine ⟨fun ht => hiff.mp ht.carries, fun hok => ⟨hiff.mpr hok, ?_⟩⟩
    show (if x.hasSocket then out.thread.conn.base.kernel else x.flow) <+: out.streamBytes
    split
    · rename_i hopen
      rw [← hgoes.history h.out.wf hs.carries hopen hok]
      exact List.prefix_append _ _
    · exact hs.beginning.trans hgoes.streamBytes

/-- The assertion of `readFrom` leaves the output alone. -/
theorem Inv.fill (h : x.Inv) {o : ReadOutcome} (hwf : o.inBuf.Wf) :
    (x.fill o).Inv ∧ (x.OutSound → (x.fill o).OutSound) :=
  ⟨⟨⟨h.out.ev, h.out.order, h.out.direct, h.out.wf⟩, hwf, h.kernel, h.arrived_le⟩,
    fun hs => ⟨hs.carries, hs.beginning⟩⟩

/-- The rest of `handleRead` takes no bytes and gives no socket up. -/
theorem afterRead_spec (h : x.Inv) {ret : ℤ} (hreads : x.out.thread.reads = true)
    (hstep : x.afterRead ret = some y) :
    y.Inv ∧ Kept x y ∧ (x.OutSound → y.OutSound) ∧ y.input = x.input ∧
      y.hasSocket = x.hasSocket := by
  unfold afterRead at hstep
  split at hstep
  · -- the assertion of `readFrom` has failed
    obtain rfl := Option.some.inj hstep
    exact ⟨h, ⟨rfl, List.prefix_rfl, id, fun _ => rfl⟩, id, rfl, rfl⟩
  · rw [Option.map_eq_some_iff] at hstep
    obtain ⟨out, hmove, rfl⟩ := hstep
    obtain ⟨hinv, hkept, hout⟩ := advance_of_step h hmove
    exact ⟨hinv, hkept, fun hs => (hout hs).mpr fun _ => trivial, rfl,
      SendOrder.socket_of_reads hreads hmove⟩

/-- `handleRead`, whatever its `readFrom` has come to. -/
theorem read_spec (h : x.Inv) {o : ReadOutcome} (hwf : o.inBuf.Wf)
    (hkept : Kept x (x.fill o)) (hstep : x.read o = some y) :
    y.Inv ∧ Kept x y ∧ (x.OutSound → y.OutSound) ∧ y.input = (x.fill o).input ∧
      y.hasSocket = x.hasSocket := by
  unfold read at hstep
  rw [Option.ite_none_right_eq_some] at hstep
  obtain ⟨⟨hreads, -⟩, hstep⟩ := hstep
  obtain ⟨hfill, hsound⟩ := h.fill hwf
  obtain ⟨hinv, hkept', hout, hinput, hsocket⟩ := afterRead_spec hfill hreads hstep
  exact ⟨hinv, hkept.trans hkept', fun hs => hout (hsound hs), hinput, hsocket⟩

/-- `handleRead` keeps `inBuf` a byte queue exactly when it reads all that it has counted. -/
theorem handleRead_spec (h : x.Inv) {r : ReadResult} {slack : ℕ}
    (hstep : x.handleRead r slack = some y) :
    y.Inv ∧ Kept x y ∧ (x.OutSound → y.OutSound) ∧ (x.InSound → (y.InSound ↔ x.ReadsAll r)) := by
  unfold handleRead at hstep
  rw [Option.ite_none_right_eq_some] at hstep
  obtain ⟨hopen, hstep⟩ := hstep
  have hkept : Kept x (x.fill (x.input.buf.readSocket x.unread r slack)) := by
    refine ⟨rfl, List.prefix_rfl, id, fun _ => ?_⟩
    show x.input.appended ++ x.unread.take _ ++ x.unread.drop _ = x.input.appended ++ x.unread
    rw [List.append_assoc, List.take_append_drop]
  obtain ⟨hinv, hkept, hout, hinput, hsocket⟩ :=
    read_spec h (Buffer.wf_readFrom h.input x.unread r slack) hkept hstep
  refine ⟨hinv, hkept, hout, fun hs => ?_⟩
  have hlaw : x.input.consumed ++ x.input.buf.content = x.input.appended := hs hopen
  rw [InSound, hsocket, hinput]
  refine (forall_prop_of_true hopen).trans ?_
  show _ ↔ r.count x.unread.length = x.unread.length ∧ ¬ x.input.buf.DrainedFull
  rw [← Buffer.content_readFrom_iff h.input x.unread r slack]
  show x.input.consumed ++ (x.input.buf.readFrom x.unread r slack).2.content =
    x.input.appended ++ x.unread.take _ ↔ _
  rw [← hlaw, List.append_assoc, List.append_right_inj]

/-- A read without a socket is no part of the stream. -/
theorem handleReadGivenUp_spec (h : x.Inv) {n : ℕ} {r : ReadAnswer n} {slack : ℕ}
    (hstep : x.handleReadGivenUp r slack = some y) :
    y.Inv ∧ Kept x y ∧ (x.OutSound → y.OutSound) ∧ y.InSound := by
  unfold handleReadGivenUp at hstep
  rw [Option.ite_none_left_eq_some] at hstep
  obtain ⟨hgone, hstep⟩ := hstep
  have hkept : Kept x (x.fill (x.input.buf.readGivenUp x.unread r slack)) :=
    ⟨rfl, List.prefix_rfl, id, fun hopen => absurd hopen hgone⟩
  obtain ⟨hinv, hkept, hout, -, -⟩ :=
    read_spec h (Buffer.wf_readGivenUp h.input x.unread r slack) hkept hstep
  exact ⟨hinv, hkept, hout, fun hopen => absurd (hkept.socket hopen) hgone⟩

/-- What user code retrieves stays received. -/
theorem consume_spec (h : x.Inv) {op : Buffer.Op} (hstep : x.consume op = some y) :
    y.Inv ∧ Kept x y ∧ (x.OutSound → y.OutSound) ∧ (x.InSound → y.InSound) := by
  have hcases : ∃ input, x.input.step op = some input ∧ (∀ xs slack, op ≠ .append xs slack) ∧
      y = { x with input := input } := by
    cases op with
    | append xs slack => cases hstep
    | _ =>
        simp only [consume, Option.ite_none_right_eq_some, Option.map_eq_some_iff] at hstep
        obtain ⟨-, input, hinput, rfl⟩ := hstep
        exact ⟨input, hinput, fun _ _ => by simp, rfl⟩
  obtain ⟨input, hinput, hop, rfl⟩ := hcases
  have happended : input.appended = x.input.appended := by
    rcases Buffer.Traced.step_cases hinput with ⟨xs, slack, rfl, -⟩ | ⟨-, n, -, rfl⟩
    · exact absurd rfl (hop xs slack)
    · rfl
  refine ⟨⟨h.out, Buffer.Traced.wf_step h.input hinput, h.kernel, h.arrived_le⟩,
    ⟨rfl, List.prefix_rfl, id, fun _ => ?_⟩, fun hs => ⟨hs.carries, hs.beginning⟩,
    fun hs hopen => ?_⟩
  · show input.appended ++ x.unread = _
    rw [happended]
  · refine (Buffer.Traced.byteQueue_step_iff h.input (hs hopen) hinput).mpr ?_
    cases op with
    | append xs slack => exact absurd rfl (hop xs slack)
    | _ => trivial

end StreamEnd

/-! ## Steps of the connection -/

namespace TwoEnds

variable {τ : Type*} [DecidableEq τ] {s t : TwoEnds τ}

/-- What every step keeps, whether bytes are lost or not. -/
structure Inv (s : TwoEnds τ) : Prop where
  ends : ∀ e, (s.ends e).Inv
  read : ∀ e, (s.ends e.other).hasSocket = true →
    (s.ends e.other).input.appended ++ (s.ends e.other).unread =
      (s.ends e).flow.take (s.ends e).arrived

/-- Both ends keep the bytes that pass through them. -/
structure Sound (s : TwoEnds τ) : Prop where
  out : ∀ e, (s.ends e).OutSound
  input : ∀ e, (s.ends e).InSound

/-- The bytes pass from end to end exactly when both ends keep theirs. -/
theorem Inv.oneStream_iff (h : s.Inv) : s.OneStream ↔ s.Sound := by
  have hflow : ∀ e, (s.ends e.other).hasSocket = true →
      (s.ends e.other).input.appended ++ (s.ends e.other).unread ++ (s.ends e).wire =
        (s.ends e).flow := by
    intro e hopen
    rw [h.read e hopen]
    exact List.take_append_drop _ _
  constructor
  · intro hs
    refine ⟨fun e => ⟨fun hsocket => ?_, hs.beginning e⟩, fun e hopen => ?_⟩
    · have hwhole := hs.whole e hsocket
      rw [(h.ends e).kernel hsocket] at hwhole
      exact hwhole
    · rw [← Side.other_other e] at hopen
      have hcarried := (hs.carried e.other hopen).trans (hflow e.other hopen).symm
      rw [Side.other_other, List.append_left_inj, List.append_left_inj] at hcarried
      exact hcarried
  · intro hs
    refine ⟨fun e u => ?_, fun e hopen => ?_, fun e hsocket => ?_, fun e => (hs.out e).beginning⟩
    · rw [← (h.ends e).out.order u, Tagged.itemsOf_append]
    · have hqueue : (s.ends e.other).received = (s.ends e.other).input.appended :=
        hs.input e.other hopen
      rw [hqueue]
      exact hflow e hopen
    · rw [(h.ends e).kernel hsocket]
      exact (hs.out e).carries hsocket

omit [DecidableEq τ] in
theorem ends_setEnd_self (s : TwoEnds τ) (e : Side) (x : StreamEnd τ) :
    (s.setEnd e x).ends e = x := by
  unfold setEnd
  exact Function.update_self e x s.ends

omit [DecidableEq τ] in
theorem ends_setEnd_of_ne (s : TwoEnds τ) {d e : Side} (hd : d ≠ e) (x : StreamEnd τ) :
    (s.setEnd e x).ends d = s.ends d := by
  unfold setEnd
  exact Function.update_of_ne hd x s.ends

/-- One end makes a step. -/
theorem Inv.setEnd (h : s.Inv) {e : Side} {x : StreamEnd τ} (hx : x.Inv)
    (hkept : StreamEnd.Kept (s.ends e) x) : (s.setEnd e x).Inv := by
  have hself := ends_setEnd_self s e x
  have hother := ends_setEnd_of_ne s e.other_ne x
  have hread : ∀ d, d = e ∨ d = e.other := fun d => by cases d <;> cases e <;> simp [Side.other]
  constructor
  · intro d
    rcases hread d with rfl | rfl
    · rw [hself]
      exact hx
    · rw [hother]
      exact h.ends _
  · intro d
    rcases hread d with rfl | rfl
    · obtain ⟨new, hnew⟩ := hkept.flow
      rw [hself, hother]
      intro hopen
      rw [h.read _ hopen, hkept.arrived, ← hnew,
        List.take_append_of_le_length (h.ends _).arrived_le]
    · have hold := h.read e.other
      rw [Side.other_other] at hold ⊢
      rw [hself, hother]
      intro hopen
      rw [hkept.read hopen, hold (hkept.socket hopen)]

omit [DecidableEq τ] in
/-- Soundness after a step of one end, when only that end has a condition. -/
theorem Sound.setEnd_iff (hs : s.Sound) {e : Side} {x : StreamEnd τ} :
    (s.setEnd e x).Sound ↔ x.OutSound ∧ x.InSound := by
  have hself := ends_setEnd_self s e x
  constructor
  · intro ht
    have hout := ht.out e
    have hinput := ht.input e
    rw [hself] at hout hinput
    exact ⟨hout, hinput⟩
  · rintro ⟨hout, hinput⟩
    refine ⟨fun d => ?_, fun d => ?_⟩
    · by_cases hd : d = e
      · rw [hd, hself]
        exact hout
      · rw [ends_setEnd_of_ne s hd]
        exact hs.out d
    · by_cases hd : d = e
      · rw [hd, hself]
        exact hinput
      · rw [ends_setEnd_of_ne s hd]
        exact hs.input d

/-- Bytes come from one socket to the other. -/
theorem Inv.arrive (h : s.Inv) {e : Side} {k : ℕ} (hk : k ≤ (s.ends e).wire.length) :
    (s.arrive e k).Inv ∧ (s.Sound → (s.arrive e k).Sound) := by
  have hfrom : (s.arrive e k).ends e =
      { s.ends e with arrived := (s.ends e).arrived + k } :=
    (ends_setEnd_of_ne _ e.other_ne.symm _).trans (ends_setEnd_self _ _ _)
  have hto : (s.arrive e k).ends e.other =
      { s.ends e.other with unread := (s.ends e.other).unread ++ (s.ends e).wire.take k } :=
    ends_setEnd_self _ _ _
  have hread : ∀ d, d = e ∨ d = e.other := fun d => by cases d <;> cases e <;> simp [Side.other]
  refine ⟨⟨fun d => ?_, fun d => ?_⟩, fun hs => ⟨fun d => ?_, fun d => ?_⟩⟩
  · obtain rfl | rfl := hread d
    · obtain ⟨hout, hinput, hkernel, hle⟩ := h.ends d
      rw [hfrom]
      refine ⟨hout, hinput, hkernel, ?_⟩
      show (s.ends d).arrived + k ≤ (s.ends d).flow.length
      rw [StreamEnd.wire, List.length_drop] at hk
      omega
    · rw [hto]
      exact ⟨(h.ends _).out, (h.ends _).input, (h.ends _).kernel, (h.ends _).arrived_le⟩
  · obtain rfl | rfl := hread d
    · rw [hfrom, hto]
      intro hopen
      show _ ++ ((s.ends d.other).unread ++ (s.ends d).wire.take k) =
        (s.ends d).flow.take ((s.ends d).arrived + k)
      rw [← List.append_assoc, h.read d hopen, List.take_add]
      rfl
    · have hold := h.read e.other
      rw [Side.other_other] at hold ⊢
      rw [hfrom, hto]
      exact hold
  · obtain rfl | rfl := hread d
    · rw [hfrom]
      exact ⟨(hs.out d).carries, (hs.out d).beginning⟩
    · rw [hto]
      exact ⟨(hs.out _).carries, (hs.out _).beginning⟩
  · obtain rfl | rfl := hread d
    · rw [hfrom]
      exact hs.input d
    · rw [hto]
      exact hs.input _

/-- What one step does. -/
theorem goes_of_step {op : TwoEndsOp τ} (h : s.Inv) (hstep : s.step op = some t) :
    t.Inv ∧ (s.Sound → (t.Sound ↔ s.Keeps op)) := by
  cases op with
  | act e op =>
      simp only [step, StreamEnd.act, Option.map_eq_some_iff, Option.ite_none_left_eq_some] at hstep
      obtain ⟨x, ⟨-, out, hout, rfl⟩, rfl⟩ := hstep
      obtain ⟨hinv, hkept, hiff⟩ := StreamEnd.advance_of_step (h.ends e) hout
      refine ⟨h.setEnd hinv hkept, fun hs => ?_⟩
      rw [hs.setEnd_iff, hiff (hs.out e)]
      exact and_iff_left fun hopen => hs.input e (hkept.socket hopen)
  | handleRead e r slack =>
      simp only [step, Option.map_eq_some_iff] at hstep
      obtain ⟨x, hread, rfl⟩ := hstep
      obtain ⟨hinv, hkept, hout, hiff⟩ := StreamEnd.handleRead_spec (h.ends e) hread
      refine ⟨h.setEnd hinv hkept, fun hs => ?_⟩
      rw [hs.setEnd_iff, hiff (hs.input e)]
      exact and_iff_right (hout (hs.out e))
  | handleReadGivenUp e n r slack =>
      simp only [step, Option.map_eq_some_iff] at hstep
      obtain ⟨x, hread, rfl⟩ := hstep
      obtain ⟨hinv, hkept, hout, hsound⟩ := StreamEnd.handleReadGivenUp_spec (h.ends e) hread
      refine ⟨h.setEnd hinv hkept, fun hs => ?_⟩
      rw [hs.setEnd_iff]
      exact iff_of_true ⟨hout (hs.out e), hsound⟩ trivial
  | consume e op =>
      simp only [step, Option.map_eq_some_iff] at hstep
      obtain ⟨x, hconsume, rfl⟩ := hstep
      obtain ⟨hinv, hkept, hout, hqueue⟩ := StreamEnd.consume_spec (h.ends e) hconsume
      refine ⟨h.setEnd hinv hkept, fun hs => ?_⟩
      rw [hs.setEnd_iff]
      exact iff_of_true ⟨hout (hs.out e), hqueue (hs.input e)⟩ trivial
  | arrive e k =>
      simp only [step, Option.ite_none_right_eq_some, Option.some.injEq] at hstep
      obtain ⟨hk, rfl⟩ := hstep
      obtain ⟨hinv, hsound⟩ := h.arrive hk
      exact ⟨hinv, fun hs => iff_of_true (hsound hs) trivial⟩

/-! ## Runs -/

/-- Along a run of both processes and of the network between them the bytes pass from end to
end, the messages of each thread in program order, exactly when every step keeps the bytes that
pass through it: no direct write of a message with content fails, each read fills the room that
was made for it, and no append and no read finds its buffer drained and full.  Both sides speak
of an end while it has its socket.  What is written and read after `close()` has given it up is no
part of the stream, and of such reads those for which `ioctl` leaves a negative count are not
followed. -/
theorem run_oneStream (asserts : Side → Bool) (fd : Side → ℤ) (capacity : Side → ℕ)
    (pc : Side → LoopPc) (ops : List (TwoEndsOp τ)) :
    Runs.Along step OneStream (init asserts fd capacity pc) ops ↔
      Runs.AllSteps step Keeps (init asserts fd capacity pc) ops := by
  have hinv : (init asserts fd capacity pc : TwoEnds τ).Inv :=
    ⟨fun e => StreamEnd.inv_init (asserts e) (fd e) (capacity e) (pc e), fun _ _ => rfl⟩
  refine Runs.along_iff_allSteps (J := Inv) (fun _ _ _ h hstep => (goes_of_step h hstep).1)
    (fun u op v h hs hstep => ?_) hinv (hinv.oneStream_iff.mpr ⟨fun e => ?_, fun _ _ => rfl⟩)
  · obtain ⟨hv, hiff⟩ := goes_of_step h hstep
    rw [hv.oneStream_iff]
    exact hiff (h.oneStream_iff.mp hs)
  · exact StreamEnd.outSound_init (asserts e) (fd e) (capacity e) (pc e)

-- two bytes from a callback of the client to one of the server
example :
    (Runs.run step
      (init (τ := Unit) (fun _ => true) (fun _ => 7) (fun _ => 8) fun _ => .handlers false)
      [.act .client (.move (.send ⟨[1, 2], by decide⟩ (.accepted 2)) 0), .arrive .client 2,
        .act .server (.move (.proceed 0 .failed) 0), .act .server (.loop .handlersDone),
        .act .server (.loop .swap), .act .server (.loop .batchDone),
        .act .server (.loop .testQuit), .act .server (.poll 1),
        .act .server (.move (.proceed 0 .failed) 0), .act .server (.move (.proceed 0 .failed) 0),
        .act .server (.move (.proceed 0 .failed) 0), .handleRead .server (.received 2) 0,
        .consume .server .retrieveAll]).map
      (fun s => ((s.ends .server).input.consumed, (s.ends .client).flow)) =
    some ([1, 2], [1, 2]) := by
  decide

end TwoEnds

end Lotta
