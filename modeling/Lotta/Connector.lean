/-
# Connector: asynchronous connects with retries

A `Connector` lives on one event loop.  `startTask` makes a socket and starts to connect it;
a channel then waits until the socket becomes writable (`handleWrite`) or fails
(`handleError`).  Both give the channel up: it leaves the poller at once, and a function in
the task queue resets `channel_` later in the same turn of the loop.  A failed attempt is
started again by a timer.

The sockets are numbered in the order in which `startTask` makes them.  The part of the loop
that matters is in the same record: the turns of the loop with their phases, the task queue
and the retry timers, each with the turn in which it was set.  A timer fires in a later turn
than that.  `attempts`, `closed`, `handed`, `reads`, `retried` and `delays` record what has
happened.

Assertions are compiled in; one that fails, or a call on a null pointer, ends the run.
-/
import Lotta.Channel

namespace Lotta

/-! ## Error numbers -/

/-- The error numbers of Linux that `startTask` distinguishes. -/
def EINTR : ℤ := 4
def EAGAIN : ℤ := 11
def EADDRNOTAVAIL : ℤ := 99
def ENETUNREACH : ℤ := 101
def EISCONN : ℤ := 106
def ETIMEDOUT : ℤ := 110
def ECONNREFUSED : ℤ := 111
def EINPROGRESS : ℤ := 115

/-- What `socket` and `connect` answer: there is no socket, and so `connect` fails with
`EBADF`, or there is one, and this is the value of `c == 0 ? 0 : errno`. -/
inductive ConnectResult where
  | noSocket
  | answered (err : ℤ)
  deriving DecidableEq, Repr

/-- The branches of the `switch` in `startTask`. -/
inductive ConnectBranch where
  | connected
  | retry
  | other
  deriving DecidableEq, Repr

/-- The `switch` in `startTask`. -/
def connectBranch (err : ℤ) : ConnectBranch :=
  if err ∈ [0, EINPROGRESS, EINTR, EISCONN] then .connected
  else if err ∈ [EADDRNOTAVAIL, EAGAIN, ECONNREFUSED, ENETUNREACH, ETIMEDOUT] then .retry
  else .other

/-! ## The connector -/

/-- `Connector::State`. -/
inductive ConnectorState where
  | connecting
  | connected
  | disconnected
  deriving DecidableEq, Repr

/-- The channel in `channel_`: the socket that it is for, and whether the poller has it. -/
structure ConnectorChannel where
  fd : ℕ
  registered : Bool
  deriving DecidableEq, Repr

/-- `connCallback_`: set by the owner, the default of the constructor, or empty. -/
inductive ConnCallback where
  | ofOwner
  | ofDefault
  | empty
  deriving DecidableEq, Repr

/-- The functions that the connector has in the task queue. -/
inductive ConnectorTask where
  | startTask
  | resetChannel
  deriving DecidableEq, Repr

/-- Where the loop is: not in `loop()`, or in a turn of it. -/
inductive ConnectorPhase where
  | outside
  | polling
  | handling
  | calling
  deriving DecidableEq, Repr

/-- A connector on its loop.  `active` says that the last poll has reported the channel, and
`pendingErr` is the error that `SO_ERROR` will give for its socket. -/
structure Connector where
  state : ConnectorState
  channel : Option ConnectorChannel
  toQuit : Bool
  retryTimeoutSec : ℕ
  connCallback : ConnCallback
  phase : ConnectorPhase
  turn : ℕ
  queue : List ConnectorTask
  rest : List ConnectorTask
  timers : List ℕ
  active : Bool
  pendingErr : ℤ
  attempts : ℕ
  created : ℕ
  closed : List ℕ
  handed : List ℕ
  reads : List (ℕ × ℤ)
  retried : List ℕ
  delays : List ℕ
  stopped : Bool
  deriving DecidableEq, Repr

/-- The steps: `loop()` is entered and turns, the channel handles an event, a retry timer
fires, `start()` is called on the loop's thread and on another one, and the functions of the
task queue are swapped out and called. -/
inductive ConnectorOp where
  | enter
  | poll (active : Bool)
  | event (revents : BitVec 32) (err : ℤ)
  | retryTimer (setIn : ℕ) (r : ConnectResult)
  | start (r : ConnectResult)
  | pushStart
  | swap
  | call (r : ConnectResult)
  | turnDone (quit : Bool)
  deriving DecidableEq, Repr

/-- A call of `start()`. -/
def ConnectorOp.isStart : ConnectorOp → Bool
  | .start _ => true
  | .pushStart => true
  | _ => false

namespace Connector

/-- `kInitRetrySec`. -/
def kInitRetrySec : ℕ := 1

/-- `kMaxRetrySec`. -/
def kMaxRetrySec : ℕ := 30

/-- A new connector, on a loop that is not running yet. -/
def init (connCallback : ConnCallback) : Connector where
  state := .disconnected
  channel := none
  toQuit := false
  retryTimeoutSec := kInitRetrySec
  connCallback := connCallback
  phase := .outside
  turn := 0
  queue := []
  rest := []
  timers := []
  active := false
  pendingErr := 0
  attempts := 0
  created := 0
  closed := []
  handed := []
  reads := []
  retried := []
  delays := []
  stopped := false

/-- A failed assertion, or a call on a null pointer. -/
def abort (c : Connector) : Connector := { c with stopped := true }

/-- `loop_->pushQueue`. -/
def pushQueue (c : Connector) (a : ConnectorTask) : Connector :=
  { c with queue := c.queue ++ [a] }

/-- `socket::close`. -/
def close (c : Connector) (fd : ℕ) : Connector := { c with closed := c.closed ++ [fd] }

/-- `socket::socket`, where it makes one. -/
def socket (c : Connector) : ℕ × Connector := (c.created, { c with created := c.created + 1 })

/-- `loop_->runAfter` for `startTask`. -/
def runAfter (c : Connector) (sec : ℕ) : Connector :=
  { c with timers := c.timers ++ [c.turn], delays := c.delays ++ [sec] }

/-- `connected`. -/
def connected (c : Connector) (fd : ℕ) : Connector :=
  let c := { c with state := .connecting }
  if c.channel.isSome then c.abort else { c with channel := some ⟨fd, true⟩ }

/-- `retry`. -/
def retry (c : Connector) (fd : ℕ) : Connector :=
  let c := { c.close fd with state := .disconnected, retried := c.retried ++ [fd] }
  if c.toQuit then c
  else
    { c.runAfter c.retryTimeoutSec with
      retryTimeoutSec := min (c.retryTimeoutSec * 2) kMaxRetrySec }

/-- `startTask`. -/
def startTask (c : Connector) (r : ConnectResult) : Connector :=
  if c.state ≠ .disconnected then c.abort
  else if c.toQuit then c
  else
    let c := { c with attempts := c.attempts + 1 }
    match r with
    | .noSocket => c
    | .answered err =>
        let (fd, c) := c.socket
        match connectBranch err with
        | .connected => c.connected fd
        | .retry => c.retry fd
        | .other => c

/-- `start()` on the thread of the loop. -/
def start (c : Connector) (r : ConnectResult) : Connector :=
  { c with toQuit := false }.startTask r

/-- `start()` on another thread. -/
def pushStart (c : Connector) : Connector :=
  { c with toQuit := false }.pushQueue .startTask

/-- `removeChannel`, for the channel `ch` in `channel_`. -/
def removeChannel (c : Connector) (ch : ConnectorChannel) : Connector :=
  { c with channel := some { ch with registered := false } }.pushQueue .resetChannel

/-- `socket::getSocketErrno`, which clears the error that it reads. -/
def getSocketErrno (c : Connector) (fd : ℕ) : ℤ × Connector :=
  (c.pendingErr, { c with pendingErr := 0, reads := c.reads ++ [(fd, c.pendingErr)] })

/-- The call of `connCallback_`; the default makes a new channel for the socket. -/
def callConnCallback (c : Connector) (fd : ℕ) : Connector :=
  match c.connCallback with
  | .ofOwner => { c with handed := c.handed ++ [fd] }
  | .ofDefault => { c with handed := c.handed ++ [fd], channel := some ⟨fd, false⟩ }
  | .empty => c

/-- `handleWrite`. -/
def handleWrite (c : Connector) : Connector :=
  if c.state ≠ .connecting then c
  else
    match c.channel with
    | none => c.abort
    | some ch =>
        let fd := ch.fd
        let (err, c) := (c.removeChannel ch).getSocketErrno fd
        if err < 0 then c.retry fd
        else if c.toQuit then { c.close fd with state := .disconnected }
        else { c with state := .connected }.callConnCallback fd

/-- `handleError`. -/
def handleError (c : Connector) : Connector :=
  if c.state ≠ .connecting then c
  else
    match c.channel with
    | none => c.abort
    | some ch =>
        let fd := ch.fd
        let (_, c) := (c.removeChannel ch).getSocketErrno fd
        c.retry fd

/-- `handleEvent` of the channel; its close callback and its read callback are empty. -/
def handleEvent (c : Connector) (revents : BitVec 32) : Connector :=
  let c := if isErroneous revents then c.handleError else c
  if isWritable revents then c.handleWrite else c

/-- A function of the task queue. -/
def runTask (c : Connector) (r : ConnectResult) : ConnectorTask → Connector
  | .startTask => c.startTask r
  | .resetChannel => { c with channel := none }

/-- The poller has the channel. -/
def registered (c : Connector) : Bool := c.channel.any ConnectorChannel.registered

/-- One step. -/
def step (c : Connector) (op : ConnectorOp) : Option Connector :=
  if c.stopped then none
  else
    match op with
    | .enter => if c.phase = .outside then some { c with phase := .polling } else none
    | .poll active =>
        if c.phase = .polling ∧ (active = true → c.registered = true) then
          some { c with phase := .handling, turn := c.turn + 1, active := active }
        else none
    | .event revents err =>
        if c.phase = .handling ∧ c.active = true ∧ c.registered = true then
          some ({ c with active := false, pendingErr := err }.handleEvent revents)
        else none
    | .retryTimer setIn r =>
        if c.phase = .handling ∧ setIn ∈ c.timers ∧ setIn < c.turn then
          some ({ c with timers := c.timers.erase setIn }.startTask r)
        else none
    | .start r => if c.phase = .polling then none else some (c.start r)
    | .pushStart => some c.pushStart
    | .swap =>
        if c.phase = .handling then
          some { c with phase := .calling, rest := c.queue, queue := [] }
        else none
    | .call r =>
        match c.phase, c.rest with
        | .calling, a :: rest => some ({ c with rest := rest }.runTask r a)
        | _, _ => none
    | .turnDone quit =>
        if c.phase = .calling ∧ c.rest = [] then
          some { c with phase := if quit then .outside else .polling }
        else none

/-! ## What the functions do -/

/-- A new socket, whose number is that of those made before. -/
def newSocket (c : Connector) : Connector :=
  { c with attempts := c.attempts + 1, created := c.created + 1 }

/-- A new attempt begins: `startTask` behind its assertion. -/
inductive Attempt (c : Connector) : ConnectResult → Connector → Prop where
  | noSocket : Attempt c .noSocket { c with attempts := c.attempts + 1 }
  | connected (err : ℤ) (h : connectBranch err = .connected) :
      Attempt c (.answered err) (c.newSocket.connected c.created)
  | retry (err : ℤ) (h : connectBranch err = .retry) :
      Attempt c (.answered err) (c.newSocket.retry c.created)
  | other (err : ℤ) (h : connectBranch err = .other) : Attempt c (.answered err) c.newSocket

theorem attempt_of_startTask {c : Connector} (hstate : c.state = .disconnected)
    (hquit : c.toQuit = false) (r : ConnectResult) : Attempt c r (c.startTask r) := by
  rw [startTask, if_neg (by rw [hstate]; decide), if_neg (by rw [hquit]; decide)]
  cases r with
  | noSocket => exact .noSocket
  | answered err =>
      simp only
      split
      · exact .connected err ‹_›
      · exact .retry err ‹_›
      · exact .other err ‹_›

/-- The assertion of `startTask` fails. -/
theorem startTask_abort {c : Connector} (hstate : c.state ≠ .disconnected) (r : ConnectResult) :
    c.startTask r = c.abort := by
  rw [startTask, if_pos hstate]

/-- The channel is given up and the error of its socket read. -/
def giveUp (c : Connector) (ch : ConnectorChannel) : Connector :=
  ((c.removeChannel ch).getSocketErrno ch.fd).2

/-- The attempt of a channel has failed. -/
def failed (c : Connector) (ch : ConnectorChannel) : Connector := (c.giveUp ch).retry ch.fd

/-- The socket of a channel is taken to be connected. -/
def established (c : Connector) (ch : ConnectorChannel) : Connector :=
  { c.giveUp ch with state := .connected }.callConnCallback ch.fd

theorem callConnCallback_eq {c : Connector} (h : c.connCallback = .ofOwner) (fd : ℕ) :
    c.callConnCallback fd = { c with handed := c.handed ++ [fd] } := by
  rw [callConnCallback, h]

/-- The socket goes to the callback of the owner. -/
theorem established_eq {c : Connector} (h : c.connCallback = .ofOwner) (ch : ConnectorChannel) :
    c.established ch =
      { c.giveUp ch with state := .connected, handed := c.handed ++ [ch.fd] } :=
  callConnCallback_eq (c := { c.giveUp ch with state := .connected }) h ch.fd

/-- What an event does to a channel that waits: of the two callbacks at most one finds the
connector in the state `Connecting`. -/
inductive Handled (c : Connector) (ch : ConnectorChannel) (revents : BitVec 32) :
    Connector → Prop where
  | failed (h : isErroneous revents = true ∨ isWritable revents = true ∧ c.pendingErr < 0) :
      Handled c ch revents (c.failed ch)
  | established (herror : isErroneous revents = false) (hwrite : isWritable revents = true)
      (herr : 0 ≤ c.pendingErr) : Handled c ch revents (c.established ch)
  | nothing (herror : isErroneous revents = false) (hwrite : isWritable revents = false) :
      Handled c ch revents c

/-- `connected` when its assertion holds. -/
theorem connected_eq {c : Connector} (h : c.channel = none) (fd : ℕ) :
    c.connected fd = { c with state := .connecting, channel := some ⟨fd, true⟩ } := by
  simp only [connected, h]
  rfl

/-- `connected` when its assertion fails. -/
theorem connected_abort {c : Connector} (h : c.channel ≠ none) (fd : ℕ) :
    (c.connected fd).stopped = true := by
  simp only [connected, if_pos (Option.isSome_iff_ne_none.mpr h)]
  rfl

/-- `retry` closes the socket and sets one timer. -/
theorem retry_eq {c : Connector} (hquit : c.toQuit = false) (fd : ℕ) :
    c.retry fd =
      { c with
        closed := c.closed ++ [fd]
        state := .disconnected
        retried := c.retried ++ [fd]
        timers := c.timers ++ [c.turn]
        delays := c.delays ++ [c.retryTimeoutSec]
        retryTimeoutSec := min (c.retryTimeoutSec * 2) kMaxRetrySec } := by
  have hgoes : ¬ c.toQuit = true := by
    rw [hquit]
    exact Bool.false_ne_true
  exact (if_neg hgoes).trans rfl

theorem handleError_eq {c : Connector} {ch : ConnectorChannel} (hstate : c.state = .connecting)
    (hch : c.channel = some ch) : c.handleError = c.failed ch := by
  rw [handleError, if_neg (by rw [hstate]; decide), hch]
  rfl

theorem state_retry (c : Connector) (fd : ℕ) : (c.retry fd).state = .disconnected := by
  unfold retry
  simp only
  split
  · rfl
  · rfl

theorem handled_of_handleEvent {c : Connector} {ch : ConnectorChannel}
    (hstate : c.state = .connecting) (hch : c.channel = some ch) (hquit : c.toQuit = false)
    (revents : BitVec 32) : Handled c ch revents (c.handleEvent revents) := by
  unfold handleEvent
  by_cases herror : isErroneous revents = true
  · -- `handleError` has left the state, so `handleWrite` does nothing
    have hskip : (c.failed ch).handleWrite = c.failed ch := by
      rw [handleWrite, if_pos (by rw [failed, state_retry]; decide)]
    simp only [if_pos herror, handleError_eq hstate hch, hskip, ite_self]
    exact .failed (Or.inl herror)
  · have herror' : isErroneous revents = false := Bool.eq_false_iff.mpr herror
    by_cases hwrite : isWritable revents = true
    · simp only [herror', hwrite, Bool.false_eq_true, if_false, if_true]
      rw [handleWrite, if_neg (by rw [hstate]; decide), hch]
      simp only
      split
      · exact .failed (Or.inr ⟨hwrite, ‹_›⟩)
      · rename_i herr
        have hgoes : ¬ ((c.removeChannel ch).getSocketErrno ch.fd).2.toQuit = true := by
          show ¬ c.toQuit = true
          rw [hquit]
          exact Bool.false_ne_true
        rw [if_neg hgoes]
        exact .established herror' hwrite (not_lt.mp herr)
    · have hwrite' : isWritable revents = false := Bool.eq_false_iff.mpr hwrite
      simp only [herror', hwrite', Bool.false_eq_true, if_false]
      exact .nothing herror' hwrite'

/-! ## What the steps do -/

/-- The steps as a relation: where each can be made, and what it changes. -/
inductive Moves (c : Connector) : ConnectorOp → Connector → Prop where
  | enter (hphase : c.phase = .outside) : Moves c .enter { c with phase := .polling }
  | poll (active : Bool) (hphase : c.phase = .polling)
      (hactive : active = true → c.registered = true) :
      Moves c (.poll active)
        { c with phase := .handling, turn := c.turn + 1, active := active }
  | event (revents : BitVec 32) (err : ℤ) (ch : ConnectorChannel) (hphase : c.phase = .handling)
      (hch : c.channel = some ch) (hregistered : ch.registered = true) :
      Moves c (.event revents err)
        ({ c with active := false, pendingErr := err }.handleEvent revents)
  | retryTimer (setIn : ℕ) (r : ConnectResult) (hphase : c.phase = .handling)
      (hmem : setIn ∈ c.timers) (hlater : setIn < c.turn) :
      Moves c (.retryTimer setIn r) ({ c with timers := c.timers.erase setIn }.startTask r)
  | start (r : ConnectResult) (hphase : c.phase ≠ .polling) : Moves c (.start r) (c.start r)
  | pushStart : Moves c .pushStart c.pushStart
  | swap (hphase : c.phase = .handling) :
      Moves c .swap { c with phase := .calling, rest := c.queue, queue := [] }
  | call (r : ConnectResult) (a : ConnectorTask) (rest : List ConnectorTask)
      (hphase : c.phase = .calling) (hrest : c.rest = a :: rest) :
      Moves c (.call r) ({ c with rest := rest }.runTask r a)
  | turnDone (quit : Bool) (hphase : c.phase = .calling) (hrest : c.rest = []) :
      Moves c (.turnDone quit) { c with phase := if quit then .outside else .polling }

theorem registered_eq {c : Connector} {ch : ConnectorChannel} (h : c.channel = some ch) :
    c.registered = ch.registered := by
  rw [registered, h]
  rfl

theorem exists_of_registered {c : Connector} (h : c.registered = true) :
    ∃ ch, c.channel = some ch ∧ ch.registered = true := by
  cases hch : c.channel with
  | none => simp [registered, hch] at h
  | some ch => exact ⟨ch, rfl, (registered_eq hch).symm.trans h⟩

theorem moves_of_step {c d : Connector} {op : ConnectorOp} (h : c.step op = some d) :
    c.stopped = false ∧ Moves c op d := by
  unfold step at h
  rw [Option.ite_none_left_eq_some, Bool.not_eq_true] at h
  obtain ⟨hlive, h⟩ := h
  refine ⟨hlive, ?_⟩
  cases op with
  | enter =>
      simp only [Option.ite_none_right_eq_some, Option.some.injEq] at h
      obtain ⟨hphase, rfl⟩ := h
      exact .enter hphase
  | poll active =>
      simp only [Option.ite_none_right_eq_some, Option.some.injEq] at h
      obtain ⟨⟨hphase, hactive⟩, rfl⟩ := h
      exact .poll active hphase hactive
  | event revents err =>
      simp only [Option.ite_none_right_eq_some, Option.some.injEq] at h
      obtain ⟨⟨hphase, -, hregistered⟩, rfl⟩ := h
      obtain ⟨ch, hch, hch'⟩ := exists_of_registered hregistered
      exact .event revents err ch hphase hch hch'
  | retryTimer setIn r =>
      simp only [Option.ite_none_right_eq_some, Option.some.injEq] at h
      obtain ⟨⟨hphase, hmem, hlater⟩, rfl⟩ := h
      exact .retryTimer setIn r hphase hmem hlater
  | start r =>
      simp only [Option.ite_none_left_eq_some, Option.some.injEq] at h
      obtain ⟨hphase, rfl⟩ := h
      exact .start r hphase
  | pushStart =>
      obtain rfl := Option.some.inj h
      exact .pushStart
  | swap =>
      simp only [Option.ite_none_right_eq_some, Option.some.injEq] at h
      obtain ⟨hphase, rfl⟩ := h
      exact .swap hphase
  | call r =>
      simp only at h
      split at h
      · rename_i a rest hphase hrest
        obtain rfl := Option.some.inj h
        exact .call r a rest hphase hrest
      · cases h
  | turnDone quit =>
      simp only [Option.ite_none_right_eq_some, Option.some.injEq] at h
      obtain ⟨⟨hphase, hrest⟩, rfl⟩ := h
      exact .turnDone quit hphase hrest

/-! ## State, channel and task queue -/

/-- The functions that are still to run. -/
def tasks (c : Connector) : List ConnectorTask := c.rest ++ c.queue

/-- One while a channel that has been given up is still in `channel_`. -/
def givenUp (c : Connector) : ℕ := if c.channel.isSome ∧ c.registered = false then 1 else 0

/-- What holds until an assertion fails, whenever `start()` is called: the poller has the
channel exactly in the state `Connecting`, and a channel that was given up is still there
exactly while a function waits to reset it. -/
structure Linked (c : Connector) : Prop where
  goesOn : c.toQuit = false
  connecting_iff : c.state = .connecting ↔ c.registered = true
  resets : c.tasks.count .resetChannel = c.givenUp
  rest_nil : c.phase ≠ .calling → c.rest = []

theorem linked_init (connCallback : ConnCallback) : Linked (init connCallback) where
  goesOn := rfl
  connecting_iff := by simp [init, registered]
  resets := rfl
  rest_nil := fun _ => rfl

variable {c d : Connector} {ch : ConnectorChannel}

/-- The next function of the queue, and those behind it. -/
theorem tasks_cons {a : ConnectorTask} {rest : List ConnectorTask} (hrest : c.rest = a :: rest) :
    c.tasks = a :: (rest ++ c.queue) := by
  rw [tasks, hrest]
  rfl

/-- The functions that are swapped out are those that were queued. -/
theorem Linked.tasks_swap (h : c.Linked) (hphase : c.phase = .handling) :
    ({ c with phase := .calling, rest := c.queue, queue := [] } : Connector).tasks = c.tasks := by
  have hrest : c.rest = [] := h.rest_nil (by rw [hphase]; decide)
  rw [tasks, tasks, hrest, List.append_nil, List.nil_append]

theorem Linked.state_of_registered (h : c.Linked) (hch : c.channel = some ch)
    (hregistered : ch.registered = true) : c.state = .connecting :=
  h.connecting_iff.mpr (by simp [registered, hch, hregistered])

/-- An event for a registered channel finds the connector in the state `Connecting`. -/
theorem Linked.handled (h : c.Linked) (hch : c.channel = some ch)
    (hregistered : ch.registered = true) (revents : BitVec 32) :
    Handled c ch revents (c.handleEvent revents) :=
  handled_of_handleEvent (h.state_of_registered hch hregistered) hch h.goesOn revents

theorem Linked.registered_of_state (h : c.Linked) (hstate : c.state ≠ .connecting) :
    c.registered = false := by
  rw [← Bool.not_eq_true, ← h.connecting_iff]
  exact hstate

/-- A new channel waits for its socket. -/
theorem Linked.connected (h : c.Linked) (hchannel : c.channel = none) (fd : ℕ) :
    (c.connected fd).Linked := by
  have hreset : c.tasks.count .resetChannel = 0 := by
    rw [h.resets, givenUp, hchannel]
    rfl
  rw [connected_eq hchannel]
  exact { h with
    connecting_iff := by simp [registered]
    resets := hreset.trans (by simp [givenUp, registered]) }

theorem Linked.retry (h : c.Linked) (hidle : c.state ≠ .connecting) (fd : ℕ) :
    (c.retry fd).Linked := by
  have hreg := h.registered_of_state hidle
  rw [retry_eq h.goesOn]
  refine { h with connecting_iff := ?_ }
  show ConnectorState.disconnected = .connecting ↔ c.registered = true
  simp [hreg]

/-- A new attempt keeps the links, unless it finds a channel in its place. -/
theorem Linked.startTask (h : c.Linked) (r : ConnectResult) :
    (c.startTask r).stopped = true ∨ (c.startTask r).Linked := by
  by_cases hstate : c.state = .disconnected
  · have hidle : c.newSocket.state ≠ .connecting := by
      show c.state ≠ .connecting
      rw [hstate]
      decide
    have hsocket : c.newSocket.Linked := { h with }
    have hattempt := attempt_of_startTask hstate h.goesOn r
    generalize c.startTask r = d at hattempt ⊢
    cases hattempt with
    | noSocket => exact Or.inr { h with }
    | other err _ => exact Or.inr hsocket
    | retry err _ => exact Or.inr (hsocket.retry hidle _)
    | connected err _ =>
        by_cases hchannel : c.channel = none
        · exact Or.inr (hsocket.connected hchannel _)
        · exact Or.inl (connected_abort (c := c.newSocket) hchannel _)
  · left
    rw [startTask_abort hstate]
    rfl

theorem tasks_giveUp (c : Connector) (ch : ConnectorChannel) :
    (c.giveUp ch).tasks = c.tasks ++ [.resetChannel] := (List.append_assoc _ _ _).symm

/-- Giving the channel up takes the poller off it and makes a function wait. -/
theorem Linked.giveUp (h : c.Linked) (hch : c.channel = some ch)
    (hregistered : ch.registered = true) :
    (c.giveUp ch).registered = false ∧
      (c.giveUp ch).tasks.count .resetChannel = (c.giveUp ch).givenUp := by
  have hzero : c.givenUp = 0 := by simp [givenUp, registered, hch, hregistered]
  have hreg : (c.giveUp ch).registered = false := rfl
  refine ⟨hreg, ?_⟩
  rw [tasks_giveUp, List.count_append, h.resets, hzero, givenUp, hreg]
  rfl

theorem Linked.failed (h : c.Linked) (hch : c.channel = some ch)
    (hregistered : ch.registered = true) : (c.failed ch).Linked := by
  obtain ⟨hreg, hresets⟩ := h.giveUp hch hregistered
  rw [Connector.failed, retry_eq (show (c.giveUp ch).toQuit = false from h.goesOn)]
  refine ⟨h.goesOn, ?_, hresets, h.rest_nil⟩
  show ConnectorState.disconnected = .connecting ↔ (c.giveUp ch).registered = true
  simp [hreg]

theorem Linked.settle (h : c.Linked) (hch : c.channel = some ch)
    (hregistered : ch.registered = true) :
    ({ c.giveUp ch with state := .connected } : Connector).Linked := by
  obtain ⟨hreg, hresets⟩ := h.giveUp hch hregistered
  refine ⟨h.goesOn, ?_, hresets, h.rest_nil⟩
  show ConnectorState.connected = .connecting ↔ (c.giveUp ch).registered = true
  simp [hreg]

theorem Linked.established (h : c.Linked) (hch : c.channel = some ch)
    (hregistered : ch.registered = true) : (c.established ch).Linked := by
  have hgiven := h.settle hch hregistered
  rw [Connector.established, callConnCallback]
  split
  · exact { hgiven with }
  · exact { hgiven with }
  · exact hgiven

/-- A call of `startTask` that has waited leaves the queue. -/
theorem Linked.popStartTask (h : c.Linked) {rest : List ConnectorTask}
    (hphase : c.phase = .calling) (hrest : c.rest = .startTask :: rest) :
    ({ c with rest := rest } : Connector).Linked := by
  have hresets : (rest ++ c.queue).count .resetChannel = c.givenUp := by
    rw [← h.resets, tasks_cons hrest]
    rfl
  exact { h with
    resets := hresets
    rest_nil := fun hne => absurd hphase hne }

/-- A function that resets the channel waits for a channel that was given up, and no other
one does. -/
theorem Linked.givenUp_of_reset (h : c.Linked) {rest : List ConnectorTask}
    (hrest : c.rest = .resetChannel :: rest) :
    c.registered = false ∧ (rest ++ c.queue).count .resetChannel = 0 := by
  have hresets := h.resets
  rw [tasks_cons hrest, List.count_cons_self, givenUp] at hresets
  split at hresets
  · rename_i hgiven
    exact ⟨hgiven.2, by omega⟩
  · omega

theorem Linked.resetChannel (h : c.Linked) {rest : List ConnectorTask}
    (hphase : c.phase = .calling) (hrest : c.rest = .resetChannel :: rest) :
    ({ c with rest := rest, channel := none } : Connector).Linked := by
  obtain ⟨hregistered, hnone⟩ := h.givenUp_of_reset hrest
  refine ⟨h.goesOn, ?_, hnone, fun hne => absurd hphase hne⟩
  show c.state = .connecting ↔ (none.any ConnectorChannel.registered) = true
  rw [h.connecting_iff, hregistered]
  simp

/-- Every step keeps the links, or an assertion fails. -/
theorem linked_step {op : ConnectorOp} (h : c.Linked) (hstep : c.step op = some d) :
    d.stopped = true ∨ d.Linked := by
  cases (moves_of_step hstep).2 with
  | enter hphase =>
      exact Or.inr { h with rest_nil := fun _ => h.rest_nil (by rw [hphase]; decide) }
  | poll active hphase _ =>
      exact Or.inr { h with rest_nil := fun _ => h.rest_nil (by rw [hphase]; decide) }
  | event revents err ch _ hch hregistered =>
      have h' : ({ c with active := false, pendingErr := err } : Connector).Linked := { h with }
      have hhandled := h'.handled hch hregistered revents
      generalize handleEvent _ revents = d at hhandled ⊢
      cases hhandled with
      | failed _ => exact Or.inr (h'.failed hch hregistered)
      | established _ _ _ => exact Or.inr (h'.established hch hregistered)
      | nothing _ _ => exact Or.inr h'
  | retryTimer setIn r _ _ _ =>
      have h' : ({ c with timers := c.timers.erase setIn } : Connector).Linked := { h with }
      exact h'.startTask r
  | start r _ =>
      have h' : ({ c with toQuit := false } : Connector).Linked := { h with goesOn := rfl }
      exact h'.startTask r
  | pushStart =>
      right
      refine { h with goesOn := rfl, resets := ?_ }
      show (c.rest ++ (c.queue ++ [ConnectorTask.startTask])).count .resetChannel = c.givenUp
      rw [← List.append_assoc, List.count_append]
      exact h.resets
  | swap hphase =>
      right
      refine { h with resets := ?_, rest_nil := fun hne => absurd rfl hne }
      rw [h.tasks_swap hphase]
      exact h.resets
  | call r a rest hphase hrest =>
      cases a with
      | startTask => exact (h.popStartTask hphase hrest).startTask r
      | resetChannel => exact Or.inr (h.resetChannel hphase hrest)
  | turnDone quit _ hrest => exact Or.inr { h with rest_nil := fun _ => hrest }

end Connector

end Lotta
