/-
# A connection on its loop thread

What a connection does on its loop thread is interrupted wherever it calls user code:
`connCallback_`, `msgCallback_` and `closeCallback_` may themselves call `send`,
`shutdown` and `close`, which then run to their end before the interrupted function goes
on.  `Todo` names the pieces of code between two such points, and `LoopThread` holds the
pieces still to run, innermost first.  One `Move` is a call made by user code, an event
reported by the poller, or the next piece of code.
-/
import Lotta.TcpConnection

namespace Lotta

/-- A piece of code that is still to run on the loop thread. -/
inductive Todo where
  | handleEvent
  | hangUpTest
  | errorTest
  | readTest
  | writeTest
  | userCode
  | rmConnCallback
  | resetSocket
  deriving DecidableEq, Repr

/-- The piece of code is part of the dispatch of a poll event. -/
def Todo.isEvent : Todo → Bool
  | .handleEvent => true
  | .hangUpTest => true
  | .errorTest => true
  | .readTest => true
  | .writeTest => true
  | _ => false

/-- A connection and what its loop thread has still to run. -/
structure LoopThread where
  conn : TcpConnection
  todo : List Todo

/-- The moves of the loop thread.  `proceed n r` runs the next piece of code; if it reads
then `readFrom` returns `n`, and if it writes then the kernel answers `r`. -/
inductive Move where
  | poll (revents : BitVec 32)
  | send (msg : Message) (r : WriteResult)
  | shutdown
  | close
  | proceed (n : ℤ) (r : WriteResult)

namespace LoopThread

/-- The four tests of `handleEvent`, in order. -/
def tests : List Todo := [.hangUpTest, .errorTest, .readTest, .writeTest]

/-- `handleClose` when `rest` is to run after it. -/
def handleClose (c : TcpConnection) (rest : List Todo) : LoopThread :=
  ⟨c.handleClose.thenDo fun c => c.emit .closeCallback, .userCode :: .rmConnCallback :: rest⟩

/-- The closure of `close()`: `handleClose`, then the socket is given up. -/
def closeTask (c : TcpConnection) (rest : List Todo) : LoopThread :=
  handleClose c (.resetSocket :: rest)

/-- `close` on the loop thread. -/
def close (c : TcpConnection) (rest : List Todo) : LoopThread :=
  closeTask (c.setState .disconnecting) rest

/-- `handleRead` when `readFrom` returns `n`. -/
def handleRead (c : TcpConnection) (n : ℤ) (rest : List Todo) : LoopThread :=
  if n = 0 then handleClose c rest
  else if n < 0 then ⟨c, rest⟩
  else ⟨c.emit .msgCallback, .userCode :: rest⟩

/-- Run the next piece of code. -/
def proceed (c : TcpConnection) (n : ℤ) (r : WriteResult) : List Todo → Option LoopThread
  | [] => none
  | .handleEvent :: rest => some ⟨c, tests ++ rest⟩
  | .hangUpTest :: rest =>
      some (if hangsUp c.channel.revents then handleClose c rest else ⟨c, rest⟩)
  -- `handleError` logs only
  | .errorTest :: rest => some ⟨c, rest⟩
  | .readTest :: rest =>
      some (if isReadable c.channel.revents then handleRead c n rest else ⟨c, rest⟩)
  | .writeTest :: rest =>
      some (if isWritable c.channel.revents then ⟨c.handleWrite r, rest⟩ else ⟨c, rest⟩)
  | .userCode :: rest => some ⟨c, rest⟩
  | .rmConnCallback :: rest => some ⟨c.emit .rmConnCallback, rest⟩
  | .resetSocket :: rest => some ⟨c.resetSocket, rest⟩

/-- User code runs between the events, in the callbacks of the connection, and, before
`handleEvent` is called, in the callbacks of other channels of the same iteration. -/
def userRuns : List Todo → Bool
  | [] => true
  | .handleEvent :: _ => true
  | .userCode :: _ => true
  | _ => false

/-- One move; the poller reports registered channels only. -/
def step (s : LoopThread) (m : Move) : Option LoopThread :=
  if s.conn.aborted then none
  else
    match m with
    | .poll revents =>
        if s.todo = [] ∧ s.conn.registration = .registered then
          some ⟨{ s.conn with channel := { s.conn.channel with revents := revents } },
            [.handleEvent]⟩
        else none
    | .send msg r => if userRuns s.todo then some ⟨s.conn.send msg r, s.todo⟩ else none
    | .shutdown => if userRuns s.todo then some ⟨s.conn.shutdown, s.todo⟩ else none
    | .close => if userRuns s.todo then some (close s.conn s.todo) else none
    | .proceed n r => proceed s.conn n r s.todo

/-- A connection in the `connCallback_` of `connEstablished`. -/
def init (asserts : Bool) (fd : ℤ) : LoopThread :=
  ⟨TcpConnection.established asserts fd, [.userCode]⟩

/-- The next piece of code takes the connection into `handleClose`. -/
def closesNext (s : LoopThread) (n : ℤ) : Bool :=
  match s.todo with
  | .hangUpTest :: _ => hangsUp s.conn.channel.revents
  | .readTest :: _ => isReadable s.conn.channel.revents && n == 0
  | _ => false

/-- A move that runs `handleClose`. -/
def closes (s : LoopThread) : Move → Bool
  | .close => true
  | .proceed n _ => s.closesNext n
  | _ => false

/-- The next piece of code calls `handleRead`. -/
def reads (s : LoopThread) : Bool :=
  match s.todo with
  | .readTest :: _ => isReadable s.conn.channel.revents
  | _ => false

/-- An assertion in the code that runs. -/
def check (s : LoopThread) (b : Bool) : LoopThread := { s with conn := s.conn.check b }

/-! ## What the moves do -/

theorem exists_of_reads {s : LoopThread} (h : s.reads = true) :
    ∃ rest, s.todo = .readTest :: rest ∧ isReadable s.conn.channel.revents = true := by
  unfold reads at h
  split at h
  · exact ⟨_, ‹_›, h⟩
  · cases h

/-- Whether `handleRead` goes on to `handleClose` is decided by the value that was read. -/
theorem closesNext_of_reads {s : LoopThread} (h : s.reads = true) (ret : ℤ) (b : Bool) :
    (s.check b).closesNext ret = (ret == 0) := by
  obtain ⟨rest, htodo, hreadable⟩ := exists_of_reads h
  rw [closesNext, check, htodo]
  show (isReadable s.conn.channel.revents && ret == 0) = _
  rw [hreadable, Bool.true_and]

/-- A `handleRead` that does not close the connection has not met the end of the stream. -/
theorem ne_zero_of_open {c : TcpConnection} {n : ℤ} {rest : List Todo}
    (hread : isReadable c.channel.revents = true)
    (hopen : closesNext ⟨c, .readTest :: rest⟩ n = false) : n ≠ 0 := by
  rintro rfl
  unfold closesNext at hopen
  simp only [hread] at hopen
  cases hopen

/-- What a piece of code that neither closes the connection nor removes it from the server
does to it. -/
inductive Quiet (c : TcpConnection) (r : WriteResult) : TcpConnection → Prop where
  | skip : Quiet c r c
  | msgCallback : Quiet c r (c.emit .msgCallback)
  | written : Quiet c r (c.handleWrite r)
  | socketReset : Quiet c r c.resetSocket

/-- What the next piece of code does. -/
inductive Ran (s : LoopThread) (n : ℤ) (r : WriteResult) : LoopThread → Prop where
  | closed (k : Todo) (rest : List Todo) (htodo : s.todo = k :: rest)
      (hk : k ≠ .rmConnCallback) (hnext : s.closesNext n = true) :
      Ran s n r (handleClose s.conn rest)
  | removed (rest : List Todo) (htodo : s.todo = .rmConnCallback :: rest)
      (hnext : s.closesNext n = false) : Ran s n r ⟨s.conn.emit .rmConnCallback, rest⟩
  | quiet (k : Todo) (rest pre : List Todo) (c : TcpConnection) (htodo : s.todo = k :: rest)
      (hk : k ≠ .rmConnCallback) (hpre : .rmConnCallback ∉ pre)
      (hevent : ∀ j ∈ pre, j.isEvent = true → k.isEvent = true) (hc : Quiet s.conn r c)
      (hnext : s.closesNext n = false) : Ran s n r ⟨c, pre ++ rest⟩

/-- A quiet piece of code that leaves nothing more to run. -/
theorem Ran.pass {s : LoopThread} {n : ℤ} {r : WriteResult} {k : Todo} {rest : List Todo}
    {c : TcpConnection} (htodo : s.todo = k :: rest) (hk : k ≠ .rmConnCallback)
    (hc : Quiet s.conn r c) (hnext : s.closesNext n = false) : Ran s n r ⟨c, rest⟩ :=
  Ran.quiet k rest [] c htodo hk List.not_mem_nil (fun _ hj => absurd hj List.not_mem_nil) hc hnext

theorem ran_of_handleRead {c : TcpConnection} {n : ℤ} {r : WriteResult} {rest : List Todo}
    (hread : isReadable c.channel.revents = true) :
    Ran ⟨c, .readTest :: rest⟩ n r (handleRead c n rest) := by
  rw [handleRead]
  by_cases hzero : n = 0
  · -- the end of the stream
    rw [if_pos hzero]
    exact Ran.closed _ rest rfl (by decide) (by simp [closesNext, hread, hzero])
  · have hnext : closesNext ⟨c, .readTest :: rest⟩ n = false := by simp [closesNext, hzero]
    rw [if_neg hzero]
    split
    · exact Ran.pass rfl (by decide) .skip hnext
    · exact Ran.quiet _ rest [.userCode] _ rfl (by decide) (by decide) (by simp [Todo.isEvent])
        .msgCallback hnext

theorem ran_of_proceed {s t : LoopThread} {n : ℤ} {r : WriteResult}
    (h : proceed s.conn n r s.todo = some t) : Ran s n r t := by
  obtain ⟨c, todo⟩ := s
  cases todo with
  | nil => cases h
  | cons k rest =>
      cases k with
      | handleEvent =>
          obtain rfl := Option.some.inj h
          exact Ran.quiet _ rest tests c rfl (by decide) (by decide) (fun _ _ _ => rfl) .skip rfl
      | hangUpTest =>
          obtain rfl := Option.some.inj h
          cases hup : hangsUp c.channel.revents with
          | true => exact Ran.closed _ rest rfl (by decide) hup
          | false => exact Ran.pass rfl (by decide) .skip hup
      | errorTest =>
          obtain rfl := Option.some.inj h
          exact Ran.pass rfl (by decide) .skip rfl
      | readTest =>
          obtain rfl := Option.some.inj h
          cases hread : isReadable c.channel.revents with
          | true => exact ran_of_handleRead hread
          | false => exact Ran.pass rfl (by decide) .skip (by simp [closesNext, hread])
      | writeTest =>
          obtain rfl := Option.some.inj h
          split
          · exact Ran.pass rfl (by decide) .written rfl
          · exact Ran.pass rfl (by decide) .skip rfl
      | userCode =>
          obtain rfl := Option.some.inj h
          exact Ran.pass rfl (by decide) .skip rfl
      | rmConnCallback =>
          obtain rfl := Option.some.inj h
          exact Ran.removed rest rfl rfl
      | resetSocket =>
          obtain rfl := Option.some.inj h
          exact Ran.pass rfl (by decide) .socketReset rfl

/-- What one move does. -/
inductive Moved (s : LoopThread) : Move → LoopThread → Prop where
  | polled (revents : BitVec 32) (htodo : s.todo = [])
      (hreg : s.conn.registration = .registered) :
      Moved s (.poll revents)
        ⟨{ s.conn with channel := { s.conn.channel with revents := revents } }, [.handleEvent]⟩
  | sent (msg : Message) (r : WriteResult) :
      Moved s (.send msg r) ⟨s.conn.send msg r, s.todo⟩
  | shutdown : Moved s .shutdown ⟨s.conn.shutdown, s.todo⟩
  | closed : Moved s .close (close s.conn s.todo)
  | ran (n : ℤ) (r : WriteResult) (t : LoopThread) (h : Ran s n r t) : Moved s (.proceed n r) t

theorem moved_of_step {s t : LoopThread} {m : Move} (h : s.step m = some t) :
    s.conn.aborted = false ∧ Moved s m t := by
  unfold step at h
  split at h
  · cases h
  · rename_i hrun
    refine ⟨by simpa using hrun, ?_⟩
    cases m with
    | poll revents =>
        simp only [Option.ite_none_right_eq_some, Option.some.injEq] at h
        obtain ⟨⟨htodo, hreg⟩, rfl⟩ := h
        exact Moved.polled revents htodo hreg
    | send msg r =>
        simp only [Option.ite_none_right_eq_some, Option.some.injEq] at h
        obtain ⟨-, rfl⟩ := h
        exact Moved.sent msg r
    | shutdown =>
        simp only [Option.ite_none_right_eq_some, Option.some.injEq] at h
        obtain ⟨-, rfl⟩ := h
        exact Moved.shutdown
    | close =>
        simp only [Option.ite_none_right_eq_some, Option.some.injEq] at h
        obtain ⟨-, rfl⟩ := h
        exact Moved.closed
    | proceed n r => exact Moved.ran n r t (ran_of_proceed h)

end LoopThread

end Lotta
