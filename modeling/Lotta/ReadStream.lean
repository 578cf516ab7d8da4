/-
# Closing a connection on read

`handleRead` closes a connection when `readFrom` returns 0, which is meant to be the end of
the stream.  But `readFrom` asks the kernel for as many bytes as `FIONREAD` counts, and a
read of no bytes returns 0 whether or not the peer has ended its stream.  So an event that
calls `handleRead` while nothing can be read (urgent data, or readiness that was spurious)
closes a healthy connection, and this is the only way to close it too early
(`run_closesAtEnd_iff`).

The stream is what the kernel holds for the connection: the bytes that have arrived and were
not read, and whether the peer has ended it.  The connection runs on its loop thread, with
any events, and any calls of user code between its pieces of code.
-/
import Lotta.Buffer
import Lotta.ConnectionLoop
import Lotta.Lib.Runs

namespace Lotta

/-! ## Reading from the kernel -/

/-- An answer of `socket::read` where there are bytes to read: at least one of them and up
to `k`, or a failure. -/
inductive ReadResult where
  | received (k : ℕ)
  | failed
  deriving DecidableEq, Repr

namespace ReadResult

/-- How many bytes are read when `n` are asked for and can be read. -/
def count : ReadResult → ℕ → ℕ
  | .received k, n => min (max 1 k) n
  | .failed, _ => 0

/-- The value that `socket::read` returns; a read of no bytes returns 0. -/
def returned : ReadResult → ℕ → ℤ
  | r@(.received _), n => r.count n
  | .failed, n => if n = 0 then 0 else -1

theorem returned_eq_zero_iff (r : ReadResult) (n : ℕ) : r.returned n = 0 ↔ n = 0 := by
  cases r with
  | received k =>
      simp only [returned, count]
      omega
  | failed =>
      simp only [returned]
      split
      · rename_i hn
        exact iff_of_true rfl hn
      · rename_i hn
        exact iff_of_false (by decide) hn

end ReadResult

/-- `readFrom` when the bytes `unread` can be read; the answer is `ret`, and the storage grows
by as many bytes as `FIONREAD` has counted. -/
def Buffer.readFrom (b : Buffer) (unread : List UInt8) (r : ReadResult) (slack : ℕ) :
    ℤ × Buffer :=
  let n := unread.length
  let b := b.makeSpace n
  let got := unread.take (r.count n) ++ List.replicate (n - r.count n) 0
  (r.returned n, { b with data := b.data.insertEnd got slack })

/-- What a call of `readFrom` comes to: its value, `inBuf` after it, the bytes that it has taken
and those left at the socket, and whether its assertion holds. -/
structure ReadOutcome where
  ret : ℤ
  inBuf : Buffer
  taken : List UInt8
  unread : List UInt8
  full : Bool

/-- `readFrom` on a socket where the bytes `unread` can be read; it asserts that all the bytes
counted have been read. -/
def Buffer.readSocket (b : Buffer) (unread : List UInt8) (r : ReadResult) (slack : ℕ) :
    ReadOutcome :=
  let n := unread.length
  let (ret, inBuf) := b.readFrom unread r slack
  ⟨ret, inBuf, unread.take (r.count n), unread.drop (r.count n), ret == n⟩

/-! ## A connection and its stream -/

/-- A connection on its loop thread, with `inBuf` and the stream of its socket.  `closes`
records, for every call of `handleClose` in `handleRead`, whether the peer had ended its
stream, and the bytes that had not been read. -/
structure ReadStream where
  thread : LoopThread
  inBuf : Buffer
  unread : List UInt8
  ended : Bool
  closes : List (Bool × List UInt8)

/-- The steps: bytes arrive, the peer ends its stream, the next piece of code is `handleRead`,
the loop thread makes another move, and user code leaves the buffer in any state. -/
inductive ReadStreamOp where
  | arrive (bytes : List UInt8)
  | endStream
  | handleRead (r : ReadResult) (slack : ℕ)
  | move (m : Move)
  | useBuffer (b : Buffer)

/-- The move runs the next piece of code. -/
def Move.isProceed : Move → Bool
  | .proceed _ _ => true
  | _ => false

namespace ReadStream

/-- A connection in the `connCallback_` of `connEstablished`, when nothing has arrived. -/
def init (asserts : Bool) (fd : ℤ) : ReadStream where
  thread := LoopThread.init asserts fd
  inBuf := Buffer.init Buffer.kInitLen
  unread := []
  ended := false
  closes := []

/-- `inBuf.readFrom`. -/
def readFrom (s : ReadStream) (r : ReadResult) (slack : ℕ) : ℤ × ReadStream :=
  let o := s.inBuf.readSocket s.unread r slack
  (o.ret, { s with thread := s.thread.check o.full, inBuf := o.inBuf, unread := o.unread })

/-- The rest of `handleRead`, up to the code that it calls. -/
def afterRead (s : ReadStream) (ret : ℤ) : Option ReadStream :=
  if s.thread.conn.aborted then some s
  else
    (s.thread.step (.proceed ret .failed)).map fun t =>
      { s with
        thread := t
        closes := if s.thread.closesNext ret then s.closes ++ [(s.ended, s.unread)] else s.closes }

/-- `handleRead`. -/
def handleRead (s : ReadStream) (r : ReadResult) (slack : ℕ) : Option ReadStream :=
  let (ret, s) := s.readFrom r slack
  s.afterRead ret

/-- One step.  After the end of the stream nothing arrives; from a socket that has been given
up nothing is read. -/
def step (s : ReadStream) : ReadStreamOp → Option ReadStream
  | .arrive bytes => if s.ended then none else some { s with unread := s.unread ++ bytes }
  | .endStream => some { s with ended := true }
  | .handleRead r slack =>
      if s.thread.reads = true ∧ s.thread.conn.socket = true ∧ s.thread.conn.aborted = false then
        s.handleRead r slack
      else none
  | .move m =>
      if m.isProceed = true ∧ s.thread.reads = true then none
      else (s.thread.step m).map fun t => { s with thread := t }
  | .useBuffer b => if LoopThread.userRuns s.thread.todo then some { s with inBuf := b } else none

/-- `handleRead` has called `handleClose` only when the peer had ended its stream and every
byte had been read. -/
def ClosesAtEnd (s : ReadStream) : Prop := ∀ close ∈ s.closes, close.1 = true ∧ close.2 = []

instance : DecidablePred ClosesAtEnd := fun s =>
  inferInstanceAs (Decidable (∀ close ∈ s.closes, close.1 = true ∧ close.2 = []))

/-- `handleRead` finds bytes to read, or the end of the stream. -/
def FindsDataOrEnd (s : ReadStream) : ReadStreamOp → Prop
  | .handleRead _ _ => s.unread = [] → s.ended = true
  | _ => True

/-! ## What `handleRead` does -/

/-- `handleRead` closes the connection exactly when there is nothing to read. -/
theorem closes_handleRead {s t : ReadStream} {r : ReadResult} {slack : ℕ}
    (hreads : s.thread.reads = true) (haborted : s.thread.conn.aborted = false)
    (h : s.handleRead r slack = some t) :
    t.closes = if s.unread = [] then s.closes ++ [(s.ended, [])] else s.closes := by
  have hzero := r.returned_eq_zero_iff s.unread.length
  replace h : (s.readFrom r slack).2.afterRead (s.readFrom r slack).1 = some t := h
  unfold afterRead at h
  split at h
  · -- the assertion of `readFrom` has failed, so there was something to read
    rename_i hfailed
    obtain rfl := Option.some.inj h
    rw [if_neg]
    · rfl
    · intro hnil
      rw [readFrom, Buffer.readSocket, Buffer.readFrom, hnil, List.length_nil] at hfailed
      rw [hnil, List.length_nil] at hzero
      simp [hzero.mpr rfl, LoopThread.check, TcpConnection.check, haborted] at hfailed
  · rw [Option.map_eq_some_iff] at h
    obtain ⟨u, -, rfl⟩ := h
    simp only [readFrom, Buffer.readSocket, Buffer.readFrom,
      LoopThread.closesNext_of_reads hreads, beq_iff_eq, hzero, List.length_eq_zero_iff]
    split
    · rename_i hnil
      rw [hnil, List.drop_nil]
    · rfl

/-- One step closes the connection too early exactly when it does not meet the condition. -/
theorem closesAtEnd_step_iff {s t : ReadStream} {op : ReadStreamOp} (h : s.ClosesAtEnd)
    (hstep : s.step op = some t) : t.ClosesAtEnd ↔ s.FindsDataOrEnd op := by
  cases op with
  | arrive bytes =>
      simp only [step, Option.ite_none_left_eq_some, Option.some.injEq] at hstep
      obtain ⟨-, rfl⟩ := hstep
      exact iff_of_true h trivial
  | endStream =>
      obtain rfl := Option.some.inj hstep
      exact iff_of_true h trivial
  | move m =>
      simp only [step, Option.ite_none_left_eq_some, Option.map_eq_some_iff] at hstep
      obtain ⟨-, u, -, rfl⟩ := hstep
      exact iff_of_true h trivial
  | useBuffer b =>
      simp only [step, Option.ite_none_right_eq_some, Option.some.injEq] at hstep
      obtain ⟨-, rfl⟩ := hstep
      exact iff_of_true h trivial
  | handleRead r slack =>
      simp only [step, Option.ite_none_right_eq_some] at hstep
      obtain ⟨⟨hreads, -, haborted⟩, hread⟩ := hstep
      rw [ClosesAtEnd, FindsDataOrEnd, closes_handleRead hreads haborted hread]
      by_cases hnil : s.unread = []
      · rw [if_pos hnil, List.forall_mem_append, List.forall_mem_singleton]
        exact ⟨fun hall _ => hall.2.1, fun hended => ⟨h, hended hnil, rfl⟩⟩
      · rw [if_neg hnil]
        exact iff_of_true h fun hnil' => absurd hnil' hnil

/-- The connection is closed on read only at the end of the stream, in exactly those runs in
which `handleRead` never finds nothing to read before it. -/
theorem run_closesAtEnd_iff (asserts : Bool) (fd : ℤ) (ops : List ReadStreamOp) :
    Runs.Along step ClosesAtEnd (init asserts fd) ops ↔
      Runs.AllSteps step FindsDataOrEnd (init asserts fd) ops :=
  Runs.along_iff_allSteps (J := fun _ => True) (fun _ _ _ _ _ => trivial)
    (fun _ _ _ _ h hstep => closesAtEnd_step_iff h hstep) trivial
    fun _ hclose => absurd hclose List.not_mem_nil

/-- Urgent data is reported on a connection where nothing can be read: it is closed. -/
theorem not_closesAtEnd_urgent :
    ¬ Runs.Along step ClosesAtEnd (init true 5)
      [.move (.proceed 0 .failed), .move (.poll pollPri), .move (.proceed 0 .failed),
        .move (.proceed 0 .failed), .move (.proceed 0 .failed), .handleRead .failed 0] := by
  decide

end ReadStream

end Lotta
