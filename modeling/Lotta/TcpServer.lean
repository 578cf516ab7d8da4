/-
# TcpServer: connections on the server's own loop

A `TcpServer` with thread number zero runs its connections on its own loop.
`connections_` maps the name of a connection to it; the names are formatted from the
server's name, the local address and a running index.  Connections are named by that
index.  What runs on the loop thread is the code of the single connections
(`LoopThread`), interleaved by the dispatch of the active channels: every piece of code
still to run carries the connection that it belongs to.

A connection lives as long as a `shared_ptr` to it exists.  `owners` counts those that the
server and the loop hold: the entry in `connections_`, the temporaries of
`shared_from_this()` for the callbacks in progress, and the closures of `close()`, those in
progress, those in the queue of the loop and those in the vector that `doFuncQueue` has
swapped out.
-/
import Lotta.ConnectionLoop
import Mathlib.Data.Nat.Digits.Defs
import Mathlib.Logic.Function.Basic

namespace Lotta

/-- A piece of code still to run on the loop thread: of a connection, or the rest of the
`newConnection` that has made it. -/
inductive Frame where
  | conn (d : ℕ) (k : Todo)
  | newConnection (d : ℕ)
  deriving DecidableEq, Repr

/-- The connection whose poll event the piece of code is part of. -/
def Frame.event : Frame → Option ℕ
  | .conn d k => if k.isEvent then some d else none
  | .newConnection _ => none

/-- The connection to which the piece of code holds a `shared_ptr`. -/
def Frame.holds : Frame → Option ℕ
  | .conn d .userCode => some d
  | .conn d .resetSocket => some d
  | .newConnection d => some d
  | _ => none

/-- Where the loop is in one turn. -/
inductive Phase where
  | polling
  | handling
  | calling
  deriving DecidableEq, Repr

/-- A server with its connections and their loop.  `queue` are the closures of `close()`
that wait in `funcQueue_`, `functions` those swapped out by `doFuncQueue`, of which `rest`
have not been called. -/
structure TcpServer where
  asserts : Bool
  name : List Char
  connIdx : ℕ
  connections : List Char → Option ℕ
  conns : ℕ → TcpConnection
  connName : ℕ → List Char
  todo : List Frame
  phase : Phase
  queue : List ℕ
  functions : List ℕ
  rest : List ℕ
  stopped : Bool

/-- The steps: a connection is accepted, the poller reports channels with their events,
the next piece of code runs, user code calls a connection, another thread calls `close()`,
and the three parts of `doFuncQueue`. -/
inductive ServerOp where
  | accept (fd : ℤ) (addr : List Char)
  | poll (reports : List (ℕ × BitVec 32))
  | proceed (n : ℤ) (r : WriteResult)
  | send (d : ℕ) (msg : Message) (r : WriteResult)
  | shutdown (d : ℕ)
  | close (d : ℕ)
  | pushClose (d : ℕ)
  | swap
  | call
  | functionsDone

namespace TcpServer

/-- `fmt::format("{}-{}#{}", name_, localAddr.addr(), connIdx_)`. -/
def formatName (name addr : List Char) (idx : ℕ) : List Char :=
  name ++ '-' :: (addr ++ '#' :: Nat.toDigits 10 idx)

/-- A new server. -/
def init (asserts : Bool) (name : List Char) : TcpServer where
  asserts := asserts
  name := name
  connIdx := 0
  connections := fun _ => none
  conns := fun _ => TcpConnection.init asserts 0
  connName := fun _ => []
  todo := []
  phase := .handling
  queue := []
  functions := []
  rest := []
  stopped := false

/-- Write a connection; a failed assertion in its code stops the process. -/
def setConn (s : TcpServer) (d : ℕ) (c : TcpConnection) : TcpServer :=
  { s with conns := Function.update s.conns d c, stopped := s.stopped || c.aborted }

/-- Go on with the connection `d` as its own code says, and with `rest` after that. -/
def resume (s : TcpServer) (d : ℕ) (l : LoopThread) (rest : List Frame) : TcpServer :=
  { s.setConn d l.conn with todo := l.todo.map (.conn d) ++ rest }

/-- `newConnection`, up to the `connCallback_` of `connEstablished`. -/
def newConnection (s : TcpServer) (fd : ℤ) (addr : List Char) : TcpServer :=
  let d := s.connIdx
  let name := formatName s.name addr d
  { s with
    connIdx := s.connIdx + 1
    connections := Function.update s.connections name (some d)
    connName := Function.update s.connName d name
    conns := Function.update s.conns d (TcpConnection.established s.asserts fd)
    todo := .conn d .userCode :: .newConnection d :: s.todo }

/-- `removeConn`, with the assertion that an entry was erased. -/
def removeConn (s : TcpServer) (d : ℕ) : TcpServer :=
  { s with
    connections := Function.update s.connections (s.connName d) none
    stopped := s.stopped || (s.asserts && (s.connections (s.connName d)).isNone) }

/-- The next piece of code. -/
def proceed (s : TcpServer) (n : ℤ) (r : WriteResult) : Option TcpServer :=
  match s.todo with
  | [] => none
  | .newConnection _ :: rest => some { s with todo := rest }
  | .conn d .rmConnCallback :: rest =>
      (LoopThread.proceed (s.conns d) n r [.rmConnCallback]).map fun l =>
        (s.resume d l rest).removeConn d
  | .conn d k :: rest =>
      (LoopThread.proceed (s.conns d) n r [k]).map fun l => s.resume d l rest

/-- User code runs between the pieces of code of the connections and in their callbacks,
not while the loop polls. -/
def userRuns (s : TcpServer) : Prop :=
  s.phase ≠ .polling ∧
    match s.todo with
    | [] => True
    | .conn _ k :: _ => k = .handleEvent ∨ k = .userCode
    | .newConnection _ :: _ => False

instance (s : TcpServer) : Decidable s.userRuns := by
  unfold userRuns
  split <;> infer_instance

/-- The handlers of other channels run, the acceptor's among them. -/
def betweenHandlers : List Frame → Bool
  | [] => true
  | .conn _ .handleEvent :: _ => true
  | _ => false

/-- The channels that the poller reports: each of them is registered, and none twice. -/
def Reported (s : TcpServer) (reports : List (ℕ × BitVec 32)) : Prop :=
  (reports.map Prod.fst).Nodup ∧
    ∀ p ∈ reports, p.1 < s.connIdx ∧ (s.conns p.1).registration = .registered

instance (s : TcpServer) (reports : List (ℕ × BitVec 32)) : Decidable (s.Reported reports) :=
  inferInstanceAs (Decidable (_ ∧ _))

/-- The events that the poller writes into the channels. -/
def setRevents (s : TcpServer) (reports : List (ℕ × BitVec 32)) : ℕ → TcpConnection :=
  reports.foldl (fun conns p => Function.update conns p.1
    { conns p.1 with channel := { (conns p.1).channel with revents := p.2 } }) s.conns

/-- One step of a process that no assertion has stopped. -/
def step (s : TcpServer) (op : ServerOp) : Option TcpServer :=
  if s.stopped then none
  else
    match op with
    | .accept fd addr =>
        if s.phase = .handling ∧ betweenHandlers s.todo = true then
          some (s.newConnection fd addr)
        else none
    | .poll reports =>
        if s.phase = .polling ∧ s.todo = [] ∧ s.Reported reports then
          some { s with
            conns := s.setRevents reports
            todo := reports.map fun p => .conn p.1 .handleEvent
            phase := .handling }
        else none
    | .proceed n r => s.proceed n r
    | .send d msg r =>
        if s.userRuns ∧ d < s.connIdx then
          some (s.setConn d ((s.conns d).send msg r))
        else none
    | .shutdown d =>
        if s.userRuns ∧ d < s.connIdx then
          some (s.setConn d (s.conns d).shutdown)
        else none
    | .close d =>
        if s.userRuns ∧ d < s.connIdx then
          some (s.resume d (LoopThread.close (s.conns d) []) s.todo)
        else none
    | .pushClose d =>
        if d < s.connIdx then
          some { s.setConn d ((s.conns d).setState .disconnecting) with queue := s.queue ++ [d] }
        else none
    | .swap =>
        if s.phase = .handling ∧ s.todo = [] then
          some { s with functions := s.queue, rest := s.queue, queue := [], phase := .calling }
        else none
    | .call =>
        match s.phase, s.todo, s.rest with
        | .calling, [], d :: rest =>
            some { s.resume d (LoopThread.closeTask (s.conns d) []) [] with rest := rest }
        | _, _, _ => none
    | .functionsDone =>
        if s.phase = .calling ∧ s.todo = [] ∧ s.rest = [] then
          some { s with functions := [], phase := .polling }
        else none

/-- The number of owners of a connection that the server and the loop hold. -/
def owners (s : TcpServer) (d : ℕ) : ℕ :=
  (if s.connections (s.connName d) = some d then 1 else 0) +
    s.todo.countP (fun f => f.holds == some d) + s.queue.count d + s.functions.count d

/-- A poll event reported for the connection is still to be dispatched, or its dispatch is
in progress. -/
def Dispatching (s : TcpServer) (d : ℕ) : Prop := ∃ f ∈ s.todo, f.event = some d

instance (s : TcpServer) (d : ℕ) : Decidable (s.Dispatching d) :=
  inferInstanceAs (Decidable (∃ _ ∈ s.todo, _))

/-- The connections that `handleClose` will run for in this step. -/
def closing (s : TcpServer) : ServerOp → Option ℕ
  | .close d => some d
  | .proceed n _ =>
      match s.todo with
      | .conn d k :: _ => if LoopThread.closesNext ⟨s.conns d, [k]⟩ n then some d else none
      | _ => none
  | .call => s.rest.head?
  | _ => none

/-! ## Names -/

/-- The index can be read off a name: it is what follows the last `#`. -/
theorem formatName_inj {name name' addr addr' : List Char} {i j : ℕ}
    (h : formatName name addr i = formatName name' addr' j) : i = j := by
  have hdigits : ∀ n, ∀ c ∈ (Nat.toDigits 10 n).reverse, decide (c ≠ '#') = true := by
    intro n c hc
    have hdigit := Nat.isDigit_of_mem_toDigits (by decide) (by decide) (List.mem_reverse.mp hc)
    refine decide_eq_true ?_
    rintro rfl
    exact absurd hdigit (by decide)
  have hlast : ∀ (name addr : List Char) (n : ℕ),
      (formatName name addr n).reverse.takeWhile (fun c => decide (c ≠ '#')) =
        (Nat.toDigits 10 n).reverse := by
    intro name addr n
    have hrev : (formatName name addr n).reverse =
        (Nat.toDigits 10 n).reverse ++ '#' :: (name ++ '-' :: addr).reverse := by
      simp [formatName]
    -- from behind, the digits end at the first `#`
    rw [hrev, List.takeWhile_append_of_pos (hdigits n)]
    simp
  have hij : Nat.toDigits 10 i = Nat.toDigits 10 j := by
    rw [← List.reverse_inj, ← hlast name addr i, ← hlast name' addr' j, h]
  rw [← Nat.ofDigitChars_ten_toDigits (n := i), hij, Nat.ofDigitChars_ten_toDigits]

end TcpServer

end Lotta
