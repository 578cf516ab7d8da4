/-
# TcpConnection: the code of one connection

The functions of `TcpConnection` that run on its loop thread, up to the point where they
call back into user code.  `log` records in order what the connection does to the world
around it: the values it stores in `state_`, its calls of the kernel and of the poller,
and the callbacks it makes.  `outBuf_` is an ideal byte queue here.

Whether a failed `assert` stops the process depends on the build, so `asserts` says
whether the assertions are compiled in.  Where they are not, the call of the poller for
a removed channel is taken to return; what it does to other channels is the poller's
matter.
-/
import Lotta.Channel

namespace Lotta

/-- `TcpConnection::State`. -/
inductive ConnState where
  | connecting
  | connected
  | disconnecting
  | disconnected
  deriving DecidableEq, Repr

/-- The place of a state in the enumeration. -/
def ConnState.rank : ConnState → ℕ
  | .connecting => 0
  | .connected => 1
  | .disconnecting => 2
  | .disconnected => 3

/-- Where a channel stands with the poller: not registered yet, in `channels_`, or
removed from it. -/
inductive Registration where
  | fresh
  | registered
  | removed
  deriving DecidableEq, Repr

/-- A `std::string`; its size fits into a `ssize_t`. -/
structure Message where
  bytes : List UInt8
  length_lt : bytes.length < 2 ^ 63

instance : DecidableEq Message := fun a b =>
  decidable_of_iff (a.bytes = b.bytes) (by cases a; cases b; simp)

/-- `msg.size()`. -/
def Message.size (msg : Message) : ℕ := msg.bytes.length

/-- An answer of `socket::write`: the kernel takes `k` bytes, or as many as it is
offered, or it takes nothing and returns `-1`. -/
inductive WriteResult where
  | accepted (k : ℕ)
  | failed
  deriving DecidableEq, Repr

/-- The value that `socket::write` returns when `n` bytes are offered. -/
def WriteResult.returned : WriteResult → ℕ → ℤ
  | .accepted k, n => (min k n : ℕ)
  | .failed, _ => -1

/-- The conversion of a `ssize_t` to the unsigned `size_type`. -/
def toSize (n : ℤ) : ℕ := (n % 2 ^ 64).toNat

/-- What a connection does to the world around it. -/
inductive Effect where
  | store (s : ConnState)
  | write (offered : List UInt8) (n : ℤ)
  | shutdownWrite
  | updateChannel (events : BitVec 32)
  | removeChannel
  | msgCallback
  | closeCallback
  | rmConnCallback
  | closeSocket
  deriving DecidableEq, Repr

/-- The bytes that the kernel has taken by an effect. -/
def Effect.taken : Effect → List UInt8
  | .write offered n => offered.take n.toNat
  | _ => []

/-- The value that an effect stores in `state_`. -/
def Effect.stored : Effect → Option ConnState
  | .store s => some s
  | _ => none

/-- One connection.  `socket` says that `socket_` still owns the descriptor. -/
structure TcpConnection where
  asserts : Bool
  state : ConnState
  channel : Channel
  registration : Registration
  socket : Bool
  outBuf : List UInt8
  log : List Effect
  aborted : Bool

namespace TcpConnection

/-- A new connection for a descriptor. -/
def init (asserts : Bool) (fd : ℤ) : TcpConnection where
  asserts := asserts
  state := .connecting
  channel := Channel.init fd
  registration := .fresh
  socket := true
  outBuf := []
  log := []
  aborted := false

/-- The bytes that the kernel has taken so far. -/
def kernel (c : TcpConnection) : List UInt8 := c.log.flatMap Effect.taken

/-- The values stored in `state_` so far. -/
def stores (c : TcpConnection) : List ConnState := c.log.filterMap Effect.stored

/-- Record an effect. -/
def emit (c : TcpConnection) (e : Effect) : TcpConnection := { c with log := c.log ++ [e] }

/-- An assertion. -/
def check (c : TcpConnection) (b : Bool) : TcpConnection :=
  { c with aborted := c.aborted || (c.asserts && !b) }

/-- What follows an assertion is reached only when the process still runs. -/
def thenDo (c : TcpConnection) (f : TcpConnection → TcpConnection) : TcpConnection :=
  if c.aborted then c else f c

/-- An assignment of `state_`. -/
def setState (c : TcpConnection) (s : ConnState) : TcpConnection :=
  { c with state := s, log := c.log ++ [.store s] }

/-- The queue `outBuf_` after a call of `append` or `retrieve`. -/
def setOutBuf (c : TcpConnection) (xs : List UInt8) : TcpConnection := { c with outBuf := xs }

/-- `channel_->update()`: the first update registers the channel; a later one asserts
that `channels_` holds it. -/
def updateChannel (c : TcpConnection) : TcpConnection :=
  let c := c.emit (.updateChannel c.channel.events)
  match c.registration with
  | .fresh => { c with registration := .registered }
  | .registered => c
  | .removed => c.check false

/-- `channel_->enableReading()` and its siblings. -/
def interest (c : TcpConnection) (k : InterestCall) : TcpConnection :=
  { c with channel := k.apply c.channel }.updateChannel

/-- `channel_->remove()`. -/
def removeChannel (c : TcpConnection) : TcpConnection :=
  (c.check c.channel.isEmptyEvent).thenDo fun c =>
    let c := c.emit .removeChannel
    match c.registration with
    | .registered => { c with registration := .removed }
    | _ => c.check false

/-- `shutdownTask`. -/
def shutdownTask (c : TcpConnection) : TcpConnection :=
  if c.channel.isWriting then c else c.emit .shutdownWrite

/-- The test of `sendTask` before it writes to the kernel itself. -/
def writesDirectly (c : TcpConnection) : Bool := !c.channel.isWriting && c.outBuf.isEmpty

/-- The value of `n` in `sendTask` after the write; `n` is unsigned, so `n < 0` never
holds. -/
def sendCount (c : TcpConnection) (msg : Message) (r : WriteResult) : ℕ :=
  if c.writesDirectly then
    let n := toSize (r.returned msg.size)
    if n < 0 then 0 else n
  else 0

/-- The second half of `sendTask`: what is left of the message goes into `outBuf_`. -/
def keepRest (c : TcpConnection) (msg : Message) (n : ℕ) : TcpConnection :=
  if n < msg.size then
    let c := c.setOutBuf (c.outBuf ++ msg.bytes.drop n)
    if !c.channel.isWriting then c.interest .enableWriting else c
  else c

/-- `sendTask`. -/
def sendTask (c : TcpConnection) (msg : Message) (r : WriteResult) : TcpConnection :=
  let n := c.sendCount msg r
  let c := if c.writesDirectly then c.emit (.write msg.bytes (r.returned msg.size)) else c
  c.keepRest msg n

/-- What `handleWrite` does when the last byte of `outBuf_` is written. -/
def outputDone (c : TcpConnection) : TcpConnection :=
  (c.interest .disableWriting).thenDo fun c =>
    if c.state = .disconnecting then c.shutdownTask else c

/-- `handleWrite`. -/
def handleWrite (c : TcpConnection) (r : WriteResult) : TcpConnection :=
  if !c.channel.isWriting then c
  else
    let n := r.returned c.outBuf.length
    let c := c.emit (.write c.outBuf n)
    if n ≤ 0 then c
    else
      let c := c.setOutBuf (c.outBuf.drop n.toNat)
      if c.outBuf.length = 0 then c.outputDone else c

/-- `handleClose` up to `closeCallback_`. -/
def handleClose (c : TcpConnection) : TcpConnection :=
  ((c.setState .disconnected).interest .disableEvents).thenDo removeChannel

/-- `connEstablished` up to `connCallback_`. -/
def connEstablished (c : TcpConnection) : TcpConnection :=
  (c.check (c.state == .connecting)).thenDo fun c =>
    (c.setState .connected).interest .enableReading

/-- `send` on the loop thread, where `exec` calls the task at once. -/
def send (c : TcpConnection) (msg : Message) (r : WriteResult) : TcpConnection :=
  if c.state ≠ .connected then c else c.sendTask msg r

/-- `shutdown` on the loop thread. -/
def shutdown (c : TcpConnection) : TcpConnection :=
  if c.state ≠ .connected then c else (c.setState .disconnecting).shutdownTask

/-- `socket_.reset()`. -/
def resetSocket (c : TcpConnection) : TcpConnection :=
  if c.socket then { c.emit .closeSocket with socket := false } else c

/-- A connection after `connEstablished`. -/
def established (asserts : Bool) (fd : ℤ) : TcpConnection := (init asserts fd).connEstablished

/-- What `connEstablished` makes of a new connection. -/
theorem established_eq (asserts : Bool) (fd : ℤ) :
    established asserts fd =
      { asserts := asserts, state := .connected, channel := (Channel.init fd).enableReading,
        registration := .registered, socket := true, outBuf := [], aborted := false,
        log := [.store .connected, .updateChannel (Channel.init fd).enableReading.events] } := by
  cases asserts <;> rfl

/-! ## Which functions move bytes and store states -/

section Effects

variable (c : TcpConnection)

theorem thenDo_cases {P : TcpConnection → Prop} {f : TcpConnection → TcpConnection}
    (hc : P c) (hf : P (f c)) : P (c.thenDo f) := by
  rw [thenDo]
  split
  · exact hc
  · exact hf

@[simp] theorem kernel_emit (e : Effect) : (c.emit e).kernel = c.kernel ++ e.taken := by
  simp [kernel, emit]

@[simp] theorem outBuf_emit (e : Effect) : (c.emit e).outBuf = c.outBuf := rfl

@[simp] theorem kernel_setOutBuf (xs : List UInt8) : (c.setOutBuf xs).kernel = c.kernel := rfl

/-- What stays as it is when a function neither moves bytes nor stores a state. -/
structure Frame (d : TcpConnection) : Prop where
  kernel : d.kernel = c.kernel
  outBuf : d.outBuf = c.outBuf
  state : d.state = c.state

variable {c}

theorem Frame.trans {d e : TcpConnection} (hd : Frame c d) (he : Frame d e) : Frame c e :=
  ⟨he.kernel.trans hd.kernel, he.outBuf.trans hd.outBuf, he.state.trans hd.state⟩

variable (c)

theorem frame_updateChannel : Frame c c.updateChannel := by
  have hkernel : (c.emit (.updateChannel c.channel.events)).kernel = c.kernel := by
    simp [Effect.taken]
  simp only [updateChannel]
  split <;> exact ⟨hkernel, rfl, rfl⟩

theorem frame_interest (k : InterestCall) : Frame c (c.interest k) := by
  obtain ⟨hkernel, hout, hstate⟩ := frame_updateChannel { c with channel := k.apply c.channel }
  exact ⟨hkernel, hout, hstate⟩

theorem frame_shutdownTask : Frame c c.shutdownTask := by
  rw [shutdownTask]
  split
  · exact ⟨rfl, rfl, rfl⟩
  · exact ⟨by simp [Effect.taken], rfl, rfl⟩

theorem frame_outputDone : Frame c c.outputDone := by
  have hinterest : Frame c (c.interest .disableWriting) := frame_interest c _
  refine thenDo_cases (P := Frame c) _ hinterest ?_
  split
  · exact hinterest.trans (frame_shutdownTask _)
  · exact hinterest

end Effects

end TcpConnection

end Lotta
