/-
# Channels: the interest set of one descriptor

A `Channel` belongs to one file descriptor: the events the loop is interested in
(`events_`), the events the last poll reported (`revents_`) and its position in the
poller (`idxPoll_`, `-1` before the first update).  The `poll(2)` bits are those of
Linux.  `enableReading` and its siblings change `events_` only; the call of `update()`
that follows is the poller's part.
-/
import Mathlib.Data.BitVec
import Mathlib.Tactic.Common

namespace Lotta

/-! ## The bits of `poll(2)` -/

def pollIn : BitVec 32 := 0x0001
def pollPri : BitVec 32 := 0x0002
def pollOut : BitVec 32 := 0x0004
def pollErr : BitVec 32 := 0x0008
def pollHup : BitVec 32 := 0x0010
def pollNval : BitVec 32 := 0x0020
def pollRdhup : BitVec 32 := 0x2000

def kEmptyEvent : BitVec 32 := 0
def kReadPollEvent : BitVec 32 := pollIn ||| pollPri ||| pollRdhup
def kWritePollEvent : BitVec 32 := pollOut
def kErrorPollEvent : BitVec 32 := pollErr ||| pollNval

/-! ## The channel -/

/-- `Channel`, without its callbacks. -/
structure Channel where
  fd : ℤ
  events : BitVec 32
  revents : BitVec 32
  idxPoll : ℤ
  deriving DecidableEq, Repr

namespace Channel

/-- `Channel(loop, fd)`. -/
def init (fd : ℤ) : Channel := ⟨fd, 0, 0, -1⟩

def isEmptyEvent (ch : Channel) : Bool := ch.events == kEmptyEvent
def isWriting (ch : Channel) : Bool := ch.events &&& kWritePollEvent != 0

/-- Add a mask to the interest set. -/
def enable (mask : BitVec 32) (ch : Channel) : Channel :=
  { ch with events := ch.events ||| mask }

/-- Take a mask out of the interest set. -/
def disable (mask : BitVec 32) (ch : Channel) : Channel :=
  { ch with events := ch.events &&& ~~~mask }

def enableReading : Channel → Channel := enable kReadPollEvent
def disableReading : Channel → Channel := disable kReadPollEvent
def enableWriting : Channel → Channel := enable kWritePollEvent
def disableWriting : Channel → Channel := disable kWritePollEvent

/-- The assignment of `disableEvents()`. -/
def disableEvents (ch : Channel) : Channel := { ch with events := kEmptyEvent }

end Channel

/-- The five calls that change an interest set. -/
inductive InterestCall where
  | enableReading
  | disableReading
  | enableWriting
  | disableWriting
  | disableEvents
  deriving DecidableEq, Repr

/-- What a call does to its channel before `update()`. -/
def InterestCall.apply : InterestCall → Channel → Channel
  | .enableReading => Channel.enableReading
  | .disableReading => Channel.disableReading
  | .enableWriting => Channel.enableWriting
  | .disableWriting => Channel.disableWriting
  | .disableEvents => Channel.disableEvents

/-- The calls that can only add to the interest set. -/
def InterestCall.isEnable : InterestCall → Bool
  | .enableReading => true
  | .enableWriting => true
  | _ => false

/-! ## The tests of `handleEvent` -/

/-- The test before `closeCallback_`: a hang-up without `POLLIN`. -/
def hangsUp (revents : BitVec 32) : Bool :=
  revents &&& pollHup != 0 && revents &&& pollIn == 0

/-- The test before `errorCallback_`. -/
def isErroneous (revents : BitVec 32) : Bool := revents &&& kErrorPollEvent != 0

/-- The test before `readCallback_`. -/
def isReadable (revents : BitVec 32) : Bool := revents &&& kReadPollEvent != 0

/-- The test before `writeCallback_`. -/
def isWritable (revents : BitVec 32) : Bool := revents &&& kWritePollEvent != 0

/-! ## Interest sets -/

/-- The interest sets that the five calls can build. -/
def IsInterest (e : BitVec 32) : Prop :=
  e = 0 ∨ e = kReadPollEvent ∨ e = kWritePollEvent ∨ e = kReadPollEvent ||| kWritePollEvent

/-- What a call does to the interest set alone. -/
def InterestCall.onMask : InterestCall → BitVec 32 → BitVec 32
  | .enableReading, e => e ||| kReadPollEvent
  | .disableReading, e => e &&& ~~~kReadPollEvent
  | .enableWriting, e => e ||| kWritePollEvent
  | .disableWriting, e => e &&& ~~~kWritePollEvent
  | .disableEvents, _ => kEmptyEvent

theorem events_apply (call : InterestCall) (ch : Channel) :
    (call.apply ch).events = call.onMask ch.events := by
  cases call <;> rfl

@[simp] theorem fd_apply (call : InterestCall) (ch : Channel) : (call.apply ch).fd = ch.fd := by
  cases call <;> rfl

@[simp] theorem idxPoll_apply (call : InterestCall) (ch : Channel) :
    (call.apply ch).idxPoll = ch.idxPoll := by
  cases call <;> rfl

theorem isInterest_apply (call : InterestCall) {ch : Channel} (h : IsInterest ch.events) :
    IsInterest (call.apply ch).events := by
  rw [events_apply]
  generalize ch.events = e at h
  cases call <;> rcases h with rfl | rfl | rfl | rfl <;> unfold IsInterest <;> decide

/-- An interest set survives the conversion to the `short` of a `pollfd` and back. -/
theorem signExtend_setWidth {e : BitVec 32} (h : IsInterest e) :
    (e.setWidth 16).signExtend 32 = e := by
  rcases h with rfl | rfl | rfl | rfl <;> decide

/-- A non-empty interest set stays non-empty in a `pollfd`. -/
theorem setWidth_eq_zero_iff {e : BitVec 32} (h : IsInterest e) :
    e.setWidth 16 = 0 ↔ e = 0 := by
  rcases h with rfl | rfl | rfl | rfl <;> decide

/-- The interest set after an enabling call is not empty. -/
theorem events_apply_ne_zero {call : InterestCall} (hcall : call.isEnable = true)
    {ch : Channel} (h : IsInterest ch.events) : (call.apply ch).events ≠ 0 := by
  rw [events_apply]
  generalize ch.events = e at h
  revert hcall
  cases call <;> rcases h with rfl | rfl | rfl | rfl <;> decide

/-- A disabling call leaves an empty interest set empty. -/
theorem events_apply_eq_zero {call : InterestCall} (hcall : call.isEnable = false)
    {ch : Channel} (h : ch.events = 0) : (call.apply ch).events = 0 := by
  rw [events_apply, h]
  revert hcall
  cases call <;> decide

end Lotta
