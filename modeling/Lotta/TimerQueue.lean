/-
# TimerQueue: the timers of a loop behind one timer fd

`timers_` holds the pending timers by deadline; one timer fd, armed for one instant at a
time, wakes the loop for all of them.  Timers are named by a type `ι`, and `timer` holds
the objects behind the pointers, whose deadline `restart` moves.  Instants and durations
are in ticks of the clock; `period` is the interval of a repeating timer after the
conversion from seconds.

`handleTimer` is interrupted by the callbacks of the expired timers, which may add and
cancel timers themselves.  It is therefore three steps: `handleTimer` up to the first
callback, the start of each callback, and `resetTimers` after the last one.  `Batch` is
what the interrupted call holds.  The clock moves on between the steps.

`asserts` says whether the assertion of `expireTimers` is compiled in: it fails for a timer
whose deadline is the captured instant, and without it that timer stays in `timers_`.
-/
import Lotta.Lib.Multimap
import Mathlib.Data.Int.Order.Basic
import Mathlib.Logic.Function.Basic

namespace Lotta

/-- `Timer`, without its callback. -/
structure Timer where
  when : ℤ
  period : ℕ
  repeats : Bool
  deriving DecidableEq, Repr

/-- `Timer::restart`. -/
def Timer.restart (t : Timer) : Timer :=
  if t.repeats then { t with when := t.when + t.period } else t

/-- A call of `handleTimer` in progress: the instant it captured, the expired timers, and
those whose callback has not been called yet. -/
structure Batch (ι : Type*) where
  now : ℤ
  expired : List (ℤ × ι)
  rest : List (ℤ × ι)

/-- The timers of a loop.  `armed` is the instant for which the timer fd is armed, until
an expiry is read. -/
structure TimerQueue (ι : Type*) where
  asserts : Bool
  timer : ι → Timer
  timers : Multimap ℤ ι
  doingTimerCallback : Bool
  cancelledTimers : Multimap ℤ ι
  armed : Option ℤ
  clock : ℤ
  batch : Option (Batch ι)

/-- The steps: time passes, the two tasks, and the three parts of `handleTimer`.  In the
first of these `readAt` is the time at which the fd is read. -/
inductive TimerOp (ι : Type*) where
  | tick (t : ℤ)
  | addTask (i : ι)
  | cancelTask (i : ι)
  | handleTimer (readAt : ℤ)
  | callback
  | resetTimers

namespace TimerQueue

variable {ι : Type*} [DecidableEq ι]

/-- A new queue; `timer` are the timers that will be used with it. -/
def init (asserts : Bool) (timer : ι → Timer) (clock : ℤ) : TimerQueue ι where
  asserts := asserts
  timer := timer
  timers := .empty
  doingTimerCallback := false
  cancelledTimers := .empty
  armed := none
  clock := clock
  batch := none

/-- `resetTimerFd`: the fd is armed for the given instant. -/
def resetTimerFd (q : TimerQueue ι) (point : ℤ) : TimerQueue ι := { q with armed := some point }

/-- The timer fd has expired and has not been read. -/
def expiredUnread (q : TimerQueue ι) : Bool := q.armed.any fun t => decide (t ≤ q.clock)

/-- `readTimerFd`: an expiry is read, and the fd is not armed any more. -/
def readTimerFd (q : TimerQueue ι) : TimerQueue ι :=
  if q.expiredUnread then { q with armed := none } else q

/-- The result of `pushTimerToMap`: whether the timer will be the first. -/
def pushedToFirst (q : TimerQueue ι) (i : ι) : Bool :=
  match q.timers.first? with
  | none => true
  | some e => decide ((q.timer i).when < e.1)

/-- `pushTimerToMap`. -/
def pushTimerToMap (q : TimerQueue ι) (i : ι) : TimerQueue ι :=
  { q with timers := q.timers.insert (q.timer i).when i }

/-- `addTask`. -/
def addTask (q : TimerQueue ι) (i : ι) : TimerQueue ι :=
  if q.pushedToFirst i then (q.pushTimerToMap i).resetTimerFd (q.timer i).when
  else q.pushTimerToMap i

/-- `findTimer` finds the entry of this timer. -/
def findTimer (timers : Multimap ℤ ι) (e : ℤ × ι) : Bool := decide (e ∈ timers.entries)

/-- `cancelTask`. -/
def cancelTask (q : TimerQueue ι) (i : ι) : TimerQueue ι :=
  if findTimer q.timers ((q.timer i).when, i) then
    { q with timers := q.timers.erase ((q.timer i).when, i) }
  -- the timer may be one of the batch, which is not to be restarted then
  else if q.doingTimerCallback then
    { q with cancelledTimers := q.cancelledTimers.insert (q.timer i).when i }
  else q

/-- `expireTimers`, with the assertion on the first timer that stays. -/
def expireTimers (q : TimerQueue ι) (now : ℤ) : Option (List (ℤ × ι) × TimerQueue ι) :=
  if q.asserts && !((q.timers.fromBound now).first?.all fun e => decide (now < e.1)) then none
  else some (q.timers.belowBound now, { q with timers := q.timers.fromBound now })

/-- `handleTimer` up to the callbacks, read at the time `readAt`. -/
def handleTimer (q : TimerQueue ι) (readAt : ℤ) : Option (TimerQueue ι) :=
  let now := q.clock
  -- time passes between the reading of the clock and that of the fd
  let q := { q with clock := readAt }.readTimerFd
  (q.expireTimers now).map fun r =>
    { r.2 with
      doingTimerCallback := true
      cancelledTimers := .empty
      batch := some ⟨now, r.1, r.1⟩ }

/-- The timer of an expired entry is restarted: it repeats, and no callback of the batch
has cancelled it. -/
def restarts (q : TimerQueue ι) (e : ℤ × ι) : Bool :=
  (q.timer e.2).repeats && !findTimer q.cancelledTimers e

/-- One turn of the loop in `resetTimers`. -/
def restartEntry (q : TimerQueue ι) (e : ℤ × ι) : TimerQueue ι :=
  if q.restarts e then
    { q with timer := Function.update q.timer e.2 (q.timer e.2).restart }.pushTimerToMap e.2
  else q

/-- The end of `resetTimers`: the fd is armed only for a deadline after `now`. -/
def rearm (q : TimerQueue ι) (now : ℤ) : TimerQueue ι :=
  match q.timers.first? with
  | none => q
  | some e => if now < e.1 then q.resetTimerFd e.1 else q

/-- `resetTimers`. -/
def resetTimers (q : TimerQueue ι) (now : ℤ) (expired : List (ℤ × ι)) : TimerQueue ι :=
  (expired.foldl restartEntry q).rearm now

/-- Code that may add and cancel timers runs: between the calls of `handleTimer`, or in a
callback. -/
def userRuns (q : TimerQueue ι) : Bool :=
  match q.batch with
  | none => true
  | some b => decide (b.rest.length < b.expired.length)

/-- One step; `none` when it is not the turn of this step, or when an assertion fails. -/
def step (q : TimerQueue ι) : TimerOp ι → Option (TimerQueue ι)
  | .tick t => if q.clock ≤ t then some { q with clock := t } else none
  | .addTask i => if q.userRuns then some (q.addTask i) else none
  | .cancelTask i => if q.userRuns then some (q.cancelTask i) else none
  | .handleTimer readAt =>
      match q.batch with
      | none => if q.clock ≤ readAt then q.handleTimer readAt else none
      | some _ => none
  | .callback =>
      match q.batch with
      | some ⟨now, expired, _ :: rest⟩ => some { q with batch := some ⟨now, expired, rest⟩ }
      | _ => none
  | .resetTimers =>
      match q.batch with
      | some ⟨now, expired, []⟩ =>
          some (resetTimers { q with doingTimerCallback := false, batch := none } now expired)
      | _ => none

/-! ## What the functions change -/

omit [DecidableEq ι] in
theorem readTimerFd_eq (q : TimerQueue ι) : ∃ a, q.readTimerFd = { q with armed := a } := by
  rw [readTimerFd]
  split
  · exact ⟨none, rfl⟩
  · exact ⟨q.armed, rfl⟩

omit [DecidableEq ι] in
theorem addTask_eq (q : TimerQueue ι) (i : ι) :
    ∃ a, q.addTask i =
      { q with timers := q.timers.insert (q.timer i).when i, armed := a } := by
  rw [addTask]
  split
  · exact ⟨some (q.timer i).when, rfl⟩
  · exact ⟨q.armed, rfl⟩

/-- `cancelTask` takes an entry out or marks it as cancelled. -/
theorem cancelTask_eq (q : TimerQueue ι) (i : ι) :
    ∃ timers marks, q.cancelTask i = { q with timers := timers, cancelledTimers := marks } ∧
      timers.entries.Sublist q.timers.entries ∧
      ∀ e ∈ q.cancelledTimers.entries, e ∈ marks.entries := by
  rw [cancelTask]
  split
  · exact ⟨_, q.cancelledTimers, rfl, List.erase_sublist, fun _ => id⟩
  · split
    · exact ⟨q.timers, _, rfl, List.Sublist.refl _, fun _ he => Multimap.mem_insert.mpr (Or.inr he)⟩
    · exact ⟨q.timers, q.cancelledTimers, rfl, List.Sublist.refl _, fun _ => id⟩

variable {q r : TimerQueue ι}

/-- A call of `handleTimer` begins: the timers whose deadlines have passed become the batch. -/
theorem handleTimer_cases {readAt : ℤ} (h : q.step (.handleTimer readAt) = some r) :
    q.batch = none ∧ q.clock ≤ readAt ∧
      ∃ a, r = { q with
        timers := q.timers.fromBound q.clock
        doingTimerCallback := true
        cancelledTimers := .empty
        armed := a
        clock := readAt
        batch := some ⟨q.clock, q.timers.belowBound q.clock, q.timers.belowBound q.clock⟩ } := by
  simp only [step] at h
  split at h
  · rename_i hnone
    rw [Option.ite_none_right_eq_some, handleTimer, Option.map_eq_some_iff] at h
    obtain ⟨hread, ⟨expired, u⟩, hexp, rfl⟩ := h
    obtain ⟨a, heq⟩ := readTimerFd_eq { q with clock := readAt }
    rw [heq, expireTimers, Option.ite_none_left_eq_some, Option.some.injEq, Prod.mk.injEq] at hexp
    obtain ⟨-, rfl, rfl⟩ := hexp
    exact ⟨hnone, hread, a, rfl⟩
  · cases h

/-- The next callback of the batch starts. -/
theorem callback_cases (h : q.step .callback = some r) :
    ∃ now expired e rest, q.batch = some ⟨now, expired, e :: rest⟩ ∧
      r = { q with batch := some ⟨now, expired, rest⟩ } := by
  simp only [step] at h
  split at h
  · rename_i now expired e rest hbatch
    exact ⟨now, expired, e, rest, hbatch, (Option.some.inj h).symm⟩
  · cases h

/-- A call of `handleTimer` ends. -/
theorem resetTimers_cases (h : q.step .resetTimers = some r) :
    ∃ now expired, q.batch = some ⟨now, expired, []⟩ ∧
      r = resetTimers { q with doingTimerCallback := false, batch := none } now expired := by
  simp only [step] at h
  split at h
  · rename_i now expired hbatch
    exact ⟨now, expired, hbatch, (Option.some.inj h).symm⟩
  · cases h

end TimerQueue

end Lotta
