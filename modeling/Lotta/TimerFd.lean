/-
# Deadlines at the clock

Two places of `TimerQueue` compare a deadline with the clock, and both have the instant in
between in them.

`expireTimers` splits `timers_` at `lower_bound(now)`, which leaves a timer whose deadline is
`now` behind; its assertion fails there.  `partitionsAt_iff` says that this is the only
instant at which the expired timers are not exactly those that are taken.

`resetTimerFd` turns a deadline into the time that is left until it, measured with a reading
of the clock of its own.  A deadline that has been passed by then gives an `itimerspec` that
`timerfd_settime` rejects, and one that is just reached disarms the fd: `arms_iff`.
-/
import Lotta.TimerQueue

namespace Lotta

namespace TimerQueue

variable {ι : Type*} [DecidableEq ι]

/-! ## Taking the expired timers -/

/-- `expireTimers` passes its assertion, takes exactly the entries whose deadline is at or
before `now`, and leaves exactly those whose deadline is after `now`, both in order. -/
def PartitionsAt (q : TimerQueue ι) (now : ℤ) : Prop :=
  ∃ expired r, q.expireTimers now = some (expired, r) ∧
    expired = q.timers.entries.filter (fun e => e.1 ≤ now) ∧
    r.timers.entries = q.timers.entries.filter (fun e => now < e.1)

omit [DecidableEq ι] in
/-- The assertion holds when no timer is due at `now` itself. -/
theorem expireTimers_eq {q : TimerQueue ι} {now : ℤ} (h : ∀ e ∈ q.timers.entries, e.1 ≠ now) :
    q.expireTimers now =
      some (q.timers.belowBound now, { q with timers := q.timers.fromBound now }) := by
  rw [expireTimers, if_neg]
  simp only [Bool.and_eq_true, Bool.not_eq_true', not_and, Bool.not_eq_false]
  intro _
  rw [Option.all_eq_true]
  intro e he
  have hmem := Multimap.mem_fromBound.mp (Multimap.mem_of_first? he)
  exact decide_eq_true (lt_of_le_of_ne hmem.2 (h e hmem.1).symm)

omit [DecidableEq ι] in
/-- The expired timers are taken and no others, exactly when no deadline is `now`. -/
theorem partitionsAt_iff (q : TimerQueue ι) (now : ℤ) :
    q.PartitionsAt now ↔ ∀ e ∈ q.timers.entries, e.1 ≠ now := by
  constructor
  · rintro ⟨expired, r, heq, htaken, -⟩ e he rfl
    -- the timer that is due at `now` would have to be among those before the bound
    have hexpired : expired = q.timers.belowBound e.1 := by
      rw [expireTimers, Option.ite_none_left_eq_some, Option.some.injEq, Prod.mk.injEq] at heq
      exact heq.2.1.symm
    have hmem : e ∈ expired := by
      rw [htaken]
      exact List.mem_filter.mpr ⟨he, by simp⟩
    rw [hexpired] at hmem
    exact lt_irrefl _ (Multimap.lt_of_mem_belowBound hmem)
  · intro h
    refine ⟨_, _, expireTimers_eq h, ?_, ?_⟩
    · rw [Multimap.belowBound_eq_filter]
      refine List.filter_congr fun e he => ?_
      rw [decide_eq_decide]
      exact ⟨le_of_lt, fun hle => lt_of_le_of_ne hle (h e he)⟩
    · rw [Multimap.fromBound_eq_filter]
      refine List.filter_congr fun e he => ?_
      rw [decide_eq_decide]
      exact ⟨fun hle => lt_of_le_of_ne hle (h e he).symm, le_of_lt⟩

/-- One timer that is due at the instant that `handleTimer` has captured. -/
theorem not_partitionsAt_now :
    ¬ (addTask (init true (fun _ : Unit => ⟨5, 0, false⟩) 0) ()).PartitionsAt 5 := by
  rintro ⟨expired, r, heq, -⟩
  have hassert : (expireTimers (addTask (init true (fun _ : Unit => ⟨5, 0, false⟩) 0) ()) 5).isSome
      = false := by
    decide
  rw [heq] at hassert
  cases hassert

/-! ## Arming the timer fd -/

/-- `timespec`. -/
structure TimeSpec where
  tv_sec : ℤ
  tv_nsec : ℤ
  deriving DecidableEq, Repr

/-- The seconds are not negative and the nanoseconds are a part of one second. -/
def TimeSpec.Valid (v : TimeSpec) : Prop := 0 ≤ v.tv_sec ∧ 0 ≤ v.tv_nsec ∧ v.tv_nsec < 1000000000

instance (v : TimeSpec) : Decidable v.Valid := inferInstanceAs (Decidable (_ ∧ _ ∧ _))

/-- `itimerspec`. -/
structure ITimerSpec where
  it_interval : TimeSpec
  it_value : TimeSpec
  deriving DecidableEq, Repr

/-- What `resetTimerFd` passes on for the deadline `point` when it reads the clock as
`reading`.  The division and the remainder are those of signed integers, which round towards
zero. -/
def itimerspec (point reading : ℤ) : ITimerSpec :=
  let nanoseconds := point - reading
  { it_interval := ⟨0, 0⟩
    it_value := ⟨nanoseconds.tdiv 1000000000, nanoseconds.tmod 1000000000⟩ }

/-- What becomes of a timer fd: it is left alone because of `EINVAL`, it is disarmed, or it
is armed for some nanoseconds ahead. -/
inductive FdOutcome where
  | einval
  | disarmed
  | armed (ahead : ℤ)
  deriving DecidableEq, Repr

/-- `timerfd_settime` without flags. -/
def timerfdSettime (spec : ITimerSpec) : FdOutcome :=
  if ¬ spec.it_interval.Valid ∨ ¬ spec.it_value.Valid then .einval
  else if spec.it_value = ⟨0, 0⟩ then .disarmed
  else .armed (spec.it_value.tv_sec * 1000000000 + spec.it_value.tv_nsec)

/-- The deadline that a step passes to `resetTimerFd`, when it calls it. -/
def armedFor (q : TimerQueue ι) : TimerOp ι → Option ℤ
  | .addTask i => if q.userRuns && q.pushedToFirst i then some (q.timer i).when else none
  | .resetTimers =>
      match q.batch with
      | some ⟨now, expired, []⟩ =>
          let q := expired.foldl restartEntry { q with doingTimerCallback := false, batch := none }
          q.timers.first?.bind fun e => if now < e.1 then some e.1 else none
      | _ => none
  | _ => none

/-- The steps pass these deadlines on. -/
theorem armed_of_step {q r : TimerQueue ι} {op : TimerOp ι} {point : ℤ}
    (hstep : q.step op = some r) (hcall : q.armedFor op = some point) :
    r.armed = some point := by
  cases op with
  | addTask i =>
      rw [armedFor, Option.ite_none_right_eq_some, Bool.and_eq_true] at hcall
      obtain ⟨⟨hruns, hfirst⟩, hpoint⟩ := hcall
      simp only [step, hruns, if_true, addTask, hfirst, Option.some.injEq] at hstep
      rw [← hstep]
      exact hpoint
  | resetTimers =>
      obtain ⟨now, expired, hbatch, rfl⟩ := resetTimers_cases hstep
      simp only [armedFor, hbatch, Option.bind_eq_some_iff, Option.ite_none_right_eq_some] at hcall
      obtain ⟨e, he, hlt, hpoint⟩ := hcall
      simp only [resetTimers, rearm, he, if_pos hlt]
      exact hpoint
  | tick t => cases hcall
  | cancelTask i => cases hcall
  | handleTimer readAt => cases hcall
  | callback => cases hcall

/-- `resetTimers` passes on a deadline after the instant that its call of `handleTimer` has
captured. -/
theorem lt_of_armedFor_resetTimers {q : TimerQueue ι} {b : Batch ι} {point : ℤ}
    (hbatch : q.batch = some b) (hcall : q.armedFor .resetTimers = some point) :
    b.now < point := by
  obtain ⟨now, expired, rest⟩ := b
  rw [armedFor, hbatch] at hcall
  cases rest with
  | nil =>
      simp only [Option.bind_eq_some_iff, Option.ite_none_right_eq_some] at hcall
      obtain ⟨e, -, hlt, hpoint⟩ := hcall
      exact Option.some.inj hpoint ▸ hlt
  | cons e rest => cases hcall

/-- A call of `resetTimerFd`: the step that makes it, the deadline, and the reading of the
clock inside the call, which is not earlier than the step. -/
structure FdCall (q : TimerQueue ι) where
  op : TimerOp ι
  point : ℤ
  reading : ℤ
  isCall : q.armedFor op = some point
  later : q.clock ≤ reading

/-- The call arms the fd: its time is well formed and not zero, the system takes it, and a
deadline that is still to come is armed for exactly the time that is left. -/
def FdCall.Arms {q : TimerQueue ι} (c : q.FdCall) : Prop :=
  let spec := itimerspec c.point c.reading
  spec.it_value.Valid ∧ spec.it_value ≠ ⟨0, 0⟩ ∧ (∃ ahead, timerfdSettime spec = .armed ahead) ∧
    (c.reading < c.point → timerfdSettime spec = .armed (c.point - c.reading))

/-- A time that is left gives a well-formed value. -/
theorem valid_itimerspec {point reading : ℤ} (h : reading < point) :
    (itimerspec point reading).it_value.Valid := by
  have hpos : 0 ≤ point - reading := by omega
  exact ⟨Int.tdiv_nonneg hpos (by decide), Int.tmod_nonneg _ hpos,
    Int.tmod_lt_of_pos _ (by decide)⟩

/-- A time that is left does not give the value that disarms. -/
theorem itimerspec_ne_zero {point reading : ℤ} (h : reading < point) :
    (itimerspec point reading).it_value ≠ ⟨0, 0⟩ := by
  intro heq
  have hsum := Int.tdiv_mul_add_tmod (point - reading) 1000000000
  obtain ⟨hsec, hnsec⟩ := TimeSpec.mk.inj heq
  rw [hsec, hnsec] at hsum
  omega

/-- A deadline that is still to come is armed for exactly the time that is left. -/
theorem timerfdSettime_itimerspec {point reading : ℤ} (h : reading < point) :
    timerfdSettime (itimerspec point reading) = .armed (point - reading) := by
  have hinterval : (itimerspec point reading).it_interval.Valid := by
    show TimeSpec.Valid ⟨0, 0⟩
    decide
  rw [timerfdSettime, if_neg (by simp [hinterval, valid_itimerspec h]),
    if_neg (itimerspec_ne_zero h)]
  exact congrArg FdOutcome.armed (Int.tdiv_mul_add_tmod (point - reading) 1000000000)

/-- A deadline that is reached or passed gives a value that is zero or not well formed. -/
theorem not_valid_itimerspec {point reading : ℤ} (h : point ≤ reading)
    (hvalid : (itimerspec point reading).it_value.Valid) :
    (itimerspec point reading).it_value = ⟨0, 0⟩ := by
  have hsum := Int.tdiv_mul_add_tmod (point - reading) 1000000000
  obtain ⟨hsec, hnsec, -⟩ := hvalid
  simp only [itimerspec] at hsec hnsec
  have hsecZero : (point - reading).tdiv 1000000000 = 0 := by omega
  have hnsecZero : (point - reading).tmod 1000000000 = 0 := by omega
  simp only [itimerspec, hsecZero, hnsecZero]

/-- A call arms the fd exactly when the clock has not reached the deadline inside the call. -/
theorem arms_iff {q : TimerQueue ι} (c : q.FdCall) : c.Arms ↔ c.reading < c.point := by
  constructor
  · rintro ⟨hvalid, hne, -⟩
    by_contra hnot
    exact hne (not_valid_itimerspec (not_lt.mp hnot) hvalid)
  · intro hlt
    have harmed := timerfdSettime_itimerspec hlt
    exact ⟨valid_itimerspec hlt, itimerspec_ne_zero hlt, ⟨_, harmed⟩, fun _ => harmed⟩

/-- A timer for now: one nanosecond has passed when `resetTimerFd` reads the clock. -/
theorem not_arms_now :
    ¬ ∀ (q : TimerQueue Unit) (c : q.FdCall), c.Arms := by
  intro h
  have harms := h (init true (fun _ : Unit => ⟨7, 0, false⟩) 7)
    { op := .addTask (), point := 7, reading := 8, isCall := by decide, later := by decide }
  exact absurd harms.1 (by decide)

end TimerQueue

end Lotta
