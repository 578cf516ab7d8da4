/-
# Timers used by several threads

`runAfter`, `runEvery` and `cancel` may be called by any thread.  On the loop thread `exec` runs
`addTask` or `cancelTask` at once; another thread pushes it to the queue of the loop, together
with a `shared_ptr` to the timer.  The user has a `weak_ptr`, and `cancel` asserts that the timer
is still there.  `SharedTimers` puts the `TimerQueue` of `TimerRun` on its `EventLoop`, with the
other threads and the pointers that keep a timer alive.

`run_timely` says what every run gives: each timer that was made is added once or its `addTask`
waits, the timers fire as specified, which timers may still fire can be read off their history,
`cancel` finds all of these alive, and the loop can run every function of its batch.

`run_silenced_iff` says when a timer stays silent once `cancelTask` has run for it.  A `cancel` by
another thread never fails: it goes through the queue, behind the `addTask` of the timer and
between the calls of `handleTimer`.  On the loop thread it must not overtake the `addTask`, nor be
called for a timer of the batch whose callback is still to be started.
-/
import Lotta.EventLoop
import Lotta.TimerKept

namespace Lotta

/-! ## The loop and its timers -/

/-- The functions in the queue of the loop: those of `TimerQueue`, and others. -/
inductive TimerTask (ι : Type*) where
  | addTask (i : ι)
  | cancelTask (i : ι)
  | other
  deriving DecidableEq

namespace TimerTask

variable {ι : Type*}

/-- The timer to which the function holds a `shared_ptr`. -/
def timer : TimerTask ι → Option ι
  | .addTask i => some i
  | .cancelTask i => some i
  | .other => none

/-- The timer that the function adds. -/
def adds : TimerTask ι → Option ι
  | .addTask i => some i
  | _ => none

end TimerTask

/-- The timer for which a step runs `cancelTask`. -/
def TimerOp.cancels {ι : Type*} : TimerOp ι → Option ι
  | .cancelTask i => some i
  | _ => none

/-- The loop thread is in the handlers of a poll. -/
def LoopPc.inHandler : LoopPc → Bool
  | .handlers _ => true
  | .handlerPushed _ => true
  | _ => false

/-- A loop with its timers.  `functions` is the vector of `doFuncQueue`, and `calls` are the calls
of `addTimer` and `cancel` by other threads that have not returned; both keep timers alive.
`made` are the timers that `addTimer` has made, and `stopped` those for which `cancelTask` has
run. -/
structure SharedTimers (ι τ : Type*) where
  ev : EventLoop (TimerTask ι) τ
  run : TimerRun ι
  functions : List (TimerTask ι)
  calls : List (τ × TimerTask ι)
  made : List ι
  stopped : List ι

/-- The steps: `addTimer` and `cancel` on the loop thread and on another thread; a function of the
queue is called; the steps of the timer queue, and the other steps of the loop. -/
inductive SharedOp (ι τ : Type*) where
  | addTimer (i : ι)
  | cancel (i : ι)
  | addTimerFrom (t : τ) (i : ι)
  | cancelFrom (t : τ) (i : ι)
  | call
  | timer (op : TimerOp ι)
  | loop (op : LoopOp (TimerTask ι) τ)

namespace SharedTimers

variable {ι τ : Type*} [DecidableEq ι]

/-- A new loop. -/
def init (asserts : Bool) (timer : ι → Timer) (clock : ℤ) : SharedTimers ι τ where
  ev := EventLoop.init
  run := TimerRun.init asserts timer clock
  functions := []
  calls := []
  made := []
  stopped := []

omit [DecidableEq ι] in
/-- The functions that wait to be called. -/
def waiting (s : SharedTimers ι τ) : List (TimerTask ι) := s.ev.batch ++ s.ev.queue

omit [DecidableEq ι] in
/-- Code of the user runs on the loop thread. -/
def userRuns (s : SharedTimers ι τ) : Bool :=
  match s.ev.pc with
  | .outside => s.run.q.userRuns
  | .handlers _ => s.run.q.userRuns
  | .inFunc => s.run.q.userRuns
  | _ => false

/-- `addTimer` has returned the `weak_ptr` to the timer. -/
def Returned (s : SharedTimers ι τ) (i : ι) : Prop :=
  i ∈ s.made ∧ TimerTask.addTask i ∉ s.calls.map Prod.snd

instance (s : SharedTimers ι τ) (i : ι) : Decidable (s.Returned i) :=
  inferInstanceAs (Decidable (_ ∧ _))

/-- `lock()` finds the timer: an entry of the timer queue, a function or a call holds it. -/
def Locks (s : SharedTimers ι τ) (i : ι) : Prop :=
  i ∈ (s.run.q.timers.entries ++ s.run.q.expired ++ s.run.q.cancelledTimers.entries).map Prod.snd ∨
    i ∈ (s.functions ++ s.ev.queue ++ s.calls.map Prod.snd).filterMap TimerTask.timer

instance (s : SharedTimers ι τ) (i : ι) : Decidable (s.Locks i) :=
  inferInstanceAs (Decidable (_ ∨ _))

/-- A step of the timer queue, which also records a `cancelTask`. -/
def runTimer (s : SharedTimers ι τ) (op : TimerOp ι) : Option (SharedTimers ι τ) :=
  (s.run.step op).map fun run =>
    { s with run := run, stopped := op.cancels.toList ++ s.stopped }

/-- The loop thread calls a function. -/
def runTask (s : SharedTimers ι τ) : TimerTask ι → Option (SharedTimers ι τ)
  | .addTask i => s.runTimer (.addTask i)
  | .cancelTask i => s.runTimer (.cancelTask i)
  | .other => some s

/-- The steps of the timer queue that are none of the two tasks; those of `handleTimer` are made
in a handler. -/
def mayMake (s : SharedTimers ι τ) : TimerOp ι → Bool
  | .tick _ => true
  | .addTask _ | .cancelTask _ => false
  | .handleTimer _ | .callback | .resetTimers =>
      match s.ev.pc with
      | .handlers _ => true
      | _ => false

/-- The other steps of the loop.  The next handler waits for the end of `handleTimer`. -/
def mayStep (s : SharedTimers ι τ) : LoopOp (TimerTask ι) τ → Bool
  | .call => false
  | .pushLocal a => a == .other && s.run.q.userRuns
  | .push _ a => a == .other
  | .handleWakeup | .handlersDone => s.run.q.batch.isNone
  | _ => true

omit [DecidableEq ι] in
/-- The vector of `doFuncQueue` gets the queue and is destroyed at its end. -/
def functionsAfter (s : SharedTimers ι τ) : LoopOp (TimerTask ι) τ → List (TimerTask ι)
  | .swap => s.ev.queue
  | .batchDone => []
  | _ => s.functions

omit [DecidableEq ι] in
/-- A call of another thread returns behind its wakeup. -/
def callsAfter [DecidableEq τ] (s : SharedTimers ι τ) :
    LoopOp (TimerTask ι) τ → List (τ × TimerTask ι)
  | .wakeup t => s.calls.filter fun c => c.1 ≠ t
  | _ => s.calls

/-- One step. -/
def step [DecidableEq τ] (s : SharedTimers ι τ) : SharedOp ι τ → Option (SharedTimers ι τ)
  | .addTimer i =>
      if s.userRuns ∧ i ∉ s.made then { s with made := i :: s.made }.runTimer (.addTask i)
      else none
  | .cancel i => if s.userRuns ∧ s.Returned i ∧ s.Locks i then s.runTimer (.cancelTask i) else none
  | .addTimerFrom t i =>
      if i ∉ s.made then
        (s.ev.step (.push t (.addTask i))).map fun ev =>
          { s with ev := ev, calls := (t, .addTask i) :: s.calls, made := i :: s.made }
      else none
  | .cancelFrom t i =>
      if s.Returned i ∧ s.Locks i then
        (s.ev.step (.push t (.cancelTask i))).map fun ev =>
          { s with ev := ev, calls := (t, .cancelTask i) :: s.calls }
      else none
  | .call =>
      s.ev.batch.head?.bind fun task =>
        (s.ev.step .call).bind fun ev => { s with ev := ev }.runTask task
  | .timer op => if s.mayMake op then s.runTimer op else none
  | .loop op =>
      if s.mayStep op then
        (s.ev.step op).map fun ev =>
          { s with ev := ev, functions := s.functionsAfter op, calls := s.callsAfter op }
      else none

/-! ## What is stated -/

/-- The timer may still fire: its `addTask` waits, or the timer queue holds it. -/
def MayFire (s : SharedTimers ι τ) (i : ι) : Prop :=
  TimerTask.addTask i ∈ s.waiting ∨ s.run.q.MayFire i

instance (s : SharedTimers ι τ) (i : ι) : Decidable (s.MayFire i) :=
  inferInstanceAs (Decidable (_ ∨ _))

/-- What holds in every state. -/
structure Timely [DecidableEq τ] (s : SharedTimers ι τ) : Prop where
  /-- Each timer is made once, and then it has been added or waits to be. -/
  once : s.made.Nodup ∧ (s.waiting.filterMap TimerTask.adds ++ s.run.added).Perm s.made
  /-- The timers fire as specified. -/
  fires : s.run.AsSpecified
  /-- Those may still fire whose callback is due in the batch, and those that have not been
  cancelled and repeat or have not fired. -/
  mayFire : ∀ i, s.MayFire i ↔ i ∈ s.made ∧ (i ∈ s.run.q.rest.map Prod.snd ∨
    (i ∉ s.run.cancelled ∧ ((s.run.start i).repeats = true ∨ s.run.runs i = [])))
  /-- The assertion of `cancel` holds of these. -/
  locks : ∀ i, s.MayFire i → s.Locks i
  /-- The loop thread can call the next function of its batch. -/
  calls : s.ev.pc = .running → s.ev.batch ≠ [] → (s.step .call).isSome

/-- No timer for which `cancelTask` has run will fire again. -/
def Silenced (s : SharedTimers ι τ) : Prop := ∀ i ∈ s.stopped, ¬ s.MayFire i

instance (s : SharedTimers ι τ) : Decidable s.Silenced := inferInstanceAs (Decidable (∀ _ ∈ _, _))

/-- The condition on a step: `cancel` on the loop thread finds the timer added, and its callback in
the batch, if it has one, started. -/
def Keeps (s : SharedTimers ι τ) : SharedOp ι τ → Prop
  | .cancel i => TimerTask.addTask i ∉ s.waiting ∧ i ∉ s.run.q.rest.map Prod.snd
  | _ => True

/-! ## The invariant -/

omit [DecidableEq ι] in
/-- Every `cancelTask` in the queue comes behind the `addTask` of its timer, if that has not run
yet. -/
def AddsFirst : List ι → List (TimerTask ι) → Prop
  | _, [] => True
  | added, .addTask i :: l => AddsFirst (i :: added) l
  | added, .cancelTask i :: l => i ∈ added ∧ AddsFirst added l
  | added, .other :: l => AddsFirst added l

/-- What every step keeps. -/
structure Inv (s : SharedTimers ι τ) : Prop where
  ev : s.ev.Inv
  run : s.run.KeptInv
  nested : s.ev.pc.inHandler = true ∨ s.run.q.batch = none
  nodup : s.made.Nodup
  once : (s.waiting.filterMap TimerTask.adds ++ s.run.added).Perm s.made
  addsFirst : AddsFirst s.run.added s.waiting
  functions : ∀ a ∈ s.ev.batch, a ∈ s.functions
  stopped : ∀ i ∈ s.stopped, i ∈ s.made

omit [DecidableEq ι] in
theorem AddsFirst.mono {l : List (TimerTask ι)} :
    ∀ {added added' : List ι}, (∀ i ∈ added, i ∈ added') → AddsFirst added l →
      AddsFirst added' l := by
  induction l with
  | nil => intro added added' _ _; trivial
  | cons a l ih =>
      intro added added' hsub h
      cases a with
      | addTask i =>
          refine ih (fun j hj => ?_) h
          exact List.mem_cons.mpr ((List.mem_cons.mp hj).imp_right (hsub j))
      | cancelTask i => exact ⟨hsub i h.1, ih hsub h.2⟩
      | other => exact ih hsub h

omit [DecidableEq ι] in
/-- A function is pushed behind the others. -/
theorem AddsFirst.concat {l : List (TimerTask ι)} {a : TimerTask ι} :
    ∀ {added : List ι}, AddsFirst added l →
      (∀ i, a = .cancelTask i → i ∈ added ∨ TimerTask.addTask i ∈ l) →
      AddsFirst added (l ++ [a]) := by
  induction l with
  | nil =>
      intro added _ ha
      cases a with
      | addTask i => trivial
      | cancelTask i => exact ⟨(ha i rfl).resolve_right List.not_mem_nil, trivial⟩
      | other => trivial
  | cons b l ih =>
      intro added h ha
      cases b with
      | addTask j =>
          refine ih h fun i hi => ?_
          rcases ha i hi with hin | hin
          · exact Or.inl (List.mem_cons_of_mem j hin)
          · rcases List.mem_cons.mp hin with heq | hin
            · exact Or.inl (by cases heq; exact List.mem_cons_self)
            · exact Or.inr hin
      | cancelTask j =>
          refine ⟨h.1, ih h.2 fun i hi => (ha i hi).imp_right fun hin => ?_⟩
          exact (List.mem_cons.mp hin).resolve_left (by simp)
      | other =>
          refine ih h fun i hi => (ha i hi).imp_right fun hin => ?_
          exact (List.mem_cons.mp hin).resolve_left (by simp)

theorem inv_init (asserts : Bool) (timer : ι → Timer) (clock : ℤ) :
    Inv (init asserts timer clock : SharedTimers ι τ) where
  ev := EventLoop.inv_init
  run := TimerRun.keptInv_init asserts timer clock
  nested := Or.inr rfl
  nodup := List.nodup_nil
  once := List.Perm.nil
  addsFirst := trivial
  functions := fun _ ha => absurd ha List.not_mem_nil
  stopped := fun _ hi => absurd hi List.not_mem_nil

variable {s t : SharedTimers ι τ}

omit [DecidableEq ι] in
theorem mem_adds {l : List (TimerTask ι)} {i : ι} :
    i ∈ l.filterMap TimerTask.adds ↔ TimerTask.addTask i ∈ l := by
  rw [List.mem_filterMap]
  constructor
  · rintro ⟨a, ha, hi⟩
    cases a with
    | addTask j =>
        obtain rfl := Option.some.inj hi
        exact ha
    | cancelTask j => cases hi
    | other => cases hi
  · exact fun h => ⟨_, h, rfl⟩

/-- A timer whose `addTask` waits has been made and has not been added. -/
theorem Inv.of_waiting (h : s.Inv) {i : ι} (hi : TimerTask.addTask i ∈ s.waiting) :
    i ∈ s.made ∧ i ∉ s.run.added := by
  have hmem := mem_adds.mpr hi
  have hnodup := h.once.nodup_iff.mpr h.nodup
  exact ⟨h.once.subset (List.mem_append_left _ hmem),
    fun hadded => (List.nodup_append.mp hnodup).2.2 i hmem i hadded rfl⟩

/-- A timer that has been made has been added, or its `addTask` waits. -/
theorem Inv.waiting_or_added (h : s.Inv) {i : ι} (hi : i ∈ s.made) :
    TimerTask.addTask i ∈ s.waiting ∨ i ∈ s.run.added :=
  (List.mem_append.mp (h.once.mem_iff.mpr hi)).imp_left mem_adds.mp

theorem Inv.made_of_added (h : s.Inv) {i : ι} (hi : i ∈ s.run.added) : i ∈ s.made :=
  h.once.subset (List.mem_append_right _ hi)

/-! ## Steps of the timer queue -/

/-- A step of the timer queue, where the queue of the loop and `made` go with what it adds. -/
theorem inv_runTimer {op : TimerOp ι} (hstep : s.runTimer op = some t) (hev : s.ev.Inv)
    (hrun : s.run.KeptInv)
    (hnested : s.ev.pc.inHandler = true ∨
      (s.run.q.batch = none ∧ ∀ readAt, op ≠ .handleTimer readAt))
    (hnodup : s.made.Nodup)
    (honce : (s.waiting.filterMap TimerTask.adds ++ (op.adds.toList ++ s.run.added)).Perm s.made)
    (hfirst : AddsFirst (op.adds.toList ++ s.run.added) s.waiting)
    (hfunctions : ∀ a ∈ s.ev.batch, a ∈ s.functions)
    (hstopped : ∀ i ∈ op.cancels.toList ++ s.stopped, i ∈ s.made) : t.Inv := by
  unfold runTimer at hstep
  rw [Option.map_eq_some_iff] at hstep
  obtain ⟨run, hop, rfl⟩ := hstep
  have hadded : run.added = op.adds.toList ++ s.run.added := (TimerRun.grown_of_step hop).added
  rw [← hadded] at honce hfirst
  exact ⟨hev, TimerRun.keptInv_step hrun hop,
    hnested.imp_right fun ⟨hnone, hno⟩ => TimerRun.batch_of_step hop hnone hno,
    hnodup, honce, hfirst, hfunctions, hstopped⟩

/-- Such a step makes no timer fire but the one that it adds. -/
theorem mayFire_runTimer {op : TimerOp ι} (hrun : s.run.KeptInv)
    (hstep : s.runTimer op = some t) {i : ι} (hop : op ≠ .addTask i) (hfire : t.MayFire i) :
    s.MayFire i := by
  unfold runTimer at hstep
  rw [Option.map_eq_some_iff] at hstep
  obtain ⟨run, hstep, rfl⟩ := hstep
  exact hfire.imp_right (hrun.mayFire_of_step hstep hop)

/-- After `cancelTask` the timer may fire when its `addTask` waits or its callback is still to be
started. -/
theorem mayFire_cancelTask_iff {i : ι} (hrun : s.run.KeptInv)
    (hstep : s.runTimer (.cancelTask i) = some t) :
    t.MayFire i ↔ TimerTask.addTask i ∈ s.waiting ∨ i ∈ s.run.q.rest.map Prod.snd := by
  unfold runTimer at hstep
  rw [Option.map_eq_some_iff] at hstep
  obtain ⟨run, hstep, rfl⟩ := hstep
  exact or_congr_right (hrun.mayFire_cancelTask_iff hstep)

theorem stopped_runTimer {op : TimerOp ι} (hstep : s.runTimer op = some t) :
    t.stopped = op.cancels.toList ++ s.stopped := by
  unfold runTimer at hstep
  rw [Option.map_eq_some_iff] at hstep
  obtain ⟨run, -, rfl⟩ := hstep
  rfl

/-! ## Steps -/

/-- A step as it bears on the timers that may fire. -/
structure Stepped (s : SharedTimers ι τ) (op : SharedOp ι τ) (t : SharedTimers ι τ) : Prop where
  inv : t.Inv
  fires : ∀ i ∈ s.made, t.MayFire i → s.MayFire i
  stops : ∃ js, t.stopped = js ++ s.stopped ∧ (∀ j ∈ js, j ∈ s.made) ∧
    ((∀ j ∈ js, ¬ t.MayFire j) ↔ s.Keeps op)

/-- `addTimer` on the loop thread. -/
theorem Inv.addTimer (h : s.Inv) {i : ι} (hi : i ∉ s.made)
    (hstep : { s with made := i :: s.made }.runTimer (.addTask i) = some t) :
    s.Stepped (.addTimer i) t := by
  have hrun : ({ s with made := i :: s.made } : SharedTimers ι τ).run.KeptInv := h.run
  refine ⟨?_, fun j hj hfire => ?_, [], stopped_runTimer hstep, by simp, by simp [Keeps]⟩
  · refine inv_runTimer hstep h.ev hrun ?_ (List.nodup_cons.mpr ⟨hi, h.nodup⟩)
      (List.perm_middle.trans (h.once.cons i))
      (h.addsFirst.mono fun j hj => List.mem_cons_of_mem i hj) h.functions
      (fun j hj => List.mem_cons_of_mem i (h.stopped j hj))
    exact h.nested.imp_right fun hnone => ⟨hnone, by simp⟩
  · refine mayFire_runTimer hrun hstep ?_ hfire
    rintro ⟨⟩
    exact hi hj

/-- `cancel` on the loop thread. -/
theorem Inv.cancel (h : s.Inv) {i : ι} (hi : i ∈ s.made)
    (hstep : s.runTimer (.cancelTask i) = some t) : s.Stepped (.cancel i) t := by
  refine ⟨?_, fun j _ hfire => mayFire_runTimer h.run hstep (by simp) hfire,
    [i], stopped_runTimer hstep, by simpa using hi, ?_⟩
  · refine inv_runTimer hstep h.ev h.run ?_ h.nodup h.once h.addsFirst h.functions ?_
    · exact h.nested.imp_right fun hnone => ⟨hnone, by simp⟩
    · exact List.forall_mem_cons.mpr ⟨hi, h.stopped⟩
  · rw [List.forall_mem_singleton, mayFire_cancelTask_iff h.run hstep, not_or]
    rfl

/-- A step of the timer queue that is no task. -/
theorem Inv.timer (h : s.Inv) {op : TimerOp ι} (hmay : s.mayMake op = true)
    (hstep : s.runTimer op = some t) : s.Stepped (.timer op) t := by
  have htask : op.adds = none ∧ op.cancels = none := by
    cases op with
    | addTask i | cancelTask i => cases hmay
    | _ => exact ⟨rfl, rfl⟩
  obtain ⟨hadds, hcancels⟩ := htask
  have hstopped := stopped_runTimer hstep
  rw [hcancels] at hstopped
  refine ⟨?_, fun j _ hfire => mayFire_runTimer h.run hstep ?_ hfire, [], hstopped, by simp,
    by simp [Keeps]⟩
  · refine inv_runTimer hstep h.ev h.run ?_ h.nodup ?_ ?_ h.functions ?_
    · rcases h.nested with hin | hnone
      · exact Or.inl hin
      · by_cases hop : ∀ readAt, op ≠ .handleTimer readAt
        · exact Or.inr ⟨hnone, hop⟩
        · push Not at hop
          obtain ⟨readAt, rfl⟩ := hop
          refine Or.inl ?_
          simp only [mayMake] at hmay
          split at hmay
          · rename_i hpc
            rw [hpc]
            rfl
          · cases hmay
    · rw [hadds]
      exact h.once
    · rw [hadds]
      exact h.addsFirst
    · rw [hcancels]
      exact h.stopped
  · rintro rfl
    cases hadds

section Steps

variable [DecidableEq τ]

omit [DecidableEq ι] in
/-- The loop thread stays in the handlers until these are done. -/
theorem inHandler_of_step {u v : EventLoop (TimerTask ι) τ} {op : LoopOp (TimerTask ι) τ}
    (hop : op ≠ .handlersDone) (hstep : u.step op = some v) (h : u.pc.inHandler = true) :
    v.pc.inHandler = true := by
  cases EventLoop.moves_of_step hstep with
  | handlersDone => exact absurd rfl hop
  | pollReturns | pollFails | handleWakeup | pushInHandler | backInHandler => rfl
  | quitInHandler | push | wakeup | quit => exact h
  | enter hpc | testQuit hpc | swap hpc | call _ _ hpc | funcReturns hpc | batchDone hpc
  | pushInFunc _ hpc | backInFunc hpc | quitInFunc hpc =>
      rw [hpc] at h
      cases h

omit [DecidableEq ι] in
/-- The batch is filled by `swap` and shortened by `call`. -/
theorem batch_of_step {u v : EventLoop (TimerTask ι) τ} {op : LoopOp (TimerTask ι) τ}
    (hswap : op ≠ .swap) (hcall : op ≠ .call) (hstep : u.step op = some v) :
    v.batch = u.batch := by
  cases EventLoop.moves_of_step hstep with
  | swap => exact absurd rfl hswap
  | call => exact absurd rfl hcall
  | backInHandler | backInFunc =>
      obtain ⟨n, hn⟩ := EventLoop.wakeupIfDoing_eq u
      rw [hn]
  | _ => rfl

/-- A step of the loop other than a call, where `made` goes with what it pushes. -/
theorem Inv.setEv (h : s.Inv) {op : LoopOp (TimerTask ι) τ} {ev : EventLoop (TimerTask ι) τ}
    {functions : List (TimerTask ι)} {calls : List (τ × TimerTask ι)} {made : List ι}
    (hcall : op ≠ .call) (hev : s.ev.step op = some ev)
    (hnested : op ≠ .handlersDone ∨ s.run.q.batch = none) (hnodup : made.Nodup)
    (honce : ((s.waiting ++ op.pushes.toList).filterMap TimerTask.adds ++ s.run.added).Perm made)
    (hfirst : AddsFirst s.run.added (s.waiting ++ op.pushes.toList))
    (hfunctions : ∀ a ∈ ev.batch, a ∈ functions) (hmade : ∀ i ∈ s.made, i ∈ made) :
    Inv { s with ev := ev, functions := functions, calls := calls, made := made } := by
  have hwaiting : ev.batch ++ ev.queue = s.waiting ++ op.pushes.toList :=
    EventLoop.waiting_of_step h.ev hcall hev
  rw [← hwaiting] at honce hfirst
  refine ⟨EventLoop.inv_step h.ev hev, h.run, ?_, hnodup, honce, hfirst, hfunctions,
    fun i hi => hmade i (h.stopped i hi)⟩
  rcases hnested with hop | hnone
  · exact h.nested.imp_left (inHandler_of_step hop hev)
  · exact Or.inr hnone

/-- The loop thread calls a function of its batch. -/
theorem Inv.call (h : s.Inv) {task : TimerTask ι} {ev : EventLoop (TimerTask ι) τ}
    (hhead : s.ev.batch.head? = some task) (hev : s.ev.step .call = some ev)
    (hstep : { s with ev := ev }.runTask task = some t) : s.Stepped .call t := by
  obtain ⟨f, hbatch, hqueue⟩ := EventLoop.batch_of_call hev
  rw [hbatch, List.head?_cons, Option.some.injEq] at hhead
  subst hhead
  have hnone : s.run.q.batch = none := by
    refine h.nested.resolve_left fun hin => ?_
    cases EventLoop.moves_of_step hev with
    | call _ _ hpc =>
        rw [hpc] at hin
        cases hin
  have hwaiting : s.waiting = f :: { s with ev := ev }.waiting := by
    unfold waiting
    rw [hbatch, hqueue, List.cons_append]
  have hev' : ev.Inv := EventLoop.inv_step h.ev hev
  have hfunctions : ∀ a ∈ ev.batch, a ∈ s.functions := fun a ha =>
    h.functions a (hbatch ▸ List.mem_cons_of_mem f ha)
  have honce := h.once
  have hfirst := h.addsFirst
  rw [hwaiting] at honce hfirst
  -- what may fire behind the call may fire before it
  have hfires : ∀ j, MayFire { s with ev := ev } j → s.MayFire j := fun j hfire => by
    unfold MayFire at hfire ⊢
    rw [hwaiting]
    exact hfire.imp_left (List.mem_cons_of_mem f)
  have hrun : ({ s with ev := ev } : SharedTimers ι τ).run.KeptInv := h.run
  cases f with
  | addTask i =>
      refine ⟨?_, fun j _ hfire => ?_, [], stopped_runTimer hstep, by simp, by simp [Keeps]⟩
      · exact inv_runTimer hstep hev' hrun (Or.inr ⟨hnone, by simp⟩) h.nodup
          (List.perm_middle.trans honce) hfirst hfunctions h.stopped
      · by_cases hj : j = i
        · subst hj
          exact Or.inl (hwaiting ▸ List.mem_cons_self)
        · exact hfires j (mayFire_runTimer hrun hstep (by simpa using Ne.symm hj) hfire)
  | cancelTask i =>
      have hadded : i ∈ s.run.added := hfirst.1
      have hmade := h.made_of_added hadded
      refine ⟨?_, fun j _ hfire => hfires j (mayFire_runTimer hrun hstep (by simp) hfire),
        [i], stopped_runTimer hstep, by simpa using hmade, iff_of_true ?_ trivial⟩
      · exact inv_runTimer hstep hev' hrun (Or.inr ⟨hnone, by simp⟩) h.nodup honce hfirst.2
          hfunctions (List.forall_mem_cons.mpr ⟨hmade, h.stopped⟩)
      · -- the timer has been added, and there is no batch
        rw [List.forall_mem_singleton, mayFire_cancelTask_iff hrun hstep, not_or]
        refine ⟨fun hin => (h.of_waiting ?_).2 hadded, ?_⟩
        · rw [hwaiting]
          exact List.mem_cons_of_mem _ hin
        · rw [TimerQueue.rest, hnone]
          exact List.not_mem_nil
  | other =>
      obtain rfl := Option.some.inj hstep
      exact ⟨⟨hev', h.run, Or.inr hnone, h.nodup, honce, hfirst, hfunctions, h.stopped⟩,
        fun j _ hfire => hfires j hfire, [], rfl, by simp, by simp [Keeps]⟩

/-- Another thread pushes a function of the timer queue. -/
theorem Inv.push (h : s.Inv) {u : τ} {a : TimerTask ι} {ev : EventLoop (TimerTask ι) τ}
    {calls : List (τ × TimerTask ι)} {made : List ι} (hev : s.ev.step (.push u a) = some ev)
    (hmade : made = a.adds.toList ++ s.made) (hnew : ∀ i, a.adds = some i → i ∉ s.made)
    (hold : ∀ i, a = .cancelTask i → i ∈ s.made) :
    Inv { s with ev := ev, calls := calls, made := made } ∧
      ∀ i ∈ s.made, MayFire { s with ev := ev, calls := calls, made := made } i → s.MayFire i := by
  have hwaiting : ev.batch ++ ev.queue = s.waiting ++ [a] :=
    EventLoop.waiting_of_step h.ev (by simp) hev
  have hadds : [a].filterMap TimerTask.adds = a.adds.toList := by
    cases a with
    | _ => rfl
  refine ⟨h.setEv (by simp) hev (Or.inl (by simp)) ?_ ?_ ?_ ?_ ?_, fun i hi hfire => ?_⟩
  · rw [hmade, List.nodup_append]
    refine ⟨Option.toList_nodup _, h.nodup, ?_⟩
    rintro i hin j hj rfl
    exact hnew i (Option.mem_toList.mp hin) hj
  · rw [hmade]
    show ((s.waiting ++ [a]).filterMap TimerTask.adds ++ s.run.added).Perm _
    rw [List.filterMap_append, hadds]
    refine (List.perm_append_comm.append_right _).trans ?_
    rw [List.append_assoc]
    exact h.once.append_left _
  · exact h.addsFirst.concat fun i hi => (h.waiting_or_added (hold i hi)).symm
  · intro b hb
    rw [batch_of_step (by simp) (by simp) hev] at hb
    exact h.functions b hb
  · intro i hi
    rw [hmade]
    exact List.mem_append_right _ hi
  · refine hfire.imp_left fun hin => ?_
    replace hin : TimerTask.addTask i ∈ ev.batch ++ ev.queue := hin
    rw [hwaiting] at hin
    refine (List.mem_append.mp hin).resolve_right fun hin => hnew i ?_ hi
    rw [← List.mem_singleton.mp hin]
    rfl

omit [DecidableEq τ] in
/-- What the other steps of the loop are not. -/
theorem plain_of_mayStep {op : LoopOp (TimerTask ι) τ} (hmay : s.mayStep op = true) :
    op ≠ .call ∧ (op.pushes = none ∨ op.pushes = some .other) ∧
      (op ≠ .handlersDone ∨ s.run.q.batch = none) := by
  cases op with
  | call => cases hmay
  | pushLocal a =>
      have ha := (Bool.and_eq_true_iff.mp hmay).1
      exact ⟨by simp, Or.inr (congrArg some (eq_of_beq ha)), Or.inl (by simp)⟩
  | push u a => exact ⟨by simp, Or.inr (congrArg some (eq_of_beq hmay)), Or.inl (by simp)⟩
  | handlersDone => exact ⟨by simp, Or.inl rfl, Or.inr (Option.isNone_iff_eq_none.mp hmay)⟩
  | _ => exact ⟨by simp, Or.inl rfl, Or.inl (by simp)⟩

omit [DecidableEq ι] in
/-- The vector of `doFuncQueue` has the functions of the batch. -/
theorem mem_functionsAfter {op : LoopOp (TimerTask ι) τ} {ev : EventLoop (TimerTask ι) τ}
    (h : ∀ a ∈ s.ev.batch, a ∈ s.functions) (hcall : op ≠ .call) (hev : s.ev.step op = some ev) :
    ∀ a ∈ ev.batch, a ∈ s.functionsAfter op := by
  by_cases hswap : op = .swap
  · subst hswap
    cases EventLoop.moves_of_step hev with
    | swap => exact fun a => id
  · rw [batch_of_step hswap hcall hev]
    by_cases hdone : op = .batchDone
    · subst hdone
      cases EventLoop.moves_of_step hev with
      | batchDone hpc hbatch =>
          rw [hbatch]
          exact fun a => id
    · have hsame : s.functionsAfter op = s.functions := by
        unfold functionsAfter
        split
        · exact absurd rfl hswap
        · exact absurd rfl hdone
        · rfl
      rw [hsame]
      exact h

/-- Another step of the loop. -/
theorem Inv.loop (h : s.Inv) {op : LoopOp (TimerTask ι) τ} {ev : EventLoop (TimerTask ι) τ}
    (hmay : s.mayStep op = true) (hev : s.ev.step op = some ev) :
    s.Stepped (.loop op) { s with
      ev := ev, functions := s.functionsAfter op, calls := s.callsAfter op } := by
  obtain ⟨hcall, hpush, hnested⟩ := plain_of_mayStep hmay
  have hwaiting : ev.batch ++ ev.queue = s.waiting ++ op.pushes.toList :=
    EventLoop.waiting_of_step h.ev hcall hev
  have hadds : op.pushes.toList.filterMap TimerTask.adds = [] := by
    rcases hpush with hpush | hpush
    · rw [hpush]
      rfl
    · rw [hpush]
      rfl
  refine ⟨h.setEv hcall hev hnested h.nodup ?_ ?_ (mem_functionsAfter h.functions hcall hev)
    (fun _ => id), fun i _ hfire => hfire.imp_left fun hin => ?_, [], rfl, by simp,
    by simp [Keeps]⟩
  · rw [List.filterMap_append, hadds, List.append_nil]
    exact h.once
  · rcases hpush with hpush | hpush
    · rw [hpush, Option.toList_none, List.append_nil]
      exact h.addsFirst
    · rw [hpush]
      exact h.addsFirst.concat (by simp)
  · replace hin : TimerTask.addTask i ∈ ev.batch ++ ev.queue := hin
    rw [hwaiting, ← mem_adds, List.filterMap_append, hadds, List.append_nil] at hin
    exact mem_adds.mp hin

/-- Every step keeps the invariant, makes no timer fire again, and silences the timer for which
it runs `cancelTask` exactly when it meets the condition. -/
theorem stepped_of_step {op : SharedOp ι τ} (h : s.Inv) (hstep : s.step op = some t) :
    s.Stepped op t := by
  cases op with
  | addTimer i =>
      simp only [step, Option.ite_none_right_eq_some] at hstep
      exact h.addTimer hstep.1.2 hstep.2
  | cancel i =>
      simp only [step, Option.ite_none_right_eq_some] at hstep
      exact h.cancel hstep.1.2.1.1 hstep.2
  | addTimerFrom u i =>
      simp only [step, Option.ite_none_right_eq_some, Option.map_eq_some_iff] at hstep
      obtain ⟨hi, ev, hev, rfl⟩ := hstep
      have hnew : ∀ j, (TimerTask.addTask i).adds = some j → j ∉ s.made := by
        rintro j ⟨⟩
        exact hi
      obtain ⟨hinv, hfires⟩ := h.push hev rfl hnew (by simp)
      exact ⟨hinv, hfires, [], rfl, by simp, by simp [Keeps]⟩
  | cancelFrom u i =>
      simp only [step, Option.ite_none_right_eq_some, Option.map_eq_some_iff] at hstep
      obtain ⟨⟨hi, -⟩, ev, hev, rfl⟩ := hstep
      have hold : ∀ j, TimerTask.cancelTask i = .cancelTask j → j ∈ s.made := by
        rintro j ⟨⟩
        exact hi.1
      obtain ⟨hinv, hfires⟩ := h.push hev rfl (fun j hj => by cases hj) hold
      exact ⟨hinv, hfires, [], rfl, by simp, by simp [Keeps]⟩
  | call =>
      simp only [step, Option.bind_eq_some_iff] at hstep
      obtain ⟨task, hhead, ev, hev, hstep⟩ := hstep
      exact h.call hhead hev hstep
  | timer op =>
      simp only [step, Option.ite_none_right_eq_some] at hstep
      exact h.timer hstep.1 hstep.2
  | loop op =>
      simp only [step, Option.ite_none_right_eq_some, Option.map_eq_some_iff] at hstep
      obtain ⟨hmay, ev, hev, rfl⟩ := hstep
      exact h.loop hmay hev

/-! ## What follows -/

omit [DecidableEq τ] in
/-- A timer that may fire is held. -/
theorem Inv.locks (h : s.Inv) {i : ι} (hfire : s.MayFire i) : s.Locks i := by
  rcases hfire with hin | hwaits | ⟨e, he, rfl, -⟩
  · refine Or.inr (List.mem_filterMap.mpr ⟨.addTask i, ?_, rfl⟩)
    refine List.mem_append_left _ (List.mem_append.mpr ?_)
    exact (List.mem_append.mp hin).imp_left (h.functions _)
  · obtain ⟨e, he, rfl⟩ := List.mem_map.mp hwaits
    refine Or.inl (List.mem_map_of_mem (List.mem_append_left _ (List.mem_append.mpr ?_)))
    exact (List.mem_append.mp he).imp_right (h.run.cancel.run.rest_subset e)
  · exact Or.inl (List.mem_map_of_mem (List.mem_append_left _ (List.mem_append_right _ he)))

omit [DecidableEq τ] in
theorem Inv.mayFire_iff (h : s.Inv) (i : ι) :
    s.MayFire i ↔ i ∈ s.made ∧ (i ∈ s.run.q.rest.map Prod.snd ∨
      (i ∉ s.run.cancelled ∧ ((s.run.start i).repeats = true ∨ s.run.runs i = []))) := by
  unfold MayFire
  rw [h.run.mayFire_iff]
  constructor
  · rintro (hin | ⟨hadded, hwhen⟩)
    · -- what has not been added has not been cancelled and has not fired
      obtain ⟨hmade, hnot⟩ := h.of_waiting hin
      obtain ⟨started, rest, -, hs⟩ := h.run.cancel.run.holds
      refine ⟨hmade, Or.inr ⟨fun hmem => hnot (h.run.cancel.added i hmem), Or.inr ?_⟩⟩
      rw [TimerRun.runs, List.filter_eq_nil_iff]
      intro f hf heq
      exact hnot (of_decide_eq_true heq ▸ hs.firedAdded f hf)
    · exact ⟨h.made_of_added hadded, hwhen⟩
  · rintro ⟨hmade, hwhen⟩
    exact (h.waiting_or_added hmade).imp_right fun hadded => ⟨hadded, hwhen⟩

/-- The loop thread can call the next function. -/
theorem Inv.calls (h : s.Inv) (hpc : s.ev.pc = .running) (hbatch : s.ev.batch ≠ []) :
    (s.step .call).isSome := by
  obtain ⟨task, rest, hcons⟩ := List.exists_cons_of_ne_nil hbatch
  have hnone : s.run.q.batch = none := by
    refine h.nested.resolve_left fun hin => ?_
    rw [hpc] at hin
    cases hin
  have huser : s.run.q.userRuns = true := by
    unfold TimerQueue.userRuns
    rw [hnone]
  have hcall : s.ev.step .call =
      some { s.ev with batch := rest, ran := s.ev.ran ++ [task], pc := .inFunc } := by
    unfold EventLoop.step
    rw [hpc, hcons]
  unfold step
  rw [hcons, List.head?_cons, Option.bind_some, hcall, Option.bind_some]
  cases task with
  | addTask i =>
      have hnot : i ∉ s.run.added := by
        refine (h.of_waiting (List.mem_append_left _ ?_)).2
        rw [hcons]
        exact List.mem_cons_self
      simp [runTask, runTimer, TimerRun.step, TimerRun.addsOnce, TimerQueue.step, huser, hnot]
  | cancelTask i =>
      simp [runTask, runTimer, TimerRun.step, TimerRun.addsOnce, TimerQueue.step, huser]
  | other => rfl

theorem Inv.timely (h : s.Inv) : s.Timely where
  once := ⟨h.nodup, h.once⟩
  fires := h.run.cancel.run.asSpecified
  mayFire := h.mayFire_iff
  locks := fun _ => h.locks
  calls := h.calls

omit [DecidableEq τ] in
/-- A step silences what it stops exactly when it meets the condition. -/
theorem Stepped.silenced_iff {op : SharedOp ι τ} (h : s.Stepped op t) (hinv : s.Inv)
    (hsilent : s.Silenced) : t.Silenced ↔ s.Keeps op := by
  obtain ⟨-, hfires, js, hstopped, hmade, hiff⟩ := h
  unfold Silenced
  rw [hstopped, List.forall_mem_append, hiff]
  exact and_iff_left fun i hi hfire => hsilent i hi (hfires i (hinv.stopped i hi) hfire)

/-! ## Runs -/

/-- In every state of every run, whatever the threads do: each timer that has been made is added
once, the timers fire as specified, a timer may still fire exactly when its history says so, and
then `cancel` finds it, and the loop thread can call every function of its batch. -/
theorem run_timely (asserts : Bool) (timer : ι → Timer) (clock : ℤ) (ops : List (SharedOp ι τ)) :
    Runs.Along step Timely (init asserts timer clock) ops :=
  (Runs.Along.of_invariant (fun _ _ _ h hstep => (stepped_of_step h hstep).inv)
    (inv_init asserts timer clock)).mono fun _ h => h.timely

/-- Along a run the timers for which `cancelTask` has run stay silent exactly when `cancel` on the
loop thread never overtakes the `addTask` of its timer and never comes for a timer of the batch
whose callback is still to be started; a `cancel` by another thread is always in time. -/
theorem run_silenced_iff (asserts : Bool) (timer : ι → Timer) (clock : ℤ)
    (ops : List (SharedOp ι τ)) :
    Runs.Along step Silenced (init asserts timer clock) ops ↔
      Runs.AllSteps step Keeps (init asserts timer clock) ops :=
  Runs.along_iff_allSteps (J := Inv) (fun _ _ _ h hstep => (stepped_of_step h hstep).inv)
    (fun _ _ _ h hsilent hstep => (stepped_of_step h hstep).silenced_iff h hsilent)
    (inv_init asserts timer clock) fun _ hi => absurd hi List.not_mem_nil

/- The loop thread cancels a timer that another thread has made, before its `addTask` has run. -/
example :
    ¬ Runs.Along step Silenced
      (init true (fun _ => ⟨10, 5, true⟩) 0 : SharedTimers (Fin 1) (Fin 1))
      [.addTimerFrom 0 0, .loop (.wakeup 0), .cancel 0] := by
  decide

end Steps

end SharedTimers

end Lotta
