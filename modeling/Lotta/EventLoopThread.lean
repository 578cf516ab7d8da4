/-
# EventLoopThread: a loop in a thread of its own

`start()` makes a thread and waits until it has published its loop in `loop_`; the
destructor reads `loop_` twice without the lock, to test it and to call `quit()`, and then
joins the thread.  The thread builds the loop, publishes it, runs `loop()`, which sets
`quit_` to false before anything else, and when that returns clears `loop_` and destroys the
loop.  `EventLoopThread` is the owner, the worker and the loop between them, and every
action on data that both see is one step.

Two things should hold: `quit()` runs on a loop that exists, and when it has stored its
request the worker begins no further iteration.  Both depend on the order of a few steps,
and `run_reaches` says of which.
-/
import Lotta.EventLoop

namespace Lotta

/-- Where the owner is: in `start()` after the thread has been made, then in the destructor
after its test of `loop_`, in `quit()` before and after the store, before the join. -/
inductive OwnerPc where
  | created
  | waiting
  | started
  | tested
  | calling
  | stored
  | joining
  | done
  | crashed
  deriving DecidableEq, Repr

/-- The owner has not come to the store of `quit()`. -/
def OwnerPc.beforeStore : OwnerPc → Bool
  | .created => true
  | .waiting => true
  | .started => true
  | .tested => true
  | .calling => true
  | _ => false

/-- Where the worker is in `threadTask`. -/
inductive WorkerPc where
  | absent
  | building
  | built
  | published
  | notified
  | looping
  | cleared
  | finished
  deriving DecidableEq, Repr

/-- The loop exists. -/
def WorkerPc.hasLoop : WorkerPc → Bool
  | .built => true
  | .published => true
  | .notified => true
  | .looping => true
  | .cleared => true
  | _ => false

/-- `loop_` points to the loop. -/
def WorkerPc.shares : WorkerPc → Bool
  | .published => true
  | .notified => true
  | .looping => true
  | _ => false

/-- The loop has been published. -/
def WorkerPc.hasShared : WorkerPc → Bool
  | .published => true
  | .notified => true
  | .looping => true
  | .cleared => true
  | .finished => true
  | _ => false

/-- The owner, the worker and their loop; the other threads that use the loop come from a
type `τ`, and `none` is the owner.  `loop` says that `loop_` is not null.  `missed` records
that `quit()` ran where there is no loop, `stored` that it has stored its request, and
`late` that the worker has begun an iteration after that. -/
structure EventLoopThread (α τ : Type*) where
  owner : OwnerPc
  worker : WorkerPc
  loop : Bool
  ev : EventLoop α (Option τ)
  missed : Bool
  stored : Bool
  late : Bool

/-- The steps: those of the owner in `start()` and in the destructor, and those of the worker
in `threadTask` and in `loop()`. -/
inductive LoopThreadOp (α τ : Type*) where
  | start
  | startReturns
  | testLoop
  | callQuit
  | storeQuit
  | wakeup
  | join
  | build
  | publish
  | notify
  | enter
  | testQuit
  | loop (op : LoopOp α (Option τ))
  | clear
  | finish

namespace EventLoopThread

variable {α τ : Type*}

/-- A new `EventLoopThread`. -/
def init : EventLoopThread α τ where
  owner := .created
  worker := .absent
  loop := false
  ev := EventLoop.init
  missed := false
  stored := false
  late := false

/-- The steps of `loop()` after its entry and besides its test of `quit_`, and the pushes of
other threads. -/
def mayRun (s : EventLoopThread α τ) : LoopOp α (Option τ) → Bool
  | .enter => false
  | .testQuit => false
  | .quit _ => false
  | .push t _ => t.isSome && s.worker.hasLoop
  | .wakeup t => t.isSome && s.worker.hasLoop
  | _ => s.worker = .looping

variable [DecidableEq τ]

/-- One step. -/
def step (s : EventLoopThread α τ) : LoopThreadOp α τ → Option (EventLoopThread α τ)
  | .start =>
      if s.owner = .created then some { s with owner := .waiting, worker := .building } else none
  -- the predicate of `cond_.wait`
  | .startReturns =>
      if s.owner = .waiting ∧ s.loop = true then some { s with owner := .started } else none
  | .testLoop =>
      if s.owner = .created ∨ s.owner = .started then
        some { s with owner := if s.loop then .tested else .joining }
      else none
  | .callQuit =>
      if s.owner = .tested then
        some (if s.loop then { s with owner := .calling }
          else { s with owner := .crashed, missed := true })
      else none
  | .storeQuit =>
      if s.owner = .calling then
        if s.worker.hasLoop then
          (s.ev.step (.quit none)).map fun ev =>
            { s with owner := .stored, ev := ev, stored := true }
        else some { s with owner := .crashed, missed := true }
      else none
  -- the eventfd goes with the loop
  | .wakeup =>
      if s.owner = .stored then
        if s.worker.hasLoop then
          (s.ev.step (.wakeup none)).map fun ev => { s with owner := .joining, ev := ev }
        else some { s with owner := .crashed, missed := true }
      else none
  | .join =>
      if s.owner = .joining ∧ (s.worker = .absent ∨ s.worker = .finished) then
        some { s with owner := .done }
      else none
  | .build =>
      if s.worker = .building then some { s with worker := .built, ev := EventLoop.init } else none
  | .publish =>
      if s.worker = .built then some { s with worker := .published, loop := true } else none
  | .notify =>
      if s.worker = .published then some { s with worker := .notified } else none
  | .enter =>
      if s.worker = .notified then
        (s.ev.step .enter).map fun ev => { s with worker := .looping, ev := ev }
      else none
  | .testQuit =>
      if s.worker = .looping then
        (s.ev.step .testQuit).map fun ev =>
          { s with ev := ev, late := s.late || (s.stored && ev.pc = .polling) }
      else none
  | .loop op => if s.mayRun op then (s.ev.step op).map fun ev => { s with ev := ev } else none
  | .clear =>
      if s.worker = .looping ∧ s.ev.pc = .outside then
        some { s with worker := .cleared, loop := false }
      else none
  | .finish => if s.worker = .cleared then some { s with worker := .finished } else none

omit [DecidableEq τ]

/-- `quit()` has run on a loop that exists only, and no iteration has begun after it had
stored its request. -/
def Reaches (s : EventLoopThread α τ) : Prop := s.missed = false ∧ s.late = false

instance (s : EventLoopThread α τ) : Decidable s.Reaches := inferInstanceAs (Decidable (_ ∧ _))

/-- The condition on a step: `quit()` stores its request when `loop()` has been entered; the
worker does not clear `loop_` between the destructor's test and its call, and does not
destroy the loop while `quit()` runs. -/
def InTime (s : EventLoopThread α τ) : LoopThreadOp α τ → Prop
  | .storeQuit => s.worker = .looping ∨ s.worker = .cleared
  | .clear => s.owner ≠ .tested
  | .finish => s.owner ≠ .calling ∧ s.owner ≠ .stored
  | _ => True

/-- `loop()` does not see the request that has been stored: it has not been entered and
will overwrite it, or has just done so. -/
def Overwritten (s : EventLoopThread α τ) : Prop :=
  s.stored = true ∧ (s.worker = .published ∨ s.worker = .notified ∨
    (s.worker = .looping ∧ s.ev.quit = false))

/-- The request will not reach the loop that it is for. -/
def Doomed (s : EventLoopThread α τ) : Prop :=
  (s.owner = .tested ∧ s.loop = false) ∨
    ((s.owner = .calling ∨ s.owner = .stored) ∧ s.worker = .finished) ∨ s.Overwritten

/-! ## The invariant -/

/-- What every step keeps. -/
structure Inv (s : EventLoopThread α τ) : Prop where
  loop_eq : s.loop = s.worker.shares
  created : s.owner = .created → s.worker = .absent
  joined : s.owner = .done → s.worker = .absent ∨ s.worker = .finished
  unstored : s.owner.beforeStore = true → s.stored = false
  tested : s.owner = .tested → s.worker.hasShared = true
  calling : s.owner = .calling → s.worker.hasShared = true
  shared : s.stored = true → s.worker.hasShared = true
  stored : s.owner = .stored → s.stored = true
  seen : s.stored = true → s.worker = .looping → s.ev.quit = false →
    s.ev.pc = .test ∨ s.late = true

theorem inv_init : Inv (init : EventLoopThread α τ) where
  loop_eq := rfl
  created := fun _ => rfl
  joined := nofun
  unstored := fun _ => rfl
  tested := nofun
  calling := nofun
  shared := nofun
  stored := nofun
  seen := nofun

variable {s t : EventLoopThread α τ} {op : LoopThreadOp α τ}

/-- What `loop_` points to has been published. -/
theorem hasShared_of_shares {w : WorkerPc} (h : w.shares = true) : w.hasShared = true := by
  cases w with
  | published | notified | looping => rfl
  | absent | building | built | cleared | finished => cases h

/-- A loop that has been published exists until it is destroyed. -/
theorem finished_of_hasShared {w : WorkerPc} (h : w.hasShared = true) (hloop : w.hasLoop = false) :
    w = .finished := by
  cases w with
  | finished => rfl
  | absent | building | built => cases h
  | published | notified | looping | cleared => cases hloop

/-- The cases of a step. -/
inductive Stepped (s : EventLoopThread α τ) :
    LoopThreadOp α τ → EventLoopThread α τ → Prop where
  | start (howner : s.owner = .created) :
      Stepped s .start { s with owner := .waiting, worker := .building }
  | startReturns (howner : s.owner = .waiting) :
      Stepped s .startReturns { s with owner := .started }
  | testLoop (howner : s.owner = .created ∨ s.owner = .started) (hloop : s.loop = true) :
      Stepped s .testLoop { s with owner := .tested }
  | testNull (howner : s.owner = .created ∨ s.owner = .started) (hloop : s.loop = false) :
      Stepped s .testLoop { s with owner := .joining }
  | callQuit (howner : s.owner = .tested) (hloop : s.loop = true) :
      Stepped s .callQuit { s with owner := .calling }
  | missed (op : LoopThreadOp α τ)
      (hgone : s.owner = .tested ∧ s.loop = false ∨
        (s.owner = .calling ∨ s.owner = .stored) ∧ s.worker.hasLoop = false) :
      Stepped s op { s with owner := .crashed, missed := true }
  | storeQuit (ev : EventLoop α (Option τ)) (howner : s.owner = .calling)
      (hloop : s.worker.hasLoop = true) (hquit : ev.quit = true) :
      Stepped s .storeQuit { s with owner := .stored, ev := ev, stored := true }
  | wakeup (ev : EventLoop α (Option τ)) (howner : s.owner = .stored)
      (hloop : s.worker.hasLoop = true) (hquit : ev.quit = s.ev.quit) (hpc : ev.pc = s.ev.pc) :
      Stepped s .wakeup { s with owner := .joining, ev := ev }
  | join (howner : s.owner = .joining) (hworker : s.worker = .absent ∨ s.worker = .finished) :
      Stepped s .join { s with owner := .done }
  | build (hworker : s.worker = .building) :
      Stepped s .build { s with worker := .built, ev := EventLoop.init }
  | publish (hworker : s.worker = .built) :
      Stepped s .publish { s with worker := .published, loop := true }
  | notify (hworker : s.worker = .published) : Stepped s .notify { s with worker := .notified }
  | enter (ev : EventLoop α (Option τ)) (hworker : s.worker = .notified)
      (hquit : ev.quit = false) (hpc : ev.pc = .test) :
      Stepped s .enter { s with worker := .looping, ev := ev }
  | testQuit (ev : EventLoop α (Option τ)) (hworker : s.worker = .looping)
      (hquit : ev.quit = s.ev.quit) (hpc : ev.pc = .polling ↔ s.ev.quit = false) :
      Stepped s .testQuit { s with ev := ev, late := s.late || (s.stored && ev.pc = .polling) }
  | loop (op : LoopOp α (Option τ)) (ev : EventLoop α (Option τ))
      (hquit : s.ev.quit = true → ev.quit = true)
      (htest : s.ev.pc = .test → ev.pc = .test ∧ ev.quit = s.ev.quit) :
      Stepped s (.loop op) { s with ev := ev }
  | clear (hworker : s.worker = .looping) (hout : s.ev.pc = .outside) :
      Stepped s .clear { s with worker := .cleared, loop := false }
  | finish (hworker : s.worker = .cleared) : Stepped s .finish { s with worker := .finished }

/-- Besides `loop()` itself only `quit()` writes `quit_`, and at its test of `quit_` the
loop thread does nothing else. -/
theorem quit_of_mayRun [DecidableEq τ] {op : LoopOp α (Option τ)}
    {ev : EventLoop α (Option τ)} (hrun : s.mayRun op = true) (hstep : s.ev.step op = some ev) :
    (s.ev.quit = true → ev.quit = true) ∧
      (s.ev.pc = .test → ev.pc = .test ∧ ev.quit = s.ev.quit) := by
  cases EventLoop.moves_of_step hstep with
  | enter | testQuit | quit => cases hrun
  | pollReturns hpc | pollFails hpc | handleWakeup hpc | handlersDone hpc | swap hpc
  | call _ _ hpc | funcReturns hpc | batchDone hpc | pushInHandler _ _ hpc | pushInFunc _ hpc =>
      exact ⟨id, fun htest => absurd (hpc.symm.trans htest) nofun⟩
  | backInHandler wake hpc =>
      obtain ⟨n, heq⟩ := s.ev.wakeupIfDoing_eq
      rw [heq]
      exact ⟨id, fun htest => absurd (hpc.symm.trans htest) nofun⟩
  | backInFunc hpc =>
      obtain ⟨n, heq⟩ := s.ev.wakeupIfDoing_eq
      rw [heq]
      exact ⟨id, fun htest => absurd (hpc.symm.trans htest) nofun⟩
  | quitInHandler _ hpc | quitInFunc hpc =>
      exact ⟨fun _ => rfl, fun htest => absurd (hpc.symm.trans htest) nofun⟩
  | push | wakeup => exact ⟨id, fun htest => ⟨htest, rfl⟩⟩

/-- What a step does is one of the cases. -/
theorem stepped_of_step [DecidableEq τ] (h : s.step op = some t) : Stepped s op t := by
  cases op with
  | start =>
      simp only [step, Option.ite_none_right_eq_some, Option.some.injEq] at h
      obtain ⟨howner, rfl⟩ := h
      exact .start howner
  | startReturns =>
      simp only [step, Option.ite_none_right_eq_some, Option.some.injEq] at h
      obtain ⟨⟨howner, -⟩, rfl⟩ := h
      exact .startReturns howner
  | testLoop =>
      simp only [step, Option.ite_none_right_eq_some, Option.some.injEq] at h
      obtain ⟨howner, rfl⟩ := h
      split
      · rename_i hloop
        exact .testLoop howner hloop
      · rename_i hloop
        exact .testNull howner (Bool.not_eq_true _ ▸ hloop)
  | callQuit =>
      simp only [step, Option.ite_none_right_eq_some, Option.some.injEq] at h
      obtain ⟨howner, rfl⟩ := h
      split
      · rename_i hloop
        exact .callQuit howner hloop
      · rename_i hloop
        exact .missed _ (Or.inl ⟨howner, Bool.not_eq_true _ ▸ hloop⟩)
  | storeQuit =>
      simp only [step, Option.ite_none_right_eq_some] at h
      obtain ⟨howner, h⟩ := h
      split at h
      · rename_i hloop
        rw [Option.map_eq_some_iff] at h
        obtain ⟨ev, hev, rfl⟩ := h
        cases EventLoop.moves_of_step hev with
        | quit => exact .storeQuit _ howner hloop rfl
      · rename_i hloop
        obtain rfl := Option.some.inj h
        exact .missed _ (Or.inr ⟨Or.inl howner, Bool.not_eq_true _ ▸ hloop⟩)
  | wakeup =>
      simp only [step, Option.ite_none_right_eq_some] at h
      obtain ⟨howner, h⟩ := h
      split at h
      · rename_i hloop
        rw [Option.map_eq_some_iff] at h
        obtain ⟨ev, hev, rfl⟩ := h
        cases EventLoop.moves_of_step hev with
        | wakeup => exact .wakeup _ howner hloop rfl rfl
      · rename_i hloop
        obtain rfl := Option.some.inj h
        exact .missed _ (Or.inr ⟨Or.inr howner, Bool.not_eq_true _ ▸ hloop⟩)
  | join =>
      simp only [step, Option.ite_none_right_eq_some, Option.some.injEq] at h
      obtain ⟨⟨howner, hworker⟩, rfl⟩ := h
      exact .join howner hworker
  | build =>
      simp only [step, Option.ite_none_right_eq_some, Option.some.injEq] at h
      obtain ⟨hworker, rfl⟩ := h
      exact .build hworker
  | publish =>
      simp only [step, Option.ite_none_right_eq_some, Option.some.injEq] at h
      obtain ⟨hworker, rfl⟩ := h
      exact .publish hworker
  | notify =>
      simp only [step, Option.ite_none_right_eq_some, Option.some.injEq] at h
      obtain ⟨hworker, rfl⟩ := h
      exact .notify hworker
  | enter =>
      simp only [step, Option.ite_none_right_eq_some, Option.map_eq_some_iff] at h
      obtain ⟨hworker, ev, hev, rfl⟩ := h
      cases EventLoop.moves_of_step hev with
      | enter => exact .enter _ hworker rfl rfl
  | testQuit =>
      simp only [step, Option.ite_none_right_eq_some, Option.map_eq_some_iff] at h
      obtain ⟨hworker, ev, hev, rfl⟩ := h
      cases EventLoop.moves_of_step hev with
      | testQuit =>
          refine .testQuit _ hworker rfl ?_
          cases s.ev.quit <;> simp
  | loop op =>
      simp only [step, Option.ite_none_right_eq_some, Option.map_eq_some_iff] at h
      obtain ⟨hrun, ev, hev, rfl⟩ := h
      obtain ⟨hquit, htest⟩ := quit_of_mayRun hrun hev
      exact .loop op ev hquit htest
  | clear =>
      simp only [step, Option.ite_none_right_eq_some, Option.some.injEq] at h
      obtain ⟨⟨hworker, hout⟩, rfl⟩ := h
      exact .clear hworker hout
  | finish =>
      simp only [step, Option.ite_none_right_eq_some, Option.some.injEq] at h
      obtain ⟨hworker, rfl⟩ := h
      exact .finish hworker

/-- The worker goes on, in `threadTask` or in `loop()`. -/
theorem Inv.workerMoves (h : s.Inv) {v w : WorkerPc} {loop late : Bool}
    {ev : EventLoop α (Option τ)} (hworker : s.worker = v) (hv : v ≠ .absent ∧ v ≠ .finished)
    (hloop : s.loop = v.shares → loop = w.shares)
    (hshared : v.hasShared = true → w.hasShared = true)
    (hseen : s.stored = true → w = .looping → ev.quit = false → ev.pc = .test ∨ late = true) :
    Inv { s with worker := w, loop := loop, ev := ev, late := late } where
  loop_eq := hloop (hworker ▸ h.loop_eq)
  created := fun howner => absurd (hworker ▸ h.created howner) hv.1
  joined := fun howner => ((hworker ▸ h.joined howner).elim hv.1 hv.2).elim
  unstored := h.unstored
  tested := fun howner => hshared (hworker ▸ h.tested howner)
  calling := fun howner => hshared (hworker ▸ h.calling howner)
  shared := fun hstored => hshared (hworker ▸ h.shared hstored)
  stored := h.stored
  seen := hseen

/-- Every step keeps the invariant. -/
theorem inv_step [DecidableEq τ] (h : s.Inv) (hstep : s.step op = some t) : t.Inv := by
  cases stepped_of_step hstep with
  | start howner =>
      have hstored : s.stored = false := h.unstored (by rw [howner]; rfl)
      have hloop : s.loop = false := by
        rw [h.loop_eq, h.created howner]
        rfl
      refine ⟨hloop, nofun, nofun, fun _ => hstored, nofun, nofun, fun hs => ?_, nofun,
        fun _ => nofun⟩
      rw [hstored] at hs
      cases hs
  | startReturns howner =>
      have hstored : s.stored = false := h.unstored (by rw [howner]; rfl)
      exact ⟨h.loop_eq, nofun, nofun, fun _ => hstored, nofun, nofun, h.shared, nofun, h.seen⟩
  | testLoop howner hloop =>
      have hstored : s.stored = false := by
        rcases howner with howner | howner
        · exact h.unstored (by rw [howner]; rfl)
        · exact h.unstored (by rw [howner]; rfl)
      have hshared : s.worker.hasShared = true :=
        hasShared_of_shares (h.loop_eq.symm.trans hloop)
      exact ⟨h.loop_eq, nofun, nofun, fun _ => hstored, fun _ => hshared, nofun, h.shared, nofun,
        h.seen⟩
  | testNull howner hloop =>
      exact ⟨h.loop_eq, nofun, nofun, nofun, nofun, nofun, h.shared, nofun, h.seen⟩
  | callQuit howner hloop =>
      have hstored : s.stored = false := h.unstored (by rw [howner]; rfl)
      exact ⟨h.loop_eq, nofun, nofun, fun _ => hstored, nofun, fun _ => h.tested howner,
        h.shared, nofun, h.seen⟩
  | missed _ hgone =>
      exact ⟨h.loop_eq, nofun, nofun, nofun, nofun, nofun, h.shared, nofun, h.seen⟩
  | storeQuit ev howner hloop hquit =>
      refine ⟨h.loop_eq, nofun, nofun, nofun, nofun, nofun, fun _ => h.calling howner,
        fun _ => rfl, fun _ _ hfalse => ?_⟩
      rw [hquit] at hfalse
      cases hfalse
  | wakeup ev howner hloop hquit hpc =>
      refine ⟨h.loop_eq, nofun, nofun, nofun, nofun, nofun, h.shared, nofun, ?_⟩
      rw [hquit, hpc]
      exact h.seen
  | join howner hworker =>
      exact ⟨h.loop_eq, nofun, fun _ => hworker, nofun, nofun, nofun, h.shared, nofun, h.seen⟩
  | build hworker => exact h.workerMoves hworker ⟨nofun, nofun⟩ id nofun fun _ => nofun
  | publish hworker =>
      exact h.workerMoves hworker ⟨nofun, nofun⟩ (fun _ => rfl) (fun _ => rfl) fun _ => nofun
  | notify hworker => exact h.workerMoves hworker ⟨nofun, nofun⟩ id id fun _ => nofun
  | enter ev hworker hquit hpc =>
      exact h.workerMoves hworker ⟨nofun, nofun⟩ id id fun _ _ _ => Or.inl hpc
  | testQuit ev hworker hquit hpc =>
      refine h.workerMoves rfl (hworker ▸ ⟨nofun, nofun⟩) id id fun hstored _ hfalse => ?_
      have hpoll : ev.pc = .polling := hpc.mpr (hquit.symm.trans hfalse)
      right
      rw [hstored, hpoll]
      exact Bool.or_true _
  | loop op ev hquit htest =>
      refine { h with seen := fun hstored hworker hfalse => ?_ }
      have hunquit : s.ev.quit = false := by
        by_contra hne
        rw [hquit (Bool.of_not_eq_false hne)] at hfalse
        cases hfalse
      exact (h.seen hstored hworker hunquit).imp_left fun hpc => (htest hpc).1
  | clear hworker hout =>
      exact h.workerMoves hworker ⟨nofun, nofun⟩ (fun _ => rfl) id fun _ => nofun
  | finish hworker => exact h.workerMoves hworker ⟨nofun, nofun⟩ id id fun _ => nofun

/-! ## The request -/

/-- The request can reach the loop. -/
structure OnItsWay (s : EventLoopThread α τ) : Prop where
  tested : s.owner = .tested → s.loop = true
  calling : s.owner = .calling → s.worker ≠ .finished
  stored : s.owner = .stored → s.worker ≠ .finished
  seen : s.stored = true →
    s.worker ≠ .published ∧ s.worker ≠ .notified ∧ (s.worker = .looping → s.ev.quit = true)

theorem not_doomed_iff : ¬ s.Doomed ↔ s.OnItsWay := by
  constructor
  · intro h
    refine ⟨fun ho => ?_, fun ho hw => ?_, fun ho hw => ?_,
      fun hs => ⟨fun hw => ?_, fun hw => ?_, fun hw => ?_⟩⟩
    · exact Bool.of_not_eq_false fun hloop => h (Or.inl ⟨ho, hloop⟩)
    · exact h (Or.inr (Or.inl ⟨Or.inl ho, hw⟩))
    · exact h (Or.inr (Or.inl ⟨Or.inr ho, hw⟩))
    · exact h (Or.inr (Or.inr ⟨hs, Or.inl hw⟩))
    · exact h (Or.inr (Or.inr ⟨hs, Or.inr (Or.inl hw)⟩))
    · refine Bool.of_not_eq_false fun hq => ?_
      exact h (Or.inr (Or.inr ⟨hs, Or.inr (Or.inr ⟨hw, hq⟩)⟩))
  · rintro h (⟨ho, hloop⟩ | ⟨ho | ho, hw⟩ | ⟨hs, hw⟩)
    · rw [h.tested ho] at hloop
      cases hloop
    · exact h.calling ho hw
    · exact h.stored ho hw
    · obtain ⟨hpublished, hnotified, hlooping⟩ := h.seen hs
      rcases hw with hw | hw | ⟨hw, hq⟩
      · exact hpublished hw
      · exact hnotified hw
      · rw [hlooping hw] at hq
        cases hq

/-- A step that meets the condition leaves the request on its way. -/
theorem reaches_step [DecidableEq τ] (h : s.Inv) (hlaw : s.Reaches) (hsafe : s.OnItsWay)
    (hok : s.InTime op) (hstep : s.step op = some t) : t.Reaches ∧ t.OnItsWay := by
  cases stepped_of_step hstep with
  | start howner =>
      exact ⟨hlaw, nofun, nofun, nofun, fun _ => ⟨nofun, nofun, nofun⟩⟩
  | startReturns howner => exact ⟨hlaw, nofun, nofun, nofun, hsafe.seen⟩
  | testLoop howner hloop => exact ⟨hlaw, fun _ => hloop, nofun, nofun, hsafe.seen⟩
  | testNull howner hloop => exact ⟨hlaw, nofun, nofun, nofun, hsafe.seen⟩
  | callQuit howner hloop =>
      refine ⟨hlaw, nofun, fun _ hw => ?_, nofun, hsafe.seen⟩
      have hnull : s.loop = false := by
        rw [h.loop_eq, hw]
        rfl
      rw [hloop] at hnull
      cases hnull
  | missed _ hgone =>
      obtain ⟨ho, hloop⟩ | ⟨ho | ho, hloop⟩ := hgone
      · rw [hsafe.tested ho] at hloop
        cases hloop
      · exact absurd (finished_of_hasShared (h.calling ho) hloop) (hsafe.calling ho)
      · exact absurd (finished_of_hasShared (h.shared (h.stored ho)) hloop) (hsafe.stored ho)
  | storeQuit ev howner hloop hquit =>
      refine ⟨hlaw, nofun, nofun, fun _ => hsafe.calling howner, fun _ => ?_⟩
      rcases hok with hw | hw
      · exact ⟨hw ▸ nofun, hw ▸ nofun, fun _ => hquit⟩
      · exact ⟨hw ▸ nofun, hw ▸ nofun, fun _ => hquit⟩
  | wakeup ev howner hloop hquit hpc =>
      refine ⟨hlaw, nofun, nofun, nofun, ?_⟩
      rw [hquit]
      exact hsafe.seen
  | join howner hworker => exact ⟨hlaw, nofun, nofun, nofun, hsafe.seen⟩
  | build hworker =>
      exact ⟨hlaw, hsafe.tested, fun _ => nofun, fun _ => nofun,
        fun _ => ⟨nofun, nofun, nofun⟩⟩
  | publish hworker =>
      refine ⟨hlaw, fun _ => rfl, fun _ => nofun, fun _ => nofun, fun hs => ?_⟩
      have hshared := h.shared hs
      rw [hworker] at hshared
      cases hshared
  | notify hworker =>
      exact ⟨hlaw, hsafe.tested, fun _ => nofun, fun _ => nofun,
        fun hs => absurd hworker (hsafe.seen hs).1⟩
  | enter ev hworker hquit hpc =>
      exact ⟨hlaw, hsafe.tested, fun _ => nofun, fun _ => nofun,
        fun hs => absurd hworker (hsafe.seen hs).2.1⟩
  | testQuit ev hworker hquit hpc =>
      refine ⟨⟨hlaw.1, ?_⟩, hsafe.tested, hsafe.calling, hsafe.stored, ?_⟩
      · show (s.late || (s.stored && decide (ev.pc = .polling))) = false
        rw [hlaw.2, Bool.false_or, Bool.and_eq_false_imp, decide_eq_false_iff_not, hpc]
        intro hs
        rw [(hsafe.seen hs).2.2 hworker]
        exact nofun
      · rw [hquit]
        exact hsafe.seen
  | loop op ev hquit htest =>
      refine ⟨hlaw, hsafe.tested, hsafe.calling, hsafe.stored, fun hs => ?_⟩
      obtain ⟨hpublished, hnotified, hlooping⟩ := hsafe.seen hs
      exact ⟨hpublished, hnotified, fun hw => hquit (hlooping hw)⟩
  | clear hworker hout =>
      exact ⟨hlaw, fun ho => absurd ho hok, fun _ => nofun, fun _ => nofun,
        fun _ => ⟨nofun, nofun, nofun⟩⟩
  | finish hworker =>
      exact ⟨hlaw, hsafe.tested, fun ho => absurd ho hok.1, fun ho => absurd ho hok.2,
        fun _ => ⟨nofun, nofun, nofun⟩⟩

/-- A step that does not meet the condition dooms the request. -/
theorem doomed_of_step [DecidableEq τ] (h : s.Inv) (hok : ¬ s.InTime op)
    (hstep : s.step op = some t) (hlaw : t.Reaches) : t.Doomed := by
  cases stepped_of_step hstep with
  | storeQuit ev howner hloop hquit =>
      have hshared := h.calling howner
      -- the loop has been published and exists, and `loop()` has not been entered
      have hworker : s.worker = .published ∨ s.worker = .notified := by
        cases hw : s.worker with
        | published => exact Or.inl rfl
        | notified => exact Or.inr rfl
        | looping => exact absurd (Or.inl hw) hok
        | cleared => exact absurd (Or.inr hw) hok
        | finished =>
            rw [hw] at hloop
            cases hloop
        | absent | building | built =>
            rw [hw] at hshared
            cases hshared
      exact Or.inr (Or.inr ⟨rfl, hworker.imp_right Or.inl⟩)
  | clear hworker hout =>
      refine Or.inl ⟨?_, rfl⟩
      by_contra ho
      exact hok ho
  | finish hworker =>
      refine Or.inr (Or.inl ⟨?_, rfl⟩)
      by_contra ho
      exact hok (not_or.mp ho)
  | missed _ hgone => cases hlaw.1
  | _ => exact absurd trivial hok

/-- When `loop_` has been cleared behind its test it stays null. -/
theorem null_step (h : s.Inv) (howner : s.owner = .tested) (hnull : s.loop = false)
    (hstep : Stepped s op t) (hlaw : t.Reaches) : t.owner = .tested ∧ t.loop = false := by
  cases hstep with
  | start ho | startReturns ho | storeQuit _ ho | wakeup _ ho | join ho =>
      rw [howner] at ho
      cases ho
  | testLoop ho | testNull ho =>
      rw [howner] at ho
      rcases ho with ho | ho
      · cases ho
      · cases ho
  | callQuit _ hloop =>
      rw [hnull] at hloop
      cases hloop
  | missed => cases hlaw.1
  | publish hworker =>
      have hshared := h.tested howner
      rw [hworker] at hshared
      cases hshared
  | clear => exact ⟨howner, rfl⟩
  | build | notify | enter | testQuit | loop | finish => exact ⟨howner, hnull⟩

/-- `quit()` cannot go on without its loop. -/
theorem gone_step (howner : s.owner = .calling ∨ s.owner = .stored) (hgone : s.worker = .finished)
    (hstep : Stepped s op t) (hlaw : t.Reaches) :
    (t.owner = .calling ∨ t.owner = .stored) ∧ t.worker = .finished := by
  cases hstep with
  | start ho | startReturns ho | callQuit ho | join ho =>
      rw [ho] at howner
      rcases howner with howner | howner
      · cases howner
      · cases howner
  | testLoop ho | testNull ho =>
      rcases ho with ho | ho <;> rcases howner with howner | howner <;>
        cases ho.symm.trans howner
  | missed => cases hlaw.1
  | storeQuit _ _ hloop | wakeup _ _ hloop =>
      rw [hgone] at hloop
      cases hloop
  | loop => exact ⟨howner, hgone⟩
  | build hworker | publish hworker | notify hworker | enter _ hworker | testQuit _ hworker
  | clear hworker | finish hworker =>
      rw [hgone] at hworker
      cases hworker

/-- A request that `loop()` does not see is overwritten, and then an iteration begins. -/
theorem overwritten_step (h : s.Inv) (hs : s.Overwritten) (hstep : Stepped s op t)
    (hlaw : t.Reaches) : t.Overwritten := by
  obtain ⟨hstored, hunseen⟩ := hs
  cases hstep with
  | start howner | storeQuit _ howner =>
      rw [h.unstored (by rw [howner]; rfl)] at hstored
      cases hstored
  | startReturns | testLoop | testNull | callQuit | join => exact ⟨hstored, hunseen⟩
  | missed => cases hlaw.1
  | wakeup ev howner hloop hquit hpc =>
      refine ⟨hstored, ?_⟩
      rw [hquit]
      exact hunseen
  | build hworker | publish hworker | finish hworker =>
      rw [hworker] at hunseen
      rcases hunseen with hw | hw | ⟨hw, -⟩ <;> cases hw
  | notify => exact ⟨hstored, Or.inr (Or.inl rfl)⟩
  | enter ev hworker hquit hpc => exact ⟨hstored, Or.inr (Or.inr ⟨rfl, hquit⟩)⟩
  | testQuit ev hworker hquit hpc =>
      have hunquit : s.ev.quit = false := by
        rw [hworker] at hunseen
        rcases hunseen with hw | hw | ⟨-, hq⟩
        · cases hw
        · cases hw
        · exact hq
      have hlate : (s.late || (s.stored && decide (ev.pc = .polling))) = false := hlaw.2
      rw [hstored, decide_eq_true (hpc.mpr hunquit), Bool.and_true, Bool.or_true] at hlate
      cases hlate
  | loop op ev hquit htest =>
      refine ⟨hstored, hunseen.imp_right (Or.imp_right fun ⟨hw, hq⟩ => ⟨hw, ?_⟩)⟩
      -- `loop()` is at its test still
      have hpc : s.ev.pc = .test := by
        refine (h.seen hstored hw hq).resolve_right fun hlate => ?_
        cases hlate.symm.trans hlaw.2
      exact (htest hpc).2.trans hq
  | clear hworker hout =>
      rw [hworker] at hunseen
      rcases hunseen with hw | hw | ⟨-, hq⟩
      · cases hw
      · cases hw
      · rcases h.seen hstored hworker hq with hpc | hlate
        · cases hout.symm.trans hpc
        · cases hlate.symm.trans hlaw.2

/-- A doomed request stays so until that shows. -/
theorem Doomed.step [DecidableEq τ] (h : s.Inv) (hs : s.Doomed) (hstep : s.step op = some t)
    (hlaw : t.Reaches) : t.Doomed := by
  have hstepped := stepped_of_step hstep
  obtain ⟨howner, hnull⟩ | ⟨howner, hgone⟩ | hover := hs
  · exact Or.inl (null_step h howner hnull hstepped hlaw)
  · exact Or.inr (Or.inl (gone_step howner hgone hstepped hlaw))
  · exact Or.inr (Or.inr (overwritten_step h hover hstepped hlaw))

/-- `quit()` runs on a loop that exists, and no iteration begins after it has stored its
request, along a run in which it stores that after `loop()` has been entered, and the worker
does not clear `loop_` between the destructor's test and its call nor destroy the loop while
`quit()` runs; and of the runs that end with the destructor along no others. -/
theorem run_reaches [DecidableEq τ] (ops : List (LoopThreadOp α τ)) :
    (Runs.AllSteps step InTime init ops → Runs.Along step Reaches init ops) ∧
    ∀ t, Runs.run step init ops = some t → t.owner = .done →
      Runs.Along step Reaches init ops → Runs.AllSteps step InTime init ops := by
  have hrule := Runs.along_of_doomed step InTime Inv Reaches Doomed
    (fun _ _ _ h hstep => inv_step h hstep)
    (fun _ _ _ h hlaw hsafe hok hstep =>
      (reaches_step h hlaw (not_doomed_iff.mp hsafe) hok hstep).imp_right not_doomed_iff.mpr)
    (fun _ _ _ h _ hok hstep hlaw => doomed_of_step h hok hstep hlaw)
    (fun _ _ _ h hs hstep hlaw => hs.step h hstep hlaw)
    inv_init ⟨rfl, rfl⟩
    (not_doomed_iff.mpr ⟨nofun, nofun, nofun, nofun⟩) ops
  refine ⟨hrule.1, fun t hrun hdone => hrule.2 t hrun (not_doomed_iff.mpr ?_)⟩
  have hinv : t.Inv :=
    (Runs.Along.of_invariant (fun _ _ _ h hstep => inv_step h hstep) inv_init).final hrun
  refine ⟨fun ho => ?_, fun ho => ?_, fun ho => ?_, fun _ => ?_⟩
  · cases hdone.symm.trans ho
  · cases hdone.symm.trans ho
  · cases hdone.symm.trans ho
  · rcases hinv.joined hdone with hw | hw
    · exact ⟨hw ▸ nofun, hw ▸ nofun, hw ▸ nofun⟩
    · exact ⟨hw ▸ nofun, hw ▸ nofun, hw ▸ nofun⟩

/-- `start()` returns when `loop_` has been published, and the destructor stores its request
before the worker enters `loop()`: that sets `quit_` to false and polls. -/
theorem not_reaches_overwritten :
    ¬ Runs.Along step Reaches (init : EventLoopThread Unit Unit)
      [.start, .build, .publish, .startReturns, .testLoop, .callQuit, .storeQuit, .wakeup,
        .notify, .enter, .testQuit] := by
  decide

/- An orderly end: the worker polls when the destructor runs, and is woken up. -/
example :
    ((Runs.run step (init : EventLoopThread Unit Unit)
      [.start, .build, .publish, .notify, .startReturns, .enter, .testQuit, .testLoop, .callQuit,
        .storeQuit, .wakeup, .loop .pollReturns, .loop .handleWakeup, .loop .handlersDone,
        .loop .swap, .loop .batchDone, .testQuit, .clear, .finish, .join]).map fun s =>
      (s.owner, s.missed, s.late)) = some (.done, false, false) := by
  decide

end EventLoopThread

end Lotta
