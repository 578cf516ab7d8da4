/-
# Stopping a loop

A function whose `pushQueue` has returned when `quit()` is called should have been run by
the time `loop()` returns.  `loop()` tests `quit_` between `doFuncQueue` and the next poll,
so this depends on where the loop is when `quit_` is stored: before the swap of the queue
the functions pushed so far are still swapped out and run, after it those that have been
pushed since the swap are left in the queue.

`QuitRun` names the pushes by their place in the order of the mutex, and records which of
them have returned and which had when `quit()` was called.  A `quit()` that finds the loop
outside `loop()` is not counted; the next `loop()` forgets it.
-/
import Lotta.EventLoop

namespace Lotta

/-- The loop thread tests `quit_` before it swaps the queue again. -/
def LoopPc.testsFirst : LoopPc → Bool
  | .test => true
  | .running => true
  | .inFunc => true
  | .funcPushed => true
  | _ => false

/-- A loop with the record of its pushes.  `pushing` and `pushingLocal` are the last pushes
of the other threads and of the loop thread, `returned` those whose `pushQueue` has
returned, and `due` those that had returned when `quit()` was called. -/
structure QuitRun (α τ : Type*) where
  ev : EventLoop α τ
  pushing : τ → ℕ
  pushingLocal : ℕ
  returned : List ℕ
  due : List ℕ

namespace QuitRun

variable {α τ : Type*}

/-- A loop before `loop()` is called. -/
def init : QuitRun α τ := ⟨EventLoop.init, fun _ => 0, 0, [], []⟩

/-- The record of a call of `quit()`. -/
def recordQuit (s : QuitRun α τ) : QuitRun α τ :=
  if s.ev.pc = .outside then s else { s with due := s.returned }

variable [DecidableEq τ]

/-- What a step adds to the record. -/
def record (s : QuitRun α τ) : LoopOp α τ → QuitRun α τ
  | .push t _ => { s with pushing := Function.update s.pushing t s.ev.pushed.length }
  | .pushLocal _ => { s with pushingLocal := s.ev.pushed.length }
  | .wakeup t =>
      if s.ev.threads t = .afterPush then { s with returned := s.pushing t :: s.returned } else s
  | .testWakeup => { s with returned := s.pushingLocal :: s.returned }
  | .quit _ => s.recordQuit
  | .quitLocal => s.recordQuit
  | _ => s

/-- One step of the loop, recorded. -/
def step (s : QuitRun α τ) (op : LoopOp α τ) : Option (QuitRun α τ) :=
  (s.ev.step op).map fun ev => { s.record op with ev := ev }

omit [DecidableEq τ]

/-- When `loop()` has returned, every function that had been pushed when `quit()` was called
has been run: the functions run are the first ones pushed. -/
def Delivered (s : QuitRun α τ) : Prop := s.ev.pc = .outside → ∀ k ∈ s.due, k < s.ev.ran.length

instance (s : QuitRun α τ) : Decidable s.Delivered := inferInstanceAs (Decidable (_ → _))

/-- The condition on a step: when `quit()` is called and the loop will test `quit_` before
it swaps the queue, no function whose `pushQueue` has returned waits for that swap. -/
def NothingWaits (s : QuitRun α τ) : LoopOp α τ → Prop
  | .quit _ => s.ev.pc.testsFirst = true → ∀ k ∈ s.returned, k < s.ev.swapped
  | .quitLocal => s.ev.pc.testsFirst = true → ∀ k ∈ s.returned, k < s.ev.swapped
  | _ => True

/-- The loop will return with a function in its queue that had been pushed when `quit()` was
called. -/
def Doomed (s : QuitRun α τ) : Prop :=
  s.ev.quit = true ∧ s.ev.pc.testsFirst = true ∧ ∃ k ∈ s.due, s.ev.swapped ≤ k

/-! ## The invariant -/

/-- What every step keeps: the pushes recorded have been made. -/
structure QuitInv (s : QuitRun α τ) : Prop where
  ev : s.ev.Inv
  pushing : ∀ t, s.ev.threads t = .afterPush → s.pushing t < s.ev.pushed.length
  pushingLocal : (∃ wake, s.ev.pc = .handlerPushed wake) ∨ s.ev.pc = .funcPushed →
    s.pushingLocal < s.ev.pushed.length
  returned : ∀ k ∈ s.returned, k < s.ev.pushed.length
  due : ∀ k ∈ s.due, k ∈ s.returned

theorem quitInv_init : QuitInv (init : QuitRun α τ) where
  ev := EventLoop.inv_init
  pushing := fun _ h => by cases h
  pushingLocal := by
    rintro (⟨wake, h⟩ | h)
    · cases h
    · cases h
  returned := nofun
  due := nofun

variable {s t : QuitRun α τ} {op : LoopOp α τ}

/-- Before the test of `quit_` all functions that were swapped out have been run. -/
theorem length_ran_of_test (h : s.ev.Inv) (hpc : s.ev.pc = .test) :
    s.ev.ran.length = s.ev.swapped := by
  have htaken : s.ev.ran ++ s.ev.batch = s.ev.pushed.take s.ev.swapped := h.taken
  have hbatch : s.ev.batch = [] := h.batch_nil (by rw [hpc]; rfl)
  have hlen := congrArg List.length htaken
  rw [hbatch, List.append_nil, List.length_take, Nat.min_eq_left h.swapped_le] at hlen
  exact hlen

/-- What a step does to the promise that a call of `quit()` makes. -/
inductive Turned (s : QuitRun α τ) (op : LoopOp α τ) (t : QuitRun α τ) : Prop where
  | kept (hok : s.NothingWaits op) (hdue : t.due = s.due)
      (hquit : s.ev.pc ≠ .outside → t.ev.quit = s.ev.quit) (hswapped : t.ev.swapped = s.ev.swapped)
      (hran : s.ev.ran.length ≤ t.ev.ran.length)
      (hpc : t.ev.pc.testsFirst = s.ev.pc.testsFirst)
      (hout : t.ev.pc = .outside ↔ s.ev.pc = .outside)
  | entered (hok : s.NothingWaits op) (hpc : s.ev.pc = .outside) (hquit : t.ev.quit = false)
      (htest : t.ev.pc = .test)
  | polled (hok : s.NothingWaits op) (hquit : s.ev.quit = false) (hpoll : t.ev.pc = .polling)
  | left (hok : s.NothingWaits op) (hdue : t.due = s.due) (hquit : s.ev.quit = true)
      (hpc : s.ev.pc = .test) (hout : t.ev.pc = .outside) (hran : t.ev.ran = s.ev.ran)
  | swapped (hok : s.NothingWaits op) (hpc : s.ev.pc = .swapping) (hrun : t.ev.pc = .running)
      (hswapped : t.ev.swapped = t.ev.pushed.length)
  | quit (hok : s.NothingWaits op ↔
        (s.ev.pc.testsFirst = true → ∀ k ∈ s.returned, k < s.ev.swapped))
      (hdue : t.due = s.returned) (hquit : t.ev.quit = true) (hpc : t.ev.pc = s.ev.pc)
      (hout : s.ev.pc ≠ .outside) (hswapped : t.ev.swapped = s.ev.swapped)

/-- The loop thread goes on without a swap or a test. -/
theorem Turned.goes {pc : LoopPc} (hok : s.NothingWaits op) (hdue : t.due = s.due)
    (hs : s.ev.pc = pc) (hquit : t.ev.quit = s.ev.quit) (hswapped : t.ev.swapped = s.ev.swapped)
    (hran : s.ev.ran.length ≤ t.ev.ran.length) (hpc : t.ev.pc.testsFirst = pc.testsFirst)
    (hout : t.ev.pc ≠ .outside) (hne : pc ≠ .outside) : s.Turned op t :=
  .kept hok hdue (fun _ => hquit) hswapped hran (hs ▸ hpc)
    (iff_of_false hout (hs ▸ hne))

/-- A step of the loop thread that pushes nothing. -/
theorem QuitInv.goes (h : s.QuitInv) {ev : EventLoop α τ} (hev : ev.Inv)
    (hthreads : ev.threads = s.ev.threads) (hpushed : ev.pushed = s.ev.pushed)
    (hwake : ∀ wake, ev.pc ≠ .handlerPushed wake) (hfunc : ev.pc ≠ .funcPushed) :
    QuitInv { s with ev := ev } where
  ev := hev
  pushing := by
    show ∀ u, ev.threads u = .afterPush → s.pushing u < ev.pushed.length
    rw [hthreads, hpushed]
    exact h.pushing
  pushingLocal := by
    rintro (⟨wake, hpc⟩ | hpc)
    · exact absurd hpc (hwake wake)
    · exact absurd hpc hfunc
  returned := by
    show ∀ k ∈ s.returned, k < ev.pushed.length
    rw [hpushed]
    exact h.returned
  due := h.due

/-- A push makes the next number. -/
theorem length_lt_of_append {l : List α} {a : α} {k : ℕ} (h : k < l.length) :
    k < (l ++ [a]).length := by
  rw [List.length_append]
  omega

/-- A push of the loop thread. -/
theorem QuitInv.pushesLocal (h : s.QuitInv) {a : α} {pc : LoopPc}
    (hev : EventLoop.Inv { s.ev.enqueue a with pc := pc }) :
    QuitInv { s with
      pushingLocal := s.ev.pushed.length, ev := { s.ev.enqueue a with pc := pc } } where
  ev := hev
  pushing := fun u hu => length_lt_of_append (h.pushing u hu)
  pushingLocal := by
    intro _
    show s.ev.pushed.length < (s.ev.pushed ++ [a]).length
    rw [List.length_append]
    exact Nat.lt_succ_self _
  returned := fun k hk => length_lt_of_append (h.returned k hk)
  due := h.due

/-- The push of the loop thread returns. -/
theorem QuitInv.returnsLocal {ev : EventLoop α τ} (h : QuitInv { s with ev := ev })
    (hpushed : s.pushingLocal < ev.pushed.length) :
    QuitInv { s with returned := s.pushingLocal :: s.returned, ev := ev } where
  ev := h.ev
  pushing := h.pushing
  pushingLocal := h.pushingLocal
  returned := List.forall_mem_cons.mpr ⟨hpushed, h.returned⟩
  due := fun k hk => List.mem_cons_of_mem _ (h.due k hk)

/-- A thread that moves elsewhere does not push. -/
theorem afterPush_of_update [DecidableEq τ] {threads : τ → ThreadPc} {u v : τ} {pc : ThreadPc}
    (hpc : pc ≠ .afterPush) (hv : Function.update threads u pc v = .afterPush) :
    threads v = .afterPush := by
  by_cases hvu : v = u
  · rw [hvu, Function.update_self] at hv
    exact absurd hv hpc
  · rwa [Function.update_of_ne hvu] at hv

/-- `quit()` changes the flag, and the record of what is due. -/
theorem quit_of_step (h : s.QuitInv) {ev : EventLoop α τ} (hev : ev.Inv)
    (hquit : ev.quit = true) (hpc : ev.pc = s.ev.pc) (hpushed : ev.pushed = s.ev.pushed)
    (hswapped : ev.swapped = s.ev.swapped) (hran : ev.ran = s.ev.ran)
    (hthreads : ∀ u, ev.threads u = .afterPush → s.ev.threads u = .afterPush)
    (hok : s.NothingWaits op ↔
      (s.ev.pc.testsFirst = true → ∀ k ∈ s.returned, k < s.ev.swapped)) :
    QuitInv { s.recordQuit with ev := ev } ∧
      s.Turned op { s.recordQuit with ev := ev } := by
  have hinv : ∀ due : List ℕ, (∀ k ∈ due, k ∈ s.returned) →
      QuitInv { s with ev := ev, due := due } := by
    intro due hdue
    refine ⟨hev, fun u hu => ?_, ?_, ?_, hdue⟩
    · show s.pushing u < ev.pushed.length
      rw [hpushed]
      exact h.pushing u (hthreads u hu)
    · show (∃ wake, ev.pc = .handlerPushed wake) ∨ ev.pc = .funcPushed → _ < ev.pushed.length
      rw [hpc, hpushed]
      exact h.pushingLocal
    · show ∀ k ∈ s.returned, k < ev.pushed.length
      rw [hpushed]
      exact h.returned
  rw [recordQuit]
  split
  · rename_i hout
    refine ⟨hinv s.due h.due, .kept ?_ rfl (fun hne => absurd hout hne) hswapped
      (Nat.le_of_eq (congrArg List.length hran.symm)) (by rw [hpc]) (by rw [hpc])⟩
    rw [hok, hout]
    exact nofun
  · rename_i hout
    exact ⟨hinv s.returned fun _ => id, .quit hok rfl hquit hpc hout hswapped⟩

/-- Every step keeps the invariant. -/
theorem turned_of_step [DecidableEq τ] (h : s.QuitInv) (hstep : s.step op = some t) :
    t.QuitInv ∧ s.Turned op t := by
  rw [step, Option.map_eq_some_iff] at hstep
  obtain ⟨ev, hev, rfl⟩ := hstep
  have hinv : ev.Inv := EventLoop.inv_step h.ev hev
  cases EventLoop.moves_of_step hev with
  | enter hpc => exact ⟨h.goes hinv rfl rfl nofun nofun, .entered trivial hpc rfl rfl⟩
  | testQuit hpc =>
      cases hquit : s.ev.quit with
      | true =>
          rw [hquit] at hinv
          exact ⟨h.goes hinv rfl rfl nofun nofun, .left trivial rfl hquit hpc rfl rfl⟩
      | false =>
          rw [hquit] at hinv
          exact ⟨h.goes hinv rfl rfl nofun nofun, .polled trivial hquit rfl⟩
  | pollReturns hpc | pollFails hpc | handleWakeup hpc | handlersDone hpc | funcReturns hpc
  | batchDone hpc =>
      exact ⟨h.goes hinv rfl rfl nofun nofun,
        .goes trivial rfl hpc rfl rfl (Nat.le_refl _) rfl nofun nofun⟩
  | swap hpc => exact ⟨h.goes hinv rfl rfl nofun nofun, .swapped trivial hpc rfl rfl⟩
  | call f rest hpc hbatch =>
      exact ⟨h.goes hinv rfl rfl nofun nofun, .goes trivial rfl hpc rfl rfl
        (List.length_append ▸ Nat.le_add_right _ _) rfl nofun nofun⟩
  | pushInHandler a wake hpc =>
      exact ⟨h.pushesLocal hinv,
        .goes trivial rfl hpc rfl rfl (Nat.le_refl _) rfl nofun nofun⟩
  | pushInFunc a hpc =>
      exact ⟨h.pushesLocal hinv,
        .goes trivial rfl hpc rfl rfl (Nat.le_refl _) rfl nofun nofun⟩
  | backInHandler wake hpc =>
      obtain ⟨n, heq⟩ := s.ev.wakeupIfDoing_eq
      rw [heq] at hinv ⊢
      have hpushed := h.pushingLocal (Or.inl ⟨wake, hpc⟩)
      exact ⟨(h.goes hinv rfl rfl nofun nofun).returnsLocal hpushed,
        .goes trivial rfl hpc rfl rfl (Nat.le_refl _) rfl nofun nofun⟩
  | backInFunc hpc =>
      obtain ⟨n, heq⟩ := s.ev.wakeupIfDoing_eq
      rw [heq] at hinv ⊢
      have hpushed := h.pushingLocal (Or.inr hpc)
      exact ⟨(h.goes hinv rfl rfl nofun nofun).returnsLocal hpushed,
        .goes trivial rfl hpc rfl rfl (Nat.le_refl _) rfl nofun nofun⟩
  | quitInHandler => exact quit_of_step h hinv rfl rfl rfl rfl rfl (fun _ => id) Iff.rfl
  | quitInFunc => exact quit_of_step h hinv rfl rfl rfl rfl rfl (fun _ => id) Iff.rfl
  | push u a =>
      refine ⟨⟨hinv, fun v hv => ?_, fun hpc => length_lt_of_append (h.pushingLocal hpc),
        fun k hk => length_lt_of_append (h.returned k hk), h.due⟩,
        .kept trivial rfl (fun _ => rfl) rfl (Nat.le_refl _) rfl Iff.rfl⟩
      show Function.update s.pushing u s.ev.pushed.length v < (s.ev.pushed ++ [a]).length
      by_cases hvu : v = u
      · rw [hvu, Function.update_self, List.length_append]
        exact Nat.lt_succ_self _
      · rw [Function.update_of_ne hvu]
        refine length_lt_of_append (h.pushing v ?_)
        exact (Function.update_of_ne hvu _ _).symm.trans hv
  | wakeup u =>
      have hpushing : ∀ v, Function.update s.ev.threads u .idle v = .afterPush →
          s.pushing v < s.ev.pushed.length := fun v hv =>
        h.pushing v (afterPush_of_update (show ThreadPc.idle ≠ .afterPush by decide) hv)
      rw [record]
      split
      · rename_i hafter
        exact ⟨⟨hinv, hpushing, h.pushingLocal,
          List.forall_mem_cons.mpr ⟨h.pushing u hafter, h.returned⟩,
          fun k hk => List.mem_cons_of_mem _ (h.due k hk)⟩,
          .kept trivial rfl (fun _ => rfl) rfl (Nat.le_refl _) rfl Iff.rfl⟩
      · exact ⟨⟨hinv, hpushing, h.pushingLocal, h.returned, h.due⟩,
          .kept trivial rfl (fun _ => rfl) rfl (Nat.le_refl _) rfl Iff.rfl⟩
  | quit u =>
      exact quit_of_step h hinv rfl rfl rfl rfl rfl
        (fun _ => afterPush_of_update (show ThreadPc.afterQuit ≠ .afterPush by decide)) Iff.rfl

/-! ## Runs -/

/-- A step that meets the condition keeps the law, and dooms no function. -/
theorem delivered_step [DecidableEq τ] (h : s.QuitInv) (hlaw : s.Delivered)
    (hsafe : ¬ s.Doomed) (hok : s.NothingWaits op) (hstep : s.step op = some t) :
    t.Delivered ∧ ¬ t.Doomed := by
  obtain ⟨ht, hturned⟩ := turned_of_step h hstep
  cases hturned with
  | kept _ hdue hquit hswapped hran hpc hout =>
      rw [Delivered, Doomed, hdue, hswapped, hpc, hout]
      refine ⟨fun hs k hk => Nat.lt_of_lt_of_le (hlaw hs k hk) hran, ?_⟩
      rintro ⟨htrue, hfirst, hlost⟩
      refine hsafe ⟨?_, hfirst, hlost⟩
      rw [← hquit ?_]
      · exact htrue
      · intro hs
        rw [hs] at hfirst
        cases hfirst
  | entered _ hpc hquit htest =>
      rw [Delivered, Doomed, hquit, htest]
      exact ⟨nofun, nofun⟩
  | polled _ hquit hpoll =>
      rw [Delivered, Doomed, hpoll]
      exact ⟨nofun, nofun⟩
  | left _ hdue hquit hpc hout hran =>
      have hall : ∀ k ∈ s.due, k < s.ev.swapped := by
        intro k hk
        by_contra hge
        exact hsafe ⟨hquit, by rw [hpc]; rfl, k, hk, Nat.not_lt.mp hge⟩
      rw [Delivered, Doomed, hout, hdue, hran, length_ran_of_test h.ev hpc]
      exact ⟨fun _ => hall, nofun⟩
  | swapped _ hpc hrun hswapped =>
      rw [Delivered, Doomed, hrun, hswapped]
      refine ⟨nofun, ?_⟩
      -- all that is due has been pushed, and is swapped out now
      rintro ⟨-, -, k, hk, hle⟩
      exact absurd (ht.returned k (ht.due k hk)) (Nat.not_lt.mpr hle)
  | quit hiff hdue hquit hpc hout hswapped =>
      rw [Delivered, Doomed, hpc, hdue, hswapped]
      refine ⟨fun hs => absurd hs hout, ?_⟩
      rintro ⟨-, hfirst, k, hk, hle⟩
      exact absurd (hiff.mp hok hfirst k hk) (Nat.not_lt.mpr hle)

/-- A step that does not meet the condition dooms a function. -/
theorem doomed_of_step [DecidableEq τ] (h : s.QuitInv) (hok : ¬ s.NothingWaits op)
    (hstep : s.step op = some t) : t.Doomed := by
  obtain ⟨-, hturned⟩ := turned_of_step h hstep
  cases hturned with
  | quit hiff hdue hquit hpc hout hswapped =>
      rw [hiff] at hok
      rw [Classical.not_imp] at hok
      obtain ⟨hfirst, hall⟩ := hok
      simp only [not_forall] at hall
      obtain ⟨k, hk, hge⟩ := hall
      rw [Doomed, hquit, hpc, hdue, hswapped]
      exact ⟨rfl, hfirst, k, hk, Nat.not_lt.mp hge⟩
  | kept hok' => exact absurd hok' hok
  | entered hok' => exact absurd hok' hok
  | polled hok' => exact absurd hok' hok
  | left hok' => exact absurd hok' hok
  | swapped hok' => exact absurd hok' hok

/-- A function stays doomed until `loop()` returns without having run it. -/
theorem Doomed.step [DecidableEq τ] (h : s.QuitInv) (hs : s.Doomed) (hstep : s.step op = some t)
    (hlaw : t.Delivered) : t.Doomed := by
  obtain ⟨-, hturned⟩ := turned_of_step h hstep
  obtain ⟨hquit, hfirst, k, hk, hle⟩ := hs
  cases hturned with
  | kept _ hdue hquit' hswapped hran hpc hout =>
      have hinside : s.ev.pc ≠ .outside := by
        intro hout
        rw [hout] at hfirst
        cases hfirst
      rw [Doomed, hquit' hinside, hpc, hdue, hswapped]
      exact ⟨hquit, hfirst, k, hk, hle⟩
  | entered _ hpc =>
      rw [hpc] at hfirst
      cases hfirst
  | polled _ hfalse =>
      rw [hfalse] at hquit
      cases hquit
  | left _ hdue _ hpc hout hran =>
      have hrun := hlaw hout k (hdue ▸ hk)
      rw [hran, length_ran_of_test h.ev hpc] at hrun
      exact absurd hrun (Nat.not_lt.mpr hle)
  | swapped _ hpc =>
      rw [hpc] at hfirst
      cases hfirst
  | quit hiff hdue hquit' hpc hout hswapped =>
      rw [Doomed, hquit', hpc, hdue, hswapped]
      exact ⟨rfl, hfirst, k, h.due k hk, hle⟩

/-- Every function whose `pushQueue` had returned when `quit()` was called has been run when
`loop()` returns, along a run in which `quit()` is never called between a swap and the next
test of `quit_` while such a function waits in the queue; and of the runs that end outside
`loop()` along no others. -/
theorem run_delivered [DecidableEq τ] (ops : List (LoopOp α τ)) :
    (Runs.AllSteps step NothingWaits init ops → Runs.Along step Delivered init ops) ∧
    ∀ t, Runs.run step init ops = some t → t.ev.pc = .outside →
      Runs.Along step Delivered init ops → Runs.AllSteps step NothingWaits init ops := by
  have hrule := Runs.along_of_doomed step NothingWaits QuitInv Delivered Doomed
    (fun _ _ _ h hstep => (turned_of_step h hstep).1)
    (fun _ _ _ h hlaw hsafe hok hstep => delivered_step h hlaw hsafe hok hstep)
    (fun _ _ _ h _ hok hstep _ => doomed_of_step h hok hstep)
    (fun _ _ _ h hs hstep hlaw => hs.step h hstep hlaw)
    quitInv_init (fun _ => nofun) (by rintro ⟨hquit, -⟩; cases hquit) ops
  refine ⟨hrule.1, fun t hrun hout => hrule.2 t hrun ?_⟩
  rintro ⟨-, hfirst, -⟩
  rw [hout] at hfirst
  cases hfirst

/-- A function is pushed while the loop runs the batch swapped before, and then `quit()` is
called: `loop()` returns without having run it. -/
theorem not_delivered_betweenSwaps :
    ¬ Runs.Along step Delivered (init : QuitRun Unit Unit)
      [.enter, .testQuit, .pollReturns, .handlersDone, .swap, .push () (), .wakeup (), .quit (),
        .batchDone, .testQuit] := by
  decide

end QuitRun

end Lotta
