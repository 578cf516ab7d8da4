/-
# Every function that is pushed is called

The order of the queue says in which order functions are called, and the eventfd that `poll`
does not sleep on them.  Here is the bound: as long as `quit()` is not noticed, a function that
has been pushed is called after at most `distance` further steps of the loop itself, whatever
the other threads push, wake and store in between, and whatever the functions before it push.
The loop is never stuck on the way: one of its own steps can always be made, unless user code
on the loop thread is inside `pushQueue`.

A step of the loop itself is one of `loop()`, `poll`, `handleWakeup` and `doFuncQueue`.  That
`poll` returns and that functions return is part of counting them as steps.
-/
import Lotta.EventLoop
import Lotta.Lib.Countdown

namespace Lotta

/-- A step of `loop()`, `poll`, `handleWakeup` or `doFuncQueue`, as opposed to the calls that
user code makes on this or another thread. -/
def LoopOp.own {α τ : Type*} : LoopOp α τ → Bool
  | .enter => true
  | .testQuit => true
  | .pollReturns => true
  | .pollFails => true
  | .handleWakeup => true
  | .handlersDone => true
  | .swap => true
  | .call => true
  | .funcReturns => true
  | .batchDone => true
  | _ => false

/-- The number of own steps up to the end of the next swap, when no function of the batch is
left to call. -/
def LoopPc.untilSwapped : LoopPc → ℕ
  | .outside => 6
  | .test => 5
  | .polling => 4
  | .handlers true => 3
  | .handlerPushed true => 3
  | .handlers false => 2
  | .handlerPushed false => 2
  | .swapping => 1
  | .running => 6
  | .inFunc => 7
  | .funcPushed => 7

/-- The loop thread is inside a function. -/
def LoopPc.insideFunc : LoopPc → Bool
  | .inFunc => true
  | .funcPushed => true
  | _ => false

namespace EventLoop

variable {α τ : Type*}

/-- The number of own steps of the loop until the `i`-th pushed function has been called: two
for each function before it, and those up to the next swap when it is still in the queue. -/
def distance (s : EventLoop α τ) (i : ℕ) : ℕ :=
  2 * (i - s.ran.length) + 1 +
    if i < s.swapped then (if s.pc.insideFunc then 1 else 0) else s.pc.untilSwapped

/-- The `i`-th pushed function has been called. -/
def Called (s : EventLoop α τ) (i : ℕ) : Prop := i < s.ran.length

/-- A step in which the loop finds `quit_` set. -/
def findsQuit (s : EventLoop α τ) : LoopOp α τ → Bool
  | .testQuit => s.quit
  | _ => false

/-- The condition on a step: the loop does not find `quit_` set. -/
def NoQuit (s : EventLoop α τ) (op : LoopOp α τ) : Prop := s.findsQuit op = false

instance (s : EventLoop α τ) (op : LoopOp α τ) : Decidable (s.NoQuit op) :=
  inferInstanceAs (Decidable (_ = _))

/-- The functions that have been swapped out are those called and those of the batch. -/
theorem Inv.length_taken {s : EventLoop α τ} (h : Inv s) :
    s.ran.length + s.batch.length = s.swapped := by
  have htaken : (s.ran ++ s.batch).length = (s.pushed.take s.swapped).length :=
    congrArg List.length h.taken
  rw [List.length_append, List.length_take, Nat.min_eq_left h.swapped_le] at htaken
  exact htaken

variable [DecidableEq τ] {s t : EventLoop α τ} {op : LoopOp α τ}

omit [DecidableEq τ] in
/-- A function of the batch is called by a loop thread that is calling functions. -/
theorem Inv.calling {s : EventLoop α τ} (h : Inv s) {i : ℕ} (hi : ¬ s.Called i)
    (hswapped : i < s.swapped) : s.pc.calling = true := by
  cases hcalling : s.pc.calling with
  | true => rfl
  | false =>
      have hlen := h.length_taken
      rw [h.batch_nil hcalling, List.length_nil] at hlen
      exact absurd (show s.Called i by unfold Called; omega) hi

omit [DecidableEq τ] in
/-- A step that leaves the batch and the functions called alone: what counts is where the loop
thread goes. -/
theorem distance_goto {i : ℕ} {pc : LoopPc} (k : ℕ) (pc' : LoopPc) (hpc : s.pc = pc)
    (hpc' : t.pc = pc') (hran : t.ran = s.ran) (hswapped : t.swapped = s.swapped)
    (hinside : i < s.swapped →
      (if pc'.insideFunc then 1 else 0) + k ≤ if pc.insideFunc then 1 else 0)
    (huntil : pc'.untilSwapped + k ≤ pc.untilSwapped) :
    t.distance i + k ≤ s.distance i := by
  unfold distance
  rw [hran, hswapped, hpc, hpc']
  by_cases hi : i < s.swapped
  · have hle := hinside hi
    rw [if_pos hi, if_pos hi]
    omega
  · rw [if_neg hi, if_neg hi]
    omega

/-- Each step of the loop itself brings it nearer to the function, and no step takes it
further away. -/
theorem distance_step (h : Inv s) {i : ℕ} (hpushed : i < s.pushed.length) (hi : ¬ s.Called i)
    (hquit : s.NoQuit op) (hstep : s.step op = some t) :
    t.Called i ∨ t.distance i + (if op.own then 1 else 0) ≤ s.distance i := by
  have hlen := h.length_taken
  -- where no functions are called the function is still in the queue
  have hqueued : ∀ {P : Prop} {pc : LoopPc}, s.pc = pc → pc.calling = false →
      i < s.swapped → P := by
    intro P pc hpc hno hswapped
    have hcalling := h.calling hi hswapped
    rw [hpc, hno] at hcalling
    cases hcalling
  cases moves_of_step hstep with
  | enter hpc => exact Or.inr (distance_goto 1 .test hpc rfl rfl rfl (hqueued hpc rfl) (by decide))
  | testQuit hpc =>
      have hgo : (if s.quit then LoopPc.outside else .polling) = .polling := by
        rw [show s.quit = false from hquit]
        rfl
      exact Or.inr (distance_goto 1 .polling hpc hgo rfl rfl (hqueued hpc rfl) (by decide))
  | pollReturns hpc =>
      refine Or.inr (distance_goto 1 (.handlers (decide (0 < s.counter))) hpc rfl rfl rfl
        (hqueued hpc rfl) ?_)
      cases decide (0 < s.counter) <;> decide
  | pollFails hpc | handleWakeup hpc =>
      exact Or.inr (distance_goto 1 (.handlers false) hpc rfl rfl rfl (hqueued hpc rfl) (by decide))
  | handlersDone hpc =>
      exact Or.inr (distance_goto 1 .swapping hpc rfl rfl rfl (hqueued hpc rfl) (by decide))
  | swap hpc =>
      -- everything that has been pushed is in the batch now
      have hnot : ¬ i < s.swapped := fun hswapped => hqueued hpc rfl hswapped
      refine Or.inr (Nat.le_of_eq ?_)
      simp only [distance, if_pos hpushed, if_neg hnot, hpc]
      rfl
  | call f rest hpc hbatch =>
      by_cases hnext : i = s.ran.length
      · refine Or.inl ?_
        show i < (s.ran ++ [f]).length
        rw [List.length_append, List.length_singleton]
        omega
      · have hlater : s.ran.length < i := by
          unfold Called at hi
          omega
        refine Or.inr ?_
        simp only [distance, List.length_append, List.length_singleton, hpc,
          LoopPc.untilSwapped, LoopPc.insideFunc, LoopOp.own, if_true, Bool.false_eq_true, if_false]
        by_cases hin : i < s.swapped
        · rw [if_pos hin, if_pos hin]
          omega
        · rw [if_neg hin, if_neg hin]
          omega
  | funcReturns hpc =>
      exact Or.inr (distance_goto 1 .running hpc rfl rfl rfl (fun _ => by decide) (by decide))
  | batchDone hpc hbatch =>
      have hnot : ¬ i < s.swapped := by
        rw [hbatch, List.length_nil] at hlen
        unfold Called at hi
        omega
      exact Or.inr (distance_goto 1 .test hpc rfl rfl rfl (fun hs => absurd hs hnot) (by decide))
  | pushInHandler a wake hpc =>
      refine Or.inr (distance_goto 0 (.handlerPushed wake) hpc rfl rfl rfl (hqueued hpc rfl) ?_)
      cases wake <;> decide
  | pushInFunc a hpc =>
      exact Or.inr (distance_goto 0 .funcPushed hpc rfl rfl rfl (fun _ => by decide) (by decide))
  | backInHandler wake hpc =>
      obtain ⟨n, hn⟩ := wakeupIfDoing_eq s
      rw [hn]
      refine Or.inr (distance_goto 0 (.handlers wake) hpc rfl rfl rfl (hqueued hpc rfl) ?_)
      cases wake <;> decide
  | backInFunc hpc =>
      obtain ⟨n, hn⟩ := wakeupIfDoing_eq s
      rw [hn]
      exact Or.inr (distance_goto 0 .inFunc hpc rfl rfl rfl (fun _ => by decide) (by decide))
  | quitInHandler | quitInFunc | push | wakeup | quit => exact Or.inr (Nat.le_refl (s.distance i))

/-- What has been called stays called. -/
theorem called_of_step (hstep : s.step op = some t) {i : ℕ} (hi : s.Called i) : t.Called i := by
  cases stepped_of_step hstep with
  | went => exact hi
  | pushed => exact hi
  | swapped => exact hi
  | called f rest hpc hbatch =>
      show i < (s.ran ++ [f]).length
      rw [List.length_append]
      exact Nat.lt_add_right _ hi

/-- What has been pushed stays pushed, in its place. -/
theorem pushed_of_step (hstep : s.step op = some t) : s.pushed <+: t.pushed := by
  cases stepped_of_step hstep with
  | went => exact List.prefix_rfl
  | pushed a => exact List.prefix_append _ _
  | swapped => exact List.prefix_rfl
  | called => exact List.prefix_rfl

/-- The loop thread can go on: by a step of the loop itself, or out of `pushQueue`. -/
theorem exists_step (s : EventLoop α τ) :
    ∃ op : LoopOp α τ, (op.own = true ∨ op = .testWakeup) ∧ (s.step op).isSome = true := by
  cases hpc : s.pc with
  | outside => exact ⟨.enter, Or.inl rfl, by simp [step, hpc]⟩
  | test => exact ⟨.testQuit, Or.inl rfl, by simp [step, hpc]⟩
  | polling => exact ⟨.pollReturns, Or.inl rfl, by simp [step, hpc]⟩
  | handlers wake =>
      cases wake with
      | true => exact ⟨.handleWakeup, Or.inl rfl, by simp [step, hpc]⟩
      | false => exact ⟨.handlersDone, Or.inl rfl, by simp [step, hpc]⟩
  | handlerPushed wake => exact ⟨.testWakeup, Or.inr rfl, by simp [step, hpc]⟩
  | swapping => exact ⟨.swap, Or.inl rfl, by simp [step, hpc]⟩
  | running =>
      cases hbatch : s.batch with
      | nil => exact ⟨.batchDone, Or.inl rfl, by simp [step, hpc, hbatch]⟩
      | cons f rest => exact ⟨.call, Or.inl rfl, by simp [step, hpc, hbatch]⟩
  | inFunc => exact ⟨.funcReturns, Or.inl rfl, by simp [step, hpc]⟩
  | funcPushed => exact ⟨.testWakeup, Or.inr rfl, by simp [step, hpc]⟩

/-! ## Runs -/

/-- In whatever state a run has come, the loop thread can go on, and a function that has been
pushed is called after at most `distance` own steps of the loop in the rest of the run, if the
loop does not find `quit_` set there. -/
theorem run_answers (ops more : List (LoopOp α τ)) {s t : EventLoop α τ}
    (hrun : Runs.run step init ops = some s) (hmore : Runs.run step s more = some t)
    (hquit : Runs.AllSteps step NoQuit s more) {i : ℕ} (hi : i < s.pushed.length)
    (hsteps : s.distance i ≤ more.countP LoopOp.own) :
    t.ran[i]? = s.pushed[i]? ∧
      ∃ op : LoopOp α τ, (op.own = true ∨ op = .testWakeup) ∧ (t.step op).isSome = true := by
  refine ⟨?_, exists_step t⟩
  have hinv : ∀ (is : List (LoopOp α τ)) {a b : EventLoop α τ}, Inv a →
      Runs.run step a is = some b → Inv b := fun is a b ha hb =>
    (Runs.Along.of_invariant (P := Inv) (fun _ _ _ hs h => inv_step hs h) ha).final hb
  have hs : Inv s := hinv ops inv_init hrun
  have ht : Inv t := hinv more hs hmore
  have hcalled : t.Called i := by
    refine Runs.goal_of_countdown (J := fun u => Inv u ∧ i < u.pushed.length)
      (G := fun u => u.Called i) (p := LoopOp.own) (m := fun u => u.distance i)
      (fun u op v hu h => ⟨inv_step hu.1 h, ?_⟩) (fun u op v hu h => called_of_step h hu)
      (fun u _ _ => ?_) (fun u op v hu hgoal hok h => distance_step hu.1 hu.2 hgoal hok h)
      ⟨hs, hi⟩ hquit hmore hsteps
    · exact Nat.lt_of_lt_of_le hu.2 (pushed_of_step h).length_le
    · unfold distance
      omega
  -- what has been called stands in the order of the pushes
  have hran : t.ran <+: t.pushed := by
    rw [← ht.inOrder.order, List.append_assoc]
    exact List.prefix_append _ _
  have hpushed : s.pushed <+: t.pushed :=
    (Runs.Along.of_invariant (P := fun u => s.pushed <+: u.pushed)
      (fun _ _ _ hu h => hu.trans (pushed_of_step h)) List.prefix_rfl).final hmore
  rw [List.getElem?_eq_getElem hcalled, List.getElem?_eq_getElem hi, hran.getElem hcalled,
    hpushed.getElem hi]

/-- Another thread pushes a function while the loop is in `poll`; it has been called five own
steps of the loop later, though a second function has been pushed in the meantime. -/
theorem run_answers_polling :
    ∃ t : EventLoop ℕ Unit,
      Runs.run step init [.enter, .testQuit, .push () 1, .wakeup (), .pollReturns, .handleWakeup,
        .push () 2, .handlersDone, .wakeup (), .swap, .call] = some t ∧ t.ran[0]? = some 1 :=
  ⟨_, rfl, (run_answers [.enter, .testQuit, .push () 1] [.wakeup (), .pollReturns, .handleWakeup,
    .push () 2, .handlersDone, .wakeup (), .swap, .call] rfl rfl (by decide) (by decide)
    (by decide)).1⟩

end EventLoop

end Lotta
