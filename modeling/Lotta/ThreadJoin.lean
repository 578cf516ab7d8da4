/-
# The destructor of EventLoopThread returns

The destructor stores the request to quit, writes the eventfd, and joins the thread.  The order
of these steps decides whether the request reaches the loop (`run_reaches`); once it does the
join ends.  The loop finishes the iteration that it is in: it calls the functions of its batch,
and those in the queue when it has not swapped them out yet.  So the number of steps that the
worker still makes is not bounded by the state alone, since other threads may push until the
swap; each push adds the two steps of a call.

`run_joins` says that this is all, and that on the way to the end of the join the owner or the
worker can always make a step: nothing waits for something that does not come.
-/
import Lotta.EventLoopThread
import Lotta.LoopProgress

namespace Lotta

/-! ## The loop -/

/-- The number of own steps until `loop()` returns, when `quit_` is set and no function is left
to call. -/
def LoopPc.untilReturned : LoopPc → ℕ
  | .outside => 0
  | .test => 1
  | .running => 2
  | .inFunc => 3
  | .funcPushed => 3
  | .swapping => 3
  | .handlers false => 4
  | .handlerPushed false => 4
  | .handlers true => 5
  | .handlerPushed true => 5
  | .polling => 6

/-- The loop swaps the queue before it tests `quit_`. -/
def LoopPc.swapsFirst : LoopPc → Bool
  | .polling => true
  | .handlers _ => true
  | .handlerPushed _ => true
  | .swapping => true
  | _ => false

/-- What a step costs the loop: the call of a function that it pushes. -/
def LoopOp.cost {α τ : Type*} (op : LoopOp α τ) : ℕ := if op.pushes.isSome then 2 else 0

namespace EventLoop

variable {α τ : Type*}

/-- The number of own steps of the loop until `loop()` returns, when `quit_` is set and nothing
more is pushed. -/
def returnsIn (s : EventLoop α τ) : ℕ :=
  s.pc.untilReturned + 2 * (s.batch.length + if s.pc.swapsFirst then s.queue.length else 0)

variable [DecidableEq τ] {s t : EventLoop α τ} {op : LoopOp α τ}

omit [DecidableEq τ] in
/-- A step that leaves the batch and the queue alone: what counts is where the loop thread
goes. -/
theorem returnsIn_goto {pc : LoopPc} (k : ℕ) (pc' : LoopPc) (hpc : s.pc = pc) (hpc' : t.pc = pc')
    (hbatch : t.batch = s.batch) (hqueue : t.queue = s.queue)
    (huntil : pc'.untilReturned + k ≤ pc.untilReturned)
    (hswaps : pc'.swapsFirst = true → pc.swapsFirst = true) :
    t.returnsIn + k ≤ s.returnsIn := by
  unfold returnsIn
  rw [hpc, hpc', hbatch, hqueue]
  cases hlast : pc'.swapsFirst with
  | false =>
      rw [if_neg (by decide)]
      omega
  | true =>
      rw [if_pos rfl, if_pos (hswaps hlast)]
      omega

omit [DecidableEq τ] in
/-- A push, which the loop has to call before it returns only when it is still to swap. -/
theorem returnsIn_push {pc pc' : LoopPc} (hpc : s.pc = pc) (hpc' : t.pc = pc')
    (hbatch : t.batch = s.batch) (hqueue : t.queue.length = s.queue.length + 1)
    (huntil : pc'.untilReturned = pc.untilReturned) (hswaps : pc'.swapsFirst = pc.swapsFirst) :
    t.returnsIn ≤ s.returnsIn + 2 := by
  unfold returnsIn
  rw [hpc, hpc', hbatch, hqueue, huntil, hswaps]
  split
  · omega
  · omega

/-- Each step of the loop itself brings it nearer to its return, and the others take it further
away by what they cost. -/
theorem returnsIn_step (hquit : s.quit = true) (henter : op ≠ .enter)
    (hstep : s.step op = some t) :
    t.returnsIn + (if op.own then 1 else 0) ≤ s.returnsIn + op.cost := by
  cases moves_of_step hstep with
  | enter => exact absurd rfl henter
  | testQuit hpc =>
      have hgo : (if s.quit then LoopPc.outside else .polling) = .outside := if_pos hquit
      exact returnsIn_goto 1 .outside hpc hgo rfl rfl (by decide) (by decide)
  | pollReturns hpc =>
      refine returnsIn_goto 1 (.handlers (decide (0 < s.counter))) hpc rfl rfl rfl ?_ fun _ => rfl
      cases decide (0 < s.counter) <;> decide
  | pollFails hpc | handleWakeup hpc =>
      exact returnsIn_goto 1 (.handlers false) hpc rfl rfl rfl (by decide) (by decide)
  | handlersDone hpc => exact returnsIn_goto 1 .swapping hpc rfl rfl rfl (by decide) (by decide)
  | swap hpc =>
      -- the queue becomes the batch, and what may be pushed from here on is not waited for
      show LoopPc.running.untilReturned + 2 * (s.queue.length + 0) + 1 ≤ s.returnsIn + 0
      unfold returnsIn
      rw [hpc]
      show 2 + 2 * (s.queue.length + 0) + 1 ≤ 3 + 2 * (s.batch.length + s.queue.length) + 0
      omega
  | call f rest hpc hbatch =>
      show LoopPc.inFunc.untilReturned + 2 * (rest.length + 0) + 1 ≤ s.returnsIn + 0
      unfold returnsIn
      rw [hpc, hbatch, List.length_cons]
      show 3 + 2 * (rest.length + 0) + 1 ≤ 2 + 2 * (rest.length + 1 + 0) + 0
      omega
  | funcReturns hpc => exact returnsIn_goto 1 .running hpc rfl rfl rfl (by decide) (by decide)
  | batchDone hpc hbatch => exact returnsIn_goto 1 .test hpc rfl rfl rfl (by decide) (by decide)
  | pushInHandler a wake hpc =>
      refine returnsIn_push hpc rfl rfl List.length_append ?_ rfl
      cases wake <;> rfl
  | pushInFunc a hpc => exact returnsIn_push hpc rfl rfl List.length_append rfl rfl
  | push u a hidle => exact returnsIn_push rfl rfl rfl List.length_append rfl rfl
  | backInHandler wake hpc =>
      obtain ⟨n, hn⟩ := wakeupIfDoing_eq s
      rw [hn]
      refine returnsIn_goto 0 (.handlers wake) hpc rfl rfl rfl ?_ fun _ => rfl
      cases wake <;> decide
  | backInFunc hpc =>
      obtain ⟨n, hn⟩ := wakeupIfDoing_eq s
      rw [hn]
      exact returnsIn_goto 0 .inFunc hpc rfl rfl rfl (by decide) (by decide)
  | quitInHandler | quitInFunc | wakeup | quit => exact Nat.le_refl s.returnsIn

end EventLoop

/-! ## The worker -/

/-- A step of the worker, as opposed to the calls that user code makes on its thread, and to
the steps of the owner and of the other threads. -/
def LoopThreadOp.ofWorker {α τ : Type*} : LoopThreadOp α τ → Bool
  | .build => true
  | .publish => true
  | .notify => true
  | .enter => true
  | .testQuit => true
  | .loop op => op.own
  | .clear => true
  | .finish => true
  | _ => false

/-- A step of the owner. -/
def LoopThreadOp.ofOwner {α τ : Type*} : LoopThreadOp α τ → Bool
  | .start => true
  | .startReturns => true
  | .testLoop => true
  | .callQuit => true
  | .storeQuit => true
  | .wakeup => true
  | .join => true
  | _ => false

/-- What a step costs the worker. -/
def LoopThreadOp.cost {α τ : Type*} : LoopThreadOp α τ → ℕ
  | .loop op => op.cost
  | _ => 0

namespace EventLoopThread

variable {α τ : Type*}

/-- The number of steps of the worker until its thread has ended, when the request has been
stored and nothing more is pushed. -/
def endsIn (s : EventLoopThread α τ) : ℕ :=
  match s.worker with
  | .looping => s.ev.returnsIn + 2
  | .cleared => 1
  | _ => 0

variable [DecidableEq τ] {s t : EventLoopThread α τ} {op : LoopThreadOp α τ}

/-- What holds in a run whose steps are in time. -/
structure OnTime (s : EventLoopThread α τ) : Prop where
  inv : s.Inv
  reaches : s.Reaches
  onItsWay : s.OnItsWay
  alive : s.owner ≠ .crashed
  /-- The owner is between `quit_` and the eventfd. -/
  waking : s.owner = .stored → s.ev.threads none ≠ .idle

omit [DecidableEq τ] in
theorem onTime_init : OnTime (init : EventLoopThread α τ) where
  inv := inv_init
  reaches := ⟨rfl, rfl⟩
  onItsWay := not_doomed_iff.mp (by rintro (⟨h, -⟩ | ⟨h | h, -⟩ | ⟨h, -⟩) <;> cases h)
  alive := fun h => by cases h
  waking := fun h => by cases h

omit [DecidableEq τ] in
/-- Where the worker is once the request has been stored. -/
theorem OnTime.worker (h : s.OnTime) (hstored : s.stored = true) :
    s.worker = .looping ∧ s.ev.quit = true ∨ s.worker = .cleared ∨ s.worker = .finished := by
  have hshared := h.inv.shared hstored
  obtain ⟨hpublished, hnotified, hquit⟩ := h.onItsWay.seen hstored
  cases hworker : s.worker with
  | looping => exact Or.inl ⟨rfl, hquit hworker⟩
  | cleared => exact Or.inr (Or.inl rfl)
  | finished => exact Or.inr (Or.inr rfl)
  | published => exact absurd hworker hpublished
  | notified => exact absurd hworker hnotified
  | absent | building | built =>
      rw [hworker] at hshared
      cases hshared

/-- The steps of the loop and of the other threads leave the owner where it is in the loop. -/
theorem threads_of_mayRun {op : LoopOp α (Option τ)} {ev : EventLoop α (Option τ)}
    (hrun : s.mayRun op = true) (hstep : s.ev.step op = some ev) :
    ev.threads none = s.ev.threads none := by
  cases EventLoop.moves_of_step hstep with
  | enter | testQuit | quit => cases hrun
  | push u a =>
      have hu : u ≠ none := by
        rintro rfl
        cases hrun
      exact Function.update_of_ne hu.symm _ _
  | wakeup u =>
      have hu : u ≠ none := by
        rintro rfl
        cases hrun
      exact Function.update_of_ne hu.symm _ _
  | backInHandler wake hpc =>
      obtain ⟨n, hn⟩ := s.ev.wakeupIfDoing_eq
      rw [hn]
  | backInFunc hpc =>
      obtain ⟨n, hn⟩ := s.ev.wakeupIfDoing_eq
      rw [hn]
  | _ => rfl

/-- What a step does, where it matters who makes it: the owner goes on, stores the request or
writes the eventfd; the thread is being set up; the loop or another thread makes a step of the
loop; the worker leaves. -/
inductive Acts (s : EventLoopThread α τ) (op : LoopThreadOp α τ) : EventLoopThread α τ → Prop where
  | owner (o : OwnerPc) (missed : Bool) (hop : op.ofWorker = false) (ho : o ≠ .stored)
      (hmissed : o = .crashed → missed = true) : Acts s op { s with owner := o, missed := missed }
  | stores (ev : EventLoop α (Option τ)) (hop : op.ofWorker = false)
      (hev : s.ev.step (.quit none) = some ev) (howner : s.owner = .calling) :
      Acts s op { s with owner := .stored, ev := ev, stored := true }
  | wakes (ev : EventLoop α (Option τ)) (hop : op.ofWorker = false)
      (hev : s.ev.step (.wakeup none) = some ev) :
      Acts s op { s with owner := .joining, ev := ev }
  | early (t : EventLoopThread α τ) (howner : t.owner = .waiting ∨ t.owner = s.owner)
      (hstored : t.stored = s.stored) (hearly : s.owner = .created ∨ s.worker = .building ∨
        s.worker = .built ∨ s.worker = .published ∨ s.worker = .notified) : Acts s op t
  | runs (op' : LoopOp α (Option τ)) (ev : EventLoop α (Option τ)) (late : Bool)
      (hev : s.ev.step op' = some ev) (hthreads : ev.threads none = s.ev.threads none)
      (hworker : s.worker = .looping ∨ op'.own = false) (henter : op' ≠ .enter)
      (hop : op.ofWorker = op'.own) (hcost : op.cost = op'.cost) :
      Acts s op { s with ev := ev, late := late }
  | clears (hworker : s.worker = .looping) :
      Acts s op { s with worker := .cleared, loop := false }
  | finishes : Acts s op { s with worker := .finished }

theorem acts_of_step (h : s.step op = some t) : Acts s op t := by
  cases op with
  | start =>
      simp only [step, Option.ite_none_right_eq_some, Option.some.injEq] at h
      obtain ⟨howner, rfl⟩ := h
      exact .early _ (Or.inl rfl) rfl (Or.inl howner)
  | startReturns =>
      simp only [step, Option.ite_none_right_eq_some, Option.some.injEq] at h
      obtain ⟨-, rfl⟩ := h
      exact .owner .started s.missed rfl (by decide) (fun ho => by cases ho)
  | testLoop =>
      simp only [step, Option.ite_none_right_eq_some, Option.some.injEq] at h
      obtain ⟨-, rfl⟩ := h
      refine .owner _ s.missed rfl ?_ ?_
      · split <;> decide
      · split <;> exact fun ho => by cases ho
  | callQuit =>
      simp only [step, Option.ite_none_right_eq_some, Option.some.injEq] at h
      obtain ⟨-, rfl⟩ := h
      split
      · exact .owner .calling s.missed rfl (by decide) (fun ho => by cases ho)
      · exact .owner .crashed true rfl (by decide) fun _ => rfl
  | storeQuit =>
      simp only [step, Option.ite_none_right_eq_some] at h
      obtain ⟨howner, h⟩ := h
      split at h
      · rw [Option.map_eq_some_iff] at h
        obtain ⟨ev, hev, rfl⟩ := h
        exact .stores ev rfl hev howner
      · obtain rfl := Option.some.inj h
        exact .owner .crashed true rfl (by decide) fun _ => rfl
  | wakeup =>
      simp only [step, Option.ite_none_right_eq_some] at h
      obtain ⟨-, h⟩ := h
      split at h
      · rw [Option.map_eq_some_iff] at h
        obtain ⟨ev, hev, rfl⟩ := h
        exact .wakes ev rfl hev
      · obtain rfl := Option.some.inj h
        exact .owner .crashed true rfl (by decide) fun _ => rfl
  | join =>
      simp only [step, Option.ite_none_right_eq_some, Option.some.injEq] at h
      obtain ⟨-, rfl⟩ := h
      exact .owner .done s.missed rfl (by decide) (fun ho => by cases ho)
  | build =>
      simp only [step, Option.ite_none_right_eq_some, Option.some.injEq] at h
      obtain ⟨hworker, rfl⟩ := h
      exact .early _ (Or.inr rfl) rfl (Or.inr (Or.inl hworker))
  | publish =>
      simp only [step, Option.ite_none_right_eq_some, Option.some.injEq] at h
      obtain ⟨hworker, rfl⟩ := h
      exact .early _ (Or.inr rfl) rfl (Or.inr (Or.inr (Or.inl hworker)))
  | notify =>
      simp only [step, Option.ite_none_right_eq_some, Option.some.injEq] at h
      obtain ⟨hworker, rfl⟩ := h
      exact .early _ (Or.inr rfl) rfl (Or.inr (Or.inr (Or.inr (Or.inl hworker))))
  | enter =>
      simp only [step, Option.ite_none_right_eq_some, Option.map_eq_some_iff] at h
      obtain ⟨hworker, ev, -, rfl⟩ := h
      exact .early _ (Or.inr rfl) rfl (Or.inr (Or.inr (Or.inr (Or.inr hworker))))
  | testQuit =>
      simp only [step, Option.ite_none_right_eq_some, Option.map_eq_some_iff] at h
      obtain ⟨hworker, ev, hev, rfl⟩ := h
      refine .runs .testQuit ev _ hev ?_ (Or.inl hworker) (fun hop => by cases hop) rfl rfl
      cases EventLoop.moves_of_step hev with
      | testQuit hpc => rfl
  | loop op =>
      simp only [step, Option.ite_none_right_eq_some, Option.map_eq_some_iff] at h
      obtain ⟨hrun, ev, hev, rfl⟩ := h
      have hworker : s.worker = .looping ∨ op.own = false := by
        cases op with
        | push | wakeup | quit => exact Or.inr rfl
        | enter | testQuit => cases hrun
        | _ => exact Or.inl (by simpa [mayRun] using hrun)
      refine .runs op ev s.late hev (threads_of_mayRun hrun hev) hworker ?_ rfl rfl
      rintro rfl
      cases hrun
  | clear =>
      simp only [step, Option.ite_none_right_eq_some, Option.some.injEq] at h
      obtain ⟨⟨hworker, -⟩, rfl⟩ := h
      exact .clears hworker
  | finish =>
      simp only [step, Option.ite_none_right_eq_some, Option.some.injEq] at h
      obtain ⟨-, rfl⟩ := h
      exact .finishes

omit [DecidableEq τ] in
/-- The thread has been set up before the request is stored. -/
theorem OnTime.not_early (h : s.OnTime) (hstored : s.stored = true) : ¬ (s.owner = .created ∨
    s.worker = .building ∨ s.worker = .built ∨ s.worker = .published ∨ s.worker = .notified) := by
  rintro (howner | hworker)
  · have hno := h.inv.unstored (by rw [howner]; rfl)
    rw [hstored] at hno
    cases hno
  · rcases h.worker hstored with ⟨hs, -⟩ | hs | hs
    · rw [hs] at hworker
      exact absurd hworker (by decide)
    · rw [hs] at hworker
      exact absurd hworker (by decide)
    · rw [hs] at hworker
      exact absurd hworker (by decide)

theorem onTime_step (h : s.OnTime) (hok : s.InTime op) (hstep : s.step op = some t) :
    t.OnTime := by
  obtain ⟨hreaches, hway⟩ := reaches_step h.inv h.reaches h.onItsWay hok hstep
  refine ⟨inv_step h.inv hstep, hreaches, hway, ?_, ?_⟩
  · cases acts_of_step hstep with
    | owner o missed hop ho hmissed =>
        intro ho
        have hm : missed = true := hmissed ho
        rw [show missed = false from hreaches.1] at hm
        cases hm
    | stores | wakes => exact fun ho => by cases ho
    | early t howner =>
        rcases howner with howner | howner
        · rw [howner]
          decide
        · rw [howner]
          exact h.alive
    | runs | clears | finishes => exact h.alive
  · cases acts_of_step hstep with
    | owner o missed hop ho hmissed => exact fun hs => absurd hs ho
    | stores ev hop hev howner =>
        intro _
        cases EventLoop.moves_of_step hev with
        | quit _ hidle =>
            show Function.update s.ev.threads none .afterQuit none ≠ _
            rw [Function.update_self]
            decide
    | wakes => exact fun ho => by cases ho
    | early t howner hstored hearly =>
        intro ho
        rcases howner with howner | howner
        · rw [howner] at ho
          cases ho
        · exact absurd hearly (h.not_early (h.inv.stored (howner ▸ ho)))
    | runs op' ev late hev hthreads =>
        intro ho
        show ev.threads none ≠ _
        rw [hthreads]
        exact h.waking ho
    | clears | finishes => exact h.waking

/-- A request that has been stored stays so. -/
theorem stored_of_step (hstep : s.step op = some t) (hstored : s.stored = true) :
    t.stored = true := by
  cases acts_of_step hstep with
  | owner | wakes | runs | clears | finishes => exact hstored
  | stores => rfl
  | early t howner hsame => rw [hsame, hstored]

omit [DecidableEq τ] in
theorem endsIn_looping (h : s.worker = .looping) : s.endsIn = s.ev.returnsIn + 2 := by
  unfold endsIn
  rw [h]

omit [DecidableEq τ] in
theorem endsIn_cleared (h : s.worker = .cleared) : s.endsIn = 1 := by
  unfold endsIn
  rw [h]

/-- A step of the loop or of another thread. -/
theorem endsIn_runs {op : LoopOp α (Option τ)} {ev : EventLoop α (Option τ)} (late : Bool)
    (h : s.OnTime) (hstored : s.stored = true) (hnot : s.worker ≠ .finished)
    (hev : s.ev.step op = some ev) (hworker : s.worker = .looping ∨ op.own = false)
    (henter : op ≠ .enter) :
    endsIn { s with ev := ev, late := late } + (if op.own then 1 else 0) ≤
      s.endsIn + op.cost := by
  rcases h.worker hstored with ⟨hlooping, hquit⟩ | hcleared | hfinished
  · rw [endsIn_looping hlooping, endsIn_looping (s := { s with ev := ev, late := late }) hlooping]
    have hless := EventLoop.returnsIn_step hquit henter hev
    show ev.returnsIn + 2 + _ ≤ _
    omega
  · have hforeign : op.own = false := hworker.resolve_left (by rw [hcleared]; decide)
    rw [endsIn_cleared hcleared, endsIn_cleared (s := { s with ev := ev, late := late }) hcleared,
      hforeign]
    exact Nat.le_add_right 1 _
  · exact absurd hfinished hnot

/-- Each step of the worker brings it nearer to its end, and the others take it further away by
what they cost. -/
theorem endsIn_step (h : s.OnTime) (hstored : s.stored = true) (hnot : s.worker ≠ .finished)
    (hstep : s.step op = some t) :
    t.worker = .finished ∨ t.endsIn + (if op.ofWorker then 1 else 0) ≤ s.endsIn + op.cost := by
  cases acts_of_step hstep with
  | owner o missed hop =>
      rw [hop]
      exact Or.inr (Nat.le_add_right s.endsIn _)
  | stores ev hop hev howner =>
      have hno := h.inv.unstored (by rw [howner]; rfl)
      rw [hstored] at hno
      cases hno
  | wakes ev hop hev =>
      rw [hop]
      have hless : endsIn { s with ev := ev, late := s.late } + 0 ≤ s.endsIn + 0 :=
        endsIn_runs s.late h hstored hnot hev (Or.inr rfl) (fun ho => by cases ho)
      exact Or.inr (Nat.le_add_right_of_le hless)
  | early t howner hsame hearly => exact absurd hearly (h.not_early hstored)
  | runs op' ev late hev hthreads hworker henter hop hcost =>
      rw [hop, hcost]
      exact Or.inr (endsIn_runs late h hstored hnot hev hworker henter)
  | clears hworker =>
      refine Or.inr ?_
      rw [endsIn_looping hworker, endsIn_cleared rfl]
      split
      · omega
      · omega
  | finishes => exact Or.inl rfl

omit [DecidableEq τ] in
theorem endsIn_pos (h : s.OnTime) (hstored : s.stored = true) (hnot : s.worker ≠ .finished) :
    0 < s.endsIn := by
  rcases h.worker hstored with ⟨hworker, -⟩ | hworker | hworker
  · rw [endsIn_looping hworker]
    omega
  · rw [endsIn_cleared hworker]
    decide
  · exact absurd hworker hnot

/-- A thread that has ended stays so. -/
theorem finished_of_step (h : s.Inv) (hworker : s.worker = .finished)
    (hstep : s.step op = some t) : t.worker = .finished := by
  cases acts_of_step hstep with
  | owner | stores | wakes | runs => exact hworker
  | early t howner hsame hearly =>
      rcases hearly with hcreated | hearly
      · have habsent := h.created hcreated
        rw [hworker] at habsent
        cases habsent
      · rw [hworker] at hearly
        exact absurd hearly (by decide)
  | clears hlooping =>
      rw [hworker] at hlooping
      cases hlooping
  | finishes => rfl

/-! ## The owner -/

omit [DecidableEq τ] in
/-- Where the owner is once the request has been stored. -/
theorem OnTime.owner (h : s.OnTime) (hstored : s.stored = true) :
    s.owner = .stored ∨ s.owner = .joining ∨ s.owner = .done := by
  have hbefore : s.owner.beforeStore = false := by
    by_contra hearly
    have hno := h.inv.unstored (by simpa using hearly)
    rw [hstored] at hno
    cases hno
  cases howner : s.owner with
  | stored => exact Or.inl rfl
  | joining => exact Or.inr (Or.inl rfl)
  | done => exact Or.inr (Or.inr rfl)
  | crashed => exact absurd howner h.alive
  | created | waiting | started | tested | calling =>
      rw [howner] at hbefore
      cases hbefore

/-- The worker's next step, unless user code on its thread is inside `pushQueue`. -/
theorem exists_workerStep (hworker : s.worker = .looping) :
    ∃ op : LoopThreadOp α τ, (op.ofWorker = true ∨ op = .loop .testWakeup) ∧
      (s.owner ≠ .tested → s.InTime op) ∧ (s.step op).isSome = true := by
  by_cases hout : s.ev.pc = .outside
  · exact ⟨.clear, Or.inl rfl, id, by simp [step, hworker, hout]⟩
  · by_cases htest : s.ev.pc = .test
    · exact ⟨.testQuit, Or.inl rfl, fun _ => trivial, by
        simp [step, EventLoop.step, hworker, htest]⟩
    · obtain ⟨op, hop, hsome⟩ := EventLoop.exists_step s.ev
      have hrun : s.mayRun op = true := by
        cases op with
        | enter => simp [EventLoop.step, hout] at hsome
        | testQuit => simp [EventLoop.step, htest] at hsome
        | push | wakeup | quit => simp [LoopOp.own] at hop
        | _ => simp [mayRun, hworker]
      refine ⟨.loop op, hop.imp_right fun h => by rw [h], fun _ => trivial, ?_⟩
      simp [step, hrun, hsome]

/-- The owner or the worker can make a step that is in time, until the join has returned. -/
theorem OnTime.goesOn (h : s.OnTime) (hstored : s.stored = true) :
    s.owner = .done ∨ ∃ op : LoopThreadOp α τ,
      (op.ofOwner = true ∨ op.ofWorker = true ∨ op = .loop .testWakeup) ∧ s.InTime op ∧
        (s.step op).isSome = true := by
  rcases h.owner hstored with howner | howner | howner
  · -- the loop is still there for the wakeup
    have hloop : s.worker.hasLoop = true := by
      rcases h.worker hstored with ⟨hworker, -⟩ | hworker | hworker
      · rw [hworker]
        rfl
      · rw [hworker]
        rfl
      · exact absurd hworker (h.onItsWay.stored howner)
    refine Or.inr ⟨.wakeup, Or.inl rfl, trivial, ?_⟩
    simp [step, EventLoop.step, howner, hloop, h.waking howner]
  · refine Or.inr ?_
    rcases h.worker hstored with ⟨hworker, -⟩ | hworker | hworker
    · obtain ⟨op, hop, htime, hsome⟩ := exists_workerStep hworker
      exact ⟨op, Or.inr hop, htime (by rw [howner]; decide), hsome⟩
    · refine ⟨.finish, Or.inr (Or.inl rfl), ?_, by simp [step, hworker]⟩
      show s.owner ≠ .calling ∧ s.owner ≠ .stored
      rw [howner]
      decide
    · exact ⟨.join, Or.inl rfl, trivial, by simp [step, howner, hworker]⟩
  · exact Or.inl howner

/-! ## Runs -/

instance (s : EventLoopThread α τ) : (op : LoopThreadOp α τ) → Decidable (s.InTime op)
  | .storeQuit => inferInstanceAs (Decidable (_ ∨ _))
  | .clear => inferInstanceAs (Decidable (_ ≠ _))
  | .finish => inferInstanceAs (Decidable (_ ∧ _))
  | .start | .startReturns | .testLoop | .callQuit | .wakeup | .join | .build | .publish
  | .notify | .enter | .testQuit | .loop _ => isTrue trivial

/-- In whatever state a run in time has come after the store of the request: the worker's thread
has ended after `endsIn` more of its steps and those that the run costs, and the join returns;
and until it has returned the owner or the worker can always go on. -/
theorem run_joins (ops more : List (LoopThreadOp α τ)) {s t : EventLoopThread α τ}
    (hrun : Runs.run step init ops = some s) (hops : Runs.AllSteps step InTime init ops)
    (hmore : Runs.run step s more = some t) (htime : Runs.AllSteps step InTime s more)
    (hstored : s.stored = true) :
    (s.endsIn + Runs.totalCost LoopThreadOp.cost more ≤ more.countP LoopThreadOp.ofWorker →
      t.worker = .finished ∧
        (t.owner = .done ∨ ∃ u, t.step .join = some u ∧ u.owner = .done)) ∧
    (t.owner = .done ∨ ∃ op : LoopThreadOp α τ,
      (op.ofOwner = true ∨ op.ofWorker = true ∨ op = .loop .testWakeup) ∧ t.InTime op ∧
        (t.step op).isSome = true) := by
  have hs : s.OnTime :=
    (Runs.Along.of_steps (P := OnTime) (fun _ _ _ h hok hstep => onTime_step h hok hstep)
      onTime_init hops).final hrun
  have ht : t.OnTime :=
    (Runs.Along.of_steps (P := OnTime) (fun _ _ _ h hok hstep => onTime_step h hok hstep)
      hs htime).final hmore
  have hkept : t.stored = true :=
    Runs.final_of_stays (G := fun u => u.stored = true)
      (fun _ _ _ h hstep => stored_of_step hstep h) hstored hmore
  refine ⟨fun hsteps => ?_, ht.goesOn hkept⟩
  have hend : t.Inv ∧ t.worker = .finished := by
    refine Runs.goal_of_countdown_paid (J := fun u => u.OnTime ∧ u.stored = true)
      (G := fun u => u.Inv ∧ u.worker = .finished) (m := endsIn) (p := LoopThreadOp.ofWorker)
      (fun u op v hu hok hstep => ⟨onTime_step hu.1 hok hstep, stored_of_step hstep hu.2⟩)
      (fun u op v hu hstep => ⟨inv_step hu.1 hstep, finished_of_step hu.1 hu.2 hstep⟩)
      (fun u hu hnot => endsIn_pos hu.1 hu.2 fun hw => hnot ⟨hu.1.inv, hw⟩)
      (fun u op v hu hnot _ hstep => ?_) ⟨hs, hstored⟩ htime hmore hsteps
    exact (endsIn_step hu.1 hu.2 (fun hw => hnot ⟨hu.1.inv, hw⟩) hstep).imp_left
      fun hw => ⟨inv_step hu.1.inv hstep, hw⟩
  refine ⟨hend.2, ?_⟩
  rcases ht.owner hkept with howner | howner | howner
  · exact absurd hend.2 (ht.onItsWay.stored howner)
  · exact Or.inr ⟨_, if_pos ⟨howner, Or.inr hend.2⟩, rfl⟩
  · exact Or.inl howner

/-- The destructor stores its request while the worker polls, and another thread pushes a
function before the loop swaps its queue: the worker calls it and leaves. -/
theorem run_joins_polling :
    let before : List (LoopThreadOp Unit Unit) := [.start, .build, .publish, .notify,
      .startReturns, .enter, .testQuit, .testLoop, .callQuit, .storeQuit]
    let after : List (LoopThreadOp Unit Unit) := [.wakeup, .loop (.push (some ()) ()),
      .loop .pollReturns, .loop .handleWakeup, .loop .handlersDone, .loop .swap, .loop .call,
      .loop .funcReturns, .loop .batchDone, .testQuit, .clear, .finish]
    ∃ s t : EventLoopThread Unit Unit, Runs.run step init before = some s ∧
      Runs.run step s after = some t ∧ t.worker = .finished ∧
      (t.owner = .done ∨ ∃ u, t.step .join = some u ∧ u.owner = .done) := by
  intro before after
  refine ⟨_, _, rfl, rfl, ?_⟩
  exact (run_joins before after rfl (by decide) rfl (by decide) rfl).1 (by decide)

end EventLoopThread

end Lotta
