/-
# EventLoop: the cross-thread task queue

`EventLoop` is one event loop with the threads that use it.  The functions it runs come
from a type `α` and the other threads from a type `τ`.  Every action on data that several
threads see is one step: a push under the mutex, a `wakeup()` (a write of the eventfd),
the read of it in `handleWakeup`, the swap in `doFuncQueue`, a store or a test of `quit_`.

`pushed` and `ran` record the pushes in mutex order and the functions called so far, and
`swapped` the number of pushes at the time of the last swap.
-/
import Lotta.Lib.Fifo
import Lotta.Lib.Runs
import Mathlib.Algebra.Group.Nat.Defs
import Mathlib.Logic.Function.Basic
import Mathlib.Order.Basic

namespace Lotta

/-- Where the loop thread is.  In `handlers` the flag says that `handleWakeup` is among
the callbacks still to be called; in `handlerPushed` and `funcPushed` the loop thread is
inside `pushQueue`, after the push. -/
inductive LoopPc where
  | outside
  | test
  | polling
  | handlers (wake : Bool)
  | handlerPushed (wake : Bool)
  | swapping
  | running
  | inFunc
  | funcPushed
  deriving DecidableEq, Repr

/-- The loop thread is inside `doFuncQueue`. -/
def LoopPc.doing : LoopPc → Bool
  | .swapping => true
  | .running => true
  | .inFunc => true
  | .funcPushed => true
  | _ => false

/-- The loop thread may have functions left to call. -/
def LoopPc.calling : LoopPc → Bool
  | .running => true
  | .inFunc => true
  | .funcPushed => true
  | _ => false

/-- The loop thread will swap the queue, or write the eventfd, before it polls again. -/
def LoopPc.attends : LoopPc → Bool
  | .handlers _ => true
  | .handlerPushed _ => true
  | .swapping => true
  | .funcPushed => true
  | _ => false

/-- Where another thread is with respect to the loop. -/
inductive ThreadPc where
  | idle
  | afterPush
  | afterQuit
  deriving DecidableEq, Repr

/-- The largest value of an eventfd counter; a write that would pass it fails. -/
def maxCounter : ℕ := 2 ^ 64 - 2

/-- An event loop, with its eventfd, its other threads and the record of a run. -/
structure EventLoop (α τ : Type*) where
  quit : Bool
  counter : ℕ
  queue : List α
  doingFuncQueue : Bool
  batch : List α
  pc : LoopPc
  threads : τ → ThreadPc
  pushed : List α
  swapped : ℕ
  ran : List α

/-- The steps.  The first group is the loop thread's: `loop()`, `poll` and the handlers,
`doFuncQueue`, and `pushQueue` and `quit` when a callback or a function calls them.  The
last three are the calls of other threads. -/
inductive LoopOp (α τ : Type*) where
  | enter
  | testQuit
  | pollReturns
  | pollFails
  | handleWakeup
  | handlersDone
  | swap
  | call
  | funcReturns
  | batchDone
  | pushLocal (a : α)
  | testWakeup
  | quitLocal
  | push (t : τ) (a : α)
  | wakeup (t : τ)
  | quit (t : τ)

/-- The function that a step pushes. -/
def LoopOp.pushes {α τ : Type*} : LoopOp α τ → Option α
  | .pushLocal a => some a
  | .push _ a => some a
  | _ => none

namespace EventLoop

variable {α τ : Type*} [DecidableEq τ]

/-- A loop before `loop()` is called, with an empty queue. -/
def init : EventLoop α τ where
  quit := false
  counter := 0
  queue := []
  doingFuncQueue := false
  batch := []
  pc := .outside
  threads := fun _ => .idle
  pushed := []
  swapped := 0
  ran := []

/-- The value of the counter after `wakeup()`. -/
def woken (n : ℕ) : ℕ := if n < maxCounter then n + 1 else n

/-- The push of `pushQueue`, under the mutex. -/
def enqueue (s : EventLoop α τ) (a : α) : EventLoop α τ :=
  { s with queue := s.queue ++ [a], pushed := s.pushed ++ [a] }

/-- The rest of `pushQueue` on the loop thread: a wakeup only while functions run. -/
def wakeupIfDoing (s : EventLoop α τ) : EventLoop α τ :=
  if s.doingFuncQueue then { s with counter := woken s.counter } else s

/-- One step. -/
def step (s : EventLoop α τ) : LoopOp α τ → Option (EventLoop α τ)
  | .enter => if s.pc = .outside then some { s with quit := false, pc := .test } else none
  | .testQuit =>
      if s.pc = .test then some { s with pc := if s.quit then .outside else .polling } else none
  -- a positive counter makes the wakeup channel active
  | .pollReturns =>
      if s.pc = .polling then some { s with pc := .handlers (decide (0 < s.counter)) } else none
  -- `::poll` returns -1: no channel is active
  | .pollFails => if s.pc = .polling then some { s with pc := .handlers false } else none
  | .handleWakeup =>
      if s.pc = .handlers true then some { s with counter := 0, pc := .handlers false } else none
  | .handlersDone =>
      if s.pc = .handlers false then some { s with doingFuncQueue := true, pc := .swapping }
      else none
  | .swap =>
      if s.pc = .swapping then
        some { s with batch := s.queue, queue := [], pc := .running, swapped := s.pushed.length }
      else none
  | .call =>
      match s.pc, s.batch with
      | .running, f :: rest => some { s with batch := rest, ran := s.ran ++ [f], pc := .inFunc }
      | _, _ => none
  | .funcReturns => if s.pc = .inFunc then some { s with pc := .running } else none
  | .batchDone =>
      if s.pc = .running ∧ s.batch.length = 0 then
        some { s with doingFuncQueue := false, pc := .test }
      else none
  | .pushLocal a =>
      match s.pc with
      | .handlers wake => some { s.enqueue a with pc := .handlerPushed wake }
      | .inFunc => some { s.enqueue a with pc := .funcPushed }
      | _ => none
  | .testWakeup =>
      match s.pc with
      | .handlerPushed wake => some { s.wakeupIfDoing with pc := .handlers wake }
      | .funcPushed => some { s.wakeupIfDoing with pc := .inFunc }
      | _ => none
  | .quitLocal =>
      match s.pc with
      | .handlers _ => some { s with quit := true }
      | .inFunc => some { s with quit := true }
      | _ => none
  | .push t a =>
      if s.threads t = .idle then
        some { s.enqueue a with threads := Function.update s.threads t .afterPush }
      else none
  | .wakeup t =>
      if s.threads t = .idle then none
      else some { s with
        counter := woken s.counter, threads := Function.update s.threads t .idle }
  | .quit t =>
      if s.threads t = .idle then
        some { s with quit := true, threads := Function.update s.threads t .afterQuit }
      else none

/-! ## The invariant -/

/-- The functions that have been swapped out of the queue, and those still in it. -/
def fifo (s : EventLoop α τ) : Fifo α := ⟨s.ran ++ s.batch, s.queue⟩

/-- The functions run, the rest of the batch and the queue are the pushes in order; what
has been run or is in the batch was pushed before the last swap, and what has been pushed
since waits for the next one. -/
structure InOrder (s : EventLoop α τ) : Prop where
  order : s.ran ++ s.batch ++ s.queue = s.pushed
  taken : s.ran ++ s.batch = s.pushed.take s.swapped
  waiting : s.queue = s.pushed.drop s.swapped

/-- A function in the queue is noticed: the eventfd can be read, or a thread that has
pushed is about to write it. -/
def Noticed (s : EventLoop α τ) : Prop := 0 < s.counter ∨ ∃ t, s.threads t = .afterPush

/-- What every step keeps. -/
structure Inv (s : EventLoop α τ) : Prop where
  history : s.fifo.history = s.pushed
  taken : s.fifo.taken = s.pushed.take s.swapped
  swapped_le : s.swapped ≤ s.pushed.length
  batch_nil : s.pc.calling = false → s.batch = []
  doing : s.doingFuncQueue = s.pc.doing
  noticed : s.queue ≠ [] → s.Noticed ∨ s.pc.attends = true

omit [DecidableEq τ] in
theorem inv_init : Inv (init : EventLoop α τ) where
  history := rfl
  taken := rfl
  swapped_le := Nat.le_refl _
  batch_nil := fun _ => rfl
  doing := rfl
  noticed := fun h => absurd rfl h

omit [DecidableEq τ] in
theorem Inv.inOrder {s : EventLoop α τ} (h : Inv s) : InOrder s where
  order := h.history
  taken := h.taken
  waiting := by
    have hhist : s.fifo.taken ++ s.queue = s.pushed := h.history
    have hlen : s.fifo.taken.length = s.swapped := by
      rw [h.taken, List.length_take, Nat.min_eq_left h.swapped_le]
    rw [← hhist, ← hlen, List.drop_left]

/-- A write of the eventfd makes it readable. -/
theorem woken_pos (n : ℕ) : 0 < woken n := by
  rw [woken]
  by_cases h : n < maxCounter
  · rw [if_pos h]
    omega
  · rw [if_neg h]
    simp only [maxCounter] at h
    omega

section Steps

variable {s t : EventLoop α τ} {op : LoopOp α τ}

omit [DecidableEq τ] in
/-- `wakeup()` changes the counter only. -/
theorem wakeupIfDoing_eq (s : EventLoop α τ) :
    ∃ n, s.wakeupIfDoing = { s with counter := n } := by
  rw [wakeupIfDoing]
  split
  · exact ⟨_, rfl⟩
  · exact ⟨s.counter, rfl⟩

/-- The steps as a relation: where each can be made, and what it changes. -/
inductive Moves (s : EventLoop α τ) : LoopOp α τ → EventLoop α τ → Prop where
  | enter (hpc : s.pc = .outside) : Moves s .enter { s with quit := false, pc := .test }
  | testQuit (hpc : s.pc = .test) :
      Moves s .testQuit { s with pc := if s.quit then .outside else .polling }
  | pollReturns (hpc : s.pc = .polling) :
      Moves s .pollReturns { s with pc := .handlers (decide (0 < s.counter)) }
  | pollFails (hpc : s.pc = .polling) : Moves s .pollFails { s with pc := .handlers false }
  | handleWakeup (hpc : s.pc = .handlers true) :
      Moves s .handleWakeup { s with counter := 0, pc := .handlers false }
  | handlersDone (hpc : s.pc = .handlers false) :
      Moves s .handlersDone { s with doingFuncQueue := true, pc := .swapping }
  | swap (hpc : s.pc = .swapping) :
      Moves s .swap { s with
        batch := s.queue, queue := [], pc := .running, swapped := s.pushed.length }
  | call (f : α) (rest : List α) (hpc : s.pc = .running) (hbatch : s.batch = f :: rest) :
      Moves s .call { s with batch := rest, ran := s.ran ++ [f], pc := .inFunc }
  | funcReturns (hpc : s.pc = .inFunc) : Moves s .funcReturns { s with pc := .running }
  | batchDone (hpc : s.pc = .running) (hbatch : s.batch = []) :
      Moves s .batchDone { s with doingFuncQueue := false, pc := .test }
  | pushInHandler (a : α) (wake : Bool) (hpc : s.pc = .handlers wake) :
      Moves s (.pushLocal a) { s.enqueue a with pc := .handlerPushed wake }
  | pushInFunc (a : α) (hpc : s.pc = .inFunc) :
      Moves s (.pushLocal a) { s.enqueue a with pc := .funcPushed }
  | backInHandler (wake : Bool) (hpc : s.pc = .handlerPushed wake) :
      Moves s .testWakeup { s.wakeupIfDoing with pc := .handlers wake }
  | backInFunc (hpc : s.pc = .funcPushed) :
      Moves s .testWakeup { s.wakeupIfDoing with pc := .inFunc }
  | quitInHandler (wake : Bool) (hpc : s.pc = .handlers wake) :
      Moves s .quitLocal { s with quit := true }
  | quitInFunc (hpc : s.pc = .inFunc) : Moves s .quitLocal { s with quit := true }
  | push (u : τ) (a : α) (hidle : s.threads u = .idle) :
      Moves s (.push u a) { s.enqueue a with threads := Function.update s.threads u .afterPush }
  | wakeup (u : τ) (hbusy : s.threads u ≠ .idle) :
      Moves s (.wakeup u) { s with
        counter := woken s.counter, threads := Function.update s.threads u .idle }
  | quit (u : τ) (hidle : s.threads u = .idle) :
      Moves s (.quit u) { s with
        quit := true, threads := Function.update s.threads u .afterQuit }

theorem moves_of_step (h : s.step op = some t) : Moves s op t := by
  cases op with
  | enter =>
      simp only [step, Option.ite_none_right_eq_some, Option.some.injEq] at h
      obtain ⟨hpc, rfl⟩ := h
      exact .enter hpc
  | testQuit =>
      simp only [step, Option.ite_none_right_eq_some, Option.some.injEq] at h
      obtain ⟨hpc, rfl⟩ := h
      exact .testQuit hpc
  | pollReturns =>
      simp only [step, Option.ite_none_right_eq_some, Option.some.injEq] at h
      obtain ⟨hpc, rfl⟩ := h
      exact .pollReturns hpc
  | pollFails =>
      simp only [step, Option.ite_none_right_eq_some, Option.some.injEq] at h
      obtain ⟨hpc, rfl⟩ := h
      exact .pollFails hpc
  | handleWakeup =>
      simp only [step, Option.ite_none_right_eq_some, Option.some.injEq] at h
      obtain ⟨hpc, rfl⟩ := h
      exact .handleWakeup hpc
  | handlersDone =>
      simp only [step, Option.ite_none_right_eq_some, Option.some.injEq] at h
      obtain ⟨hpc, rfl⟩ := h
      exact .handlersDone hpc
  | swap =>
      simp only [step, Option.ite_none_right_eq_some, Option.some.injEq] at h
      obtain ⟨hpc, rfl⟩ := h
      exact .swap hpc
  | call =>
      simp only [step] at h
      split at h
      · rename_i f rest hpc hbatch
        obtain rfl := Option.some.inj h
        exact .call f rest hpc hbatch
      · cases h
  | funcReturns =>
      simp only [step, Option.ite_none_right_eq_some, Option.some.injEq] at h
      obtain ⟨hpc, rfl⟩ := h
      exact .funcReturns hpc
  | batchDone =>
      simp only [step, Option.ite_none_right_eq_some, Option.some.injEq] at h
      obtain ⟨⟨hpc, hlen⟩, rfl⟩ := h
      exact .batchDone hpc (List.eq_nil_of_length_eq_zero hlen)
  | pushLocal a =>
      simp only [step] at h
      split at h
      · rename_i wake hpc
        obtain rfl := Option.some.inj h
        exact .pushInHandler a wake hpc
      · rename_i hpc
        obtain rfl := Option.some.inj h
        exact .pushInFunc a hpc
      · cases h
  | testWakeup =>
      simp only [step] at h
      split at h
      · rename_i wake hpc
        obtain rfl := Option.some.inj h
        exact .backInHandler wake hpc
      · rename_i hpc
        obtain rfl := Option.some.inj h
        exact .backInFunc hpc
      · cases h
  | quitLocal =>
      simp only [step] at h
      split at h
      · rename_i wake hpc
        obtain rfl := Option.some.inj h
        exact .quitInHandler wake hpc
      · rename_i hpc
        obtain rfl := Option.some.inj h
        exact .quitInFunc hpc
      · cases h
  | push u a =>
      simp only [step, Option.ite_none_right_eq_some, Option.some.injEq] at h
      obtain ⟨hidle, rfl⟩ := h
      exact .push u a hidle
  | wakeup u =>
      simp only [step, Option.ite_none_left_eq_some, Option.some.injEq] at h
      obtain ⟨hbusy, rfl⟩ := h
      exact .wakeup u hbusy
  | quit u =>
      simp only [step, Option.ite_none_right_eq_some, Option.some.injEq] at h
      obtain ⟨hidle, rfl⟩ := h
      exact .quit u hidle

/-- What a step does: it moves a thread on, and it may push, swap or call.  A thread that
moves on leaves the queue noticed if it was, and keeps the flag true to its place. -/
inductive Stepped (s : EventLoop α τ) (op : LoopOp α τ) : EventLoop α τ → Prop where
  | went (quit doing : Bool) (counter : ℕ) (pc : LoopPc) (threads : τ → ThreadPc)
      (hpush : op.pushes = none)
      (hcalling : pc.calling = false → s.pc.calling = false ∨ s.batch = [])
      (hdoing : s.doingFuncQueue = s.pc.doing → doing = pc.doing)
      (hnoticed : s.doingFuncQueue = s.pc.doing → s.Noticed ∨ s.pc.attends = true →
        Noticed { s with counter := counter, threads := threads } ∨ pc.attends = true) :
      Stepped s op { s with
        quit := quit, doingFuncQueue := doing, counter := counter, pc := pc, threads := threads }
  | pushed (a : α) (pc : LoopPc) (threads : τ → ThreadPc) (hpush : op.pushes = some a)
      (hcalling : pc.calling = s.pc.calling) (hdoing : pc.doing = s.pc.doing)
      (hnoticed : (∃ t, threads t = .afterPush) ∨ pc.attends = true) :
      Stepped s op { s.enqueue a with pc := pc, threads := threads }
  | swapped (hpc : s.pc = .swapping) :
      Stepped s op { s with
        batch := s.queue, queue := [], pc := .running, swapped := s.pushed.length }
  | called (f : α) (rest : List α) (hpc : s.pc = .running) (hbatch : s.batch = f :: rest) :
      Stepped s op { s with batch := rest, ran := s.ran ++ [f], pc := .inFunc }

omit [DecidableEq τ] in
/-- The loop thread goes to another place from which it attends to the queue as well. -/
theorem stepped_goto {quit : Bool} {pc : LoopPc} (hpush : op.pushes = none)
    (hcalling : pc.calling = s.pc.calling) (hdoing : pc.doing = s.pc.doing)
    (hattends : s.pc.attends = true → pc.attends = true) :
    Stepped s op { s with quit := quit, pc := pc } :=
  Stepped.went quit s.doingFuncQueue s.counter pc s.threads hpush
    (fun hc => Or.inl (hcalling ▸ hc)) (fun hd => hd.trans hdoing.symm)
    fun _ hn => hn.imp_right hattends

omit [DecidableEq τ] in
/-- The loop thread goes on behind `pushQueue`: it has written the eventfd, or it is in a
handler, before the next swap. -/
theorem stepped_wakeupIfDoing {pc : LoopPc} (hpush : op.pushes = none)
    (hcalling : pc.calling = s.pc.calling) (hdoing : pc.doing = s.pc.doing)
    (hattends : s.pc.doing = false → pc.attends = true) :
    Stepped s op { s.wakeupIfDoing with pc := pc } := by
  have hbatch : pc.calling = false → s.pc.calling = false ∨ s.batch = [] :=
    fun hc => Or.inl (hcalling ▸ hc)
  rw [wakeupIfDoing]
  split
  · exact Stepped.went s.quit s.doingFuncQueue (woken s.counter) pc s.threads hpush hbatch
      (fun hd => hd.trans hdoing.symm) fun _ _ => Or.inl (Or.inl (woken_pos _))
  · rename_i hdo
    refine Stepped.went s.quit s.doingFuncQueue s.counter pc s.threads hpush hbatch
      (fun hd => hd.trans hdoing.symm) fun hd _ => Or.inr (hattends ?_)
    rw [← hd]
    simpa using hdo

/-- The cases of a step. -/
theorem stepped_of_step (h : s.step op = some t) : Stepped s op t := by
  cases moves_of_step h with
  | enter hpc =>
      exact stepped_goto rfl (by rw [hpc]; rfl) (by rw [hpc]; rfl) (by rw [hpc]; exact nofun)
  | testQuit hpc =>
      cases hq : s.quit <;>
        exact stepped_goto rfl (by rw [hpc]; rfl) (by rw [hpc]; rfl) (by rw [hpc]; exact nofun)
  | pollReturns hpc =>
      exact stepped_goto rfl (by rw [hpc]; rfl) (by rw [hpc]; rfl) fun _ => rfl
  | pollFails hpc =>
      exact stepped_goto rfl (by rw [hpc]; rfl) (by rw [hpc]; rfl) fun _ => rfl
  | handleWakeup hpc =>
      -- the eventfd is read before the queue is swapped
      exact Stepped.went s.quit s.doingFuncQueue 0 (.handlers false) s.threads rfl
        (fun _ => Or.inl (by rw [hpc]; rfl)) (fun hd => by rw [hd, hpc]; rfl)
        fun _ _ => Or.inr rfl
  | handlersDone hpc =>
      exact Stepped.went s.quit true s.counter .swapping s.threads rfl
        (fun _ => Or.inl (by rw [hpc]; rfl)) (fun _ => rfl) fun _ _ => Or.inr rfl
  | swap hpc => exact Stepped.swapped hpc
  | call f rest hpc hbatch => exact Stepped.called f rest hpc hbatch
  | funcReturns hpc =>
      exact stepped_goto rfl (by rw [hpc]; rfl) (by rw [hpc]; rfl) (by rw [hpc]; exact nofun)
  | batchDone hpc hbatch =>
      exact Stepped.went s.quit false s.counter .test s.threads rfl
        (fun _ => Or.inr hbatch) (fun _ => rfl)
        fun _ hn => hn.imp_right (by rw [hpc]; exact nofun)
  | pushInHandler a wake hpc =>
      exact Stepped.pushed a _ s.threads rfl (by rw [hpc]; rfl) (by rw [hpc]; rfl) (Or.inr rfl)
  | pushInFunc a hpc =>
      exact Stepped.pushed a _ s.threads rfl (by rw [hpc]; rfl) (by rw [hpc]; rfl) (Or.inr rfl)
  | backInHandler wake hpc =>
      -- the swap is still to come
      exact stepped_wakeupIfDoing rfl (by rw [hpc]; rfl) (by rw [hpc]; rfl) fun _ => rfl
  | backInFunc hpc =>
      exact stepped_wakeupIfDoing rfl (by rw [hpc]; rfl) (by rw [hpc]; rfl)
        (by rw [hpc]; exact nofun)
  | quitInHandler => exact stepped_goto rfl rfl rfl id
  | quitInFunc => exact stepped_goto rfl rfl rfl id
  | push u a => exact Stepped.pushed a s.pc _ rfl rfl rfl (Or.inl ⟨u, Function.update_self ..⟩)
  | wakeup u =>
      exact Stepped.went s.quit s.doingFuncQueue _ s.pc _ rfl Or.inl id
        fun _ _ => Or.inl (Or.inl (woken_pos _))
  | quit u hidle =>
      refine Stepped.went true s.doingFuncQueue s.counter s.pc _ rfl Or.inl id fun _ hn => ?_
      -- a thread between its push and its wakeup is not the one that calls `quit`
      refine hn.imp_left (Or.imp_right fun ⟨v, hv⟩ => ⟨v, (Function.update_of_ne ?_ _ _).trans hv⟩)
      rintro rfl
      rw [hidle] at hv
      cases hv

/-! ## Every step keeps the invariant -/

omit [DecidableEq τ] in
/-- A push keeps the order. -/
theorem Inv.enqueue (h : Inv s) (a : α) {pc : LoopPc} {threads : τ → ThreadPc}
    (hcalling : pc.calling = s.pc.calling) (hdoing : pc.doing = s.pc.doing)
    (hnoticed : (∃ t, threads t = .afterPush) ∨ pc.attends = true) :
    Inv { s.enqueue a with pc := pc, threads := threads } where
  history := by
    show (s.fifo.push [a]).history = s.pushed ++ [a]
    rw [Fifo.history_push, h.history]
  taken := by
    show s.fifo.taken = (s.pushed ++ [a]).take s.swapped
    rw [List.take_append_of_le_length h.swapped_le]
    exact h.taken
  swapped_le := Nat.le_trans h.swapped_le (by
    show s.pushed.length ≤ (s.pushed ++ [a]).length
    rw [List.length_append]
    exact Nat.le_add_right _ _)
  batch_nil := fun hc => h.batch_nil (hcalling ▸ hc)
  doing := h.doing.trans hdoing.symm
  noticed := fun _ => hnoticed.imp_left Or.inr

omit [DecidableEq τ] in
/-- The swap: the whole queue becomes the batch. -/
theorem Inv.swap (h : Inv s) (hpc : s.pc = .swapping) :
    Inv { s with batch := s.queue, queue := [], pc := .running, swapped := s.pushed.length } := by
  have hbatch : s.batch = [] := h.batch_nil (by rw [hpc]; rfl)
  have hhist : s.ran ++ s.queue = s.pushed := by
    have hall : s.ran ++ s.batch ++ s.queue = s.pushed := h.history
    rwa [hbatch, List.append_nil] at hall
  refine ⟨?_, ?_, Nat.le_refl _, nofun, ?_, fun hq => absurd rfl hq⟩
  · show s.ran ++ s.queue ++ [] = s.pushed
    rw [List.append_nil, hhist]
  · show s.ran ++ s.queue = s.pushed.take s.pushed.length
    rw [List.take_length, hhist]
  · show s.doingFuncQueue = _
    rw [h.doing, hpc]
    rfl

omit [DecidableEq τ] in
/-- A call: the function moves from the batch to those that have run. -/
theorem Inv.call (h : Inv s) (hpc : s.pc = .running) {f : α} {rest : List α}
    (hbatch : s.batch = f :: rest) :
    Inv { s with batch := rest, ran := s.ran ++ [f], pc := .inFunc } := by
  have htaken : s.ran ++ [f] ++ rest = s.ran ++ s.batch := by rw [hbatch]; simp
  refine ⟨?_, htaken.trans h.taken, h.swapped_le, nofun, ?_, ?_⟩
  · show s.ran ++ [f] ++ rest ++ s.queue = s.pushed
    rw [htaken]
    exact h.history
  · show s.doingFuncQueue = _
    rw [h.doing, hpc]
    rfl
  · intro hq
    refine Or.inl ((h.noticed hq).resolve_right ?_)
    rw [hpc]
    exact nofun

/-- Every step keeps the invariant. -/
theorem inv_step (h : Inv s) (hstep : s.step op = some t) : Inv t := by
  cases stepped_of_step hstep with
  | went quit doing counter pc threads hpush hcalling hdoing hnoticed =>
      exact ⟨h.history, h.taken, h.swapped_le,
        fun hc => (hcalling hc).elim h.batch_nil id, hdoing h.doing,
        fun hq => hnoticed h.doing (h.noticed hq)⟩
  | pushed a pc threads hpush hcalling hdoing hnoticed =>
      exact h.enqueue a hcalling hdoing hnoticed
  | swapped hpc => exact h.swap hpc
  | called f rest hpc hbatch => exact h.call hpc hbatch

/-- A function that waits after a step waited before it or is pushed by it. -/
theorem mem_of_step (hstep : s.step op = some t) {a : α} (ha : a ∈ t.batch ∨ a ∈ t.queue) :
    (a ∈ s.batch ∨ a ∈ s.queue) ∨ op.pushes = some a := by
  cases stepped_of_step hstep with
  | went => exact Or.inl ha
  | pushed b pc threads hpush =>
      simp only [enqueue, List.mem_append, List.mem_singleton] at ha
      rcases ha with hbatch | hqueue | rfl
      · exact Or.inl (Or.inl hbatch)
      · exact Or.inl (Or.inr hqueue)
      · exact Or.inr hpush
  | swapped hpc => exact Or.inl (Or.inr (ha.resolve_right List.not_mem_nil))
  | called f rest hpc hbatch =>
      rw [hbatch]
      exact Or.inl (ha.imp_left (List.mem_cons_of_mem f))

/-- What waits after a step other than a call: what waited before it, and what it pushes. -/
theorem waiting_of_step (h : Inv s) (hop : op ≠ .call) (hstep : s.step op = some t) :
    t.batch ++ t.queue = s.batch ++ s.queue ++ op.pushes.toList := by
  cases moves_of_step hstep with
  | call => exact absurd rfl hop
  | swap hpc =>
      rw [h.batch_nil (by rw [hpc]; rfl)]
      exact (List.append_nil _).trans (List.append_nil _).symm
  | pushInHandler a | pushInFunc a | push u a => exact (List.append_assoc _ _ _).symm
  | backInHandler | backInFunc =>
      obtain ⟨n, hn⟩ := wakeupIfDoing_eq s
      rw [hn]
      exact (List.append_nil _).symm
  | _ => exact (List.append_nil _).symm

/-- A call takes the first function of the batch. -/
theorem batch_of_call (hstep : s.step .call = some t) :
    ∃ f, s.batch = f :: t.batch ∧ t.queue = s.queue := by
  cases moves_of_step hstep with
  | call f rest hpc hbatch => exact ⟨f, hbatch, rfl⟩

end Steps

/-! ## Runs -/

/-- In every state of every run the functions run, the batch and the queue are the
pushes in order, and when the loop is in `poll` with a function in the queue, the eventfd
is readable or a thread is about to write it. -/
theorem run_inOrder_noticed (ops : List (LoopOp α τ)) :
    Runs.Along step
      (fun s => InOrder s ∧ (s.pc = .polling → s.queue ≠ [] → Noticed s)) init ops := by
  refine (Runs.Along.of_invariant (fun _ _ _ hs h => inv_step hs h) inv_init).mono ?_
  intro s hs
  -- a loop thread in `poll` does not attend to the queue by itself
  refine ⟨hs.inOrder, fun hpc hq => (hs.noticed hq).resolve_right ?_⟩
  rw [hpc]
  decide

end EventLoop

end Lotta
