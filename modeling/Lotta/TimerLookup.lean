/-
# Finding a timer

`cancelTask` and `resetTimers` look a timer up by a deadline: `findTimer` searches the
entries with that key for the timer itself.  The deadline is stored in the entry and in the
timer, and `restart` moves the second one.  The lookup works because a timer is restarted
only while it is not in `timers_`; `Findable` is what follows, in every state of every run.
-/
import Lotta.TimerCancel

namespace Lotta

namespace TimerQueue

variable {ι : Type*} [DecidableEq ι]

/-- `findTimer` is a search for the timer in the entries with its deadline. -/
theorem findTimer_eq_any (timers : Multimap ℤ ι) (e : ℤ × ι) :
    findTimer timers e = (timers.equalRange e.1).any fun item => item.2 = e.2 := by
  rw [findTimer, Bool.eq_iff_iff, decide_eq_true_iff, List.any_eq_true]
  constructor
  · intro he
    exact ⟨e, Multimap.mem_equalRange.mpr ⟨he, rfl⟩, decide_eq_true rfl⟩
  · rintro ⟨item, hitem, hvalue⟩
    obtain ⟨hmem, hkey⟩ := Multimap.mem_equalRange.mp hitem
    rw [← Prod.ext hkey (of_decide_eq_true hvalue)]
    exact hmem

/-- What `cancelTask` erases is what the search has found. -/
theorem cancelTask_found {q : TimerQueue ι} {i : ι}
    (h : findTimer q.timers ((q.timer i).when, i) = true) :
    (q.cancelTask i).timers.entries = q.timers.belowBound (q.timer i).when ++
      ((q.timers.equalRange (q.timer i).when).eraseP (fun item => item.2 = i) ++
        q.timers.aboveRange (q.timer i).when) := by
  rw [cancelTask, if_pos h, ← Multimap.entries_erase]

end TimerQueue

namespace TimerRun

variable {ι : Type*} [DecidableEq ι] {s t : TimerRun ι}

/-- Every timer that waits can be found, and so can those of the batch that have been
cancelled. -/
structure Findable (s : TimerRun ι) : Prop where
  keyed : ∀ e ∈ s.q.timers.entries, e.1 = (s.q.timer e.2).when
  once : (s.q.timers.entries.map Prod.snd).Nodup
  apart : ∀ e ∈ s.q.timers.entries, ∀ f ∈ s.q.expired, e.2 ≠ f.2
  marked : ∀ e ∈ s.q.expired, e.2 ∈ s.cancelled →
    TimerQueue.findTimer s.q.cancelledTimers e = true ∧
      ∀ t, s.step .resetTimers = some t → ∀ f ∈ t.q.timers.entries, f.2 ≠ e.2
  cancels : ∀ e ∈ s.q.timers.entries,
    s.q.cancelTask e.2 = { s.q with timers := (s.q.cancelTask e.2).timers } ∧
      (s.q.cancelTask e.2).timers.entries = s.q.timers.entries.filter fun f => f.2 ≠ e.2

/-- The entries of the other timers are what is left when an entry is erased. -/
theorem erase_eq_filter_value {l : List (ℤ × ι)} (h : (l.map Prod.snd).Nodup) {e : ℤ × ι}
    (he : e ∈ l) : l.erase e = l.filter fun f => f.2 ≠ e.2 := by
  rw [(List.Nodup.of_map Prod.snd h).erase_eq_filter]
  refine List.filter_congr fun f hf => ?_
  rw [Bool.eq_iff_iff, bne_iff_ne, decide_eq_true_iff]
  exact not_congr ⟨fun hfe => hfe ▸ rfl, fun hfe => List.inj_on_of_nodup_map h hf he hfe⟩

/-- A timer of the batch that has been cancelled does not go back into `timers_`. -/
theorem CancelInv.not_restarted (h : s.CancelInv) {e : ℤ × ι} (he : e.2 ∈ s.cancelled)
    (hstep : s.step .resetTimers = some t) : ∀ f ∈ t.q.timers.entries, f.2 ≠ e.2 := by
  obtain ⟨hinv, hturned⟩ := cancel_of_step h hstep
  have hcancelled : t.cancelled = s.cancelled := by
    obtain ⟨-, q, -, rfl⟩ := exists_of_step hstep
    exact (foldl_restartTurn_frame s.q.expired s).2.1
  intro f hf hfe
  refine hinv.gone f hf ?_
  rw [hcancelled, hfe]
  exact he

/-- What every step keeps contains that the timers are found. -/
theorem CancelInv.findable (h : s.CancelInv) : s.Findable := by
  have hdistinct := h.run.distinct
  rw [List.map_append, List.nodup_append] at hdistinct
  have hkeyed : ∀ e ∈ s.q.timers.entries, e.1 = (s.q.timer e.2).when := fun e he =>
    (h.run.filed e (List.mem_append_left _ he)).key
  refine ⟨hkeyed, hdistinct.1, ?_, ?_, ?_⟩
  · intro e he f hf
    exact hdistinct.2.2 e.2 (List.mem_map_of_mem he) f.2 (List.mem_map_of_mem hf)
  · intro e he hmem
    exact ⟨decide_eq_true (h.marked e he hmem), fun t hstep => h.not_restarted hmem hstep⟩
  · intro e he
    have heq : ((s.q.timer e.2).when, e.2) = e := by rw [← hkeyed e he]
    rw [cancelTask_waiting (heq.symm ▸ he), heq]
    exact ⟨rfl, erase_eq_filter_value hdistinct.1 he⟩

/-- In every state of every run each timer that waits is found under its deadline, and a
cancellation removes it alone; and a timer of the batch that has been cancelled is found
under the deadline it expired with, and is not restarted. -/
theorem run_findable (asserts : Bool) (timer : ι → Timer) (clock : ℤ) (ops : List (TimerOp ι)) :
    Runs.Along step Findable (init asserts timer clock) ops :=
  (Runs.Along.of_invariant (fun _ _ _ h hstep => (cancel_of_step h hstep).1)
    (cancelInv_init asserts timer clock)).mono fun _ h => h.findable

/- Of three timers with equal deadlines the second is cancelled. -/
example :
    ((Runs.run step (init true (fun _ : Fin 3 => ⟨10, 0, false⟩) 0)
      [.addTask 0, .addTask 1, .addTask 2, .cancelTask 1]).map fun s =>
        s.q.timers.entries) = some [(10, 0), (10, 2)] := by
  decide

end TimerRun

end Lotta
