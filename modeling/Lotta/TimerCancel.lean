/-
# Cancellation of timers

A callback of a timer should not be started once `cancelTask` has run for it.  A timer that
waits is erased from `timers_`, and a timer of the batch is remembered in
`cancelledTimers_`, which `resetTimers` consults before it restarts a timer.  The loop of
`handleTimer` that starts the callbacks does not consult it: a timer that a callback of the
batch cancels before its own turn is still run.

The condition of `run_cancel` is on the calls of `cancelTask`.  The damage shows only when
the turn of the cancelled timer comes, so the converse is about runs that end between the
calls of `handleTimer`.
-/
import Lotta.TimerRun
import Mathlib.Data.List.Nodup

namespace Lotta

namespace TimerQueue

variable {ι : Type*}

/-- The timers of the batch whose callback has not been started. -/
def rest (q : TimerQueue ι) : List (ℤ × ι) := q.batch.elim [] Batch.rest

end TimerQueue

namespace TimerRun

variable {ι : Type*} [DecidableEq ι]

omit [DecidableEq ι] in
/-- No callback has been started for a cancelled timer. -/
def Effective (s : TimerRun ι) : Prop := ∀ f ∈ s.fired, f.cancelled = false

omit [DecidableEq ι] in
instance (s : TimerRun ι) : Decidable s.Effective := inferInstanceAs (Decidable (∀ _ ∈ _, _))

/-- The condition on a step: `cancelTask` does not run for a timer of the batch whose
callback is still to be started. -/
def CancelsStarted (s : TimerRun ι) : TimerOp ι → Prop
  | .cancelTask i => ∀ e ∈ s.q.rest, e.2 ≠ i
  | _ => True

/-- A cancelled timer will be run. -/
def Doomed (s : TimerRun ι) : Prop := ∃ e ∈ s.q.rest, e.2 ∈ s.cancelled

/-! ## The invariant -/

/-- What every step keeps: a cancelled timer is not in `timers_`, and in the batch it is
marked, so it will not be restarted. -/
structure CancelInv (s : TimerRun ι) : Prop where
  run : s.RunInv
  doing : s.q.batch ≠ none → s.q.doingTimerCallback = true
  added : ∀ i ∈ s.cancelled, i ∈ s.added
  gone : ∀ e ∈ s.q.timers.entries, e.2 ∉ s.cancelled
  marked : ∀ e ∈ s.q.expired, e.2 ∈ s.cancelled → e ∈ s.q.cancelledTimers.entries

variable {s t : TimerRun ι}

theorem cancelInv_init (asserts : Bool) (timer : ι → Timer) (clock : ℤ) :
    CancelInv (init asserts timer clock) where
  run := .idle rfl (holds_init asserts timer clock)
  doing := fun h => absurd rfl h
  added := nofun
  gone := nofun
  marked := nofun

/-- The queue holds each timer once, under its deadline. -/
theorem RunInv.holds (h : s.RunInv) :
    ∃ started rest, s.q.expired = started ++ rest ∧ s.Holds started rest := by
  cases h with
  | idle hbatch hs =>
      refine ⟨[], [], ?_, hs⟩
      rw [TimerQueue.expired, hbatch]
      rfl
  | inBatch now started rest hbatch hs =>
      refine ⟨started, rest, ?_, hs⟩
      rw [TimerQueue.expired, hbatch]
      rfl

theorem RunInv.filed (h : s.RunInv) : ∀ e ∈ s.q.timers.entries ++ s.q.expired, s.Filed e := by
  obtain ⟨started, rest, hexpired, hs⟩ := h.holds
  rw [hexpired]
  exact hs.filed

theorem RunInv.distinct (h : s.RunInv) :
    ((s.q.timers.entries ++ s.q.expired).map Prod.snd).Nodup := by
  obtain ⟨started, rest, hexpired, hs⟩ := h.holds
  rw [hexpired]
  exact hs.distinct

/-- What is left to start is part of the batch. -/
theorem RunInv.rest_subset (h : s.RunInv) : ∀ e ∈ s.q.rest, e ∈ s.q.expired := by
  cases h with
  | idle hbatch =>
      rw [TimerQueue.rest, hbatch]
      exact nofun
  | inBatch now started rest hbatch =>
      rw [TimerQueue.rest, TimerQueue.expired, hbatch]
      exact fun e he => List.mem_append_right started he

/-! ## What a step does -/

/-- What a step does to the batch, the cancellations and the callbacks. -/
inductive Turned (s : TimerRun ι) (op : TimerOp ι) (t : TimerRun ι) : Prop where
  | kept (hok : s.CancelsStarted op) (hfired : t.fired = s.fired)
      (hcancelled : t.cancelled = s.cancelled) (hrest : t.q.rest = s.q.rest)
  | cancelled (i : ι) (hok : s.CancelsStarted op ↔ ∀ e ∈ s.q.rest, e.2 ≠ i)
      (hfired : t.fired = s.fired) (hcancelled : t.cancelled = i :: s.cancelled)
      (hrest : t.q.rest = s.q.rest)
  | turned (hok : s.CancelsStarted op) (hfired : t.fired = s.fired)
      (hcancelled : t.cancelled = s.cancelled) (hbefore : s.q.rest = [])
      (hrest : ∀ e ∈ t.q.rest, e.2 ∉ s.cancelled)
  | fired (e : ℤ × ι) (b : Batch ι) (hok : s.CancelsStarted op)
      (hfired : t.fired = s.fired ++ [s.firing b e.2])
      (hcancelled : t.cancelled = s.cancelled) (hrest : s.q.rest = e :: t.q.rest)

/-- `cancelTask` for a timer that waits. -/
theorem cancelTask_waiting {q : TimerQueue ι} {i : ι}
    (h : ((q.timer i).when, i) ∈ q.timers.entries) :
    q.cancelTask i = { q with timers := q.timers.erase ((q.timer i).when, i) } := by
  rw [TimerQueue.cancelTask, if_pos (show TimerQueue.findTimer _ _ = true from decide_eq_true h)]

/-- `cancelTask` for a timer that does not wait. -/
theorem cancelTask_notWaiting {q : TimerQueue ι} {i : ι}
    (h : ((q.timer i).when, i) ∉ q.timers.entries) :
    q.cancelTask i = if q.doingTimerCallback then
      { q with cancelledTimers := q.cancelledTimers.insert (q.timer i).when i } else q := by
  rw [TimerQueue.cancelTask, if_neg (by simpa [TimerQueue.findTimer] using h)]

/-- `cancelTask` for a timer that the queue holds. -/
theorem CancelInv.cancel (h : s.CancelInv) {i : ι} (hi : s.q.Holds i) :
    let t := { s with q := s.q.cancelTask i, cancelled := i :: s.cancelled }
    (∀ i ∈ t.cancelled, i ∈ t.added) ∧ (∀ e ∈ t.q.timers.entries, e.2 ∉ t.cancelled) ∧
      ∀ e ∈ s.q.expired, e.2 ∈ t.cancelled → e ∈ t.q.cancelledTimers.entries := by
  intro t
  obtain ⟨e, he, rfl⟩ := List.mem_map.mp hi
  obtain ⟨hkey, hadded, -⟩ := h.run.filed e he
  have hdistinct := h.run.distinct
  have heq : ((s.q.timer e.2).when, e.2) = e := by rw [← hkey]
  have hunique : ∀ f ∈ s.q.timers.entries ++ s.q.expired, f.2 = e.2 → f = e := by
    intro f hf hfe
    refine Prod.ext ?_ hfe
    rw [(h.run.filed f hf).key, hfe, ← hkey]
  refine ⟨List.forall_mem_cons.mpr ⟨hadded, h.added⟩, ?_⟩
  rw [List.map_append, List.nodup_append] at hdistinct
  rcases List.mem_append.mp he with hwait | hbatch
  · -- the entry is erased, and the timer has no other
    have hq : t.q = { s.q with timers := s.q.timers.erase e } := by
      show s.q.cancelTask e.2 = _
      rw [cancelTask_waiting (heq.symm ▸ hwait), heq]
    rw [hq]
    constructor
    · intro f hf hmem
      have hf' := Multimap.mem_of_mem_erase hf
      rcases List.mem_cons.mp hmem with hfe | hmem
      · rw [hunique f (List.mem_append_left _ hf') hfe] at hf
        exact (List.Nodup.of_map Prod.snd hdistinct.1).not_mem_erase hf
      · exact h.gone f hf' hmem
    · intro f hf hmem
      rcases List.mem_cons.mp hmem with hfe | hmem
      · exact absurd hfe.symm (hdistinct.2.2 e.2 (List.mem_map_of_mem hwait) f.2
          (List.mem_map_of_mem hf))
      · exact h.marked f hf hmem
  · -- the entry is marked
    have hnot : ∀ f ∈ s.q.timers.entries, f.2 ≠ e.2 := fun f hf =>
      hdistinct.2.2 f.2 (List.mem_map_of_mem hf) e.2 (List.mem_map_of_mem hbatch)
    have hdoing : s.q.doingTimerCallback = true := by
      apply h.doing
      intro hnone
      rw [TimerQueue.expired, hnone] at hbatch
      cases hbatch
    have hq : t.q = { s.q with
        cancelledTimers := s.q.cancelledTimers.insert (s.q.timer e.2).when e.2 } := by
      show s.q.cancelTask e.2 = _
      rw [cancelTask_notWaiting (fun hmem => hnot _ hmem rfl), if_pos hdoing]
    rw [hq]
    constructor
    · intro f hf hmem
      rcases List.mem_cons.mp hmem with hfe | hmem
      · exact hnot f hf hfe
      · exact h.gone f hf hmem
    · intro f hf hmem
      rw [Multimap.mem_insert, heq]
      rcases List.mem_cons.mp hmem with hfe | hmem
      · exact Or.inl (hunique f (List.mem_append_right _ hf) hfe)
      · exact Or.inr (h.marked f hf hmem)

/-- The loop of `resetTimers` inserts restarted timers only. -/
theorem mem_foldl_restartEntry {l : List (ℤ × ι)} {q : TimerQueue ι} {f : ℤ × ι}
    (hf : f ∈ (l.foldl TimerQueue.restartEntry q).timers.entries) :
    f ∈ q.timers.entries ∨ ∃ e ∈ l, q.restarts e = true ∧ e.2 = f.2 := by
  induction l generalizing q with
  | nil => exact Or.inl hf
  | cons e l ih =>
      rw [List.foldl_cons] at hf
      by_cases h : q.restarts e = true
      · obtain ⟨hmem, hrestarts, -⟩ := TimerQueue.restartEntry_of_restarts h
        rcases ih hf with hf | ⟨g, hg, hrest, heq⟩
        · rcases (hmem f).mp hf with rfl | hf
          · exact Or.inr ⟨e, List.mem_cons_self, h, rfl⟩
          · exact Or.inl hf
        · rw [hrestarts] at hrest
          exact Or.inr ⟨g, List.mem_cons_of_mem e hg, hrest, heq⟩
      · rw [TimerQueue.restartEntry_of_not h] at hf
        exact (ih hf).imp_right fun ⟨g, hg, hrest⟩ => ⟨g, List.mem_cons_of_mem e hg, hrest⟩

/-- The loop of `resetTimers` touches neither the callbacks nor the cancellations. -/
theorem foldl_restartTurn_frame (l : List (ℤ × ι)) (s : TimerRun ι) :
    (l.foldl restartTurn s).fired = s.fired ∧ (l.foldl restartTurn s).cancelled = s.cancelled ∧
      (l.foldl restartTurn s).added = s.added := by
  induction l generalizing s with
  | nil => exact ⟨rfl, rfl, rfl⟩
  | cons e l ih =>
      obtain ⟨hfired, hcancelled, hadded⟩ := ih (s.restartTurn e)
      have hturn : (s.restartTurn e).fired = s.fired ∧
          (s.restartTurn e).cancelled = s.cancelled ∧ (s.restartTurn e).added = s.added := by
        rw [restartTurn]
        split <;> exact ⟨rfl, rfl, rfl⟩
      exact ⟨hfired.trans hturn.1, hcancelled.trans hturn.2.1, hadded.trans hturn.2.2⟩

/-- A timer of the batch that is restarted has not been cancelled. -/
theorem CancelInv.not_cancelled (h : s.CancelInv) {e : ℤ × ι} (he : e ∈ s.q.expired)
    (hrestarts : s.q.restarts e = true) : e.2 ∉ s.cancelled := by
  intro hmem
  have hmarked := h.marked e he hmem
  simp [TimerQueue.restarts, TimerQueue.findTimer, hmarked] at hrestarts

/-- `cancelTask` keeps the invariant. -/
theorem cancel_of_cancelTask {i : ι} (h : s.CancelInv)
    (hrun : RunInv { s.record (.cancelTask i) with q := s.q.cancelTask i }) :
    CancelInv { s.record (.cancelTask i) with q := s.q.cancelTask i } ∧
      s.Turned (.cancelTask i) { s.record (.cancelTask i) with q := s.q.cancelTask i } := by
  obtain ⟨timers, marks, heq, hsub, hmarks⟩ := s.q.cancelTask_eq i
  by_cases hi : s.q.Holds i
  · have hrecord : s.record (.cancelTask i) = { s with cancelled := i :: s.cancelled } := by
      rw [record, if_pos hi]
    rw [hrecord] at hrun ⊢
    obtain ⟨hadded, hgone, hmarked⟩ := h.cancel hi
    rw [heq] at hrun hgone hmarked ⊢
    exact ⟨⟨hrun, h.doing, hadded, hgone, hmarked⟩, .cancelled i Iff.rfl rfl rfl rfl⟩
  · have hrecord : s.record (.cancelTask i) = s := by rw [record, if_neg hi]
    rw [hrecord, heq] at hrun ⊢
    refine ⟨⟨hrun, h.doing, h.added, fun e he => h.gone e (hsub.subset he),
      fun e he hmem => hmarks e (h.marked e he hmem)⟩, .kept ?_ rfl rfl rfl⟩
    rintro e he rfl
    exact hi (List.mem_map_of_mem (List.mem_append_right _ (h.run.rest_subset e he)))

/-- `resetTimers` keeps the invariant: what it restarts has not been cancelled. -/
theorem cancel_of_resetTimers {q : TimerQueue ι} (h : s.CancelInv)
    (hq : s.q.step .resetTimers = some q)
    (hrun : RunInv { s.record .resetTimers with q := q }) :
    CancelInv { s.record .resetTimers with q := q } ∧
      s.Turned .resetTimers { s.record .resetTimers with q := q } := by
  obtain ⟨now, expired, hbatch, rfl⟩ := TimerQueue.resetTimers_cases hq
  obtain ⟨-, htimers, hnone⟩ := resetTimers_frame s.q now expired
  obtain ⟨hfired, hcancelled, hadded⟩ := foldl_restartTurn_frame s.q.expired s
  have hexpired : s.q.expired = expired := by
    rw [TimerQueue.expired, hbatch]
    rfl
  refine ⟨⟨hrun, fun hb => absurd hnone hb, ?_, ?_, ?_⟩,
    .turned trivial hfired hcancelled ?_ ?_⟩
  · show ∀ i ∈ (s.q.expired.foldl restartTurn s).cancelled, i ∈ _
    rw [hcancelled]
    show ∀ i ∈ s.cancelled, i ∈ (s.q.expired.foldl restartTurn s).added
    rw [hadded]
    exact h.added
  · show ∀ e ∈ Multimap.entries _, e.2 ∉ (s.q.expired.foldl restartTurn s).cancelled
    rw [htimers, hcancelled]
    intro e he
    rcases mem_foldl_restartEntry he with he | ⟨f, hf, hrestarts, hfe⟩
    · exact h.gone e he
    · rw [← hfe]
      exact h.not_cancelled (hexpired ▸ hf) hrestarts
  · rw [TimerQueue.expired, hnone]
    exact fun e he => absurd he List.not_mem_nil
  · rw [TimerQueue.rest, hbatch]
    rfl
  · rw [TimerQueue.rest, hnone]
    exact fun e he => absurd he List.not_mem_nil

/-- Every step keeps the invariant. -/
theorem cancel_of_step {op : TimerOp ι} (h : s.CancelInv) (hstep : s.step op = some t) :
    t.CancelInv ∧ s.Turned op t := by
  have hrun : t.RunInv := runInv_step h.run hstep
  obtain ⟨hadds, q, hq, rfl⟩ := exists_of_step hstep
  cases op with
  | tick clock =>
      simp only [TimerQueue.step, Option.ite_none_right_eq_some, Option.some.injEq] at hq
      obtain ⟨-, rfl⟩ := hq
      exact ⟨⟨hrun, h.doing, h.added, h.gone, h.marked⟩, .kept trivial rfl rfl rfl⟩
  | addTask i =>
      have hi : i ∉ s.added := of_decide_eq_true hadds
      simp only [TimerQueue.step, Option.ite_none_right_eq_some, Option.some.injEq] at hq
      obtain ⟨-, rfl⟩ := hq
      obtain ⟨a, heq⟩ := s.q.addTask_eq i
      rw [heq] at hrun ⊢
      refine ⟨⟨hrun, h.doing, fun j hj => List.mem_cons_of_mem i (h.added j hj), ?_, h.marked⟩,
        .kept trivial rfl rfl rfl⟩
      intro e he
      rcases Multimap.mem_insert.mp he with rfl | he
      · exact fun hmem => hi (h.added i hmem)
      · exact h.gone e he
  | cancelTask i =>
      simp only [TimerQueue.step, Option.ite_none_right_eq_some, Option.some.injEq] at hq
      obtain ⟨-, rfl⟩ := hq
      exact cancel_of_cancelTask h hrun
  | handleTimer readAt =>
      obtain ⟨hnone, -, a, rfl⟩ := TimerQueue.handleTimer_cases hq
      have hbelow : ∀ e ∈ s.q.timers.belowBound s.q.clock, e.2 ∉ s.cancelled := by
        intro e he
        apply h.gone e
        rw [← s.q.timers.belowBound_append_fromBound s.q.clock]
        exact List.mem_append_left _ he
      refine ⟨⟨hrun, fun _ => rfl, h.added, fun e he => ?_, fun e he hmem => ?_⟩,
        .turned trivial rfl rfl ?_ hbelow⟩
      · exact h.gone e (Multimap.mem_fromBound.mp he).1
      · exact absurd hmem (hbelow e he)
      · rw [TimerQueue.rest, hnone]
        rfl
  | callback =>
      obtain ⟨now, expired, e, rest, hbatch, rfl⟩ := TimerQueue.callback_cases hq
      have hexpired : s.q.expired = expired := by
        rw [TimerQueue.expired, hbatch]
        rfl
      have hrest : s.q.rest = e :: rest := by
        rw [TimerQueue.rest, hbatch]
        rfl
      have hdoing : s.q.doingTimerCallback = true :=
        h.doing fun hnone => by cases hbatch.symm.trans hnone
      have hrecord : s.record .callback =
          { s with fired := s.fired ++ [s.firing ⟨now, expired, e :: rest⟩ e.2] } := by
        rw [record, hbatch]
        rfl
      rw [hrecord] at hrun ⊢
      refine ⟨⟨hrun, fun _ => hdoing, h.added, h.gone, ?_⟩, .fired e _ trivial rfl rfl hrest⟩
      show ∀ e ∈ expired, _
      rw [← hexpired]
      exact h.marked
  | resetTimers =>
      exact cancel_of_resetTimers h hq hrun

/-! ## Runs -/

/-- A step at which no timer of the batch is cancelled too late keeps cancellation effective,
and no cancelled timer has its turn still to come. -/
theorem Turned.safe {op : TimerOp ι} (h : s.Turned op t) (heff : s.Effective)
    (hsafe : ¬ s.Doomed) (hok : s.CancelsStarted op) : t.Effective ∧ ¬ t.Doomed := by
  cases h with
  | kept _ hfired hcancelled hrest =>
      rw [Effective, Doomed, hfired, hcancelled, hrest]
      exact ⟨heff, hsafe⟩
  | cancelled i hiff hfired hcancelled hrest =>
      rw [Effective, Doomed, hfired, hcancelled, hrest]
      refine ⟨heff, ?_⟩
      rintro ⟨e, he, hmem⟩
      rcases List.mem_cons.mp hmem with hei | hmem
      · exact hiff.mp hok e he hei
      · exact hsafe ⟨e, he, hmem⟩
  | turned _ hfired hcancelled hbefore hrest =>
      rw [Effective, Doomed, hfired, hcancelled]
      exact ⟨heff, fun ⟨e, he, hmem⟩ => hrest e he hmem⟩
  | fired e b _ hfired hcancelled hrest =>
      rw [Doomed, hrest] at hsafe
      rw [Effective, Doomed, hfired, hcancelled, List.forall_mem_append,
        List.forall_mem_singleton]
      refine ⟨⟨heff, ?_⟩, fun ⟨f, hf, hmem⟩ => hsafe ⟨f, List.mem_cons_of_mem e hf, hmem⟩⟩
      exact decide_eq_false fun hmem => hsafe ⟨e, List.mem_cons_self, hmem⟩

/-- After any other step the turn of a cancelled timer is still to come. -/
theorem Turned.dooms {op : TimerOp ι} (h : s.Turned op t) (hok : ¬ s.CancelsStarted op) :
    t.Doomed := by
  cases h with
  | cancelled i hiff hfired hcancelled hrest =>
      rw [hiff] at hok
      push Not at hok
      obtain ⟨e, he, hei⟩ := hok
      rw [Doomed, hcancelled, hrest]
      exact ⟨e, he, List.mem_cons.mpr (Or.inl hei)⟩
  | kept hok' => exact absurd hok' hok
  | turned hok' => exact absurd hok' hok
  | fired _ _ hok' => exact absurd hok' hok

/-- The turn of a cancelled timer stays to come until it is there. -/
theorem Turned.doomed {op : TimerOp ι} (h : s.Turned op t) (hdoomed : s.Doomed)
    (heff : t.Effective) : t.Doomed := by
  obtain ⟨e, he, hmem⟩ := hdoomed
  cases h with
  | kept _ hfired hcancelled hrest =>
      rw [Doomed, hcancelled, hrest]
      exact ⟨e, he, hmem⟩
  | cancelled i _ hfired hcancelled hrest =>
      rw [Doomed, hcancelled, hrest]
      exact ⟨e, he, List.mem_cons_of_mem i hmem⟩
  | turned _ hfired hcancelled hbefore hrest =>
      rw [hbefore] at he
      cases he
  | fired f b _ hfired hcancelled hrest =>
      rw [hrest] at he
      rw [Doomed, hcancelled]
      rcases List.mem_cons.mp he with rfl | he
      · -- the turn of the cancelled timer
        have hlate : (s.firing b e.2).cancelled = false := by
          apply heff
          rw [hfired]
          exact List.mem_append_right _ (List.mem_singleton.mpr rfl)
        exact absurd hmem (of_decide_eq_false hlate)
      · exact ⟨e, he, hmem⟩

/-- Cancellation is effective along a run in which `cancelTask` never runs for a timer of the
batch whose callback is still to be started; and of the runs that end between the calls of
`handleTimer` along no others. -/
theorem run_effective (asserts : Bool) (timer : ι → Timer) (clock : ℤ) (ops : List (TimerOp ι)) :
    (Runs.AllSteps step CancelsStarted (init asserts timer clock) ops →
      Runs.Along step Effective (init asserts timer clock) ops) ∧
    ∀ t, Runs.run step (init asserts timer clock) ops = some t → t.q.batch = none →
      Runs.Along step Effective (init asserts timer clock) ops →
        Runs.AllSteps step CancelsStarted (init asserts timer clock) ops := by
  have hrule := Runs.along_of_doomed step CancelsStarted CancelInv Effective Doomed
    (fun _ _ _ h hstep => (cancel_of_step h hstep).1)
    (fun _ _ _ h heff hsafe hok hstep => (cancel_of_step h hstep).2.safe heff hsafe hok)
    (fun _ _ _ h _ hok hstep _ => (cancel_of_step h hstep).2.dooms hok)
    (fun _ _ _ h hdoomed hstep heff => (cancel_of_step h hstep).2.doomed hdoomed heff)
    (cancelInv_init asserts timer clock) nofun (by rintro ⟨e, he, -⟩; cases he) ops
  refine ⟨hrule.1, fun t hrun hidle => hrule.2 t hrun ?_⟩
  rintro ⟨e, he, -⟩
  rw [TimerQueue.rest, hidle] at he
  cases he

/-- Two timers expire together, and the callback of the first cancels the second. -/
theorem not_effective_sameBatch :
    ¬ Runs.Along step Effective (init true (fun _ : Bool => ⟨10, 0, false⟩) 0)
      [.addTask true, .addTask false, .tick 15, .handleTimer 15, .callback,
        .cancelTask false, .callback] := by
  decide

end TimerRun

end Lotta
