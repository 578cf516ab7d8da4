/-
# No timer is stranded

Between the calls of `handleTimer` the timer fd should be armed for an instant no later
than the first deadline in `timers_`, or have an expiry to be read.  `addTask` and
`cancelTask` keep this.  `resetTimers` arms the fd only for a deadline after the instant
that `handleTimer` captured, so a repeating timer whose next deadline is not after it is
left without an arming, and with it all others.  The same happens to a timer that was due
at that very instant, which `expireTimers` leaves in `timers_` when its assertion is not
compiled in.  `notStranded_iff` is the sharp statement.
-/
import Lotta.Lib.Runs
import Lotta.TimerQueue

namespace Lotta

namespace TimerQueue

variable {ι : Type*}

/-- The fd will wake the loop for the deadline `k`: it is armed for an instant no later,
or has already expired. -/
def Covered (q : TimerQueue ι) (k : ℤ) : Prop :=
  ∃ t ∈ q.armed, t ≤ k ∨ t ≤ q.clock

instance (q : TimerQueue ι) (k : ℤ) : Decidable (q.Covered k) :=
  decidable_of_iff (q.armed.any fun t => decide (t ≤ k ∨ t ≤ q.clock))
    (by simp [Covered, Option.any_eq_true])

/-- When no `handleTimer` is in progress, the first deadline is covered. -/
def NotStranded (q : TimerQueue ι) : Prop :=
  q.batch.isNone = true → ∀ e ∈ q.timers.first?, q.Covered e.1

instance (q : TimerQueue ι) : Decidable q.NotStranded := inferInstanceAs (Decidable (_ → _))

variable [DecidableEq ι]

/-- A repeating timer of the batch that will be restarted is behind: its next deadline is
not after the captured instant. -/
def Lags (q : TimerQueue ι) (now : ℤ) (expired : List (ℤ × ι)) : Prop :=
  ∃ e ∈ expired, q.restarts e = true ∧ (q.timer e.2).when + (q.timer e.2).period ≤ now

/-- A timer whose deadline is the captured instant is in `timers_`. -/
def DueAt (q : TimerQueue ι) (now : ℤ) : Prop := ∃ e ∈ q.timers.entries, e.1 = now

/-- The condition on a step: `handleTimer` ends with no timer behind and none due at the
captured instant, unless the fd has an expiry to be read. -/
def KeepsUp (q : TimerQueue ι) : TimerOp ι → Prop
  | .resetTimers =>
      ∀ b ∈ q.batch, q.Lags b.now b.expired ∨ q.DueAt b.now → q.expiredUnread = true
  | _ => True

/-! ## Coverage -/

omit [DecidableEq ι] in
theorem expiredUnread_iff {q : TimerQueue ι} :
    q.expiredUnread = true ↔ ∃ t ∈ q.armed, t ≤ q.clock := by
  simp [expiredUnread, Option.any_eq_true]

omit [DecidableEq ι] in
/-- A later deadline is covered with an earlier one. -/
theorem Covered.mono {q : TimerQueue ι} {k l : ℤ} (h : q.Covered k) (hkl : k ≤ l) :
    q.Covered l := by
  obtain ⟨t, ht, hcase⟩ := h
  exact ⟨t, ht, hcase.imp_left fun htk => htk.trans hkl⟩

omit [DecidableEq ι] in
/-- A deadline that has passed is covered exactly when the fd has expired. -/
theorem covered_iff_of_le {q : TimerQueue ι} {k : ℤ} (hk : k ≤ q.clock) :
    q.Covered k ↔ q.expiredUnread = true := by
  rw [expiredUnread_iff]
  constructor
  · rintro ⟨t, ht, hcase⟩
    exact ⟨t, ht, hcase.elim (fun htk => htk.trans hk) id⟩
  · rintro ⟨t, ht, htc⟩
    exact ⟨t, ht, Or.inr htc⟩

omit [DecidableEq ι] in
/-- What covers the first deadline covers all. -/
theorem covered_of_first {q : TimerQueue ι} (h : ∀ e ∈ q.timers.first?, q.Covered e.1)
    {e : ℤ × ι} (he : e ∈ q.timers.entries) : q.Covered e.1 := by
  obtain ⟨f, hf⟩ := Multimap.exists_first? he
  exact (h f hf).mono (Multimap.first?_le hf he)

/-- Every deadline is covered, or is one of the `later` ones that need not be. -/
def AllCovered (q : TimerQueue ι) (later : ℤ → Prop) : Prop :=
  ∀ e ∈ q.timers.entries, later e.1 ∨ q.Covered e.1

omit [DecidableEq ι] in
theorem notStranded_of_allCovered {q : TimerQueue ι} (h : q.AllCovered fun _ => False) :
    q.NotStranded := fun _ e he => (h e (Multimap.mem_of_first? he)).elim False.elim id

omit [DecidableEq ι] in
theorem allCovered_of_notStranded {q : TimerQueue ι} (hb : q.batch.isNone = true)
    (h : q.NotStranded) : q.AllCovered fun _ => False :=
  fun _ he => Or.inr (covered_of_first (h hb) he)

omit [DecidableEq ι] in
/-- The passing of time uncovers nothing. -/
theorem AllCovered.tick {q : TimerQueue ι} {later : ℤ → Prop} (h : q.AllCovered later) {t : ℤ}
    (ht : q.clock ≤ t) : AllCovered { q with clock := t } later := by
  intro e he
  refine (h e he).imp_right ?_
  rintro ⟨a, ha, hcase⟩
  exact ⟨a, ha, hcase.imp_right fun hac => hac.trans ht⟩

/-- `cancelTask` only takes entries out. -/
theorem AllCovered.cancelTask {q : TimerQueue ι} {later : ℤ → Prop} (h : q.AllCovered later)
    (i : ι) : (q.cancelTask i).AllCovered later := by
  rw [TimerQueue.cancelTask]
  split
  · exact fun e he => h e (Multimap.mem_of_mem_erase he)
  · split <;> exact h

omit [DecidableEq ι] in
/-- `addTask` arms the fd for the new timer when it becomes the first, and otherwise the
new deadline is covered with the first one. -/
theorem AllCovered.addTask {q : TimerQueue ι} {later : ℤ → Prop} (h : q.AllCovered later)
    (hlater : ∀ k l, later k → k ≤ l → later l) (i : ι) : (q.addTask i).AllCovered later := by
  cases hfirst : q.timers.first? with
  | none =>
      have hpush : q.pushedToFirst i = true := by rw [pushedToFirst, hfirst]
      rw [TimerQueue.addTask, if_pos hpush]
      intro e he
      rcases Multimap.mem_insert.mp he with rfl | he
      · exact Or.inr ⟨_, rfl, Or.inl le_rfl⟩
      · obtain ⟨f, hf⟩ := Multimap.exists_first? he
        rw [hfirst] at hf
        cases hf
  | some f =>
      have hpush : q.pushedToFirst i = decide ((q.timer i).when < f.1) := by
        rw [pushedToFirst, hfirst]
      rw [TimerQueue.addTask, hpush]
      by_cases hlt : (q.timer i).when < f.1
      · -- the fd is armed for the new timer, which comes before all others
        rw [if_pos (decide_eq_true hlt)]
        intro e he
        refine Or.inr ⟨_, rfl, Or.inl ?_⟩
        rcases Multimap.mem_insert.mp he with rfl | he
        · exact le_rfl
        · exact hlt.le.trans (Multimap.first?_le hfirst he)
      · rw [if_neg (by simpa using hlt)]
        intro e he
        rcases Multimap.mem_insert.mp he with rfl | he
        · exact (h f (Multimap.mem_of_first? hfirst)).imp
            (fun hf => hlater _ _ hf (not_lt.mp hlt)) fun hf => hf.mono (not_lt.mp hlt)
        · exact h e he

/-! ## `handleTimer` -/

/-- The loop of `resetTimers` changes neither the fd nor the clock. -/
theorem foldl_restartEntry_frame (expired : List (ℤ × ι)) (q : TimerQueue ι) :
    (expired.foldl restartEntry q).armed = q.armed ∧
      (expired.foldl restartEntry q).clock = q.clock ∧
      (expired.foldl restartEntry q).batch = q.batch := by
  induction expired generalizing q with
  | nil => exact ⟨rfl, rfl, rfl⟩
  | cons e expired ih =>
      obtain ⟨harmed, hclock, hbatch⟩ := ih (q.restartEntry e)
      have hentry : (q.restartEntry e).armed = q.armed ∧ (q.restartEntry e).clock = q.clock ∧
          (q.restartEntry e).batch = q.batch := by
        rw [restartEntry]
        split <;> exact ⟨rfl, rfl, rfl⟩
      exact ⟨harmed.trans hentry.1, hclock.trans hentry.2.1, hbatch.trans hentry.2.2⟩

theorem batch_resetTimers (q : TimerQueue ι) (now : ℤ) (expired : List (ℤ × ι)) :
    (q.resetTimers now expired).batch = q.batch := by
  obtain ⟨-, -, hbatch⟩ := foldl_restartEntry_frame expired q
  rw [resetTimers, rearm]
  split
  · exact hbatch
  · split <;> exact hbatch

/-- A turn of the loop for a timer that is not restarted. -/
theorem restartEntry_of_not {q : TimerQueue ι} {e : ℤ × ι} (h : ¬ q.restarts e = true) :
    q.restartEntry e = q := by
  rw [restartEntry, if_neg h]

/-- A turn of the loop for a timer that is restarted. -/
theorem restartEntry_of_restarts {q : TimerQueue ι} {e : ℤ × ι} (h : q.restarts e = true) :
    (∀ f, f ∈ (q.restartEntry e).timers.entries ↔
      f = ((q.timer e.2).when + (q.timer e.2).period, e.2) ∨ f ∈ q.timers.entries) ∧
    (∀ f, (q.restartEntry e).restarts f = q.restarts f) ∧
    ((q.restartEntry e).timer e.2).when = (q.timer e.2).when + (q.timer e.2).period ∧
    ((q.restartEntry e).timer e.2).period = (q.timer e.2).period ∧
    ∀ i, i ≠ e.2 → (q.restartEntry e).timer i = q.timer i := by
  have hrep : (q.timer e.2).repeats = true := (Bool.and_eq_true_iff.mp h).1
  have hrestart : (q.timer e.2).restart =
      { q.timer e.2 with when := (q.timer e.2).when + (q.timer e.2).period } := by
    rw [Timer.restart, if_pos hrep]
  have hself : (q.restartEntry e).timer e.2 = (q.timer e.2).restart := by
    rw [restartEntry, if_pos h]
    exact Function.update_self ..
  have hother : ∀ i, i ≠ e.2 → (q.restartEntry e).timer i = q.timer i := by
    intro i hi
    rw [restartEntry, if_pos h]
    exact Function.update_of_ne hi ..
  refine ⟨fun f => ?_, fun f => ?_, by rw [hself, hrestart], by rw [hself, hrestart], hother⟩
  · rw [restartEntry, if_pos h, pushTimerToMap, Multimap.mem_insert]
    simp only [Function.update_self, hrestart]
  · have hcancelled : (q.restartEntry e).cancelledTimers = q.cancelledTimers := by
      rw [restartEntry, if_pos h]
      rfl
    have hrepeats : ((q.restartEntry e).timer f.2).repeats = (q.timer f.2).repeats := by
      by_cases hf : f.2 = e.2
      · rw [hf, hself, hrestart]
      · rw [hother f.2 hf]
    rw [restarts, restarts, hcancelled, hrepeats]

/-- After the loop, a deadline is not after `now` exactly when one was before it or a
restarted timer is behind. -/
theorem exists_le_foldl_iff (now : ℤ) (expired : List (ℤ × ι)) (q : TimerQueue ι) :
    (∃ f ∈ (expired.foldl restartEntry q).timers.entries, f.1 ≤ now) ↔
      (∃ f ∈ q.timers.entries, f.1 ≤ now) ∨ q.Lags now expired := by
  induction expired generalizing q with
  | nil => simp [Lags]
  | cons e expired ih =>
      rw [List.foldl_cons, ih]
      by_cases h : q.restarts e = true
      · obtain ⟨hmem, hrestarts, hwhen, hperiod, hother⟩ := restartEntry_of_restarts h
        constructor
        · rintro (⟨f, hf, hle⟩ | ⟨f, hf, hrep, hle⟩)
          · rcases (hmem f).mp hf with rfl | hf
            · exact Or.inr ⟨e, List.mem_cons_self, h, hle⟩
            · exact Or.inl ⟨f, hf, hle⟩
          · rw [hrestarts] at hrep
            by_cases hfe : f.2 = e.2
            · -- the same timer restarted twice: it was behind the first time
              rw [hfe, hwhen, hperiod] at hle
              exact Or.inr ⟨e, List.mem_cons_self, h, by omega⟩
            · rw [hother f.2 hfe] at hle
              exact Or.inr ⟨f, List.mem_cons_of_mem e hf, hrep, hle⟩
        · rintro (⟨f, hf, hle⟩ | ⟨f, hf, hrep, hle⟩)
          · exact Or.inl ⟨f, (hmem f).mpr (Or.inr hf), hle⟩
          · by_cases hfe : f.2 = e.2
            · rw [hfe] at hle
              exact Or.inl ⟨_, (hmem _).mpr (Or.inl rfl), hle⟩
            · have hmem' : f ∈ expired :=
                (List.mem_cons.mp hf).resolve_left fun hf => hfe (by rw [hf])
              refine Or.inr ⟨f, hmem', ?_, ?_⟩
              · rw [hrestarts]
                exact hrep
              · rw [hother f.2 hfe]
                exact hle
      · rw [restartEntry_of_not h]
        refine or_congr_right ⟨fun ⟨f, hf, hrest⟩ => ⟨f, List.mem_cons_of_mem e hf, hrest⟩, ?_⟩
        rintro ⟨f, hf, hrep, hle⟩
        rcases List.mem_cons.mp hf with rfl | hf
        · exact absurd hrep h
        · exact ⟨f, hf, hrep, hle⟩

/-- What `resetTimers` leaves is covered exactly when no timer is behind or due at the
captured instant, or the fd has expired. -/
theorem resetTimers_covered_iff {q : TimerQueue ι} {now : ℤ} (hnow : now ≤ q.clock)
    (h : q.AllCovered fun k => now ≤ k) (expired : List (ℤ × ι)) :
    (∀ e ∈ (q.resetTimers now expired).timers.first?, (q.resetTimers now expired).Covered e.1) ↔
      (q.Lags now expired ∨ q.DueAt now → q.expiredUnread = true) := by
  obtain ⟨harmed, hclock, -⟩ := foldl_restartEntry_frame expired q
  have hexp : (expired.foldl restartEntry q).expiredUnread = q.expiredUnread := by
    rw [expiredUnread, expiredUnread, harmed, hclock]
  have hbehind := exists_le_foldl_iff now expired q
  have hleft : q.Lags now expired ∨ q.DueAt now →
      ∃ f ∈ (expired.foldl restartEntry q).timers.entries, f.1 ≤ now := fun hlate =>
    hbehind.mpr (hlate.symm.imp_left fun ⟨f, hf, hnow⟩ => ⟨f, hf, hnow.le⟩)
  rw [resetTimers, rearm]
  generalize expired.foldl restartEntry q = r at harmed hclock hexp hbehind hleft
  split
  · -- no timer is left, so none was late
    rename_i hnone
    refine iff_of_true (by simp [hnone]) fun hlate => ?_
    obtain ⟨f, hf, -⟩ := hleft hlate
    obtain ⟨g, hg⟩ := Multimap.exists_first? hf
    rw [hnone] at hg
    cases hg
  · rename_i e he
    by_cases hlt : now < e.1
    · -- the fd is armed for the first deadline, and nothing is behind
      rw [if_pos hlt]
      refine iff_of_true (fun f hf => ?_) fun hlate => ?_
      · obtain rfl : e = f := Option.some.inj (he.symm.trans hf)
        exact ⟨e.1, rfl, Or.inl le_rfl⟩
      · obtain ⟨f, hf, hle⟩ := hleft hlate
        exact absurd ((Multimap.first?_le he hf).trans hle) (not_le.mpr hlt)
    · -- the fd is left alone: the first deadline is covered only by an expiry to be read
      rw [if_neg hlt]
      have hle : e.1 ≤ now := not_lt.mp hlt
      have hcov : (∀ f ∈ r.timers.first?, r.Covered f.1) ↔ q.expiredUnread = true := by
        rw [← hexp, ← covered_iff_of_le (hle.trans (hnow.trans hclock.ge)), he]
        simp
      rw [hcov]
      refine ⟨fun hread _ => hread, fun himp => ?_⟩
      rcases hbehind.mp ⟨e, Multimap.mem_of_first? he, hle⟩ with ⟨f, hf, hfle⟩ | hlags
      · rcases h f hf with hge | hcovered
        · exact himp (Or.inr ⟨f, hf, le_antisymm hfle hge⟩)
        · exact (covered_iff_of_le (hfle.trans hnow)).mp hcovered
      · exact himp (Or.inl hlags)

/-! ## Runs -/

/-- What every step keeps: inside `handleTimer`, a deadline in `timers_` is covered or
not before the captured instant. -/
def BatchCovered (q : TimerQueue ι) : Prop :=
  ∀ b ∈ q.batch, b.now ≤ q.clock ∧ q.AllCovered fun k => b.now ≤ k

omit [DecidableEq ι] in
/-- A step that leaves `handleTimer` where it is and uncovers nothing keeps the invariant
and the law. -/
theorem stranded_of_covers {q r : TimerQueue ι} (hb : q.BatchCovered)
    (hbatch : r.batch = q.batch) (hclock : q.clock ≤ r.clock)
    (hcov : ∀ later : ℤ → Prop, (∀ k l, later k → k ≤ l → later l) →
      q.AllCovered later → r.AllCovered later) :
    r.BatchCovered ∧ (q.NotStranded → r.NotStranded) := by
  refine ⟨fun b hmem => ?_, fun hs hnone => ?_⟩
  · rw [hbatch] at hmem
    obtain ⟨hnow, hall⟩ := hb b hmem
    exact ⟨hnow.trans hclock, hcov _ (fun _ _ => le_trans) hall⟩
  · have hall := allCovered_of_notStranded (hbatch ▸ hnone) hs
    exact notStranded_of_allCovered (hcov _ (fun _ _ hf _ => hf) hall) hnone

/-- Every step keeps the invariant of `handleTimer`, and keeps the law exactly when it
meets the condition. -/
theorem stranded_of_step {q r : TimerQueue ι} {op : TimerOp ι} (hb : q.BatchCovered)
    (h : q.step op = some r) :
    r.BatchCovered ∧ (q.NotStranded → (r.NotStranded ↔ q.KeepsUp op)) := by
  cases op with
  | tick t =>
      simp only [step, Option.ite_none_right_eq_some, Option.some.injEq] at h
      obtain ⟨ht, rfl⟩ := h
      obtain ⟨hinv, hlaw⟩ := stranded_of_covers (r := { q with clock := t }) hb rfl ht
        fun later _ hall => hall.tick ht
      exact ⟨hinv, fun hs => iff_of_true (hlaw hs) trivial⟩
  | addTask i =>
      simp only [step, Option.ite_none_right_eq_some, Option.some.injEq] at h
      obtain ⟨-, rfl⟩ := h
      obtain ⟨a, heq⟩ := q.addTask_eq i
      obtain ⟨hinv, hlaw⟩ := stranded_of_covers hb (by rw [heq]) (by rw [heq])
        fun later hlater hall => hall.addTask hlater i
      exact ⟨hinv, fun hs => iff_of_true (hlaw hs) trivial⟩
  | cancelTask i =>
      simp only [step, Option.ite_none_right_eq_some, Option.some.injEq] at h
      obtain ⟨-, rfl⟩ := h
      obtain ⟨timers, marks, heq, -⟩ := q.cancelTask_eq i
      obtain ⟨hinv, hlaw⟩ := stranded_of_covers hb (by rw [heq]) (by rw [heq])
        fun later _ hall => hall.cancelTask i
      exact ⟨hinv, fun hs => iff_of_true (hlaw hs) trivial⟩
  | handleTimer readAt =>
      obtain ⟨-, hread, a, rfl⟩ := handleTimer_cases h
      refine ⟨?_, fun _ => iff_of_true (fun hnone => by cases hnone) trivial⟩
      -- the expired timers are out, and the others need no cover before `resetTimers`
      rintro b ⟨⟩
      exact ⟨hread, fun e he => Or.inl (Multimap.mem_fromBound.mp he).2⟩
  | callback =>
      obtain ⟨now, expired, e, rest, hbatch, rfl⟩ := callback_cases h
      have hold := hb _ hbatch
      refine ⟨?_, fun _ => iff_of_true (fun hnone => by cases hnone) trivial⟩
      rintro b ⟨⟩
      exact hold
  | resetTimers =>
      obtain ⟨now, expired, hbatch, rfl⟩ := resetTimers_cases h
      obtain ⟨hnow, hcov⟩ := hb _ hbatch
      have hnone : (resetTimers { q with doingTimerCallback := false, batch := none }
          now expired).batch = none := batch_resetTimers _ now expired
      refine ⟨fun b hmem => absurd hmem (by simp [hnone]), fun _ => ?_⟩
      have hiff := resetTimers_covered_iff
        (q := { q with doingTimerCallback := false, batch := none }) hnow hcov expired
      rw [NotStranded, hnone]
      simp only [Option.isNone_none, true_implies, KeepsUp, hbatch, Option.mem_def,
        Option.some.injEq, forall_eq']
      exact hiff

omit [DecidableEq ι] in
theorem batchCovered_init (asserts : Bool) (timer : ι → Timer) (clock : ℤ) :
    BatchCovered (init asserts timer clock) := by
  intro b hb
  cases hb

omit [DecidableEq ι] in
theorem notStranded_init (asserts : Bool) (timer : ι → Timer) (clock : ℤ) :
    NotStranded (init asserts timer clock) := by
  intro _ e he
  cases he

/-- No timer is stranded along a run exactly when every `handleTimer` of the run ends with
no timer behind its captured instant or due at it, or with an expiry of the fd to be read. -/
theorem notStranded_iff (asserts : Bool) (timer : ι → Timer) (clock : ℤ)
    (ops : List (TimerOp ι)) :
    Runs.Along step NotStranded (init asserts timer clock) ops ↔
      Runs.AllSteps step KeepsUp (init asserts timer clock) ops :=
  Runs.along_iff_allSteps (J := BatchCovered)
    (fun _ _ _ hb h => (stranded_of_step hb h).1)
    (fun _ _ _ hb hs h => (stranded_of_step hb h).2 hs)
    (batchCovered_init asserts timer clock) (notStranded_init asserts timer clock)

/-- A timer with period one and first deadline ten, handled at fifteen: its next deadline
is eleven, and the fd is armed for nothing. -/
theorem not_notStranded_behind :
    ¬ Runs.Along step NotStranded (init true (fun _ : Unit => ⟨10, 1, true⟩) 0)
      [.addTask (), .tick 15, .handleTimer 15, .callback, .resetTimers] := by
  decide

end TimerQueue

end Lotta
