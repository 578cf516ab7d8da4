/-
# Which timers may still fire

A timer that has been added, has not been cancelled and has not done its work must be somewhere
in the queue: in `timers_`, or in the batch of the `handleTimer` call in progress, from which
`resetTimers` takes it back.  `MayFire` says so of the queue itself, and `KeptInv.mayFire_iff`
reads it off the history of the timer: what it was made as, its callbacks and its cancellation.
-/
import Lotta.TimerCancel

namespace Lotta

/-- The timer that a step adds. -/
def TimerOp.adds {ι : Type*} : TimerOp ι → Option ι
  | .addTask i => some i
  | _ => none

namespace TimerQueue

variable {ι : Type*} [DecidableEq ι] {q : TimerQueue ι}

/-- The timer waits for its deadline, or its callback in the batch is still to be started. -/
def Waits (q : TimerQueue ι) (i : ι) : Prop := i ∈ (q.timers.entries ++ q.rest).map Prod.snd

instance (q : TimerQueue ι) (i : ι) : Decidable (q.Waits i) := inferInstanceAs (Decidable (_ ∈ _))

/-- The timer waits, or `resetTimers` will restart it. -/
def MayFire (q : TimerQueue ι) (i : ι) : Prop :=
  q.Waits i ∨ ∃ e ∈ q.expired, e.2 = i ∧ q.restarts e = true

instance (q : TimerQueue ι) (i : ι) : Decidable (q.MayFire i) :=
  inferInstanceAs (Decidable (_ ∨ _))

/-- `cancelTask` leaves the entries of other timers. -/
theorem mem_cancelTask {i : ι} {e : ℤ × ι} (he : e ∈ q.timers.entries) (hne : e.2 ≠ i) :
    e ∈ (q.cancelTask i).timers.entries := by
  unfold cancelTask
  split
  · exact (List.mem_erase_of_ne fun h => hne (congrArg Prod.snd h)).mpr he
  · split
    · exact he
    · exact he

/-- `cancelTask` marks no timer but its own. -/
theorem mem_cancelledTimers_cancelTask {i : ι} {e : ℤ × ι}
    (he : e ∈ (q.cancelTask i).cancelledTimers.entries) :
    e ∈ q.cancelledTimers.entries ∨ e.2 = i := by
  unfold cancelTask at he
  split at he
  · exact Or.inl he
  · split at he
    · exact (Multimap.mem_insert.mp he).symm.imp_right (congrArg Prod.snd)
    · exact Or.inl he

/-- The loop of `resetTimers` takes nothing out of `timers_`. -/
theorem mem_foldl_of_mem {l : List (ℤ × ι)} {e : ℤ × ι} (he : e ∈ q.timers.entries) :
    e ∈ (l.foldl restartEntry q).timers.entries := by
  induction l generalizing q with
  | nil => exact he
  | cons f l ih =>
      apply ih
      by_cases h : q.restarts f = true
      · exact ((restartEntry_of_restarts h).1 e).mpr (Or.inr he)
      · rw [restartEntry_of_not h]
        exact he

/-- The loop of `resetTimers` puts every timer back that is to be restarted. -/
theorem mem_foldl_of_restarts {l : List (ℤ × ι)} {e : ℤ × ι} (he : e ∈ l)
    (hrestarts : q.restarts e = true) :
    e.2 ∈ (l.foldl restartEntry q).timers.entries.map Prod.snd := by
  induction l generalizing q with
  | nil => cases he
  | cons f l ih =>
      rw [List.foldl_cons]
      rcases List.mem_cons.mp he with rfl | he
      · have hmem := ((restartEntry_of_restarts hrestarts).1 _).mpr (Or.inl rfl)
        exact List.mem_map.mpr ⟨_, mem_foldl_of_mem hmem, rfl⟩
      · apply ih he
        by_cases h : q.restarts f = true
        · rw [(restartEntry_of_restarts h).2.1, hrestarts]
        · rwa [restartEntry_of_not h]

end TimerQueue

namespace TimerRun

variable {ι : Type*} [DecidableEq ι] {s t : TimerRun ι}

/-- What every step keeps: no timer gets lost. -/
structure KeptInv (s : TimerRun ι) : Prop where
  cancel : s.CancelInv
  recorded : ∀ e ∈ s.q.expired, e ∈ s.q.cancelledTimers.entries → e.2 ∈ s.cancelled
  repeating : ∀ i ∈ s.added, i ∉ s.cancelled → (s.start i).repeats = true → s.q.Holds i
  unstarted : ∀ i ∈ s.added, i ∉ s.cancelled → s.runs i = [] → s.q.Waits i

theorem keptInv_init (asserts : Bool) (timer : ι → Timer) (clock : ℤ) :
    KeptInv (init asserts timer clock) where
  cancel := cancelInv_init asserts timer clock
  recorded := nofun
  repeating := nofun
  unstarted := nofun

/-! ## Steps -/

/-- `cancelTask` keeps the timers that it is not called for, and it is recorded for the others
that the queue holds. -/
theorem KeptInv.cancelTask (h : s.KeptInv) {i : ι}
    (hcancel : CancelInv { s.record (.cancelTask i) with q := s.q.cancelTask i }) :
    KeptInv { s.record (.cancelTask i) with q := s.q.cancelTask i } := by
  obtain ⟨timers, marks, heq, -, -⟩ := s.q.cancelTask_eq i
  have hbatch : (s.q.cancelTask i).batch = s.q.batch := by rw [heq]
  have hexpired : (s.q.cancelTask i).expired = s.q.expired := by
    rw [TimerQueue.expired, TimerQueue.expired, hbatch]
  have hrest : (s.q.cancelTask i).rest = s.q.rest := by
    rw [TimerQueue.rest, TimerQueue.rest, hbatch]
  have hrecord : ∀ j, j ∈ (s.record (.cancelTask i)).cancelled ↔
      (j = i ∧ s.q.Holds i) ∨ j ∈ s.cancelled := by
    intro j
    unfold record
    by_cases hi : s.q.Holds i
    · simp [hi]
    · simp [hi]
  have hframe : (s.record (.cancelTask i)).added = s.added ∧
      (s.record (.cancelTask i)).start = s.start ∧ (s.record (.cancelTask i)).fired = s.fired := by
    unfold record
    dsimp only
    split
    · exact ⟨rfl, rfl, rfl⟩
    · exact ⟨rfl, rfl, rfl⟩
  obtain ⟨hadded, hstart, hfired⟩ := hframe
  have hsub : ∀ l : List (ℤ × ι), ∀ j, j ≠ i → j ∈ (s.q.timers.entries ++ l).map Prod.snd →
      j ∈ ((s.q.cancelTask i).timers.entries ++ l).map Prod.snd := by
    intro l j hj hmem
    obtain ⟨e, he, rfl⟩ := List.mem_map.mp hmem
    refine List.mem_map_of_mem (List.mem_append.mpr ?_)
    exact (List.mem_append.mp he).imp_left fun he => TimerQueue.mem_cancelTask he hj
  refine ⟨hcancel, ?_, ?_, ?_⟩
  · intro e he hmark
    replace he : e ∈ s.q.expired := hexpired ▸ he
    rw [hrecord]
    rcases TimerQueue.mem_cancelledTimers_cancelTask hmark with hmark | rfl
    · exact Or.inr (h.recorded e he hmark)
    · exact Or.inl ⟨rfl, List.mem_map_of_mem (List.mem_append_right _ he)⟩
  · intro j hj hnot hrepeats
    rw [hrecord, not_or] at hnot
    rw [hadded] at hj
    rw [hstart] at hrepeats
    have hheld := h.repeating j hj hnot.2 hrepeats
    have hne : j ≠ i := fun hji => hnot.1 ⟨hji, hji ▸ hheld⟩
    show j ∈ ((s.q.cancelTask i).timers.entries ++ (s.q.cancelTask i).expired).map Prod.snd
    rw [hexpired]
    exact hsub s.q.expired j hne hheld
  · intro j hj hnot hnone
    rw [hrecord, not_or] at hnot
    rw [hadded] at hj
    replace hnone : (s.record (.cancelTask i)).runs j = [] := hnone
    rw [runs_congr hfired] at hnone
    have hwaits := h.unstarted j hj hnot.2 hnone
    have hheld : s.q.Holds j := by
      obtain ⟨e, he, rfl⟩ := List.mem_map.mp hwaits
      refine List.mem_map_of_mem (List.mem_append.mpr ?_)
      exact (List.mem_append.mp he).imp_right (h.cancel.run.rest_subset e)
    have hne : j ≠ i := fun hji => hnot.1 ⟨hji, hji ▸ hheld⟩
    show j ∈ ((s.q.cancelTask i).timers.entries ++ (s.q.cancelTask i).rest).map Prod.snd
    rw [hrest]
    exact hsub s.q.rest j hne hwaits

/-- The timers that expire go into the batch. -/
theorem KeptInv.handleTimer (h : s.KeptInv) {readAt : ℤ} {q : TimerQueue ι}
    (hq : s.q.step (.handleTimer readAt) = some q)
    (hcancel : CancelInv { s.record (.handleTimer readAt) with q := q }) :
    KeptInv { s.record (.handleTimer readAt) with q := q } := by
  obtain ⟨hnone, -, a, rfl⟩ := TimerQueue.handleTimer_cases hq
  have hidle : s.q.expired = [] ∧ s.q.rest = [] := by
    rw [TimerQueue.expired, TimerQueue.rest, hnone]
    exact ⟨rfl, rfl⟩
  obtain ⟨hexpired, hrest⟩ := hidle
  -- nothing is lost where `timers_` is cut in two
  have hsplit : ∀ j, j ∈ (s.q.timers.entries ++ []).map Prod.snd →
      j ∈ ((s.q.timers.fromBound s.q.clock).entries ++
        s.q.timers.belowBound s.q.clock).map Prod.snd := by
    intro j hj
    rw [List.append_nil, ← s.q.timers.belowBound_append_fromBound s.q.clock, List.map_append] at hj
    rw [List.map_append]
    exact List.mem_append.mpr (List.mem_append.mp hj).symm
  refine ⟨hcancel, fun e _ hmark => absurd hmark List.not_mem_nil, ?_, ?_⟩
  · intro j hj hnot hrepeats
    have hheld := h.repeating j hj hnot hrepeats
    rw [TimerQueue.Holds, hexpired] at hheld
    exact hsplit j hheld
  · intro j hj hnot hruns
    have hwaits := h.unstarted j hj hnot hruns
    rw [TimerQueue.Waits, hrest] at hwaits
    exact hsplit j hwaits

/-- The callback that is started is one of its timer. -/
theorem KeptInv.callback (h : s.KeptInv) {q : TimerQueue ι} (hq : s.q.step .callback = some q)
    (hcancel : CancelInv { s.record .callback with q := q }) :
    KeptInv { s.record .callback with q := q } := by
  obtain ⟨now, expired, e, rest, hbatch, rfl⟩ := TimerQueue.callback_cases hq
  have hrecord : s.record .callback =
      { s with fired := s.fired ++ [s.firing ⟨now, expired, e :: rest⟩ e.2] } := by
    rw [record, hbatch]
    rfl
  have hexpired : s.q.expired = expired := by
    rw [TimerQueue.expired, hbatch]
    rfl
  have hrest : s.q.rest = e :: rest := by
    rw [TimerQueue.rest, hbatch]
    rfl
  rw [hrecord] at hcancel ⊢
  refine ⟨hcancel, ?_, ?_, ?_⟩
  · intro f hf
    rw [← hexpired] at hf
    exact h.recorded f hf
  · intro j hj hnot hrepeats
    have hheld := h.repeating j hj hnot hrepeats
    rw [TimerQueue.Holds, hexpired] at hheld
    exact hheld
  · intro j hj hnot hnone
    rw [runs_fire rfl] at hnone
    split at hnone
    · cases List.append_ne_nil_of_right_ne_nil _ (List.cons_ne_nil _ _) hnone
    · rename_i hne
      have hwaits := h.unstarted j hj hnot hnone
      rw [TimerQueue.Waits, hrest] at hwaits
      obtain ⟨f, hf, rfl⟩ := List.mem_map.mp hwaits
      refine List.mem_map_of_mem (List.mem_append.mpr ?_)
      refine (List.mem_append.mp hf).imp_right fun hf => (List.mem_cons.mp hf).resolve_left ?_
      rintro rfl
      exact hne rfl

theorem start_foldl_restartTurn (l : List (ℤ × ι)) (s : TimerRun ι) :
    (l.foldl restartTurn s).start = s.start := by
  induction l generalizing s with
  | nil => rfl
  | cons e l ih =>
      rw [List.foldl_cons, ih, restartTurn]
      split
      · rfl
      · rfl

/-- What `resetTimers` does not put back has been cancelled, or is a one-shot timer whose
callback has been started. -/
theorem KeptInv.resetTimers (h : s.KeptInv) {q : TimerQueue ι}
    (hq : s.q.step .resetTimers = some q)
    (hcancel : CancelInv { s.record .resetTimers with q := q }) :
    KeptInv { s.record .resetTimers with q := q } := by
  obtain ⟨now, expired, hbatch, rfl⟩ := TimerQueue.resetTimers_cases hq
  obtain ⟨-, htimers, hnone⟩ := resetTimers_frame s.q now expired
  obtain ⟨hfired, hcancelled, hadded⟩ := foldl_restartTurn_frame s.q.expired s
  have hexpired : s.q.expired = expired := by
    rw [TimerQueue.expired, hbatch]
    rfl
  have hrest : s.q.rest = [] := by
    rw [TimerQueue.rest, hbatch]
    rfl
  have hstart : (s.q.expired.foldl restartTurn s).start = s.start := start_foldl_restartTurn _ s
  refine ⟨hcancel, ?_, ?_, ?_⟩
  · intro e he
    rw [TimerQueue.expired, hnone] at he
    cases he
  · intro j hj hnot hrepeats
    replace hj : j ∈ (s.q.expired.foldl restartTurn s).added := hj
    replace hnot : j ∉ (s.q.expired.foldl restartTurn s).cancelled := hnot
    replace hrepeats : ((s.q.expired.foldl restartTurn s).start j).repeats = true := hrepeats
    rw [hadded] at hj
    rw [hcancelled] at hnot
    rw [hstart] at hrepeats
    obtain ⟨e, he, rfl⟩ := List.mem_map.mp (h.repeating j hj hnot hrepeats)
    rw [TimerQueue.Holds, List.map_append, htimers]
    apply List.mem_append_left
    rcases List.mem_append.mp he with he | he
    · exact List.mem_map_of_mem (TimerQueue.mem_foldl_of_mem he)
    · have hrestarts : s.q.restarts e = true := by
        obtain ⟨started, rest, -, hs⟩ := h.cancel.run.holds
        rw [TimerQueue.restarts, hs.repeats, hrepeats, TimerQueue.findTimer,
          decide_eq_false fun hmark => hnot (h.recorded e he hmark)]
        rfl
      rw [hexpired] at he
      exact TimerQueue.mem_foldl_of_restarts he hrestarts
  · intro j hj hnot hruns
    replace hj : j ∈ (s.q.expired.foldl restartTurn s).added := hj
    replace hnot : j ∉ (s.q.expired.foldl restartTurn s).cancelled := hnot
    replace hruns : (s.q.expired.foldl restartTurn s).runs j = [] := hruns
    rw [hadded] at hj
    rw [hcancelled] at hnot
    rw [runs_congr hfired] at hruns
    have hwaits := h.unstarted j hj hnot hruns
    rw [TimerQueue.Waits, hrest, List.append_nil] at hwaits
    obtain ⟨e, he, rfl⟩ := List.mem_map.mp hwaits
    rw [TimerQueue.Waits, List.map_append, htimers]
    exact List.mem_append_left _ (List.mem_map_of_mem (TimerQueue.mem_foldl_of_mem he))

/-- Every step keeps the invariant. -/
theorem keptInv_step {op : TimerOp ι} (h : s.KeptInv) (hstep : s.step op = some t) :
    t.KeptInv := by
  have hcancel : t.CancelInv := (cancel_of_step h.cancel hstep).1
  obtain ⟨-, q, hq, rfl⟩ := exists_of_step hstep
  cases op with
  | tick clock =>
      simp only [TimerQueue.step, Option.ite_none_right_eq_some, Option.some.injEq] at hq
      obtain ⟨-, rfl⟩ := hq
      exact ⟨hcancel, h.recorded, h.repeating, h.unstarted⟩
  | addTask i =>
      simp only [TimerQueue.step, Option.ite_none_right_eq_some, Option.some.injEq] at hq
      obtain ⟨-, rfl⟩ := hq
      obtain ⟨a, heq⟩ := s.q.addTask_eq i
      rw [heq] at hcancel ⊢
      have hmem : ∀ (l : List (ℤ × ι)) (j : ι),
          (j ≠ i → j ∈ (s.q.timers.entries ++ l).map Prod.snd) →
          j ∈ ((s.q.timers.insert (s.q.timer i).when i).entries ++ l).map Prod.snd := by
        intro l j hj
        have hperm := (Multimap.perm_insertEntry ((s.q.timer i).when, i)
          s.q.timers.entries).append_right l
        refine (hperm.map Prod.snd).mem_iff.mpr (List.mem_cons.mpr ?_)
        by_cases hji : j = i
        · exact Or.inl hji
        · exact Or.inr (hj hji)
      refine ⟨hcancel, h.recorded, ?_, ?_⟩
      · intro j hj hnot hrepeats
        refine hmem s.q.expired j fun hne => h.repeating j ?_ hnot hrepeats
        exact (List.mem_cons.mp hj).resolve_left hne
      · intro j hj hnot hnone
        refine hmem s.q.rest j fun hne => h.unstarted j ?_ hnot hnone
        exact (List.mem_cons.mp hj).resolve_left hne
  | cancelTask i =>
      simp only [TimerQueue.step, Option.ite_none_right_eq_some, Option.some.injEq] at hq
      obtain ⟨-, rfl⟩ := hq
      exact h.cancelTask hcancel
  | handleTimer readAt => exact h.handleTimer hq hcancel
  | callback => exact h.callback hq hcancel
  | resetTimers => exact h.resetTimers hq hcancel

/-- A call of `handleTimer` begins only where it is called. -/
theorem batch_of_step {op : TimerOp ι} (hstep : s.step op = some t) (hnone : s.q.batch = none)
    (hop : ∀ readAt, op ≠ .handleTimer readAt) : t.q.batch = none := by
  obtain ⟨-, q, hq, rfl⟩ := exists_of_step hstep
  cases op with
  | tick clock =>
      simp only [TimerQueue.step, Option.ite_none_right_eq_some, Option.some.injEq] at hq
      obtain ⟨-, rfl⟩ := hq
      exact hnone
  | addTask i =>
      simp only [TimerQueue.step, Option.ite_none_right_eq_some, Option.some.injEq] at hq
      obtain ⟨-, rfl⟩ := hq
      obtain ⟨a, heq⟩ := s.q.addTask_eq i
      rw [heq]
      exact hnone
  | cancelTask i =>
      simp only [TimerQueue.step, Option.ite_none_right_eq_some, Option.some.injEq] at hq
      obtain ⟨-, rfl⟩ := hq
      obtain ⟨timers, marks, heq, -, -⟩ := s.q.cancelTask_eq i
      rw [heq]
      exact hnone
  | handleTimer readAt => exact absurd rfl (hop readAt)
  | callback =>
      obtain ⟨now, expired, e, rest, hbatch, -⟩ := TimerQueue.callback_cases hq
      cases hnone.symm.trans hbatch
  | resetTimers =>
      obtain ⟨now, expired, hbatch, -⟩ := TimerQueue.resetTimers_cases hq
      cases hnone.symm.trans hbatch

/-! ## What may fire -/

/-- A timer may still fire exactly when its callback in the batch is still to be started, or it
has not been cancelled and repeats or has not fired yet. -/
theorem KeptInv.mayFire_iff (h : s.KeptInv) (i : ι) :
    s.q.MayFire i ↔ i ∈ s.added ∧ (i ∈ s.q.rest.map Prod.snd ∨
      (i ∉ s.cancelled ∧ ((s.start i).repeats = true ∨ s.runs i = []))) := by
  obtain ⟨started, rest, hexpired, hs⟩ := h.cancel.run.holds
  have hadded : ∀ e ∈ s.q.timers.entries ++ s.q.expired, e.2 ∈ s.added := fun e he =>
    (h.cancel.run.filed e he).added
  constructor
  · rintro (hwaits | ⟨e, he, rfl, hrestarts⟩)
    · obtain ⟨e, he, rfl⟩ := List.mem_map.mp hwaits
      rcases List.mem_append.mp he with he | he
      · refine ⟨hadded e (List.mem_append_left _ he), Or.inr ⟨h.cancel.gone e he, ?_⟩⟩
        have hnext := hs.next e (List.mem_append_left _ he)
        cases hrepeats : (s.start e.2).repeats with
        | true => exact Or.inl rfl
        | false => exact Or.inr (hnext.once hrepeats)
      · have hin := h.cancel.run.rest_subset e he
        exact ⟨hadded e (List.mem_append_right _ hin), Or.inl (List.mem_map_of_mem he)⟩
    · refine ⟨hadded e (List.mem_append_right _ he),
        Or.inr ⟨h.cancel.not_cancelled he hrestarts, Or.inl ?_⟩⟩
      rw [← hs.repeats]
      exact (Bool.and_eq_true_iff.mp hrestarts).1
  · rintro ⟨hi, hrest | ⟨hnot, hrepeats | hnone⟩⟩
    · refine Or.inl ?_
      rw [TimerQueue.Waits, List.map_append]
      exact List.mem_append_right _ hrest
    · obtain ⟨e, he, rfl⟩ := List.mem_map.mp (h.repeating i hi hnot hrepeats)
      rcases List.mem_append.mp he with he | he
      · exact Or.inl (List.mem_map_of_mem (List.mem_append_left _ he))
      · refine Or.inr ⟨e, he, rfl, ?_⟩
        rw [TimerQueue.restarts, hs.repeats, hrepeats, TimerQueue.findTimer,
          decide_eq_false fun hmark => hnot (h.recorded e he hmark)]
        rfl
    · exact Or.inl (h.unstarted i hi hnot hnone)

/-- What a step does to the history of the timers. -/
structure Grown (s : TimerRun ι) (op : TimerOp ι) (t : TimerRun ι) : Prop where
  start : t.start = s.start
  added : t.added = op.adds.toList ++ s.added
  cancelled : ∀ i ∈ s.cancelled, i ∈ t.cancelled
  fired : ∀ f ∈ s.fired, f ∈ t.fired
  rest : ∀ e ∈ t.q.rest, e ∈ s.q.timers.entries ++ s.q.rest

theorem grown_of_step {op : TimerOp ι} (hstep : s.step op = some t) : s.Grown op t := by
  obtain ⟨-, q, hq, rfl⟩ := exists_of_step hstep
  cases op with
  | tick clock =>
      simp only [TimerQueue.step, Option.ite_none_right_eq_some, Option.some.injEq] at hq
      obtain ⟨-, rfl⟩ := hq
      exact ⟨rfl, rfl, fun _ => id, fun _ => id, fun _ => List.mem_append_right _⟩
  | addTask i =>
      simp only [TimerQueue.step, Option.ite_none_right_eq_some, Option.some.injEq] at hq
      obtain ⟨-, rfl⟩ := hq
      obtain ⟨a, heq⟩ := s.q.addTask_eq i
      rw [heq]
      exact ⟨rfl, rfl, fun _ => id, fun _ => id,
        fun _ => List.mem_append_right _⟩
  | cancelTask i =>
      simp only [TimerQueue.step, Option.ite_none_right_eq_some, Option.some.injEq] at hq
      obtain ⟨-, rfl⟩ := hq
      obtain ⟨timers, marks, heq, -, -⟩ := s.q.cancelTask_eq i
      rw [heq]
      by_cases hi : s.q.Holds i
      · rw [record, if_pos hi]
        exact ⟨rfl, rfl, fun _ => List.mem_cons_of_mem i, fun _ => id,
          fun _ => List.mem_append_right _⟩
      · rw [record, if_neg hi]
        exact ⟨rfl, rfl, fun _ => id, fun _ => id, fun _ => List.mem_append_right _⟩
  | handleTimer readAt =>
      obtain ⟨-, -, a, rfl⟩ := TimerQueue.handleTimer_cases hq
      refine ⟨rfl, rfl, fun _ => id, fun _ => id, fun e he => List.mem_append_left _ ?_⟩
      rw [← s.q.timers.belowBound_append_fromBound s.q.clock]
      exact List.mem_append_left _ he
  | callback =>
      obtain ⟨now, expired, e, rest, hbatch, rfl⟩ := TimerQueue.callback_cases hq
      have hrest : s.q.rest = e :: rest := by
        rw [TimerQueue.rest, hbatch]
        rfl
      rw [record, hbatch]
      refine ⟨rfl, rfl, fun _ => id, fun _ => List.mem_append_left _, fun f hf => ?_⟩
      rw [hrest]
      exact List.mem_append_right _ (List.mem_cons_of_mem e hf)
  | resetTimers =>
      obtain ⟨now, expired, hbatch, rfl⟩ := TimerQueue.resetTimers_cases hq
      obtain ⟨-, -, hnone⟩ := resetTimers_frame s.q now expired
      obtain ⟨hfired, hcancelled, hadded⟩ := foldl_restartTurn_frame s.q.expired s
      refine ⟨start_foldl_restartTurn _ s, hadded, fun i hi => hcancelled.symm ▸ hi,
        fun f hf => hfired.symm ▸ hf, fun e he => ?_⟩
      rw [TimerQueue.rest, hnone] at he
      cases he

/-- Only `addTask` makes a timer fire that would not fire before. -/
theorem KeptInv.mayFire_of_step (h : s.KeptInv) {op : TimerOp ι} (hstep : s.step op = some t)
    {i : ι} (hop : op ≠ .addTask i) (hfire : t.q.MayFire i) : s.q.MayFire i := by
  obtain ⟨hstart, hadded, hcancelled, hfired, hrest⟩ := grown_of_step hstep
  rw [(keptInv_step h hstep).mayFire_iff] at hfire
  obtain ⟨hi, hwhen⟩ := hfire
  have hin : i ∈ s.added := by
    rw [hadded] at hi
    refine (List.mem_append.mp hi).resolve_left fun hnew => ?_
    cases op with
    | addTask j => exact hop (congrArg TimerOp.addTask (List.mem_singleton.mp hnew).symm)
    | _ => cases hnew
  rcases hwhen with hwhen | ⟨hnot, hwhen⟩
  · obtain ⟨e, he, rfl⟩ := List.mem_map.mp hwhen
    exact Or.inl (List.mem_map_of_mem (hrest e he))
  · refine (h.mayFire_iff i).mpr ⟨hin, Or.inr ⟨fun hmem => hnot (hcancelled i hmem), ?_⟩⟩
    refine hwhen.imp (fun hrepeats => hstart ▸ hrepeats) fun hnone => ?_
    rw [runs, List.filter_eq_nil_iff] at hnone ⊢
    exact fun f hf => hnone f (hfired f hf)

/-- After `cancelTask` the timer will not fire, unless its callback in the batch is still to be
started. -/
theorem KeptInv.mayFire_cancelTask_iff (h : s.KeptInv) {i : ι}
    (hstep : s.step (.cancelTask i) = some t) :
    t.q.MayFire i ↔ i ∈ s.q.rest.map Prod.snd := by
  have ht : t.KeptInv := keptInv_step h hstep
  have hrest : t.q.rest = s.q.rest := by
    obtain ⟨-, q, hq, rfl⟩ := exists_of_step hstep
    simp only [TimerQueue.step, Option.ite_none_right_eq_some, Option.some.injEq] at hq
    obtain ⟨-, rfl⟩ := hq
    obtain ⟨timers, marks, heq, -, -⟩ := s.q.cancelTask_eq i
    rw [heq]
    rfl
  constructor
  · intro hfire
    by_contra hnot
    -- a timer that the queue holds has been marked as cancelled
    have hheld : s.q.Holds i := by
      rcases h.mayFire_of_step hstep (by simp) hfire with hwaits | ⟨e, he, rfl, -⟩
      · rw [TimerQueue.Waits, List.map_append] at hwaits
        rw [TimerQueue.Holds, List.map_append]
        exact List.mem_append_left _ ((List.mem_append.mp hwaits).resolve_right hnot)
      · exact List.mem_map_of_mem (List.mem_append_right _ he)
    have hcancelled : i ∈ t.cancelled := by
      obtain ⟨-, q, -, rfl⟩ := exists_of_step hstep
      rw [record, if_pos hheld]
      exact List.mem_cons_self
    rcases (ht.mayFire_iff i).mp hfire with ⟨-, hwhen | ⟨hgone, -⟩⟩
    · exact hnot (hrest ▸ hwhen)
    · exact hgone hcancelled
  · intro hin
    refine Or.inl ?_
    rw [TimerQueue.Waits, List.map_append, hrest]
    exact List.mem_append_right _ hin

end TimerRun

end Lotta
