/-
# One system as the image of another

A concrete system `step` and an abstract one `step'` with an abstraction `abs` between their
states and `f` between their labels.  `Mirrored` says of one step that the abstract system
makes the same step: it is enabled or not alike, and the results correspond.  When every step
of a run is mirrored, what holds along the abstract run holds along the concrete one.

`allSteps_congr` compares two conditions on the steps of a run under an invariant; with it a
condition under which steps are mirrored is shown to be exact.
-/
import Lotta.Lib.Runs

namespace Runs

variable {σ ι σ' ι' : Type*} {step : σ → ι → Option σ} {step' : σ' → ι' → Option σ'}
  {abs : σ → σ'} {f : ι → ι'}

/-- The abstract system makes the same step. -/
def Mirrored (step : σ → ι → Option σ) (step' : σ' → ι' → Option σ') (abs : σ → σ')
    (f : ι → ι') (s : σ) (i : ι) : Prop :=
  step' (abs s) (f i) = (step s i).map abs

/-- What holds along the abstract run holds along the concrete one. -/
theorem Along.of_mirrored {P : σ' → Prop} {is : List ι} :
    ∀ {s : σ}, AllSteps step (Mirrored step step' abs f) s is →
      Along step' P (abs s) (is.map f) → Along step (fun s => P (abs s)) s is := by
  induction is with
  | nil =>
      intro s _ h
      exact h
  | cons i is ih =>
      intro s hall h
      refine ⟨h.1, fun t hstep => ?_⟩
      obtain ⟨hmirror, hall⟩ := hall t hstep
      rw [Mirrored, hstep, Option.map_some] at hmirror
      exact ih hall (h.2 (abs t) hmirror)

/-- Two conditions that agree on the steps from states that satisfy an invariant. -/
theorem allSteps_congr {ok ok' : σ → ι → Prop} {J : σ → Prop}
    (hJ : ∀ s i t, J s → step s i = some t → J t)
    (hok : ∀ s i t, J s → step s i = some t → (ok s i ↔ ok' s i)) {is : List ι} :
    ∀ {s : σ}, J s → (AllSteps step ok s is ↔ AllSteps step ok' s is) := by
  induction is with
  | nil =>
      intro s _
      exact Iff.rfl
  | cons i is ih =>
      intro s hs
      refine forall_congr' fun t => forall_congr' fun hstep => ?_
      rw [hok s i t hs hstep, ih (hJ s i t hs hstep)]

end Runs
