/-
# Runs of labelled partial steps

A system is a partial step function `step : σ → ι → Option σ`: the label carries
every choice of the environment, and `none` says that the step is not enabled.
A run is a list of labels.  Three predicates speak about a whole run:

* `Along step P s is`: `P` holds in the start state and in every state the run reaches;
* `AllSteps step ok s is`: every step that the run takes meets the condition `ok`,
  which sees the state before the step and the label;
* `Admissible step ok s is`: every label meets `ok` where it is offered, enabled or not.

`Along.of_steps` is the invariant rule, `along_iff_allSteps` its sharp form, where
the condition is exactly what keeps the property, and `run_of_admissible` adds progress.
`along_of_doomed` is the sharp form for a property that is lost later than the step that
does the damage.
-/
import Mathlib.Data.List.Basic
import Mathlib.Logic.Basic
import Mathlib.Tactic.Common

namespace Runs

variable {σ ι : Type*} {step : σ → ι → Option σ}

/-- The state that a run ends in, if every one of its steps is enabled. -/
def run (step : σ → ι → Option σ) (s : σ) (is : List ι) : Option σ :=
  is.foldlM step s

/-- `P` holds in the start state and in every state reached by the run. -/
def Along (step : σ → ι → Option σ) (P : σ → Prop) : σ → List ι → Prop
  | s, [] => P s
  | s, i :: is => P s ∧ ∀ t, step s i = some t → Along step P t is

/-- Every step taken by the run meets the condition `ok`. -/
def AllSteps (step : σ → ι → Option σ) (ok : σ → ι → Prop) : σ → List ι → Prop
  | _, [] => True
  | s, i :: is => ∀ t, step s i = some t → ok s i ∧ AllSteps step ok t is

/-- Every label of the run is admissible in the state in which it is offered. -/
def Admissible (step : σ → ι → Option σ) (ok : σ → ι → Prop) : σ → List ι → Prop
  | _, [] => True
  | s, i :: is => ok s i ∧ ∀ t, step s i = some t → Admissible step ok t is

/-- A statement about the result of a step is decided by making the step. -/
def decidableOfStep {P : σ → Prop} (o : Option σ) (hP : ∀ t, Decidable (P t)) :
    Decidable (∀ t, o = some t → P t) :=
  match o with
  | none => isTrue (by simp)
  | some t => match hP t with
    | isTrue h => isTrue (by rintro _ ⟨⟩; exact h)
    | isFalse h => isFalse fun hall => h (hall t rfl)

instance decidableAlong {P : σ → Prop} [DecidablePred P] :
    (s : σ) → (is : List ι) → Decidable (Along step P s is)
  | s, [] => inferInstanceAs (Decidable (P s))
  | s, i :: is =>
      @instDecidableAnd (P s) _ _ (decidableOfStep (step s i) fun t => decidableAlong t is)

instance decidableAllSteps {ok : σ → ι → Prop} [∀ s i, Decidable (ok s i)] :
    (s : σ) → (is : List ι) → Decidable (AllSteps step ok s is)
  | _, [] => isTrue trivial
  | s, i :: is => decidableOfStep (step s i) fun t =>
      @instDecidableAnd (ok s i) _ _ (decidableAllSteps t is)

instance decidableAdmissible {ok : σ → ι → Prop} [∀ s i, Decidable (ok s i)] :
    (s : σ) → (is : List ι) → Decidable (Admissible step ok s is)
  | _, [] => isTrue trivial
  | s, i :: is =>
      @instDecidableAnd (ok s i) _ _ (decidableOfStep (step s i) fun t => decidableAdmissible t is)

@[simp] theorem run_nil (s : σ) : run step s [] = some s := rfl

@[simp] theorem run_cons (s : σ) (i : ι) (is : List ι) :
    run step s (i :: is) = (step s i).bind fun t => run step t is := rfl

/-- A property that holds along a run holds where the run starts. -/
theorem Along.start {P : σ → Prop} {s : σ} {is : List ι} (h : Along step P s is) : P s := by
  cases is with
  | nil => exact h
  | cons i is => exact h.1

/-- A property that holds along a run holds where the run ends. -/
theorem Along.final {P : σ → Prop} {is : List ι} :
    ∀ {s t : σ}, Along step P s is → run step s is = some t → P t := by
  induction is with
  | nil =>
      intro s t h hrun
      obtain rfl : s = t := by simpa using hrun
      exact h
  | cons i is ih =>
      intro s t h hrun
      rw [run_cons, Option.bind_eq_some_iff] at hrun
      obtain ⟨u, hstep, hrest⟩ := hrun
      exact ih (h.2 u hstep) hrest

/-- What holds along a run may be weakened. -/
theorem Along.mono {P Q : σ → Prop} (hPQ : ∀ s, P s → Q s) {is : List ι} :
    ∀ {s : σ}, Along step P s is → Along step Q s is := by
  induction is with
  | nil => intro s h; exact hPQ s h
  | cons i is ih => intro s h; exact ⟨hPQ s h.1, fun t ht => ih (h.2 t ht)⟩

/-- The invariant rule: what every step that meets `ok` preserves holds along every
run whose steps all meet `ok`. -/
theorem Along.of_steps {ok : σ → ι → Prop} {P : σ → Prop}
    (hP : ∀ s i t, P s → ok s i → step s i = some t → P t) {is : List ι} :
    ∀ {s : σ}, P s → AllSteps step ok s is → Along step P s is := by
  induction is with
  | nil => intro s h _; exact h
  | cons i is ih =>
      intro s h hok
      refine ⟨h, fun t ht => ?_⟩
      obtain ⟨hi, hrest⟩ := hok t ht
      exact ih (hP s i t h hi ht) hrest

/-- The invariant rule without a condition on the steps. -/
theorem Along.of_invariant {P : σ → Prop}
    (hP : ∀ s i t, P s → step s i = some t → P t) {is : List ι} :
    ∀ {s : σ}, P s → Along step P s is := by
  induction is with
  | nil => intro s h; exact h
  | cons i is ih => intro s h; exact ⟨h, fun t ht => ih (hP s i t h ht)⟩

/-- Without a condition every run is admissible. -/
theorem admissible_true (s : σ) (is : List ι) : Admissible step (fun _ _ => True) s is := by
  induction is generalizing s with
  | nil => trivial
  | cons i is ih => exact ⟨trivial, fun t _ => ih t⟩

/-- The progress rule: when every admissible step is enabled and keeps `P`, an
admissible run gets to its end, and `P` holds there. -/
theorem run_of_admissible {ok : σ → ι → Prop} {P : σ → Prop}
    (hP : ∀ s i, P s → ok s i → ∃ t, step s i = some t ∧ P t) {is : List ι} :
    ∀ {s : σ}, P s → Admissible step ok s is → ∃ t, run step s is = some t ∧ P t := by
  induction is with
  | nil => intro s h _; exact ⟨s, rfl, h⟩
  | cons i is ih =>
      rintro s h ⟨hi, hrest⟩
      obtain ⟨t, ht, hPt⟩ := hP s i h hi
      obtain ⟨u, hu, hPu⟩ := ih hPt (hrest t ht)
      exact ⟨u, by rw [run_cons, ht]; exact hu, hPu⟩

/-- The sharp invariant rule.  `J` is kept by every step; under `J` and `P`, a step
keeps `P` exactly when it meets `ok`.  Then `P` holds along a run exactly when all
its steps meet `ok`. -/
theorem along_iff_allSteps {ok : σ → ι → Prop} {J P : σ → Prop}
    (hJ : ∀ s i t, J s → step s i = some t → J t)
    (hP : ∀ s i t, J s → P s → step s i = some t → (P t ↔ ok s i)) {is : List ι} :
    ∀ {s : σ}, J s → P s → (Along step P s is ↔ AllSteps step ok s is) := by
  -- on the run: `J` is known in every state, so each step is judged by `hP`
  induction is with
  | nil => intro s _ h; exact ⟨fun _ => trivial, fun _ => h⟩
  | cons i is ih =>
      intro s hj h
      constructor
      · rintro ⟨-, hrest⟩ t ht
        have hPt : P t := (hrest t ht).start
        exact ⟨(hP s i t hj h ht).1 hPt, (ih (hJ s i t hj ht) hPt).1 (hrest t ht)⟩
      · intro hok
        refine ⟨h, fun t ht => ?_⟩
        obtain ⟨hi, hrest⟩ := hok t ht
        have hPt : P t := (hP s i t hj h ht).2 hi
        exact (ih (hJ s i t hj ht) hPt).2 hrest

/-- The sharp rule for damage that shows later.  A step that does not meet `ok` leads to a
`Doomed` state, and `Doomed` lasts until the property `P` is lost.  Then `P` holds along a
run whose steps all meet `ok`, and of the runs that end in a state that is not doomed along
no others. -/
theorem along_of_doomed (step : σ → ι → Option σ) (ok : σ → ι → Prop) (J P Doomed : σ → Prop)
    (hJ : ∀ s i t, J s → step s i = some t → J t)
    (hkeep : ∀ s i t, J s → P s → ¬ Doomed s → ok s i → step s i = some t → P t ∧ ¬ Doomed t)
    (hlose : ∀ s i t, J s → ¬ Doomed s → ¬ ok s i → step s i = some t → P t → Doomed t)
    (hstay : ∀ s i t, J s → Doomed s → step s i = some t → P t → Doomed t)
    {s : σ} (hj : J s) (hp : P s) (hd : ¬ Doomed s) (is : List ι) :
    (AllSteps step ok s is → Along step P s is) ∧
      ∀ t, run step s is = some t → ¬ Doomed t → Along step P s is → AllSteps step ok s is := by
  have hdoomed : ∀ (is : List ι) (s t : σ), J s → Doomed s → Along step P s is →
      run step s is = some t → Doomed t := by
    intro is
    induction is with
    | nil =>
        intro s t _ hds _ hrun
        obtain rfl : s = t := by simpa using hrun
        exact hds
    | cons i is ih =>
        intro s t hj hds halong hrun
        rw [run_cons, Option.bind_eq_some_iff] at hrun
        obtain ⟨u, hstep, hrest⟩ := hrun
        have hu := halong.2 u hstep
        exact ih u t (hJ s i u hj hstep) (hstay s i u hj hds hstep hu.start) hu hrest
  constructor
  · intro hok
    refine (Along.of_steps (P := fun s => J s ∧ P s ∧ ¬ Doomed s) ?_ ⟨hj, hp, hd⟩ hok).mono
      fun _ h => h.2.1
    rintro s i t ⟨hj, hp, hd⟩ hi ht
    exact ⟨hJ s i t hj ht, hkeep s i t hj hp hd hi ht⟩
  · induction is generalizing s with
    | nil => exact fun _ _ _ _ => trivial
    | cons i is ih =>
        intro t hrun hdt halong u hstep
        rw [run_cons, hstep, Option.bind_some] at hrun
        have hu := halong.2 u hstep
        have hju := hJ s i u hj hstep
        have hi : ok s i := by
          by_contra hi
          exact hdt (hdoomed is u t hju (hlose s i u hj hd hi hstep hu.start) hu hrun)
        obtain ⟨hpu, hdu⟩ := hkeep s i u hj hp hd hi hstep
        exact ⟨hi, ih hju hpu hdu t hrun hdt hu⟩

end Runs
