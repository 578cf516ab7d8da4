/-
# Bounded response

A component that makes steps of its own among the steps of others reaches a goal after a
bounded number of its own steps when a measure goes down with each of them.  The others may
raise the measure, by what their steps cost: `goal_of_countdown_paid` is this rule for runs of a
partial step function, where the measure of the first state and the cost of the run bound how
many own steps the run needs.  In `goal_of_countdown` nothing costs anything.  The rules with
`or` say instead what is left of the measure where the run ends.
-/
import Lotta.Lib.Runs

namespace Runs

variable {σ ι : Type*} {step : σ → ι → Option σ}

/-- What the steps of a run cost together. -/
def totalCost (cost : ι → ℕ) : List ι → ℕ
  | [] => 0
  | i :: is => cost i + totalCost cost is

theorem totalCost_zero (is : List ι) : totalCost (fun _ => 0) is = 0 := by
  induction is with
  | nil => rfl
  | cons i is ih => rw [totalCost, ih]

/-- What holds once and is kept by every step holds where the run ends. -/
theorem final_of_stays {G : σ → Prop} (hstay : ∀ s i t, G s → step s i = some t → G t)
    {is : List ι} {s t : σ} (hs : G s) (hrun : run step s is = some t) : G t :=
  (Along.of_invariant hstay hs).final hrun

/-- The goal has been reached, or the measure has come down by the own steps made, less what the
run has cost. -/
theorem goal_or_countdown_paid {ok : σ → ι → Prop} {J G : σ → Prop} {p : ι → Bool} {cost : ι → ℕ}
    {m : σ → ℕ} (hJ : ∀ s i t, J s → ok s i → step s i = some t → J t)
    (hstay : ∀ s i t, G s → step s i = some t → G t)
    (hdown : ∀ s i t, J s → ¬ G s → ok s i → step s i = some t →
      G t ∨ m t + (if p i then 1 else 0) ≤ m s + cost i) {is : List ι} :
    ∀ {s t : σ}, J s → AllSteps step ok s is → run step s is = some t →
      G t ∨ J t ∧ m t + is.countP p ≤ m s + totalCost cost is := by
  induction is with
  | nil =>
      intro s t hj _ hrun
      obtain rfl : s = t := by simpa using hrun
      exact Or.inr ⟨hj, Nat.le_refl _⟩
  | cons i is ih =>
      intro s t hj hok hrun
      rw [run_cons, Option.bind_eq_some_iff] at hrun
      obtain ⟨u, hstep, hrest⟩ := hrun
      by_cases hgoal : G s
      · exact Or.inl (final_of_stays hstay (hstay s i u hgoal hstep) hrest)
      · obtain ⟨hi, hok⟩ := hok u hstep
        rcases hdown s i u hj hgoal hi hstep with hu | hu
        · exact Or.inl (final_of_stays hstay hu hrest)
        · refine (ih (hJ s i u hj hi hstep) hok hrest).imp_right ?_
          rintro ⟨ht, hle⟩
          refine ⟨ht, ?_⟩
          rw [List.countP_cons, totalCost]
          omega

/-- After as many own steps as the measure says at first and the run costs, the goal is
reached. -/
theorem goal_of_countdown_paid {ok : σ → ι → Prop} {J G : σ → Prop} {p : ι → Bool}
    {cost : ι → ℕ} {m : σ → ℕ}
    (hJ : ∀ s i t, J s → ok s i → step s i = some t → J t)
    (hstay : ∀ s i t, G s → step s i = some t → G t)
    (hpos : ∀ s, J s → ¬ G s → 0 < m s)
    (hdown : ∀ s i t, J s → ¬ G s → ok s i → step s i = some t →
      G t ∨ m t + (if p i then 1 else 0) ≤ m s + cost i) {is : List ι} {s t : σ} (hj : J s)
    (hok : AllSteps step ok s is) (hrun : run step s is = some t)
    (hle : m s + totalCost cost is ≤ is.countP p) : G t := by
  by_contra hgoal
  obtain ⟨ht, hdone⟩ := (goal_or_countdown_paid hJ hstay hdown hj hok hrun).resolve_left hgoal
  have hleft := hpos t ht hgoal
  omega

/-- Where nothing costs anything, the measure has come down by the own steps made. -/
theorem goal_or_countdown {ok : σ → ι → Prop} {J G : σ → Prop} {p : ι → Bool} {m : σ → ℕ}
    (hJ : ∀ s i t, J s → step s i = some t → J t)
    (hstay : ∀ s i t, G s → step s i = some t → G t)
    (hdown : ∀ s i t, J s → ¬ G s → ok s i → step s i = some t →
      G t ∨ m t + (if p i then 1 else 0) ≤ m s) {is : List ι} {s t : σ} (hj : J s)
    (hok : AllSteps step ok s is) (hrun : run step s is = some t) :
    G t ∨ J t ∧ m t + is.countP p ≤ m s := by
  have hpaid := @goal_or_countdown_paid σ ι step ok J G p (fun _ => 0) m
    (fun s i t hs _ h => hJ s i t hs h) hstay hdown is s t hj hok hrun
  rwa [totalCost_zero] at hpaid

/-- After as many own steps as the measure says at first, the goal is reached. -/
theorem goal_of_countdown {ok : σ → ι → Prop} {J G : σ → Prop} {p : ι → Bool} {m : σ → ℕ}
    (hJ : ∀ s i t, J s → step s i = some t → J t)
    (hstay : ∀ s i t, G s → step s i = some t → G t)
    (hpos : ∀ s, J s → ¬ G s → 0 < m s)
    (hdown : ∀ s i t, J s → ¬ G s → ok s i → step s i = some t →
      G t ∨ m t + (if p i then 1 else 0) ≤ m s) {is : List ι} {s t : σ} (hj : J s)
    (hok : AllSteps step ok s is) (hrun : run step s is = some t) (hle : m s ≤ is.countP p) :
    G t := by
  by_contra hgoal
  obtain ⟨ht, hdone⟩ := (goal_or_countdown hJ hstay hdown hj hok hrun).resolve_left hgoal
  have hleft := hpos t ht hgoal
  omega

end Runs
