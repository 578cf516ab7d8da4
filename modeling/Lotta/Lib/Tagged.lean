/-
# Lists of items from several sources

A list of pairs holds items that come from several sources, each with its source.  `itemsOf u`
are the items of the source `u`, in order; a list whose items of each source are a given list
is an interleaving of those lists.  `itemsOf_insert` is the rule for a queue with several
producers: a new item goes behind everything of its own source, wherever the items of the
other sources stand.
-/
import Mathlib.Data.List.Basic
import Mathlib.Logic.Function.Basic
import Mathlib.Tactic.Common

namespace Tagged

variable {τ α : Type*} [DecidableEq τ]

/-- The items of one source, in order. -/
def itemsOf (u : τ) (xs : List (τ × α)) : List α := (xs.filter fun x => x.1 = u).map Prod.snd

@[simp] theorem itemsOf_nil (u : τ) : itemsOf u ([] : List (τ × α)) = [] := rfl

@[simp] theorem itemsOf_append (u : τ) (xs ys : List (τ × α)) :
    itemsOf u (xs ++ ys) = itemsOf u xs ++ itemsOf u ys := by
  unfold itemsOf
  rw [List.filter_append, List.map_append]

theorem itemsOf_cons_self (u : τ) (a : α) (xs : List (τ × α)) :
    itemsOf u ((u, a) :: xs) = a :: itemsOf u xs := by
  unfold itemsOf
  rw [List.filter_cons_of_pos (by simp), List.map_cons]

theorem itemsOf_cons_of_ne {u v : τ} (h : v ≠ u) (a : α) (xs : List (τ × α)) :
    itemsOf u ((v, a) :: xs) = itemsOf u xs := by
  unfold itemsOf
  rw [List.filter_cons_of_neg (by simpa using h)]

theorem mem_itemsOf {u : τ} {a : α} {xs : List (τ × α)} : a ∈ itemsOf u xs ↔ (u, a) ∈ xs := by
  unfold itemsOf
  rw [List.mem_map]
  constructor
  · rintro ⟨⟨v, b⟩, hmem, rfl⟩
    rw [List.mem_filter, decide_eq_true_eq] at hmem
    obtain ⟨hmem, rfl⟩ := hmem
    exact hmem
  · intro hmem
    exact ⟨(u, a), List.mem_filter.mpr ⟨hmem, by simp⟩, rfl⟩

/-- A new item behind all the items of its source. -/
theorem itemsOf_insert (xs : List (τ × α)) {ys : List (τ × α)} {u : τ}
    (h : itemsOf u ys = []) (a : α) (v : τ) :
    itemsOf v (xs ++ (u, a) :: ys) =
      Function.update (fun w => itemsOf w (xs ++ ys)) u (itemsOf u (xs ++ ys) ++ [a]) v := by
  by_cases hv : v = u
  · subst hv
    rw [Function.update_self, itemsOf_append, itemsOf_append, itemsOf_cons_self, h,
      List.append_nil]
  · rw [Function.update_of_ne hv, itemsOf_append, itemsOf_append,
      itemsOf_cons_of_ne (Ne.symm hv)]

end Tagged
