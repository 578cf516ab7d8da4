/-
# Removal from an unordered array by exchange with the last entry

Removing position `i` exchanges it with the last position and drops the last: every
other entry stays where it is, except the last one, which moves to `i`.
-/
import Mathlib.Data.List.Basic
import Mathlib.Tactic.Common
import Mathlib.Tactic.SplitIfs

namespace SwapRemove

variable {α : Type*}

/-- Exchange the entry at position `i` with the last one. -/
def swapLast (l : List α) (i : ℕ) : List α :=
  match l[i]?, l[l.length - 1]? with
  | some a, some z => (l.set i z).set (l.length - 1) a
  | _, _ => l

/-- Remove the entry at position `i`: exchange it with the last one and drop that. -/
def swapRemove (l : List α) (i : ℕ) : List α := (swapLast l i).dropLast

theorem swapLast_eq {l : List α} {i : ℕ} (hi : i < l.length)
    (hlast : l.length - 1 < l.length) :
    swapLast l i = (l.set i l[l.length - 1]).set (l.length - 1) l[i] := by
  rw [swapLast, List.getElem?_eq_getElem hi,
    List.getElem?_eq_getElem hlast]

@[simp] theorem length_swapLast (l : List α) (i : ℕ) : (swapLast l i).length = l.length := by
  unfold swapLast
  split <;> simp

@[simp] theorem length_swapRemove (l : List α) (i : ℕ) :
    (swapRemove l i).length = l.length - 1 := by
  simp [swapRemove]

/-- The entry that an exchange brings to position `i`. -/
theorem getElem?_swapLast_self {l : List α} {i : ℕ} (hi : i < l.length) :
    (swapLast l i)[i]? = l[l.length - 1]? := by
  rw [swapLast_eq hi (by omega)]
  by_cases hlast : l.length - 1 = i
  · simp [hlast, hi]
  · rw [List.getElem?_set_ne hlast, List.getElem?_set_self hi,
      List.getElem?_eq_getElem (by omega)]

/-- The entries after a removal. -/
theorem getElem?_swapRemove {l : List α} {i : ℕ} (hi : i < l.length) (j : ℕ) :
    (swapRemove l i)[j]? =
      if j < l.length - 1 then (if j = i then l[l.length - 1]? else l[j]?) else none := by
  rw [swapRemove, List.getElem?_dropLast, length_swapLast]
  by_cases hj : j < l.length - 1
  · rw [if_pos hj, if_pos hj]
    -- the exchange has written two positions, and the last one is dropped
    by_cases hji : j = i
    · rw [if_pos hji, hji, getElem?_swapLast_self hi]
    · rw [if_neg hji, swapLast_eq hi (by omega), List.getElem?_set_ne (by omega),
        List.getElem?_set_ne (Ne.symm hji)]
  · rw [if_neg hj, if_neg hj]

/-- Every entry but the removed one is still there. -/
theorem mem_swapRemove {l : List α} {i j : ℕ} {a : α} (hi : i < l.length) (hij : j ≠ i)
    (hj : l[j]? = some a) : a ∈ swapRemove l i := by
  have hlt : j < l.length := (List.getElem?_eq_some_iff.mp hj).1
  by_cases hlast : j = l.length - 1
  · -- the last entry has moved to position `i`
    refine List.mem_of_getElem? (i := i) ?_
    rw [getElem?_swapRemove hi, if_pos (by omega), if_pos rfl, ← hlast, hj]
  · refine List.mem_of_getElem? (i := j) ?_
    rw [getElem?_swapRemove hi, if_pos (by omega), if_neg hij, hj]

/-- Without an exchange: removing the last position drops it. -/
theorem swapRemove_last {l : List α} {i : ℕ} (hi : i + 1 = l.length) :
    swapRemove l i = l.dropLast := by
  apply List.ext_getElem?
  intro j
  rw [getElem?_swapRemove (by omega), List.getElem?_dropLast]
  split_ifs with h1 h2
  · omega
  · rfl
  · rfl

end SwapRemove
