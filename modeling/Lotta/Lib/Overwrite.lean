/-
# Overwriting a list from left to right

`overwrite read d n xs` is the loop that assigns the positions `d`, ..., `d + n - 1` of a list
one after the other.  Round `k` reads its value from the list as the earlier rounds have left
it, so that the loop may copy a list within itself.

`Overwritten` says which positions hold new values.  One assignment keeps it
(`overwritten_set`), and so does the whole loop when no round reads a position that has been
assigned (`overwritten_overwrite`).  Two loops are instances: the forward copy to an earlier
position and the copy in reverse order.
-/
import Mathlib.Data.List.Basic
import Mathlib.Tactic.Common

namespace Overwrite

variable {α : Type*}

/-- Assign `n` positions from `d` on, the one with number `k` the value `read k`.  A read that
fails assigns nothing. -/
def overwrite (read : ℕ → List α → Option α) (d : ℕ) : ℕ → List α → List α
  | 0, xs => xs
  | k + 1, xs =>
      let ys := overwrite read d k xs
      (read k ys).elim ys (ys.set (d + k))

/-- The loop keeps the length of the list. -/
@[simp] theorem length_overwrite (read : ℕ → List α → Option α) (d n : ℕ) (xs : List α) :
    (overwrite read d n xs).length = xs.length := by
  induction n with
  | zero => rfl
  | succ k ih =>
      simp only [overwrite]
      cases read k (overwrite read d k xs) with
      | none => exact ih
      | some x =>
          rw [Option.elim_some, List.length_set]
          exact ih

/-- `ys` is `xs` with the values of `src` at the `k` positions from `d` on. -/
def Overwritten (src : ℕ → Option α) (d k : ℕ) (xs ys : List α) : Prop :=
  ∀ j, ys[j]? = if d ≤ j ∧ j < d + k then src (j - d) else xs[j]?

variable {src : ℕ → Option α} {d k n : ℕ} {xs ys : List α}

theorem overwritten_zero (src : ℕ → Option α) (d : ℕ) (xs : List α) :
    Overwritten src d 0 xs xs := by
  intro j
  rw [if_neg (by omega)]

/-- The positions that are still to be assigned hold their old values. -/
theorem Overwritten.getElem?_of_le (h : Overwritten src d k xs ys) {j : ℕ} (hj : d + k ≤ j) :
    ys[j]? = xs[j]? := by
  rw [h j, if_neg (by omega)]

/-- One more assignment. -/
theorem overwritten_set (h : Overwritten src d k xs ys) {x : α} (hx : src k = some x)
    (hk : d + k < xs.length) : Overwritten src d (k + 1) xs (ys.set (d + k) x) := by
  have hlen : d + k < ys.length := by
    have hkeep := h.getElem?_of_le (Nat.le_refl (d + k))
    rw [List.getElem?_eq_getElem hk] at hkeep
    exact (List.getElem?_eq_some_iff.mp hkeep).1
  intro j
  rw [List.getElem?_set]
  by_cases hj : d + k = j
  · rw [if_pos hj, if_pos hlen, if_pos (by omega), ← hx]
    congr 1
    omega
  · rw [if_neg hj, h j]
    congr 1
    simp only [eq_iff_iff]
    omega

/-- The loop overwrites its positions with the values that its reads give, where these reads
succeed and do not depend on what has been assigned. -/
theorem overwritten_overwrite {read : ℕ → List α → Option α} (hn : d + n ≤ xs.length)
    (hread : ∀ k < n, ∀ ys, Overwritten src d k xs ys → read k ys = src k)
    (hsrc : ∀ k < n, (src k).isSome) : Overwritten src d n xs (overwrite read d n xs) := by
  induction n with
  | zero => exact overwritten_zero src d xs
  | succ k ih =>
      have hprev := ih (by omega) (fun i hi => hread i (by omega)) fun i hi => hsrc i (by omega)
      obtain ⟨x, hx⟩ := Option.isSome_iff_exists.mp (hsrc k (by omega))
      simp only [overwrite]
      rw [hread k (by omega) _ hprev, hx]
      exact overwritten_set hprev hx (by omega)

/-! ## Copying within a list -/

/-- The forward copy of `n` elements from position `i` on to position `d`. -/
def copyForward (i d n : ℕ) (xs : List α) : List α :=
  overwrite (fun k ys => ys[i + k]?) d n xs

/-- A forward copy to an earlier position reads no position that it has assigned. -/
theorem overwritten_copyForward {i : ℕ} (hd : d ≤ i) (hn : i + n ≤ xs.length) :
    Overwritten (fun k => xs[i + k]?) d n xs (copyForward i d n xs) := by
  apply overwritten_overwrite (by omega)
  · intro k _ ys hys
    exact hys.getElem?_of_le (by omega)
  · intro k hk
    rw [List.getElem?_eq_getElem (by omega)]
    rfl

/-- The forward copy of all elements from a position on to the front. -/
theorem copyForward_front {i : ℕ} (hi : i ≤ xs.length) :
    copyForward i 0 (xs.length - i) xs = xs.drop i ++ xs.drop (xs.length - i) := by
  apply List.ext_getElem?
  intro j
  rw [overwritten_copyForward (Nat.zero_le i) (by omega), List.getElem?_append,
    List.length_drop]
  by_cases hj : j < xs.length - i
  · rw [if_pos (by omega), if_pos hj, List.getElem?_drop, Nat.sub_zero]
  · rw [if_neg (by omega), if_neg hj, List.getElem?_drop]
    congr 1
    omega

/-! ## Copying in reverse order -/

/-- The copy of `src` to another list, the last element first. -/
def copyReverse (src dest : List α) : List α :=
  overwrite (fun k _ => src[src.length - k - 1]?) 0 src.length dest

/-- Whatever the other list holds, it ends as the reversed source. -/
theorem copyReverse_eq {src dest : List α} (hlen : dest.length = src.length) :
    copyReverse src dest = src.reverse := by
  have h : Overwritten (fun k => src[src.length - k - 1]?) 0 src.length dest
      (copyReverse src dest) := by
    unfold copyReverse
    apply overwritten_overwrite (by omega)
    · intro k _ ys _
      rfl
    · intro k hk
      rw [List.getElem?_eq_getElem (by omega)]
      rfl
  apply List.ext_getElem?
  intro j
  rw [h j]
  by_cases hj : j < src.length
  · rw [if_pos (by omega), List.getElem?_reverse hj]
    show src[src.length - (j - 0) - 1]? = src[src.length - 1 - j]?
    congr 1
    omega
  · rw [if_neg (by omega), List.getElem?_eq_none (by omega), List.getElem?_eq_none]
    rw [List.length_reverse]
    omega

end Overwrite
