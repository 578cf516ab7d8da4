/-
# The first occurrence of a pattern in a sequence

`search pat l` is the position at which `pat` first occurs in `l`, and the length of
`l` when it does not occur: the contract of a forward search that answers with the
end of the range for "not found".  The lemmas split a sequence at a first occurrence
and say when a known occurrence is the first.  `cut` is the split itself: an
unbordered delimiter is found where a sequence free of it ends.
-/
import Mathlib.Data.List.Basic
import Mathlib.Data.List.Infix
import Mathlib.Tactic.Common

namespace Search

variable {α : Type*} [DecidableEq α]

/-- The position of the first occurrence of `pat`, or the length when there is none. -/
def search (pat : List α) : List α → ℕ
  | [] => 0
  | x :: xs => if pat <+: x :: xs then 0 else search pat xs + 1

@[simp] theorem search_nil (pat : List α) : search pat [] = 0 := rfl

theorem search_eq_zero {pat l : List α} (h : pat <+: l) : search pat l = 0 := by
  cases l with
  | nil => rfl
  | cons x xs => rw [search, if_pos h]

theorem search_cons_of_not {pat : List α} {x : α} {xs : List α}
    (h : ¬ pat <+: x :: xs) : search pat (x :: xs) = search pat xs + 1 := by
  rw [search, if_neg h]

theorem search_le_length (pat l : List α) : search pat l ≤ l.length := by
  induction l with
  | nil => simp
  | cons x xs ih =>
      rw [search]
      split
      · omega
      · simp only [List.length_cons]; omega

/-- A search that stops before the end has found the pattern. -/
theorem prefix_drop_search {pat l : List α} (h : search pat l ≠ l.length) :
    pat <+: l.drop (search pat l) := by
  induction l with
  | nil => simp at h
  | cons x xs ih =>
      by_cases hp : pat <+: x :: xs
      · rw [search_eq_zero hp]; exact hp
      · rw [search_cons_of_not hp] at h ⊢
        exact ih (by simpa using h)

/-- A found pattern ends inside the sequence. -/
theorem search_add_length_le {pat l : List α} (h : search pat l ≠ l.length) :
    search pat l + pat.length ≤ l.length := by
  have hlen := (prefix_drop_search h).length_le
  rw [List.length_drop] at hlen
  have := search_le_length pat l
  omega

/-- The sequence around a found pattern. -/
theorem eq_of_search_ne {pat l : List α} (h : search pat l ≠ l.length) :
    l = l.take (search pat l) ++ pat ++ l.drop (search pat l + pat.length) := by
  obtain ⟨rest, hrest⟩ := prefix_drop_search h
  have hdrop : rest = l.drop (search pat l + pat.length) := by
    rw [← List.drop_drop, ← hrest, List.drop_left]
  rw [← hdrop, List.append_assoc, hrest, List.take_append_drop]

/-- The pattern does not occur in `l` before position `n`. -/
def FirstAt (pat l : List α) (n : ℕ) : Prop :=
  ∀ k < n, ¬ pat <+: l.drop k

/-- The pattern does not occur before the position at which the search stops. -/
theorem firstAt_search (pat l : List α) : FirstAt pat l (search pat l) := by
  induction l with
  | nil =>
      intro k hk
      rw [search_nil] at hk
      omega
  | cons x xs ih =>
      intro k hk
      by_cases hp : pat <+: x :: xs
      · rw [search_eq_zero hp] at hk
        omega
      · rw [search_cons_of_not hp] at hk
        cases k with
        | zero => exact hp
        | succ k => exact ih k (by omega)

/-- The search passes every position at which the pattern does not occur. -/
theorem search_eq_of_firstAt {pat l : List α} {n : ℕ} (hfirst : FirstAt pat l n)
    (hp : pat <+: l.drop n) (hn : n ≤ l.length) : search pat l = n := by
  -- the pattern moves to the front as the sequence gets shorter
  induction l generalizing n with
  | nil => exact (Nat.le_zero.mp hn).symm
  | cons x xs ih =>
      cases n with
      | zero => exact search_eq_zero hp
      | succ n =>
          rw [search_cons_of_not (by simpa using hfirst 0 (Nat.succ_pos n))]
          congr 1
          exact ih (fun k hk => by simpa using hfirst (k + 1) (by omega)) (by simpa using hp)
            (by simpa using hn)

omit [DecidableEq α] in
/-- What lies before the first occurrence does not contain the pattern. -/
theorem FirstAt.not_infix_take {pat l : List α} {n : ℕ} (h : FirstAt pat l n) (hne : pat ≠ []) :
    ¬ pat <:+: l.take n := by
  rintro ⟨u, v, huv⟩
  have hlen := congrArg List.length huv
  have hpos := List.length_pos_of_ne_nil hne
  simp only [List.length_append, List.length_take] at hlen
  apply h u.length (by omega)
  have hl : l = u ++ (pat ++ (v ++ l.drop n)) := by
    rw [← List.append_assoc pat, ← List.append_assoc, ← List.append_assoc, huv,
      List.take_append_drop]
  rw [hl, List.drop_left]
  exact List.prefix_append _ _

/-- The search comes to the end of a sequence that does not contain the pattern. -/
theorem search_eq_length_iff {pat l : List α} (hne : pat ≠ []) :
    search pat l = l.length ↔ ¬ pat <:+: l := by
  constructor
  · intro h
    have hnot := (firstAt_search pat l).not_infix_take hne
    rwa [h, List.take_length] at hnot
  · intro h
    by_contra hs
    exact h (((prefix_drop_search hs).isInfix).trans (List.drop_suffix _ l).isInfix)

/-! ## Cutting at a delimiter -/

/-- What lies before the first occurrence of `pat` and what lies behind it; nothing and
the whole sequence when there is none. -/
def cut (pat l : List α) : List α × List α :=
  if search pat l = l.length then ([], l)
  else (l.take (search pat l), l.drop (search pat l + pat.length))

/-- A cut takes the sequence apart, or leaves it as it is. -/
theorem cut_cases (pat l : List α) :
    cut pat l = ([], l) ∨ l = (cut pat l).1 ++ (pat ++ (cut pat l).2) := by
  rw [cut]
  split
  · exact Or.inl rfl
  · rename_i h
    right
    rw [← List.append_assoc]
    exact eq_of_search_ne h

/-- A cut that has something before it has found the delimiter. -/
theorem eq_of_cut_ne_nil {pat l : List α} (h : (cut pat l).1 ≠ []) :
    l = (cut pat l).1 ++ (pat ++ (cut pat l).2) := by
  rcases cut_cases pat l with hnone | hfound
  · exact absurd (by rw [hnone]) h
  · exact hfound

theorem length_cut_le (pat l : List α) :
    (cut pat l).1.length + (cut pat l).2.length ≤ l.length := by
  rcases cut_cases pat l with hnone | hfound
  · rw [hnone]; simp
  · have hlen := congrArg List.length hfound
    simp only [List.length_append] at hlen
    omega

/-- What is cut off is not longer than what stands before any occurrence. -/
theorem length_cut_append_le (pat l rest : List α) :
    (cut pat (l ++ (pat ++ rest))).1.length ≤ l.length := by
  by_contra hlt
  have hfirst := firstAt_search pat (l ++ (pat ++ rest))
  have hle : (cut pat (l ++ (pat ++ rest))).1.length ≤ search pat (l ++ (pat ++ rest)) := by
    rw [cut]
    split
    · exact Nat.zero_le _
    · exact List.length_take_le _ _
  refine hfirst l.length (by omega) ?_
  rw [List.drop_left]
  exact List.prefix_append pat rest

/-- The part before the delimiter does not contain it. -/
theorem not_infix_cut {pat : List α} (hne : pat ≠ []) (l : List α) :
    ¬ pat <:+: (cut pat l).1 := by
  rw [cut]
  split
  · intro h
    exact hne (List.infix_nil.mp h)
  · exact (firstAt_search pat l).not_infix_take hne

/-- Without a delimiter nothing is cut off. -/
theorem cut_of_not_infix {pat l : List α} (hne : pat ≠ []) (h : ¬ pat <:+: l) :
    cut pat l = ([], l) := by
  rw [cut, if_pos ((search_eq_length_iff hne).mpr h)]

/-- A delimiter that occurs is found. -/
theorem eq_of_cut_infix {pat l : List α} (hne : pat ≠ []) (h : pat <:+: l) :
    l = (cut pat l).1 ++ (pat ++ (cut pat l).2) := by
  have hs : search pat l ≠ l.length := fun hs => (search_eq_length_iff hne).mp hs h
  rw [cut, if_neg hs, ← List.append_assoc]
  exact eq_of_search_ne hs

/-- No proper end of the pattern is also a beginning of it. -/
def Unbordered (pat : List α) : Prop :=
  ∀ k < pat.length, 0 < k → ¬ pat.drop k <+: pat

instance (pat : List α) : Decidable (Unbordered pat) :=
  inferInstanceAs (Decidable (∀ k < pat.length, 0 < k → ¬ pat.drop k <+: pat))

omit [DecidableEq α] in
/-- An unbordered pattern behind a sequence that does not contain it occurs there for
the first time. -/
theorem firstAt_append {pat l : List α} (hpat : Unbordered pat) (hl : ¬ pat <:+: l)
    (rest : List α) : FirstAt pat (l ++ (pat ++ rest)) l.length := by
  intro k hk hp
  rw [List.drop_append_of_le_length hk.le] at hp
  rcases Nat.lt_or_ge (l.drop k).length pat.length with hlt | hge
  · -- the occurrence begins inside `l` and ends behind it: it overlaps the delimiter
    have hpos : 0 < (l.drop k).length := by rw [List.length_drop]; omega
    refine hpat _ hlt hpos ?_
    have hend : pat.drop (l.drop k).length <+: pat ++ rest := by
      have := hp.drop (l.drop k).length
      rwa [List.drop_left] at this
    refine List.prefix_of_prefix_length_le hend (List.prefix_append pat rest) ?_
    rw [List.length_drop]
    omega
  · have hin : pat <+: l.drop k :=
      List.prefix_of_prefix_length_le hp (List.prefix_append _ _) hge
    exact hl (hin.isInfix.trans (List.drop_suffix k l).isInfix)

/-- A sequence is cut off at the delimiter that follows it. -/
theorem cut_append {pat l : List α} (hne : pat ≠ []) (hpat : Unbordered pat)
    (hl : ¬ pat <:+: l) (rest : List α) : cut pat (l ++ (pat ++ rest)) = (l, rest) := by
  have hsearch : search pat (l ++ (pat ++ rest)) = l.length :=
    search_eq_of_firstAt (firstAt_append hpat hl rest) (by rw [List.drop_left]; simp) (by simp)
  have hlen : pat.length ≠ 0 := by simpa using hne
  rw [cut, hsearch, if_neg (by simp only [List.length_append]; omega), List.take_left,
    ← List.drop_drop, List.drop_left, List.drop_left]

end Search
