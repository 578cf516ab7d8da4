/-
# Making space

`makeSpace(n)` has three early exits, which compare different sums of the index, the size, the
capacity and `n`.  Where none of them is taken, bytes have been consumed and dropping them makes
enough room: the copy moves the unread bytes to a position strictly before their own, and the
vector need not grow.

`makeSpaceSized` is the function with its numbers of the type `size_t` and the loop of
`std::copy`, and it tells which call of `std::copy` is reached.  It is `makeSpace` as long as the
sum of the unread and the requested bytes does not wrap, which is so when both are in memory.
-/
import Mathlib.Algebra.Group.Nat.Defs
import Lotta.Buffer
import Lotta.Lib.Overwrite

namespace Lotta

/-! ## The copy -/

/-- A call of `std::copy(first, last, d_first)`, by positions in the storage. -/
structure CopyCall where
  first : ℕ
  last : ℕ
  dFirst : ℕ
  deriving DecidableEq, Repr

/-- The call is defined: the destination does not begin inside the source. -/
def CopyCall.Defined (call : CopyCall) : Prop :=
  ¬ (call.first ≤ call.dFirst ∧ call.dFirst < call.last)

namespace Vec

variable {α : Type*}

/-- `std::copy` within the elements of the vector, from the first one of the source on. -/
def copy (v : Vec α) (call : CopyCall) : Vec α :=
  ⟨Overwrite.copyForward call.first call.dFirst (call.last - call.first) v.data, v.capacity, by
    unfold Overwrite.copyForward
    rw [Overwrite.length_overwrite]
    exact v.size_le_capacity⟩

/-- An insertion of `n` elements makes the vector reallocate its storage. -/
def Reallocates (v : Vec α) (n : ℕ) : Prop := v.capacity < v.size + n

instance (v : Vec α) (n : ℕ) : Decidable (v.Reallocates n) := inferInstanceAs (Decidable (_ < _))

/-- The loop of `std::copy` moves the elements behind a position to the front. -/
theorem copy_front {v : Vec α} {i : ℕ} (hi : i ≤ v.size) :
    v.copy ⟨i, v.size, 0⟩ = v.copyToFront i := by
  unfold copy copyToFront
  congr 1
  exact Overwrite.copyForward_front hi

end Vec

namespace Buffer

/-- `a + b` of two numbers of the type `size_t`. -/
def addSize (a b : ℕ) : ℕ := (a + b) % 2 ^ 64

/-- `makeSpace(n)` on numbers of the type `size_t`, with the call of `std::copy` that it
reaches. -/
def makeSpaceSized (b : Buffer) (n : ℕ) : Buffer × Option CopyCall :=
  let b := if b.readable = 0 ∧ b.writable = 0 then { b with idx := 0 } else b
  if n ≤ b.writable then (b, none)
  else if addSize b.readable n > b.data.capacity then (b, none)
  else
    let call : CopyCall := ⟨b.idx, b.data.size, 0⟩
    (⟨0, (b.data.copy call).shrink b.readable⟩, some call)

/-- The call of `std::copy` that `makeSpace(n)` reaches, with sums that do not wrap. -/
def copyCall (b : Buffer) (n : ℕ) : Option CopyCall :=
  let b := b.resetIdx
  if n ≤ b.writable then none
  else if b.readable + n > b.data.capacity then none
  else some ⟨b.idx, b.data.size, 0⟩

/-! ## The exits -/

/-- What can be read and what can be written besides the consumed bytes is the capacity. -/
theorem idx_add_readable_add_writable {b : Buffer} (h : b.Wf) :
    b.idx + b.readable + b.writable = b.data.capacity := by
  have hcap := b.data.size_le_capacity
  simp only [Wf, readable, writable, Vec.size] at h ⊢
  omega

theorem resetIdx_eq_self {b : Buffer} (h : ¬ (b.readable = 0 ∧ b.writable = 0)) :
    b.resetIdx = b := by
  rw [resetIdx, if_neg h]

/-- The three ways through `makeSpace`: there is room, there is no room even without the consumed
bytes, or bytes have been consumed and dropping them makes room. -/
theorem makeSpace_cases {b : Buffer} (hwf : b.Wf) (hroom : ¬ (b.readable = 0 ∧ b.writable = 0))
    (n : ℕ) :
    (n ≤ b.writable ∧ b.makeSpace n = b ∧ b.copyCall n = none) ∨
    (b.writable < n ∧ b.data.capacity < b.readable + n ∧ b.makeSpace n = b ∧
      b.copyCall n = none) ∨
    (b.writable < n ∧ b.readable + n ≤ b.data.capacity ∧ 0 < b.idx ∧
      b.makeSpace n = ⟨0, (b.data.copyToFront b.idx).shrink b.readable⟩ ∧
      b.copyCall n = some ⟨b.idx, b.data.size, 0⟩) := by
  have hsum := idx_add_readable_add_writable hwf
  unfold makeSpace copyCall compact
  rw [resetIdx_eq_self hroom]
  by_cases hfits : n ≤ b.writable
  · exact Or.inl ⟨hfits, if_pos hfits, if_pos hfits⟩
  · by_cases hgrow : b.data.capacity < b.readable + n
    · refine Or.inr (Or.inl ⟨by omega, hgrow, ?_, ?_⟩)
      · rw [if_neg hfits, if_pos hgrow]
      · rw [if_neg hfits, if_pos hgrow]
    · refine Or.inr (Or.inr ⟨by omega, by omega, by omega, ?_, ?_⟩)
      · rw [if_neg hfits, if_neg hgrow]
      · rw [if_neg hfits, if_neg hgrow]

/-- After the compaction what was consumed can be written. -/
theorem writable_copy_shrink {b : Buffer} :
    (⟨0, (b.data.copyToFront b.idx).shrink b.readable⟩ : Buffer).writable =
      b.data.capacity - b.readable := by
  have hlen := congrArg List.length (content_copy_shrink b)
  rw [length_content] at hlen
  unfold writable Vec.size
  rw [hlen]
  rfl

/-- While the sum does not wrap, the numbers of the type `size_t` and the copy loop do what
`makeSpace` does. -/
theorem makeSpaceSized_eq {b : Buffer} (hwf : b.Wf)
    (hroom : ¬ (b.readable = 0 ∧ b.writable = 0)) {n : ℕ} (hn : b.readable + n < 2 ^ 64) :
    b.makeSpaceSized n = (b.makeSpace n, b.copyCall n) := by
  have hsum : addSize b.readable n = b.readable + n := Nat.mod_eq_of_lt hn
  simp only [makeSpaceSized, if_neg hroom, hsum, Vec.copy_front hwf]
  rcases makeSpace_cases hwf hroom n with h | ⟨hn, hgrow, h⟩ | ⟨hn, hfits, -, h⟩
  · rw [if_pos h.1, h.2.1, h.2.2]
  · rw [if_neg (by omega), if_pos hgrow, h.1, h.2]
  · rw [if_neg (by omega), if_neg (by omega), h.1, h.2]

/-! ## The result -/

/-- The insertion of `append` reallocates the storage, when `n` bytes are appended. -/
def AppendReallocates (b : Buffer) (n : ℕ) : Prop := (b.makeSpace n).data.Reallocates n

/-- `makeSpace(n)` has compacted safely and exactly when it helps: `c` is the buffer that it
leaves and `call` the call of `std::copy` that it has reached. -/
structure SpaceMade (b : Buffer) (n : ℕ) (c : Buffer) (call : Option CopyCall) : Prop where
  content : c.content = b.content
  capacity : c.data.capacity = b.data.capacity
  room : n ≤ c.writable ↔ b.readable + n ≤ b.data.capacity
  copied : ∀ p, call = some p → p.first = b.idx ∧ 0 < p.first ∧ p.dFirst < p.first ∧ p.Defined

/-- There is room after `makeSpace(n)` exactly when the unread bytes and `n` more fit. -/
theorem le_writable_makeSpace_iff {b : Buffer} (hwf : b.Wf)
    (hroom : ¬ (b.readable = 0 ∧ b.writable = 0)) (n : ℕ) :
    n ≤ (b.makeSpace n).writable ↔ b.readable + n ≤ b.data.capacity := by
  have hsum := idx_add_readable_add_writable hwf
  rcases makeSpace_cases hwf hroom n with ⟨hn, h, -⟩ | ⟨hn, hgrow, h, -⟩ | ⟨hn, hfits, -, h, -⟩
  · rw [h]
    exact iff_of_true hn (by omega)
  · rw [h]
    exact iff_of_false (by omega) (by omega)
  · rw [h, writable_copy_shrink]
    exact iff_of_true (by omega) hfits

theorem capacity_makeSpace (b : Buffer) (n : ℕ) :
    (b.makeSpace n).data.capacity = b.data.capacity := by
  unfold makeSpace compact resetIdx
  split_ifs <;> rfl

/-- A vector reallocates where the room behind its last element is too small. -/
theorem reallocates_iff (b : Buffer) (n : ℕ) : b.data.Reallocates n ↔ b.writable < n := by
  have hcap := b.data.size_le_capacity
  simp only [Vec.Reallocates, writable, Vec.size]
  omega

theorem spaceMade {b : Buffer} (hwf : b.Wf) (hroom : ¬ (b.readable = 0 ∧ b.writable = 0))
    (n : ℕ) : SpaceMade b n (b.makeSpace n) (b.copyCall n) where
  content := by
    rw [content_makeSpace, if_neg fun h => hroom h.2]
  capacity := capacity_makeSpace b n
  room := le_writable_makeSpace_iff hwf hroom n
  copied := by
    intro p hp
    rcases makeSpace_cases hwf hroom n with ⟨-, -, h⟩ | ⟨-, -, -, h⟩ | ⟨-, -, hpos, -, h⟩
    · rw [h] at hp
      cases hp
    · rw [h] at hp
      cases hp
    · rw [h] at hp
      obtain rfl := Option.some.inj hp
      exact ⟨rfl, hpos, hpos, fun hinside => absurd hinside.1 (Nat.not_le.mpr hpos)⟩

/-- In every state in which not both the unread bytes and the room are used up, `makeSpace(n)`
compacts safely and exactly when it helps, and `append` reallocates exactly when the unread
bytes and `n` more do not fit; with numbers of the type `size_t` and the copy loop it is the same
as long as the sum does not wrap. -/
theorem makeSpace_compacts_exactly {b : Buffer} (hwf : b.Wf)
    (hroom : ¬ (b.readable = 0 ∧ b.writable = 0)) (n : ℕ) :
    SpaceMade b n (b.makeSpace n) (b.copyCall n) ∧
      (b.AppendReallocates n ↔ b.data.capacity < b.readable + n) ∧
      (b.readable + n < 2 ^ 64 → b.makeSpaceSized n = (b.makeSpace n, b.copyCall n)) := by
  refine ⟨spaceMade hwf hroom n, ?_, makeSpaceSized_eq hwf hroom⟩
  rw [AppendReallocates, reallocates_iff, ← not_le, le_writable_makeSpace_iff hwf hroom, not_le]

/-- Three of four bytes have been consumed and two more do not fit behind the last one: the
unread byte is copied to the front. -/
theorem makeSpace_compacts_exactly_consumed :
    let b : Buffer := ⟨3, ⟨[1, 2, 3, 4], 5, by decide⟩⟩
    SpaceMade b 2 (b.makeSpace 2) (b.copyCall 2) ∧ ¬ b.AppendReallocates 2 ∧
      b.makeSpaceSized 2 = (b.makeSpace 2, some ⟨3, 4, 0⟩) := by
  intro b
  have h := makeSpace_compacts_exactly (b := b) (by decide) (by decide) 2
  exact ⟨h.1, fun hre => absurd (h.2.1.mp hre) (by decide), h.2.2 (by decide)⟩

end Buffer

end Lotta
