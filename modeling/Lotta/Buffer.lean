/-
# Buffer: a byte queue inside a growing vector

`Buffer` keeps its bytes in a `std::vector<char>` and the number of bytes already
consumed in `idx_`; the readable content is what lies behind the index.  `append`
first calls `makeSpace`, which resets the index, does nothing, leaves the growth to
the vector, or compacts the unread bytes to the front.

Of the vector only this is used: it keeps its elements, its capacity is at least its
size after an insertion (`slack` is whatever it has beyond that), and shrinking keeps
the capacity.  A failed `assert` is `none`.
-/
import Lotta.Lib.Search

namespace Lotta

/-! ## The vector -/

/-- A `std::vector`: its elements and its capacity. -/
structure Vec (α : Type*) where
  data : List α
  capacity : ℕ
  size_le_capacity : data.length ≤ capacity

namespace Vec

variable {α : Type*}

/-- The number of elements. -/
def size (v : Vec α) : ℕ := v.data.length

/-- An empty vector after `reserve`. -/
def reserve (capacity : ℕ) : Vec α := ⟨[], capacity, Nat.zero_le _⟩

/-- Insert `xs` at the end; the new capacity exceeds the new size by `slack`. -/
def insertEnd (v : Vec α) (xs : List α) (slack : ℕ) : Vec α :=
  ⟨v.data ++ xs, (v.data ++ xs).length + slack, Nat.le_add_right _ _⟩

/-- `resize` to a size that is not larger. -/
def shrink (v : Vec α) (n : ℕ) : Vec α :=
  ⟨v.data.take n, v.capacity,
    (List.length_take_le' n v.data).trans v.size_le_capacity⟩

/-- `std::copy` of the elements from position `i` on to the front. -/
def copyToFront (v : Vec α) (i : ℕ) : Vec α :=
  ⟨v.data.drop i ++ v.data.drop (v.data.length - i), v.capacity, by
    have := v.size_le_capacity
    simp only [List.length_append, List.length_drop]
    omega⟩

end Vec

/-! ## Slices -/

/-- A `const char *`: the null pointer moved by some bytes, or a position in the
storage of the buffer. -/
inductive Ptr where
  | null (off : ℕ)
  | at (off : ℕ)
  deriving DecidableEq, Repr

/-- `Slice`: a pointer and a length. -/
structure Slice where
  data : Ptr
  n : ℕ
  deriving DecidableEq, Repr

/-- `Slice{nullptr, 0}`. -/
def Slice.nullSlice : Slice := ⟨.null 0, 0⟩

/-- `Slice::empty`. -/
def Slice.empty (s : Slice) : Bool := s.n == 0

/-! ## The buffer -/

/-- `Buffer`: the read index `idx_` and the storage `data_`. -/
structure Buffer where
  idx : ℕ
  data : Vec UInt8

namespace Buffer

/-- `kInitLen`, the default capacity. -/
def kInitLen : ℕ := 2 <<< 10

/-- `Buffer(size_t n)`: nothing stored, capacity for `n` bytes. -/
def init (n : ℕ) : Buffer := ⟨0, Vec.reserve n⟩

/-- `readable()`: the number of unread bytes. -/
def readable (b : Buffer) : ℕ := b.data.size - b.idx

/-- `writable()`: the free room behind the last byte. -/
def writable (b : Buffer) : ℕ := b.data.capacity - b.data.size

/-- The readable content, as `toString()` copies it. -/
def content (b : Buffer) : List UInt8 := b.data.data.drop b.idx

/-- The bytes that a slice of this buffer's storage denotes. -/
def bytes (b : Buffer) (s : Slice) : List UInt8 :=
  match s.data with
  | .null _ => []
  | .at off => (b.data.data.drop off).take s.n

/-- The first statement of `makeSpace`: the index goes back to the front when nothing
is left to read and nothing can be written. -/
def resetIdx (b : Buffer) : Buffer :=
  if b.readable = 0 ∧ b.writable = 0 then { b with idx := 0 } else b

/-- The rest of `makeSpace`: do nothing when `n` bytes fit behind the last one or when
only the vector can grow; else move the unread bytes to the front. -/
def compact (b : Buffer) (n : ℕ) : Buffer :=
  if n ≤ b.writable then b
  -- no room even without the consumed bytes: the insertion lets the vector grow
  else if b.data.capacity < b.readable + n then b
  else ⟨0, (b.data.copyToFront b.idx).shrink b.readable⟩

/-- `makeSpace(n)`. -/
def makeSpace (b : Buffer) (n : ℕ) : Buffer := b.resetIdx.compact n

/-- `append(data, n)`. -/
def append (b : Buffer) (xs : List UInt8) (slack : ℕ) : Buffer :=
  let b := b.makeSpace xs.length
  { b with data := b.data.insertEnd xs slack }

/-- `retrieve(n)`, guarded by `assert(n <= readable())`. -/
def retrieve (b : Buffer) (n : ℕ) : Option (Slice × Buffer) :=
  if n ≤ b.readable then some (⟨.at b.idx, n⟩, { b with idx := b.idx + n }) else none

/-- `retrieve()`. -/
def retrieveAll (b : Buffer) : Option (Slice × Buffer) := b.retrieve b.readable

/-- `retrieveUntil(delim, n)`: the bytes before the first delimiter, which is consumed
with them, or the null slice when there is no delimiter. -/
def retrieveUntil (b : Buffer) (delim : List UInt8) : Option (Slice × Buffer) :=
  let it := Search.search delim b.content
  if it = b.readable then some (Slice.nullSlice, b)
  else
    (b.retrieve it).bind fun (ret, b) =>
      (b.retrieve delim.length).map fun (_, b) => (ret, b)

/-! ## The read index stays inside the storage -/

/-- What `readable()` asserts: the read index lies inside the storage.  `revoke` does
not keep it, so it is not part of the type. -/
def Wf (b : Buffer) : Prop := b.idx ≤ b.data.size

instance (b : Buffer) : Decidable b.Wf := inferInstanceAs (Decidable (_ ≤ _))

theorem wf_init (n : ℕ) : (init n).Wf := Nat.zero_le _

@[simp] theorem length_content (b : Buffer) : b.content.length = b.readable := by
  simp [content, readable, Vec.size]

theorem content_eq_nil_iff (b : Buffer) : b.content = [] ↔ b.readable = 0 := by
  rw [← List.length_eq_zero_iff, length_content]

/-- What can be read lies behind an index inside the storage. -/
theorem wf_of_content_ne_nil {b : Buffer} (h : b.content ≠ []) : b.Wf := by
  by_contra hwf
  apply h
  rw [content]
  apply List.drop_eq_nil_of_le
  simp only [Wf, Vec.size] at hwf
  omega

/-- Everything has been consumed and the storage is full to its capacity: the state
in which `makeSpace` sets the index back without dropping the consumed bytes. -/
def DrainedFull (b : Buffer) : Prop :=
  b.data.data ≠ [] ∧ b.readable = 0 ∧ b.writable = 0

instance (b : Buffer) : Decidable b.DrainedFull := inferInstanceAs (Decidable (_ ∧ _ ∧ _))

/-! ## What each operation does to the content -/

theorem content_copy_shrink (b : Buffer) :
    ((b.data.copyToFront b.idx).shrink b.readable).data = b.content := by
  have hlen : b.readable = (b.data.data.drop b.idx).length := (length_content b).symm
  simp only [Vec.shrink, Vec.copyToFront, content]
  rw [hlen, List.take_left]

/-- Compaction never changes the content. -/
theorem content_compact (b : Buffer) (n : ℕ) : (b.compact n).content = b.content := by
  rw [compact]
  split
  · rfl
  · split
    · rfl
    · show (((b.data.copyToFront b.idx).shrink b.readable).data).drop 0 = b.content
      rw [List.drop_zero, content_copy_shrink]

/-- Setting the index back makes all the stored bytes readable again when there are
any, which happens in the drained and full state only. -/
theorem content_resetIdx (b : Buffer) :
    b.resetIdx.content = if b.DrainedFull then b.data.data else b.content := by
  rw [resetIdx]
  by_cases hd : b.readable = 0 ∧ b.writable = 0
  · rw [if_pos hd]
    by_cases hnil : b.data.data = []
    · -- nothing is stored that could become readable
      rw [if_neg (fun h => h.1 hnil)]
      simp [content, hnil]
    · rw [if_pos ⟨hnil, hd⟩]
      rfl
  · rw [if_neg hd, if_neg (fun h => hd h.2)]

/-- `makeSpace` keeps the content outside the drained and full state. -/
theorem content_makeSpace (b : Buffer) (n : ℕ) :
    (b.makeSpace n).content = if b.DrainedFull then b.data.data else b.content := by
  rw [makeSpace, content_compact, content_resetIdx]

/-- Where bytes are stored, `makeSpace` leaves none readable exactly when none was and there
is room behind them. -/
theorem content_makeSpace_eq_nil_iff {b : Buffer} (hdata : b.data.data ≠ []) (n : ℕ) :
    (b.makeSpace n).content = [] ↔ b.content = [] ∧ 0 < b.writable := by
  rw [content_makeSpace, content_eq_nil_iff]
  split
  · rename_i hfull
    exact iff_of_false hdata fun h => h.2.ne' hfull.2.2
  · rename_i hfull
    rw [content_eq_nil_iff]
    refine ⟨fun hzero => ⟨hzero, ?_⟩, fun h => h.1⟩
    exact Nat.pos_of_ne_zero fun hroom => hfull ⟨hdata, hzero, hroom⟩

theorem wf_resetIdx {b : Buffer} (h : b.Wf) : b.resetIdx.Wf := by
  unfold resetIdx
  split
  · exact Nat.zero_le _
  · exact h

theorem wf_compact {b : Buffer} (h : b.Wf) (n : ℕ) : (b.compact n).Wf := by
  unfold compact
  split_ifs
  · exact h
  · exact h
  · exact Nat.zero_le _

theorem wf_makeSpace {b : Buffer} (h : b.Wf) (n : ℕ) : (b.makeSpace n).Wf :=
  wf_compact (wf_resetIdx h) n

/-- An append puts its bytes behind the content that `makeSpace` leaves. -/
theorem content_append {b : Buffer} (h : b.Wf) (xs : List UInt8) (slack : ℕ) :
    (b.append xs slack).content = (b.makeSpace xs.length).content ++ xs := by
  have hwf := wf_makeSpace h xs.length
  simp only [append, content, Vec.insertEnd]
  exact List.drop_append_of_le_length hwf

/-- Outside the drained and full state these are the bytes that were to be read. -/
theorem content_append_of_not_full {b : Buffer} (h : b.Wf) (hfull : ¬ b.DrainedFull)
    (xs : List UInt8) (slack : ℕ) : (b.append xs slack).content = b.content ++ xs := by
  rw [content_append h, content_makeSpace, if_neg hfull]

theorem wf_append {b : Buffer} (h : b.Wf) (xs : List UInt8) (slack : ℕ) :
    (b.append xs slack).Wf := by
  have hwf := wf_makeSpace h xs.length
  simp only [Wf, append, Vec.size, Vec.insertEnd, List.length_append] at hwf ⊢
  omega

theorem retrieve_eq_some_iff {b b' : Buffer} {n : ℕ} {s : Slice} :
    b.retrieve n = some (s, b') ↔
      n ≤ b.readable ∧ s = ⟨.at b.idx, n⟩ ∧ b' = { b with idx := b.idx + n } := by
  rw [retrieve]
  split
  · rename_i h
    simp only [Option.some.injEq, Prod.mk.injEq, h, true_and]
    exact ⟨fun ⟨h1, h2⟩ => ⟨h1.symm, h2.symm⟩, fun ⟨h1, h2⟩ => ⟨h1.symm, h2.symm⟩⟩
  · rename_i h
    simp [h]

theorem wf_retrieve {b b' : Buffer} {n : ℕ} {s : Slice} (h : b.Wf)
    (hr : b.retrieve n = some (s, b')) : b'.Wf := by
  obtain ⟨hn, -, rfl⟩ := retrieve_eq_some_iff.mp hr
  simp only [Wf, readable] at h hn ⊢
  omega

/-- A retrieve hands out the front of the content and keeps the rest. -/
theorem content_retrieve {b b' : Buffer} {n : ℕ} {s : Slice}
    (hr : b.retrieve n = some (s, b')) :
    b.bytes s = b.content.take n ∧ b'.content = b.content.drop n := by
  obtain ⟨-, rfl, rfl⟩ := retrieve_eq_some_iff.mp hr
  exact ⟨rfl, by simp [content, List.drop_drop]⟩

/-- The two outcomes of `retrieveUntil`: nothing is found and nothing changes, or the
bytes before the first delimiter are handed out and leave together with it. -/
theorem retrieveUntil_cases (b : Buffer) (delim : List UInt8) :
    (Search.search delim b.content = b.readable ∧
      b.retrieveUntil delim = some (Slice.nullSlice, b)) ∨
    (Search.search delim b.content ≠ b.readable ∧
      Search.search delim b.content + delim.length ≤ b.readable ∧
      b.retrieveUntil delim = some (⟨.at b.idx, Search.search delim b.content⟩,
        { b with idx := b.idx + (Search.search delim b.content + delim.length) })) := by
  by_cases hit : Search.search delim b.content = b.readable
  · exact Or.inl ⟨hit, by rw [retrieveUntil, if_pos hit]⟩
  · have hle : Search.search delim b.content + delim.length ≤ b.readable := by
      have hne : Search.search delim b.content ≠ b.content.length := by
        rw [length_content]
        exact hit
      have hle := Search.search_add_length_le hne
      rwa [length_content] at hle
    refine Or.inr ⟨hit, hle, ?_⟩
    -- both calls of `retrieve` pass their assertion
    have h1 : Search.search delim b.content ≤ b.readable := by omega
    have h2 : delim.length ≤ ({ b with idx := b.idx + Search.search delim b.content } :
        Buffer).readable := by
      simp only [readable] at hle h1 ⊢
      omega
    rw [retrieveUntil, if_neg hit, retrieve, if_pos h1]
    simp only [Option.bind_some]
    rw [retrieve, if_pos h2]
    simp [Nat.add_assoc]

/-- Where nothing is readable no delimiter is found. -/
theorem retrieveUntil_of_content_nil {b : Buffer} (h : b.content = []) (delim : List UInt8) :
    b.retrieveUntil delim = some (Slice.nullSlice, b) := by
  have hzero : b.readable = 0 := (content_eq_nil_iff b).mp h
  rw [retrieveUntil, h, Search.search_nil, hzero]
  rfl

/-- `b'` reads on in the storage of `b`: only the index has moved. -/
def Advanced (b b' : Buffer) : Prop := b'.data = b.data ∧ b'.Wf

theorem Advanced.refl {b : Buffer} (h : b.Wf) : b.Advanced b := ⟨rfl, h⟩

theorem Advanced.trans {a b c : Buffer} (hab : a.Advanced b) (hbc : b.Advanced c) :
    a.Advanced c := ⟨hbc.1.trans hab.1, hbc.2⟩

/-- On the content, `retrieveUntil` is a cut at the delimiter; the slice denotes the part
before it. -/
theorem retrieveUntil_eq_cut {b : Buffer} (hwf : b.Wf) (delim : List UInt8) :
    ∃ s b', b.retrieveUntil delim = some (s, b') ∧ b.Advanced b' ∧
      b'.bytes s = (Search.cut delim b.content).1 ∧
      s.n = (Search.cut delim b.content).1.length ∧
      b'.content = (Search.cut delim b.content).2 := by
  rcases retrieveUntil_cases b delim with ⟨hit, heq⟩ | ⟨hit, hle, heq⟩
  · refine ⟨_, _, heq, Advanced.refl hwf, ?_⟩
    rw [Search.cut, if_pos (by rw [hit, length_content])]
    exact ⟨rfl, rfl, rfl⟩
  · refine ⟨_, _, heq, ⟨rfl, ?_⟩, ?_⟩
    · simp only [Wf, readable] at hwf hle ⊢
      omega
    · have hlen := Search.search_le_length delim b.content
      rw [Search.cut, if_neg (by rw [length_content]; exact hit)]
      refine ⟨rfl, ?_, ?_⟩
      · rw [List.length_take, Nat.min_eq_left hlen]
      · simp [content, List.drop_drop]

/-- `retrieve()` hands out all the content and leaves none. -/
theorem retrieveAll_eq {b : Buffer} (hwf : b.Wf) :
    ∃ s b', b.retrieveAll = some (s, b') ∧ b.Advanced b' ∧ b'.bytes s = b.content ∧
      b'.content = [] := by
  have hr : b.retrieve b.readable =
      some (⟨.at b.idx, b.readable⟩, { b with idx := b.idx + b.readable }) :=
    retrieve_eq_some_iff.mpr ⟨le_rfl, rfl, rfl⟩
  obtain ⟨hbytes, hcontent⟩ := content_retrieve hr
  rw [← length_content, List.take_length, length_content] at hbytes
  rw [← length_content, List.drop_length, length_content] at hcontent
  exact ⟨_, _, hr, ⟨rfl, wf_retrieve hwf hr⟩, hbytes, hcontent⟩

end Buffer

end Lotta
