/-
# Splitting the content at a delimiter

`retrieveUntil` decides between its two answers by comparing an iterator with the end of the
storage.  For a delimiter that is not empty the two are told apart exactly by whether it occurs
in the content, and a call that finds it takes the part before its first occurrence.

Called until it answers with the null slice, it takes the content apart into fields, each with
the delimiter behind it, and a rest without the delimiter.  Every call but the last consumes at
least the delimiter, so there are not more calls than bytes.
-/
import Lotta.Buffer

namespace Lotta

namespace Buffer

/-! ## The calls -/

/-- Call `retrieveUntil` until it returns the null slice, at most `fuel` times: the slices
before that one, and the buffer as they leave it. -/
def splitAll (delim : List UInt8) : ℕ → Buffer → Option (List Slice × Buffer)
  | 0, _ => none
  | fuel + 1, b =>
      (b.retrieveUntil delim).bind fun (s, b') =>
        if s = Slice.nullSlice then some ([], b')
        else (splitAll delim fuel b').map fun (slices, rest) => (s :: slices, rest)

/-- One call is exact: it takes the bytes before the first delimiter together with it, and
nothing else, or there is no delimiter and nothing changes. -/
def Exact (b : Buffer) (delim : List UInt8) : Prop :=
  (∃ s b', b.retrieveUntil delim = some (s, b') ∧ s ≠ Slice.nullSlice ∧
    b' = { b with idx := b.idx + (s.n + delim.length) } ∧ b'.Wf ∧
    s.n = (b.bytes s).length ∧ b.content = b.bytes s ++ (delim ++ b'.content) ∧
    Search.FirstAt delim b.content s.n) ∨
  b.retrieveUntil delim = some (Slice.nullSlice, b) ∧ ¬ delim <:+: b.content

/-- The slices, each with the delimiter behind it. -/
def joined (b : Buffer) (delim : List UInt8) (slices : List Slice) : List UInt8 :=
  slices.flatMap fun s => b.bytes s ++ delim

/-! ## One call -/

theorem exact_retrieveUntil {b : Buffer} (hwf : b.Wf) {delim : List UInt8} (hne : delim ≠ []) :
    b.Exact delim := by
  rcases retrieveUntil_cases b delim with ⟨hit, heq⟩ | ⟨hit, hle, heq⟩
  · refine Or.inr ⟨heq, ?_⟩
    rw [← length_content] at hit
    exact (Search.search_eq_length_iff hne).mp hit
  · rw [← length_content] at hit
    have hsplit := Search.eq_of_search_ne hit
    have hlen := Search.search_le_length delim b.content
    refine Or.inl ⟨_, _, heq, fun h => ?_, rfl, ?_, ?_, ?_, Search.firstAt_search _ _⟩
    · -- the slice points into the storage
      cases congrArg Slice.data h
    · simp only [Wf, readable] at hwf hle ⊢
      omega
    · show _ = (b.content.take _).length
      rw [List.length_take, Nat.min_eq_left hlen]
    · have hrest : b.content.drop (Search.search delim b.content + delim.length) =
          b.data.data.drop (b.idx + (Search.search delim b.content + delim.length)) := by
        rw [content, List.drop_drop]
      rw [List.append_assoc, hrest] at hsplit
      exact hsplit

/-- The bytes of a slice are those of the storage, wherever the index is. -/
theorem joined_eq_of_data_eq {b c : Buffer} (h : c.data = b.data) (delim : List UInt8)
    (slices : List Slice) : c.joined delim slices = b.joined delim slices := by
  have hbytes : ∀ s, c.bytes s = b.bytes s := fun s => by
    unfold bytes
    rw [h]
  unfold joined
  simp only [hbytes]

/-! ## All calls -/

/-- Repeated until the null slice is returned, the calls take the content apart. -/
theorem splitAll_eq {delim : List UInt8} (hne : delim ≠ []) (fuel : ℕ) :
    ∀ {b : Buffer}, b.Wf → b.readable < fuel →
      ∃ slices b', splitAll delim fuel b = some (slices, b') ∧ b.Advanced b' ∧
        b.content = b.joined delim slices ++ b'.content ∧ ¬ delim <:+: b'.content := by
  induction fuel with
  | zero =>
      intro b _ hlt
      exact absurd hlt (Nat.not_lt_zero _)
  | succ fuel ih =>
      intro b hwf hlt
      unfold splitAll
      rcases exact_retrieveUntil hwf hne with
        ⟨s, c, heq, hnull, hc, hcwf, -, hcontent, -⟩ | ⟨heq, hnone⟩
      · -- the delimiter at least has been consumed
        have hshort : c.readable < fuel := by
          have hlen := congrArg List.length hcontent
          have hpos := List.length_pos_of_ne_nil hne
          simp only [List.length_append, length_content] at hlen
          omega
        obtain ⟨slices, b', hall, hadv, hrest, hfree⟩ := ih hcwf hshort
        have hdata : c.data = b.data := by rw [hc]
        refine ⟨s :: slices, b', ?_, Advanced.trans ⟨hdata, hcwf⟩ hadv, ?_, hfree⟩
        · rw [heq]
          simp only [Option.bind_some, if_neg hnull, hall, Option.map_some]
        · rw [hcontent, hrest, joined_eq_of_data_eq hdata]
          simp only [joined, List.flatMap_cons, List.append_assoc]
      · refine ⟨[], b, ?_, Advanced.refl hwf, rfl, hnone⟩
        rw [heq]
        simp only [Option.bind_some, if_true]

/-- Every call is exact.  Calls until the null slice is returned come to an end, and the content
is what they returned, each part with its delimiter, and a rest without the delimiter. -/
theorem split_exact {b : Buffer} (hwf : b.Wf) {delim : List UInt8} (hne : delim ≠ []) :
    b.Exact delim ∧ ∀ fuel > b.readable, ∃ slices b',
      splitAll delim fuel b = some (slices, b') ∧ b.Advanced b' ∧
      b.content = b.joined delim slices ++ b'.content ∧ ¬ delim <:+: b'.content :=
  ⟨exact_retrieveUntil hwf hne, fun fuel hfuel => splitAll_eq hne fuel hwf hfuel⟩

/-- A delimiter that overlaps itself, with an empty field and an end that is half of it. -/
theorem split_exact_overlapping :
    (⟨1, ⟨[9, 7, 7, 5, 7, 7, 7], 8, by decide⟩⟩ : Buffer).Exact [7, 7] ∧
      ∀ fuel > (⟨1, ⟨[9, 7, 7, 5, 7, 7, 7], 8, by decide⟩⟩ : Buffer).readable, ∃ slices b',
        splitAll [7, 7] fuel ⟨1, ⟨[9, 7, 7, 5, 7, 7, 7], 8, by decide⟩⟩ = some (slices, b') ∧
        Advanced ⟨1, ⟨[9, 7, 7, 5, 7, 7, 7], 8, by decide⟩⟩ b' ∧
        content ⟨1, ⟨[9, 7, 7, 5, 7, 7, 7], 8, by decide⟩⟩ =
          joined ⟨1, ⟨[9, 7, 7, 5, 7, 7, 7], 8, by decide⟩⟩ [7, 7] slices ++ b'.content ∧
        ¬ [7, 7] <:+: b'.content :=
  split_exact (by decide) (by decide)

/-- What the calls return for that content: an empty field, then the byte 5. -/
example : (splitAll [7, 7] 7 ⟨1, ⟨[9, 7, 7, 5, 7, 7, 7], 8, by decide⟩⟩).map
    (fun p => (p.1, p.2.content)) = some ([⟨.at 1, 0⟩, ⟨.at 3, 1⟩], [7]) := by decide

end Buffer

end Lotta
