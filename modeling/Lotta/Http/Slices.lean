/-
# The slices that the request parser forms

A `Slice` is a pointer and a length, and neither is checked where it is used.  Here the
functions of `readBuffer` are written once more with a record of every slice that they
compare, log or copy, and of every length that they subtract.  `traceBuffer_fst` says that
the record changes nothing about what is read.

All of it stays inside the bytes that were readable on entry, except for the version: a
version line with fewer than five bytes is logged as unrecognised, but the five bytes for
`HTTP/` are taken off it all the same, and the length wraps round.  `staysInside_iff` says
that these are all the contents on which the parser leaves its input.
-/
import Lotta.Http.Accepted

namespace Lotta

/-! ## Inside the readable bytes -/

/-- The slice denotes no bytes, or readable bytes of the buffer. -/
def Slice.Within (b : Buffer) (s : Slice) : Prop :=
  s.n = 0 ∨ ∃ off, s.data = .at off ∧ b.idx ≤ off ∧ off + s.n ≤ b.data.size

/-- A part of a slice in front. -/
theorem Slice.Within.take {b : Buffer} {s : Slice} (h : s.Within b) {k : ℕ} (hk : k ≤ s.n) :
    Slice.Within b ⟨s.data, k⟩ := by
  rcases h with hzero | ⟨off, hdata, hidx, hsize⟩
  · exact Or.inl (Nat.le_zero.mp (hzero ▸ hk))
  · exact Or.inr ⟨off, hdata, hidx, le_trans (Nat.add_le_add_left hk off) hsize⟩

/-- What is left of a slice behind its first `k` bytes. -/
theorem Slice.Within.skip {b : Buffer} {s : Slice} (h : s.Within b) {k : ℕ} (hk : k ≤ s.n) :
    (s.skip k).Within b := by
  rw [Slice.Within, Slice.skip, if_pos hk]
  simp only
  rcases h with hzero | ⟨off, hdata, hidx, hsize⟩
  · exact Or.inl (by omega)
  · exact Or.inr ⟨off + k, by rw [hdata]; rfl, by omega, by omega⟩

namespace Buffer

/-- `b'` reads on in `b`: the same storage, at an index that is not smaller. -/
def Follows (b b' : Buffer) : Prop := b.Advanced b' ∧ b.idx ≤ b'.idx

theorem Follows.refl {b : Buffer} (h : b.Wf) : b.Follows b := ⟨Advanced.refl h, le_rfl⟩

/-- What is readable later was readable before. -/
theorem Follows.within {b b' : Buffer} (h : b.Follows b') {s : Slice} (hs : s.Within b') :
    s.Within b := by
  refine hs.imp_right fun ⟨off, hdata, hidx, hsize⟩ => ⟨off, hdata, le_trans h.2 hidx, ?_⟩
  rwa [Vec.size, h.1.1] at hsize

/-- `retrieveUntil` hands out a readable slice; what is left is behind it. -/
theorem Follows.retrieveUntil {b b' : Buffer} (h : b.Follows b') (delim : List UInt8) :
    ∃ s b'', b'.retrieveUntil delim = some (s, b'') ∧ b.Follows b'' ∧ s.Within b ∧
      b''.bytes s = (Search.cut delim b'.content).1 ∧
      s.n = (Search.cut delim b'.content).1.length ∧
      b''.content = (Search.cut delim b'.content).2 := by
  obtain ⟨s, b'', heq, hadv, hcut⟩ := retrieveUntil_eq_cut h.1.2 delim
  refine ⟨s, b'', heq, ⟨h.1.trans hadv, ?_⟩, ?_, hcut⟩
  · rcases retrieveUntil_cases b' delim with ⟨-, hnone⟩ | ⟨-, -, hfound⟩
    · obtain ⟨-, rfl⟩ := Prod.mk.inj (Option.some.inj (heq.symm.trans hnone))
      exact h.2
    · obtain ⟨-, rfl⟩ := Prod.mk.inj (Option.some.inj (heq.symm.trans hfound))
      exact le_trans h.2 (Nat.le_add_right _ _)
  · apply h.within
    rcases retrieveUntil_cases b' delim with ⟨-, hnone⟩ | ⟨-, hle, hfound⟩
    · obtain ⟨rfl, -⟩ := Prod.mk.inj (Option.some.inj (heq.symm.trans hnone))
      exact Or.inl rfl
    · obtain ⟨rfl, -⟩ := Prod.mk.inj (Option.some.inj (heq.symm.trans hfound))
      refine Or.inr ⟨b'.idx, rfl, le_rfl, ?_⟩
      have hwf := h.1.2
      simp only [Wf, readable] at hwf hle ⊢
      omega

/-- `retrieve()` hands out what is readable. -/
theorem Follows.retrieveAll {b b' : Buffer} (h : b.Follows b') :
    ∃ s b'', b'.retrieveAll = some (s, b'') ∧ s.Within b := by
  have hr : b'.retrieve b'.readable =
      some (⟨.at b'.idx, b'.readable⟩, { b' with idx := b'.idx + b'.readable }) :=
    retrieve_eq_some_iff.mpr ⟨le_rfl, rfl, rfl⟩
  refine ⟨_, _, hr, h.within (Or.inr ⟨b'.idx, rfl, le_rfl, ?_⟩)⟩
  have hwf := h.1.2
  simp only [Wf, readable] at hwf ⊢
  omega

end Buffer

namespace Http

/-! ## The code with a record -/

/-- What the parser does with memory: a slice that is compared, logged or copied, or a
difference of two lengths. -/
inductive Use where
  | slice (s : Slice)
  | sub (n k : ℕ)
  deriving DecidableEq

/-- The slice lies within the readable bytes; the difference does not wrap round. -/
def Use.Inside (b : Buffer) : Use → Prop
  | .slice s => s.Within b
  | .sub n k => k ≤ n

/-- The uses `us` before those of what follows. -/
def after (us : List Use) (o : Option (Read × List Use)) : Option (Read × List Use) :=
  o.map fun (x, vs) => (x, us ++ vs)

/-- `readHeaders` with its uses of memory. -/
def traceHeaders : ℕ → Request → Buffer → Option (Read × List Use)
  | 0, _, _ => none
  | fuel + 1, r, b =>
      (b.retrieveUntil CRLF).bind fun (slice, b) =>
        if slice.empty then
          b.retrieveAll.map fun (slice, b) =>
            (⟨{ r with body := b.bytes slice }, b, false⟩, [.slice slice])
        else
          let colon := Search.search COLON (b.bytes slice)
          if colon = (b.bytes slice).length then some (⟨r, b, true⟩, [.slice slice])
          else
            let key : Slice := ⟨slice.data, colon⟩
            let val := slice.skip (colon + 2)
            after [.slice slice, .slice key, .sub slice.n (colon + 2), .slice val]
              (traceHeaders fuel
                { r with headers := r.headers.append (b.bytes key) (b.bytes val) } b)

/-- `readVersion` with its uses of memory. -/
def traceVersion (r : Request) (b : Buffer) : Option (Read × List Use) :=
  (b.retrieveUntil CRLF).bind fun (slice, b) =>
    let version := slice.skip 5
    after [.slice slice, .sub slice.n 5, .slice version]
      (match select versionChain (b.sliceEq version) with
      | none => some (⟨r, b, true⟩, [])
      | some version => traceHeaders (b.readable + 1) { r with version := version } b)

/-- `readPath` with its uses of memory. -/
def tracePath (r : Request) (b : Buffer) : Option (Read × List Use) :=
  (b.retrieveUntil SP).bind fun (slice, b) =>
    after [.slice slice]
      (if slice.empty then some (⟨r, b, true⟩, [])
      else traceVersion { r with path := b.bytes slice } b)

/-- `readBuffer` with its uses of memory. -/
def traceBuffer (r : Request) (b : Buffer) : Option (Read × List Use) :=
  (b.retrieveUntil SP).bind fun (slice, b) =>
    after [.slice slice]
      (match select methodChain (b.sliceEq slice) with
      | none => some (⟨r, b, true⟩, [])
      | some method => tracePath { r with method := method } b)

@[simp] theorem fst_after (us : List Use) (o : Option (Read × List Use)) :
    (after us o).map Prod.fst = o.map Prod.fst := by
  cases o <;> rfl

/-! ## The record changes nothing -/

/-- The first `k` bytes of a slice. -/
theorem bytes_take {b : Buffer} {s : Slice} {k : ℕ} (hk : k ≤ s.n) :
    b.bytes ⟨s.data, k⟩ = (b.bytes s).take k := by
  cases hs : s.data with
  | null off => simp [Buffer.bytes, hs]
  | «at» off => simp [Buffer.bytes, hs, List.take_take, Nat.min_eq_left hk]

theorem traceHeaders_fst (fuel : ℕ) (r : Request) {b : Buffer} (hwf : b.Wf) :
    (traceHeaders fuel r b).map Prod.fst = readHeaders fuel r b := by
  induction fuel generalizing r b with
  | zero => rfl
  | succ fuel ih =>
      obtain ⟨s, b₁, heq, hadv, hbytes, hn, -⟩ := Buffer.retrieveUntil_eq_cut hwf CRLF
      rw [traceHeaders, readHeaders, heq]
      simp only [Option.bind_some]
      split
      · rw [Option.map_map]
        rfl
      · split
        · rfl
        · rename_i hcolon
          -- the colon and the two bytes of it lie inside the line
          have hle := Search.search_add_length_le hcolon
          have hlen : s.n = (b₁.bytes s).length := by rw [hn, hbytes]
          simp only [COLON, List.length_cons, List.length_nil] at hle
          rw [fst_after, ih _ hadv.2, bytes_take (by simp only [COLON] at hle ⊢; omega),
            bytes_skip (by simp only [COLON] at hle ⊢; omega)]

theorem traceVersion_fst (r : Request) {b : Buffer} (hwf : b.Wf) :
    (traceVersion r b).map Prod.fst = readVersion r b := by
  obtain ⟨s, b₁, heq, hadv, -⟩ := Buffer.retrieveUntil_eq_cut hwf CRLF
  rw [traceVersion, readVersion, heq]
  simp only [Option.bind_some, fst_after]
  cases select versionChain (b₁.sliceEq (s.skip 5)) with
  | none => rfl
  | some version => exact traceHeaders_fst _ _ hadv.2

theorem tracePath_fst (r : Request) {b : Buffer} (hwf : b.Wf) :
    (tracePath r b).map Prod.fst = readPath r b := by
  obtain ⟨s, b₁, heq, hadv, -⟩ := Buffer.retrieveUntil_eq_cut hwf SP
  rw [tracePath, readPath, heq]
  simp only [Option.bind_some, fst_after]
  split
  · rfl
  · exact traceVersion_fst _ hadv.2

/-- What is read is read by `readBuffer`. -/
theorem traceBuffer_fst (r : Request) {b : Buffer} (hwf : b.Wf) :
    (traceBuffer r b).map Prod.fst = readBuffer r b := by
  obtain ⟨s, b₁, heq, hadv, -⟩ := Buffer.retrieveUntil_eq_cut hwf SP
  rw [traceBuffer, readBuffer, heq]
  simp only [Option.bind_some, fst_after]
  cases select methodChain (b₁.sliceEq s) with
  | none => rfl
  | some method => exact tracePath_fst _ hadv.2

/-! ## Inside the input -/

/-- The code comes to an end, and all that it uses lies inside the readable bytes of `b`. -/
def UsesInside (b : Buffer) (o : Option (Read × List Use)) : Prop :=
  ∃ x us, o = some (x, us) ∧ ∀ u ∈ us, u.Inside b

theorem usesInside_throw (b : Buffer) (x : Read) : UsesInside b (some (x, [])) :=
  ⟨x, [], rfl, fun _ h => absurd h List.not_mem_nil⟩

theorem usesInside_after {b : Buffer} {us : List Use} {o : Option (Read × List Use)} :
    UsesInside b (after us o) ↔ (∀ u ∈ us, u.Inside b) ∧ UsesInside b o := by
  constructor
  · rintro ⟨x, ws, heq, hws⟩
    obtain ⟨⟨x', vs⟩, ho, hpair⟩ := Option.map_eq_some_iff.mp heq
    obtain ⟨rfl, rfl⟩ := Prod.mk.inj hpair
    rw [List.forall_mem_append] at hws
    exact ⟨hws.1, x', vs, ho, hws.2⟩
  · rintro ⟨hus, x, vs, rfl, hvs⟩
    exact ⟨x, us ++ vs, rfl, List.forall_mem_append.mpr ⟨hus, hvs⟩⟩

/-- The loop over the header lines ends and stays inside the input. -/
theorem traceHeaders_inside {b b' : Buffer} (h : b.Follows b') {fuel : ℕ}
    (hfuel : b'.readable < fuel) (r : Request) : UsesInside b (traceHeaders fuel r b') := by
  induction fuel generalizing r b' with
  | zero => exact absurd hfuel (Nat.not_lt_zero _)
  | succ fuel ih =>
      obtain ⟨s, b₁, heq, hfollows, hwithin, hbytes, hn, hcontent⟩ := h.retrieveUntil CRLF
      rw [traceHeaders, heq]
      simp only [Option.bind_some]
      split
      · obtain ⟨body, b₂, hall, hbody⟩ := hfollows.retrieveAll
        rw [hall]
        exact ⟨_, _, rfl, List.forall_mem_singleton.mpr hbody⟩
      · rename_i hempty
        split
        · exact ⟨_, _, rfl, List.forall_mem_singleton.mpr hwithin⟩
        · rename_i hcolon
          have hle := Search.search_add_length_le hcolon
          rw [hbytes, ← hn] at hle
          have hkey : Search.search COLON (b₁.bytes s) + 2 ≤ s.n := by
            rw [hbytes]
            exact hle
          refine usesInside_after.mpr ⟨?_, ih hfollows ?_ _⟩
          · simp only [List.forall_mem_cons]
            exact ⟨hwithin, hwithin.take (by omega), hkey, hwithin.skip hkey,
              fun _ h => absurd h List.not_mem_nil⟩
          · -- the line that was taken was not empty
            have hcut := Search.length_cut_le CRLF b'.content
            have hpos : s.n ≠ 0 := fun hzero => hempty (by rw [Slice.empty, hzero]; rfl)
            rw [← hcontent, ← hn, Buffer.length_content, Buffer.length_content] at hcut
            omega

/-- From the version on, the length of the version line decides. -/
theorem traceVersion_inside {b b' : Buffer} (h : b.Follows b') (r : Request) :
    UsesInside b (traceVersion r b') ↔ 5 ≤ (Search.cut CRLF b'.content).1.length := by
  obtain ⟨s, b₁, heq, hfollows, hwithin, -, hn, -⟩ := h.retrieveUntil CRLF
  rw [traceVersion, heq, ← hn]
  simp only [Option.bind_some, usesInside_after, List.forall_mem_cons]
  constructor
  · rintro ⟨⟨-, hsub, -⟩, -⟩
    exact hsub
  · intro hle
    refine ⟨⟨hwithin, hle, hwithin.skip hle, fun _ h => absurd h List.not_mem_nil⟩, ?_⟩
    cases select versionChain (b₁.sliceEq (s.skip 5)) with
    | none => exact usesInside_throw b _
    | some version => exact traceHeaders_inside hfollows (Nat.lt_succ_self _) _

/-- Where there is a path, the version line follows it. -/
theorem tracePath_inside {b b' : Buffer} (h : b.Follows b') (r : Request) :
    UsesInside b (tracePath r b') ↔ ((Search.cut SP b'.content).1 ≠ [] →
      5 ≤ (Search.cut CRLF (Search.cut SP b'.content).2).1.length) := by
  obtain ⟨s, b₁, heq, hfollows, hwithin, -, hn, hcontent⟩ := h.retrieveUntil SP
  rw [tracePath, heq, ← hcontent]
  simp only [Option.bind_some, usesInside_after, List.forall_mem_singleton, empty_iff hn]
  rw [and_iff_right (show Use.Inside b (.slice s) from hwithin)]
  split
  · rename_i hpath
    exact iff_of_true (usesInside_throw b _) fun hne => absurd hpath hne
  · rename_i hpath
    rw [traceVersion_inside hfollows]
    exact ⟨fun hle _ => hle, fun himp => himp hpath⟩

/-- Where there is a method, the path follows it. -/
theorem traceBuffer_inside {b : Buffer} (hwf : b.Wf) (r : Request) :
    UsesInside b (traceBuffer r b) ↔
      ∀ method, select methodChain (· == (Search.cut SP b.content).1) = some method →
        (Search.cut SP (Search.cut SP b.content).2).1 ≠ [] →
          5 ≤ (Search.cut CRLF (Search.cut SP (Search.cut SP b.content).2).2).1.length := by
  obtain ⟨s, b₁, heq, hfollows, hwithin, hbytes, hn, hcontent⟩ :=
    (Buffer.Follows.refl hwf).retrieveUntil SP
  rw [traceBuffer, heq, ← hcontent]
  simp only [Option.bind_some, usesInside_after, List.forall_mem_singleton,
    sliceEq_eq hbytes hn]
  rw [and_iff_right (show Use.Inside b (.slice s) from hwithin)]
  cases select methodChain (· == (Search.cut SP b.content).1) with
  | none => exact iff_of_true (usesInside_throw b _) fun _ h => by cases h
  | some method =>
      rw [tracePath_inside hfollows]
      refine ⟨fun hle _ _ => hle, fun himp => himp method rfl⟩

/-! ## Version lines that are too short -/

/-- The content begins with a method, a path and a version line of fewer than five bytes, or
with no line end left where the version belongs. -/
def ShortVersion (l : List UInt8) : Prop :=
  ∃ (method : Method) (path rest : List UInt8), path ≠ [] ∧ ¬ SP <:+: path ∧
    l = methodMsgs method ++ (SP ++ (path ++ (SP ++ rest))) ∧
    (¬ CRLF <:+: rest ∨
      ∃ line tail : List UInt8, line.length < 5 ∧ rest = line ++ (CRLF ++ tail))

/-- A line is cut off short when it is short or when it has no end. -/
theorem length_cut_CRLF_lt_iff (rest : List UInt8) :
    (Search.cut CRLF rest).1.length < 5 ↔ ¬ CRLF <:+: rest ∨
      ∃ line tail : List UInt8, line.length < 5 ∧ rest = line ++ (CRLF ++ tail) := by
  constructor
  · intro hlt
    by_cases hin : CRLF <:+: rest
    · exact Or.inr ⟨_, _, hlt, Search.eq_of_cut_infix (by decide) hin⟩
    · exact Or.inl hin
  · rintro (hnone | ⟨line, tail, hlt, rfl⟩)
    · rw [Search.cut_of_not_infix (by decide) hnone]
      exact Nat.succ_pos 4
    · exact lt_of_le_of_lt (Search.length_cut_append_le CRLF line tail) hlt

/-- The parser meets a short version line exactly where it finds a method and a path. -/
theorem shortVersion_iff (l : List UInt8) :
    ShortVersion l ↔
      ∃ method, select methodChain (· == (Search.cut SP l).1) = some method ∧
        (Search.cut SP (Search.cut SP l).2).1 ≠ [] ∧
          (Search.cut CRLF (Search.cut SP (Search.cut SP l).2).2).1.length < 5 := by
  constructor
  · rintro ⟨method, path, rest, hpath, hspace, rfl, hrest⟩
    have hmethod : ¬ SP <:+: methodMsgs method := by cases method <;> decide
    refine ⟨method, ?_⟩
    rw [cut_SP hmethod, cut_SP hspace]
    exact ⟨select_method method, hpath, (length_cut_CRLF_lt_iff rest).mpr hrest⟩
  · rintro ⟨method, hselect, hpath, hlt⟩
    have hname := eq_of_select_method hselect
    have hne : (Search.cut SP l).1 ≠ [] := by rw [hname]; cases method <;> decide
    refine ⟨method, _, _, hpath, Search.not_infix_cut (by decide) _, ?_,
      (length_cut_CRLF_lt_iff _).mp hlt⟩
    rw [← Search.eq_of_cut_ne_nil hpath, ← hname]
    exact Search.eq_of_cut_ne_nil hne

/-- The parser comes to an end on the buffer and stays inside its readable bytes. -/
def StaysInside (r : Request) (b : Buffer) : Prop := UsesInside b (traceBuffer r b)

/-- The parser stays inside its input, exactly when the version line is not too short. -/
theorem staysInside_iff (r : Request) (b : Buffer) :
    StaysInside r b ↔ ¬ ShortVersion b.content := by
  by_cases hnil : b.content = []
  · -- nothing is readable, so no method is found
    refine iff_of_true ?_ ?_
    · rw [StaysInside, traceBuffer, Buffer.retrieveUntil_of_content_nil hnil, Option.bind_some,
        usesInside_after, select_nullSlice]
      exact ⟨List.forall_mem_singleton.mpr (Or.inl rfl), usesInside_throw b _⟩
    · rintro ⟨method, path, rest, -, -, heq, -⟩
      rw [hnil] at heq
      simp [SP] at heq
  · rw [StaysInside, traceBuffer_inside (Buffer.wf_of_content_ne_nil hnil), shortVersion_iff]
    simp only [not_exists, not_and, Nat.not_lt]

/-- `HTTP/` without its last byte: the length of the version wraps round. -/
theorem not_staysInside_short :
    ¬ StaysInside {}
      ⟨0, Vec.insertEnd (Vec.reserve 0) (ascii "GET / HTTP\r\n\r\n") 0⟩ := by
  rintro ⟨x, us, heq, hus⟩
  have hsub : (traceBuffer {} ⟨0, Vec.insertEnd (Vec.reserve 0)
      (ascii "GET / HTTP\r\n\r\n") 0⟩).map (fun p => p.2.contains (.sub 4 5)) = some true := by
    decide
  rw [heq, Option.map_some, Option.some.injEq, List.contains_iff_mem] at hsub
  exact absurd (hus _ hsub) (by decide : ¬ (5 ≤ 4))

end Http

end Lotta
