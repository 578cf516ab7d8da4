/-
# Reading a request

`Request::readBuffer` reads one request from a buffer: the method up to a space, the path
up to a space, the version up to the end of the line, one header line after the other up
to an empty one, and all the rest as the body.  It answers a malformed part by throwing
`BadRequestException`, which leaves the request and the buffer as far as they were read.
`retrieveUntil` hands out the same empty slice for "nothing before the delimiter" and for
"no delimiter", and `readBuffer` does not tell the two apart.

`parse` is the same function on sequences of bytes.  `readBuffer_parsed` connects the two:
what is read depends on the content of the buffer only, no assertion fails and the loop
over the header lines ends.
-/
import Lotta.Buffer
import Lotta.Http.Message

namespace Lotta

/-! ## Slices -/

/-- The pointer moved by `k` bytes. -/
def Ptr.add : Ptr → ℕ → Ptr
  | .null off, k => .null (off + k)
  | .at off, k => .at (off + k)

/-- `{slice.data + k, slice.n - k}`, where the difference is a `size_t`. -/
def Slice.skip (s : Slice) (k : ℕ) : Slice :=
  ⟨s.data.add k, if k ≤ s.n then s.n - k else s.n + 2 ^ 64 - k⟩

/-- `slice == str`. -/
def Buffer.sliceEq (b : Buffer) (s : Slice) (str : List UInt8) : Bool :=
  str.length == s.n && str == b.bytes s

namespace Http

/-! ## The code -/

/-- What `readBuffer` leaves behind: the request and the buffer as far as they were read,
and whether it has thrown `BadRequestException`. -/
structure Read where
  request : Request
  buf : Buffer
  thrown : Bool

/-- The loop over the header lines, and the body behind them. -/
def readHeaders : ℕ → Request → Buffer → Option Read
  | 0, _, _ => none
  | fuel + 1, r, b =>
      (b.retrieveUntil CRLF).bind fun (slice, b) =>
        if slice.empty then
          b.retrieveAll.map fun (slice, b) => ⟨{ r with body := b.bytes slice }, b, false⟩
        else
          let line := b.bytes slice
          let colon := Search.search COLON line
          if colon = line.length then some ⟨r, b, true⟩
          else
            let headers := r.headers.append (line.take colon) (line.drop (colon + 2))
            readHeaders fuel { r with headers := headers } b

/-- The version and what follows it.  A version that is not known is logged before the exception,
which is taken to have no effect. -/
def readVersion (r : Request) (b : Buffer) : Option Read :=
  (b.retrieveUntil CRLF).bind fun (slice, b) =>
    match select versionChain (b.sliceEq (slice.skip 5)) with
    | none => some ⟨r, b, true⟩
    | some version => readHeaders (b.readable + 1) { r with version := version } b

/-- The path and what follows it. -/
def readPath (r : Request) (b : Buffer) : Option Read :=
  (b.retrieveUntil SP).bind fun (slice, b) =>
    if slice.empty then some ⟨r, b, true⟩
    else readVersion { r with path := b.bytes slice } b

/-- `readBuffer`. -/
def readBuffer (r : Request) (b : Buffer) : Option Read :=
  (b.retrieveUntil SP).bind fun (slice, b) =>
    match select methodChain (b.sliceEq slice) with
    | none => some ⟨r, b, true⟩
    | some method => readPath { r with method := method } b

/-! ## The same on sequences of bytes -/

/-- What is left by parsing a sequence of bytes. -/
structure Parsed where
  request : Request
  rest : List UInt8
  thrown : Bool
  deriving DecidableEq

/-- The header lines and the body. -/
def parseHeaders : ℕ → Request → List UInt8 → Option Parsed
  | 0, _, _ => none
  | fuel + 1, r, l =>
      let line := (Search.cut CRLF l).1
      let rest := (Search.cut CRLF l).2
      if line = [] then some ⟨{ r with body := rest }, [], false⟩
      else
        let colon := Search.search COLON line
        if colon = line.length then some ⟨r, rest, true⟩
        else
          let headers := r.headers.append (line.take colon) (line.drop (colon + 2))
          parseHeaders fuel { r with headers := headers } rest

/-- From the version on. -/
def parseVersion (r : Request) (l : List UInt8) : Option Parsed :=
  let rest := (Search.cut CRLF l).2
  match select versionChain (· == (Search.cut CRLF l).1.drop 5) with
  | none => some ⟨r, rest, true⟩
  | some version => parseHeaders (rest.length + 1) { r with version := version } rest

/-- From the path on. -/
def parsePath (r : Request) (l : List UInt8) : Option Parsed :=
  let path := (Search.cut SP l).1
  let rest := (Search.cut SP l).2
  if path = [] then some ⟨r, rest, true⟩
  else parseVersion { r with path := path } rest

/-- A whole request. -/
def parse (r : Request) (l : List UInt8) : Option Parsed :=
  let rest := (Search.cut SP l).2
  match select methodChain (· == (Search.cut SP l).1) with
  | none => some ⟨r, rest, true⟩
  | some method => parsePath { r with method := method } rest

/-! ## The code on the content of its buffer -/

/-- What is left behind, as a sequence of bytes. -/
def Read.parsed (x : Read) : Parsed := ⟨x.request, x.buf.content, x.thrown⟩

/-- From the buffer `b` on, the result `o` of the code is that of parsing. -/
def Refines (b : Buffer) (o : Option Read) (p : Option Parsed) : Prop :=
  o.map Read.parsed = p ∧ ∀ x, o = some x → b.Advanced x.buf

theorem refines_throw {b b' : Buffer} (h : b.Advanced b') (r : Request) (thrown : Bool) :
    Refines b (some ⟨r, b', thrown⟩) (some ⟨r, b'.content, thrown⟩) := by
  refine ⟨rfl, fun x hx => ?_⟩
  obtain rfl := Option.some.inj hx
  exact h

theorem Refines.of_advanced {b b' : Buffer} {o : Option Read} {p : Option Parsed}
    (hb : b.Advanced b') (h : Refines b' o p) : Refines b o p :=
  ⟨h.1, fun x hx => hb.trans (h.2 x hx)⟩

/-- A slice is empty when it denotes no bytes. -/
theorem empty_iff {s : Slice} {l : List UInt8} (hn : s.n = l.length) :
    s.empty = true ↔ l = [] := by
  rw [Slice.empty, beq_iff_eq, hn, List.length_eq_zero_iff]

/-- Comparing a slice is comparing what it denotes. -/
theorem sliceEq_eq {b : Buffer} {s : Slice} {l : List UInt8} (hbytes : b.bytes s = l)
    (hn : s.n = l.length) : b.sliceEq s = (· == l) := by
  funext str
  rw [Buffer.sliceEq, hbytes, hn, Bool.eq_iff_iff]
  simp only [Bool.and_eq_true, beq_iff_eq]
  exact ⟨fun h => h.2, fun h => ⟨by rw [h], h⟩⟩

/-- Skipping bytes of a slice leaves what is behind them. -/
theorem bytes_skip {b : Buffer} {s : Slice} {k : ℕ} (hk : k ≤ s.n) :
    b.bytes (s.skip k) = (b.bytes s).drop k := by
  rw [Slice.skip, if_pos hk]
  cases hs : s.data with
  | null off => simp [Buffer.bytes, hs, Ptr.add]
  | «at» off => simp [Buffer.bytes, hs, Ptr.add, List.drop_take, List.drop_drop]

/-- Skipping five bytes leaves what is behind them; where there are fewer, the length
wraps round and the slice equals no version. -/
theorem select_skip {b : Buffer} {s : Slice} {l : List UInt8} (hbytes : b.bytes s = l)
    (hn : s.n = l.length) :
    select versionChain (b.sliceEq (s.skip 5)) = select versionChain (· == l.drop 5) := by
  by_cases h : 5 ≤ s.n
  · rw [sliceEq_eq (l := l.drop 5)]
    · rw [bytes_skip h, hbytes]
    · rw [Slice.skip, if_pos h, List.length_drop, hn]
  · -- no version is as long as the slice with the wrapped length
    have hlen : ∀ p ∈ versionChain, p.1.length = 3 := by decide
    have hleft : ∀ p ∈ versionChain, b.sliceEq (s.skip 5) p.1 = false := by
      intro p hp
      rw [Buffer.sliceEq, hlen p hp, Slice.skip, if_neg h]
      have hwrap : (3 == s.n + 2 ^ 64 - 5) = false := by
        rw [beq_eq_false_iff_ne]
        omega
      rw [hwrap, Bool.false_and]
    have hright : ∀ p ∈ versionChain, (p.1 == l.drop 5) = false := by
      intro p hp
      rw [List.drop_eq_nil_of_le (by omega), beq_eq_false_iff_ne]
      intro hnil
      have := hlen p hp
      rw [hnil] at this
      simp at this
    rw [select, select, List.find?_eq_none.mpr (by simpa using hleft),
      List.find?_eq_none.mpr (by simpa using hright)]

theorem readHeaders_refines (fuel : ℕ) (r : Request) {b : Buffer} (hwf : b.Wf) :
    Refines b (readHeaders fuel r b) (parseHeaders fuel r b.content) := by
  -- both loops make the same turns, so they share the fuel
  induction fuel generalizing r b with
  | zero => exact ⟨rfl, fun x hx => by cases hx⟩
  | succ fuel ih =>
      obtain ⟨s, b₁, heq, hadv, hbytes, hn, hcontent⟩ := Buffer.retrieveUntil_eq_cut hwf CRLF
      rw [readHeaders, heq, parseHeaders]
      simp only [Option.bind_some, hbytes, ← hcontent, empty_iff hn]
      split
      · obtain ⟨s', b₂, heq', hadv', hbytes', hcontent'⟩ := Buffer.retrieveAll_eq hadv.2
        rw [heq', ← hbytes', ← hcontent']
        exact refines_throw (hadv.trans hadv') _ _
      · split
        · exact refines_throw hadv _ _
        · exact (ih _ hadv.2).of_advanced hadv

theorem readVersion_refines (r : Request) {b : Buffer} (hwf : b.Wf) :
    Refines b (readVersion r b) (parseVersion r b.content) := by
  obtain ⟨s, b₁, heq, hadv, hbytes, hn, hcontent⟩ := Buffer.retrieveUntil_eq_cut hwf CRLF
  rw [readVersion, heq, parseVersion]
  simp only [Option.bind_some, select_skip hbytes hn, ← hcontent, ← Buffer.length_content]
  split
  · exact refines_throw hadv _ _
  · exact (readHeaders_refines _ _ hadv.2).of_advanced hadv

theorem readPath_refines (r : Request) {b : Buffer} (hwf : b.Wf) :
    Refines b (readPath r b) (parsePath r b.content) := by
  obtain ⟨s, b₁, heq, hadv, hbytes, hn, hcontent⟩ := Buffer.retrieveUntil_eq_cut hwf SP
  rw [readPath, heq, parsePath]
  simp only [Option.bind_some, hbytes, ← hcontent, empty_iff hn]
  split
  · exact refines_throw hadv _ _
  · exact (readVersion_refines _ hadv.2).of_advanced hadv

theorem readBuffer_refines (r : Request) {b : Buffer} (hwf : b.Wf) :
    Refines b (readBuffer r b) (parse r b.content) := by
  obtain ⟨s, b₁, heq, hadv, hbytes, hn, hcontent⟩ := Buffer.retrieveUntil_eq_cut hwf SP
  rw [readBuffer, heq, parse]
  simp only [Option.bind_some, sliceEq_eq hbytes hn, ← hcontent]
  split
  · exact refines_throw hadv _ _
  · exact (readPath_refines _ hadv.2).of_advanced hadv

/-! ## Reading always ends -/

/-- Every header line takes at least one byte, so the fuel is never used up. -/
theorem parseHeaders_isSome {fuel : ℕ} (r : Request) {l : List UInt8} (hfuel : l.length < fuel) :
    ∃ p, parseHeaders fuel r l = some p := by
  induction fuel generalizing r l with
  | zero => exact absurd hfuel (Nat.not_lt_zero _)
  | succ fuel ih =>
      rw [parseHeaders]
      split
      · exact ⟨_, rfl⟩
      · rename_i hline
        simp only
        split
        · exact ⟨_, rfl⟩
        · have hcut := Search.length_cut_le CRLF l
          have hpos := List.length_pos_of_ne_nil hline
          exact ih _ (by omega)

theorem parse_isSome (r : Request) (l : List UInt8) : ∃ p, parse r l = some p := by
  rw [parse]
  split
  · exact ⟨_, rfl⟩
  · rw [parsePath]
    split
    · exact ⟨_, rfl⟩
    · rw [parseVersion]
      split
      · exact ⟨_, rfl⟩
      · exact parseHeaders_isSome _ (Nat.lt_succ_self _)

/-- `readBuffer` always returns or throws, and what it leaves is what parsing the content
of the buffer leaves; only the read index of the buffer has moved. -/
theorem readBuffer_parsed (r : Request) {b : Buffer} (hwf : b.Wf) :
    ∃ x, readBuffer r b = some x ∧ parse r b.content = some x.parsed ∧ b.Advanced x.buf := by
  obtain ⟨hmap, hadv⟩ := readBuffer_refines r hwf
  obtain ⟨p, hp⟩ := parse_isSome r b.content
  rw [hp, Option.map_eq_some_iff] at hmap
  obtain ⟨x, hx, hparsed⟩ := hmap
  exact ⟨x, hx, by rw [hp, hparsed], hadv x hx⟩

end Http

end Lotta
