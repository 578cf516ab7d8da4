/-
# What the request parser accepts

`readBuffer_render` and `content_of_readBuffer` are the two halves of the round trip on
buffers: a rendered request is read back, and a buffer on which `readBuffer` returns held
the request that it has read, byte for byte.

The parser should accept requests only.  It does not compare the five bytes before the
version with `HTTP/`, takes a path with a line end in it, and takes the end of the buffer for
the empty line when no line end is left: for the method, the path and the version the empty
slice of `retrieveUntil` leads to a `BadRequestException`, for the header lines it ends the
loop.  `acceptsRequestsOnly_iff` says that these are all the contents on which it goes wrong.
-/
import Lotta.Http.RoundTrip

namespace Lotta

namespace Http

/-! ## The round trip on buffers -/

/-- The null slice is no method. -/
theorem select_nullSlice (b : Buffer) :
    select methodChain (b.sliceEq Slice.nullSlice) = none := by
  rw [sliceEq_eq (l := []) rfl rfl]
  decide

/-- A buffer without readable bytes is rejected. -/
theorem readBuffer_of_content_nil {b : Buffer} (h : b.content = []) :
    readBuffer {} b = some ⟨{}, b, true⟩ := by
  rw [readBuffer, Buffer.retrieveUntil_of_content_nil h, Option.bind_some]
  simp only [select_nullSlice]

/-- A rendered request is read back with its body, and nothing readable is left. -/
theorem readBuffer_render {r : Request} (hpath : r.path ≠ []) (hspace : ¬ SP <:+: r.path)
    (hheaders : ∀ p ∈ r.headers, HeaderOk p) {b : Buffer} (hb : b.content = render r ++ r.body) :
    ∃ b', readBuffer {} b = some ⟨r, b', false⟩ ∧ b'.content = [] := by
  have hne : b.content ≠ [] := by
    rw [hb]
    simp [render, CRLF]
  obtain ⟨x, hx, hparse, -⟩ := readBuffer_parsed {} (Buffer.wf_of_content_ne_nil hne)
  have hread := parse_renderHead (lines_HTTP hpath hspace hheaders) (Or.inl rfl)
  rw [hb, render, List.append_assoc, hread] at hparse
  obtain ⟨hrequest, hcontent, hthrown⟩ := Parsed.mk.inj (Option.some.inj hparse)
  refine ⟨x.buf, ?_, hcontent.symm⟩
  rw [hx, hrequest, hthrown]

/-- A request with a header that stands there twice and a body with line ends. -/
theorem readBuffer_render_post :
    ∃ b', readBuffer {} ⟨0, Vec.insertEnd (Vec.reserve 0)
        (render ⟨.post, .v10, ascii "/a", [(ascii "k", ascii "v"), (ascii "k", ascii "v")], CRLF⟩ ++
          CRLF) 0⟩ =
      some ⟨⟨.post, .v10, ascii "/a", [(ascii "k", ascii "v"), (ascii "k", ascii "v")], CRLF⟩, b',
        false⟩ ∧ b'.content = [] :=
  readBuffer_render (by decide) (by decide) (by decide) rfl

/-- A buffer on which `readBuffer` returns held the request that was read, with any five
bytes for `HTTP/`, and nothing of it is left. -/
theorem content_of_readBuffer {b : Buffer} {x : Read} (h : readBuffer {} b = some x)
    (hreturn : x.thrown = false) :
    x.buf.content = [] ∧ ∃ five : List UInt8, five.length = 5 ∧
      (b.content = renderHead x.request five ++ (CRLF ++ x.request.body) ∨
        b.content = renderHead x.request five ++ x.request.body ∧ ¬ CRLF <:+: x.request.body) := by
  have hne : b.content ≠ [] := by
    intro hnil
    rw [readBuffer_of_content_nil hnil] at h
    rw [← Option.some.inj h] at hreturn
    cases hreturn
  obtain ⟨x', hx', hparse, -⟩ := readBuffer_parsed {} (Buffer.wf_of_content_ne_nil hne)
  obtain rfl : x = x' := Option.some.inj (h.symm.trans hx')
  rw [Read.parsed, hreturn] at hparse
  obtain ⟨hrest, five, tail, hlines, hends, heq⟩ := lines_of_parse hparse
  refine ⟨hrest, five, hlines.five_length, ?_⟩
  rcases hends with rfl | ⟨rfl, hbody⟩
  · exact Or.inl heq
  · exact Or.inr ⟨heq, hbody⟩

/-- A buffer that ends behind a header line: the rest of it is the body. -/
theorem content_of_readBuffer_noEmptyLine :
    ∃ x, readBuffer {}
        ⟨0, Vec.insertEnd (Vec.reserve 0) (ascii "PUT / FTP:/1.0\r\nk: v\r\nrest") 0⟩ = some x ∧
      (x.buf.content = [] ∧ ∃ five : List UInt8, five.length = 5 ∧
        (ascii "PUT / FTP:/1.0\r\nk: v\r\nrest" =
            renderHead x.request five ++ (CRLF ++ x.request.body) ∨
          ascii "PUT / FTP:/1.0\r\nk: v\r\nrest" = renderHead x.request five ++ x.request.body ∧
            ¬ CRLF <:+: x.request.body)) := by
  have hreturn : (readBuffer {} ⟨0, Vec.insertEnd (Vec.reserve 0)
      (ascii "PUT / FTP:/1.0\r\nk: v\r\nrest") 0⟩).map Read.thrown = some false := by
    decide
  obtain ⟨x, hx, hthrown⟩ := Option.map_eq_some_iff.mp hreturn
  exact ⟨x, hx, content_of_readBuffer hx hthrown⟩

/-! ## Requests -/

/-- The content is a request: its path is not empty and contains neither a space nor a line
end, and neither does a key or a value contain a line end. -/
def IsRequest (l : List UInt8) : Prop :=
  ∃ r : Request, r.path ≠ [] ∧ ¬ SP <:+: r.path ∧ ¬ CRLF <:+: r.path ∧
    (∀ p ∈ r.headers, ¬ CRLF <:+: p.1 ∧ ¬ CRLF <:+: p.2) ∧ l = render r ++ r.body

/-- `readBuffer` returns on requests only and throws on everything else. -/
def AcceptsRequestsOnly (b : Buffer) : Prop :=
  ∃ x, readBuffer {} b = some x ∧ (x.thrown = false → IsRequest b.content) ∧
    (¬ IsRequest b.content → x.thrown = true)

/-- The contents of which a part is not looked at: the parts of a request are there, but
other bytes stand for `HTTP/`, the path contains a line end, or no line end is left where
the empty line belongs. -/
def Overlooked (l : List UInt8) : Prop :=
  ∃ (r : Request) (five : List UInt8), Lines r five ∧
    (l = renderHead r five ++ (CRLF ++ r.body) ∧ (five ≠ ascii "HTTP/" ∨ CRLF <:+: r.path) ∨
      l = renderHead r five ++ r.body ∧ ¬ CRLF <:+: r.body)

/-- No line end straddles the colon. -/
theorem line_noCRLF {key val : List UInt8} (hkey : ¬ CRLF <:+: key) (hval : ¬ CRLF <:+: val) :
    ¬ CRLF <:+: key ++ (COLON ++ val) := by
  induction key with
  | nil =>
      intro h
      rw [List.nil_append, COLON, List.cons_append, List.cons_append, List.nil_append,
        List.infix_cons_iff, List.infix_cons_iff] at h
      rcases h with h | h | h
      · simp [CRLF] at h
      · simp [CRLF] at h
      · exact hval h
  | cons c key ih =>
      intro h
      rw [List.cons_append, List.infix_cons_iff] at h
      rcases h with h | h
      · cases key with
        | nil => simp [CRLF, COLON] at h
        | cons d key =>
            apply hkey
            simp only [CRLF, List.cons_append, List.cons_prefix_cons, List.nil_prefix,
              and_true] at h
            obtain ⟨rfl, rfl⟩ := h
            exact List.infix_iff_prefix_suffix.mpr
              ⟨13 :: 10 :: key, by simp [CRLF], List.suffix_refl _⟩
      · exact ih (fun hin => hkey (List.infix_cons hin)) h

/-- A header line without a line end is that of a header whose key ends at the first
colon. -/
theorem exists_headerOk {p : List UInt8 × List UInt8} (hp : ¬ CRLF <:+: p.1 ∧ ¬ CRLF <:+: p.2) :
    ∃ q, HeaderOk q ∧ headerLine q = headerLine p := by
  have hin : COLON <:+: p.1 ++ (COLON ++ p.2) := ⟨p.1, p.2, by rw [List.append_assoc]⟩
  have hsearch : Search.search COLON (p.1 ++ (COLON ++ p.2)) ≠ (p.1 ++ (COLON ++ p.2)).length :=
    fun hs => (Search.search_eq_length_iff (by decide)).mp hs hin
  exact ⟨_, headerOk_of_search hsearch (line_noCRLF hp.1 hp.2), headerLine_of_search hsearch⟩

theorem exists_headersOk {headers : Headers}
    (h : ∀ p ∈ headers, ¬ CRLF <:+: p.1 ∧ ¬ CRLF <:+: p.2) :
    ∃ headers' : Headers, (∀ q ∈ headers', HeaderOk q) ∧
      headers'.flatMap headerLine = headers.flatMap headerLine := by
  induction headers with
  | nil => exact ⟨[], by simp, rfl⟩
  | cons p headers ih =>
      obtain ⟨q, hq, hline⟩ := exists_headerOk (h p List.mem_cons_self)
      obtain ⟨headers', hok, hlines⟩ := ih fun p' hp' => h p' (List.mem_cons_of_mem p hp')
      refine ⟨q :: headers', List.forall_mem_cons.mpr ⟨hq, hok⟩, ?_⟩
      rw [List.flatMap_cons, List.flatMap_cons, hline, hlines]

/-- A request is accepted, with the headers as the parser takes them apart. -/
theorem lines_of_isRequest {l : List UInt8} (h : IsRequest l) :
    ∃ r : Request, Lines r (ascii "HTTP/") ∧ ¬ CRLF <:+: r.path ∧
      l = renderHead r (ascii "HTTP/") ++ (CRLF ++ r.body) := by
  obtain ⟨r, hpath, hspace, hline, hheaders, rfl⟩ := h
  obtain ⟨headers, hok, hlines⟩ := exists_headersOk hheaders
  refine ⟨{ r with headers := headers }, lines_HTTP hpath hspace hok, hline, ?_⟩
  rw [render, List.append_assoc, renderHead, renderHead, hlines]

/-- A content of which a part is overlooked is not a request in any other reading: it is read
in one way only. -/
theorem Overlooked.not_isRequest {l : List UInt8} (h : Overlooked l) : ¬ IsRequest l := by
  intro hreq
  obtain ⟨r, hr, hpath, hl⟩ := lines_of_isRequest hreq
  have hread : parse {} l = some ⟨r, [], false⟩ := hl ▸ parse_renderHead hr (Or.inl rfl)
  -- both readings are that of the parser
  have hsame : ∀ {r' : Request} {five tail : List UInt8}, Lines r' five → Ends tail r'.body →
      l = renderHead r' five ++ tail → r' = r ∧ five = ascii "HTTP/" ∧ tail = CRLF ++ r.body := by
    intro r' five tail hr' hends hl'
    have hread' : parse {} l = some ⟨r', [], false⟩ := hl' ▸ parse_renderHead hr' hends
    obtain rfl : r' = r := (Parsed.mk.inj (Option.some.inj (hread'.symm.trans hread))).1
    exact ⟨rfl, renderHead_inj (hr'.five_length.trans hr.five_length.symm) (hl'.symm.trans hl)⟩
  obtain ⟨r', five, hr', ⟨hl', hfive | hin⟩ | ⟨hl', hbody⟩⟩ := h
  · exact hfive (hsame hr' (Or.inl rfl) hl').2.1
  · obtain ⟨rfl, -, -⟩ := hsame hr' (Or.inl rfl) hl'
    exact hpath hin
  · obtain ⟨rfl, -, htail⟩ := hsame hr' (Or.inr ⟨rfl, hbody⟩) hl'
    have hlen := congrArg List.length htail
    simp only [CRLF, List.length_append, List.length_cons, List.length_nil] at hlen
    omega

/-- The parser accepts requests only, exactly on the contents of which it overlooks no
part. -/
theorem acceptsRequestsOnly_iff (b : Buffer) : AcceptsRequestsOnly b ↔ ¬ Overlooked b.content := by
  by_cases hnil : b.content = []
  · refine iff_of_true ⟨_, readBuffer_of_content_nil hnil, nofun, fun _ => rfl⟩ ?_
    rintro ⟨r, five, -, h⟩
    have hhead : ∀ tail, b.content ≠ renderHead r five ++ tail := by
      intro tail
      rw [hnil, renderHead]
      simp [SP]
    exact h.elim (fun h => hhead _ h.1) (fun h => hhead _ h.1)
  · obtain ⟨x, hx, hparse, -⟩ := readBuffer_parsed {} (Buffer.wf_of_content_ne_nil hnil)
    constructor
    · rintro ⟨x', hx', hreturn, -⟩ hover
      obtain rfl : x' = x := Option.some.inj (hx'.symm.trans hx)
      refine hover.not_isRequest (hreturn ?_)
      obtain ⟨r, five, hr, ⟨hl, -⟩ | ⟨hl, hbody⟩⟩ := hover
      · rw [hl, parse_renderHead hr (Or.inl rfl)] at hparse
        exact (Parsed.mk.inj (Option.some.inj hparse)).2.2.symm
      · rw [hl, parse_renderHead hr (Or.inr ⟨rfl, hbody⟩)] at hparse
        exact (Parsed.mk.inj (Option.some.inj hparse)).2.2.symm
    · intro hover
      have hreturn : x.thrown = false → IsRequest b.content := by
        intro hthrown
        rw [Read.parsed, hthrown] at hparse
        obtain ⟨-, five, tail, hr, hends, hl⟩ := lines_of_parse hparse
        rcases hends with rfl | ⟨rfl, hbody⟩
        · have hfive : five = ascii "HTTP/" := by
            by_contra hne
            exact hover ⟨_, five, hr, Or.inl ⟨hl, Or.inl hne⟩⟩
          have hpath : ¬ CRLF <:+: x.request.path := fun hin =>
            hover ⟨_, five, hr, Or.inl ⟨hl, Or.inr hin⟩⟩
          refine ⟨x.request, hr.path_ne_nil, hr.path_noSpace, hpath, fun p hp => ⟨?_, ?_⟩, ?_⟩
          · exact fun hin => (hr.headers_ok p hp).2 (hin.trans (List.infix_append' [] p.1 _))
          · exact fun hin => (hr.headers_ok p hp).2 (hin.trans
              ⟨p.1 ++ COLON, [], by simp⟩)
          · rw [render, List.append_assoc, ← hfive]
            exact hl
        · exact absurd ⟨_, five, hr, Or.inr ⟨hl, hbody⟩⟩ hover
      refine ⟨x, hx, hreturn, fun hnot => ?_⟩
      by_contra hthrown
      exact hnot (hreturn (Bool.eq_false_iff.mpr hthrown))

/-- A request that is cut off before its empty line is accepted. -/
theorem not_acceptsRequestsOnly_truncated :
    ¬ AcceptsRequestsOnly
      ⟨0, Vec.insertEnd (Vec.reserve 0) (ascii "GET / HTTP/1.1\r\nHost: a\r\n") 0⟩ := by
  have hover : Overlooked (ascii "GET / HTTP/1.1\r\nHost: a\r\n") :=
    ⟨{ headers := [(ascii "Host", ascii "a")] }, ascii "HTTP/",
      lines_HTTP (by decide) (by decide) (by decide), Or.inr (by decide)⟩
  rintro ⟨x, hx, hreturn, -⟩
  apply hover.not_isRequest (hreturn _)
  have hdecide : (readBuffer {} ⟨0, Vec.insertEnd (Vec.reserve 0)
      (ascii "GET / HTTP/1.1\r\nHost: a\r\n") 0⟩).map Read.thrown = some false := by
    decide
  rw [hx, Option.map_some] at hdecide
  exact Option.some.inj hdecide

end Http

end Lotta
