/-
# Requests on the wire

`render` writes a request the way a client does: the method, the path and the version
with the spaces between them, one line for each header and an empty line.  `parse_render`
reads a well-formed request back, with whatever follows the empty line as its body.
`render_of_parse` is the converse: what parses is such a text, byte for byte, except that
any five bytes may stand for `HTTP/` and that the empty line may be missing.
-/
import Lotta.Http.Parser

namespace Lotta

namespace Http

/-! ## Well-formed requests -/

/-- A header that is one line and whose key ends where the first `": "` stands. -/
def HeaderOk (p : List UInt8 × List UInt8) : Prop :=
  ¬ COLON <:+: p.1 ∧ ¬ CRLF <:+: p.1 ++ (COLON ++ p.2)

instance (p : List UInt8 × List UInt8) : Decidable (HeaderOk p) :=
  inferInstanceAs (Decidable (_ ∧ _))

/-- A well-formed request without a body and without a `Connection: close` header. -/
structure PlainRequest extends Request where
  path_ne_nil : path ≠ []
  path_noSpace : ¬ SP <:+: path
  headers_ok : ∀ p ∈ headers, HeaderOk p
  body_nil : body = []
  keepsOpen : (ascii "Connection", ascii "close") ∉ headers

/-- A request up to the empty line, with the bytes `five` where `HTTP/` belongs. -/
def renderHead (r : Request) (five : List UInt8) : List UInt8 :=
  methodMsgs r.method ++ (SP ++ (r.path ++ (SP ++
    (five ++ versionMsgs r.version ++ (CRLF ++ r.headers.flatMap headerLine)))))

/-- The text of a request. -/
def render (r : Request) : List UInt8 := renderHead r (ascii "HTTP/") ++ CRLF

/-- Two texts of one request that differ in the five bytes for `HTTP/` only. -/
theorem renderHead_inj {r : Request} {five five' u v : List UInt8}
    (hlen : five.length = five'.length) (h : renderHead r five ++ u = renderHead r five' ++ v) :
    five = five' ∧ u = v := by
  simp only [renderHead, List.append_assoc, List.append_cancel_left_eq] at h
  obtain ⟨hfive, htail⟩ := List.append_inj h hlen
  simp only [List.append_cancel_left_eq] at htail
  exact ⟨hfive, htail⟩

/-! ## A rendered request is read back -/

theorem cut_SP {l : List UInt8} (h : ¬ SP <:+: l) (rest : List UInt8) :
    Search.cut SP (l ++ (SP ++ rest)) = (l, rest) :=
  Search.cut_append (by decide) (by decide) h rest

theorem cut_CRLF {l : List UInt8} (h : ¬ CRLF <:+: l) (rest : List UInt8) :
    Search.cut CRLF (l ++ (CRLF ++ rest)) = (l, rest) :=
  Search.cut_append (by decide) (by decide) h rest

/-- The key of a header ends where the search for the colon stops. -/
theorem search_COLON {key : List UInt8} (h : ¬ COLON <:+: key) (val : List UInt8) :
    Search.search COLON (key ++ (COLON ++ val)) = key.length :=
  Search.search_eq_of_firstAt (Search.firstAt_append (by decide) h val)
    (by rw [List.drop_left]; exact List.prefix_append _ _) (by simp)

/-- A header line is one turn of the loop. -/
theorem parseHeaders_headerLine {p : List UInt8 × List UInt8} (hp : HeaderOk p) (fuel : ℕ)
    (r : Request) (rest : List UInt8) :
    parseHeaders (fuel + 1) r (headerLine p ++ rest) =
      parseHeaders fuel { r with headers := r.headers ++ [p] } rest := by
  have hne : p.1 ++ (COLON ++ p.2) ≠ [] := by simp [COLON]
  have hcolon : p.1.length ≠ (p.1 ++ (COLON ++ p.2)).length := by simp [COLON]
  have hval : (p.1 ++ (COLON ++ p.2)).drop (p.1.length + 2) = p.2 := by
    rw [← List.drop_drop, List.drop_left]
    rfl
  rw [headerLine, List.append_assoc, parseHeaders, cut_CRLF hp.2]
  simp only [hne, if_false, search_COLON hp.1, hcolon, List.take_left, hval, Headers.append]

/-- The end of the header lines: the empty line with the body behind it, or a body in
which no line ends. -/
def Ends (tail body : List UInt8) : Prop :=
  tail = CRLF ++ body ∨ tail = body ∧ ¬ CRLF <:+: body

/-- At the end of the header lines the rest is the body. -/
theorem parseHeaders_ends {tail body : List UInt8} (h : Ends tail body) (fuel : ℕ) (r : Request) :
    parseHeaders (fuel + 1) r tail = some ⟨{ r with body := body }, [], false⟩ := by
  have hcut : Search.cut CRLF tail = ([], body) := by
    rcases h with rfl | ⟨rfl, hnone⟩
    · exact cut_CRLF (l := []) (by decide) body
    · exact Search.cut_of_not_infix (by decide) hnone
  rw [parseHeaders, hcut]
  rfl

/-- The header lines are read in order, and the loop goes on behind them. -/
theorem parseHeaders_headerLines {headers : Headers} (hok : ∀ p ∈ headers, HeaderOk p) (fuel : ℕ)
    (r : Request) (tail : List UInt8) :
    parseHeaders (fuel + headers.length) r (headers.flatMap headerLine ++ tail) =
      parseHeaders fuel { r with headers := r.headers ++ headers } tail := by
  induction headers generalizing r with
  | nil => rw [List.flatMap_nil, List.nil_append, List.append_nil, List.length_nil, Nat.add_zero]
  | cons p headers ih =>
      have hp : HeaderOk p := hok p List.mem_cons_self
      rw [List.flatMap_cons, List.append_assoc, List.length_cons, ← Nat.add_assoc,
        parseHeaders_headerLine hp, ih fun q hq => hok q (List.mem_cons_of_mem p hq)]
      simp only [List.append_assoc, List.singleton_append]

theorem length_le_headerLines (headers : Headers) :
    headers.length ≤ (headers.flatMap headerLine).length := by
  induction headers with
  | nil => exact Nat.le_refl _
  | cons p headers ih =>
      simp only [List.flatMap_cons, List.length_append, List.length_cons, headerLine, CRLF]
      omega

/-- The parts of a request that has the bytes `five` where `HTTP/` belongs are found by the
searches of the parser: each ends where its delimiter first stands. -/
structure Lines (r : Request) (five : List UInt8) : Prop where
  path_ne_nil : r.path ≠ []
  path_noSpace : ¬ SP <:+: r.path
  five_length : five.length = 5
  version_line : ¬ CRLF <:+: five ++ versionMsgs r.version
  headers_ok : ∀ p ∈ r.headers, HeaderOk p

/-- The parser finds the parts and the header lines, and goes on behind them. -/
theorem parse_renderHead_tail {r : Request} {five : List UInt8} (h : Lines r five)
    (tail : List UInt8) :
    ∃ fuel, parse {} (renderHead r five ++ tail) =
      parseHeaders (fuel + 1) { r with body := [] } tail := by
  have hmethod : ¬ SP <:+: methodMsgs r.method := by cases r.method <;> decide
  have hdrop : (five ++ versionMsgs r.version).drop 5 = versionMsgs r.version := by
    rw [← h.five_length, List.drop_left]
  obtain ⟨more, hmore⟩ := Nat.exists_eq_add_of_le (length_le_headerLines r.headers)
  refine ⟨more + tail.length, ?_⟩
  simp only [renderHead, List.append_assoc]
  rw [parse, cut_SP hmethod]
  simp only [select_method, parsePath, cut_SP h.path_noSpace, if_neg h.path_ne_nil]
  rw [parseVersion, ← List.append_assoc five, cut_CRLF h.version_line]
  simp only [hdrop, select_version]
  have hfuel : (r.headers.flatMap headerLine ++ tail).length + 1 =
      more + tail.length + 1 + r.headers.length := by
    rw [List.length_append]
    omega
  rw [hfuel, parseHeaders_headerLines h.headers_ok]
  rfl

/-- A request in such lines is read back. -/
theorem parse_renderHead {r : Request} {five tail : List UInt8} (h : Lines r five)
    (hends : Ends tail r.body) : parse {} (renderHead r five ++ tail) = some ⟨r, [], false⟩ := by
  obtain ⟨fuel, hparse⟩ := parse_renderHead_tail h tail
  rw [hparse, parseHeaders_ends hends]

/-- The prefix that belongs in front of a version. -/
theorem lines_HTTP {r : Request} (hne : r.path ≠ []) (hspace : ¬ SP <:+: r.path)
    (hok : ∀ p ∈ r.headers, HeaderOk p) : Lines r (ascii "HTTP/") where
  path_ne_nil := hne
  path_noSpace := hspace
  five_length := by decide
  version_line := by cases r.version <;> decide
  headers_ok := hok

/-- A well-formed request is read back; what follows it is taken for its body. -/
theorem parse_render (r : PlainRequest) (body : List UInt8) :
    parse {} (render r.toRequest ++ body) =
      some ⟨{ r.toRequest with body := body }, [], false⟩ := by
  have hlines : Lines { r.toRequest with body := body } (ascii "HTTP/") :=
    lines_HTTP r.path_ne_nil r.path_noSpace r.headers_ok
  rw [render, List.append_assoc]
  exact parse_renderHead hlines (Or.inl rfl)

/-! ## What parses is the text of a request -/

/-- A line that is taken apart at its first colon is the line of that header. -/
theorem headerLine_of_search {line : List UInt8}
    (h : Search.search COLON line ≠ line.length) :
    headerLine (line.take (Search.search COLON line), line.drop (Search.search COLON line + 2)) =
      line ++ CRLF := by
  have hline := Search.eq_of_search_ne h
  rw [List.append_assoc] at hline
  exact congrArg (· ++ CRLF) hline.symm

/-- A line that is taken apart at its first colon is a header line without a line end. -/
theorem headerOk_of_search {line : List UInt8} (h : Search.search COLON line ≠ line.length)
    (hline : ¬ CRLF <:+: line) :
    HeaderOk (line.take (Search.search COLON line), line.drop (Search.search COLON line + 2)) := by
  have heq := Search.eq_of_search_ne h
  rw [List.append_assoc] at heq
  constructor
  · exact (Search.firstAt_search COLON line).not_infix_take (by decide)
  · exact fun hin => hline (heq.symm ▸ hin)

/-- A line that is not empty and has no colon in it: the parser throws behind it. -/
structure BadLine (line : List UInt8) : Prop where
  ne_nil : line ≠ []
  noCRLF : ¬ CRLF <:+: line
  noCOLON : ¬ COLON <:+: line

/-- The loop over the header lines loses no byte.  It ends at the end of the lines, or throws
at a line that is not a header. -/
theorem headerLines_of_parse {fuel : ℕ} {r : Request} {p : Parsed} {l : List UInt8}
    (h : parseHeaders fuel r l = some p) :
    ∃ (headers : Headers) (tail : List UInt8), (∀ q ∈ headers, HeaderOk q) ∧
      l = headers.flatMap headerLine ++ tail ∧
      ((Ends tail p.request.body ∧
          p = ⟨{ r with headers := r.headers ++ headers, body := p.request.body }, [], false⟩) ∨
        ∃ line, BadLine line ∧ tail = line ++ (CRLF ++ p.rest) ∧
          p = ⟨{ r with headers := r.headers ++ headers }, p.rest, true⟩) := by
  induction fuel generalizing r l with
  | zero => cases h
  | succ fuel ih =>
      rw [parseHeaders] at h
      simp only at h
      split at h
      · rename_i hline
        obtain rfl := Option.some.inj h
        refine ⟨[], l, by simp, rfl, Or.inl ⟨?_, by simp only [List.append_nil]⟩⟩
        -- an empty slice: no `CRLF` is left, or the empty line has been reached
        by_cases hin : CRLF <:+: l
        · left
          have hfound := Search.eq_of_cut_infix (by decide) hin
          rwa [hline] at hfound
        · right
          rw [Search.cut_of_not_infix (by decide) hin]
          exact ⟨rfl, hin⟩
      · rename_i hline
        have hfound := Search.eq_of_cut_ne_nil hline
        have hnot := Search.not_infix_cut (show CRLF ≠ [] by decide) l
        split at h
        · rename_i hcolon
          obtain rfl := Option.some.inj h
          have hbad : BadLine (Search.cut CRLF l).1 :=
            ⟨hline, hnot, (Search.search_eq_length_iff (by decide)).mp hcolon⟩
          exact ⟨[], l, by simp, rfl, Or.inr ⟨_, hbad, hfound, by simp only [List.append_nil]⟩⟩
        · rename_i hcolon
          obtain ⟨headers, tail, hok, hl, hend⟩ := ih h
          generalize (Search.cut CRLF l).1 = line at hcolon hfound hnot hend
          refine ⟨(line.take (Search.search COLON line),
            line.drop (Search.search COLON line + 2)) :: headers, tail, ?_, ?_, ?_⟩
          · rw [List.forall_mem_cons]
            exact ⟨headerOk_of_search hcolon hnot, hok⟩
          · rw [List.flatMap_cons, headerLine_of_search hcolon, List.append_assoc,
              List.append_assoc, ← hl]
            exact hfound
          · simp only [Headers.append, List.append_assoc, List.singleton_append] at hend
            exact hend

/-- How far the parser comes: it throws at the method, at the path or at the version, with
what is behind them left over, or it comes to the header lines. -/
theorem parse_cases {l : List UInt8} {p : Parsed} (h : parse {} l = some p) :
    (select methodChain (· == (Search.cut SP l).1) = none ∧
      p = ⟨{}, (Search.cut SP l).2, true⟩) ∨
    (∃ m l₁, l = methodMsgs m ++ (SP ++ l₁) ∧ (Search.cut SP l₁).1 = [] ∧
      p = ⟨{ method := m }, (Search.cut SP l₁).2, true⟩) ∨
    (∃ (m : Method) (path l₂ : List UInt8), path ≠ [] ∧ ¬ SP <:+: path ∧
      l = methodMsgs m ++ (SP ++ (path ++ (SP ++ l₂))) ∧
      select versionChain (· == (Search.cut CRLF l₂).1.drop 5) = none ∧
      p = ⟨{ method := m, path := path }, (Search.cut CRLF l₂).2, true⟩) ∨
    ∃ r five fuel rest, Lines r five ∧ r.headers = [] ∧ l = renderHead r five ++ rest ∧
      parseHeaders fuel r rest = some p := by
  unfold parse at h
  simp only at h
  split at h
  · rename_i hmethod
    exact Or.inl ⟨hmethod, (Option.some.inj h).symm⟩
  rename_i m hmethod
  -- no part that was accepted is empty, so each of its delimiters was found
  have hmethodEq := eq_of_select_method hmethod
  have hname : (Search.cut SP l).1 ≠ [] := by rw [hmethodEq]; cases m <;> decide
  have hl := Search.eq_of_cut_ne_nil hname
  rw [hmethodEq] at hl
  unfold parsePath at h
  simp only at h
  split at h
  · rename_i hpath
    exact Or.inr (Or.inl ⟨m, _, hl, hpath, (Option.some.inj h).symm⟩)
  rename_i hpath
  have hl₁ := Search.eq_of_cut_ne_nil hpath
  have hspace := Search.not_infix_cut (show SP ≠ [] by decide) (Search.cut SP l).2
  generalize Search.cut SP (Search.cut SP l).2 = path at h hpath hl₁ hspace
  rw [hl₁] at hl
  unfold parseVersion at h
  simp only at h
  split at h
  · rename_i hversion
    exact Or.inr (Or.inr (Or.inl
      ⟨m, path.1, path.2, hpath, hspace, hl, hversion, (Option.some.inj h).symm⟩))
  rename_i version hversion
  have hversionEq := eq_of_select_version hversion
  have hlong : 5 < (Search.cut CRLF path.2).1.length := by
    have hpos : 0 < (versionMsgs version).length := by cases version <;> decide
    rw [← hversionEq, List.length_drop] at hpos
    omega
  have hl₂ := Search.eq_of_cut_ne_nil
    (List.ne_nil_of_length_pos (Nat.zero_lt_of_lt hlong))
  have htake := List.take_append_drop 5 (Search.cut CRLF path.2).1
  have hline := Search.not_infix_cut (show CRLF ≠ [] by decide) path.2
  rw [hversionEq] at htake
  rw [← htake] at hline
  refine Or.inr (Or.inr (Or.inr ⟨_, _, _, _, ⟨hpath, hspace, List.length_take_of_le hlong.le,
    hline, ?_⟩, rfl, ?_, h⟩))
  · exact fun q hq => absurd hq List.not_mem_nil
  · simp only [renderHead, htake, List.flatMap_nil, List.append_nil, List.append_assoc]
    rw [← hl₂, ← hl]

/-- Header lines behind a request without headers. -/
theorem renderHead_headers {r : Request} (h : r.headers = []) (five : List UInt8)
    (headers : Headers) (tail : List UInt8) :
    renderHead r five ++ (headers.flatMap headerLine ++ tail) =
      renderHead { r with headers := headers } five ++ tail := by
  simp only [renderHead, h, List.flatMap_nil, List.append_nil, List.append_assoc]

/-- What parses as a request is that request in lines that the parser finds. -/
theorem lines_of_parse {l rest : List UInt8} {r : Request}
    (h : parse {} l = some ⟨r, rest, false⟩) :
    rest = [] ∧ ∃ five tail, Lines r five ∧ Ends tail r.body ∧ l = renderHead r five ++ tail := by
  obtain ⟨-, hp⟩ | ⟨_, _, -, -, hp⟩ | ⟨_, _, _, -, -, -, -, hp⟩ |
    ⟨r₀, five, fuel, lines, hlines, hnone, rfl, hloop⟩ := parse_cases h
  · cases hp
  · cases hp
  · cases hp
  obtain ⟨headers, tail, hok, rfl, ⟨hends, hp⟩ | ⟨_, -, -, hp⟩⟩ := headerLines_of_parse hloop
  · rw [hnone, List.nil_append] at hp
    obtain ⟨hr, hrest, -⟩ := Parsed.mk.inj hp
    simp only at hr
    refine ⟨hrest, five, tail, ?_, hends, ?_⟩
    · rw [hr]
      exact { hlines with headers_ok := hok }
    · rw [renderHead_headers hnone, hr]
      rfl
  · cases hp

/-- What parses as a request is the text of that request, where any five bytes stand for
`HTTP/` and the empty line before the body may be missing. -/
theorem render_of_parse {l rest : List UInt8} {r : Request}
    (h : parse {} l = some ⟨r, rest, false⟩) :
    rest = [] ∧ ∃ five : List UInt8, five.length = 5 ∧
      (l = renderHead r five ++ (CRLF ++ r.body) ∨ l = renderHead r five ++ r.body) := by
  obtain ⟨hrest, five, tail, hlines, hends, rfl⟩ := lines_of_parse h
  refine ⟨hrest, five, hlines.five_length, ?_⟩
  rcases hends with rfl | ⟨rfl, -⟩
  · exact Or.inl rfl
  · exact Or.inr rfl

end Http

end Lotta
