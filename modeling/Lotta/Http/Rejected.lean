/-
# The request behind a rejected one

`msgCallback` answers a malformed request with `400 Bad Request` and goes on: the connection
stays open, and the buffer stays as far as it was read.  What the parser has not consumed is
put in front of the next read.

`readToEnd_iff` lists the contents of which nothing is left over: a request, which is read
with its body, and the texts whose malformed part stands at their very end.
`undamaged_iff` says when the next request is parsed and answered as on a fresh connection:
nothing is left over, there is room behind the bytes in the storage (otherwise `makeSpace`
makes the consumed bytes readable again), and no header has asked to close the connection.
-/
import Lotta.Http.Delivery

namespace Lotta

namespace Http

/-! ## What is left over -/

theorem select_method_eq_none_iff {name : List UInt8} :
    select methodChain (· == name) = none ↔ ∀ m, name ≠ methodMsgs m := by
  rw [Option.eq_none_iff_forall_ne_some]
  refine ⟨fun h m hm => ?_, fun h m hm => h m (eq_of_select_method hm)⟩
  subst hm
  exact h m (select_method m)

theorem select_version_eq_none_iff {name : List UInt8} :
    select versionChain (· == name) = none ↔ ∀ v, name ≠ versionMsgs v := by
  rw [Option.eq_none_iff_forall_ne_some]
  refine ⟨fun h v hv => ?_, fun h v hv => h v (eq_of_select_version hv)⟩
  subst hv
  exact h v (select_version v)

/-- The content is read to its last byte: it is a request, or it ends with the part at which
the parser throws.  The headers are those that are read on the way. -/
inductive ReadToEnd : Headers → List UInt8 → Prop where
  | request {r : Request} {five tail : List UInt8} (hlines : Lines r five)
      (hends : Ends tail r.body) : ReadToEnd r.headers (renderHead r five ++ tail)
  | method {word : List UInt8} (hspace : ¬ SP <:+: word) (hword : ∀ m, word ≠ methodMsgs m) :
      ReadToEnd [] (word ++ SP)
  | noPath (m : Method) : ReadToEnd [] (methodMsgs m ++ SP)
  | emptyPath (m : Method) : ReadToEnd [] (methodMsgs m ++ (SP ++ SP))
  | noVersion (m : Method) (path : List UInt8) (hpath : path ≠ []) (hspace : ¬ SP <:+: path) :
      ReadToEnd [] (methodMsgs m ++ (SP ++ (path ++ SP)))
  | version (m : Method) (path line : List UInt8) (hpath : path ≠ []) (hspace : ¬ SP <:+: path)
      (hline : ¬ CRLF <:+: line) (hversion : ∀ v, line.drop 5 ≠ versionMsgs v) :
      ReadToEnd [] (methodMsgs m ++ (SP ++ (path ++ (SP ++ (line ++ CRLF)))))
  | header {r : Request} {five line : List UInt8} (hlines : Lines r five) (hbad : BadLine line) :
      ReadToEnd r.headers (renderHead r five ++ (line ++ CRLF))

/-- Nothing before the delimiter and nothing behind it: the delimiter, or nothing at all. -/
theorem eq_of_cut_eq_nil {pat l : List UInt8} (h : (Search.cut pat l).2 = []) :
    l = [] ∨ l = (Search.cut pat l).1 ++ pat := by
  rcases Search.cut_cases pat l with hnone | hfound
  · left
    rwa [hnone] at h
  · right
    rwa [h, List.append_nil] at hfound

/-- A content of which nothing is left over was read to its last byte. -/
theorem readToEnd_of_parse {l : List UInt8} {p : Parsed} (hne : l ≠ [])
    (h : parse {} l = some p) (hrest : p.rest = []) : ReadToEnd p.request.headers l := by
  obtain ⟨hselect, rfl⟩ | ⟨m, l₁, rfl, hpath, rfl⟩ |
    ⟨m, path, l₂, hpath, hspace, rfl, hversion, rfl⟩ |
    ⟨r, five, fuel, lines, hlines, hnone, rfl, hloop⟩ := parse_cases h
  · rcases eq_of_cut_eq_nil hrest with hnil | hl
    · exact absurd hnil hne
    · rw [hl]
      exact .method (Search.not_infix_cut (by decide) l) (select_method_eq_none_iff.mp hselect)
  · rcases eq_of_cut_eq_nil hrest with rfl | hl
    · exact .noPath m
    · rw [hl, hpath]
      exact .emptyPath m
  · rcases eq_of_cut_eq_nil hrest with rfl | hl
    · exact .noVersion m path hpath hspace
    · rw [hl]
      exact .version m path _ hpath hspace (Search.not_infix_cut (by decide) l₂)
        (select_version_eq_none_iff.mp hversion)
  · obtain ⟨headers, tail, hok, rfl, hend⟩ := headerLines_of_parse hloop
    have hlines' : Lines { r with headers := headers } five := { hlines with headers_ok := hok }
    rw [renderHead_headers hnone]
    rw [hnone, List.nil_append] at hend
    rcases hend with ⟨hends, hp⟩ | ⟨line, hbad, rfl, hp⟩
    · rw [hp]
      exact .request (r := { r with headers := headers, body := p.request.body })
        { hlines' with } hends
    · rw [hp, hrest, List.append_nil]
      exact .header hlines' hbad

/-- A content that is read to its last byte leaves nothing over. -/
theorem parse_of_readToEnd {headers : Headers} {l : List UInt8} (h : ReadToEnd headers l) :
    ∃ p, parse {} l = some p ∧ p.rest = [] ∧ p.request.headers = headers := by
  have hmethod : ∀ m, ¬ SP <:+: methodMsgs m := by intro m; cases m <;> decide
  cases h with
  | request hlines hends => exact ⟨_, parse_renderHead hlines hends, rfl, rfl⟩
  | method hspace hword =>
      refine ⟨⟨{}, [], true⟩, ?_, rfl, rfl⟩
      rw [← List.append_nil SP, parse, cut_SP hspace]
      simp only [select_method_eq_none_iff.mpr hword]
  | noPath m =>
      refine ⟨⟨{ method := m }, [], true⟩, ?_, rfl, rfl⟩
      rw [← List.append_nil SP, parse, cut_SP (hmethod m)]
      simp only [select_method]
      rfl
  | emptyPath m =>
      refine ⟨⟨{ method := m }, [], true⟩, ?_, rfl, rfl⟩
      rw [parse, cut_SP (hmethod m)]
      simp only [select_method]
      rfl
  | noVersion m path hpath hspace =>
      refine ⟨⟨{ method := m, path := path }, [], true⟩, ?_, rfl, rfl⟩
      rw [parse, cut_SP (hmethod m)]
      simp only [select_method]
      rw [← List.append_nil SP, parsePath, cut_SP hspace]
      simp only [if_neg hpath]
      rfl
  | version m path line hpath hspace hline hversion =>
      refine ⟨⟨{ method := m, path := path }, [], true⟩, ?_, rfl, rfl⟩
      rw [parse, cut_SP (hmethod m)]
      simp only [select_method, parsePath, cut_SP hspace, if_neg hpath]
      rw [← List.append_nil CRLF, parseVersion, cut_CRLF hline]
      simp only [select_version_eq_none_iff.mpr hversion]
  | @header r five line hlines hbad =>
      have hcolon : Search.search COLON line = line.length :=
        (Search.search_eq_length_iff (by decide)).mpr hbad.noCOLON
      obtain ⟨fuel, hparse⟩ := parse_renderHead_tail hlines (line ++ CRLF)
      refine ⟨⟨{ r with body := [] }, [], true⟩, hparse.trans ?_, rfl, rfl⟩
      rw [← List.append_nil CRLF, parseHeaders, cut_CRLF hbad.noCRLF]
      simp only [if_neg hbad.ne_nil, hcolon, if_true]

theorem readToEnd_iff {l : List UInt8} {p : Parsed} (hne : l ≠ []) (h : parse {} l = some p)
    (headers : Headers) :
    ReadToEnd headers l ↔ p.rest = [] ∧ p.request.headers = headers := by
  constructor
  · intro hread
    obtain ⟨p', hp', hrest⟩ := parse_of_readToEnd hread
    obtain rfl : p' = p := Option.some.inj (hp'.symm.trans h)
    exact hrest
  · rintro ⟨hrest, rfl⟩
    exact readToEnd_of_parse hne h hrest

/-- Bytes in front of a well-formed request change what is read. -/
theorem outcome_append_iff {r : Request} (hlines : Lines r (ascii "HTTP/"))
    {pre : List UInt8} {p : Parsed} (h : parse {} (pre ++ (render r ++ r.body)) = some p) :
    Session.outcome p = some r ↔ pre = [] := by
  constructor
  · intro hout
    rw [outcome_eq_some hout] at h
    obtain ⟨-, five, hfive, hl⟩ := render_of_parse h
    have hhead : (renderHead r five).length = (renderHead r (ascii "HTTP/")).length := by
      simp only [renderHead, List.length_append, hfive, hlines.five_length]
    -- the text has no room for more than the request
    apply List.eq_nil_of_length_eq_zero
    rcases hl with hl | hl
    · have hlen := congrArg List.length hl
      simp only [render, List.length_append, hhead] at hlen
      omega
    · have hlen := congrArg List.length hl
      simp only [render, List.length_append, hhead, CRLF, List.length_cons, List.length_nil] at hlen
      omega
  · rintro rfl
    rw [List.nil_append, render, List.append_assoc, parse_renderHead hlines (Or.inl rfl)] at h
    rw [← Option.some.inj h]
    rfl

namespace Session

variable {σ : Type*}

/-! ## Answers -/

/-- The answer to what was read, and the state of the handlers after it. -/
def reply (routes : Routes σ) (w : σ) (p : Parsed) : Response × σ :=
  if p.thrown then (({} : Response).setStatus 400, w) else respond routes w p.request

/-- The connection after the answer to what was read; it is shut down where a header asks for
it. -/
def answered (routes : Routes σ) (s : Session σ) (x : Read) : Session σ where
  inBuf := x.buf
  state := if x.request.headers.get (ascii "Connection") = ascii "close" then .disconnecting
    else .connected
  world := (reply routes s.world x.parsed).2
  parsed := s.parsed ++ [outcome x.parsed]
  responses := s.responses ++ [(reply routes s.world x.parsed).1.toString]

theorem finish_connected (routes : Routes σ) {s : Session σ} (hconn : s.state = .connected)
    (b : Buffer) (x : Read) : finish routes { s with inBuf := b } x = s.answered routes x := by
  simp only [finish, answered, Request.getHeader, send, shutdown, hconn, ne_eq,
    not_true_eq_false, if_false]
  split
  · rfl
  · rfl

/-- A connection that cannot send does not answer. -/
theorem responses_finish (routes : Routes σ) {s : Session σ} (hconn : s.state ≠ .connected)
    (b : Buffer) (x : Read) :
    (finish routes { s with inBuf := b } x).responses = s.responses := by
  simp only [finish, send, shutdown, hconn, ne_eq, not_false_eq_true, if_true]
  split
  · rfl
  · rfl

/-- A read on a connection that can send: the content with the new bytes is parsed, and
what was read is answered. -/
theorem step_connected (routes : Routes σ) {s : Session σ} (hwf : s.inBuf.Wf)
    (hconn : s.state = .connected) (read : List UInt8 × ℕ) (hne : read.1 ≠ []) :
    ∃ x, s.step routes read = some (s.answered routes x) ∧
      parse {} (s.inBuf.append read.1 read.2).content = some x.parsed ∧
      (s.inBuf.append read.1 read.2).Advanced x.buf := by
  obtain ⟨x, hx, hparse, hadv⟩ := readBuffer_parsed {} (Buffer.wf_append hwf read.1 read.2)
  refine ⟨x, ?_, hparse, hadv⟩
  rw [step, if_neg (by rw [hconn]; decide), handleRead, if_neg hne, msgCallback, hx,
    Option.map_some, finish_connected routes hconn]

/-- The connection answers the read with a response of status 400. -/
def AnswersBadRequest (routes : Routes σ) (s : Session σ) (read : List UInt8 × ℕ) : Prop :=
  ∃ t a, s.step routes read = some t ∧ a.status = 400 ∧
    t.responses = s.responses ++ [Response.toString a]

/-- A read that leads to a malformed content is answered so. -/
theorem answersBadRequest_of_thrown (routes : Routes σ) {s : Session σ} (hwf : s.inBuf.Wf)
    (hconn : s.state = .connected) {read : List UInt8 × ℕ} (hne : read.1 ≠ []) {p : Parsed}
    (hparse : parse {} (s.inBuf.append read.1 read.2).content = some p)
    (hthrown : p.thrown = true) : s.AnswersBadRequest routes read := by
  obtain ⟨x, hstep, hx, -⟩ := step_connected routes hwf hconn read hne
  obtain rfl : x.parsed = p := Option.some.inj (hx.symm.trans hparse)
  refine ⟨_, ({} : Response).setStatus 400, hstep, rfl, ?_⟩
  rw [answered, reply, if_pos hthrown]

/-- Only a connection that is not closed and not shut down answers, and only a read that
brings bytes. -/
theorem AnswersBadRequest.connected {routes : Routes σ} {s : Session σ}
    {read : List UInt8 × ℕ} (h : s.AnswersBadRequest routes read) :
    s.state = .connected ∧ read.1 ≠ [] := by
  obtain ⟨t, a, hstep, -, hresponses⟩ := h
  have hgrown : t.responses ≠ s.responses := by
    rw [hresponses]
    simp
  rw [step] at hstep
  split at hstep
  · cases hstep
  rw [handleRead] at hstep
  split at hstep
  · obtain rfl := Option.some.inj hstep
    exact absurd rfl hgrown
  · rename_i hne
    refine ⟨?_, hne⟩
    by_contra hconn
    obtain ⟨x, -, rfl⟩ := Option.map_eq_some_iff.mp hstep
    exact hgrown (responses_finish routes hconn _ x)

/-! ## The next request -/

/-- The read after `read` is parsed and answered as it would be on a fresh connection. -/
def Undamaged (routes : Routes σ) (s : Session σ) (read next : List UInt8 × ℕ) : Prop :=
  ∃ t u v, s.step routes read = some t ∧ t.step routes next = some u ∧
    (init t.world).step routes next = some v ∧
    u.parsed = t.parsed ++ v.parsed ∧ u.responses = t.responses ++ v.responses ∧
    u.world = v.world

/-- On a fresh connection the request is read. -/
theorem step_init (routes : Routes σ) (w : σ) {r : Request} (hlines : Lines r (ascii "HTTP/"))
    (slack : ℕ) :
    ∃ x, (init w).step routes (render r ++ r.body, slack) = some ((init w).answered routes x) ∧
      x.parsed = ⟨r, [], false⟩ := by
  have hne : render r ++ r.body ≠ [] := by simp [render, CRLF]
  have hidle := idle_init w
  obtain ⟨x, hstep, hparse, -⟩ :=
    step_connected routes hidle.1 hidle.2.2 (render r ++ r.body, slack) hne
  refine ⟨x, hstep, ?_⟩
  have hempty : ¬ (init w).inBuf.DrainedFull := fun h => h.1 rfl
  rw [Buffer.content_append_of_not_full hidle.1 hempty, hidle.2.1, List.nil_append, render,
    List.append_assoc, parse_renderHead hlines (Or.inl rfl)] at hparse
  exact (Option.some.inj hparse).symm

/-- After the read: the next request is treated as on a fresh connection when the connection
can still send and `inBuf` has nothing readable and room behind what is stored. -/
theorem undamaged_iff_of_step (routes : Routes σ) {s t : Session σ} {read : List UInt8 × ℕ}
    (hstep : s.step routes read = some t) (hopen : t.Open) (hdata : t.inBuf.data.data ≠ [])
    {r : Request} (hlines : Lines r (ascii "HTTP/")) (slack : ℕ) :
    s.Undamaged routes read (render r ++ r.body, slack) ↔
      t.state = .connected ∧ t.inBuf.content = [] ∧ 0 < t.inBuf.writable := by
  have hne : render r ++ r.body ≠ [] := by simp [render, CRLF]
  obtain ⟨z, hfresh, hz⟩ := step_init routes t.world hlines slack
  by_cases hconn : t.state = .connected
  · obtain ⟨y, hnext, hparse, -⟩ :=
      step_connected routes hopen.1 hconn (render r ++ r.body, slack) hne
    rw [Buffer.content_append hopen.1] at hparse
    rw [and_iff_right hconn, ← Buffer.content_makeSpace_eq_nil_iff hdata,
      ← outcome_append_iff hlines hparse]
    constructor
    · rintro ⟨t', u, v, ht', hu, hv, hparsed, -⟩
      obtain rfl : t' = t := Option.some.inj (ht'.symm.trans hstep)
      obtain rfl := Option.some.inj (hu.symm.trans hnext)
      obtain rfl := Option.some.inj (hv.symm.trans hfresh)
      simp only [answered, init, List.nil_append, List.append_cancel_left_eq, List.cons.injEq,
        and_true, hz] at hparsed
      exact hparsed
    · intro hout
      have hpre := (outcome_append_iff hlines hparse).mp hout
      rw [hpre, List.nil_append, render, List.append_assoc,
        parse_renderHead hlines (Or.inl rfl)] at hparse
      have hy : y.parsed = z.parsed := hz ▸ (Option.some.inj hparse).symm
      refine ⟨t, _, _, hstep, hnext, hfresh, ?_⟩
      simp only [answered, init, hy, List.nil_append, and_self]
  · -- a connection that is shut down does not answer the next request
    refine iff_of_false ?_ fun h => hconn h.1
    rintro ⟨t', u, v, ht', hu, hv, -, hresponses, -⟩
    obtain rfl : t' = t := Option.some.inj (ht'.symm.trans hstep)
    obtain ⟨y, hnext, -⟩ := step_read routes hopen (render r ++ r.body, slack) hne
    obtain rfl := Option.some.inj (hu.symm.trans hnext)
    obtain rfl := Option.some.inj (hv.symm.trans hfresh)
    rw [responses_finish routes hconn] at hresponses
    simp [answered, init] at hresponses

/-- Whatever was answered with `400 Bad Request`: the next request is parsed and answered as
on a fresh connection, exactly when the rejected one was read to its last byte and had no
header that asks to close the connection, and the read has left room behind it. -/
theorem undamaged_iff (routes : Routes σ) {s : Session σ} (hwf : s.inBuf.Wf)
    {read : List UInt8 × ℕ} (hanswer : s.AnswersBadRequest routes read) {r : Request}
    (hpath : r.path ≠ []) (hspace : ¬ SP <:+: r.path) (hheaders : ∀ p ∈ r.headers, HeaderOk p)
    (slack : ℕ) :
    s.Undamaged routes read (render r ++ r.body, slack) ↔
      (∃ headers, ReadToEnd headers (s.inBuf.append read.1 read.2).content ∧
        headers.get (ascii "Connection") ≠ ascii "close") ∧
      0 < (s.inBuf.append read.1 read.2).writable := by
  obtain ⟨hconn, hne⟩ := hanswer.connected
  obtain ⟨x, hstep, hparse, hadv⟩ := step_connected routes hwf hconn read hne
  have hcontent : (s.inBuf.append read.1 read.2).content ≠ [] := by
    rw [Buffer.content_append hwf]
    exact List.append_ne_nil_of_right_ne_nil _ hne
  have hdata : x.buf.data.data ≠ [] := by
    rw [hadv.1]
    intro hnil
    rw [Buffer.content, hnil, List.drop_nil] at hcontent
    exact hcontent rfl
  have hopen : (s.answered routes x).Open := by
    refine ⟨hadv.2, ?_⟩
    simp only [answered]
    split
    · exact fun h => by cases h
    · exact fun h => by cases h
  rw [undamaged_iff_of_step routes hstep hopen hdata (lines_HTTP hpath hspace hheaders)]
  have hstate : (s.answered routes x).state = .connected ↔
      x.request.headers.get (ascii "Connection") ≠ ascii "close" := by
    simp [answered]
  have hroom : (s.answered routes x).inBuf.writable = (s.inBuf.append read.1 read.2).writable := by
    rw [answered, Buffer.writable, Buffer.writable, hadv.1]
  rw [hstate, hroom, ← and_assoc]
  refine and_congr_left fun _ => ?_
  simp only [readToEnd_iff hcontent hparse]
  constructor
  · rintro ⟨hkeep, hrest⟩
    exact ⟨_, ⟨hrest, rfl⟩, hkeep⟩
  · rintro ⟨headers, ⟨hrest, rfl⟩, hkeep⟩
    exact ⟨hkeep, hrest⟩

/-- A rejected request that ends where its path belongs. -/
theorem undamaged_emptyPath :
    (init ()).Undamaged exampleRoutes (ascii "GET  ", 2043)
        (render exampleRequest.toRequest ++ exampleRequest.body, 2010) ↔
      (∃ headers, ReadToEnd headers ((init ()).inBuf.append (ascii "GET  ") 2043).content ∧
        headers.get (ascii "Connection") ≠ ascii "close") ∧
      0 < ((init ()).inBuf.append (ascii "GET  ") 2043).writable :=
  undamaged_iff exampleRoutes (Buffer.wf_init _)
    (answersBadRequest_of_thrown exampleRoutes (Buffer.wf_init _) rfl (by decide)
      (show parse {} _ = some ⟨{ method := .get }, [], true⟩ by decide) rfl)
    (by decide) (by decide) (by decide) 2010

/-- `GET` is answered with `400 Bad Request` and stays in the buffer. -/
theorem not_undamaged_truncated :
    (init ()).AnswersBadRequest exampleRoutes (ascii "GET", 2045) ∧
    ¬ (init ()).Undamaged exampleRoutes (ascii "GET", 2045)
        (render exampleRequest.toRequest ++ exampleRequest.body, 2010) := by
  constructor
  · exact answersBadRequest_of_thrown exampleRoutes (Buffer.wf_init _) rfl (by decide)
      (show parse {} _ = some ⟨{}, ascii "GET", true⟩ by decide) rfl
  · rintro ⟨t, u, v, ht, hu, hv, hparsed, -⟩
    have hrun : (((init ()).step exampleRoutes (ascii "GET", 2045)).bind fun t =>
        (t.step exampleRoutes (render exampleRequest.toRequest ++ exampleRequest.body, 2010)).bind
          fun u => ((init t.world).step exampleRoutes
              (render exampleRequest.toRequest ++ exampleRequest.body, 2010)).map
            fun v => decide (u.parsed = t.parsed ++ v.parsed)) = some false := by
      decide
    rw [ht, Option.bind_some, hu, Option.bind_some, hv, Option.map_some, hparsed] at hrun
    simp at hrun

end Session

end Http

end Lotta
