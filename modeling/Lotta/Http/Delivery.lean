/-
# How the bytes are delivered

The bytes of a list of well-formed requests arrive on a fresh connection, cut into reads in
some way.  A read that is the text of one request is parsed and answered as that request
(`read_text`).  A read that is anything else is not: either it does not parse as the next
request at all, or it is the request up to its empty line, and then the next read begins
with the end of that line, where no method can be read (`text_of_outcome`,
`outcome_of_CRLF`).
-/
import Lotta.Http.Server

namespace Lotta

namespace Http

/-- The bytes of a well-formed request. -/
def PlainRequest.text (r : PlainRequest) : List UInt8 := render r.toRequest

theorem PlainRequest.text_ne_nil (r : PlainRequest) : r.text ≠ [] := by
  simp [PlainRequest.text, render, CRLF]

/-! ## What the parser makes of a read -/

theorem outcome_eq_some {p : Parsed} {r : Request} (h : Session.outcome p = some r) :
    p = ⟨r, p.rest, false⟩ := by
  obtain ⟨r', rest, thrown⟩ := p
  cases thrown with
  | true => cases h
  | false =>
      obtain rfl : r' = r := Option.some.inj h
      rfl

/-- A read that begins with a carriage return is rejected. -/
theorem outcome_of_CR {l : List UInt8} {p : Parsed} (h : parse {} (13 :: l) = some p) :
    Session.outcome p = none := by
  rw [Option.eq_none_iff_forall_ne_some]
  intro r hr
  -- the text of a request begins with a letter of its method
  rw [outcome_eq_some hr] at h
  obtain ⟨-, five, -, hl⟩ := render_of_parse h
  have hhead : ∀ tail, 13 :: l ≠ renderHead r five ++ tail := by
    intro tail
    rw [renderHead]
    cases r.method <;> simp [methodMsgs, ascii]
  rcases hl with hl | hl
  · exact hhead _ hl
  · exact hhead _ hl

/-- Of the beginnings of a stream of requests only two parse as the first one: its text,
with or without the empty line.  Nothing is left over from either. -/
theorem text_of_outcome {r : PlainRequest} {xs ys zs : List UInt8} {p : Parsed}
    (hp : parse {} xs = some p) (hout : Session.outcome p = some r.toRequest)
    (hxs : xs ++ ys = r.text ++ zs) :
    p.rest = [] ∧ (xs = r.text ∨ ys = CRLF ++ zs) := by
  rw [outcome_eq_some hout] at hp
  obtain ⟨hrest, five, hlen, hl⟩ := render_of_parse hp
  refine ⟨hrest, ?_⟩
  rw [r.body_nil, List.append_nil, List.append_nil] at hl
  rcases hl with rfl | rfl
  · rw [PlainRequest.text, render, List.append_assoc, List.append_assoc] at hxs
    obtain ⟨rfl, -⟩ := renderHead_inj hlen hxs
    exact Or.inl rfl
  · rw [PlainRequest.text, render, List.append_assoc] at hxs
    exact Or.inr (renderHead_inj hlen hxs).2

namespace Session

variable {σ : Type*}

/-- The connection has handled everything that it has received and goes on. -/
def Idle (s : Session σ) : Prop :=
  s.inBuf.Wf ∧ s.inBuf.content = [] ∧ s.state = .connected

theorem Idle.isOpen {s : Session σ} (h : s.Idle) : s.Open := ⟨h.1, by rw [h.2.2]; exact nofun⟩

theorem idle_init (w : σ) : (init w).Idle := ⟨Buffer.wf_init _, rfl, rfl⟩

/-- A read that is the text of a request is parsed and answered as that request. -/
theorem read_text (routes : Routes σ) {s : Session σ} (hs : s.Idle) (r : PlainRequest)
    (slack : ℕ) (hspace : s.SpaceOk (r.text, slack)) :
    ∃ t, s.step routes (r.text, slack) = some t ∧ t.Idle ∧
      t.world = (respond routes s.world r.toRequest).2 ∧
      t.parsed = s.parsed ++ [some r.toRequest] ∧
      t.responses = s.responses ++ [(respond routes s.world r.toRequest).1.toString] := by
  obtain ⟨x, hstep, hwf, hparse⟩ :=
    step_read routes hs.isOpen (r.text, slack) r.text_ne_nil
  have hx : (⟨r.toRequest, [], false⟩ : Parsed) = x.parsed := by
    have hread := parse_render r []
    rw [List.append_nil] at hread
    have hgot := hparse hspace
    rw [hs.2.1, List.nil_append] at hgot
    rw [← Option.some.inj (hread.symm.trans hgot), ← r.body_nil]
  obtain ⟨hrequest, hcontent, hthrown⟩ := Parsed.mk.inj hx
  have hkeep : x.request.getHeader (ascii "Connection") ≠ ascii "close" := by
    rw [← hrequest]
    exact fun hget => r.keepsOpen (Headers.mem_of_get hget (by decide))
  rw [finish_eq routes (s := { s with inBuf := s.inBuf.append r.text slack }) hs.2.2
    hthrown.symm hkeep, ← hrequest] at hstep
  exact ⟨_, hstep, ⟨hwf, hcontent.symm, rfl⟩, rfl, rfl, rfl⟩

/-- The first read of a run that got to its end, and what it has put into `parsed` for
good. -/
theorem first_read (routes : Routes σ) {s t : Session σ} (hopen : s.Open)
    {read : List UInt8 × ℕ} {reads : List (List UInt8 × ℕ)}
    (hne : ∀ x ∈ read :: reads, x.1 ≠ [])
    (hrun : Runs.run (step routes) s (read :: reads) = some t) :
    ∃ u p, s.step routes read = some u ∧ u.Open ∧ u.inBuf.content = p.rest ∧
      (s.SpaceOk read → parse {} (s.inBuf.content ++ read.1) = some p) ∧
      Runs.run (step routes) u reads = some t ∧
      u.parsed = s.parsed ++ [outcome p] ∧ u.parsed <+: t.parsed := by
  obtain ⟨u, p, hstep, hu, hrest, hparsed, hparse⟩ :=
    step_parsed routes hopen read (hne read List.mem_cons_self)
  obtain ⟨t', hrun', hpre⟩ :=
    run_reads routes (fun y hy => hne y (List.mem_cons_of_mem read hy)) hu
  rw [Runs.run_cons, hstep, Option.bind_some] at hrun
  obtain rfl : t' = t := Option.some.inj (hrun'.symm.trans hrun)
  exact ⟨u, p, hstep, hu, hrest, hparse, hrun, hparsed, hpre⟩

/-- A run whose calls of `msgCallback` parse the requests of the stream one by one begins
with the text of the first request. -/
theorem first_read_eq (routes : Routes σ) {s t : Session σ} (hs : s.Idle)
    {read : List UInt8 × ℕ} {reads : List (List UInt8 × ℕ)} {r : PlainRequest}
    {rs : List PlainRequest} (hne : ∀ x ∈ read :: reads, x.1 ≠ [])
    (hcut : ((read :: reads).map Prod.fst).flatten = ((r :: rs).map PlainRequest.text).flatten)
    (hspace : Runs.AllSteps (step routes) SpaceOk s (read :: reads))
    (hrun : Runs.run (step routes) s (read :: reads) = some t)
    (hparsed : t.parsed = s.parsed ++ (r :: rs).map fun q => some q.toRequest) :
    read.1 = r.text := by
  obtain ⟨u, p, hstep, hu, hrest, hparse, hrun', hup, hpre⟩ := first_read routes hs.isOpen hne hrun
  obtain ⟨hread, hspace'⟩ := hspace u hstep
  have hp : parse {} read.1 = some p := by
    have := hparse hread
    rwa [hs.2.1, List.nil_append] at this
  have hout : outcome p = some r.toRequest := by
    rw [hup, hparsed, List.prefix_append_right_inj, List.map_cons, List.cons_prefix_cons] at hpre
    exact hpre.1
  simp only [List.map_cons, List.flatten_cons] at hcut
  obtain ⟨hnothing, htext | hnext⟩ := text_of_outcome hp hout hcut
  · exact htext
  · -- the second read begins with the end of the empty line, and there is nothing before it
    exfalso
    have hne' : ∀ x ∈ reads, x.1 ≠ [] := fun x hx => hne x (List.mem_cons_of_mem read hx)
    cases reads with
    | nil => cases hnext
    | cons read' reads =>
        obtain ⟨c, l, hc⟩ := List.exists_cons_of_ne_nil (hne' read' List.mem_cons_self)
        obtain rfl : c = 13 := by
          rw [List.map_cons, List.flatten_cons, hc] at hnext
          exact (List.cons.inj hnext).1
        obtain ⟨v, q, hstep', -, -, hparse', -, hvp, hpre'⟩ := first_read routes hu hne' hrun'
        have hq : parse {} (13 :: l) = some q := by
          have := hparse' (hspace' v hstep').1
          rwa [hrest, hnothing, List.nil_append, hc] at this
        rw [hvp, hup, outcome_of_CR hq, hparsed, List.append_assoc,
          List.prefix_append_right_inj] at hpre'
        have hmem := hpre'.subset (List.mem_append_right [outcome p] (List.mem_singleton_self none))
        simp at hmem

/-- From an idle connection on: the requests of the stream are parsed one by one, and the
responses to them are sent, exactly when every read is the text of one of them. -/
theorem onePerRequest_of_idle (routes : Routes σ) {reads : List (List UInt8 × ℕ)} :
    ∀ {s : Session σ} {rs : List PlainRequest}, s.Idle →
      (∀ x ∈ reads, x.1 ≠ []) →
      (reads.map Prod.fst).flatten = (rs.map PlainRequest.text).flatten →
      Runs.AllSteps (step routes) SpaceOk s reads →
      ∃ t, Runs.run (step routes) s reads = some t ∧
        ((t.parsed = s.parsed ++ (rs.map fun q => some q.toRequest) ∧
          t.responses = s.responses ++ answers routes s.world (rs.map (·.toRequest))) ↔
            reads.map Prod.fst = rs.map PlainRequest.text) := by
  induction reads with
  | nil =>
      intro s rs _ _ hcut _
      cases rs with
      | nil => exact ⟨s, rfl, by simp [answers]⟩
      | cons r rs =>
          have := r.text_ne_nil
          simp [this] at hcut
  | cons read reads ih =>
      intro s rs hs hne hcut hspace
      cases rs with
      | nil =>
          have := hne read List.mem_cons_self
          simp [this] at hcut
      | cons r rs =>
          by_cases htext : read.1 = r.text
          · -- the request is answered, and the connection is idle again
            obtain ⟨xs, slack⟩ := read
            obtain rfl : xs = r.text := htext
            have hne' : ∀ x ∈ reads, x.1 ≠ [] :=
              fun x hx => hne x (List.mem_cons_of_mem (r.text, slack) hx)
            obtain ⟨u, -, hstep, -⟩ :=
              step_parsed routes hs.isOpen (r.text, slack) r.text_ne_nil
            obtain ⟨hread, hspace'⟩ := hspace u hstep
            obtain ⟨u', hstep', hidle, hworld, hparsed, hresponses⟩ :=
              read_text routes hs r slack hread
            obtain rfl : u' = u := Option.some.inj (hstep'.symm.trans hstep)
            rw [List.map_cons, List.map_cons, List.flatten_cons, List.flatten_cons,
              List.append_cancel_left_eq] at hcut
            obtain ⟨t, hrun, hiff⟩ := ih hidle hne' hcut hspace'
            refine ⟨t, by rw [Runs.run_cons, hstep]; exact hrun, ?_⟩
            rw [hworld, hparsed, hresponses, List.append_assoc, List.append_assoc] at hiff
            simp only [List.map_cons, answers, List.cons.injEq, true_and]
            exact hiff
          · -- a run that parses the requests one by one does not begin like this
            obtain ⟨t, hrun, -⟩ := run_reads routes hne hs.isOpen
            refine ⟨t, hrun, iff_of_false (fun h => htext ?_) (fun h => htext ?_)⟩
            · exact first_read_eq routes hs hne hcut hspace hrun h.1
            · exact (List.cons.inj h).1

/-- The bytes of any list of well-formed requests, cut into reads in any way: on a fresh
connection the requests are parsed one by one, and exactly one response is sent for each,
in order, if and only if every read is the text of one request. -/
theorem onePerRequest_iff (routes : Routes σ) (w : σ) (rs : List PlainRequest)
    (reads : List (List UInt8 × ℕ)) (hne : ∀ x ∈ reads, x.1 ≠ [])
    (hcut : (reads.map Prod.fst).flatten = (rs.map PlainRequest.text).flatten)
    (hspace : Runs.AllSteps (step routes) SpaceOk (init w) reads) :
    ∃ t, Runs.run (step routes) (init w) reads = some t ∧
      ((t.parsed = (rs.map fun q => some q.toRequest) ∧
        t.responses = answers routes w (rs.map (·.toRequest))) ↔
          reads.map Prod.fst = rs.map PlainRequest.text) :=
  onePerRequest_of_idle routes (idle_init w) hne hcut hspace

/-! ## The example server -/

/-- The route of the example server. -/
def exampleRoutes : Routes Unit :=
  Routes.route (fun _ => none) .get (ascii "/") fun _ resp w =>
    ⟨resp.setBody (ascii "Hello world!"), w, none⟩

/-- `GET / HTTP/1.1` with one header. -/
def exampleRequest : PlainRequest where
  headers := [(ascii "Host", ascii "localhost")]
  path_ne_nil := by decide
  path_noSpace := by decide
  headers_ok := by decide
  body_nil := rfl
  keepsOpen := by decide

/-- Two requests in two reads of their own. -/
theorem onePerRequest_two_reads :
    ∃ t, Runs.run (step exampleRoutes) (init ())
        [(exampleRequest.text, 2013), (exampleRequest.text, 1978)] = some t ∧
      ((t.parsed = ([exampleRequest, exampleRequest].map fun q => some q.toRequest) ∧
        t.responses = answers exampleRoutes () ([exampleRequest, exampleRequest].map
          (·.toRequest))) ↔
        [exampleRequest.text, exampleRequest.text] =
          [exampleRequest, exampleRequest].map PlainRequest.text) :=
  onePerRequest_iff exampleRoutes () [exampleRequest, exampleRequest]
    [(exampleRequest.text, 2013), (exampleRequest.text, 1978)] (by decide) (by decide) (by decide)

/-- One request, delivered whole and cut before its empty line.  The second delivery ends
with another sequence of outcomes and one response more, a `400 Bad Request`. -/
theorem not_onePerRequest_cut :
    (Runs.run (step exampleRoutes) (init ()) [(exampleRequest.text, 2013)]).map
        (fun t => (t.parsed, t.responses)) =
      some ([some exampleRequest.toRequest],
        answers exampleRoutes () [exampleRequest.toRequest]) ∧
    (Runs.run (step exampleRoutes) (init ())
        [(exampleRequest.text.take 33, 2015), (exampleRequest.text.drop 33, 2013)]).map
        (fun t => (t.parsed, t.responses)) =
      some ([some exampleRequest.toRequest, none],
        answers exampleRoutes () [exampleRequest.toRequest] ++
          [(({} : Response).setStatus 400).toString]) := by
  decide

end Session

end Http

end Lotta
