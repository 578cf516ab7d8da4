/-
# A conversation as the client reads it

A client sends on one connection and reads what comes back; it sees neither `inBuf` nor the
routes nor where one call of `send` ends and the next begins.  `dialogue` says what it should
be told: one answer for each read, to what the read has brought behind the bytes that were left
over, by the route that was registered last, up to the first header that asks to close.
`Framing.hear` is what it makes of the bytes: HTTP/1.1 responses one after the other, each found
by its own framing.

`run_dialogue` puts the two together, for handlers that use the setters of the response and
reads that bring something and find `inBuf` not drained and full.  Each read has its answer,
until one asks to close, and the client reads exactly the dialogue when every status in it is
one that the library defines.  One other status, which only the code of an exception brings in,
and an answer is lost for the client: its text has no line end, so the next response is read as
its continuation.
-/
import Lotta.Http.Exceptions
import Lotta.Http.Rejected

namespace Lotta

namespace Http

/-! ## Routes -/

variable {σ : Type*}

/-- The calls of `Server::route`, in order. -/
abbrev Registrations (σ : Type*) := List ((Method × List UInt8) × RouteFunc σ)

namespace Registrations

/-- The routes of a server after the calls. -/
def routes (calls : Registrations σ) : Routes σ :=
  calls.foldl (fun routes call => routes.route call.1.1 call.1.2 call.2) fun _ => none

/-- The handler that was registered last for a method and a path. -/
def last (calls : Registrations σ) (key : Method × List UInt8) : Option (RouteFunc σ) :=
  (calls.filter fun call => call.1 = key).getLast?.map Prod.snd

theorem routes_eq (calls : Registrations σ) (key : Method × List UInt8) :
    calls.routes key = calls.last key := by
  induction calls using List.reverseRecOn with
  | nil => rfl
  | append_singleton calls call ih =>
      have hroutes : routes (calls ++ [call]) = (routes calls).route call.1.1 call.1.2 call.2 := by
        rw [routes, List.foldl_append]
        rfl
      rw [hroutes, Routes.route, last, List.filter_append]
      by_cases hkey : call.1 = key
      · subst hkey
        rw [Function.update_self, List.filter_cons_of_pos (by simp), List.filter_nil,
          List.getLast?_concat]
        rfl
      · rw [Function.update_of_ne (Ne.symm hkey), List.filter_cons_of_neg (by simpa using hkey),
          List.filter_nil, List.append_nil, ih]
        rfl

/-- The answer to what has been read, and the state of the handlers after it. -/
def answer (calls : Registrations σ) (w : σ) (p : Parsed) : Response × σ :=
  if p.thrown then ({ status := 400 }, w)
  else
    match calls.last (p.request.method, p.request.path) with
    | none => ({ status := 404 }, w)
    | some f =>
        let h := f p.request {} w
        ({ h.response with status := h.thrown.getD h.response.status }, h.world)

/-- The answers to a series of reads, when `unread` is left over from before them. -/
def dialogue (calls : Registrations σ) : σ → List UInt8 → List (List UInt8) → List Response
  | _, _, [] => []
  | w, unread, read :: reads =>
      match parse {} (unread ++ read) with
      | none => []
      | some p =>
          let a := calls.answer w p
          if p.request.getHeader (ascii "Connection") = ascii "close" then [a.1]
          else a.1 :: dialogue calls a.2 p.rest reads

/-- The state of the handlers and the bytes left over after a series of reads, if none of them
has asked to close. -/
def after (calls : Registrations σ) : σ → List UInt8 → List (List UInt8) → Option (σ × List UInt8)
  | w, unread, [] => some (w, unread)
  | w, unread, read :: reads =>
      match parse {} (unread ++ read) with
      | none => none
      | some p =>
          if p.request.getHeader (ascii "Connection") = ascii "close" then none
          else after calls (calls.answer w p).2 p.rest reads

/-- The texts are one for each read: the answer to what it has brought behind the bytes that
were left over, until one has asked to close, and none after it. -/
structure AnswersEach (calls : Registrations σ) (w : σ) (reads texts : List (List UInt8)) :
    Prop where
  length_le : texts.length ≤ reads.length
  answered : ∀ before read rest v unread, reads = before ++ read :: rest →
    calls.after w [] before = some (v, unread) →
      ∃ p, parse {} (unread ++ read) = some p ∧
        texts[before.length]? = some (calls.answer v p).1.toString
  closed : ∀ before read rest, reads = before ++ read :: rest → calls.after w [] before = none →
    texts[before.length]? = none

/-- The handlers use the setters of the response; they may throw an exception with any code. -/
def SetOnly (calls : Registrations σ) : Prop :=
  ∀ call ∈ calls, ∀ r w, ∃ setters, (call.2 r {} w).response = Framing.built setters

end Registrations

/-! ## The client -/

namespace Framing

/-- The statuses and bodies of the responses up to the end of the bytes; `fuel` bounds their
number. -/
def hearUpTo : ℕ → List UInt8 → Option (List (ℤ × List UInt8))
  | 0, _ => none
  | fuel + 1, l =>
      if l = [] then some []
      else
        (decode l).bind fun m =>
          (hearUpTo fuel m.rest).map fun ms => ((m.status : ℤ), m.body) :: ms

/-- What a client reads. -/
def hear (l : List UInt8) : Option (List (ℤ × List UInt8)) := hearUpTo (l.length + 1) l

/-- The library defines the status. -/
def Defined (status : ℤ) : Prop := ∃ s : Status, status = s.code

/-- Every number is written without a line end. -/
theorem not_mem_decimal (n : ℤ) : 13 ∉ decimal n := by
  have hdigits : (13 : UInt8) ∉ decimal (n.natAbs : ℤ) := fun h =>
    absurd (isDigit_of_mem_decimal h) (by decide)
  rw [decimal_natCast] at hdigits
  unfold decimal
  simp only
  split
  · rw [List.mem_cons, not_or]
    exact ⟨by decide, hdigits⟩
  · exact hdigits

/-- A response with a status that is not defined has no line end. -/
theorem not_mem_toString {r : Response} (h : ¬ Defined r.status) : 13 ∉ r.toString := by
  have hnone : statusMsgs r.status = none := by
    rcases statusMsgs_cases r.status with ⟨-, hknown⟩ | ⟨hnone, -⟩
    · rcases hknown with hk | hk | hk
      · exact absurd ⟨.ok, hk⟩ h
      · exact absurd ⟨.badRequest, hk⟩ h
      · exact absurd ⟨.notFound, hk⟩ h
    · exact hnone
  rw [Response.toString, hnone, List.append_nil, List.mem_append, List.mem_append, not_or, not_or]
  exact ⟨by decide, not_mem_decimal _, by decide⟩

theorem toString_ne_nil (r : Response) : r.toString ≠ [] := by
  unfold Response.toString
  exact List.append_ne_nil_of_left_ne_nil (by decide) _

/-- A framed response is found also when it begins in the middle of a line. -/
theorem decode_append_toString {r : Response} (h : Framed r) {s : Status} (hs : r.status = s.code)
    {pre : List UInt8} (hpre : 13 ∉ pre) (t : List UInt8) :
    decode (pre ++ (r.toString ++ t)) =
      (statusOf (pre ++ statusLine s)).map fun status => ⟨status, r.body, t⟩ := by
  have hline : ¬ CRLF <:+: pre ++ statusLine s := not_infix_CRLF (by
    rw [List.mem_append, not_or]
    exact ⟨hpre, by cases s <;> decide⟩)
  have hfuel : r.headers.length <
      (r.headers.flatMap headerLine ++ (CRLF ++ (r.body ++ t))).length + 1 := by
    have hlen := length_le_headerLines r.headers
    rw [List.length_append]
    omega
  have hlength : bodyLength r.headers = some r.body.length := by
    unfold bodyLength
    rw [h.length_only]
    exact ofDecimal_decimal _
  have hbody : r.body.length ≤ (r.body ++ t).length := by
    rw [List.length_append]
    exact Nat.le_add_right _ _
  rw [toString_eq hs]
  simp only [List.append_assoc]
  rw [← List.append_assoc pre]
  unfold decode
  rw [lineOf_append hline, Option.bind_some]
  cases statusOf (pre ++ statusLine s) with
  | none => rfl
  | some status =>
      rw [Option.bind_some, fieldsOf_headerLines h.headers_ok _ hfuel, Option.bind_some, hlength,
        Option.bind_some, if_pos hbody, List.take_left, List.drop_left]
      rfl

/-- Where every status is defined the responses are read one by one. -/
theorem hearUpTo_flatten {rs : List Response} (hframed : ∀ r ∈ rs, Framed r)
    (hdefined : ∀ r ∈ rs, Defined r.status) {fuel : ℕ} (hfuel : rs.length < fuel) :
    hearUpTo fuel (rs.map Response.toString).flatten =
      some (rs.map fun r => (r.status, r.body)) := by
  induction rs generalizing fuel with
  | nil =>
      cases fuel with
      | zero => exact absurd hfuel (Nat.not_lt_zero _)
      | succ fuel => rfl
  | cons r rs ih =>
      cases fuel with
      | zero => exact absurd hfuel (Nat.not_lt_zero _)
      | succ fuel =>
          obtain ⟨s, hs⟩ := hdefined r List.mem_cons_self
          have hrest := ih (fun q hq => hframed q (List.mem_cons_of_mem r hq))
            (fun q hq => hdefined q (List.mem_cons_of_mem r hq)) (Nat.lt_of_succ_lt_succ hfuel)
          rw [List.map_cons, List.flatten_cons, hearUpTo,
            if_neg (List.append_ne_nil_of_left_ne_nil (toString_ne_nil r) _),
            decode_toString (hframed r List.mem_cons_self) hs, Option.bind_some, hrest,
            Option.map_some, List.map_cons, hs]

/-- A response is read for each defined status at most. -/
theorem length_hearUpTo_le {rs : List Response} (hframed : ∀ r ∈ rs, Framed r) :
    ∀ {fuel : ℕ} (pre : List UInt8) {ms : List (ℤ × List UInt8)}, 13 ∉ pre →
      hearUpTo fuel (pre ++ (rs.map Response.toString).flatten) = some ms →
      ∃ defined : List Response, defined.Sublist rs ∧ (∀ r ∈ defined, Defined r.status) ∧
        ms.length ≤ defined.length := by
  induction rs with
  | nil =>
      intro fuel pre ms hpre hms
      refine ⟨[], List.Sublist.refl _, fun _ h => absurd h List.not_mem_nil, ?_⟩
      cases fuel with
      | zero => cases hms
      | succ fuel =>
          rw [List.map_nil, List.flatten_nil, List.append_nil, hearUpTo] at hms
          split at hms
          · rw [← Option.some.inj hms]
            exact Nat.le_refl _
          · -- the bytes end within the line
            have hline : lineOf pre = none := if_neg (not_infix_CRLF hpre)
            rw [decode, hline] at hms
            cases hms
  | cons r rs ih =>
      intro fuel pre ms hpre hms
      have hrs : ∀ q ∈ rs, Framed q := fun q hq => hframed q (List.mem_cons_of_mem r hq)
      rw [List.map_cons, List.flatten_cons] at hms
      by_cases hr : Defined r.status
      · obtain ⟨s, hs⟩ := hr
        cases fuel with
        | zero => cases hms
        | succ fuel =>
            have hne : pre ++ (r.toString ++ (rs.map Response.toString).flatten) ≠ [] := by
              simp [toString_ne_nil r]
            rw [hearUpTo, if_neg hne,
              decode_append_toString (hframed r List.mem_cons_self) hs hpre,
              Option.bind_eq_some_iff] at hms
            obtain ⟨m, hm, hms⟩ := hms
            rw [Option.map_eq_some_iff] at hm hms
            obtain ⟨status, -, rfl⟩ := hm
            obtain ⟨ms', hms', rfl⟩ := hms
            obtain ⟨defined, hsub, hdefined, hle⟩ := ih hrs [] List.not_mem_nil hms'
            refine ⟨r :: defined, hsub.cons_cons r, ?_, Nat.succ_le_succ hle⟩
            intro q hq
            rcases List.mem_cons.mp hq with rfl | hq
            · exact ⟨s, hs⟩
            · exact hdefined q hq
      · -- the text of this response goes on with that of the next one
        rw [← List.append_assoc] at hms
        have hpre' : 13 ∉ pre ++ r.toString := by
          rw [List.mem_append, not_or]
          exact ⟨hpre, not_mem_toString hr⟩
        obtain ⟨defined, hsub, hdefined, hle⟩ := ih hrs _ hpre' hms
        exact ⟨defined, hsub.cons r, hdefined, hle⟩

/-- A client reads a series of responses exactly when the library defines every status. -/
theorem hear_iff {rs : List Response} (hframed : ∀ r ∈ rs, Framed r) :
    hear (rs.map Response.toString).flatten = some (rs.map fun r => (r.status, r.body)) ↔
      ∀ r ∈ rs, Defined r.status := by
  have hlen : rs.length ≤ (rs.map Response.toString).flatten.length := by
    clear hframed
    induction rs with
    | nil => exact Nat.le_refl _
    | cons r rs ih =>
        have hpos := List.length_pos_of_ne_nil (toString_ne_nil r)
        rw [List.map_cons, List.flatten_cons, List.length_append, List.length_cons]
        omega
  constructor
  · intro hhear
    obtain ⟨defined, hsub, hdefined, hle⟩ :=
      length_hearUpTo_le hframed [] List.not_mem_nil hhear
    rw [List.length_map] at hle
    rw [hsub.eq_of_length_le hle] at hdefined
    exact hdefined
  · exact fun hdefined => hearUpTo_flatten hframed hdefined (Nat.lt_succ_of_le hlen)

end Framing

/-! ## The server -/

namespace Registrations

/-- The answers to more reads follow those to the first, if none of these has asked to close. -/
theorem dialogue_append (calls : Registrations σ) (before rest : List (List UInt8)) :
    ∀ (w : σ) (unread : List UInt8), calls.dialogue w unread (before ++ rest) =
      calls.dialogue w unread before ++
        (calls.after w unread before).elim [] fun x => calls.dialogue x.1 x.2 rest := by
  induction before with
  | nil => exact fun _ _ => rfl
  | cons read before ih =>
      intro w unread
      obtain ⟨p, hp⟩ := parse_isSome {} (unread ++ read)
      simp only [List.cons_append, dialogue, after, hp]
      split
      · rfl
      · rw [ih, List.cons_append]

theorem after_append (calls : Registrations σ) (before rest : List (List UInt8)) :
    ∀ (w : σ) (unread : List UInt8), calls.after w unread (before ++ rest) =
      (calls.after w unread before).bind fun x => calls.after x.1 x.2 rest := by
  induction before with
  | nil => exact fun _ _ => rfl
  | cons read before ih =>
      intro w unread
      obtain ⟨p, hp⟩ := parse_isSome {} (unread ++ read)
      simp only [List.cons_append, after, hp]
      split
      · rfl
      · exact ih _ _

/-- There are as many answers as reads, or fewer when one has asked to close. -/
theorem length_dialogue (calls : Registrations σ) (reads : List (List UInt8)) :
    ∀ (w : σ) (unread : List UInt8), (calls.dialogue w unread reads).length ≤ reads.length ∧
      ∀ x, calls.after w unread reads = some x →
        (calls.dialogue w unread reads).length = reads.length := by
  induction reads with
  | nil => exact fun _ _ => ⟨Nat.le_refl 0, fun _ _ => rfl⟩
  | cons read reads ih =>
      intro w unread
      obtain ⟨p, hp⟩ := parse_isSome {} (unread ++ read)
      obtain ⟨hle, heq⟩ := ih (calls.answer w p).2 p.rest
      simp only [dialogue, after, hp]
      split
      · exact ⟨Nat.le_add_left 1 reads.length, fun x hx => by cases hx⟩
      · exact ⟨Nat.succ_le_succ hle, fun x hx => congrArg Nat.succ (heq x hx)⟩

/-- The dialogue has one answer for each read. -/
theorem answersEach_dialogue (calls : Registrations σ) (w : σ) (reads : List (List UInt8)) :
    calls.AnswersEach w reads ((calls.dialogue w [] reads).map Response.toString) where
  length_le := by
    rw [List.length_map]
    exact (calls.length_dialogue reads w []).1
  answered := by
    rintro before read rest v unread rfl hafter
    obtain ⟨p, hp⟩ := parse_isSome {} (unread ++ read)
    have hlength := (calls.length_dialogue before w []).2 _ hafter
    have hnext : (calls.dialogue v unread (read :: rest))[0]? = some (calls.answer v p).1 := by
      simp only [dialogue, hp]
      split <;> rfl
    refine ⟨p, hp, ?_⟩
    rw [dialogue_append, hafter, List.getElem?_map, ← hlength, List.getElem?_append_right
      (Nat.le_refl _), Nat.sub_self]
    exact congrArg (Option.map Response.toString) hnext
  closed := by
    rintro before read rest rfl hafter
    rw [dialogue_append, hafter, List.getElem?_eq_none_iff, List.length_map]
    simpa using (calls.length_dialogue before w []).1

/-- The answer of the server is that of the handler registered last. -/
theorem reply_routes (calls : Registrations σ) (w : σ) (p : Parsed) :
    Session.reply calls.routes w p = calls.answer w p := by
  unfold Session.reply answer
  split
  · rfl
  · unfold respond
    rw [routes_eq]
    cases calls.last (p.request.method, p.request.path) with
    | none => rfl
    | some f =>
        simp only
        cases (f p.request {} w).thrown <;> rfl

/-- Every answer is framed, whatever its status is. -/
theorem framed_answer {calls : Registrations σ} (hcalls : calls.SetOnly) (w : σ) (p : Parsed) :
    Framing.Framed (calls.answer w p).1 := by
  have hstatus : ∀ (r : Response) (status : ℤ), Framing.Framed r →
      Framing.Framed { r with status := status } := fun _ _ h => ⟨h.headers_ok, h.length_only⟩
  unfold answer
  split
  · exact hstatus {} 400 Framing.framed_fresh
  · split
    · exact hstatus {} 404 Framing.framed_fresh
    · rename_i f hlast
      obtain ⟨call, hcall, rfl⟩ := Option.map_eq_some_iff.mp hlast
      obtain ⟨setters, hset⟩ :=
        hcalls call (List.mem_of_mem_filter (List.mem_of_getLast? hcall)) p.request w
      refine hstatus _ _ ?_
      rw [hset]
      exact (Framing.built_eq setters).1

theorem framed_dialogue {calls : Registrations σ} (hcalls : calls.SetOnly)
    (reads : List (List UInt8)) :
    ∀ (w : σ) (unread : List UInt8), ∀ r ∈ calls.dialogue w unread reads, Framing.Framed r := by
  induction reads with
  | nil =>
      intro w unread r hr
      exact absurd hr List.not_mem_nil
  | cons read reads ih =>
      intro w unread r hr
      unfold dialogue at hr
      split at hr
      · exact absurd hr List.not_mem_nil
      · rename_i p _
        have hanswer := framed_answer hcalls w p
        simp only at hr
        split at hr
        · rw [List.mem_singleton.mp hr]
          exact hanswer
        · rcases List.mem_cons.mp hr with rfl | hr
          · exact hanswer
          · exact ih _ _ r hr

end Registrations

namespace Session

/-- After `shutdown` nothing is sent, whatever is read. -/
theorem run_after_shutdown (routes : Routes σ) {reads : List (List UInt8 × ℕ)}
    (hne : ∀ x ∈ reads, x.1 ≠ []) :
    ∀ {s : Session σ}, s.Open → s.state ≠ .connected →
      ∃ t, Runs.run (step routes) s reads = some t ∧ t.responses = s.responses := by
  induction reads with
  | nil => exact fun {s} _ _ => ⟨s, rfl, rfl⟩
  | cons read reads ih =>
      intro s hopen hconn
      obtain ⟨x, hstep, hwf, -⟩ := step_read routes hopen read (hne read List.mem_cons_self)
      have hstate : (finish routes { s with inBuf := s.inBuf.append read.1 read.2 } x).state =
          s.state := by
        simp only [finish, send, shutdown, hconn, ne_eq, not_false_eq_true, if_true]
        split <;> rfl
      obtain ⟨hbuf, hclosed, -⟩ :=
        finish_frame routes (s := { s with inBuf := s.inBuf.append read.1 read.2 }) hopen.2 x
      obtain ⟨t, hrun, hresponses⟩ := ih (fun y hy => hne y (List.mem_cons_of_mem read hy))
        ⟨hbuf ▸ hwf, hclosed⟩ (by rw [hstate]; exact hconn)
      refine ⟨t, by rw [Runs.run_cons, hstep]; exact hrun, hresponses.trans ?_⟩
      exact responses_finish routes hconn _ x

/-- What is sent on a connection that can send is the dialogue. -/
theorem run_responses (calls : Registrations σ) {reads : List (List UInt8 × ℕ)}
    (hne : ∀ x ∈ reads, x.1 ≠ []) :
    ∀ {s : Session σ}, s.inBuf.Wf → s.state = .connected →
      Runs.AllSteps (step calls.routes) SpaceOk s reads →
      ∃ t, Runs.run (step calls.routes) s reads = some t ∧
        t.responses = s.responses ++
          (calls.dialogue s.world s.inBuf.content (reads.map Prod.fst)).map Response.toString := by
  induction reads with
  | nil => exact fun {s} _ _ _ => ⟨s, rfl, (List.append_nil _).symm⟩
  | cons read reads ih =>
      intro s hwf hconn hspace
      have hne' : ∀ x ∈ reads, x.1 ≠ [] := fun x hx => hne x (List.mem_cons_of_mem read hx)
      obtain ⟨x, hstep, hparse, hadv⟩ :=
        step_connected calls.routes hwf hconn read (hne read List.mem_cons_self)
      obtain ⟨hread, hspace'⟩ := hspace _ hstep
      rw [Buffer.content_append_of_not_full hwf hread] at hparse
      rw [List.map_cons, Registrations.dialogue, hparse, Runs.run_cons, hstep, Option.bind_some]
      simp only
      by_cases hclose : x.parsed.request.getHeader (ascii "Connection") = ascii "close"
      · have hstate : (s.answered calls.routes x).state = .disconnecting := if_pos hclose
        obtain ⟨t, hrun, hresponses⟩ := run_after_shutdown calls.routes hne'
          (s := s.answered calls.routes x) ⟨hadv.2, by rw [hstate]; decide⟩
          (by rw [hstate]; decide)
        refine ⟨t, hrun, hresponses.trans ?_⟩
        rw [if_pos hclose, List.map_singleton, ← Registrations.reply_routes]
        rfl
      · have hstate : (s.answered calls.routes x).state = .connected := if_neg hclose
        obtain ⟨t, hrun, hresponses⟩ := ih hne' (s := s.answered calls.routes x) hadv.2 hstate
          hspace'
        refine ⟨t, hrun, hresponses.trans ?_⟩
        rw [if_neg hclose, List.map_cons, ← Registrations.reply_routes, List.append_cons]
        rfl

/-- On a fresh connection of a server with any routes whose handlers use the setters only, for
any reads that bring something and find `inBuf` not drained and full: each read is answered
once, until one asks to close, and the client reads these answers, status by status and body by
body, exactly when the library defines every status in them. -/
theorem run_dialogue (calls : Registrations σ) (hcalls : calls.SetOnly) (w : σ)
    (reads : List (List UInt8 × ℕ)) (hne : ∀ x ∈ reads, x.1 ≠ [])
    (hspace : Runs.AllSteps (step calls.routes) SpaceOk (init w) reads) :
    ∃ t, Runs.run (step calls.routes) (init w) reads = some t ∧
      calls.AnswersEach w (reads.map Prod.fst) t.responses ∧
      (Framing.hear t.responses.flatten =
          some ((calls.dialogue w [] (reads.map Prod.fst)).map fun r => (r.status, r.body)) ↔
        ∀ r ∈ calls.dialogue w [] (reads.map Prod.fst), Framing.Defined r.status) := by
  obtain ⟨hwf, hcontent, hconn⟩ := idle_init w
  obtain ⟨t, hrun, hresponses⟩ := run_responses calls hne hwf hconn hspace
  rw [hcontent] at hresponses
  refine ⟨t, hrun, ?_, ?_⟩
  · rw [hresponses]
    exact calls.answersEach_dialogue w _
  · rw [hresponses]
    exact Framing.hear_iff (Registrations.framed_dialogue hcalls _ w [])

/-- The server of the example answers a request for `/`, does not find another path, and is
asked to close. -/
theorem run_dialogue_notFound :
    ∃ t, Runs.run (step (Registrations.routes [((.get, ascii "/"), fun _ resp w =>
          ⟨resp.setBody (ascii "Hello world!"), w, none⟩)])) (init ())
        [(ascii "GET / HTTP/1.1\r\n\r\n", 2030),
          (ascii "GET /x HTTP/1.1\r\nConnection: close\r\n\r\n", 1990)] = some t ∧
      Registrations.AnswersEach [((.get, ascii "/"), fun _ resp w =>
          ⟨resp.setBody (ascii "Hello world!"), w, none⟩)] ()
        [ascii "GET / HTTP/1.1\r\n\r\n",
          ascii "GET /x HTTP/1.1\r\nConnection: close\r\n\r\n"] t.responses ∧
      (Framing.hear t.responses.flatten =
          some ((Registrations.dialogue [((.get, ascii "/"), fun _ resp w =>
              ⟨resp.setBody (ascii "Hello world!"), w, none⟩)] () []
            [ascii "GET / HTTP/1.1\r\n\r\n",
              ascii "GET /x HTTP/1.1\r\nConnection: close\r\n\r\n"]).map
            fun r => (r.status, r.body)) ↔
        ∀ r ∈ Registrations.dialogue [((.get, ascii "/"), fun _ resp w =>
              ⟨resp.setBody (ascii "Hello world!"), w, none⟩)] () []
            [ascii "GET / HTTP/1.1\r\n\r\n",
              ascii "GET /x HTTP/1.1\r\nConnection: close\r\n\r\n"],
          Framing.Defined r.status) :=
  run_dialogue _ (fun call hcall _ _ => ⟨[.setBody (ascii "Hello world!")], by
    obtain rfl := List.mem_singleton.mp hcall
    rfl⟩) () [(ascii "GET / HTTP/1.1\r\n\r\n", 2030),
      (ascii "GET /x HTTP/1.1\r\nConnection: close\r\n\r\n", 1990)] (by decide) (by decide)

-- of two responses one is read, with the status of the first and the body of the second
example : Framing.hear (({ status := 500 } : Response).toString ++
    (({} : Response).setBody [7]).toString) = some [(500, [7])] := by
  decide

end Session

end Http

end Lotta
