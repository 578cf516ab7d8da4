/-
# What an exception of a handler is answered with

`msgCallback` casts the code of an `HttpException` to a `Status` unchecked, and `toString` looks
its text up with `StatusMsgs[status_]`, which adds a null pointer for a status that is missing.
Inserting that pointer sets the bad bit of the stream, and from then on nothing is written.  So
the response to a code that the library does not define ends behind the code: no line end, no
headers, no body.

The table and the stream are modelled here as they work (`StatusTable`, `Stream`), and
`written_eq_toString` connects them with `Response.toString`: the table grows from lookup to
lookup, and what it answers never changes.
-/
import Lotta.Http.Framing
import Lotta.Http.Server

namespace Lotta

namespace Http

/-! ## The table of texts -/

/-- `StatusMsgs`: the statuses in it with their texts; `none` is a null pointer. -/
abbrev StatusTable := List (ℤ × Option (List UInt8))

namespace StatusTable

/-- The table as it is initialized. -/
def init : StatusTable :=
  [(200, some (ascii "OK")), (400, some (ascii "Bad Request")), (404, some (ascii "Not Found"))]

/-- `operator[]`: a missing key is added with a null pointer. -/
def lookup (t : StatusTable) (status : ℤ) : Option (List UInt8) × StatusTable :=
  match t.find? fun p => p.1 == status with
  | some p => (p.2, t)
  | none => (none, (status, none) :: t)

/-- The table after a series of lookups. -/
def after (asked : List ℤ) : StatusTable := asked.foldl (fun t status => (t.lookup status).2) init

theorem lookup_cons (p : ℤ × Option (List UInt8)) (t : StatusTable) (status : ℤ) :
    (lookup (p :: t) status).1 = if p.1 = status then p.2 else (t.lookup status).1 := by
  unfold lookup
  rw [List.find?_cons]
  by_cases hp : p.1 = status
  · rw [beq_iff_eq.mpr hp, if_pos hp]
  · rw [beq_false_of_ne hp, if_neg hp]
    cases t.find? fun p => p.1 == status <;> rfl

/-- The table answers with the texts of the library, and with a null pointer for the rest. -/
def Answers (t : StatusTable) : Prop := ∀ status, (t.lookup status).1 = statusMsgs status

theorem answers_init : init.Answers := by
  intro status
  rw [init, lookup_cons, lookup_cons, lookup_cons, statusMsgs]
  simp only [eq_comm (b := status)]
  rfl

/-- A lookup does not change any answer. -/
theorem answers_lookup {t : StatusTable} (h : t.Answers) (status : ℤ) :
    (t.lookup status).2.Answers := by
  have hown := h status
  unfold lookup at hown ⊢
  split
  · exact h
  · rename_i hnone
    rw [hnone] at hown
    intro other
    rw [lookup_cons]
    split
    · rename_i heq
      rw [← heq]
      exact hown
    · exact h other

theorem answers_after (asked : List ℤ) : (after asked).Answers := by
  unfold after
  induction asked using List.reverseRecOn with
  | nil => exact answers_init
  | append_singleton asked status ih =>
      rw [List.foldl_append]
      exact answers_lookup ih status

end StatusTable

/-! ## The stream -/

/-- A `std::stringstream`: what has been written, and its bad bit. -/
structure Stream where
  text : List UInt8 := []
  bad : Bool := false

/-- `operator<<`: a null pointer sets the bad bit, after which nothing is written. -/
def Stream.insert (s : Stream) : Option (List UInt8) → Stream
  | none => { s with bad := true }
  | some xs => if s.bad then s else { s with text := s.text ++ xs }

theorem foldl_insert_good (pieces : List (List UInt8)) (text : List UInt8) :
    (pieces.map some).foldl Stream.insert ⟨text, false⟩ = ⟨text ++ pieces.flatten, false⟩ := by
  induction pieces generalizing text with
  | nil => simp
  | cons xs pieces ih =>
      rw [List.map_cons, List.foldl_cons, List.flatten_cons, ← List.append_assoc]
      exact ih (text ++ xs)

theorem foldl_insert_bad (pieces : List (List UInt8)) (text : List UInt8) :
    (pieces.map some).foldl Stream.insert ⟨text, true⟩ = ⟨text, true⟩ := by
  induction pieces with
  | nil => rfl
  | cons xs pieces ih => exact ih

namespace Response

/-- What `toString` inserts before the text of the status. -/
def beforeText (r : Response) : List (List UInt8) := [ascii "HTTP/1.1 ", decimal r.status, SP]

/-- What `toString` inserts behind the text of the status. -/
def afterText (r : Response) : List (List UInt8) :=
  CRLF :: ((r.headers.flatMap fun p => [p.1, COLON, p.2, CRLF]) ++ [CRLF, r.body])

/-- `toString` on the table `t`, insertion by insertion. -/
def written (t : StatusTable) (r : Response) : List UInt8 :=
  let pieces := r.beforeText.map some ++ (t.lookup r.status).1 :: r.afterText.map some
  (pieces.foldl Stream.insert {}).text

theorem flatten_headers (headers : Headers) :
    (headers.flatMap fun p => [p.1, COLON, p.2, CRLF]).flatten = headers.flatMap headerLine := by
  induction headers with
  | nil => rfl
  | cons p headers ih =>
      rw [List.flatMap_cons, List.flatten_append, ih, List.flatMap_cons]
      simp [headerLine]

/-- The stream holds what `toString` returns. -/
theorem written_eq_toString {t : StatusTable} (h : t.Answers) (r : Response) :
    r.written t = r.toString := by
  rw [written, h]
  simp only [List.foldl_append, List.foldl_cons]
  rw [foldl_insert_good, toString]
  cases statusMsgs r.status with
  | none =>
      rw [Stream.insert, foldl_insert_bad]
      simp [beforeText]
  | some msg =>
      rw [Stream.insert, if_neg Bool.false_ne_true, foldl_insert_good]
      simp [beforeText, afterText, flatten_headers]

end Response

/-! ## Complete responses -/

/-- A full status line with its end, the header lines, the empty line, and the whole body. -/
def Complete (code : ℤ) (headers : Headers) (body msg : List UInt8) : Prop :=
  ∃ reason, ¬ CRLF <:+: reason ∧
    msg = ascii "HTTP/1.1 " ++ (decimal code ++ (SP ++ (reason ++ (CRLF ++
      (headers.flatMap headerLine ++ (CRLF ++ body))))))

/-- The codes that have a text. -/
theorem statusMsgs_cases (code : ℤ) :
    (∃ msg, statusMsgs code = some msg ∧ ¬ CRLF <:+: msg) ∧
        (code = 200 ∨ code = 400 ∨ code = 404) ∨
      statusMsgs code = none ∧ ¬ (code = 200 ∨ code = 400 ∨ code = 404) := by
  unfold statusMsgs
  split_ifs with hok hbad hnot
  · exact Or.inl ⟨⟨_, rfl, by decide⟩, Or.inl hok⟩
  · exact Or.inl ⟨⟨_, rfl, by decide⟩, Or.inr (Or.inl hbad)⟩
  · exact Or.inl ⟨⟨_, rfl, by decide⟩, Or.inr (Or.inr hnot)⟩
  · exact Or.inr ⟨rfl, by rintro (h | h | h) <;> contradiction⟩

/-- A response is complete exactly when its status has a text. -/
theorem complete_toString_iff (r : Response) :
    Complete r.status r.headers r.body r.toString ↔
      r.status = 200 ∨ r.status = 400 ∨ r.status = 404 := by
  rcases statusMsgs_cases r.status with ⟨⟨msg, hmsg, hline⟩, hknown⟩ | ⟨hnone, hunknown⟩
  · refine iff_of_true ⟨msg, hline, ?_⟩ hknown
    rw [Response.toString, hmsg]
  · refine iff_of_false ?_ hunknown
    rintro ⟨reason, -, heq⟩
    rw [Response.toString, hnone] at heq
    -- nothing stands behind the space, where the line should end
    simp [CRLF] at heq

/-! ## Exceptions of handlers -/

namespace Session

variable {σ : Type*}

/-- A route handler calls setters of the response and throws.  What `msgCallback` then sends is
complete exactly when the library defines a status of that code. -/
theorem msgCallback_complete_iff (routes : Routes σ) {s : Session σ} {x : Read}
    {f : RouteFunc σ} {calls : List Framing.Setter} {code : ℤ} {w : σ}
    (hread : readBuffer {} s.inBuf = some x) (hok : x.thrown = false)
    (hroute : routes (x.request.method, x.request.path) = some f)
    (hthrow : f x.request {} s.world = ⟨Framing.built calls, w, some code⟩) (asked : List ℤ) :
    ∃ t msg, s.msgCallback routes = some t ∧ t.responses = (s.send msg).responses ∧
      msg = ((Framing.built calls).setStatus code).written (StatusTable.after asked) ∧
      (Complete code (Framing.built calls).headers (Framing.lastBody calls) msg ↔
        code = 200 ∨ code = 400 ∨ code = 404) := by
  have hwritten := Response.written_eq_toString (StatusTable.answers_after asked)
    ((Framing.built calls).setStatus code)
  have hresponse : (respond routes s.world x.request).1 =
      (Framing.built calls).setStatus code := by
    unfold respond
    rw [hroute]
    simp only [hthrow]
  have hbody : (Framing.built calls).body = Framing.lastBody calls := (Framing.built_eq calls).2.2
  refine ⟨_, _, by rw [msgCallback, hread]; rfl, ?_, rfl, ?_⟩
  · rw [hwritten, ← hresponse]
    simp only [finish, hok]
    split <;> simp [send, shutdown] <;> split <;> simp
  · rw [hwritten, ← hbody]
    exact complete_toString_iff _

/-- A server whose handler sets a body and throws an exception with the given code. -/
def throwingRoutes (code : ℤ) : Routes Unit :=
  Routes.route (fun _ => none) .get (ascii "/") fun _ resp w =>
    ⟨resp.setBody (ascii "no"), w, some code⟩

/-- A connection that has received a request. -/
def asking : Session Unit :=
  { init () with inBuf := ⟨0, ⟨ascii "GET / HTTP/1.1\r\n\r\n", 18, by decide⟩⟩ }

/-- The code of `NotFoundException`, thrown by a handler. -/
theorem msgCallback_complete_404 :
    ∃ t msg, asking.msgCallback (throwingRoutes 404) = some t ∧
      t.responses = (asking.send msg).responses ∧
      msg = ((Framing.built [.setBody (ascii "no")]).setStatus 404).written
        (StatusTable.after [500]) ∧
      (Complete 404 (Framing.built [.setBody (ascii "no")]).headers
        (Framing.lastBody [.setBody (ascii "no")]) msg ↔
        (404 : ℤ) = 200 ∨ (404 : ℤ) = 400 ∨ (404 : ℤ) = 404) :=
  msgCallback_complete_iff (throwingRoutes 404) (s := asking)
    (x := ⟨{}, ⟨18, ⟨ascii "GET / HTTP/1.1\r\n\r\n", 18, by decide⟩⟩, false⟩)
    (w := ()) rfl rfl rfl rfl [500]

/-- A handler throws with the code 500, and all that is sent is `HTTP/1.1 500 `. -/
theorem not_complete_500 :
    (asking.msgCallback (throwingRoutes 500)).map (·.responses) = some [ascii "HTTP/1.1 500 "] ∧
      ∀ headers, ¬ Complete 500 headers (ascii "no") (ascii "HTTP/1.1 500 ") := by
  refine ⟨by decide, ?_⟩
  rintro headers ⟨reason, -, heq⟩
  have hlen := congrArg List.length heq
  have hcode : (decimal 500).length = 3 := by decide
  simp only [List.length_append, hcode] at hlen
  simp [ascii, SP, CRLF] at hlen
  omega

end Session

end Http

end Lotta
