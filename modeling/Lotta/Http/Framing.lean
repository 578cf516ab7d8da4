/-
# Reading a response back

A reader of HTTP/1.1 finds the end of a response by itself: the status line up to the first
`\r\n`, header lines up to the first empty one, and as many bytes of body as the only header
of that name announces.  `decode` is such a reader, written without regard to the server.

`decode_built` says that a response is found by it exactly, whatever setters have been called
and whatever follows on the connection.  The body may hold line ends and header lines of its
own, since it is not searched.  What it rests on is that the setters keep every header one line
and keep one header that announces the length of the body (`Framed`).
-/
import Lotta.Http.RoundTrip

namespace Lotta

namespace Http

/-! ## The reader -/

namespace Framing

/-- The first line and what follows its end. -/
def lineOf (l : List UInt8) : Option (List UInt8 × List UInt8) :=
  if CRLF <:+: l then some (Search.cut CRLF l) else none

/-- A decimal digit. -/
def isDigit (c : UInt8) : Bool := decide (48 ≤ c.toNat) && decide (c.toNat ≤ 57)

/-- The number that is written in decimal digits. -/
def ofDecimal (l : List UInt8) : Option ℕ :=
  if l ≠ [] ∧ l.all isDigit = true then
    some (l.foldl (fun n c => 10 * n + (c.toNat - 48)) 0)
  else none

/-- The code in a status line, between the version and the reason. -/
def statusOf (line : List UInt8) : Option ℕ :=
  let p := Search.cut SP line
  if p.1 = ascii "HTTP/1.1" then ofDecimal (Search.cut SP p.2).1 else none

/-- The key and the value in a header line. -/
def fieldOf (line : List UInt8) : Option (List UInt8 × List UInt8) :=
  if COLON <:+: line then some (Search.cut COLON line) else none

/-- The header lines up to the empty line, and what follows it; `fuel` bounds their number. -/
def fieldsOf : ℕ → List UInt8 → Option (Headers × List UInt8)
  | 0, _ => none
  | fuel + 1, l =>
      (lineOf l).bind fun p =>
        if p.1 = [] then some ([], p.2)
        else
          (fieldOf p.1).bind fun field =>
            (fieldsOf fuel p.2).map fun q => (field :: q.1, q.2)

/-- A letter in lower case. -/
def lower (c : UInt8) : UInt8 := if 65 ≤ c.toNat ∧ c.toNat ≤ 90 then c + 32 else c

/-- A header that announces the length of the body; the case of a name does not matter. -/
def AnnouncesLength (p : List UInt8 × List UInt8) : Prop :=
  p.1.map lower = ascii "content-length"

instance (p : List UInt8 × List UInt8) : Decidable (AnnouncesLength p) :=
  inferInstanceAs (Decidable (_ = _))

/-- The announced length, when one header announces it. -/
def bodyLength (headers : Headers) : Option ℕ :=
  match headers.filter fun p => AnnouncesLength p with
  | [p] => ofDecimal p.2
  | _ => none

/-- What a reader finds: the status, the body, and the bytes behind the response. -/
structure Message where
  status : ℕ
  body : List UInt8
  rest : List UInt8
  deriving DecidableEq, Repr

/-- Read one response. -/
def decode (l : List UInt8) : Option Message :=
  (lineOf l).bind fun p =>
    (statusOf p.1).bind fun status =>
      (fieldsOf (p.2.length + 1) p.2).bind fun q =>
        (bodyLength q.1).bind fun n =>
          if n ≤ q.2.length then some ⟨status, q.2.take n, q.2.drop n⟩ else none

/-! ## Lines -/

/-- Where no `\r` stands no line ends. -/
theorem not_infix_CRLF {l : List UInt8} (h : 13 ∉ l) : ¬ CRLF <:+: l := fun hin =>
  h (hin.subset (List.mem_cons_self))

theorem lineOf_append {line : List UInt8} (h : ¬ CRLF <:+: line) (rest : List UInt8) :
    lineOf (line ++ (CRLF ++ rest)) = some (line, rest) := by
  have hends : CRLF <:+: line ++ (CRLF ++ rest) := ⟨line, rest, List.append_assoc _ _ _⟩
  rw [lineOf, if_pos hends, cut_CRLF h]

theorem fieldOf_append {key : List UInt8} (h : ¬ COLON <:+: key) (val : List UInt8) :
    fieldOf (key ++ (COLON ++ val)) = some (key, val) := by
  have hcolon : COLON <:+: key ++ (COLON ++ val) := ⟨key, val, List.append_assoc _ _ _⟩
  rw [fieldOf, if_pos hcolon, Search.cut_append (by decide) (by decide) h]

/-- Header lines are read one by one up to the empty line. -/
theorem fieldsOf_headerLines {headers : Headers} (hok : ∀ p ∈ headers, HeaderOk p)
    (rest : List UInt8) {fuel : ℕ} (hfuel : headers.length < fuel) :
    fieldsOf fuel (headers.flatMap headerLine ++ (CRLF ++ rest)) = some (headers, rest) := by
  induction headers generalizing fuel with
  | nil =>
      cases fuel with
      | zero => exact absurd hfuel (Nat.not_lt_zero _)
      | succ fuel =>
          unfold fieldsOf
          rw [List.flatMap_nil, List.nil_append,
            show CRLF ++ rest = [] ++ (CRLF ++ rest) from rfl, lineOf_append (by decide)]
          rfl
  | cons p headers ih =>
      cases fuel with
      | zero => exact absurd hfuel (Nat.not_lt_zero _)
      | succ fuel =>
          have hp := hok p List.mem_cons_self
          have hne : p.1 ++ (COLON ++ p.2) ≠ [] := by simp [COLON]
          have hrest := ih (fun q hq => hok q (List.mem_cons_of_mem p hq))
            (Nat.lt_of_succ_lt_succ hfuel)
          unfold fieldsOf
          rw [List.flatMap_cons, headerLine, List.append_assoc, List.append_assoc,
            lineOf_append hp.2, Option.bind_some, if_neg hne, fieldOf_append hp.1,
            Option.bind_some, hrest]
          rfl

/-! ## Numbers -/

/-- A digit as a byte. -/
theorem toNat_digit {c : Char} (h : c.isDigit) :
    48 ≤ c.toNat ∧ c.toNat ≤ 57 ∧ (UInt8.ofNat c.toNat).toNat = c.toNat := by
  simp only [Char.isDigit, Bool.and_eq_true, decide_eq_true_eq] at h
  obtain ⟨hge, hle⟩ := h
  have hge' : 48 ≤ c.toNat := hge
  have hle' : c.toNat ≤ 57 := hle
  refine ⟨hge', hle', ?_⟩
  rw [UInt8.toNat_ofNat']
  exact Nat.mod_eq_of_lt (by omega)

theorem decimal_natCast (n : ℕ) :
    decimal n = (Nat.toDigits 10 n).map fun c => UInt8.ofNat c.toNat := by
  simp [decimal]

theorem isDigit_of_mem_toDigits {n : ℕ} {c : Char} (h : c ∈ Nat.toDigits 10 n) : c.isDigit :=
  Nat.isDigit_of_mem_toDigits (by decide) (by decide) h

/-- What is written for a number consists of digits. -/
theorem isDigit_of_mem_decimal {n : ℕ} {c : UInt8} (h : c ∈ decimal n) : isDigit c = true := by
  rw [decimal_natCast, List.mem_map] at h
  obtain ⟨d, hd, rfl⟩ := h
  obtain ⟨hge, hle, heq⟩ := toNat_digit (isDigit_of_mem_toDigits hd)
  rw [isDigit, heq, decide_eq_true hge, decide_eq_true hle]
  rfl

/-- The value of digits does not depend on whether they are characters or bytes. -/
theorem foldl_digits {l : List Char} (h : ∀ c ∈ l, c.isDigit) (m : ℕ) :
    (l.map fun c => UInt8.ofNat c.toNat).foldl (fun n c => 10 * n + (c.toNat - 48)) m =
      Nat.ofDigitChars 10 l m := by
  induction l generalizing m with
  | nil => rfl
  | cons c l ih =>
      obtain ⟨-, -, heq⟩ := toNat_digit (h c List.mem_cons_self)
      rw [List.map_cons, List.foldl_cons, heq, ih fun d hd => h d (List.mem_cons_of_mem c hd)]
      exact Nat.ofDigitChars_cons.symm

/-- What is written for a number is read as that number. -/
theorem ofDecimal_decimal (n : ℕ) : ofDecimal (decimal n) = some n := by
  have hne : decimal n ≠ [] := by
    rw [decimal_natCast]
    simp
  have hall : (decimal n).all isDigit = true :=
    List.all_eq_true.mpr fun c hc => isDigit_of_mem_decimal hc
  rw [ofDecimal, if_pos ⟨hne, hall⟩, decimal_natCast,
    foldl_digits (fun c hc => isDigit_of_mem_toDigits hc), Nat.ofDigitChars_ten_toDigits]

/-! ## One response -/

/-- The statuses that the library defines. -/
inductive Status where
  | ok
  | badRequest
  | notFound
  deriving DecidableEq, Repr

/-- The number of a status. -/
def Status.code : Status → ℕ
  | .ok => 200
  | .badRequest => 400
  | .notFound => 404

/-- What a reader needs: every header is one line, and one of them announces the length of
the body. -/
structure Framed (r : Response) : Prop where
  headers_ok : ∀ p ∈ r.headers, HeaderOk p
  length_only : (r.headers.filter fun p => AnnouncesLength p) =
    [(ascii "Content-Length", decimal r.body.length)]

/-- The status line without its end. -/
def statusLine (s : Status) : List UInt8 :=
  ascii "HTTP/1.1 " ++ (decimal s.code ++ (SP ++ (statusMsgs s.code).getD []))

theorem toString_eq {r : Response} {s : Status} (hs : r.status = s.code) :
    r.toString =
      statusLine s ++ (CRLF ++ (r.headers.flatMap headerLine ++ (CRLF ++ r.body))) := by
  have hmsg : ∃ msg, statusMsgs s.code = some msg := by cases s <;> exact ⟨_, rfl⟩
  obtain ⟨msg, hmsg⟩ := hmsg
  rw [Response.toString, statusLine, hs, hmsg]
  simp only [Option.getD_some, List.append_assoc]

/-- A framed response is found, with everything behind it left over. -/
theorem decode_toString {r : Response} (h : Framed r) {s : Status} (hs : r.status = s.code)
    (t : List UInt8) : decode (r.toString ++ t) = some ⟨s.code, r.body, t⟩ := by
  have hline : ¬ CRLF <:+: statusLine s := not_infix_CRLF (by cases s <;> decide)
  have hstatus : statusOf (statusLine s) = some s.code := by cases s <;> decide
  have hfuel : r.headers.length <
      (r.headers.flatMap headerLine ++ (CRLF ++ (r.body ++ t))).length + 1 := by
    have hlen := length_le_headerLines r.headers
    rw [List.length_append]
    omega
  have hlength : bodyLength r.headers = some r.body.length := by
    unfold bodyLength
    rw [h.length_only]
    exact ofDecimal_decimal _
  rw [toString_eq hs]
  simp only [List.append_assoc]
  unfold decode
  rw [lineOf_append hline, Option.bind_some, hstatus, Option.bind_some,
    fieldsOf_headerLines h.headers_ok _ hfuel, Option.bind_some, hlength, Option.bind_some,
    if_pos (by rw [List.length_append]; exact Nat.le_add_right _ _), List.take_left,
    List.drop_left]

/-! ## The setters -/

/-- A call of one of the setters. -/
inductive Setter where
  | setStatus (s : Status)
  | setBody (body : List UInt8)

/-- The response after a call. -/
def Setter.apply (r : Response) : Setter → Response
  | .setStatus s => r.setStatus s.code
  | .setBody body => r.setBody body

/-- The response after a series of calls on a fresh one. -/
def built (calls : List Setter) : Response := calls.foldl Setter.apply {}

/-- The status that was set last; a fresh response has `OK`. -/
def lastStatus (calls : List Setter) : Status :=
  (calls.filterMap fun | .setStatus s => some s | .setBody _ => none).getLast?.getD .ok

/-- The body that was set last; a fresh response has none. -/
def lastBody (calls : List Setter) : List UInt8 :=
  (calls.filterMap fun | .setStatus _ => none | .setBody body => some body).getLast?.getD []

/-- Where one header announces the length, `set` puts the new length into it. -/
theorem filter_set {h : Headers} {old : List UInt8} (val : List UInt8)
    (honly : (h.filter fun p => AnnouncesLength p) = [(ascii "Content-Length", old)]) :
    ((h.set (ascii "Content-Length") val).filter fun p => AnnouncesLength p) =
      [(ascii "Content-Length", val)] := by
  have hlower : (ascii "Content-Length").map lower = ascii "content-length" := by decide
  have hname : ∀ v, AnnouncesLength (ascii "Content-Length", v) := fun _ => hlower
  induction h with
  | nil => cases honly
  | cons p h ih =>
      rw [Headers.set]
      by_cases hkey : p.1 = ascii "Content-Length"
      · have hp : AnnouncesLength p := by
          have := hname p.2
          rwa [← hkey] at this
        rw [List.filter_cons_of_pos (by simpa using hp), List.cons.injEq] at honly
        rw [if_pos (by simpa using hkey), hkey, List.filter_cons_of_pos (by simpa using hname val),
          honly.2]
      · have hp : ¬ AnnouncesLength p := fun hp => by
          rw [List.filter_cons_of_pos (by simpa using hp), List.cons.injEq] at honly
          exact hkey (by rw [honly.1])
        rw [List.filter_cons_of_neg (by simpa using hp)] at honly
        rw [if_neg (by simpa using hkey), List.filter_cons_of_neg (by simpa using hp), ih honly]

/-- `set` adds no other header. -/
theorem mem_set {h : Headers} {key val : List UInt8} {p : List UInt8 × List UInt8}
    (hp : p ∈ h.set key val) : p ∈ h ∨ p = (key, val) := by
  induction h with
  | nil => exact Or.inr (List.mem_singleton.mp hp)
  | cons q h ih =>
      rw [Headers.set] at hp
      split at hp
      · rename_i hq
        rcases List.mem_cons.mp hp with rfl | hp
        · exact Or.inr (by rw [beq_iff_eq.mp hq])
        · exact Or.inl (List.mem_cons_of_mem q hp)
      · rcases List.mem_cons.mp hp with rfl | hp
        · exact Or.inl List.mem_cons_self
        · exact (ih hp).imp_left (List.mem_cons_of_mem q)

/-- The header that announces a length is one line: a number has no line end in it. -/
theorem headerOk_length (n : ℕ) : HeaderOk (ascii "Content-Length", decimal n) := by
  have hkey : ¬ COLON <:+: ascii "Content-Length" := by decide
  refine ⟨hkey, not_infix_CRLF fun hmem => ?_⟩
  replace hmem : 13 ∈ ascii "Content-Length" ++ (COLON ++ decimal n) := hmem
  rw [List.mem_append, List.mem_append] at hmem
  rcases hmem with hmem | hmem | hmem
  · exact absurd hmem (by decide)
  · exact absurd hmem (by decide)
  · exact absurd (isDigit_of_mem_decimal hmem) (by decide)

theorem framed_fresh : Framed {} := ⟨by decide, by decide⟩

/-- The setters keep a response framed. -/
theorem framed_apply {r : Response} (h : Framed r) (call : Setter) : Framed (call.apply r) := by
  cases call with
  | setStatus s => exact ⟨h.headers_ok, h.length_only⟩
  | setBody body =>
      refine ⟨fun p hp => ?_, filter_set _ h.length_only⟩
      rcases mem_set hp with hp | rfl
      · exact h.headers_ok p hp
      · exact headerOk_length body.length

/-- What a series of calls leaves: a framed response with what was set last. -/
theorem built_eq (calls : List Setter) :
    Framed (built calls) ∧ (built calls).status = (lastStatus calls).code ∧
      (built calls).body = lastBody calls := by
  -- the last call decides, so the induction adds it at the end
  induction calls using List.reverseRecOn with
  | nil => exact ⟨framed_fresh, rfl, rfl⟩
  | append_singleton calls call ih =>
      obtain ⟨hframed, hstatus, hbody⟩ := ih
      have hbuilt : built (calls ++ [call]) = call.apply (built calls) := by
        rw [built, List.foldl_append]
        rfl
      rw [hbuilt]
      refine ⟨framed_apply hframed call, ?_⟩
      cases call with
      | setStatus s =>
          refine ⟨?_, ?_⟩
          · simp [Setter.apply, Response.setStatus, lastStatus]
          · simpa [Setter.apply, Response.setStatus, lastBody] using hbody
      | setBody body =>
          refine ⟨?_, ?_⟩
          · simpa [Setter.apply, Response.setBody, lastStatus] using hstatus
          · simp [Setter.apply, Response.setBody, lastBody]

/-- After any setters, a response is found by a reader exactly: the status and the body that
were set last, and everything that follows it. -/
theorem decode_built (calls : List Setter) (t : List UInt8) :
    decode ((built calls).toString ++ t) =
      some ⟨(lastStatus calls).code, lastBody calls, t⟩ := by
  obtain ⟨hframed, hstatus, hbody⟩ := built_eq calls
  rw [decode_toString hframed hstatus, hbody]

/-- A body that looks like the end of a header section. -/
example : decode ((built [.setBody [1], .setStatus .notFound,
    .setBody (ascii "Content-Length: 0\r\n\r\n")]).toString ++ ascii "HTTP/1.1 ") =
      some ⟨404, ascii "Content-Length: 0\r\n\r\n", ascii "HTTP/1.1 "⟩ := by decide

end Framing

end Http

end Lotta
