/-
# The HTTP server on a real connection

`Session` follows `msgCallback` on a connection that only counts what is sent.  Here the
connection is the one of `TcpConnection`, on its loop thread, with both its buffers: bytes
arrive at its socket, poll events are dispatched piece by piece, `handleRead` reads into `inBuf`
and calls `msgCallback`, which sends its response through `outBuf_` and the kernel, and the
kernel takes what it likes.

`run_serves` connects this to the dialogue that a client should have.  While the connection is in
`Connected`, the chunks that the reads have cut out of the arrived bytes decide what is answered,
and what is not in a chunk is still unread.  In every state, the bytes taken by the kernel and
those in `outBuf_` are the answers to the chunks, one text after the other.  This holds as long
as each read in `Connected` fills the room made for it and finds `inBuf` not drained and full, and
each response keeps its bytes; the handlers use the setters of the response only.

After a header has asked to close, and after `close()`, the code reads on but no answer is sent;
when `close()` has given the socket up in another callback of the same iteration, it reads
whatever the descriptor is by then.  A negative `n` in `readFrom` is left out there.
-/
import Lotta.BufferedOutput
import Lotta.ConnectionEffects
import Lotta.Http.Dialogue
import Lotta.ReadFailure

namespace Lotta

/-! ## The output while it can send -/

namespace BufferedThread

variable {s t : BufferedThread} {op : Move × ℕ}

theorem not_connected_of_shutdown {slack : ℕ} (h : s.step (.shutdown, slack) = some t) :
    t.conn.base.state ≠ .connected := by
  cases (moved_of_step h).2 with
  | elsewhere m slack t hmove hideal hout => exact LoopThread.not_connected_of_shutdown hideal

theorem not_connected_of_closes (h : s.step op = some t) (hclose : s.ideal.closes op.1 = true) :
    t.conn.base.state ≠ .connected := by
  cases (moved_of_step h).2 with
  | sent msg r slack huser => cases hclose
  | wrote n r slack rest c htodo hevent hc =>
      unfold LoopThread.closes LoopThread.closesNext ideal at hclose
      rw [htodo] at hclose
      cases hclose
  | elsewhere m slack t hmove hideal hout =>
      exact LoopThread.not_connected_of_closes hideal hclose

/-- A connection that has left `Connected` does not come back. -/
theorem connected_of_step (h : s.step op = some t) (ht : t.conn.base.state = .connected) :
    s.conn.base.state = .connected := by
  cases (moved_of_step h).2 with
  | sent msg r slack huser =>
      by_contra hstate
      have hsame : s.conn.send msg r slack = s.conn := if_pos hstate
      simp only [hsame] at ht
      exact hstate ht
  | wrote n r slack rest c htodo hevent hc =>
      have hwrite := BufferedConnection.ideal_handleWrite s.conn r
      rw [hc, Option.map_some, Option.some.injEq] at hwrite
      have hstate : c.ideal.state = s.conn.ideal.state := by
        rw [hwrite]
        exact (TcpConnection.handleWrite_frame _ r).2
      exact hstate.symm.trans ht
  | elsewhere m slack t hmove hideal hout => exact LoopThread.connected_of_step hideal ht

/-- In `Connected` the socket is held. -/
theorem held_of_step (h : s.step op = some t)
    (hheld : s.conn.base.state = .connected → s.ideal.Held)
    (ht : t.conn.base.state = .connected) : t.ideal.Held := by
  have hs := hheld (connected_of_step h ht)
  have hopen : s.ideal.closes op.1 = false :=
    Bool.eq_false_iff.mpr fun hclose => not_connected_of_closes h hclose ht
  cases (moved_of_step h).2 with
  | sent msg r slack huser =>
      refine ⟨?_, hs.unreset⟩
      show (s.conn.send msg r slack).ideal.socket = true
      unfold BufferedConnection.send
      split
      · exact hs.socket
      · rw [BufferedConnection.ideal_sendTask]
        exact (TcpConnection.socket_sendTask _ msg r).trans hs.socket
  | wrote n r slack rest c htodo hevent hc =>
      have hwrite := BufferedConnection.ideal_handleWrite s.conn r
      rw [hc, Option.map_some, Option.some.injEq] at hwrite
      refine ⟨?_, fun hmem => hs.unreset ?_⟩
      · show c.ideal.socket = true
        rw [hwrite]
        exact (TcpConnection.socket_handleWrite _ r).trans hs.socket
      · show Todo.resetSocket ∈ s.todo
        rw [htodo]
        exact List.mem_cons_of_mem _ hmem
  | elsewhere m slack t hmove hideal hout => exact hs.step hopen hideal

end BufferedThread

/-- The move is a call of `send`. -/
def Move.isSend : Move → Bool
  | .send _ _ => true
  | _ => false

namespace BufferedOutput

variable {o o' : BufferedOutput}

/-- What has been sent is written or waits, and in `Connected` the socket is held. -/
structure Sound (o : BufferedOutput) : Prop where
  outBuf : o.thread.conn.outBuf.Wf
  delivery : o.Delivery
  held : o.thread.conn.base.state = .connected → o.thread.ideal.Held

theorem sound_init (asserts : Bool) (fd : ℤ) (capacity : ℕ) :
    (init asserts fd capacity).Sound where
  outBuf := Buffer.wf_init capacity
  delivery := by cases asserts <;> rfl
  held := fun _ => by
    show (BufferedThread.init asserts fd capacity).ideal.Held
    rw [BufferedThread.ideal_init]
    exact LoopThread.held_init asserts fd

/-- A move that meets the condition keeps it. -/
theorem Sound.step {op : Move × ℕ} (h : o.Sound) (hok : o.KeepsBytes op)
    (hstep : o.step op = some o') :
    o'.Sound ∧ o'.sent = o.sent ++ o.sends op.1 ∧
      (o'.thread.conn.base.state = .connected → o.thread.conn.base.state = .connected) := by
  have hdelivery := (delivery_step_iff h.outBuf h.delivery hstep).mpr hok
  unfold BufferedOutput.step at hstep
  rw [Option.map_eq_some_iff] at hstep
  obtain ⟨thread, hthread, rfl⟩ := hstep
  exact ⟨⟨BufferedThread.wf_step h.outBuf hthread, hdelivery,
    BufferedThread.held_of_step hthread h.held⟩, rfl, BufferedThread.connected_of_step hthread⟩

/-- A move that is no send. -/
theorem Sound.quiet {m : Move} {slack : ℕ} (h : o.Sound) (hm : m.isSend = false)
    (hstep : o.step (m, slack) = some o') :
    o'.Sound ∧ o'.sent = o.sent ∧
      (o'.thread.conn.base.state = .connected → o.thread.conn.base.state = .connected) := by
  have hkeeps : o.KeepsBytes (m, slack) := by
    cases m with
    | send msg r => cases hm
    | _ => trivial
  have hsends : o.sends m = [] := by
    cases m with
    | send msg r => cases hm
    | _ => rfl
  have hkept := h.step hkeeps hstep
  rwa [hsends, List.append_nil] at hkept

/-- `shutdown` sends nothing; it is called where a header asks for it. -/
theorem Sound.shutdownIf {close : Prop} [Decidable close] (h : o.Sound)
    (hstep : (if close then o.step (.shutdown, 0) else some o) = some o') :
    o'.Sound ∧ o'.sent = o.sent ∧ (o'.thread.conn.base.state = .connected →
      o.thread.conn.base.state = .connected ∧ ¬ close) := by
  split at hstep
  · obtain ⟨hsound, hsent, -⟩ := h.quiet rfl hstep
    refine ⟨hsound, hsent, fun hc => ?_⟩
    unfold BufferedOutput.step at hstep
    rw [Option.map_eq_some_iff] at hstep
    obtain ⟨thread, hthread, rfl⟩ := hstep
    exact absurd hc (BufferedThread.not_connected_of_shutdown hthread)
  · rename_i hopen
    obtain rfl := Option.some.inj hstep
    exact ⟨h, rfl, fun hc => ⟨hc, hopen⟩⟩

end BufferedOutput

/-! ## The connection -/

namespace Http

variable {σ : Type*}

/-- A connection of the server.  `unread` are the bytes at its socket and `arrived` all that
have come there; `heard` are the chunks that were read while it was in `Connected`. -/
structure ServedConnection (σ : Type*) where
  out : BufferedOutput
  inBuf : Buffer
  unread : List UInt8
  arrived : List UInt8
  world : σ
  heard : List (List UInt8)

/-- The steps: bytes arrive, the loop thread makes a move, or the next piece of code is
`handleRead`, on the socket or when `close()` has given it up; there `w` is the answer of the
kernel when the response is written at once. -/
inductive ServedOp where
  | arrive (bytes : List UInt8)
  | move (m : Move) (slack : ℕ)
  | handleRead (r : ReadResult) (slack : ℕ) (w : WriteResult) (sendSlack : ℕ)
  | handleReadGivenUp (n : ℕ) (r : ReadAnswer n) (slack : ℕ) (w : WriteResult) (sendSlack : ℕ)

namespace ServedConnection

/-- A connection in its `connCallback_`. -/
def init (asserts : Bool) (fd : ℤ) (capacity : ℕ) (w : σ) : ServedConnection σ where
  out := BufferedOutput.init asserts fd capacity
  inBuf := Buffer.init Buffer.kInitLen
  unread := []
  arrived := []
  world := w
  heard := []

/-- The connection of the thread. -/
def conn (s : ServedConnection σ) : BufferedConnection := s.out.thread.conn

/-- `msgCallback`; a text that no `std::string` can hold is not sent. -/
def msgCallback (routes : Routes σ) (s : ServedConnection σ) (w : WriteResult) (slack : ℕ) :
    Option (ServedConnection σ) :=
  (readBuffer {} s.inBuf).bind fun x =>
    let a := if x.thrown then (({} : Response).setStatus 400, s.world)
      else respond routes s.world x.request
    if h : a.1.toString.length < 2 ^ 63 then
      (s.out.step (.send ⟨a.1.toString, h⟩ w, slack)).bind fun out =>
        (if x.request.getHeader (ascii "Connection") = ascii "close" then out.step (.shutdown, 0)
          else some out).map fun out => { s with out := out, inBuf := x.buf, world := a.2 }
    else none

/-- A chunk goes to `msgCallback`. -/
def hear (s : ServedConnection σ) (chunk : List UInt8) : ServedConnection σ :=
  if s.conn.base.state = .connected then { s with heard := s.heard ++ [chunk] } else s

/-- The connection with what a call of `readFrom` has come to. -/
def fill (s : ServedConnection σ) (o : ReadOutcome) : ServedConnection σ :=
  { s with
    out := { s.out with thread := s.out.thread.check o.full }
    inBuf := o.inBuf
    unread := o.unread }

/-- The rest of `handleRead`, when `readFrom` has taken `chunk` and returned `ret`. -/
def afterRead (routes : Routes σ) (s : ServedConnection σ) (ret : ℤ) (chunk : List UInt8)
    (w : WriteResult) (sendSlack : ℕ) : Option (ServedConnection σ) :=
  if s.conn.base.aborted then some s
  else
    (s.out.step (.proceed ret .failed, 0)).bind fun out =>
      let s := { s with out := out }
      if 0 < ret then (s.hear chunk).msgCallback routes w sendSlack else some s

/-- `handleRead` calls `readFrom`, and this has come to `o`. -/
def read (routes : Routes σ) (s : ServedConnection σ) (o : ReadOutcome) (w : WriteResult)
    (sendSlack : ℕ) : Option (ServedConnection σ) :=
  if s.out.thread.reads = true ∧ s.conn.base.aborted = false then
    (s.fill o).afterRead routes o.ret o.taken w sendSlack
  else none

/-- One step.  No code but `msgCallback` sends on the connection. -/
def step (routes : Routes σ) (s : ServedConnection σ) : ServedOp → Option (ServedConnection σ)
  | .arrive bytes => some { s with unread := s.unread ++ bytes, arrived := s.arrived ++ bytes }
  | .move m slack =>
      if m.isSend = true ∨ (m.isProceed = true ∧ s.out.thread.reads = true) then none
      else (s.out.step (m, slack)).map fun out => { s with out := out }
  | .handleRead r slack w sendSlack =>
      if s.conn.base.socket then
        s.read routes (s.inBuf.readSocket s.unread r slack) w sendSlack
      else none
  | .handleReadGivenUp _ r slack w sendSlack =>
      if s.conn.base.socket then none
      else s.read routes (s.inBuf.readGivenUp s.unread r slack) w sendSlack

/-! ## What is stated -/

/-- The connection has the dialogue `answers` of what it has heard. -/
structure Serves (calls : Registrations σ) (w : σ) (s : ServedConnection σ) : Prop where
  /-- While it can answer, what it has heard is what has arrived, up to what is unread. -/
  heard : s.conn.base.state = .connected → s.heard.flatten ++ s.unread = s.arrived
  /-- The bytes written and in `outBuf_` are the answers. -/
  output : s.conn.ideal.fifo.history =
    ((calls.dialogue w [] s.heard).map Response.toString).flatten
  /-- A client that has got all of them reads the dialogue, if every status is defined. -/
  read : s.conn.outBuf.content = [] →
    (Framing.hear s.conn.base.kernel =
        some ((calls.dialogue w [] s.heard).map fun r => (r.status, r.body)) ↔
      ∀ r ∈ calls.dialogue w [] s.heard, Framing.Defined r.status)

/-- The text that `msgCallback` sends when it finds `b` in `inBuf`. -/
def message (routes : Routes σ) (w : σ) (b : Buffer) : Option Message :=
  (readBuffer {} b).bind fun x =>
    let text := (Session.reply routes w x.parsed).1.toString
    if h : text.length < 2 ^ 63 then some ⟨text, h⟩ else none

/-- The condition on a step: a read in `Connected` that finds bytes takes all of them into a
buffer that is not drained and full, and the response to them keeps its bytes. -/
def Keeps (routes : Routes σ) (s : ServedConnection σ) : ServedOp → Prop
  | .handleRead r slack w _ =>
      s.conn.base.state = .connected → s.unread ≠ [] →
        r.count s.unread.length = s.unread.length ∧ ¬ s.inBuf.DrainedFull ∧
          ∀ msg ∈ message routes s.world (s.inBuf.readFrom s.unread r slack).2,
            s.conn.KeepsBytes msg w
  | _ => True

instance (routes : Routes σ) (s : ServedConnection σ) :
    (op : ServedOp) → Decidable (s.Keeps routes op)
  | .handleRead _ _ _ _ => inferInstanceAs (Decidable (_ → _ → _ ∧ _ ∧ _))
  | .arrive _ | .move _ _ | .handleReadGivenUp _ _ _ _ _ => isTrue trivial

end ServedConnection

/-! ## The dialogue goes on -/

/-- One more read adds one answer. -/
theorem Registrations.dialogue_concat (calls : Registrations σ) {reads : List (List UInt8)}
    {w v : σ} {rest read : List UInt8} {p : Parsed}
    (hafter : calls.after w [] reads = some (v, rest)) (hparse : parse {} (rest ++ read) = some p) :
    calls.dialogue w [] (reads ++ [read]) =
        calls.dialogue w [] reads ++ [(calls.answer v p).1] ∧
      calls.after w [] (reads ++ [read]) =
        if p.request.getHeader (ascii "Connection") = ascii "close" then none
        else some ((calls.answer v p).2, p.rest) := by
  rw [dialogue_append, after_append, hafter]
  simp only [Option.elim_some, Option.bind_some, dialogue, after, hparse, and_true]
  split <;> rfl

/-! ## Steps -/

namespace ServedConnection

variable {s t : ServedConnection σ} {calls : Registrations σ} {w : σ}

/-- What every step that meets the condition keeps. -/
structure Inv (calls : Registrations σ) (w : σ) (s : ServedConnection σ) : Prop where
  out : s.out.Sound
  inBuf : s.inBuf.Wf
  sent : s.out.sent = ((calls.dialogue w [] s.heard).map Response.toString).flatten
  heard : s.conn.base.state = .connected → s.heard.flatten ++ s.unread = s.arrived
  after : s.conn.base.state = .connected →
    calls.after w [] s.heard = some (s.world, s.inBuf.content)

/-- What is stated follows. -/
theorem Inv.serves (h : s.Inv calls w) (hcalls : calls.SetOnly) : s.Serves calls w := by
  have houtput : s.conn.ideal.fifo.history =
      ((calls.dialogue w [] s.heard).map Response.toString).flatten :=
    h.out.delivery.trans h.sent
  refine ⟨h.heard, houtput, fun hempty => ?_⟩
  have hkernel : s.conn.base.kernel =
      ((calls.dialogue w [] s.heard).map Response.toString).flatten := by
    rw [← houtput]
    show s.conn.base.kernel = s.conn.base.kernel ++ s.conn.outBuf.content
    rw [hempty, List.append_nil]
  rw [hkernel]
  exact Framing.hear_iff (Registrations.framed_dialogue hcalls _ w [])

/-- A chunk has been read, and `msgCallback` is called. -/
structure Asked (calls : Registrations σ) (w : σ) (s : ServedConnection σ) (chunk : List UInt8) :
    Prop where
  out : s.out.Sound
  inBuf : s.inBuf.Wf
  sent : s.out.sent = ((calls.dialogue w [] s.heard).map Response.toString).flatten
  heard : s.conn.base.state = .connected → s.heard.flatten ++ (chunk ++ s.unread) = s.arrived
  after : s.conn.base.state = .connected → ∃ rest,
    calls.after w [] s.heard = some (s.world, rest) ∧ s.inBuf.content = rest ++ chunk

/-- What `msgCallback` does when `readBuffer` has returned `x`. -/
theorem msgCallback_cases {routes : Routes σ} {r : WriteResult} {slack : ℕ} {x : Read}
    (hx : readBuffer {} s.inBuf = some x) (h : s.msgCallback routes r slack = some t) :
    ∃ (msg : Message) (o o' : BufferedOutput),
      message routes s.world s.inBuf = some msg ∧
      msg.bytes = (Session.reply routes s.world x.parsed).1.toString ∧
      s.out.step (.send msg r, slack) = some o ∧
      (if x.request.getHeader (ascii "Connection") = ascii "close" then o.step (.shutdown, 0)
        else some o) = some o' ∧
      t = { s with
        out := o', inBuf := x.buf, world := (Session.reply routes s.world x.parsed).2 } := by
  unfold msgCallback at h
  rw [hx, Option.bind_some] at h
  simp only [Option.dite_none_right_eq_some, Option.bind_eq_some_iff, Option.map_eq_some_iff] at h
  obtain ⟨hlength, o, hsend, o', hshutdown, rfl⟩ := h
  refine ⟨⟨_, hlength⟩, o, o', ?_, rfl, hsend, hshutdown, rfl⟩
  unfold message
  rw [hx]
  exact dif_pos hlength

/-- What is heard is only recorded. -/
theorem hear_frame (s : ServedConnection σ) (chunk : List UInt8) :
    (s.hear chunk).out = s.out ∧ (s.hear chunk).inBuf = s.inBuf ∧
      (s.hear chunk).world = s.world ∧ (s.hear chunk).unread = s.unread ∧
      (s.hear chunk).arrived = s.arrived := by
  unfold hear
  split <;> exact ⟨rfl, rfl, rfl, rfl, rfl⟩

/-- The chunk is answered. -/
theorem Asked.msgCallback {chunk : List UInt8} (h : s.Asked calls w chunk) {r : WriteResult}
    {slack : ℕ} (hok : s.conn.base.state = .connected →
      ∀ msg ∈ message calls.routes s.world s.inBuf, s.conn.KeepsBytes msg r)
    (hstep : (s.hear chunk).msgCallback calls.routes r slack = some t) : t.Inv calls w := by
  obtain ⟨hout, hbuf, hworld, hunread, harrived⟩ := s.hear_frame chunk
  obtain ⟨x, hx, hparse, hadv⟩ := readBuffer_parsed {} h.inBuf
  rw [← hbuf] at hx
  obtain ⟨msg, o, o', hmsg, hbytes, hsend, hshutdown, rfl⟩ := msgCallback_cases hx hstep
  rw [hworld, hbuf] at hmsg
  rw [hworld, calls.reply_routes] at hbytes ⊢
  rw [hout] at hsend
  have hkeeps : s.out.KeepsBytes (.send msg r, slack) := fun hc => hok hc msg hmsg
  obtain ⟨hsound, hsent, hstate⟩ := h.out.step hkeeps hsend
  obtain ⟨hsound', hsent', hstate'⟩ := hsound.shutdownIf hshutdown
  have hsends : s.out.sends (.send msg r) =
      if s.conn.base.state = .connected then msg.bytes else [] := rfl
  by_cases hconn : s.conn.base.state = .connected
  · obtain ⟨rest, hafter, hcontent⟩ := h.after hconn
    rw [hcontent] at hparse
    obtain ⟨hdialogue, hafter'⟩ := calls.dialogue_concat hafter hparse
    have hheard : (s.hear chunk).heard = s.heard ++ [chunk] := by
      rw [hear, if_pos hconn]
    refine ⟨hsound', hadv.2, ?_, fun hc => ?_, fun hc => ?_⟩
    · show o'.sent = ((calls.dialogue w [] (s.hear chunk).heard).map Response.toString).flatten
      rw [hsent', hsent, hsends, if_pos hconn, hbytes, h.sent, hheard, hdialogue, List.map_append,
        List.flatten_append, List.map_singleton, List.flatten_singleton]
    · show (s.hear chunk).heard.flatten ++ (s.hear chunk).unread = (s.hear chunk).arrived
      rw [hheard, hunread, harrived, List.flatten_append, List.flatten_singleton,
        List.append_assoc]
      exact h.heard hconn
    · show calls.after w [] (s.hear chunk).heard =
        some ((calls.answer s.world x.parsed).2, x.buf.content)
      rw [hheard, hafter']
      exact if_neg (hstate' hc).2
  · have hheard : (s.hear chunk).heard = s.heard := by
      rw [hear, if_neg hconn]
    have hgone : ¬ o'.thread.conn.base.state = .connected := fun hc =>
      hconn (hstate (hstate' hc).1)
    refine ⟨hsound', hadv.2, ?_, fun hc => absurd hc hgone, fun hc => absurd hc hgone⟩
    show o'.sent = ((calls.dialogue w [] (s.hear chunk).heard).map Response.toString).flatten
    rw [hsent', hsent, hsends, if_neg hconn, List.append_nil, hheard]
    exact h.sent

/-- What the condition says of a call of `readFrom` in `Connected`. -/
structure ReadsAll (routes : Routes σ) (s : ServedConnection σ) (o : ReadOutcome)
    (r : WriteResult) : Prop where
  full : o.full = true
  nonneg : 0 ≤ o.ret
  unread : 0 < o.ret → o.taken ++ o.unread = s.unread
  content : 0 < o.ret → o.inBuf.content = s.inBuf.content ++ o.taken
  keeps : 0 < o.ret → ∀ msg ∈ message routes s.world o.inBuf, s.conn.KeepsBytes msg r

/-- The assertion of `readFrom` leaves the output alone. -/
theorem sound_check {o : BufferedOutput} (h : o.Sound) (b : Bool) :
    BufferedOutput.Sound { o with thread := o.thread.check b } :=
  ⟨h.outBuf, h.delivery, fun hc => ⟨(h.held hc).socket, (h.held hc).unreset⟩⟩

/-- The message callback changes nothing in what a response does to the bytes. -/
theorem keepsBytes_of_read {o o' : BufferedOutput} (hreads : o.thread.reads = true) {n : ℤ}
    (hn : 0 < n) (hstep : o.step (.proceed n .failed, 0) = some o') {msg : Message}
    {r : WriteResult} (h : o.thread.conn.KeepsBytes msg r) : o'.thread.conn.KeepsBytes msg r := by
  obtain ⟨rest, htodo, hreadable⟩ := LoopThread.exists_of_reads hreads
  replace htodo : o.thread.todo = .readTest :: rest := htodo
  replace hreadable : isReadable o.thread.conn.base.channel.revents = true := hreadable
  have hne : ¬ n = 0 := by omega
  have hnonneg : ¬ n < 0 := by omega
  unfold BufferedOutput.step BufferedThread.step BufferedThread.elsewhere LoopThread.step at hstep
  split at hstep
  · cases hstep
  · simp only [htodo, LoopThread.proceed, hreadable, if_true, LoopThread.handleRead, hne, hnonneg,
      if_false, Option.map_some] at hstep
    obtain rfl := Option.some.inj hstep
    exact h

/-- `handleRead` answers what it has read. -/
theorem Inv.read (h : s.Inv calls w) {o : ReadOutcome} (hwf : o.inBuf.Wf) {r : WriteResult}
    {sendSlack : ℕ} (hok : s.conn.base.state = .connected → s.ReadsAll calls.routes o r)
    (hstep : s.read calls.routes o r sendSlack = some t) : t.Inv calls w := by
  unfold ServedConnection.read at hstep
  simp only [Option.ite_none_right_eq_some] at hstep
  obtain ⟨⟨hreads, hrun⟩, hstep⟩ := hstep
  have hsound := sound_check h.out o.full
  unfold afterRead at hstep
  split at hstep
  · -- the assertion fails, which it does not in `Connected`
    rename_i haborted
    obtain rfl := Option.some.inj hstep
    have hgone : ¬ s.conn.base.state = .connected := fun hc => by
      have hpassed : (s.fill o).conn.base.aborted = s.conn.base.aborted := by
        show (s.conn.base.check o.full).aborted = s.conn.base.aborted
        rw [(hok hc).full]
        simp [TcpConnection.check]
      rw [hpassed, hrun] at haborted
      cases haborted
    exact ⟨hsound, hwf, h.sent, fun hc => absurd hc hgone, fun hc => absurd hc hgone⟩
  · rw [Option.bind_eq_some_iff] at hstep
    obtain ⟨out, hout, hstep⟩ := hstep
    obtain ⟨hsound', hsent, hstate⟩ := hsound.quiet rfl hout
    replace hstate : out.thread.conn.base.state = .connected → s.conn.base.state = .connected :=
      hstate
    split at hstep
    · rename_i hpos
      have hasked : Asked calls w { s.fill o with out := out } o.taken := by
        refine ⟨hsound', hwf, hsent.trans h.sent, fun hc => ?_, fun hc => ?_⟩
        · show s.heard.flatten ++ (o.taken ++ o.unread) = s.arrived
          rw [(hok (hstate hc)).unread hpos]
          exact h.heard (hstate hc)
        · exact ⟨s.inBuf.content, h.after (hstate hc), (hok (hstate hc)).content hpos⟩
      refine hasked.msgCallback (fun hc msg hmsg => ?_) hstep
      have hkeeps : (s.fill o).conn.KeepsBytes msg r := (hok (hstate hc)).keeps hpos msg hmsg
      exact keepsBytes_of_read (o := (s.fill o).out) hreads hpos hout hkeeps
    · -- nothing has been read, and the connection is closed
      rename_i hzero
      obtain rfl := Option.some.inj hstep
      have hgone : ¬ out.thread.conn.base.state = .connected := fun hc => by
        have hret : o.ret = 0 := le_antisymm (not_lt.mp hzero) (hok (hstate hc)).nonneg
        unfold BufferedOutput.step at hout
        rw [Option.map_eq_some_iff] at hout
        obtain ⟨thread, hthread, rfl⟩ := hout
        refine BufferedThread.not_connected_of_closes hthread ?_ hc
        rw [hret]
        exact LoopThread.closesNext_of_reads (s := s.out.thread.ideal) hreads 0 o.full
      exact ⟨hsound', hwf, hsent.trans h.sent, fun hc => absurd hc hgone,
        fun hc => absurd hc hgone⟩

/-- A read from the socket that meets the condition. -/
theorem readsAll_of_keeps {routes : Routes σ} (hwf : s.inBuf.Wf) {r : ReadResult} {slack : ℕ}
    {wr : WriteResult} {sendSlack : ℕ} (hok : s.Keeps routes (.handleRead r slack wr sendSlack))
    (hc : s.conn.base.state = .connected) :
    s.ReadsAll routes (s.inBuf.readSocket s.unread r slack) wr := by
  by_cases hnil : s.unread = []
  · -- there is nothing to read
    have hret : (s.inBuf.readSocket s.unread r slack).ret = 0 := by
      show r.returned s.unread.length = 0
      rw [ReadResult.returned_eq_zero_iff, hnil, List.length_nil]
    have hzero : ¬ 0 < (s.inBuf.readSocket s.unread r slack).ret := by
      rw [hret]
      exact lt_irrefl 0
    refine ⟨?_, hret.ge, fun hpos => absurd hpos hzero, fun hpos => absurd hpos hzero,
      fun hpos => absurd hpos hzero⟩
    show ((s.inBuf.readSocket s.unread r slack).ret == (s.unread.length : ℤ)) = true
    rw [hret, hnil]
    rfl
  · obtain ⟨hcount, hfull, hkeeps⟩ := hok hc hnil
    have hret : (s.inBuf.readSocket s.unread r slack).ret = s.unread.length := by
      show r.returned s.unread.length = s.unread.length
      cases r with
      | received k =>
          simp only [ReadResult.returned]
          rw [hcount]
      | failed =>
          exact absurd (List.eq_nil_of_length_eq_zero hcount.symm) hnil
    refine ⟨?_, hret ▸ Int.natCast_nonneg _, fun _ => List.take_append_drop _ _, fun _ => ?_,
      fun _ => hkeeps⟩
    · show ((s.inBuf.readSocket s.unread r slack).ret == (s.unread.length : ℤ)) = true
      rw [hret]
      exact beq_self_eq_true _
    · exact (Buffer.content_readFrom_iff hwf s.unread r slack).mpr ⟨hcount, hfull⟩

/-- A step that meets the condition keeps the invariant. -/
theorem inv_step {op : ServedOp} (h : s.Inv calls w) (hok : s.Keeps calls.routes op)
    (hstep : s.step calls.routes op = some t) : t.Inv calls w := by
  cases op with
  | arrive bytes =>
      obtain rfl := Option.some.inj hstep
      refine ⟨h.out, h.inBuf, h.sent, fun hc => ?_, h.after⟩
      show s.heard.flatten ++ (s.unread ++ bytes) = s.arrived ++ bytes
      rw [← List.append_assoc, h.heard hc]
  | move m slack =>
      simp only [step, Option.ite_none_left_eq_some, not_or, Bool.not_eq_true,
        Option.map_eq_some_iff] at hstep
      obtain ⟨⟨hm, -⟩, o, ho, rfl⟩ := hstep
      obtain ⟨hsound, hsent, hstate⟩ := h.out.quiet hm ho
      exact ⟨hsound, h.inBuf, hsent.trans h.sent, fun hc => h.heard (hstate hc),
        fun hc => h.after (hstate hc)⟩
  | handleRead r slack wr sendSlack =>
      simp only [step, Option.ite_none_right_eq_some] at hstep
      exact h.read (Buffer.wf_readFrom h.inBuf s.unread r slack) (readsAll_of_keeps h.inBuf hok)
        hstep.2
  | handleReadGivenUp n r slack wr sendSlack =>
      -- in `Connected` the connection has its socket
      simp only [step, Option.ite_none_left_eq_some] at hstep
      exact h.read (Buffer.wf_readGivenUp h.inBuf s.unread r slack)
        (fun hc => absurd (h.out.held hc).socket hstep.1) hstep.2

/-! ## Runs -/

theorem inv_init (asserts : Bool) (fd : ℤ) (capacity : ℕ) (calls : Registrations σ) (w : σ) :
    (init asserts fd capacity w).Inv calls w where
  out := BufferedOutput.sound_init asserts fd capacity
  inBuf := Buffer.wf_init _
  sent := rfl
  heard := fun _ => rfl
  after := fun _ => rfl

/-- In every run of a connection of the server in which each read in `Connected` takes all the
bytes there are into a buffer that is not drained and full, and each response keeps its bytes,
the connection has the dialogue of what it has heard, and a client that has got all of it reads
that dialogue, if the library defines its statuses. -/
theorem run_serves (asserts : Bool) (fd : ℤ) (capacity : ℕ) (calls : Registrations σ)
    (hcalls : calls.SetOnly) (w : σ) (ops : List ServedOp)
    (hok : Runs.AllSteps (step calls.routes) (Keeps calls.routes)
      (init asserts fd capacity w) ops) :
    Runs.Along (step calls.routes) (Serves calls w) (init asserts fd capacity w) ops :=
  (Runs.Along.of_steps (fun _ _ _ h hi hstep => inv_step h hi hstep)
    (inv_init asserts fd capacity calls w) hok).mono fun _ h => h.serves hcalls

/-- A request for `/` arrives in the first event of a connection, and the kernel takes ten bytes
of the response at once and the rest later. -/
theorem run_serves_partly :
    Runs.Along (step (Registrations.routes [((.get, ascii "/"), fun _ resp w =>
        ⟨resp.setBody (ascii "Hello world!"), w, none⟩)]))
      (Serves [((.get, ascii "/"), fun _ resp w =>
        ⟨resp.setBody (ascii "Hello world!"), w, none⟩)] ()) (init true 7 2048 ())
      [.move (.proceed 0 .failed) 0, .arrive (ascii "GET / HTTP/1.1\r\n\r\n"), .move (.poll 1) 0,
        .move (.proceed 0 .failed) 0, .move (.proceed 0 .failed) 0, .move (.proceed 0 .failed) 0,
        .handleRead (.received 100) 2000 (.accepted 10) 2000, .move (.proceed 0 .failed) 0,
        .move (.proceed 0 .failed) 0, .move (.poll 4) 0, .move (.proceed 0 .failed) 0,
        .move (.proceed 0 .failed) 0, .move (.proceed 0 .failed) 0, .move (.proceed 0 .failed) 0,
        .move (.proceed 0 (.accepted 200)) 0] :=
  run_serves true 7 2048 _ (fun call hcall _ _ => ⟨[.setBody (ascii "Hello world!")], by
    obtain rfl := List.mem_singleton.mp hcall
    rfl⟩) () _ (by decide +kernel)

-- `close()` in another callback of the iteration: the code reads after it has given the socket up
example : (Runs.run (step fun _ => none) (init true 7 2048 ())
      [.move (.proceed 0 .failed) 0, .arrive [1, 2], .move (.poll 1) 0, .move .close 0,
        .move (.proceed 0 .failed) 0, .move (.proceed 0 .failed) 0, .move (.proceed 0 .failed) 0,
        .move (.proceed 0 .failed) 0, .move (.proceed 0 .failed) 0, .move (.proceed 0 .failed) 0,
        .handleReadGivenUp 1 (.delivered [3] (by decide)) 2000 .failed 0]).map
      (fun s => (s.heard, s.unread, s.out.sent)) = some ([], [1, 2], []) := by
  decide +kernel

end ServedConnection

end Http

end Lotta
