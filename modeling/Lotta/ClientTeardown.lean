/-
# Destroying a client

`~TcpClient` destroys its connector and drops `connection_`.  `~Connector` takes a channel out of
the poller and closes its socket; it does not look for what the loop still holds of it.  That is a
`startTask` in the task queue or behind a retry timer, which is bound to `this`, and the function
that resets `channel_`, which has a reference to it; an event of this poll that has not been
dispatched yet, since the loop goes through a vector of pointers; and a connection whose
`rmConnCallback_`, which is bound to the client, has not been called yet.  `handleClose` calls it
after `closeCallback_`, where user code may destroy the client.

`run_harmless` says that this is all.  As long as the client is destroyed when none of these is
there, nothing runs on destroyed objects whatever the loop does afterwards, no socket is closed
twice, and no assertion of a destructor fails; and as long as the loop goes on until none of them
is left, this is the only way.  A client that waits for a socket to be connected may be destroyed;
one that waits to try again may not, and neither may one in `closeCallback_` of a connection.

The process is one with assertions: a second `handleClose` of a connection ends in the poller.  The
client is not destroyed from within a step of its connector, as `connCallback_` could do, which
`newConnection` calls.
-/
import Lotta.ConnectorSockets
import Lotta.TcpClient

namespace Lotta

/-- A client and its end.  `closing` are the connections whose `closeCallback_` is running,
innermost first, `closed` those whose `handleClose` has returned, and `closes` those with a
function of `close()` in the task queue.  `dangling` says that `activeChannels_` has the destroyed
channel, and `fault` that code has run on a destroyed object, that a socket has been closed twice,
or that an assertion in a destructor has failed. -/
structure ClientTeardown where
  client : TcpClient
  closing : List ClientConnection
  closed : List ClientConnection
  closes : List ClientConnection
  destroyed : Bool
  dangling : Bool
  fault : Bool

/-- The steps: those of the client's connector, the destruction of the client on the thread of
the loop, where the user may have a `shared_ptr` to its connection, and what the loop does
afterwards.  A connection comes to `handleClose` by an event or by `close()` on the loop thread,
or by the function that `close()` on another thread has queued; the last step is the return of
the innermost `closeCallback_`. -/
inductive TeardownOp where
  | client (op : ConnectorOp)
  | destroy (held : Bool)
  | loop (op : ConnectorOp)
  | handleClose (conn : ClientConnection)
  | pushClose (conn : ClientConnection)
  | runClose (conn : ClientConnection)
  | closeReturns

namespace ClientTeardown

/-- A new client. -/
def init : ClientTeardown := ⟨TcpClient.init, [], [], [], false, false, false⟩

/-- The loop is handling the events of a poll, and that of the connector is still to come. -/
def reported (c : Connector) : Bool := decide (c.phase = .handling) && c.active && c.registered

/-- `~Connector`. -/
def destroyConnector (c : Connector) : Connector :=
  { c with
    channel := none
    closed := c.closed ++ (c.channel.map ConnectorChannel.fd).toList }

/-- `~TcpClient`.  The last `shared_ptr` to a connection destroys it, and `~TcpConnection` asserts
that it has been closed; a function of `close()` has one, and so has `handleClose`. -/
def destroy (s : ClientTeardown) (held : Bool) : ClientTeardown :=
  { s with
    client := { s.client with connector := destroyConnector s.client.connector, connection := none }
    destroyed := true
    dangling := reported s.client.connector
    fault :=
      s.client.connector.channel.any (fun ch =>
        decide (ch.fd ∈ s.client.connector.closed ++ s.client.connector.handed)) ||
      s.client.connection.any (fun conn => !(held || decide (conn ∈ s.closes ++ s.closing))) }

/-- A step of the loop after the destruction. -/
def afterwards (s : ClientTeardown) (op : ConnectorOp) : Option ClientTeardown :=
  let moved := (s.client.connector.step op).map fun c =>
    { s with client := { s.client with connector := c } }
  match op with
  -- nobody calls a function of the destroyed client
  | .start _ => none
  | .pushStart => none
  | .event _ _ => if s.dangling then some { s with fault := true } else none
  | .retryTimer _ _ => moved.map fun s => { s with fault := true }
  | .call _ => moved.map fun s => { s with fault := true }
  -- the functions are called when all events have been handled
  | .swap => if s.dangling then none else moved
  | .enter => moved
  | .poll _ => moved
  | .turnDone _ => moved

/-- The connection has been made by the client. -/
def Made (s : ClientTeardown) (conn : ClientConnection) : Prop :=
  conn ∈ s.client.alive ∨ conn ∈ s.closed

instance (s : ClientTeardown) (conn : ClientConnection) : Decidable (s.Made conn) :=
  inferInstanceAs (Decidable (_ ∨ _))

/-- `handleClose` up to `closeCallback_`.  The poller asserts that it has the channel, which it
has not when `handleClose` has been called before. -/
def handleClose (s : ClientTeardown) (conn : ClientConnection) : ClientTeardown :=
  if conn ∈ s.client.alive ∧ conn ∉ s.closing then { s with closing := conn :: s.closing }
  else { s with client := { s.client with connector := s.client.connector.abort } }

/-- `closeCallback_` returns and `rmConnCallback_` is called, which is bound to the client. -/
def closeReturns (s : ClientTeardown) : Option ClientTeardown :=
  match s.closing with
  | [] => none
  | conn :: rest =>
      if s.destroyed then some { s with fault := true }
      else
        (s.client.step (.handleClose conn)).map fun client =>
          { s with client := client, closing := rest, closed := conn :: s.closed }

/-- One step.  In `closeCallback_` the loop thread does nothing but what the user calls. -/
def step (s : ClientTeardown) (op : TeardownOp) : Option ClientTeardown :=
  if s.fault || s.client.connector.stopped then none
  else
    match op with
    | .client op =>
        if s.destroyed = true ∨ (s.closing ≠ [] ∧ op.isStart = false) then none
        else (s.client.step (.loop op)).map fun client => { s with client := client }
    | .destroy held =>
        if s.destroyed = false ∧ s.client.connector.phase ≠ .polling then some (s.destroy held)
        else none
    | .loop op => if s.destroyed = true ∧ s.closing = [] then s.afterwards op else none
    | .handleClose conn =>
        if s.client.connector.phase ≠ .polling ∧ s.Made conn then some (s.handleClose conn)
        else none
    | .pushClose conn =>
        if s.Made conn then some { s with closes := s.closes ++ [conn] } else none
    | .runClose conn =>
        if s.client.connector.phase = .calling ∧ s.closing = [] ∧ conn ∈ s.closes then
          some ({ s with closes := s.closes.erase conn }.handleClose conn)
        else none
    | .closeReturns => s.closeReturns

/-! ## What is stated -/

/-- All has gone well so far. -/
def Harmless (s : ClientTeardown) : Prop := s.fault = false

instance : DecidablePred Harmless := fun s => inferInstanceAs (Decidable (s.fault = false))

/-- Something is left that uses the client: `alive` are the connections whose `rmConnCallback_`
has not been called. -/
def InUse (c : TcpClient) : Prop :=
  c.connector.tasks ≠ [] ∨ c.connector.timers ≠ [] ∨ c.alive ≠ []

instance : DecidablePred InUse := fun c =>
  inferInstanceAs (Decidable
    (c.connector.tasks ≠ [] ∨ c.connector.timers ≠ [] ∨ c.alive ≠ []))

/-- The condition on a step: the client is destroyed when nothing uses it and no event waits to be
dispatched. -/
def Unused (s : ClientTeardown) : TeardownOp → Prop
  | .destroy _ => ¬ InUse s.client ∧ reported s.client.connector = false
  | _ => True

instance (s : ClientTeardown) : (op : TeardownOp) → Decidable (s.Unused op)
  | .destroy _ => inferInstanceAs (Decidable (_ ∧ _))
  | .client _ | .loop _ | .handleClose _ | .pushClose _ | .runClose _ | .closeReturns =>
      isTrue trivial

/-- A destroyed client will be used. -/
def Doomed (s : ClientTeardown) : Prop :=
  s.destroyed = true ∧ (InUse s.client ∨ s.dangling = true)

/-! ## Before the destruction -/

/-- What every step of the client keeps, until an assertion fails or is doomed to. -/
structure Whole (s : TcpClient) : Prop where
  good : s.Good
  custody : s.connector.Custody

/-- What holds while the client is there. -/
structure Present (s : TcpClient) : Prop where
  sound : s.connector.stopped = true ∨ s.connector.Linked ∧ (Whole s ∨ s.Doomed)
  live : ∀ conn ∈ s.connection, conn ∈ s.alive

theorem present_init : Present TcpClient.init where
  sound := Or.inr ⟨Connector.linked_init _, Or.inl ⟨TcpClient.good_init, Connector.custody_init⟩⟩
  live := fun conn hconn => by cases hconn

/-- The connection that the client has is one that has not been closed. -/
theorem live_advance {s : TcpClient} (h : ∀ conn ∈ s.connection, conn ∈ s.alive)
    (op : ConnectorOp) (c : Connector) :
    ∀ conn ∈ (s.advance op c).connection, conn ∈ (s.advance op c).alive := by
  unfold TcpClient.advance
  simp only
  split
  · exact h
  · intro conn hconn
    obtain rfl := Option.some.inj hconn
    exact List.mem_append_right _ (List.mem_singleton_self _)

theorem present_step {s t : TcpClient} {op : TcpClientOp} (h : Present s)
    (hstep : s.step op = some t) : Present t := by
  have hlive := (TcpClient.moves_of_step hstep).1
  obtain ⟨hlinked, hwhole⟩ := h.sound.resolve_left (Bool.eq_false_iff.mp hlive)
  refine ⟨?_, ?_⟩
  · have hpath : t.connector.stopped = true ∨ Whole t ∨ t.Doomed := by
      rcases hwhole with ⟨hgood, hcustody⟩ | hdoomed
      · by_cases hok : s.FirstConnection op
        · refine Or.inr (Or.inl ⟨(TcpClient.good_step hgood hok hstep).1, ?_⟩)
          cases (TcpClient.moves_of_step hstep).2 with
          | handleClose conn => exact hcustody
          | loop op c hmay hconnector =>
              rw [TcpClient.connector_advance]
              exact (Connector.accounts_step hcustody hgood.connector
                (fun hop => hgood.work_of_mayConnect (hmay hop) (hok hop)) hconnector).custody
        · exact (hgood.doomed_of_not_ok hok hstep).imp_right Or.inr
      · exact (TcpClient.doomed_step hlinked hdoomed.2 (Or.inl hdoomed) hstep).imp_right Or.inr
    rcases TcpClient.linked_step hlinked hstep with hstopped | hlinked'
    · exact Or.inl hstopped
    · exact hpath.imp_right fun hp => ⟨hlinked', hp⟩
  · cases (TcpClient.moves_of_step hstep).2 with
    | handleClose conn => exact fun conn hconn => by cases hconn
    | loop op c hmay hconnector => exact live_advance h.live op c

/-- A second `handleClose` ends the process. -/
theorem Present.abort {s : TcpClient} (h : Present s) :
    Present { s with connector := s.connector.abort } :=
  ⟨Or.inl rfl, h.live⟩

/-! ## Inside `closeCallback_` -/

/-- The connections whose `closeCallback_` is running are there, each once, and the loop is not in
`poll`. -/
structure Frames (s : ClientTeardown) : Prop where
  nodup : s.closing.Nodup
  alive : ∀ conn ∈ s.closing, conn ∈ s.client.alive
  running : s.closing ≠ [] → s.client.connector.phase ≠ .polling

/-- A call of `start()` leaves the loop where it is. -/
theorem phase_of_isStart {c d : Connector} {op : ConnectorOp} (h : c.step op = some d)
    (hop : op.isStart = true) : d.phase = c.phase := by
  have hstart (c : Connector) (r : ConnectResult) : (c.startTask r).phase = c.phase := by
    unfold Connector.startTask
    split
    · rfl
    · split
      · rfl
      · cases r with
        | noSocket => rfl
        | answered err =>
            simp only
            split
            · unfold Connector.connected
              simp only
              split <;> rfl
            · unfold Connector.retry
              simp only
              split <;> rfl
            · rfl
  cases (Connector.moves_of_step h).2 with
  | start r hphase => exact hstart _ r
  | pushStart => rfl
  | enter | poll | event | retryTimer | swap | call | turnDone => cases hop

theorem alive_advance (s : TcpClient) (op : ConnectorOp) (c : Connector) :
    s.alive ⊆ (s.advance op c).alive := by
  unfold TcpClient.advance
  simp only
  split
  · exact List.Subset.refl _
  · exact List.subset_append_left _ _

/-- `handleClose` puts a connection there that is not there yet. -/
theorem Frames.handleClose {s : ClientTeardown} (h : s.Frames)
    (hphase : s.client.connector.phase ≠ .polling) (conn : ClientConnection) :
    (s.handleClose conn).Frames := by
  unfold ClientTeardown.handleClose
  split
  · rename_i hfirst
    refine ⟨List.nodup_cons.mpr ⟨hfirst.2, h.nodup⟩, fun x hx => ?_, fun _ => hphase⟩
    rcases List.mem_cons.mp hx with rfl | hx
    · exact hfirst.1
    · exact h.alive x hx
  · exact ⟨h.nodup, h.alive, h.running⟩

theorem Frames.closeReturns {s t : ClientTeardown} (h : s.Frames)
    (hstep : s.closeReturns = some t) : t.Frames := by
  unfold ClientTeardown.closeReturns at hstep
  split at hstep
  · cases hstep
  · rename_i conn rest hclosing
    split at hstep
    · obtain rfl := Option.some.inj hstep
      exact ⟨h.nodup, h.alive, h.running⟩
    · rw [Option.map_eq_some_iff] at hstep
      obtain ⟨client, hclient, rfl⟩ := hstep
      obtain ⟨hnodup, halive, hrunning⟩ := h
      rw [hclosing] at hnodup halive
      have hne : s.closing ≠ [] := by
        rw [hclosing]
        exact List.cons_ne_nil _ _
      cases (TcpClient.moves_of_step hclient).2 with
      | handleClose =>
          refine ⟨(List.nodup_cons.mp hnodup).2, fun x hx => ?_, fun _ => hrunning hne⟩
          refine (List.mem_erase_of_ne ?_).mpr (halive x (List.mem_cons_of_mem conn hx))
          rintro rfl
          exact (List.nodup_cons.mp hnodup).1 hx

/-- What the loop does afterwards is not within a `closeCallback_`. -/
theorem closing_afterwards {s t : ClientTeardown} {op : ConnectorOp}
    (h : s.afterwards op = some t) : t.closing = s.closing := by
  cases op with
  | start r | pushStart => cases h
  | event revents err =>
      simp only [afterwards, Option.ite_none_right_eq_some, Option.some.injEq] at h
      obtain ⟨-, rfl⟩ := h
      rfl
  | retryTimer | call =>
      simp only [afterwards, Option.map_eq_some_iff] at h
      obtain ⟨_, ⟨c, -, rfl⟩, rfl⟩ := h
      rfl
  | swap =>
      simp only [afterwards, Option.ite_none_left_eq_some, Option.map_eq_some_iff] at h
      obtain ⟨-, c, -, rfl⟩ := h
      rfl
  | enter | poll | turnDone =>
      simp only [afterwards, Option.map_eq_some_iff] at h
      obtain ⟨c, -, rfl⟩ := h
      rfl

theorem frames_step {s t : ClientTeardown} {op : TeardownOp} (h : s.Frames)
    (hstep : s.step op = some t) : t.Frames := by
  unfold step at hstep
  rw [Option.ite_none_left_eq_some] at hstep
  obtain ⟨-, hstep⟩ := hstep
  cases op with
  | client op =>
      simp only [Option.ite_none_left_eq_some, Option.map_eq_some_iff, not_or, not_and] at hstep
      obtain ⟨⟨-, hstart⟩, client, hclient, rfl⟩ := hstep
      cases (TcpClient.moves_of_step hclient).2 with
      | loop op c hmay hconnector =>
          refine ⟨h.nodup, fun x hx => alive_advance _ op c (h.alive x hx), fun hne => ?_⟩
          show (s.client.advance op c).connector.phase ≠ .polling
          rw [TcpClient.connector_advance,
            phase_of_isStart hconnector (Bool.eq_true_of_not_eq_false (hstart hne))]
          exact h.running hne
  | destroy held =>
      simp only [Option.ite_none_right_eq_some, Option.some.injEq] at hstep
      obtain ⟨-, rfl⟩ := hstep
      exact ⟨h.nodup, h.alive, h.running⟩
  | loop op =>
      simp only [Option.ite_none_right_eq_some] at hstep
      obtain ⟨⟨-, hnil⟩, hstep⟩ := hstep
      have hclosing : t.closing = [] := (closing_afterwards hstep).trans hnil
      refine ⟨hclosing ▸ List.nodup_nil, fun x hx => ?_, fun hne => absurd hclosing hne⟩
      rw [hclosing] at hx
      cases hx
  | handleClose conn =>
      simp only [Option.ite_none_right_eq_some, Option.some.injEq] at hstep
      obtain ⟨⟨hphase, -⟩, rfl⟩ := hstep
      exact h.handleClose hphase conn
  | pushClose conn =>
      simp only [Option.ite_none_right_eq_some, Option.some.injEq] at hstep
      obtain ⟨-, rfl⟩ := hstep
      exact ⟨h.nodup, h.alive, h.running⟩
  | runClose conn =>
      simp only [Option.ite_none_right_eq_some, Option.some.injEq] at hstep
      obtain ⟨⟨hphase, -, -⟩, rfl⟩ := hstep
      have hphase' : s.client.connector.phase ≠ .polling := by
        rw [hphase]
        decide
      exact Frames.handleClose (s := { s with closes := s.closes.erase conn })
        ⟨h.nodup, h.alive, h.running⟩ hphase' conn
  | closeReturns => exact h.closeReturns hstep

/-! ## Afterwards -/

/-- What a step after the destruction does: it moves the loop on and leaves what is left of the
client as it is, or it uses that. -/
inductive Passed (s : ClientTeardown) (t : ClientTeardown) : Prop where
  | moved (hgone : t.destroyed = true) (hdangling : t.dangling = s.dangling)
      (hfault : t.fault = s.fault) (huse : InUse t.client ↔ InUse s.client)
      (hrest : t.client.connector.phase ≠ .calling → t.client.connector.rest = [])
  | used (hgone : t.destroyed = true) (hfault : t.fault = true)
      (huse : InUse s.client ∨ s.dangling = true)

/-- A step of the loop. -/
theorem passed_of_afterwards {s t : ClientTeardown} {op : ConnectorOp} (hgone : s.destroyed = true)
    (hrest : s.client.connector.phase ≠ .calling → s.client.connector.rest = [])
    (hstep : s.afterwards op = some t) : s.Passed t := by
  cases op with
  | start r | pushStart => cases hstep
  | event revents err =>
      simp only [afterwards, Option.ite_none_right_eq_some, Option.some.injEq] at hstep
      obtain ⟨hdangling, rfl⟩ := hstep
      exact .used hgone rfl (Or.inr hdangling)
  | retryTimer setIn r =>
      simp only [afterwards, Option.map_eq_some_iff] at hstep
      obtain ⟨_, ⟨c, hc, rfl⟩, rfl⟩ := hstep
      refine .used hgone rfl (Or.inl (Or.inr (Or.inl ?_)))
      cases (Connector.moves_of_step hc).2 with
      | retryTimer _ _ _ hmem => exact List.ne_nil_of_mem hmem
  | call r =>
      simp only [afterwards, Option.map_eq_some_iff] at hstep
      obtain ⟨_, ⟨c, hc, rfl⟩, rfl⟩ := hstep
      refine .used hgone rfl (Or.inl (Or.inl ?_))
      cases (Connector.moves_of_step hc).2 with
      | call _ a rest _ hcons =>
          rw [Connector.tasks_cons hcons]
          exact List.cons_ne_nil _ _
  | swap =>
      simp only [afterwards, Option.ite_none_left_eq_some, Option.map_eq_some_iff] at hstep
      obtain ⟨-, c, hc, rfl⟩ := hstep
      cases (Connector.moves_of_step hc).2 with
      | swap hphase =>
          have hnil : s.client.connector.rest = [] := hrest (by rw [hphase]; decide)
          refine .moved hgone rfl rfl ?_ fun hne => absurd rfl hne
          unfold InUse Connector.tasks
          rw [hnil, List.append_nil, List.nil_append]
  | enter =>
      simp only [afterwards, Option.map_eq_some_iff] at hstep
      obtain ⟨c, hc, rfl⟩ := hstep
      cases (Connector.moves_of_step hc).2 with
      | enter hphase =>
          exact .moved hgone rfl rfl Iff.rfl fun _ => hrest (by rw [hphase]; decide)
  | poll active =>
      simp only [afterwards, Option.map_eq_some_iff] at hstep
      obtain ⟨c, hc, rfl⟩ := hstep
      cases (Connector.moves_of_step hc).2 with
      | poll _ hphase =>
          exact .moved hgone rfl rfl Iff.rfl fun _ => hrest (by rw [hphase]; decide)
  | turnDone quit =>
      simp only [afterwards, Option.map_eq_some_iff] at hstep
      obtain ⟨c, hc, rfl⟩ := hstep
      cases (Connector.moves_of_step hc).2 with
      | turnDone _ _ hnil => exact .moved hgone rfl rfl Iff.rfl fun _ => hnil

/-! ## Steps -/

/-- Where the client is in its life. -/
inductive Stage (s : ClientTeardown) : Prop where
  | before (hthere : s.destroyed = false) (h : Present s.client)
  | after (hgone : s.destroyed = true)
      (hrest : s.client.connector.phase ≠ .calling → s.client.connector.rest = [])
  | ended (hgone : s.destroyed = true) (hfault : s.fault = true)

/-- What every step keeps. -/
structure Inv (s : ClientTeardown) : Prop where
  frames : s.Frames
  stage : s.Stage

/-- What a step does: one of the client, its destruction, or one after it. -/
inductive Stepped (s : ClientTeardown) : TeardownOp → ClientTeardown → Prop where
  | before (op : TeardownOp) (t : ClientTeardown) (hthere : s.destroyed = false)
      (hthere' : t.destroyed = false) (hfault : t.fault = s.fault) (hok : s.Unused op)
      (hpresent : Present s.client → Present t.client) : Stepped s op t
  | destroy (held : Bool) (hthere : s.destroyed = false)
      (hlive : s.client.connector.stopped = false) : Stepped s (.destroy held) (s.destroy held)
  | after (op : TeardownOp) (t : ClientTeardown) (hgone : s.destroyed = true)
      (hok : s.Unused op)
      (hpassed : s.Frames →
        (s.client.connector.phase ≠ .calling → s.client.connector.rest = []) → s.Passed t) :
      Stepped s op t

/-- A step that leaves the client as it is, or ends the process. -/
theorem stepped_of_kept {s t : ClientTeardown} {op : TeardownOp} (hok : s.Unused op)
    (hclient : t.client = s.client ∨
      t.client = { s.client with connector := s.client.connector.abort })
    (hdestroyed : t.destroyed = s.destroyed) (hdangling : t.dangling = s.dangling)
    (hfault : t.fault = s.fault) : s.Stepped op t := by
  cases hgone : s.destroyed with
  | false =>
      refine .before op t hgone (hdestroyed.trans hgone) hfault hok fun hpresent => ?_
      rcases hclient with hsame | habort
      · rw [hsame]
        exact hpresent
      · rw [habort]
        exact hpresent.abort
  | true =>
      refine .after op t hgone hok fun _ hrest => ?_
      refine .moved (hdestroyed.trans hgone) hdangling hfault ?_ ?_
      · rcases hclient with hsame | habort
        · rw [hsame]
        · rw [habort]
          exact Iff.rfl
      · rcases hclient with hsame | habort
        · rwa [hsame]
        · rwa [habort]

theorem kept_handleClose (s : ClientTeardown) (conn : ClientConnection) :
    ((s.handleClose conn).client = s.client ∨
      (s.handleClose conn).client = { s.client with connector := s.client.connector.abort }) ∧
    (s.handleClose conn).destroyed = s.destroyed ∧
    (s.handleClose conn).dangling = s.dangling ∧ (s.handleClose conn).fault = s.fault := by
  unfold handleClose
  split
  · exact ⟨Or.inl rfl, rfl, rfl, rfl⟩
  · exact ⟨Or.inr rfl, rfl, rfl, rfl⟩

/-- The function that calls `rmConnCallback_` uses the client, which is there or is not. -/
theorem stepped_of_closeReturns {s t : ClientTeardown} (hstep : s.closeReturns = some t) :
    s.Stepped .closeReturns t := by
  unfold closeReturns at hstep
  split at hstep
  · cases hstep
  · rename_i conn rest hclosing
    split at hstep
    · rename_i hgone
      obtain rfl := Option.some.inj hstep
      refine .after _ _ hgone trivial fun hframes _ => .used hgone rfl ?_
      have hmem := hframes.alive conn (hclosing ▸ List.mem_cons_self)
      exact Or.inl (Or.inr (Or.inr (List.ne_nil_of_mem hmem)))
    · rename_i hthere
      rw [Bool.not_eq_true] at hthere
      rw [Option.map_eq_some_iff] at hstep
      obtain ⟨client, hclient, rfl⟩ := hstep
      exact .before _ _ hthere hthere rfl trivial fun hpresent => present_step hpresent hclient

theorem stepped_of_step {s t : ClientTeardown} {op : TeardownOp} (hstep : s.step op = some t) :
    s.fault = false ∧ s.Stepped op t := by
  unfold step at hstep
  rw [Option.ite_none_left_eq_some, Bool.or_eq_true, not_or, Bool.not_eq_true,
    Bool.not_eq_true] at hstep
  obtain ⟨⟨hfault, hlive⟩, hstep⟩ := hstep
  refine ⟨hfault, ?_⟩
  cases op with
  | client op =>
      simp only [Option.ite_none_left_eq_some, Option.map_eq_some_iff, not_or,
        Bool.not_eq_true] at hstep
      obtain ⟨⟨hthere, -⟩, client, hclient, rfl⟩ := hstep
      exact .before _ _ hthere hthere rfl trivial fun hpresent => present_step hpresent hclient
  | destroy held =>
      simp only [Option.ite_none_right_eq_some, Option.some.injEq] at hstep
      obtain ⟨⟨hthere, -⟩, rfl⟩ := hstep
      exact .destroy held hthere hlive
  | loop op =>
      simp only [Option.ite_none_right_eq_some] at hstep
      obtain ⟨⟨hgone, -⟩, hstep⟩ := hstep
      exact .after _ _ hgone trivial fun _ hrest => passed_of_afterwards hgone hrest hstep
  | handleClose conn =>
      simp only [Option.ite_none_right_eq_some, Option.some.injEq] at hstep
      obtain ⟨-, rfl⟩ := hstep
      obtain ⟨hclient, hdestroyed, hdangling, hkept⟩ := s.kept_handleClose conn
      exact stepped_of_kept trivial hclient hdestroyed hdangling hkept
  | pushClose conn =>
      simp only [Option.ite_none_right_eq_some, Option.some.injEq] at hstep
      obtain ⟨-, rfl⟩ := hstep
      exact stepped_of_kept trivial (Or.inl rfl) rfl rfl rfl
  | runClose conn =>
      simp only [Option.ite_none_right_eq_some, Option.some.injEq] at hstep
      obtain ⟨-, rfl⟩ := hstep
      obtain ⟨hclient, hdestroyed, hdangling, hkept⟩ :=
        kept_handleClose { s with closes := s.closes.erase conn } conn
      exact stepped_of_kept trivial hclient hdestroyed hdangling hkept
  | closeReturns => exact stepped_of_closeReturns hstep

/-- After the destruction, while all has gone well, no function is left behind. -/
theorem Stage.rest_nil {s : ClientTeardown} (h : s.Stage) (hgone : s.destroyed = true)
    (hfault : s.fault = false) :
    s.client.connector.phase ≠ .calling → s.client.connector.rest = [] := by
  cases h with
  | before hthere => cases hthere.symm.trans hgone
  | after _ hrest => exact hrest
  | ended _ hended => cases hended.symm.trans hfault

theorem inv_step {s t : ClientTeardown} {op : TeardownOp} (h : s.Inv)
    (hstep : s.step op = some t) : t.Inv := by
  refine ⟨frames_step h.frames hstep, ?_⟩
  obtain ⟨hfault, hstepped⟩ := stepped_of_step hstep
  cases hstepped with
  | before _ _ hthere hthere' _ _ hpresent =>
      cases h.stage with
      | before _ hp => exact .before hthere' (hpresent hp)
      | after hgone | ended hgone => cases hthere.symm.trans hgone
  | destroy held hthere hlive =>
      cases h.stage with
      | before _ hpresent =>
          have hlinked := (hpresent.sound.resolve_left (Bool.eq_false_iff.mp hlive)).1
          exact .after rfl hlinked.rest_nil
      | after hgone | ended hgone => cases hthere.symm.trans hgone
  | after _ _ hgone _ hpassed =>
      cases hpassed h.frames (h.stage.rest_nil hgone hfault) with
      | moved hgone' _ _ _ hrest => exact .after hgone' hrest
      | used hgone' hfault' => exact .ended hgone' hfault'

/-- A destroyed client that something uses stays so until it is used. -/
theorem doomed_step {s t : ClientTeardown} {op : TeardownOp} (h : s.Inv) (hdoomed : s.Doomed)
    (hstep : s.step op = some t) (hharmless : t.Harmless) : t.Doomed := by
  obtain ⟨hgone, huse⟩ := hdoomed
  obtain ⟨hfault, hstepped⟩ := stepped_of_step hstep
  cases hstepped with
  | before _ _ hthere | destroy _ hthere => cases hthere.symm.trans hgone
  | after _ _ _ _ hpassed =>
      cases hpassed h.frames (h.stage.rest_nil hgone hfault) with
      | moved hgone' hdangling _ hiff _ =>
          refine ⟨hgone', ?_⟩
          rw [hiff, hdangling]
          exact huse
      | used _ hused => cases hharmless.symm.trans hused

/-- A client that is destroyed while something uses it is doomed. -/
theorem doomed_of_not_ok {s t : ClientTeardown} {op : TeardownOp} (hnot : ¬ s.Unused op)
    (hstep : s.step op = some t) : t.Doomed := by
  cases (stepped_of_step hstep).2 with
  | before _ _ _ _ _ hok | after _ _ _ hok => exact absurd hok hnot
  | destroy held hthere hlive =>
      refine ⟨rfl, ?_⟩
      by_cases huse : InUse s.client
      · exact Or.inl huse
      · refine Or.inr ?_
        by_contra hreported
        exact hnot ⟨huse, Bool.eq_false_iff.mpr hreported⟩

/-! ## Runs -/

theorem inv_init : Inv init where
  frames := ⟨List.nodup_nil, fun _ hconn => absurd hconn List.not_mem_nil,
    fun hne => absurd rfl hne⟩
  stage := .before rfl present_init

/-- What `closeCallback_` has interrupted can always go on. -/
theorem run_returns (ops : List TeardownOp) {s : ClientTeardown}
    (hrun : Runs.run step init ops = some s) (hne : s.closing ≠ []) (hharmless : s.Harmless)
    (hlive : s.client.connector.stopped = false) : ∃ t, s.step .closeReturns = some t := by
  have h : s.Inv :=
    (Runs.Along.of_invariant (P := Inv) (fun _ _ _ h hstep => inv_step h hstep) inv_init).final hrun
  obtain ⟨conn, rest, hclosing⟩ := List.exists_cons_of_ne_nil hne
  have halive : conn ∈ s.client.alive := h.frames.alive conn (hclosing ▸ List.mem_cons_self)
  have hfault : s.fault = false := hharmless
  unfold step
  simp only [hfault, hlive, Bool.or_self, Bool.false_eq_true, if_false, closeReturns, hclosing]
  split
  · exact ⟨_, rfl⟩
  · simp only [TcpClient.step, hlive, h.frames.running hne, halive, ne_eq, not_false_eq_true,
      and_self, if_true, Option.map_some]
    exact ⟨_, rfl⟩

/- A client that waits to try again is destroyed, and its timer fires. -/
example :
    ¬ Runs.Along step Harmless init
      [.client (.start (.answered ECONNREFUSED)), .destroy false, .loop .enter,
        .loop (.poll false), .loop (.retryTimer 0 .noSocket)] := by
  decide

/- One is destroyed in `closeCallback_` of its connection, and `rmConnCallback_` is called. -/
example :
    ¬ Runs.Along step Harmless init
      [.client (.start (.answered EINPROGRESS)), .client .enter, .client (.poll true),
        .client (.event 4 0), .client .swap, .client (.call .noSocket), .client (.turnDone false),
        .client (.poll false), .handleClose ⟨0, 0⟩, .destroy true, .closeReturns] := by
  decide

/- One that waits for its socket to be connected is destroyed at no risk. -/
example :
    Runs.Along step Harmless init
      [.client (.start (.answered EINPROGRESS)), .destroy false, .loop .enter,
        .loop (.poll false), .loop .swap] := by
  decide

end ClientTeardown

end Lotta
