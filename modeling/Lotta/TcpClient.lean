/-
# TcpClient: connecting again

A `TcpClient` owns a connector and the connection that `conn()` gives out.  `connect()` calls
`start()` of the connector; a socket that the connector hands over becomes a connection
(`newConnection`), and a connection that closes is taken out of `connection_`
(`removeConn`).  Nothing tells the connector that a connection has been closed: its state
stays `Connected`.

`connect()` is called only when no attempt is pending and `conn()` is null.  Even so the
assertion of `startTask` holds, and an attempt begins, exactly as long as there has been no
connection before (`run_reconnects`).
-/
import Lotta.ConnectorAttempts

namespace Lotta

/-- A connection of the client: its number, which is part of its name, and its socket. -/
structure ClientConnection where
  idx : ℕ
  fd : ℕ
  deriving DecidableEq, Repr

/-- The client.  `alive` are the connections that have not been closed.  `connects` counts
the calls of `connect()`, and `begun` the attempts that they have begun. -/
structure TcpClient where
  connector : Connector
  connection : Option ClientConnection
  connIdx : ℕ
  alive : List ClientConnection
  connects : ℕ
  begun : ℕ

/-- The steps: one of the connector, where `start()` is the call in `connect()`, and the end
of a connection, in `handleClose`. -/
inductive TcpClientOp where
  | loop (op : ConnectorOp)
  | handleClose (conn : ClientConnection)

/-- `connect()` on the thread of the loop, with the answer of the `connect` that it makes. -/
def TcpClientOp.connect (r : ConnectResult) : TcpClientOp := .loop (.start r)

/-- `connect()` on another thread. -/
def TcpClientOp.pushConnect : TcpClientOp := .loop .pushStart

/-- A retry timer fires. -/
def ConnectorOp.isRetry : ConnectorOp → Bool
  | .retryTimer _ _ => true
  | _ => false

namespace TcpClient

/-- A new client sets the callback of its connector. -/
def init : TcpClient where
  connector := Connector.init .ofOwner
  connection := none
  connIdx := 0
  alive := []
  connects := 0
  begun := 0

/-- No attempt is pending and `conn()` is null. -/
def MayConnect (s : TcpClient) : Prop :=
  .startTask ∉ s.connector.tasks ∧ s.connector.timers = [] ∧ s.connector.state ≠ .connecting ∧
    s.connection = none

instance : DecidablePred MayConnect := fun s =>
  inferInstanceAs (Decidable (.startTask ∉ s.connector.tasks ∧ s.connector.timers = [] ∧
    s.connector.state ≠ .connecting ∧ s.connection = none))

/-- `newConnection`. -/
def newConnection (s : TcpClient) (fd : ℕ) : TcpClient :=
  let conn : ClientConnection := ⟨s.connIdx, fd⟩
  { s with connIdx := s.connIdx + 1, alive := s.alive ++ [conn], connection := some conn }

/-- `removeConn`. -/
def removeConn (s : TcpClient) : TcpClient := { s with connection := none }

/-- `handleClose` of a connection, which ends with `removeConn`. -/
def handleClose (s : TcpClient) (conn : ClientConnection) : TcpClient :=
  { s with alive := s.alive.erase conn }.removeConn

/-- The connector has made a step to `c`, and may have handed over a socket. -/
def advance (s : TcpClient) (op : ConnectorOp) (c : Connector) : TcpClient :=
  let moved := { s with
    connector := c
    connects := if op.isStart then s.connects + 1 else s.connects
    begun := if op.isRetry then s.begun else s.begun + (c.attempts - s.connector.attempts) }
  match c.handed.drop s.connector.handed.length with
  | [] => moved
  | fd :: _ => moved.newConnection fd

/-- One step. -/
def step (s : TcpClient) : TcpClientOp → Option TcpClient
  | .loop op =>
      if op.isStart = true ∧ ¬ s.MayConnect then none
      else (s.connector.step op).map (s.advance op)
  | .handleClose conn =>
      if s.connector.stopped = false ∧ s.connector.phase ≠ .polling ∧ conn ∈ s.alive then
        some (s.handleClose conn)
      else none

/-- Every call of `connect()` has begun an attempt, or its `startTask` waits; no assertion
has failed. -/
def Reconnects (s : TcpClient) : Prop :=
  s.connector.stopped = false ∧ s.begun + s.connector.tasks.count .startTask = s.connects

instance : DecidablePred Reconnects := fun s =>
  inferInstanceAs (Decidable (s.connector.stopped = false ∧
    s.begun + s.connector.tasks.count .startTask = s.connects))

/-- `connect()` is called only before the first connection. -/
def FirstConnection (s : TcpClient) : TcpClientOp → Prop
  | .loop op => op.isStart = true → s.connIdx = 0
  | .handleClose _ => True

end TcpClient

/-! ## What a step of the connector does for the client -/

namespace Connector

variable {c d : Connector} {op : ConnectorOp}

/-- What the steps count, and when they hand over a socket. -/
structure Counts (c : Connector) (op : ConnectorOp) (d : Connector) : Prop where
  callback : d.connCallback = c.connCallback
  attempts : d.attempts + d.tasks.count .startTask =
    c.attempts + c.tasks.count .startTask + if op.isStart || op.isRetry then 1 else 0
  attempts_le : c.attempts ≤ d.attempts
  waiting : op.isRetry = true → d.tasks.count .startTask = c.tasks.count .startTask
  outcome : d.handed = c.handed ∧ (d.state = .connected ↔ c.state = .connected) ∨
    (∃ fd, d.handed = c.handed ++ [fd]) ∧ c.state ≠ .connected ∧ d.state = .connected

/-- A call of `startTask` from a connector that nothing drives begins an attempt, and hands
over nothing. -/
theorem Inv.startTask_begins (h : c.Inv) (hwork : c.work = 0) (r : ConnectResult) :
    (c.startTask r).attempts = c.attempts + 1 ∧ (c.startTask r).tasks = c.tasks ∧
      (c.startTask r).connCallback = c.connCallback ∧ (c.startTask r).handed = c.handed ∧
      ((c.startTask r).state = .connected ↔ c.state = .connected) := by
  obtain ⟨hstate, -, hchannel, -⟩ := h.idle hwork
  have hattempt := attempt_of_startTask hstate h.goesOn r
  generalize c.startTask r = d at hattempt ⊢
  cases hattempt with
  | noSocket => exact ⟨rfl, rfl, rfl, rfl, Iff.rfl⟩
  | other err _ => exact ⟨rfl, rfl, rfl, rfl, Iff.rfl⟩
  | connected err _ =>
      rw [connected_eq (show c.newSocket.channel = none from hchannel), hstate]
      exact ⟨rfl, rfl, rfl, rfl, by simp⟩
  | retry err _ =>
      rw [retry_eq (show c.newSocket.toQuit = false from h.goesOn), hstate]
      exact ⟨rfl, rfl, rfl, rfl, Iff.rfl⟩

/-- The three steps that call `startTask`, from `c'` on. -/
theorem Inv.counts_startTask {c' : Connector} (h : c'.Inv) (hwork : c'.work = 0)
    (r : ConnectResult) (hcallback : c'.connCallback = c.connCallback)
    (hattempts : c'.attempts = c.attempts) (hhanded : c'.handed = c.handed)
    (hstate : c'.state = c.state)
    (htasks : c'.tasks.count .startTask + 1 =
      c.tasks.count .startTask + if op.isStart || op.isRetry then 1 else 0)
    (hretry : op.isRetry = true → c'.tasks.count .startTask = c.tasks.count .startTask) :
    Counts c op (c'.startTask r) := by
  obtain ⟨hattempts', htasks', hcallback', hhanded', hstate'⟩ := h.startTask_begins hwork r
  rw [hattempts] at hattempts'
  refine ⟨hcallback'.trans hcallback, ?_, by omega, ?_, Or.inl ⟨hhanded'.trans hhanded, ?_⟩⟩
  · rw [hattempts', htasks']
    omega
  · rw [htasks']
    exact hretry
  · rw [hstate', hstate]

/-- A channel that is given up leaves the counts alone. -/
theorem count_giveUp (c : Connector) (ch : ConnectorChannel) :
    (c.giveUp ch).tasks.count .startTask = c.tasks.count .startTask := by
  rw [tasks_giveUp, List.count_append]
  rfl

/-- An event begins no attempt. -/
theorem Handled.counts {ch : ConnectorChannel} {revents : BitVec 32}
    (h : Handled c ch revents d) (howner : c.connCallback = .ofOwner)
    (hstate : c.state = .connecting) (hquit : c.toQuit = false) (hstart : op.isStart = false)
    (hretry : op.isRetry = false) : Counts c op d := by
  have hwaits := count_giveUp c ch
  have hne : c.state ≠ .connected := by
    rw [hstate]
    decide
  have hnone : (if op.isStart || op.isRetry then 1 else 0) = 0 := by
    rw [hstart, hretry]
    rfl
  cases h with
  | nothing _ _ => exact ⟨rfl, by rw [hnone]; rfl, le_rfl, fun _ => rfl, Or.inl ⟨rfl, Iff.rfl⟩⟩
  | failed _ =>
      rw [Connector.failed, retry_eq (show (c.giveUp ch).toQuit = false from hquit)]
      refine ⟨rfl, ?_, le_rfl, fun _ => hwaits,
        Or.inl ⟨rfl, iff_of_false (fun h => by cases h) hne⟩⟩
      rw [hnone]
      exact congrArg (c.attempts + ·) hwaits
  | established _ _ _ =>
      rw [established_eq howner]
      refine ⟨rfl, ?_, le_rfl, fun _ => hwaits, Or.inr ⟨⟨ch.fd, rfl⟩, hne, rfl⟩⟩
      rw [hnone]
      exact congrArg (c.attempts + ·) hwaits

theorem counts_of_step (h : c.Inv) (howner : c.connCallback = .ofOwner)
    (hstart : op.isStart = true → c.work = 0) (hstep : c.step op = some d) : Counts c op d := by
  cases (moves_of_step hstep).2 with
  | enter _ => exact ⟨rfl, rfl, le_rfl, fun _ => rfl, Or.inl ⟨rfl, Iff.rfl⟩⟩
  | poll _ _ _ => exact ⟨rfl, rfl, le_rfl, fun _ => rfl, Or.inl ⟨rfl, Iff.rfl⟩⟩
  | turnDone _ _ _ => exact ⟨rfl, rfl, le_rfl, fun _ => rfl, Or.inl ⟨rfl, Iff.rfl⟩⟩
  | swap hphase =>
      have htasks := h.tasks_swap hphase
      exact ⟨rfl, by rw [htasks]; rfl, le_rfl, fun _ => by rw [htasks], Or.inl ⟨rfl, Iff.rfl⟩⟩
  | pushStart =>
      have htasks : c.pushStart.tasks = c.tasks ++ [.startTask] := (List.append_assoc _ _ _).symm
      refine ⟨rfl, ?_, le_rfl, fun hretry => Bool.noConfusion hretry, Or.inl ⟨rfl, Iff.rfl⟩⟩
      rw [htasks, List.count_append]
      rfl
  | event revents err ch _ hch hregistered =>
      have h' : ({ c with active := false, pendingErr := err } : Connector).Inv := { h with }
      have hstate := h'.state_of_registered hch hregistered
      have hcounts : Counts _ (.event revents err) _ :=
        (h'.handled hch hregistered revents).counts howner hstate h'.goesOn rfl rfl
      exact { hcounts with }
  | retryTimer setIn r _ hmem hlater =>
      obtain ⟨h', hwork⟩ := h.of_retryTimer hmem hlater
      exact h'.counts_startTask hwork r rfl rfl rfl rfl rfl fun _ => rfl
  | start r _ =>
      have h' : ({ c with toQuit := false } : Connector).Inv := { h with goesOn := rfl }
      exact h'.counts_startTask (hstart rfl) r rfl rfl rfl rfl rfl fun _ => rfl
  | call r a rest hphase hrest =>
      cases a with
      | startTask =>
          obtain ⟨h', hwork⟩ := h.of_startTask hphase hrest
          refine h'.counts_startTask hwork r rfl rfl rfl rfl ?_ fun hretry => by cases hretry
          rw [tasks_cons hrest, List.count_cons_self]
          rfl
      | resetChannel =>
          have hwaits : c.tasks.count .startTask = (rest ++ c.queue).count .startTask := by
            rw [tasks_cons hrest]
            rfl
          exact ⟨rfl, congrArg (c.attempts + ·) hwaits.symm, le_rfl, fun _ => hwaits.symm,
            Or.inl ⟨rfl, Iff.rfl⟩⟩

/-- A connector whose state is `Connected` does not start again: a call of `startTask` waits
until its assertion fails. -/
theorem stuck_step (h : c.Linked) (hstate : c.state = .connected)
    (hwaits : .startTask ∈ c.tasks ∨ op.isStart = true) (hstep : c.step op = some d) :
    d.stopped = true ∨ .startTask ∈ d.tasks ∧ d.state = .connected := by
  have hfails : ∀ c' : Connector, c'.state = c.state → ∀ r, (c'.startTask r).stopped = true := by
    intro c' hc' r
    rw [startTask_abort (by rw [hc', hstate]; decide)]
    rfl
  cases (moves_of_step hstep).2 with
  | retryTimer setIn r _ _ _ =>
      exact Or.inl (hfails { c with timers := c.timers.erase setIn } rfl r)
  | start r _ => exact Or.inl (hfails { c with toQuit := false } rfl r)
  | pushStart =>
      refine Or.inr ⟨?_, hstate⟩
      exact List.mem_append_right _ (List.mem_append_right _ (List.mem_singleton_self _))
  | event revents err ch _ hch hregistered =>
      have hconnecting := h.state_of_registered hch hregistered
      rw [hstate] at hconnecting
      cases hconnecting
  | enter _ => exact Or.inr ⟨hwaits.resolve_right Bool.noConfusion, hstate⟩
  | poll _ _ _ => exact Or.inr ⟨hwaits.resolve_right Bool.noConfusion, hstate⟩
  | turnDone _ _ _ => exact Or.inr ⟨hwaits.resolve_right Bool.noConfusion, hstate⟩
  | swap hphase =>
      rw [h.tasks_swap hphase]
      exact Or.inr ⟨hwaits.resolve_right Bool.noConfusion, hstate⟩
  | call r a rest _ hrest =>
      cases a with
      | startTask => exact Or.inl (hfails { c with rest := rest } rfl r)
      | resetChannel =>
          have hmem := hwaits.resolve_right Bool.noConfusion
          rw [tasks_cons hrest, List.mem_cons] at hmem
          exact Or.inr ⟨hmem.resolve_left (fun h => by cases h), hstate⟩

end Connector

/-! ## Runs of a client -/

namespace TcpClient

/-- What every step keeps while `connect()` is called only before the first connection. -/
structure Good (s : TcpClient) : Prop where
  connector : s.connector.Inv
  ofOwner : s.connector.connCallback = .ofOwner
  connIdx_iff : s.connIdx = 0 ↔ s.connector.state ≠ .connected

/-- A call of `connect()` waits that will run into the assertion of `startTask`. -/
def Doomed (s : TcpClient) : Prop :=
  .startTask ∈ s.connector.tasks ∧ s.connector.state = .connected

theorem good_init : Good init where
  connector := Connector.inv_init _
  ofOwner := rfl
  connIdx_iff := iff_of_true rfl nofun

theorem Good.not_doomed {s : TcpClient} (h : s.Good) : ¬ s.Doomed := by
  rintro ⟨hmem, hstate⟩
  have hpos := List.count_pos_iff.mpr hmem
  have hwork := h.connector.work_le
  simp only [Connector.work, Connector.settled, hstate, if_true] at hwork
  omega

/-- Before the first connection nothing drives a connector when `connect()` is called. -/
theorem Good.work_of_mayConnect {s : TcpClient} (h : s.Good) (hmay : s.MayConnect)
    (hidx : s.connIdx = 0) : s.connector.work = 0 := by
  obtain ⟨hstart, htimers, hconnecting, -⟩ := hmay
  simp [Connector.work, Connector.attempting, Connector.settled, List.count_eq_zero.mpr hstart,
    htimers, hconnecting, h.connIdx_iff.mp hidx]

theorem connector_advance (s : TcpClient) (op : ConnectorOp) (c : Connector) :
    (s.advance op c).connector = c := by
  rw [advance]
  split
  · rfl
  · rfl

theorem connects_advance (s : TcpClient) (op : ConnectorOp) (c : Connector) :
    (s.advance op c).connects = if op.isStart then s.connects + 1 else s.connects := by
  rw [advance]
  split
  · rfl
  · rfl

theorem begun_advance (s : TcpClient) (op : ConnectorOp) (c : Connector) :
    (s.advance op c).begun =
      if op.isRetry then s.begun else s.begun + (c.attempts - s.connector.attempts) := by
  rw [advance]
  split
  · rfl
  · rfl

theorem connIdx_advance {s : TcpClient} {op : ConnectorOp} {c : Connector}
    (h : s.connector.Counts op c) (hiff : s.connIdx = 0 ↔ s.connector.state ≠ .connected) :
    (s.advance op c).connIdx = 0 ↔ c.state ≠ .connected := by
  rw [advance]
  rcases h.outcome with ⟨hhanded, hstate⟩ | ⟨⟨fd, hhanded⟩, -, hstate⟩
  · rw [hhanded, List.drop_length, Ne, hstate]
    exact hiff
  · rw [hhanded, List.drop_left]
    exact iff_of_false (Nat.succ_ne_zero _) fun hne => hne hstate

/-- Every attempt is one of a retry timer, or of a call of `connect()`. -/
theorem account_advance {s : TcpClient} {op : ConnectorOp} {c : Connector}
    (h : s.connector.Counts op c)
    (hbegun : s.begun + s.connector.tasks.count .startTask = s.connects) :
    (s.advance op c).begun + c.tasks.count .startTask = (s.advance op c).connects := by
  have hattempts := h.attempts
  have hle := h.attempts_le
  rw [begun_advance, connects_advance]
  cases hretry : op.isRetry with
  | true =>
      have hstart : op.isStart = false := by
        cases op with
        | retryTimer setIn r => rfl
        | _ => cases hretry
      rw [h.waiting hretry, hstart]
      exact hbegun
  | false =>
      rw [hretry, Bool.or_false] at hattempts
      cases hstart : op.isStart with
      | true =>
          rw [hstart, if_pos rfl] at hattempts
          simp only [Bool.false_eq_true, if_false, if_true]
          omega
      | false =>
          rw [hstart, if_neg Bool.false_ne_true] at hattempts
          simp only [Bool.false_eq_true, if_false]
          omega

/-- The steps of a client are those of its connector, and the ends of its connections. -/
inductive Moves (s : TcpClient) : TcpClientOp → TcpClient → Prop where
  | loop (op : ConnectorOp) (c : Connector) (hmay : op.isStart = true → s.MayConnect)
      (hstep : s.connector.step op = some c) : Moves s (.loop op) (s.advance op c)
  | handleClose (conn : ClientConnection) : Moves s (.handleClose conn) (s.handleClose conn)

theorem moves_of_step {s t : TcpClient} {op : TcpClientOp} (h : s.step op = some t) :
    s.connector.stopped = false ∧ Moves s op t := by
  cases op with
  | loop op =>
      simp only [step, Option.ite_none_left_eq_some, Option.map_eq_some_iff] at h
      obtain ⟨hmay, c, hstep, rfl⟩ := h
      refine ⟨(Connector.moves_of_step hstep).1, .loop op c (fun hop => ?_) hstep⟩
      exact not_not.mp fun hnot => hmay ⟨hop, hnot⟩
  | handleClose conn =>
      simp only [step, Option.ite_none_right_eq_some, Option.some.injEq] at h
      obtain ⟨⟨hlive, -, -⟩, rfl⟩ := h
      exact ⟨hlive, .handleClose conn⟩

/-- A step that meets the condition keeps the account of the attempts. -/
theorem good_step {s t : TcpClient} {op : TcpClientOp} (h : s.Good) (hok : s.FirstConnection op)
    (hstep : s.step op = some t) : t.Good ∧ (s.Reconnects → t.Reconnects) := by
  cases (moves_of_step hstep).2 with
  | handleClose conn => exact ⟨{ h with }, id⟩
  | loop op c hmay hconnector =>
      have hstart : op.isStart = true → s.connector.work = 0 := fun hop =>
        h.work_of_mayConnect (hmay hop) (hok hop)
      have hcounts := Connector.counts_of_step h.connector h.ofOwner hstart hconnector
      have hinv := Connector.inv_step h.connector hstart hconnector
      have hc := connector_advance s op c
      refine ⟨⟨by rw [hc]; exact hinv, by rw [hc]; exact hcounts.callback.trans h.ofOwner, ?_⟩, ?_⟩
      · rw [hc]
        exact connIdx_advance hcounts h.connIdx_iff
      · rintro ⟨-, hbegun⟩
        refine ⟨by rw [hc]; exact hinv.live, ?_⟩
        rw [hc]
        exact account_advance hcounts hbegun

/-- After the first connection a call of `connect()` fails, at once or when it runs. -/
theorem doomed_step {s t : TcpClient} {op : TcpClientOp} (h : s.connector.Linked)
    (hstate : s.connector.state = .connected)
    (hwaits : s.Doomed ∨ ∃ cop, op = .loop cop ∧ cop.isStart = true) (hstep : s.step op = some t) :
    t.connector.stopped = true ∨ t.Doomed := by
  cases (moves_of_step hstep).2 with
  | handleClose conn =>
      rcases hwaits with hdoomed | ⟨cop, hcop, -⟩
      · exact Or.inr hdoomed
      · cases hcop
  | loop op c hmay hconnector =>
      rw [Doomed, connector_advance]
      refine Connector.stuck_step h hstate (hwaits.imp And.left ?_) hconnector
      rintro ⟨cop, hcop, hstart⟩
      cases hcop
      exact hstart

/-- A call of `connect()` after the first connection. -/
theorem Good.doomed_of_not_ok {s t : TcpClient} {op : TcpClientOp} (h : s.Good)
    (hnot : ¬ s.FirstConnection op) (hstep : s.step op = some t) :
    t.connector.stopped = true ∨ t.Doomed := by
  cases op with
  | handleClose conn => exact absurd trivial hnot
  | loop cop =>
      obtain ⟨hstart, hidx⟩ := Classical.not_imp.mp hnot
      have hstate : s.connector.state = .connected := not_not.mp (mt h.connIdx_iff.mpr hidx)
      exact doomed_step h.connector.toLinked hstate (Or.inr ⟨cop, rfl, hstart⟩) hstep

/-- What holds in every run: an assertion has failed, or all is well, or one will fail. -/
def Sound (s : TcpClient) : Prop :=
  s.connector.stopped = true ∨ s.connector.Linked ∧ (s.Good ∨ s.Doomed)

theorem Sound.live {s t : TcpClient} {op : TcpClientOp} (h : s.Sound)
    (hstep : s.step op = some t) : s.connector.Linked ∧ (s.Good ∨ s.Doomed) :=
  h.resolve_left (Bool.eq_false_iff.mp (moves_of_step hstep).1)

theorem linked_step {s t : TcpClient} {op : TcpClientOp} (h : s.connector.Linked)
    (hstep : s.step op = some t) : t.connector.stopped = true ∨ t.connector.Linked := by
  cases (moves_of_step hstep).2 with
  | handleClose conn => exact Or.inr h
  | loop op c _ hconnector =>
      rw [connector_advance]
      exact Connector.linked_step h hconnector

theorem sound_step {s t : TcpClient} {op : TcpClientOp} (h : s.Sound)
    (hstep : s.step op = some t) : t.Sound := by
  obtain ⟨hlinked, hstate⟩ := h.live hstep
  have hpath : t.connector.stopped = true ∨ t.Good ∨ t.Doomed := by
    rcases hstate with hgood | hdoomed
    · by_cases hok : s.FirstConnection op
      · exact Or.inr (Or.inl (good_step hgood hok hstep).1)
      · exact (hgood.doomed_of_not_ok hok hstep).imp_right Or.inr
    · exact (doomed_step hlinked hdoomed.2 (Or.inl hdoomed) hstep).imp_right Or.inr
  rcases linked_step hlinked hstep with hstopped | hlinked'
  · exact Or.inl hstopped
  · exact hpath.imp_right fun hp => ⟨hlinked', hp⟩

/-- Calls of `connect()` made before the first connection all begin an attempt, whatever else
happens.  A later one does not: when its `startTask` has run, the assertion has failed. -/
theorem run_reconnects (ops : List TcpClientOp) :
    (Runs.AllSteps step FirstConnection init ops → Runs.Along step Reconnects init ops) ∧
      ∀ t, Runs.run step init ops = some t → .startTask ∉ t.connector.tasks →
        Runs.Along step Reconnects init ops → Runs.AllSteps step FirstConnection init ops := by
  have hrule := Runs.along_of_doomed step FirstConnection Sound Reconnects Doomed
    (fun _ _ _ => sound_step) ?_ ?_ ?_
    (Or.inr ⟨Connector.linked_init _, Or.inl good_init⟩) ⟨rfl, rfl⟩ good_init.not_doomed ops
  · exact ⟨hrule.1, fun t hrun hmem => hrule.2 t hrun fun hdoomed => hmem hdoomed.1⟩
  · intro s op t h hp hsafe hok hstep
    have hgood := (h.live hstep).2.resolve_right hsafe
    obtain ⟨hgood', haccount⟩ := good_step hgood hok hstep
    exact ⟨haccount hp, hgood'.not_doomed⟩
  · intro s op t h hsafe hnot hstep hp
    have hgood := (h.live hstep).2.resolve_right hsafe
    exact (hgood.doomed_of_not_ok hnot hstep).resolve_left (Bool.eq_false_iff.mp hp.1)
  · intro s op t h hdoomed hstep hp
    have hlinked := (h.live hstep).1
    exact (doomed_step hlinked hdoomed.2 (Or.inl hdoomed) hstep).resolve_left
      (Bool.eq_false_iff.mp hp.1)

/-- A client connects, loses its connection and connects again: an assertion fails. -/
theorem not_reconnects_afterClose :
    ¬ Runs.Along step Reconnects init
      [.connect (.answered EINPROGRESS), .loop .enter, .loop (.poll true), .loop (.event pollOut 0),
        .handleClose ⟨0, 0⟩, .connect (.answered EINPROGRESS)] := by
  decide

/-- The same with a call on another thread, which fails when its task runs. -/
example :
    ¬ Runs.Along step Reconnects init
      [.connect (.answered EINPROGRESS), .loop .enter, .loop (.poll true), .loop (.event pollOut 0),
        .handleClose ⟨0, 0⟩, .pushConnect, .loop .swap, .loop (.call .noSocket),
        .loop (.call .noSocket)] := by
  decide

end TcpClient

end Lotta
