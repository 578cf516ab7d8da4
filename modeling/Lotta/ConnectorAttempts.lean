/-
# One attempt at a time

State, channel, the function in the task queue that resets the channel, and the retry timer
of a connector evolve together.  `Inv` ties them: at most one thing at a time drives the
connector on (a call of `startTask` that waits, a retry timer, a channel that waits for its
socket) or is its final result; a channel that has been given up stays in `channel_` only
until the function that resets it has run; and a retry timer that was set next to such a
channel was set in this turn of the loop, so that it fires after that function.

The invariant is kept by every step, as long as `start()` is called only when nothing drives
the connector (`inv_step`).  An owner that calls it once keeps to that (`run_oneAttempt`).
-/
import Lotta.Connector
import Lotta.Lib.Runs

namespace Lotta

namespace Connector

/-! ## What drives a connector -/

/-- One while a channel waits for its socket. -/
def attempting (c : Connector) : ℕ := if c.state = .connecting then 1 else 0

/-- One when a socket has been connected. -/
def settled (c : Connector) : ℕ := if c.state = .connected then 1 else 0

/-- The number of things that drive the connector on or are its result. -/
def work (c : Connector) : ℕ :=
  c.tasks.count .startTask + c.timers.length + c.attempting + c.settled

/-- The time that the `k`-th retry waits. -/
def backoffSec (k : ℕ) : ℕ := min (2 ^ k) 30

/-- What every step keeps. -/
structure Inv (c : Connector) : Prop extends Linked c where
  live : c.stopped = false
  work_le : c.work ≤ 1
  busy : c.channel.isSome → c.timers.length + c.attempting + c.settled = 1
  fresh : c.givenUp = 1 → ∀ n ∈ c.timers, n = c.turn
  queued : c.phase ≠ .handling → .resetChannel ∉ c.queue
  timeout : c.retryTimeoutSec = backoffSec c.delays.length
  delays : c.delays = (List.range c.delays.length).map backoffSec

theorem inv_init (connCallback : ConnCallback) : Inv (init connCallback) where
  toLinked := linked_init connCallback
  live := rfl
  work_le := Nat.zero_le 1
  busy := by simp [init]
  fresh := by simp [init]
  queued := by simp [init]
  timeout := rfl
  delays := rfl

theorem backoffSec_succ (k : ℕ) : backoffSec (k + 1) = min (backoffSec k * 2) 30 := by
  rw [backoffSec, backoffSec, pow_succ]
  omega

/-- The state of a connector that nothing drives. -/
structure Idle (c : Connector) : Prop where
  state : c.state = .disconnected
  timers : c.timers = []
  channel : c.channel = none
  tasks : c.tasks = []

theorem Inv.idle {c : Connector} (h : c.Inv) (hwork : c.work = 0) : c.Idle := by
  simp only [work, Nat.add_eq_zero_iff, attempting, settled, ite_eq_right_iff] at hwork
  obtain ⟨⟨⟨hstart, htimers⟩, hconnecting⟩, hconnected⟩ := hwork
  have hstate : c.state = .disconnected := by
    cases hs : c.state with
    | connecting => exact absurd (hconnecting hs) Nat.one_ne_zero
    | connected => exact absurd (hconnected hs) Nat.one_ne_zero
    | disconnected => rfl
  have hchannel : c.channel = none := by
    by_contra hne
    have hbusy := h.busy (Option.isSome_iff_ne_none.mpr hne)
    simp [attempting, settled, hstate, htimers] at hbusy
  have hreset : c.tasks.count .resetChannel = 0 := by
    rw [h.resets, givenUp, hchannel]
    rfl
  refine ⟨hstate, List.length_eq_zero_iff.mp htimers, hchannel, ?_⟩
  rw [List.eq_nil_iff_forall_not_mem]
  intro a
  cases a with
  | startTask => exact List.count_eq_zero.mp hstart
  | resetChannel => exact List.count_eq_zero.mp hreset

/-! ## What the functions keep -/

/-- The sequence of the delays goes on. -/
theorem Inv.backoff {c : Connector} (h : c.Inv) :
    min (c.retryTimeoutSec * 2) kMaxRetrySec = backoffSec (c.delays ++ [c.retryTimeoutSec]).length ∧
      c.delays ++ [c.retryTimeoutSec] =
        (List.range (c.delays ++ [c.retryTimeoutSec]).length).map backoffSec := by
  rw [List.length_append, List.length_singleton, backoffSec_succ, ← h.timeout, List.range_succ,
    List.map_append, ← h.delays, List.map_singleton, ← h.timeout]
  exact ⟨rfl, rfl⟩

/-- A call of `startTask` when nothing drives the connector passes its assertion, and
`connected` passes its own. -/
theorem Inv.startTask {c : Connector} (h : c.Inv) (hwork : c.work = 0) (r : ConnectResult) :
    (c.startTask r).Inv := by
  obtain ⟨hstate, htimers, hchannel, htasks⟩ := h.idle hwork
  have hrest : c.rest = [] := (List.append_eq_nil_iff.mp htasks).1
  have hqueue : c.queue = [] := (List.append_eq_nil_iff.mp htasks).2
  have hidle : c.newSocket.state ≠ .connecting := by
    show c.state ≠ .connecting
    rw [hstate]
    decide
  have hsocket : c.newSocket.Inv := { h with }
  have hattempt := attempt_of_startTask hstate h.goesOn r
  generalize c.startTask r = d at hattempt ⊢
  cases hattempt with
  | noSocket => exact { h with }
  | other err _ => exact hsocket
  | connected err _ =>
      have hlinked := hsocket.toLinked.connected hchannel c.created
      rw [connected_eq (show c.newSocket.channel = none from hchannel)] at hlinked ⊢
      exact { hsocket with
        toLinked := hlinked
        work_le := by simp [newSocket, work, tasks, hrest, hqueue, htimers, attempting, settled]
        busy := by simp [newSocket, htimers, attempting, settled]
        fresh := by simp [givenUp, registered] }
  | retry err _ =>
      obtain ⟨htimeout, hdelays⟩ := h.backoff
      have hlinked := hsocket.toLinked.retry hidle c.created
      rw [retry_eq (show c.newSocket.toQuit = false from h.goesOn)] at hlinked ⊢
      exact { hsocket with
        toLinked := hlinked
        work_le := by simp [newSocket, work, tasks, hrest, hqueue, htimers, attempting, settled]
        busy := by simp [newSocket, hchannel]
        fresh := by simp [newSocket, givenUp, hchannel]
        timeout := htimeout
        delays := hdelays }

/-- A registered channel is all that drives the connector. -/
theorem Inv.waiting {c : Connector} (h : c.Inv) {ch : ConnectorChannel}
    (hch : c.channel = some ch) (hregistered : ch.registered = true) :
    c.timers = [] ∧ c.tasks.count .startTask = 0 := by
  have hwork := h.work_le
  simp only [work, attempting, h.state_of_registered hch hregistered, if_true] at hwork
  exact ⟨List.length_eq_zero_iff.mp (by omega), by omega⟩

/-- The channel is given up because its attempt has failed. -/
theorem Inv.failed {c : Connector} (h : c.Inv) {ch : ConnectorChannel}
    (hch : c.channel = some ch) (hregistered : ch.registered = true)
    (hphase : c.phase = .handling) : (c.failed ch).Inv := by
  obtain ⟨htimers, hstart⟩ := h.waiting hch hregistered
  obtain ⟨htimeout, hdelays⟩ := h.backoff
  have hlinked := h.toLinked.failed hch hregistered
  rw [Connector.failed, retry_eq (show (c.giveUp ch).toQuit = false from h.goesOn)] at hlinked ⊢
  refine { h with
    toLinked := hlinked
    work_le := ?_, busy := fun _ => ?_, fresh := fun _ => ?_
    queued := fun hne => absurd hphase hne
    timeout := htimeout
    delays := hdelays }
  · show (c.giveUp ch).tasks.count .startTask + (c.timers ++ [c.turn]).length + 0 + 0 ≤ 1
    simp [tasks_giveUp, hstart, htimers]
  · show (c.timers ++ [c.turn]).length + 0 + 0 = 1
    simp [htimers]
  · show ∀ n ∈ c.timers ++ [c.turn], n = c.turn
    simp [htimers]

/-- The channel is given up because its socket is connected. -/
theorem Inv.established {c : Connector} (h : c.Inv) {ch : ConnectorChannel}
    (hch : c.channel = some ch) (hregistered : ch.registered = true)
    (hphase : c.phase = .handling) : (c.established ch).Inv := by
  obtain ⟨htimers, hstart⟩ := h.waiting hch hregistered
  have hgiven : ({ c.giveUp ch with state := .connected } : Connector).Inv := by
    refine { h with
      toLinked := h.toLinked.settle hch hregistered
      work_le := ?_, busy := fun _ => ?_, fresh := fun _ => ?_
      queued := fun hne => absurd hphase hne }
    · show (c.giveUp ch).tasks.count .startTask + c.timers.length + 0 + 1 ≤ 1
      simp [tasks_giveUp, hstart, htimers]
    · show c.timers.length + 0 + 1 = 1
      simp [htimers]
    · show ∀ n ∈ c.timers, n = c.turn
      simp [htimers]
  rw [Connector.established, callConnCallback]
  split
  · exact { hgiven with }
  · exact { hgiven with }
  · exact hgiven

/-! ## What the steps keep -/

/-- Where no function that resets the channel is left, none is awaited. -/
theorem Inv.givenUp_eq_zero {c : Connector} (h : c.Inv) (hrest : c.rest = [])
    (hqueue : .resetChannel ∉ c.queue) : c.givenUp = 0 := by
  rw [← h.resets, tasks, hrest, List.nil_append]
  exact List.count_eq_zero.mpr hqueue

/-- The retry timer was set in an earlier turn, so the channel of its attempt is gone. -/
theorem Inv.of_retryTimer {c : Connector} (h : c.Inv) {setIn : ℕ} (hmem : setIn ∈ c.timers)
    (hlater : setIn < c.turn) :
    ({ c with timers := c.timers.erase setIn } : Connector).Inv ∧
      ({ c with timers := c.timers.erase setIn } : Connector).work = 0 := by
  have hpos := List.length_pos_of_mem hmem
  have hlen := List.length_erase_of_mem hmem
  have hwork := h.work_le
  have hzero : ({ c with timers := c.timers.erase setIn } : Connector).work = 0 := by
    simp only [work] at hwork
    show c.tasks.count .startTask + (c.timers.erase setIn).length + c.attempting + c.settled = 0
    omega
  have hchannel : c.channel = none := by
    cases hch : c.channel with
    | none => rfl
    | some ch =>
        exfalso
        by_cases hregistered : ch.registered = true
        · rw [(h.waiting hch hregistered).1] at hmem
          exact List.not_mem_nil hmem
        · have hgiven : c.givenUp = 1 := by simp [givenUp, registered, hch, hregistered]
          exact absurd (h.fresh hgiven setIn hmem) hlater.ne
  refine ⟨{ h with work_le := by omega, busy := ?_, fresh := ?_ }, hzero⟩
  · simp [hchannel]
  · intro _ n hn
    have hnil : c.timers.erase setIn = [] := by
      simp only [work] at hwork
      exact List.length_eq_zero_iff.mp (by omega)
    rw [hnil] at hn
    exact absurd hn List.not_mem_nil

/-- A call of `startTask` that has waited in the queue is all that drives the connector. -/
theorem Inv.of_startTask {c : Connector} (h : c.Inv) {rest : List ConnectorTask}
    (hphase : c.phase = .calling) (hrest : c.rest = .startTask :: rest) :
    ({ c with rest := rest } : Connector).Inv ∧ ({ c with rest := rest } : Connector).work = 0 := by
  have hwork := h.work_le
  simp only [work, tasks_cons hrest, List.count_cons_self] at hwork
  have hzero : ({ c with rest := rest } : Connector).work = 0 := by
    show (rest ++ c.queue).count .startTask + c.timers.length + c.attempting + c.settled = 0
    omega
  exact ⟨{ h with toLinked := h.toLinked.popStartTask hphase hrest, work_le := by omega }, hzero⟩

/-- The function that resets the channel runs: the channel had been given up. -/
theorem Inv.resetChannel {c : Connector} (h : c.Inv) {rest : List ConnectorTask}
    (hphase : c.phase = .calling) (hrest : c.rest = .resetChannel :: rest) :
    ({ c with rest := rest, channel := none } : Connector).Inv := by
  have hwork := h.work_le
  have hstart : c.tasks.count .startTask = (rest ++ c.queue).count .startTask := by
    rw [tasks_cons hrest]
    rfl
  simp only [work, hstart] at hwork
  exact { h with
    toLinked := h.toLinked.resetChannel hphase hrest
    work_le := hwork
    busy := fun hsome => by cases hsome
    fresh := fun hone => absurd hone Nat.zero_ne_one }

/-- Every step keeps the invariant; `start()` is called only when nothing drives the
connector. -/
theorem inv_step {c d : Connector} {op : ConnectorOp} (h : c.Inv)
    (hstart : op.isStart = true → c.work = 0) (hstep : c.step op = some d) : d.Inv := by
  have hlinked : d.stopped = false → d.Linked := fun hlive =>
    (linked_step h.toLinked hstep).resolve_left (Bool.eq_false_iff.mp hlive)
  cases (moves_of_step hstep).2 with
  | enter hphase =>
      have hhandling : c.phase ≠ .handling := by rw [hphase]; decide
      exact { h with toLinked := hlinked h.live, queued := fun _ => h.queued hhandling }
  | poll active hphase _ =>
      have hhandling : c.phase ≠ .handling := by rw [hphase]; decide
      have hcalling : c.phase ≠ .calling := by rw [hphase]; decide
      -- nothing waits to be reset when a turn begins
      have hzero := h.givenUp_eq_zero (h.rest_nil hcalling) (h.queued hhandling)
      exact { h with
        toLinked := hlinked h.live
        fresh := fun hone => absurd (hzero.symm.trans hone) Nat.zero_ne_one
        queued := fun hne => absurd rfl hne }
  | event revents err ch hphase hch hregistered =>
      have h' : ({ c with active := false, pendingErr := err } : Connector).Inv := { h with }
      have hhandled := h'.handled hch hregistered revents
      generalize handleEvent _ revents = d at hhandled ⊢
      cases hhandled with
      | failed _ => exact h'.failed hch hregistered hphase
      | established _ _ _ => exact h'.established hch hregistered hphase
      | nothing _ _ => exact h'
  | retryTimer setIn r _ hmem hlater =>
      obtain ⟨h', hwork⟩ := h.of_retryTimer hmem hlater
      exact h'.startTask hwork r
  | start r _ =>
      have h' : ({ c with toQuit := false } : Connector).Inv := { h with goesOn := rfl }
      exact h'.startTask (hstart rfl) r
  | pushStart =>
      obtain ⟨hstate, htimers, hchannel, htasks⟩ := h.idle (hstart rfl)
      obtain ⟨hrest, hqueue⟩ := List.append_eq_nil_iff.mp htasks
      exact { h with
        toLinked := hlinked h.live
        work_le := by
          simp [pushStart, pushQueue, work, tasks, hrest, hqueue, htimers, attempting, settled,
            hstate]
        queued := fun _ => by simp [pushStart, pushQueue, hqueue] }
  | swap hphase =>
      exact { h with
        toLinked := hlinked h.live
        work_le := by rw [work, h.tasks_swap hphase]; exact h.work_le
        queued := fun _ => List.not_mem_nil }
  | call r a rest hphase hrest =>
      cases a with
      | startTask =>
          obtain ⟨h', hwork⟩ := h.of_startTask hphase hrest
          exact h'.startTask hwork r
      | resetChannel => exact h.resetChannel hphase hrest
  | turnDone quit hphase hrest =>
      exact { h with
        toLinked := hlinked h.live
        queued := fun _ => h.queued (by rw [hphase]; decide) }

/-- A connector that nothing drives stays so until `start()` is called. -/
theorem idle_step {c d : Connector} {op : ConnectorOp} (h : c.Inv) (hwork : c.work = 0)
    (hop : op.isStart = false) (hstep : c.step op = some d) : d.work = 0 := by
  obtain ⟨hstate, htimers, hchannel, htasks⟩ := h.idle hwork
  obtain ⟨hrest, hqueue⟩ := List.append_eq_nil_iff.mp htasks
  cases (moves_of_step hstep).2 with
  | enter _ => exact hwork
  | poll _ _ _ => exact hwork
  | event _ _ ch _ hch _ => rw [hchannel] at hch; cases hch
  | retryTimer setIn _ _ hmem _ => rw [htimers] at hmem; exact absurd hmem List.not_mem_nil
  | start _ _ => cases hop
  | pushStart => cases hop
  | swap _ => simp [work, tasks, hqueue, htimers, attempting, settled, hstate]
  | call _ a rest _ hcons => rw [hrest] at hcons; cases hcons
  | turnDone _ _ _ => exact hwork

/-! ## What holds at every moment -/

/-- At most one of these exists: a retry timer, a channel in the state `Connecting`, a
connected result. -/
def AtMostOne (c : Connector) : Prop :=
  c.timers.length + (if c.channel.isSome ∧ c.state = .connecting then 1 else 0) +
    (if c.state = .connected then 1 else 0) ≤ 1

/-- The retries have been scheduled with the delays 1, 2, 4, 8, 16, 30, 30, … -/
def BacksOff (c : Connector) : Prop := ∀ k sec, c.delays[k]? = some sec → sec = min (2 ^ k) 30

theorem Inv.atMostOne {c : Connector} (h : c.Inv) : c.AtMostOne := by
  have hwork := h.work_le
  have hle : (if c.channel.isSome ∧ c.state = .connecting then 1 else 0) ≤ c.attempting := by
    rw [attempting]
    split
    · rename_i hboth
      rw [if_pos hboth.2]
    · exact Nat.zero_le _
  simp only [work, settled] at hwork
  rw [AtMostOne]
  omega

theorem Inv.backsOff {c : Connector} (h : c.Inv) : c.BacksOff := by
  intro k sec hsec
  rw [h.delays, List.getElem?_map, Option.map_eq_some_iff] at hsec
  obtain ⟨j, hj, rfl⟩ := hsec
  obtain ⟨hlt, rfl⟩ := List.getElem?_eq_some_iff.mp hj
  rw [List.getElem_range]
  rfl

end Connector

/-! ## One call of `start()` -/

/-- A connector whose owner calls `start()` once. -/
structure OneStart where
  connector : Connector
  started : Bool

namespace OneStart

/-- A new connector, whose owner has set `connCallback_`. -/
def init : OneStart := ⟨Connector.init .ofOwner, false⟩

/-- One step. -/
def step (s : OneStart) (op : ConnectorOp) : Option OneStart :=
  if op.isStart = true ∧ s.started = true then none
  else (s.connector.step op).map fun c => ⟨c, s.started || op.isStart⟩

/-- The invariant, and that nothing drives the connector before `start()`. -/
structure Inv (s : OneStart) : Prop where
  connector : s.connector.Inv
  before : s.started = false → s.connector.work = 0

theorem inv_init : Inv init := ⟨Connector.inv_init _, fun _ => rfl⟩

/-- A step is one of the connector, and `start()` finds a connector that nothing drives. -/
theorem Inv.step_connector {s t : OneStart} {op : ConnectorOp} (h : s.Inv)
    (hstep : s.step op = some t) :
    s.connector.step op = some t.connector ∧ t.started = (s.started || op.isStart) ∧
      (op.isStart = true → s.connector.work = 0) := by
  rw [step, Option.ite_none_left_eq_some, Option.map_eq_some_iff] at hstep
  obtain ⟨honce, c, hstep, rfl⟩ := hstep
  exact ⟨hstep, rfl, fun hop => h.before (Bool.eq_false_iff.mpr fun hs => honce ⟨hop, hs⟩)⟩

theorem inv_step {s t : OneStart} {op : ConnectorOp} (h : s.Inv) (hstep : s.step op = some t) :
    t.Inv := by
  obtain ⟨hconnector, hstarted, hstart⟩ := h.step_connector hstep
  refine ⟨Connector.inv_step h.connector hstart hconnector, fun hbefore => ?_⟩
  obtain ⟨hs, hop⟩ := Bool.or_eq_false_iff.mp (hstarted.symm.trans hbefore)
  exact Connector.idle_step h.connector (h.before hs) hop hconnector

/-- In every run there is one attempt at a time, no assertion fails, and the retries back
off. -/
theorem run_oneAttempt (ops : List ConnectorOp) :
    Runs.Along step (fun s => s.connector.AtMostOne ∧ s.connector.stopped = false ∧
      s.connector.BacksOff) init ops :=
  (Runs.Along.of_invariant (fun _ _ _ h hstep => inv_step h hstep) inv_init).mono fun _ h =>
    ⟨h.connector.atMostOne, h.connector.live, h.connector.backsOff⟩

end OneStart

end Lotta
