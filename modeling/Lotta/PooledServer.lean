/-
# A server with IO threads

With `setThreadNum(n)` a `TcpServer` accepts on its own loop and gives each connection to one of
`n` loops with threads of their own.  `newConnection` enters the connection in the table, takes
the loop whose turn it is and pushes `connEstablished` to it; the close of the connection runs on
its loop and pushes the removal back to the server's.  `PooledServer` puts the server on its loop
(`BaseServer`) next to the IO loops and the pool.  Between the push and the wakeup of a
`pushQueue` the pushing thread does nothing else.

Each connection goes through four stages: its establishment waits on its loop, it is live, its
removal waits on the server's loop, it is erased.  `run_staged` says that in every state of every
run each accepted connection is at exactly one of them, that each loop establishes its own
connections, each once and in the order in which they were accepted, that the loops have their
turns, and that the assertion of `connEstablished` holds of every connection that waits.  A second
close of a connection would push a second removal, and `connIdx_` ends at 2^31: the runs are those
in which each connection is closed at most once and fewer are accepted.
-/
import Lotta.ConnTable
import Lotta.EventLoopPool
import Lotta.Lib.Tagged

namespace Lotta

/-- The threads: of the server's loop, of the IO loops, and of the user. -/
inductive ServerThread (τ : Type*) where
  | base
  | io (i : ℕ)
  | user (u : τ)
  deriving DecidableEq

/-- The functions in the queue of an IO loop: `connEstablished` of a connection, and others. -/
inductive IoTask where
  | establish (d : ℕ)
  | other
  deriving DecidableEq

/-- The connection that a function establishes. -/
def IoTask.establishes : IoTask → Option ℕ
  | .establish d => some d
  | .other => none

/-- The thread that makes a step of a loop, when it is not the loop's own. -/
def LoopOp.caller {α τ : Type*} : LoopOp α τ → Option τ
  | .push t _ => some t
  | .wakeup t => some t
  | .quit t => some t
  | _ => none

/-- A step of an IO loop that neither calls a function nor pushes an establishment. -/
def LoopOp.isPlain {τ : Type*} : LoopOp IoTask τ → Bool
  | .call => false
  | .pushLocal a => a == .other
  | .push _ a => a == .other
  | _ => true

/-- A server with its IO loops.  `basePushing` is the IO loop to which the server's thread is
pushing, and `ioPushing` says which IO threads are pushing to the server's loop.  `established`
records the connections in the order of `connEstablished`, each with the loop that ran it. -/
structure PooledServer (τ : Type*) where
  base : BaseServer (ServerThread τ)
  pool : EventLoopPool
  io : ℕ → EventLoop IoTask (ServerThread τ)
  loopOf : ℕ → Option ℕ
  state : ℕ → ConnState
  basePushing : Option ℕ
  ioPushing : ℕ → Bool
  established : List (Option ℕ × ℕ)

/-- The steps: calls on the server; a connection is accepted; `send` aside, what is done with a
connection; functions that loops call; the ends of `pushQueue`; and the other steps of loops. -/
inductive PooledOp (τ : Type*) where
  | setThreadNum (n : ℕ)
  | start
  | accept (addr : List Char)
  | shutdown (d : ℕ)
  | close (d : ℕ)
  | closeHere (d : ℕ)
  | closeOn (i d : ℕ)
  | callBase
  | callIo (i : ℕ)
  | basePushes (i : ℕ)
  | baseWakes
  | ioPushes (i : ℕ)
  | ioWakes (i : ℕ)
  | loopBase (op : LoopOp BaseTask (ServerThread τ))
  | loopIo (i : ℕ) (op : LoopOp IoTask (ServerThread τ))

namespace PooledServer

variable {τ : Type*} [DecidableEq τ]

/-- A new server; no loop is running yet. -/
def init (name : List Char) : PooledServer τ where
  base := BaseServer.init name
  pool := EventLoopPool.init
  io := fun _ => EventLoop.init
  loopOf := fun _ => none
  state := fun _ => .connecting
  basePushing := none
  ioPushing := fun _ => false
  established := []

/-- The server's thread runs handlers or a function and is not inside `pushQueue`. -/
def baseRuns (s : PooledServer τ) : Bool :=
  s.basePushing.isNone && ConnSystem.runsCode s.base.ev.pc

/-- The same of an IO thread. -/
def ioRuns (s : PooledServer τ) (i : ℕ) : Bool :=
  !s.ioPushing i && ConnSystem.runsCode (s.io i).pc

/-- `connEstablished` has run for the connection; the user has it from then on. -/
def isEstablished (s : PooledServer τ) (d : ℕ) : Bool := (s.established.map Prod.snd).contains d

/-- A store of `state_`. -/
def setState (s : PooledServer τ) (d : ℕ) (st : ConnState) : PooledServer τ :=
  { s with state := Function.update s.state d st }

/-- `connEstablished` on the loop `l`. -/
def connEstablished (s : PooledServer τ) (l : Option ℕ) (d : ℕ) : Option (PooledServer τ) :=
  if s.state d = .connecting then
    some { s.setState d .connected with established := s.established ++ [(l, d)] }
  else none

/-- A step of the loop `i`. -/
def setIo (s : PooledServer τ) (i : ℕ) (ev : EventLoop IoTask (ServerThread τ)) :
    PooledServer τ := { s with io := Function.update s.io i ev }

/-- The end of `newConnection`: the new connection gets its loop, and `exec` runs
`connEstablished` here or pushes it to another loop. -/
def establish (s : PooledServer τ) (d : ℕ) (loop : Option ℕ) : Option (PooledServer τ) :=
  let s := { s.setState d .connecting with loopOf := Function.update s.loopOf d loop }
  match loop with
  | none => s.connEstablished none d
  | some i =>
      ((s.io i).step (.push .base (.establish d))).map fun ev =>
        { s.setIo i ev with basePushing := some i }

/-- `newConnection`. -/
def newConnection (s : PooledServer τ) (addr : List Char) : Option (PooledServer τ) :=
  (s.base.step (.accept addr)).bind fun base =>
    s.pool.getLoop.bind fun (loop, pool) =>
      establish { s with base := base, pool := pool } s.base.table.connIdx loop

/-- An IO loop calls a function. -/
def runIo (s : PooledServer τ) (i : ℕ) : IoTask → Option (PooledServer τ)
  | .establish d => s.connEstablished (some i) d
  | .other => some s

/-- The thread that makes a step of the server's loop is free to make it. -/
def mayStepBase (s : PooledServer τ) (op : LoopOp BaseTask (ServerThread τ)) : Bool :=
  match op.caller with
  | none => s.basePushing.isNone
  | some (.user _) => true
  | some _ => false

/-- The thread that makes a step of the loop `i` is free to make it. -/
def mayStepIo (s : PooledServer τ) (i : ℕ) (op : LoopOp IoTask (ServerThread τ)) : Bool :=
  match op.caller with
  | none => !s.ioPushing i
  | some (.user _) => true
  | some _ => false

/-- One step. -/
def step (s : PooledServer τ) : PooledOp τ → Option (PooledServer τ)
  | .setThreadNum n => some { s with pool := s.pool.setThreadNum n }
  -- a second `start()` only warns; `started_` is set together with that of the pool
  | .start =>
      if s.pool.started then some s else s.pool.start.map fun pool => { s with pool := pool }
  | .accept addr => if s.basePushing.isNone then s.newConnection addr else none
  | .shutdown d =>
      if s.isEstablished d then
        some (if s.state d = .connected then s.setState d .disconnecting else s)
      else none
  | .close d => if s.isEstablished d then some (s.setState d .disconnecting) else none
  | .closeHere d =>
      if s.basePushing.isNone ∧ s.isEstablished d ∧ s.loopOf d = none then
        (s.base.step (.closeHere d)).map fun base =>
          { s.setState d .disconnected with base := base }
      else none
  | .closeOn i d =>
      if s.ioRuns i ∧ s.isEstablished d ∧ s.loopOf d = some i then
        (s.base.step (.closeOn (.io i) d)).map fun base =>
          { s.setState d .disconnected with
            base := base, ioPushing := Function.update s.ioPushing i true }
      else none
  | .callBase =>
      if s.basePushing.isNone then (s.base.step .call).map fun base => { s with base := base }
      else none
  | .callIo i =>
      if s.ioPushing i then none
      else
        (s.io i).batch.head?.bind fun task =>
          ((s.io i).step .call).bind fun ev => (s.setIo i ev).runIo i task
  | .basePushes i =>
      if s.baseRuns then
        ((s.io i).step (.push .base .other)).map fun ev =>
          { s.setIo i ev with basePushing := some i }
      else none
  | .baseWakes =>
      s.basePushing.bind fun i =>
        ((s.io i).step (.wakeup .base)).map fun ev => { s.setIo i ev with basePushing := none }
  | .ioPushes i =>
      if s.ioRuns i then
        (s.base.step (.loop (.push (.io i) .other))).map fun base =>
          { s with base := base, ioPushing := Function.update s.ioPushing i true }
      else none
  | .ioWakes i =>
      if s.ioPushing i then
        (s.base.step (.loop (.wakeup (.io i)))).map fun base =>
          { s with base := base, ioPushing := Function.update s.ioPushing i false }
      else none
  | .loopBase op =>
      if s.mayStepBase op then (s.base.step (.loop op)).map fun base => { s with base := base }
      else none
  | .loopIo i op =>
      if op.isPlain ∧ s.mayStepIo i op then ((s.io i).step op).map fun ev => s.setIo i ev
      else none

/-! ## What is stated -/

/-- The connections whose establishment waits on a loop. -/
def waiting (s : PooledServer τ) : Option ℕ → List ℕ
  | none => []
  | some i => ((s.io i).batch ++ (s.io i).queue).filterMap IoTask.establishes

/-- The accepted connections in order, each with its loop. -/
def accepted (s : PooledServer τ) : List (Option ℕ × ℕ) :=
  (List.range s.base.table.connIdx).map fun d => (s.loopOf d, d)

/-- The stages of a connection. -/
inductive Stage where
  | waiting
  | live
  | removing
  | erased
  deriving DecidableEq, Repr

/-- The connection is at a stage. -/
def At (s : PooledServer τ) (d : ℕ) : Stage → Prop
  | .waiting => d ∈ s.waiting (s.loopOf d)
  | .live => (s.loopOf d, d) ∈ s.established ∧ d ∉ s.base.closed
  | .removing => d ∈ s.base.pending
  | .erased => d ∈ s.base.removed

/-- What holds in every state. -/
structure Staged (s : PooledServer τ) : Prop where
  /-- Every accepted connection is at exactly one stage. -/
  stage : ∀ d < s.base.table.connIdx, ∃! st, s.At d st
  /-- Each loop establishes its connections, each once, in the order of their acceptance. -/
  order : ∀ l, Tagged.itemsOf l s.established ++ s.waiting l = Tagged.itemsOf l s.accepted
  /-- The loops have their turns. -/
  turns : s.accepted.map Prod.fst = EventLoopPool.turns s.pool.loops s.base.table.connIdx
  /-- `connEstablished` will find the connection in `Connecting`. -/
  connecting : ∀ l, ∀ d ∈ s.waiting l, s.state d = .connecting
  /-- The table holds the accepted connections that are not erased. -/
  table : s.base.TableExact

end PooledServer

/-! ## What a step of the server's loop does -/

/-- The connection that a step closes. -/
def BaseOp.closes {τ : Type*} : BaseOp τ → Option ℕ
  | .closeHere d => some d
  | .closeOn _ d => some d
  | _ => none

namespace BaseServer

variable {τ : Type*} [DecidableEq τ] {s t : BaseServer τ}

/-- The removals that wait after a foreign step of the loop. -/
theorem pending_of_foreign (h : s.TableInv) {op : LoopOp BaseTask τ} (hop : op.isForeign = true)
    {ev : EventLoop BaseTask τ} (hev : s.ev.step op = some ev) :
    pending { s with ev := ev } = s.pending := by
  have hcall : op ≠ .call := by
    rintro rfl
    cases hop
  unfold pending
  rw [EventLoop.waiting_of_step h.ev hcall hev, List.filterMap_append]
  cases hpush : op.pushes with
  | none => exact List.append_nil _
  | some a =>
      have hnone := LoopOp.removes_of_isForeign hop hpush
      rw [Option.toList_some, List.filterMap_cons_none hnone, List.filterMap_nil, List.append_nil]

/-- A step other than an accept: the connections stay, one may be closed, and a removal, run or
waiting, is not lost. -/
theorem kept_of_step (h : s.TableInv) {op : BaseOp τ} (hop : ∀ addr, op ≠ .accept addr)
    (hstep : s.step op = some t) :
    t.table.connIdx = s.table.connIdx ∧ t.closed = op.closes.toList ++ s.closed ∧
      ∀ d, (d ∈ s.removed ++ s.pending ∨ op.closes = some d) → d ∈ t.removed ++ t.pending := by
  cases op with
  | accept addr => exact absurd rfl (hop addr)
  | closeHere d =>
      simp only [step, Option.ite_none_right_eq_some, Option.some.injEq] at hstep
      obtain ⟨-, rfl⟩ := hstep
      refine ⟨rfl, rfl, fun e he => ?_⟩
      have hremoved : (runRemove { s with closed := d :: s.closed } d).removed =
          s.removed ++ [d] := List.map_append
      rw [hremoved]
      rcases he with he | he
      · rcases List.mem_append.mp he with he | he
        · exact List.mem_append_left _ (List.mem_append_left _ he)
        · exact List.mem_append_right _ he
      · obtain rfl := Option.some.inj he
        exact List.mem_append_left _ (List.mem_append_right _ List.mem_cons_self)
  | closeOn u d =>
      simp only [step, Option.ite_none_right_eq_some, Option.map_eq_some_iff] at hstep
      obtain ⟨-, ev, hev, rfl⟩ := hstep
      refine ⟨rfl, rfl, fun e he => ?_⟩
      have hpending : pending { s with ev := ev, closed := d :: s.closed } = s.pending ++ [d] := by
        unfold pending
        rw [EventLoop.waiting_of_step h.ev (by simp) hev, List.filterMap_append]
        rfl
      show e ∈ s.removed ++ pending { s with ev := ev, closed := d :: s.closed }
      rw [hpending, ← List.append_assoc]
      rcases he with he | he
      · exact List.mem_append_left _ he
      · obtain rfl := Option.some.inj he
        exact List.mem_append_right _ List.mem_cons_self
  | call =>
      simp only [step] at hstep
      split at hstep
      · cases hstep
      · rename_i a rest hbatch
        rw [Option.map_eq_some_iff] at hstep
        obtain ⟨ev, hev, rfl⟩ := hstep
        obtain ⟨f, hcons, hqueue⟩ := EventLoop.batch_of_call hev
        obtain ⟨rfl, -⟩ := List.cons.inj (hbatch.symm.trans hcons)
        have hpending : s.pending = a.removes.toList ++ pending { s with ev := ev } := by
          unfold pending
          rw [hcons, hqueue, List.cons_append, List.filterMap_cons]
          cases a.removes <;> rfl
        cases a with
        | other =>
            refine ⟨rfl, rfl, fun e he => ?_⟩
            rw [hpending] at he
            exact he.resolve_right (by simp [BaseOp.closes])
        | remove d =>
            refine ⟨rfl, rfl, fun e he => ?_⟩
            have hremoved : (runTask { s with ev := ev } (.remove d)).removed = s.removed ++ [d] :=
              List.map_append
            rw [hremoved, List.append_assoc]
            rw [hpending] at he
            exact he.resolve_right (by simp [BaseOp.closes])
  | loop op =>
      simp only [step, Option.ite_none_right_eq_some, Option.map_eq_some_iff] at hstep
      obtain ⟨hforeign, ev, hev, rfl⟩ := hstep
      refine ⟨rfl, rfl, fun d hd => ?_⟩
      have hsame := pending_of_foreign h hforeign hev
      show d ∈ s.removed ++ pending { s with ev := ev }
      rw [hsame]
      exact hd.resolve_right (by simp [BaseOp.closes])

end BaseServer

namespace PooledServer

variable {τ : Type*} [DecidableEq τ] {s t : PooledServer τ}

/-! ## The invariant -/

/-- What every step keeps. -/
structure Inv (s : PooledServer τ) : Prop where
  base : s.base.TableInv
  io : ∀ i, (s.io i).Inv
  pool : s.pool.Inv s.base.table.connIdx
  loopOf : ∀ d < s.base.table.connIdx,
    s.loopOf d = if s.pool.loops = 0 then none else some (d % s.pool.loops)
  order : ∀ l, Tagged.itemsOf l s.established ++ s.waiting l = Tagged.itemsOf l s.accepted
  connecting : ∀ l, ∀ d ∈ s.waiting l, s.state d = .connecting
  closed : ∀ d ∈ s.base.closed, (s.loopOf d, d) ∈ s.established
  kept : ∀ d ∈ s.base.closed, d ∈ s.base.removed ++ s.base.pending

omit [DecidableEq τ] in
/-- The connections accepted for a loop. -/
theorem itemsOf_accepted (s : PooledServer τ) (l : Option ℕ) :
    Tagged.itemsOf l s.accepted =
      (List.range s.base.table.connIdx).filter fun d => s.loopOf d = l := by
  unfold Tagged.itemsOf accepted
  rw [List.filter_map, List.map_map]
  exact List.map_id'' (fun _ => rfl) _

omit [DecidableEq τ] in
theorem mem_itemsOf_accepted {l : Option ℕ} {d : ℕ} :
    d ∈ Tagged.itemsOf l s.accepted ↔ d < s.base.table.connIdx ∧ s.loopOf d = l := by
  rw [itemsOf_accepted, List.mem_filter, List.mem_range, decide_eq_true_eq]

omit [DecidableEq τ] in
/-- A connection that is established was accepted for the loop that has established it. -/
theorem Inv.of_established (h : s.Inv) {l : Option ℕ} {d : ℕ} (hd : (l, d) ∈ s.established) :
    d < s.base.table.connIdx ∧ s.loopOf d = l := by
  rw [← mem_itemsOf_accepted, ← h.order l]
  exact List.mem_append_left _ (Tagged.mem_itemsOf.mpr hd)

omit [DecidableEq τ] in
/-- A connection that waits was accepted for the loop that it waits on. -/
theorem Inv.of_waiting (h : s.Inv) {l : Option ℕ} {d : ℕ} (hd : d ∈ s.waiting l) :
    d < s.base.table.connIdx ∧ s.loopOf d = l := by
  rw [← mem_itemsOf_accepted, ← h.order l]
  exact List.mem_append_right _ hd

omit [DecidableEq τ] in
theorem isEstablished_iff {d : ℕ} : s.isEstablished d = true ↔ ∃ l, (l, d) ∈ s.established := by
  unfold isEstablished
  rw [List.contains_iff_mem, List.mem_map]
  constructor
  · rintro ⟨⟨l, e⟩, hmem, rfl⟩
    exact ⟨l, hmem⟩
  · rintro ⟨l, hmem⟩
    exact ⟨(l, d), hmem, rfl⟩

omit [DecidableEq τ] in
/-- An established connection does not wait. -/
theorem Inv.not_waiting (h : s.Inv) {l : Option ℕ} {d : ℕ} (hd : (l, d) ∈ s.established)
    (l' : Option ℕ) : d ∉ s.waiting l' := by
  intro hwaits
  obtain ⟨-, rfl⟩ := h.of_established hd
  obtain ⟨-, rfl⟩ := h.of_waiting hwaits
  have hnodup : (Tagged.itemsOf (s.loopOf d) s.accepted).Nodup := by
    rw [itemsOf_accepted]
    exact List.nodup_range.filter _
  rw [← h.order, List.nodup_append] at hnodup
  exact hnodup.2.2 d (Tagged.mem_itemsOf.mpr hd) d hwaits rfl

omit [DecidableEq τ] in
/-- Every accepted connection is at exactly one stage. -/
theorem Inv.stage (h : s.Inv) {d : ℕ} (hd : d < s.base.table.connIdx) : ∃! st, s.At d st := by
  have hclosed : ∀ e ∈ s.base.removed ++ s.base.pending, (s.loopOf e, e) ∈ s.established :=
    fun e he => h.closed e (h.base.closed e he)
  have hplace : (s.loopOf d, d) ∈ s.established ∨ d ∈ s.waiting (s.loopOf d) := by
    have hmem : d ∈ Tagged.itemsOf (s.loopOf d) s.accepted := mem_itemsOf_accepted.mpr ⟨hd, rfl⟩
    rw [← h.order] at hmem
    exact (List.mem_append.mp hmem).imp_left Tagged.mem_itemsOf.mp
  rcases hplace with hestablished | hwaits
  · have hnot := h.not_waiting hestablished (s.loopOf d)
    by_cases hc : d ∈ s.base.closed
    · -- its removal has run or waits, not both
      have honce := List.nodup_append.mp h.base.unique
      rcases List.mem_append.mp (h.kept d hc) with hrun | hpending
      · refine ⟨.erased, hrun, fun st hst => ?_⟩
        cases st with
        | waiting => exact absurd hst hnot
        | live => exact absurd hc hst.2
        | removing => exact absurd rfl (honce.2.2 d hrun d hst)
        | erased => rfl
      · refine ⟨.removing, hpending, fun st hst => ?_⟩
        cases st with
        | waiting => exact absurd hst hnot
        | live => exact absurd hc hst.2
        | removing => rfl
        | erased => exact absurd rfl (honce.2.2 d hst d hpending)
    · refine ⟨.live, ⟨hestablished, hc⟩, fun st hst => ?_⟩
      cases st with
      | waiting => exact absurd hst hnot
      | live => rfl
      | removing => exact absurd (h.base.closed d (List.mem_append_right _ hst)) hc
      | erased => exact absurd (h.base.closed d (List.mem_append_left _ hst)) hc
  · have hnot : (s.loopOf d, d) ∉ s.established := fun he => h.not_waiting he _ hwaits
    refine ⟨.waiting, hwaits, fun st hst => ?_⟩
    cases st with
    | waiting => rfl
    | live => exact absurd hst.1 hnot
    | removing => exact absurd (hclosed d (List.mem_append_right _ hst)) hnot
    | erased => exact absurd (hclosed d (List.mem_append_left _ hst)) hnot

omit [DecidableEq τ] in
theorem Inv.staged (h : s.Inv) : s.Staged where
  stage := fun _ hd => h.stage hd
  order := h.order
  turns := by
    unfold accepted EventLoopPool.turns
    rw [List.map_map]
    exact List.map_congr_left fun d hd => h.loopOf d (List.mem_range.mp hd)
  connecting := h.connecting
  table := h.base.exact

/-! ## Steps -/

/-- A step of the server's loop other than an accept. -/
theorem Inv.withBase (h : s.Inv) {op : BaseOp (ServerThread τ)} {base : BaseServer (ServerThread τ)}
    (hstep : s.base.step op = some base) (hop : ∀ addr, op ≠ .accept addr)
    (hcloses : ∀ d, op.closes = some d → (s.loopOf d, d) ∈ s.established)
    (hbase : t.base = base) (hpool : t.pool = s.pool) (hio : t.io = s.io)
    (hloopOf : t.loopOf = s.loopOf) (hestablished : t.established = s.established)
    (hstate : ∀ l, ∀ d ∈ s.waiting l, t.state d = s.state d) : t.Inv := by
  obtain ⟨hidx, hclosed, hkept⟩ := BaseServer.kept_of_step h.base hop hstep
  have hwaiting : t.waiting = s.waiting := by
    funext l
    cases l with
    | none => rfl
    | some i =>
        unfold waiting
        rw [hio]
  have haccepted : t.accepted = s.accepted := by
    unfold accepted
    rw [hbase, hidx, hloopOf]
  subst hbase
  refine ⟨BaseServer.tableInv_step h.base hstep, fun i => ?_, ?_, fun d hd => ?_, fun l => ?_,
    fun l d hd => ?_, fun d hd => ?_, fun d hd => ?_⟩
  · rw [hio]
    exact h.io i
  · rw [hpool, hidx]
    exact h.pool
  · rw [hloopOf, hpool]
    exact h.loopOf d (hidx ▸ hd)
  · rw [hestablished, hwaiting, haccepted]
    exact h.order l
  · rw [hwaiting] at hd
    rw [hstate l d hd]
    exact h.connecting l d hd
  · rw [hloopOf, hestablished]
    rw [hclosed] at hd
    rcases List.mem_append.mp hd with hnew | hold
    · exact hcloses d (Option.mem_toList.mp hnew)
    · exact h.closed d hold
  · rw [hclosed] at hd
    rcases List.mem_append.mp hd with hnew | hold
    · exact hkept d (Or.inr (Option.mem_toList.mp hnew))
    · exact hkept d (Or.inl (h.kept d hold))

omit [DecidableEq τ] in
/-- A step that leaves the stages of all connections alone. -/
theorem Inv.of_same (h : s.Inv) (hbase : t.base = s.base) (hpool : t.pool = s.pool)
    (hio : ∀ i, (t.io i).Inv) (hloopOf : t.loopOf = s.loopOf)
    (hestablished : t.established = s.established) (hwaiting : t.waiting = s.waiting)
    (hstate : ∀ l, ∀ d ∈ s.waiting l, t.state d = s.state d) : t.Inv where
  base := hbase ▸ h.base
  io := hio
  pool := by
    rw [hpool, hbase]
    exact h.pool
  loopOf := by
    rw [hpool, hbase, hloopOf]
    exact h.loopOf
  order := fun l => by
    have haccepted : t.accepted = s.accepted := by
      unfold accepted
      rw [hbase, hloopOf]
    rw [hestablished, hwaiting, haccepted]
    exact h.order l
  connecting := fun l d hd => by
    rw [hwaiting] at hd
    rw [hstate l d hd]
    exact h.connecting l d hd
  closed := by
    rw [hbase, hloopOf, hestablished]
    exact h.closed
  kept := hbase ▸ h.kept

omit [DecidableEq τ] in
/-- A store of `state_` in a connection that the user has. -/
theorem Inv.setState (h : s.Inv) {d : ℕ} (hd : s.isEstablished d = true) (st : ConnState) :
    (s.setState d st).Inv := by
  obtain ⟨l, hd⟩ := isEstablished_iff.mp hd
  refine h.of_same rfl rfl h.io rfl rfl rfl fun l' e he => Function.update_of_ne ?_ _ _
  rintro rfl
  exact h.not_waiting hd l' he

omit [DecidableEq τ] in
/-- The functions that wait on the loops when the loop `i` has made a step. -/
theorem waiting_setIo (i : ℕ) (ev : EventLoop IoTask (ServerThread τ)) :
    (s.setIo i ev).waiting = Function.update s.waiting (some i)
      ((ev.batch ++ ev.queue).filterMap IoTask.establishes) := by
  funext l
  cases l with
  | none => rfl
  | some j =>
      show
        ((Function.update s.io i ev j).batch ++
          (Function.update s.io i ev j).queue).filterMap _ = _
      by_cases hj : j = i
      · subst hj
        rw [Function.update_self, Function.update_self]
      · rw [Function.update_of_ne hj, Function.update_of_ne (by simpa using hj)]
        rfl

omit [DecidableEq τ] in
theorem io_setIo (h : s.Inv) {i : ℕ} {ev : EventLoop IoTask (ServerThread τ)} (hev : ev.Inv)
    (j : ℕ) : ((s.setIo i ev).io j).Inv := by
  show (Function.update s.io i ev j).Inv
  by_cases hj : j = i
  · subst hj
    rwa [Function.update_self]
  · rw [Function.update_of_ne hj]
    exact h.io j

/-- What waits on an IO loop after a step other than a call. -/
theorem establishes_of_step (h : s.Inv) {i : ℕ} {op : LoopOp IoTask (ServerThread τ)}
    (hop : op ≠ .call) {ev : EventLoop IoTask (ServerThread τ)} (hev : (s.io i).step op = some ev) :
    (ev.batch ++ ev.queue).filterMap IoTask.establishes =
      s.waiting (some i) ++ op.pushes.toList.filterMap IoTask.establishes := by
  rw [EventLoop.waiting_of_step (h.io i) hop hev, List.filterMap_append]
  rfl

/-- A step of an IO loop that pushes no establishment and calls nothing. -/
theorem Inv.plain (h : s.Inv) {i : ℕ} {op : LoopOp IoTask (ServerThread τ)} (hop : op ≠ .call)
    (hpush : op.pushes.toList.filterMap IoTask.establishes = [])
    {ev : EventLoop IoTask (ServerThread τ)} (hev : (s.io i).step op = some ev) :
    (s.setIo i ev).Inv := by
  refine h.of_same rfl rfl (io_setIo h (EventLoop.inv_step (h.io i) hev)) rfl rfl ?_
    fun _ _ _ => rfl
  rw [waiting_setIo, establishes_of_step h hop hev, hpush, List.append_nil, Function.update_eq_self]

omit [DecidableEq τ] in
theorem plain_of_isPlain {op : LoopOp IoTask (ServerThread τ)} (hop : op.isPlain = true) :
    op ≠ .call ∧ op.pushes.toList.filterMap IoTask.establishes = [] := by
  cases op with
  | call => cases hop
  | pushLocal a | push u a =>
      obtain rfl := eq_of_beq hop
      exact ⟨by simp, rfl⟩
  | _ => exact ⟨by simp, rfl⟩

/-! ## Accepting and establishing -/

/-- A server with one more connection, which has its place on the loop `loop`. -/
theorem Inv.accept (h : s.Inv) {addr : List Char} {base : BaseServer (ServerThread τ)}
    (hstep : s.base.step (.accept addr) = some base) {loop : Option ℕ} {pool : EventLoopPool}
    (hget : s.pool.getLoop = some (loop, pool)) (hbase : t.base = base) (hpool : t.pool = pool)
    (hio : ∀ i, (t.io i).Inv)
    (hloopOf : t.loopOf = Function.update s.loopOf s.base.table.connIdx loop)
    (hstate : ∀ d < s.base.table.connIdx, t.state d = s.state d)
    (hplaces : ∀ l, Tagged.itemsOf l t.established ++ t.waiting l =
      Tagged.itemsOf l s.established ++ s.waiting l ++
        if l = loop then [s.base.table.connIdx] else [])
    (hestablished : s.established ⊆ t.established)
    (hconnecting : ∀ l, ∀ d ∈ t.waiting l, d ∈ s.waiting l ∨ t.state d = .connecting) : t.Inv := by
  have htable := BaseServer.tableInv_step h.base hstep
  simp only [BaseServer.step, Option.ite_none_right_eq_some, Option.some.injEq] at hstep
  obtain ⟨-, rfl⟩ := hstep
  obtain ⟨hturn, hnext, hloops⟩ := h.pool.getLoop hget
  have hold : ∀ d < s.base.table.connIdx, t.loopOf d = s.loopOf d := fun d hd => by
    rw [hloopOf, Function.update_of_ne (Nat.ne_of_lt hd)]
  have hnew : t.loopOf s.base.table.connIdx = loop := by
    rw [hloopOf, Function.update_self]
  have hidx : t.base.table.connIdx = s.base.table.connIdx + 1 := by rw [hbase]; rfl
  have haccepted : t.accepted = s.accepted ++ [(loop, s.base.table.connIdx)] := by
    unfold accepted
    rw [hidx, List.range_succ, List.map_append, List.map_singleton, hnew]
    congr 1
    exact List.map_congr_left fun d hd => by rw [hold d (List.mem_range.mp hd)]
  have hclosed : ∀ d ∈ t.base.closed, d ∈ s.base.closed := by
    rw [hbase]
    exact fun _ hd => hd
  refine ⟨hbase ▸ htable, hio, ?_, fun d hd => ?_, fun l => ?_, fun l d hd => ?_, fun d hd => ?_,
    fun d hd => ?_⟩
  · rw [hpool, hidx]
    exact hnext
  · rw [hpool, hloops]
    rw [hidx] at hd
    rcases Nat.lt_succ_iff_lt_or_eq.mp hd with hlt | rfl
    · rw [hold d hlt]
      exact h.loopOf d hlt
    · rw [hnew, hturn]
  · rw [hplaces l, haccepted, h.order l, Tagged.itemsOf_append]
    congr 1
    by_cases hl : l = loop
    · rw [if_pos hl, hl, Tagged.itemsOf_cons_self, Tagged.itemsOf_nil]
    · rw [if_neg hl, Tagged.itemsOf_cons_of_ne (Ne.symm hl), Tagged.itemsOf_nil]
  · refine (hconnecting l d hd).elim (fun hmem => ?_) id
    rw [hstate d (h.of_waiting hmem).1]
    exact h.connecting l d hmem
  · have hd' := hclosed d hd
    rw [hold d (h.base.accepted d hd')]
    exact hestablished (h.closed d hd')
  · rw [hbase]
    exact h.kept d (hclosed d hd)

/-- `newConnection`. -/
theorem Inv.newConnection (h : s.Inv) {addr : List Char}
    (hstep : s.newConnection addr = some t) : t.Inv := by
  unfold PooledServer.newConnection at hstep
  simp only [Option.bind_eq_some_iff] at hstep
  obtain ⟨base, hbase, ⟨loop, pool⟩, hget, hstep⟩ := hstep
  have hold : ∀ (st : ConnState) (d : ℕ), d < s.base.table.connIdx →
      Function.update s.state s.base.table.connIdx st d = s.state d :=
    fun st d hd => Function.update_of_ne (Nat.ne_of_lt hd) _ _
  cases loop with
  | none =>
      simp only [establish, connEstablished, Option.ite_none_right_eq_some,
        Option.some.injEq] at hstep
      obtain ⟨-, rfl⟩ := hstep
      refine h.accept hbase hget rfl rfl h.io rfl (fun d hd => ?_) (fun l => ?_)
        (List.subset_append_left _ _) fun l d hd => Or.inl hd
      · exact (Function.update_of_ne (Nat.ne_of_lt hd) _ _).trans (hold _ d hd)
      · -- nothing waits for the server's own loop
        show Tagged.itemsOf l (s.established ++ [(none, s.base.table.connIdx)]) ++ s.waiting l = _
        rw [Tagged.itemsOf_append]
        by_cases hl : l = none
        · subst hl
          have hnil : s.waiting none = [] := rfl
          rw [if_pos rfl, Tagged.itemsOf_cons_self, Tagged.itemsOf_nil, hnil, List.append_nil,
            List.append_nil]
        · rw [if_neg hl, Tagged.itemsOf_cons_of_ne (Ne.symm hl), Tagged.itemsOf_nil,
            List.append_nil, List.append_nil]
  | some i =>
      simp only [establish, Option.map_eq_some_iff] at hstep
      obtain ⟨ev, hev, rfl⟩ := hstep
      have hwaiting : (s.setIo i ev).waiting = Function.update s.waiting (some i)
          (s.waiting (some i) ++ [s.base.table.connIdx]) := by
        rw [waiting_setIo, establishes_of_step h (by simp) hev]
        rfl
      refine h.accept hbase hget rfl rfl (io_setIo h (EventLoop.inv_step (h.io i) hev)) rfl
        (hold _) (fun l => ?_) (List.Subset.refl _) fun l d hd => ?_
      · show Tagged.itemsOf l s.established ++ (s.setIo i ev).waiting l = _
        rw [hwaiting]
        by_cases hl : l = some i
        · rw [if_pos hl, hl, Function.update_self, List.append_assoc]
        · rw [if_neg hl, Function.update_of_ne hl, List.append_nil]
      · replace hd : d ∈ (s.setIo i ev).waiting l := hd
        rw [hwaiting] at hd
        by_cases hl : l = some i
        · subst hl
          rw [Function.update_self, List.mem_append, List.mem_singleton] at hd
          refine hd.imp_right fun hd => ?_
          subst hd
          exact Function.update_self ..
        · rw [Function.update_of_ne hl] at hd
          exact Or.inl hd

/-- An IO loop calls a function: when it is `connEstablished`, its connection has waited longest
on this loop. -/
theorem Inv.callIo (h : s.Inv) {i : ℕ} {task : IoTask} (htask : (s.io i).batch.head? = some task)
    {ev : EventLoop IoTask (ServerThread τ)} (hev : (s.io i).step .call = some ev)
    (hrun : (s.setIo i ev).runIo i task = some t) : t.Inv := by
  have hinv := EventLoop.inv_step (h.io i) hev
  obtain ⟨f, hbatch, hqueue⟩ := EventLoop.batch_of_call hev
  obtain rfl : f = task := by
    rw [hbatch] at htask
    exact Option.some.inj htask
  have hwaits : s.waiting (some i) =
      f.establishes.toList ++ (ev.batch ++ ev.queue).filterMap IoTask.establishes := by
    show ((s.io i).batch ++ (s.io i).queue).filterMap IoTask.establishes = _
    rw [hbatch, hqueue, List.cons_append, List.filterMap_cons]
    cases f.establishes <;> rfl
  cases f with
  | other =>
      obtain rfl := Option.some.inj hrun
      refine h.of_same rfl rfl (io_setIo h hinv) rfl rfl ?_ fun _ _ _ => rfl
      have hsame : s.waiting (some i) =
          (ev.batch ++ ev.queue).filterMap IoTask.establishes := hwaits
      rw [waiting_setIo, ← hsame, Function.update_eq_self]
  | establish d =>
      simp only [runIo, connEstablished, Option.ite_none_right_eq_some, Option.some.injEq] at hrun
      obtain ⟨-, rfl⟩ := hrun
      have hfirst : s.waiting (some i) =
          d :: (ev.batch ++ ev.queue).filterMap IoTask.establishes := hwaits
      have hd : d ∈ s.waiting (some i) := by
        rw [hfirst]
        exact List.mem_cons_self
      have hnodup : (s.waiting (some i)).Nodup := by
        have hall : (Tagged.itemsOf (some i) s.accepted).Nodup := by
          rw [itemsOf_accepted]
          exact List.nodup_range.filter _
        rw [← h.order] at hall
        exact (List.nodup_append.mp hall).2.1
      rw [hfirst, List.nodup_cons] at hnodup
      have hwaiting := waiting_setIo (s := s) i ev
      generalize (ev.batch ++ ev.queue).filterMap IoTask.establishes = rest
        at hfirst hnodup hwaiting
      refine ⟨h.base, io_setIo h hinv, h.pool, h.loopOf, fun l => ?_, fun l e he => ?_,
        fun e he => List.mem_append_left _ (h.closed e he), h.kept⟩
      · refine Eq.trans ?_ (h.order l)
        show Tagged.itemsOf l (s.established ++ [(some i, d)]) ++ (s.setIo i ev).waiting l = _
        rw [hwaiting, Tagged.itemsOf_append]
        by_cases hl : l = some i
        · subst hl
          rw [Function.update_self, hfirst, Tagged.itemsOf_cons_self, Tagged.itemsOf_nil,
            List.append_assoc, List.singleton_append]
        · rw [Function.update_of_ne hl, Tagged.itemsOf_cons_of_ne (Ne.symm hl),
            Tagged.itemsOf_nil, List.append_nil]
      · replace he : e ∈ (s.setIo i ev).waiting l := he
        rw [hwaiting] at he
        -- the connection that is established has left its queue, and was in no other
        have hrest : e ∈ s.waiting l ∧ e ≠ d := by
          by_cases hl : l = some i
          · subst hl
            rw [Function.update_self] at he
            refine ⟨hfirst ▸ List.mem_cons_of_mem d he, ?_⟩
            rintro rfl
            exact hnodup.1 he
          · rw [Function.update_of_ne hl] at he
            refine ⟨he, ?_⟩
            rintro rfl
            exact hl ((h.of_waiting he).2.symm.trans (h.of_waiting hd).2)
        refine Eq.trans ?_ (h.connecting l e hrest.1)
        exact Function.update_of_ne hrest.2 _ _

/-- Every step keeps the invariant. -/
theorem inv_step {op : PooledOp τ} (h : s.Inv) (hstep : s.step op = some t) : t.Inv := by
  cases op with
  | setThreadNum n =>
      obtain rfl := Option.some.inj hstep
      exact ⟨h.base, h.io, h.pool.setThreadNum n, h.loopOf, h.order, h.connecting, h.closed, h.kept⟩
  | start =>
      simp only [step] at hstep
      split at hstep
      · obtain rfl := Option.some.inj hstep
        exact h
      · rename_i hfresh
        rw [Option.map_eq_some_iff] at hstep
        obtain ⟨pool, hstart, rfl⟩ := hstep
        obtain ⟨-, -, hzero⟩ := h.pool.fresh (by simpa using hfresh)
        refine ⟨h.base, h.io, h.pool.start hstart, fun d hd => ?_, h.order, h.connecting, h.closed,
          h.kept⟩
        -- nothing has been accepted yet
        replace hd : d < s.base.table.connIdx := hd
        rw [hzero] at hd
        exact absurd hd (Nat.not_lt_zero d)
  | accept addr =>
      simp only [step, Option.ite_none_right_eq_some] at hstep
      exact h.newConnection hstep.2
  | shutdown d =>
      simp only [step, Option.ite_none_right_eq_some, Option.some.injEq] at hstep
      obtain ⟨hd, rfl⟩ := hstep
      split
      · exact h.setState hd _
      · exact h
  | close d =>
      simp only [step, Option.ite_none_right_eq_some, Option.some.injEq] at hstep
      obtain ⟨hd, rfl⟩ := hstep
      exact h.setState hd _
  | closeHere d =>
      simp only [step, Option.ite_none_right_eq_some, Option.map_eq_some_iff] at hstep
      obtain ⟨⟨-, hd, -⟩, base, hbase, rfl⟩ := hstep
      obtain ⟨l, hl⟩ := isEstablished_iff.mp hd
      refine h.withBase hbase (by simp) (fun e he => ?_) rfl rfl rfl rfl rfl
        fun l' e he => Function.update_of_ne ?_ _ _
      · obtain rfl := Option.some.inj he
        rwa [(h.of_established hl).2]
      · rintro rfl
        exact h.not_waiting hl l' he
  | closeOn i d =>
      simp only [step, Option.ite_none_right_eq_some, Option.map_eq_some_iff] at hstep
      obtain ⟨⟨-, hd, -⟩, base, hbase, rfl⟩ := hstep
      obtain ⟨l, hl⟩ := isEstablished_iff.mp hd
      refine h.withBase hbase (by simp) (fun e he => ?_) rfl rfl rfl rfl rfl
        fun l' e he => Function.update_of_ne ?_ _ _
      · obtain rfl := Option.some.inj he
        rwa [(h.of_established hl).2]
      · rintro rfl
        exact h.not_waiting hl l' he
  | callBase =>
      simp only [step, Option.ite_none_right_eq_some, Option.map_eq_some_iff] at hstep
      obtain ⟨-, base, hbase, rfl⟩ := hstep
      exact h.withBase hbase (by simp) (fun _ he => by cases he) rfl rfl rfl rfl rfl
        fun _ _ _ => rfl
  | callIo i =>
      simp only [step, Option.ite_none_left_eq_some, Option.bind_eq_some_iff] at hstep
      obtain ⟨-, task, htask, ev, hev, hrun⟩ := hstep
      exact h.callIo htask hev hrun
  | basePushes i =>
      simp only [step, Option.ite_none_right_eq_some, Option.map_eq_some_iff] at hstep
      obtain ⟨-, ev, hev, rfl⟩ := hstep
      have hplain : (s.setIo i ev).Inv := h.plain (by simp) rfl hev
      exact hplain.of_same rfl rfl hplain.io rfl rfl rfl fun _ _ _ => rfl
  | baseWakes =>
      simp only [step, Option.bind_eq_some_iff, Option.map_eq_some_iff] at hstep
      obtain ⟨i, -, ev, hev, rfl⟩ := hstep
      have hplain : (s.setIo i ev).Inv := h.plain (by simp) rfl hev
      exact hplain.of_same rfl rfl hplain.io rfl rfl rfl fun _ _ _ => rfl
  | ioPushes i | ioWakes i =>
      simp only [step, Option.ite_none_right_eq_some, Option.map_eq_some_iff] at hstep
      obtain ⟨-, base, hbase, rfl⟩ := hstep
      exact h.withBase hbase (by simp) (fun _ he => by cases he) rfl rfl rfl rfl rfl
        fun _ _ _ => rfl
  | loopBase op =>
      simp only [step, Option.ite_none_right_eq_some, Option.map_eq_some_iff] at hstep
      obtain ⟨-, base, hbase, rfl⟩ := hstep
      exact h.withBase hbase (by simp) (fun _ he => by cases he) rfl rfl rfl rfl rfl
        fun _ _ _ => rfl
  | loopIo i op =>
      simp only [step, Option.ite_none_right_eq_some, Option.map_eq_some_iff] at hstep
      obtain ⟨⟨hop, -⟩, ev, hev, rfl⟩ := hstep
      obtain ⟨hcall, hpush⟩ := plain_of_isPlain hop
      exact h.plain hcall hpush hev

omit [DecidableEq τ] in
theorem inv_init (name : List Char) : Inv (init name : PooledServer τ) where
  base := BaseServer.tableInv_init name
  io := fun _ => EventLoop.inv_init
  pool := EventLoopPool.inv_init
  loopOf := fun d hd => absurd hd (Nat.not_lt_zero d)
  order := fun l => by cases l <;> rfl
  connecting := fun l d hd => by
    cases l <;> exact absurd hd List.not_mem_nil
  closed := fun d hd => absurd hd List.not_mem_nil
  kept := fun d hd => absurd hd List.not_mem_nil

/-- In every state of every run of a server with any number of IO threads, in which each
connection is closed at most once and fewer than 2^31 are accepted, the stages of the connections
are in order. -/
theorem run_staged (name : List Char) (ops : List (PooledOp τ)) :
    Runs.Along step Staged (init name) ops :=
  (Runs.Along.of_invariant (P := Inv) (fun _ _ _ h hstep => inv_step h hstep)
    (inv_init name)).mono fun _ h => h.staged

end PooledServer

end Lotta
