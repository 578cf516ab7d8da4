/-
# The lifecycle of a connection

`state_` should only move forward, and `closeCallback_` and `rmConnCallback_` should be
called at most once.  Both depend on `handleClose` running once, which no function of
the connection checks: `close()` stores `Disconnecting` in any state, and in a build
without assertions the hang-up test and the read of the same event both reach
`handleClose`.  `lifecycle_iff` says which calls keep the law.
-/
import Lotta.ConnectionEffects
import Lotta.Lib.Runs

namespace Lotta

namespace TcpConnection

/-- The stored states only move forward, and the two callbacks are made at most once. -/
def Lifecycle (c : TcpConnection) : Prop :=
  (c.stores.Pairwise fun a b => a.rank ≤ b.rank) ∧ c.closes ≤ 1 ∧ c.rmConns ≤ 1

instance (c : TcpConnection) : Decidable c.Lifecycle := inferInstanceAs (Decidable (_ ∧ _ ∧ _))

/-- What leaves the lifecycle alone keeps the law. -/
theorem SameLife.lifecycle {c d : TcpConnection} (h : SameLife c d) (hc : c.Lifecycle) :
    d.Lifecycle := by
  rw [Lifecycle, h.stores, h.closes, h.rmConns]
  exact hc

end TcpConnection

/-! ## Moves -/

namespace LoopThread

/-- What every move keeps.  A connection that is not removed has not been closed; the
calls of `rmConnCallback_` made or still to be made are covered by those of
`closeCallback_`. -/
structure LifeInv (s : LoopThread) : Prop where
  not_fresh : s.conn.registration ≠ .fresh
  last : s.conn.stores.getLast? = some s.conn.state
  removed_iff : s.conn.registration = .removed ↔ .disconnected ∈ s.conn.stores
  unclosed : s.conn.registration ≠ .removed → s.conn.closes = 0
  closed : s.conn.registration = .removed → 1 ≤ s.conn.closes
  asserts : s.conn.asserts = true → s.conn.closes ≤ 1
  rmConns_le : s.conn.rmConns ≤ s.conn.closes
  pending : s.conn.aborted = false →
    s.conn.rmConns + s.todo.count .rmConnCallback ≤ s.conn.closes

theorem lifeInv_init (asserts : Bool) (fd : ℤ) : LifeInv (init asserts fd) := by
  constructor <;> simp [init, TcpConnection.established_eq, TcpConnection.stores,
    TcpConnection.closes, TcpConnection.rmConns, Effect.stored, List.filterMap_cons]

theorem lifecycle_init (asserts : Bool) (fd : ℤ) : (init asserts fd).conn.Lifecycle := by
  simp [init, TcpConnection.established_eq, TcpConnection.Lifecycle, TcpConnection.stores,
    TcpConnection.closes, TcpConnection.rmConns, Effect.stored, List.filterMap_cons]

/-- Under the invariant and the law, the current state bounds the stored ones. -/
theorem rank_le {s : LoopThread} (hj : LifeInv s) (h : s.conn.Lifecycle) :
    ∀ a ∈ s.conn.stores, a.rank ≤ s.conn.state.rank := by
  obtain ⟨pre, hpre⟩ := List.getLast?_eq_some_iff.mp hj.last
  intro a ha
  have hpair := h.1
  rw [hpre] at ha hpair
  rcases List.mem_append.mp ha with hmem | hmem
  · exact (List.pairwise_append.mp hpair).2.2 a hmem _ (by simp)
  · rw [List.mem_singleton.mp hmem]

/-- Under the invariant and the law, `Disconnected` means that `handleClose` has run. -/
theorem disconnected_iff {s : LoopThread} (hj : LifeInv s) (h : s.conn.Lifecycle) :
    s.conn.state = .disconnected ↔ s.conn.registration = .removed := by
  rw [hj.removed_iff]
  constructor
  · intro hstate
    have hlast := hj.last
    rw [hstate] at hlast
    exact List.mem_of_getLast? hlast
  · intro hmem
    -- under the law nothing smaller has been stored since
    have hrank : 3 ≤ s.conn.state.rank := rank_le hj h _ hmem
    revert hrank
    cases s.conn.state <;> simp [ConnState.rank]

/-- A quiet move keeps the invariant. -/
theorem LifeInv.quiet {s t : LoopThread} (hj : LifeInv s) (hrun : s.conn.aborted = false)
    (h : s.conn.SameLife t.conn)
    (htodo : t.todo.count .rmConnCallback ≤ s.todo.count .rmConnCallback) : LifeInv t where
  not_fresh := by rw [h.registration]; exact hj.not_fresh
  last := by rw [h.stores, h.state]; exact hj.last
  removed_iff := by rw [h.stores, h.registration]; exact hj.removed_iff
  unclosed := by rw [h.registration, h.closes]; exact hj.unclosed
  closed := by rw [h.registration, h.closes]; exact hj.closed
  asserts := by rw [h.asserts, h.closes]; exact hj.asserts
  rmConns_le := by rw [h.rmConns, h.closes]; exact hj.rmConns_le
  pending := fun _ => by
    have := hj.pending hrun
    rw [h.rmConns, h.closes]
    omega

/-- A store that is not `Disconnected` keeps the invariant. -/
theorem LifeInv.setState {s : LoopThread} (hj : LifeInv s) (st : ConnState)
    (hst : st ≠ .disconnected) : LifeInv ⟨s.conn.setState st, s.todo⟩ where
  not_fresh := hj.not_fresh
  last := by simp [TcpConnection.setState, TcpConnection.stores, Effect.stored]
  removed_iff := by
    refine hj.removed_iff.trans ?_
    simp [TcpConnection.setState, TcpConnection.stores, Effect.stored, hst.symm]
  unclosed := fun h => (by simpa [TcpConnection.closes, TcpConnection.setState] using hj.unclosed h)
  closed := fun h => (by simpa [TcpConnection.closes, TcpConnection.setState] using hj.closed h)
  asserts := fun h => (by simpa [TcpConnection.closes, TcpConnection.setState] using hj.asserts h)
  rmConns_le := by
    simpa [TcpConnection.closes, TcpConnection.rmConns, TcpConnection.setState]
      using hj.rmConns_le
  pending := fun h => by
    simpa [TcpConnection.closes, TcpConnection.rmConns, TcpConnection.setState] using hj.pending h

/-- A store keeps the law when it does not go back. -/
theorem lifecycle_setState {s : LoopThread} (hj : LifeInv s) (h : s.conn.Lifecycle)
    {st : ConnState} (hst : s.conn.state.rank ≤ st.rank) : (s.conn.setState st).Lifecycle := by
  have hstores : (s.conn.setState st).stores = s.conn.stores ++ [st] := by
    simp [TcpConnection.setState, TcpConnection.stores, Effect.stored]
  refine ⟨?_, ?_, ?_⟩
  · rw [hstores, List.pairwise_append]
    refine ⟨h.1, by simp, fun a ha b hb => ?_⟩
    rw [List.mem_singleton.mp hb]
    exact (rank_le hj h a ha).trans hst
  · simpa [TcpConnection.closes, TcpConnection.setState] using h.2.1
  · simpa [TcpConnection.rmConns, TcpConnection.setState] using h.2.2

/-! ## `handleClose` -/

/-- What `handleClose` leaves behind, `closeCallback_` included. -/
theorem handleClose_conn {s : LoopThread} (hj : LifeInv s) (hrun : s.conn.aborted = false)
    (rest : List Todo) :
    (handleClose s.conn rest).conn.stores = s.conn.stores ++ [.disconnected] ∧
    (handleClose s.conn rest).conn.state = .disconnected ∧
    (handleClose s.conn rest).conn.registration = .removed ∧
    (handleClose s.conn rest).conn.asserts = s.conn.asserts ∧
    (handleClose s.conn rest).conn.aborted =
      (s.conn.asserts && s.conn.registration == .removed) ∧
    (handleClose s.conn rest).conn.closes = s.conn.closes +
      (if s.conn.asserts && s.conn.registration == .removed then 0 else 1) ∧
    (handleClose s.conn rest).conn.rmConns = s.conn.rmConns := by
  have h := TcpConnection.closed_handleClose hj.not_fresh hrun
  simp only [handleClose, TcpConnection.thenDo]
  by_cases hab : s.conn.handleClose.aborted = true
  · have hab' : (s.conn.asserts && s.conn.registration == .removed) = true := h.aborted ▸ hab
    rw [if_pos hab, if_pos hab']
    exact ⟨h.stores, h.state, h.registration, h.asserts, h.aborted, h.closes, h.rmConns⟩
  · have hab' : ¬ (s.conn.asserts && s.conn.registration == .removed) = true := h.aborted ▸ hab
    rw [if_neg hab, if_neg hab', TcpConnection.stores_emit, TcpConnection.closes_emit,
      TcpConnection.rmConns_emit, h.stores, h.closes, h.rmConns]
    exact ⟨List.append_nil _, h.state, h.registration, h.asserts, h.aborted, rfl, rfl⟩

theorem LifeInv.handleClose {s : LoopThread} (hj : LifeInv s) (hrun : s.conn.aborted = false)
    {rest : List Todo} (hrest : rest.count .rmConnCallback ≤ s.todo.count .rmConnCallback) :
    LifeInv (LoopThread.handleClose s.conn rest) := by
  obtain ⟨hstores, hstate, hreg, hasserts, habort, hcloses, hrm⟩ := handleClose_conn hj hrun rest
  have hpend := hj.pending hrun
  have hrmle := hj.rmConns_le
  refine ⟨by rw [hreg]; decide, by rw [hstores, hstate]; simp, by rw [hreg, hstores]; simp,
    fun h => absurd hreg h, fun _ => ?_, fun h => ?_, ?_, fun h => ?_⟩
  · rw [hcloses]
    split
    · rename_i hab
      simp only [Bool.and_eq_true, beq_iff_eq] at hab
      exact hj.closed hab.2
    · omega
  · rw [hasserts] at h
    rw [hcloses, h, Bool.true_and]
    split
    · exact hj.asserts h
    · rename_i hab
      rw [hj.unclosed (by simpa using hab)]
  · rw [hrm, hcloses]
    omega
  · rw [habort] at h
    rw [hrm, hcloses, h]
    simp only [LoopThread.handleClose, List.count_cons]
    simp
    omega

/-- An event that closes the connection keeps the law exactly when it is not closed yet
or an assertion stops it. -/
theorem lifecycle_handleClose_iff {s : LoopThread} (hj : LifeInv s) (h : s.conn.Lifecycle)
    (hrun : s.conn.aborted = false) (rest : List Todo) :
    (handleClose s.conn rest).conn.Lifecycle ↔
      s.conn.asserts = true ∨ s.conn.state ≠ .disconnected := by
  obtain ⟨hstores, -, -, -, -, hcloses, hrm⟩ := handleClose_conn hj hrun rest
  have hforward : (s.conn.stores ++ [ConnState.disconnected]).Pairwise
      fun a b => a.rank ≤ b.rank := by
    rw [List.pairwise_append]
    refine ⟨h.1, by simp, fun a _ b hb => ?_⟩
    rw [List.mem_singleton.mp hb]
    cases a <;> simp [ConnState.rank]
  rw [TcpConnection.Lifecycle, hstores, hcloses, hrm, Ne, disconnected_iff hj h]
  have hclosed := hj.closed
  have hunclosed := hj.unclosed
  have hle := h.2.1
  by_cases hreg : s.conn.registration = .removed
  · -- `closeCallback_` has been called once, and only an assertion prevents the second call
    have := hclosed hreg
    cases hasserts : s.conn.asserts <;> simp [hreg, hforward, h.2.2] <;> omega
  · have := hunclosed hreg
    simp [hreg, hforward, h.2.2, this]

/-- `close()` keeps the law exactly when the connection is not `Disconnected`. -/
theorem lifecycle_close_iff {s : LoopThread} (hj : LifeInv s) (h : s.conn.Lifecycle)
    (hrun : s.conn.aborted = false) :
    (close s.conn s.todo).conn.Lifecycle ↔ s.conn.state ≠ .disconnected := by
  have hj' := hj.setState .disconnecting (by decide)
  constructor
  · -- the store of `Disconnecting` is already a step back
    intro hlaw hstate
    obtain ⟨hstores, -⟩ := handleClose_conn hj' hrun (.resetSocket :: s.todo)
    have hpair := hlaw.1
    rw [close, closeTask, hstores] at hpair
    have hset : (s.conn.setState .disconnecting).stores = s.conn.stores ++ [.disconnecting] := by
      simp [TcpConnection.setState, TcpConnection.stores, Effect.stored]
    simp only [hset] at hpair
    have hback := (List.pairwise_append.mp (List.pairwise_append.mp hpair).1).2.2 .disconnected
      (hj.removed_iff.mp ((disconnected_iff hj h).mp hstate)) .disconnecting (by simp)
    exact absurd hback (by decide)
  · intro hstate
    have hrank : s.conn.state.rank ≤ ConnState.disconnecting.rank := by
      revert hstate
      cases s.conn.state <;> simp [ConnState.rank]
    exact (lifecycle_handleClose_iff hj' (lifecycle_setState hj h hrank) hrun _).mpr
      (Or.inr (by simp [TcpConnection.setState]))

theorem LifeInv.close {s : LoopThread} (hj : LifeInv s) (hrun : s.conn.aborted = false) :
    LifeInv (LoopThread.close s.conn s.todo) :=
  (hj.setState .disconnecting (by decide)).handleClose hrun (by simp)

/-- `shutdown()` is guarded by the state. -/
theorem shutdown_life {s : LoopThread} (hj : LifeInv s) (hrun : s.conn.aborted = false) :
    LifeInv ⟨s.conn.shutdown, s.todo⟩ ∧ (s.conn.Lifecycle → s.conn.shutdown.Lifecycle) := by
  rw [TcpConnection.shutdown]
  split
  · exact ⟨hj, id⟩
  · rename_i hstate
    have hset := hj.setState .disconnecting (by decide)
    have htask := TcpConnection.sameLife_shutdownTask (c := s.conn.setState .disconnecting)
    refine ⟨hset.quiet hrun htask le_rfl, fun h => htask.lifecycle (lifecycle_setState hj h ?_)⟩
    rw [not_not.mp hstate]
    decide

/-- `rmConnCallback_` is called once for each call of `closeCallback_`. -/
theorem rmConnCallback_life {s : LoopThread} (hj : LifeInv s) (hrun : s.conn.aborted = false)
    {rest : List Todo} (htodo : s.todo = .rmConnCallback :: rest) :
    LifeInv ⟨s.conn.emit .rmConnCallback, rest⟩ ∧
      (s.conn.Lifecycle → (s.conn.emit .rmConnCallback).Lifecycle) := by
  have hstores : (s.conn.emit .rmConnCallback).stores = s.conn.stores := by
    rw [TcpConnection.stores_emit]
    exact List.append_nil _
  have hcloses : (s.conn.emit .rmConnCallback).closes = s.conn.closes := by
    rw [TcpConnection.closes_emit]
    rfl
  have hrm : (s.conn.emit .rmConnCallback).rmConns = s.conn.rmConns + 1 := by
    rw [TcpConnection.rmConns_emit]
    rfl
  have hpend := hj.pending hrun
  rw [htodo, List.count_cons_self] at hpend
  refine ⟨⟨hj.not_fresh, by rw [hstores]; exact hj.last, by rw [hstores]; exact hj.removed_iff,
    by rw [hcloses]; exact hj.unclosed, by rw [hcloses]; exact hj.closed,
    by rw [hcloses]; exact hj.asserts, by rw [hrm, hcloses]; omega,
    fun _ => by rw [hrm, hcloses]; show _ + 1 + rest.count _ ≤ _; omega⟩, fun h => ?_⟩
  have hle := h.2.1
  rw [TcpConnection.Lifecycle, hstores, hcloses, hrm]
  exact ⟨h.1, h.2.1, by omega⟩

/-! ## Runs -/

/-- The condition on a move: `close()` is not called on a `Disconnected` connection, and
in a build without assertions no event closes one. -/
def ClosesOnce (s : LoopThread) : Move → Prop
  | .close => s.conn.state ≠ .disconnected
  | .proceed n _ =>
      s.closesNext n = true → s.conn.asserts = true ∨ s.conn.state ≠ .disconnected
  | _ => True

/-- Every move keeps the invariant, and keeps the law exactly when it meets the
condition. -/
theorem life_of_moved {s t : LoopThread} {m : Move} (hj : LifeInv s)
    (hrun : s.conn.aborted = false) (hm : Moved s m t) :
    LifeInv t ∧ (s.conn.Lifecycle → (t.conn.Lifecycle ↔ s.ClosesOnce m)) := by
  cases hm with
  | polled revents htodo hreg =>
      have hsame : s.conn.SameLife
          { s.conn with channel := { s.conn.channel with revents := revents } } :=
        ⟨rfl, rfl, rfl, rfl, rfl, rfl⟩
      exact ⟨hj.quiet hrun hsame (by simp), fun h => iff_of_true (hsame.lifecycle h) trivial⟩
  | sent msg r =>
      have hsame := TcpConnection.sameLife_send hj.not_fresh msg r
      exact ⟨hj.quiet hrun hsame le_rfl, fun h => iff_of_true (hsame.lifecycle h) trivial⟩
  | shutdown =>
      obtain ⟨hinv, hlaw⟩ := shutdown_life hj hrun
      exact ⟨hinv, fun h => iff_of_true (hlaw h) trivial⟩
  | closed => exact ⟨hj.close hrun, fun h => lifecycle_close_iff hj h hrun⟩
  | ran n r t hran =>
      cases hran with
      | closed k rest htodo hk hnext =>
          have hrest : rest.count .rmConnCallback ≤ s.todo.count .rmConnCallback := by
            rw [htodo]
            exact List.count_le_count_cons
          refine ⟨hj.handleClose hrun hrest, fun h => ?_⟩
          rw [lifecycle_handleClose_iff hj h hrun rest]
          exact ⟨fun hor _ => hor, fun himp => himp hnext⟩
      | removed rest htodo hnext =>
          obtain ⟨hinv, hlaw⟩ := rmConnCallback_life hj hrun htodo
          exact ⟨hinv, fun h => iff_of_true (hlaw h) fun hclose => by simp [hnext] at hclose⟩
      | quiet k rest pre c htodo hk hpre hevent hc hnext =>
          have hsame := TcpConnection.sameLife_quiet hj.not_fresh hc
          refine ⟨hj.quiet hrun hsame ?_, fun h =>
            iff_of_true (hsame.lifecycle h) fun hclose => by simp [hnext] at hclose⟩
          rw [htodo, List.count_append, List.count_eq_zero_of_not_mem hpre, Nat.zero_add]
          exact List.count_le_count_cons

/-- The lifecycle law holds along a run from `connEstablished` exactly when `close()` is
never called on a `Disconnected` connection and, without assertions, no event closes
one. -/
theorem lifecycle_iff (asserts : Bool) (fd : ℤ) (moves : List Move) :
    Runs.Along step (fun s => s.conn.Lifecycle) (init asserts fd) moves ↔
      Runs.AllSteps step ClosesOnce (init asserts fd) moves := by
  refine Runs.along_iff_allSteps (J := LifeInv) (fun s m t hj h => ?_) (fun s m t hj hlaw h => ?_)
    (lifeInv_init asserts fd) ?_
  · obtain ⟨hrun, hm⟩ := moved_of_step h
    exact (life_of_moved hj hrun hm).1
  · obtain ⟨hrun, hm⟩ := moved_of_step h
    exact (life_of_moved hj hrun hm).2 hlaw
  · exact lifecycle_init asserts fd

/-- Two calls of `close()` by user code: the second one takes `state_` back from
`Disconnected` to `Disconnecting`. -/
theorem not_lifecycle_close_twice :
    ¬ Runs.Along step (fun s => s.conn.Lifecycle) (init true 7) [.close, .close] := by
  decide

/- A hang-up with `POLLRDHUP`: without assertions, the read of the same event closes the
connection a second time. -/
example :
    ¬ Runs.Along step (fun s => s.conn.Lifecycle) (init false 7)
      [.proceed 0 .failed, .poll (pollHup ||| pollRdhup), .proceed 0 .failed,
        .proceed 0 .failed, .proceed 0 .failed, .proceed 0 .failed, .proceed 0 .failed,
        .proceed 0 .failed] := by
  decide

end LoopThread

end Lotta
