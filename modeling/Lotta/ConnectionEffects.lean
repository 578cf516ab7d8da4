/-
# What the code of a connection changes

For the properties of a connection over its whole life three things count: the values
stored in `state_`, the registration of its channel, and the callbacks made.  `SameLife`
says that a piece of code changes none of them, `Closed` what `handleClose` makes of them,
and `Gone` describes a connection after that, for which the rest of the code does nothing.
What gives the socket up, and what leaves `Connected`, is said at the end.
-/
import Lotta.ConnectionLoop
import Lotta.Outbound

namespace Lotta

namespace TcpConnection

/-- The number of calls of `closeCallback_` so far. -/
def closes (c : TcpConnection) : ℕ := c.log.count .closeCallback

/-- The number of calls of `rmConnCallback_` so far. -/
def rmConns (c : TcpConnection) : ℕ := c.log.count .rmConnCallback

/-! ## What leaves the lifecycle alone -/

/-- Nothing that the lifecycle is about changes. -/
structure SameLife (c d : TcpConnection) : Prop where
  stores : d.stores = c.stores
  state : d.state = c.state
  registration : d.registration = c.registration
  asserts : d.asserts = c.asserts
  closes : d.closes = c.closes
  rmConns : d.rmConns = c.rmConns

namespace SameLife

theorem refl (c : TcpConnection) : SameLife c c := ⟨rfl, rfl, rfl, rfl, rfl, rfl⟩

theorem trans {c d e : TcpConnection} (h : SameLife c d) (k : SameLife d e) : SameLife c e where
  stores := k.stores.trans h.stores
  state := k.state.trans h.state
  registration := k.registration.trans h.registration
  asserts := k.asserts.trans h.asserts
  closes := k.closes.trans h.closes
  rmConns := k.rmConns.trans h.rmConns

end SameLife

variable {c : TcpConnection}

theorem stores_emit (c : TcpConnection) (e : Effect) :
    (c.emit e).stores = c.stores ++ e.stored.toList := by
  cases h : e.stored <;> simp [stores, emit, h]

theorem closes_emit (c : TcpConnection) (e : Effect) :
    (c.emit e).closes = c.closes + if e = .closeCallback then 1 else 0 := by
  simp [closes, emit, List.count_singleton]

theorem rmConns_emit (c : TcpConnection) (e : Effect) :
    (c.emit e).rmConns = c.rmConns + if e = .rmConnCallback then 1 else 0 := by
  simp [rmConns, emit, List.count_singleton]

theorem sameLife_emit {e : Effect} (hs : e.stored = none) (hc : e ≠ .closeCallback)
    (hr : e ≠ .rmConnCallback) : SameLife c (c.emit e) where
  stores := by rw [stores_emit, hs, Option.toList_none, List.append_nil]
  state := rfl
  registration := rfl
  asserts := rfl
  closes := by rw [closes_emit, if_neg hc]; rfl
  rmConns := by rw [rmConns_emit, if_neg hr]; rfl

theorem sameLife_thenDo {d : TcpConnection} {f : TcpConnection → TcpConnection}
    (hd : SameLife c d) (hf : SameLife c (f d)) : SameLife c (d.thenDo f) :=
  thenDo_cases (P := SameLife c) d hd hf

theorem sameLife_updateChannel (h : c.registration ≠ .fresh) : SameLife c c.updateChannel := by
  have hemit : SameLife c (c.emit (.updateChannel c.channel.events)) :=
    sameLife_emit rfl (by simp) (by simp)
  simp only [updateChannel]
  split
  · rename_i hfresh
    exact absurd hfresh h
  · exact hemit
  · exact ⟨hemit.stores, rfl, hemit.registration, rfl, hemit.closes, hemit.rmConns⟩

theorem sameLife_interest (h : c.registration ≠ .fresh) (k : InterestCall) :
    SameLife c (c.interest k) := by
  have hset : SameLife c { c with channel := k.apply c.channel } := ⟨rfl, rfl, rfl, rfl, rfl, rfl⟩
  exact hset.trans (sameLife_updateChannel h)

theorem sameLife_shutdownTask : SameLife c c.shutdownTask := by
  rw [shutdownTask]
  split
  · exact .refl c
  · exact sameLife_emit rfl (by simp) (by simp)

theorem sameLife_outputDone (h : c.registration ≠ .fresh) : SameLife c c.outputDone := by
  have hinterest := sameLife_interest h .disableWriting
  refine sameLife_thenDo hinterest ?_
  split
  · exact hinterest.trans sameLife_shutdownTask
  · exact hinterest

theorem sameLife_handleWrite (h : c.registration ≠ .fresh) (r : WriteResult) :
    SameLife c (c.handleWrite r) := by
  rw [handleWrite]
  split
  · exact .refl c
  · simp only
    generalize r.returned c.outBuf.length = n
    have hwrite : SameLife c (c.emit (.write c.outBuf n)) := sameLife_emit rfl (by simp) (by simp)
    split
    · exact hwrite
    · have hset : SameLife c ((c.emit (.write c.outBuf n)).setOutBuf (c.outBuf.drop n.toNat)) :=
        ⟨hwrite.stores, rfl, rfl, rfl, hwrite.closes, hwrite.rmConns⟩
      split
      · exact hset.trans (sameLife_outputDone (by rw [hset.registration]; exact h))
      · exact hset

theorem sameLife_sendTask (h : c.registration ≠ .fresh) (msg : Message) (r : WriteResult) :
    SameLife c (c.sendTask msg r) := by
  have hkeep : ∀ d : TcpConnection, SameLife c d → ∀ n, SameLife c (d.keepRest msg n) := by
    intro d hd n
    rw [keepRest]
    split
    · have hset : SameLife c (d.setOutBuf (d.outBuf ++ msg.bytes.drop n)) :=
        ⟨hd.stores, hd.state, hd.registration, hd.asserts, hd.closes, hd.rmConns⟩
      simp only
      split
      · exact hset.trans (sameLife_interest (by rw [hset.registration]; exact h) _)
      · exact hset
    · exact hd
  refine hkeep _ ?_ _
  split
  · exact sameLife_emit rfl (by simp) (by simp)
  · exact .refl c

theorem sameLife_send (h : c.registration ≠ .fresh) (msg : Message) (r : WriteResult) :
    SameLife c (c.send msg r) := by
  rw [send]
  split
  · exact .refl c
  · exact sameLife_sendTask h msg r

theorem sameLife_resetSocket : SameLife c c.resetSocket := by
  rw [resetSocket]
  split
  · obtain ⟨hstores, hstate, hreg, hasserts, hcloses, hrm⟩ :=
      sameLife_emit (c := c) (e := .closeSocket) rfl (by simp) (by simp)
    exact ⟨hstores, hstate, hreg, hasserts, hcloses, hrm⟩
  · exact .refl c

theorem sameLife_quiet {d : TcpConnection} {r : WriteResult} (h : c.registration ≠ .fresh)
    (hd : LoopThread.Quiet c r d) : SameLife c d := by
  cases hd with
  | skip => exact .refl c
  | msgCallback => exact sameLife_emit rfl (by simp) (by simp)
  | written => exact sameLife_handleWrite h r
  | socketReset => exact sameLife_resetSocket

/-! ## What `handleClose` does -/

/-- The effect of `handleClose` up to `closeCallback_` on the lifecycle: it stores
`Disconnected` and removes the channel, and an assertion stops it when the channel had
been removed before. -/
structure Closed (c d : TcpConnection) : Prop where
  stores : d.stores = c.stores ++ [.disconnected]
  state : d.state = .disconnected
  registration : d.registration = .removed
  asserts : d.asserts = c.asserts
  aborted : d.aborted = (c.asserts && c.registration == .removed)
  closes : d.closes = c.closes
  rmConns : d.rmConns = c.rmConns
  outBuf : d.outBuf = c.outBuf
  not_writing : d.channel.isWriting = false

theorem closed_handleClose (h : c.registration ≠ .fresh) (hrun : c.aborted = false) :
    Closed c c.handleClose := by
  obtain ⟨asserts, state, ch, reg, sock, out, log, ab⟩ := c
  obtain rfl : ab = false := hrun
  have hempty : (InterestCall.disableEvents.apply ch).isEmptyEvent = true := rfl
  have hidle : (InterestCall.disableEvents.apply ch).isWriting = false := by
    show (kEmptyEvent &&& kWritePollEvent != 0) = false
    decide
  cases reg with
  | fresh => exact absurd rfl h
  | registered =>
      cases asserts <;>
        constructor <;> simp [handleClose, interest, updateChannel, setState, emit, thenDo,
          removeChannel, check, stores, closes, rmConns, hempty, hidle, Effect.stored]
  | removed =>
      -- the poller asserts that it knows the channel
      cases asserts <;>
        constructor <;> simp [handleClose, interest, updateChannel, setState, emit, thenDo,
          removeChannel, check, stores, closes, rmConns, hempty, hidle, Effect.stored]

end TcpConnection

/-! ## A connection that is gone -/

namespace TcpConnection

/-- `handleClose` has run; the connection neither watches its output nor accepts calls. -/
structure Gone (c : TcpConnection) : Prop where
  registration : c.registration = .removed
  not_writing : c.channel.isWriting = false
  state : c.state ≠ .connected

variable {c : TcpConnection}

theorem Gone.not_fresh (h : c.Gone) : c.registration ≠ .fresh := by
  rw [h.registration]
  decide

theorem Gone.send (h : c.Gone) (msg : Message) (r : WriteResult) : c.send msg r = c := by
  rw [TcpConnection.send, if_pos h.state]

theorem Gone.shutdown (h : c.Gone) : c.shutdown = c := by
  rw [TcpConnection.shutdown, if_pos h.state]

theorem Gone.handleWrite (h : c.Gone) (r : WriteResult) : c.handleWrite r = c := by
  rw [TcpConnection.handleWrite, h.not_writing]
  rfl

theorem Gone.setState (h : c.Gone) {st : ConnState} (hst : st ≠ .connected) :
    (c.setState st).Gone := ⟨h.registration, h.not_writing, hst⟩

/-- A quiet piece of code leaves a connection that is gone as it is. -/
theorem Gone.quiet (h : c.Gone) {r : WriteResult} {d : TcpConnection}
    (hd : LoopThread.Quiet c r d) : d.Gone ∧ d.outBuf = c.outBuf := by
  cases hd with
  | skip => exact ⟨h, rfl⟩
  | msgCallback => exact ⟨⟨h.registration, h.not_writing, h.state⟩, rfl⟩
  | written => rw [h.handleWrite]; exact ⟨h, rfl⟩
  | socketReset =>
      rw [resetSocket]
      split
      · exact ⟨⟨h.registration, h.not_writing, h.state⟩, rfl⟩
      · exact ⟨h, rfl⟩

end TcpConnection

namespace LoopThread

/-- A move that runs `handleClose`. -/
theorem gone_handleClose {c : TcpConnection} (hfresh : c.registration ≠ .fresh)
    (hrun : c.aborted = false) (rest : List Todo) :
    (handleClose c rest).conn.Gone ∧ (handleClose c rest).conn.outBuf = c.outBuf := by
  have h := TcpConnection.closed_handleClose hfresh hrun
  have hgone : c.handleClose.Gone :=
    ⟨h.registration, h.not_writing, by rw [h.state]; decide⟩
  have hcallback : (c.handleClose.emit .closeCallback).Gone :=
    ⟨hgone.registration, hgone.not_writing, hgone.state⟩
  rw [handleClose, TcpConnection.thenDo]
  split
  · exact ⟨hgone, h.outBuf⟩
  · exact ⟨hcallback, h.outBuf⟩

/-- After a move that closes the connection, and after every move of a connection that is
gone, the connection is gone and its pending output is as before. -/
theorem gone_of_moved {s t : LoopThread} {m : Move} (hfresh : s.conn.registration ≠ .fresh)
    (hrun : s.conn.aborted = false) (hm : Moved s m t) (h : s.closes m = true ∨ s.conn.Gone) :
    t.conn.Gone ∧ t.conn.outBuf = s.conn.outBuf := by
  cases hm with
  | polled revents htodo hreg =>
      rcases h with h | h
      · cases h
      · -- a removed channel is not reported
        rw [h.registration] at hreg
        cases hreg
  | sent msg r =>
      rcases h with h | h
      · cases h
      · show (s.conn.send msg r).Gone ∧ (s.conn.send msg r).outBuf = s.conn.outBuf
        rw [h.send]
        exact ⟨h, rfl⟩
  | shutdown =>
      rcases h with h | h
      · cases h
      · show s.conn.shutdown.Gone ∧ s.conn.shutdown.outBuf = s.conn.outBuf
        rw [h.shutdown]
        exact ⟨h, rfl⟩
  | closed => exact gone_handleClose (c := s.conn.setState .disconnecting) hfresh hrun _
  | ran n r t hran =>
      cases hran with
      | closed k rest htodo hk hnext => exact gone_handleClose hfresh hrun rest
      | removed rest htodo hnext =>
          rcases h with h | h
          · rw [closes, hnext] at h
            cases h
          · exact ⟨⟨h.registration, h.not_writing, h.state⟩, rfl⟩
      | quiet k rest pre c htodo hk hpre hevent hc hnext =>
          rcases h with h | h
          · rw [closes, hnext] at h
            cases h
          · exact h.quiet hc

/-- Every other move of a connection that is still registered leaves it so. -/
theorem registered_of_moved {s t : LoopThread} {m : Move} (hm : Moved s m t)
    (hclose : s.closes m = false) (hreg : s.conn.registration = .registered) :
    t.conn.registration = .registered := by
  have hfresh : s.conn.registration ≠ .fresh := by
    rw [hreg]
    decide
  cases hm with
  | polled revents htodo hreg => exact hreg
  | sent msg r => exact (TcpConnection.sameLife_send hfresh msg r).registration.trans hreg
  | shutdown =>
      rw [TcpConnection.shutdown]
      split
      · exact hreg
      · exact TcpConnection.sameLife_shutdownTask.registration.trans hreg
  | closed => cases hclose
  | ran n r t hran =>
      cases hran with
      | closed k rest htodo hk hnext =>
          rw [closes, hnext] at hclose
          cases hclose
      | removed rest htodo hnext => exact hreg
      | quiet k rest pre c htodo hk hpre hevent hc hnext =>
          exact (TcpConnection.sameLife_quiet hfresh hc).registration.trans hreg

end LoopThread

/-! ## What keeps the socket -/

namespace TcpConnection

variable (c : TcpConnection)

theorem socket_thenDo {f : TcpConnection → TcpConnection}
    (hf : ∀ d : TcpConnection, (f d).socket = d.socket) : (c.thenDo f).socket = c.socket :=
  thenDo_cases (P := fun d => d.socket = c.socket) c rfl (hf c)

theorem socket_interest (k : InterestCall) : (c.interest k).socket = c.socket := by
  unfold interest updateChannel
  simp only
  split <;> rfl

theorem socket_removeChannel : c.removeChannel.socket = c.socket := by
  refine socket_thenDo (c.check c.channel.isEmptyEvent) fun d => ?_
  simp only
  split <;> rfl

theorem socket_shutdownTask : c.shutdownTask.socket = c.socket := by
  unfold shutdownTask
  split <;> rfl

theorem socket_outputDone : c.outputDone.socket = c.socket := by
  unfold outputDone
  rw [socket_thenDo _ fun d => ?_, socket_interest]
  split
  · exact socket_shutdownTask d
  · rfl

theorem socket_handleClose : c.handleClose.socket = c.socket := by
  unfold handleClose
  rw [socket_thenDo _ socket_removeChannel, socket_interest]
  rfl

theorem socket_handleWrite (r : WriteResult) : (c.handleWrite r).socket = c.socket := by
  unfold handleWrite
  split
  · rfl
  · simp only
    split
    · rfl
    · split
      · exact socket_outputDone _
      · rfl

theorem socket_sendTask (msg : Message) (r : WriteResult) :
    (c.sendTask msg r).socket = c.socket := by
  have hkeep : ∀ (d : TcpConnection) (n : ℕ), (d.keepRest msg n).socket = d.socket := by
    intro d n
    unfold keepRest
    split
    · simp only
      split
      · exact socket_interest _ _
      · rfl
    · rfl
  unfold sendTask
  simp only
  rw [hkeep]
  split <;> rfl

theorem socket_shutdown : c.shutdown.socket = c.socket := by
  unfold shutdown
  split
  · rfl
  · exact socket_shutdownTask _

end TcpConnection

namespace LoopThread

theorem socket_handleClose (c : TcpConnection) (rest : List Todo) :
    (handleClose c rest).conn.socket = c.socket := by
  show (c.handleClose.thenDo fun d => d.emit .closeCallback).socket = c.socket
  rw [TcpConnection.socket_thenDo (f := fun d => d.emit .closeCallback) _ fun _ => rfl,
    TcpConnection.socket_handleClose]

/-- A socket that has been given up does not come back. -/
theorem socket_of_step {s t : LoopThread} {m : Move} (h : s.step m = some t)
    (ht : t.conn.socket = true) : s.conn.socket = true := by
  cases (moved_of_step h).2 with
  | polled => exact ht
  | sent msg r =>
      replace ht : (s.conn.send msg r).socket = true := ht
      unfold TcpConnection.send at ht
      split at ht
      · exact ht
      · rwa [TcpConnection.socket_sendTask] at ht
  | shutdown => exact (TcpConnection.socket_shutdown s.conn).symm.trans ht
  | closed =>
      have hsame : (close s.conn s.todo).conn.socket = s.conn.socket :=
        socket_handleClose (s.conn.setState .disconnecting) _
      exact hsame.symm.trans ht
  | ran n r t h =>
      cases h with
      | closed k rest => exact (socket_handleClose _ _).symm.trans ht
      | removed rest => exact ht
      | quiet k rest pre c htodo hk hpre hevent hc =>
          cases hc with
          | skip => exact ht
          | msgCallback => exact ht
          | written => exact (TcpConnection.socket_handleWrite s.conn r).symm.trans ht
          | socketReset =>
              replace ht : s.conn.resetSocket.socket = true := ht
              unfold TcpConnection.resetSocket at ht
              split at ht
              · rename_i hsocket
                exact hsocket
              · exact ht

/-- `handleRead` keeps it, also when it closes the connection. -/
theorem socket_of_reads {s t : LoopThread} {n : ℤ} {r : WriteResult} (hreads : s.reads = true)
    (h : s.step (.proceed n r) = some t) : t.conn.socket = s.conn.socket := by
  obtain ⟨rest, htodo, hreadable⟩ := exists_of_reads hreads
  unfold step at h
  split at h
  · cases h
  · simp only [htodo, proceed, hreadable, if_true] at h
    obtain rfl := Option.some.inj h
    unfold handleRead
    split
    · exact socket_handleClose _ _
    · split
      · rfl
      · rfl

/-- The connection has its socket, and nothing that is still to run gives it up. -/
structure Held (s : LoopThread) : Prop where
  socket : s.conn.socket = true
  unreset : .resetSocket ∉ s.todo

theorem held_init (asserts : Bool) (fd : ℤ) : (init asserts fd).Held where
  socket := by cases asserts <;> rfl
  unreset := by simp [init]

theorem Held.proceed {s t : LoopThread} {n : ℤ} {r : WriteResult} (h : s.Held)
    (hopen : s.closesNext n = false) (hstep : proceed s.conn n r s.todo = some t) : t.Held := by
  obtain ⟨c, todo⟩ := s
  obtain ⟨hsocket, hunreset⟩ := h
  cases todo with
  | nil => cases hstep
  | cons k rest =>
      have hrest : .resetSocket ∉ rest := fun hmem => hunreset (List.mem_cons_of_mem k hmem)
      cases k with
      | resetSocket => exact absurd List.mem_cons_self hunreset
      | handleEvent =>
          obtain rfl := Option.some.inj hstep
          exact ⟨hsocket, by simpa [tests] using hrest⟩
      | hangUpTest =>
          obtain rfl := Option.some.inj hstep
          have hup : hangsUp c.channel.revents = false := hopen
          rw [hup]
          exact ⟨hsocket, hrest⟩
      | errorTest | userCode | rmConnCallback =>
          obtain rfl := Option.some.inj hstep
          exact ⟨hsocket, hrest⟩
      | writeTest =>
          obtain rfl := Option.some.inj hstep
          split
          · exact ⟨(TcpConnection.socket_handleWrite c r).trans hsocket, hrest⟩
          · exact ⟨hsocket, hrest⟩
      | readTest =>
          obtain rfl := Option.some.inj hstep
          cases hread : isReadable c.channel.revents with
          | false => exact ⟨hsocket, hrest⟩
          | true =>
              show Held (handleRead c n rest)
              unfold handleRead
              rw [if_neg (ne_zero_of_open hread hopen)]
              split
              · exact ⟨hsocket, hrest⟩
              · exact ⟨hsocket, by simpa using hrest⟩

/-- Only a close takes the socket from the connection. -/
theorem Held.step {s t : LoopThread} {m : Move} (h : s.Held) (hclose : s.closes m = false)
    (hstep : s.step m = some t) : t.Held := by
  unfold LoopThread.step at hstep
  split at hstep
  · cases hstep
  · cases m with
    | close => cases hclose
    | poll revents =>
        simp only [Option.ite_none_right_eq_some, Option.some.injEq] at hstep
        obtain ⟨-, rfl⟩ := hstep
        exact ⟨h.socket, by simp⟩
    | send msg r =>
        simp only [Option.ite_none_right_eq_some, Option.some.injEq] at hstep
        obtain ⟨-, rfl⟩ := hstep
        unfold TcpConnection.send
        split
        · exact h
        · exact ⟨(TcpConnection.socket_sendTask s.conn msg r).trans h.socket, h.unreset⟩
    | shutdown =>
        simp only [Option.ite_none_right_eq_some, Option.some.injEq] at hstep
        obtain ⟨-, rfl⟩ := hstep
        exact ⟨(TcpConnection.socket_shutdown s.conn).trans h.socket, h.unreset⟩
    | proceed n r => exact h.proceed hclose hstep

end LoopThread

/-! ## What keeps the state -/

namespace TcpConnection

variable (c : TcpConnection)

theorem state_removeChannel : c.removeChannel.state = c.state := by
  refine thenDo_cases (P := fun d => d.state = c.state) (c.check c.channel.isEmptyEvent) rfl ?_
  simp only
  split <;> rfl

theorem state_handleClose : c.handleClose.state = .disconnected := by
  have hstate : ((c.setState .disconnected).interest .disableEvents).state = .disconnected :=
    (frame_interest _ _).state
  refine thenDo_cases (P := fun d => d.state = .disconnected) _ hstate ?_
  exact (state_removeChannel _).trans hstate

end TcpConnection

namespace LoopThread

theorem state_handleClose (c : TcpConnection) (rest : List Todo) :
    (handleClose c rest).conn.state = .disconnected :=
  TcpConnection.thenDo_cases (P := fun d => d.state = .disconnected) c.handleClose
    (TcpConnection.state_handleClose c) (TcpConnection.state_handleClose c)

/-- A connection that has left `Connected` does not come back. -/
theorem connected_of_step {s t : LoopThread} {m : Move} (h : s.step m = some t)
    (ht : t.conn.state = .connected) : s.conn.state = .connected := by
  cases (moved_of_step h).2 with
  | polled => exact ht
  | sent msg r =>
      replace ht : (s.conn.send msg r).state = .connected := ht
      unfold TcpConnection.send at ht
      split at ht
      · exact ht
      · rwa [TcpConnection.state_sendTask] at ht
  | shutdown =>
      replace ht : s.conn.shutdown.state = .connected := ht
      unfold TcpConnection.shutdown at ht
      split at ht
      · exact ht
      · rw [(TcpConnection.frame_shutdownTask _).state] at ht
        cases ht
  | closed => exact absurd ((state_handleClose _ _).symm.trans ht) (by decide)
  | ran n r t h =>
      cases h with
      | closed k rest => exact absurd ((state_handleClose _ _).symm.trans ht) (by decide)
      | removed rest => exact ht
      | quiet k rest pre c htodo hk hpre hevent hc =>
          cases hc with
          | skip => exact ht
          | msgCallback => exact ht
          | written => exact (TcpConnection.handleWrite_frame s.conn r).2.symm.trans ht
          | socketReset =>
              replace ht : s.conn.resetSocket.state = .connected := ht
              unfold TcpConnection.resetSocket at ht
              split at ht
              · exact ht
              · exact ht

/-- After `shutdown` the connection is not in `Connected`. -/
theorem not_connected_of_shutdown {s t : LoopThread} (h : s.step .shutdown = some t) :
    t.conn.state ≠ .connected := by
  intro ht
  have hs := connected_of_step h ht
  cases (moved_of_step h).2
  replace ht : s.conn.shutdown.state = .connected := ht
  rw [TcpConnection.shutdown, if_neg (not_not.mpr hs),
    (TcpConnection.frame_shutdownTask _).state] at ht
  cases ht

/-- After a move that closes it the connection is not in `Connected`. -/
theorem not_connected_of_closes {s t : LoopThread} {m : Move} (h : s.step m = some t)
    (hclose : s.closes m = true) : t.conn.state ≠ .connected := by
  have hclosed (c : TcpConnection) (rest : List Todo) :
      (handleClose c rest).conn.state ≠ .connected := by
    rw [state_handleClose]
    decide
  cases (moved_of_step h).2 with
  | polled | sent | shutdown => cases hclose
  | closed => exact hclosed _ _
  | ran n r t h =>
      cases h with
      | closed k rest => exact hclosed _ _
      | removed rest htodo hnext | quiet k rest pre c htodo hk hpre hevent hc hnext =>
          rw [closes, hnext] at hclose
          cases hclose

end LoopThread

end Lotta
