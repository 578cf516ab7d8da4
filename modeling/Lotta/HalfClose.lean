/-
# Write interest and half-close

Four functions of a connection touch its interest in writing, `outBuf_` and `state_`:
`sendTask` enables writing when it has to keep bytes, `handleWrite` disables it when the
last of them is written, and a `shutdown()` that comes while bytes are waiting leaves the
half-close to `handleWrite`.  Until `handleClose` the three agree (`Discipline`), for every
order of the calls and every answer of the kernel.

`HalfClose` records next to the loop thread whether `shutdown()` has been called.  The
content of `outBuf_` only matters for being empty or not.  Since `makeSpace` can bring
consumed bytes back in front of an append, the step `refill` puts any bytes in front of a
queue that is not empty.
-/
import Lotta.Buffer
import Lotta.ConnectionEffects
import Lotta.Lib.Runs

namespace Lotta

/-- An effect that writes to the descriptor. -/
def Effect.isWrite : Effect → Bool
  | .write _ _ => true
  | _ => false

/-! ## The interest bit -/

namespace Channel

@[simp] theorem isWriting_enableWriting (ch : Channel) : ch.enableWriting.isWriting = true := by
  show ((ch.events ||| kWritePollEvent) &&& kWritePollEvent != 0) = true
  have hbit : (ch.events ||| kWritePollEvent) &&& kWritePollEvent = kWritePollEvent := by
    ext i hi
    simp only [BitVec.getElem_and, BitVec.getElem_or]
    cases kWritePollEvent[i] <;> simp
  rw [hbit]
  decide

@[simp] theorem isWriting_disableWriting (ch : Channel) :
    ch.disableWriting.isWriting = false := by
  show (ch.events &&& ~~~kWritePollEvent &&& kWritePollEvent != 0) = false
  have hbit : ch.events &&& ~~~kWritePollEvent &&& kWritePollEvent = 0 := by
    ext i hi
    simp only [BitVec.getElem_and, BitVec.getElem_not]
    cases kWritePollEvent[i] <;> simp
  rw [hbit]
  rfl

end Channel

/-! ## The law -/

namespace TcpConnection

/-- The channel is interested in writing exactly while bytes wait; the half-close is made
once `shutdown()` was `asked` for and no bytes wait, only once, and nothing is written
after it. -/
structure Discipline (c : TcpConnection) (asked : Bool) : Prop where
  writing_iff : c.channel.isWriting = true ↔ c.outBuf ≠ []
  made_iff : .shutdownWrite ∈ c.log ↔ asked = true ∧ c.outBuf = []
  once : c.log.count .shutdownWrite ≤ 1
  last : c.log.Pairwise fun a b => a = .shutdownWrite → b.isWrite = false

variable {c : TcpConnection} {asked : Bool}

/-- Without a half-close nothing can follow it. -/
theorem pairwise_of_unmade {log : List Effect} (hno : .shutdownWrite ∉ log) :
    log.Pairwise fun a b => a = .shutdownWrite → b.isWrite = false := by
  rw [List.pairwise_iff_forall_sublist]
  rintro a b hab rfl
  exact absurd (hab.subset List.mem_cons_self) hno

/-- Before the half-close. -/
theorem Discipline.of_unmade (hno : .shutdownWrite ∉ c.log)
    (hw : c.channel.isWriting = true ↔ c.outBuf ≠ []) (hout : asked = true → c.outBuf ≠ []) :
    c.Discipline asked where
  writing_iff := hw
  made_iff := by
    constructor
    · intro h
      exact absurd h hno
    · rintro ⟨hasked, hnil⟩
      exact absurd hnil (hout hasked)
  once := by
    rw [List.count_eq_zero_of_not_mem hno]
    exact Nat.zero_le _
  last := pairwise_of_unmade hno

/-- The half-close itself. -/
theorem Discipline.of_made {pre : List Effect} (hlog : c.log = pre ++ [.shutdownWrite])
    (hno : .shutdownWrite ∉ pre) (hw : c.channel.isWriting = false) (hout : c.outBuf = []) :
    c.Discipline true where
  writing_iff := by simp [hw, hout]
  made_iff := by simp [hlog, hout]
  once := by
    rw [hlog, List.count_append, List.count_eq_zero_of_not_mem hno]
    decide
  last := by
    rw [hlog, List.pairwise_append]
    refine ⟨pairwise_of_unmade hno, List.pairwise_singleton _ _, ?_⟩
    rintro a ha b - rfl
    exact absurd ha hno

/-- While bytes wait, or before `shutdown()`, no half-close has been made. -/
theorem Discipline.unmade (h : c.Discipline asked) (hw : asked = true → c.outBuf ≠ []) :
    .shutdownWrite ∉ c.log := by
  rw [h.made_iff]
  rintro ⟨hasked, hnil⟩
  exact hw hasked hnil

/-- An effect that is neither a write nor a half-close keeps the law. -/
theorem Discipline.emit (h : c.Discipline asked) {e : Effect} (hwrite : e.isWrite = false)
    (hshut : e ≠ .shutdownWrite) : (c.emit e).Discipline asked where
  writing_iff := h.writing_iff
  made_iff := by
    show .shutdownWrite ∈ c.log ++ [e] ↔ _
    rw [List.mem_append, List.mem_singleton, or_iff_left hshut.symm]
    exact h.made_iff
  once := by
    show (c.log ++ [e]).count .shutdownWrite ≤ 1
    rw [List.count_append, List.count_singleton, if_neg (by simpa using hshut)]
    exact h.once
  last := by
    show (c.log ++ [e]).Pairwise _
    rw [List.pairwise_append]
    refine ⟨h.last, List.pairwise_singleton _ _, ?_⟩
    rintro a - b hb -
    rw [List.mem_singleton.mp hb]
    exact hwrite

/-! ## What the functions keep -/

/-- What holds until `handleClose`: the channel is registered, no assertion has failed, and
`state_` says whether `shutdown()` has been called. -/
structure Running (c : TcpConnection) (asked : Bool) : Prop where
  registered : c.registration = .registered
  running : c.aborted = false
  state : c.state = if asked then .disconnecting else .connected
  discipline : c.Discipline asked

/-- A call on a registered channel changes its interest set and updates the poller. -/
theorem interest_registered (h : c.registration = .registered) (k : InterestCall) :
    c.interest k = { c with
      channel := k.apply c.channel
      log := c.log ++ [.updateChannel (k.apply c.channel).events] } := by
  simp [interest, updateChannel, emit, h]

/-- `keepRest` does nothing, or it leaves bytes in `outBuf_` with writing enabled; of the log
it only appends an update of the channel. -/
theorem keepRest_cases (h : c.registration = .registered) (msg : Message) (n : ℕ) :
    c.keepRest msg n = c ∨
      ∃ out channel log,
        c.keepRest msg n = { c with outBuf := out, channel := channel, log := log } ∧
        out ≠ [] ∧ channel.isWriting = true ∧ c.log <+: log ∧
        (.shutdownWrite ∈ log ↔ .shutdownWrite ∈ c.log) := by
  rw [TcpConnection.keepRest]
  split
  · rename_i hn
    have hkept : c.outBuf ++ msg.bytes.drop n ≠ [] := by
      intro hnil
      have hdrop := (List.append_eq_nil_iff.mp hnil).2
      rw [List.drop_eq_nil_iff] at hdrop
      exact absurd hn (not_lt.mpr hdrop)
    simp only
    split
    · rw [interest_registered (by exact h)]
      exact Or.inr ⟨_, _, _, rfl, hkept, Channel.isWriting_enableWriting _, List.prefix_append _ _,
        by simp [setOutBuf]⟩
    · rename_i hw
      exact Or.inr ⟨_, _, _, rfl, hkept, by simpa [setOutBuf] using hw, List.prefix_rfl, Iff.rfl⟩
  · exact Or.inl rfl

theorem Running.keepRest (h : c.Running false) (msg : Message) (n : ℕ) :
    (c.keepRest msg n).Running false := by
  rcases keepRest_cases h.registered msg n with heq | ⟨out, channel, log, heq, hout, hw, -, hmade⟩
  · rw [heq]
    exact h
  · rw [heq]
    have hno : .shutdownWrite ∉ c.log := h.discipline.unmade (by simp)
    exact ⟨h.registered, h.running, h.state,
      .of_unmade (fun hmem => hno (hmade.mp hmem)) (iff_of_true hw hout) (by simp)⟩

/-- `send` before `shutdown()`. -/
theorem Running.sendTask (h : c.Running false) (msg : Message) (r : WriteResult) :
    (c.sendTask msg r).Running false := by
  rw [TcpConnection.sendTask]
  apply Running.keepRest
  split
  · have hno : .shutdownWrite ∉ c.log := h.discipline.unmade (by simp)
    refine ⟨h.registered, h.running, h.state, .of_unmade ?_ h.discipline.writing_iff (by simp)⟩
    simpa [TcpConnection.emit] using hno
  · exact h

/-- `send` does nothing after `shutdown()`. -/
theorem Running.send (h : c.Running asked) (msg : Message) (r : WriteResult) :
    (c.send msg r).Running asked := by
  rw [TcpConnection.send]
  split
  · exact h
  · rename_i hstate
    cases asked with
    | false => exact h.sendTask msg r
    | true =>
        rw [show c.state = .disconnecting from h.state] at hstate
        exact absurd (by decide) hstate

/-- `shutdown` makes the half-close at once when no bytes wait, and otherwise leaves it
to `handleWrite`. -/
theorem Running.shutdown (h : c.Running asked) : c.shutdown.Running true := by
  rw [TcpConnection.shutdown]
  cases asked with
  | true =>
      rw [if_pos (by rw [h.state]; decide)]
      exact h
  | false =>
      rw [if_neg (by rw [h.state]; decide), shutdownTask]
      have hno : .shutdownWrite ∉ (c.setState .disconnecting).log := by
        simpa [setState] using h.discipline.unmade (by simp)
      split
      · rename_i hw
        refine ⟨h.registered, h.running, rfl, .of_unmade hno h.discipline.writing_iff ?_⟩
        exact fun _ => h.discipline.writing_iff.mp hw
      · rename_i hw
        have hidle : c.channel.isWriting = false := Bool.eq_false_iff.mpr hw
        refine ⟨h.registered, h.running, rfl, .of_made rfl hno hidle ?_⟩
        by_contra hout
        exact hw (h.discipline.writing_iff.mpr hout)

/-- What `handleWrite` does after the last byte: it stops watching, and makes the
half-close that `shutdown()` has left to it. -/
theorem outputDone_eq (hreg : c.registration = .registered) (hrun : c.aborted = false)
    (hstate : c.state = if asked then .disconnecting else .connected) :
    c.outputDone = if asked then (c.interest .disableWriting).emit .shutdownWrite
      else c.interest .disableWriting := by
  have hidle : (InterestCall.disableWriting.apply c.channel).isWriting = false :=
    Channel.isWriting_disableWriting _
  rw [TcpConnection.outputDone, interest_registered hreg, thenDo, if_neg (by simp [hrun])]
  cases asked with
  | true =>
      rw [if_pos (show c.state = .disconnecting from hstate), shutdownTask,
        if_neg (by simp [hidle])]
      rfl
  | false =>
      rw [if_neg (by simp [show c.state = .connected from hstate])]
      rfl

theorem Running.outputDone (hreg : c.registration = .registered) (hrun : c.aborted = false)
    (hstate : c.state = if asked then .disconnecting else .connected)
    (hno : .shutdownWrite ∉ c.log) (hout : c.outBuf = []) : c.outputDone.Running asked := by
  have hidle : (InterestCall.disableWriting.apply c.channel).isWriting = false :=
    Channel.isWriting_disableWriting _
  have hlog : .shutdownWrite ∉ c.log ++
      [.updateChannel (InterestCall.disableWriting.apply c.channel).events] := by
    simpa using hno
  rw [outputDone_eq hreg hrun hstate, interest_registered hreg]
  cases asked with
  | true => exact ⟨hreg, hrun, hstate, .of_made rfl hlog hidle hout⟩
  | false => exact ⟨hreg, hrun, hstate, .of_unmade hlog (by simp [hidle, hout]) (by simp)⟩

/-- `handleWrite` writes only while bytes wait. -/
theorem Running.handleWrite (h : c.Running asked) (r : WriteResult) :
    (c.handleWrite r).Running asked := by
  rw [TcpConnection.handleWrite]
  split
  · exact h
  · rename_i hidle
    have hw : c.channel.isWriting = true := by simpa using hidle
    have hout : c.outBuf ≠ [] := h.discipline.writing_iff.mp hw
    have hno : .shutdownWrite ∉ c.log := h.discipline.unmade fun _ => hout
    simp only
    generalize r.returned c.outBuf.length = n
    have hlog : .shutdownWrite ∉ (c.emit (.write c.outBuf n)).log := by
      simpa [TcpConnection.emit] using hno
    split
    · -- the kernel has taken nothing
      exact ⟨h.registered, h.running, h.state,
        .of_unmade hlog h.discipline.writing_iff fun _ => hout⟩
    · split
      · rename_i hempty
        exact Running.outputDone h.registered h.running h.state hlog
          (List.eq_nil_of_length_eq_zero hempty)
      · rename_i hleft
        have hrest : c.outBuf.drop n.toNat ≠ [] := fun hnil => hleft (by
          show (c.outBuf.drop n.toNat).length = 0
          rw [hnil]
          rfl)
        refine ⟨h.registered, h.running, h.state, .of_unmade hlog ?_ fun _ => hrest⟩
        exact iff_of_true hw hrest

/-- The other pieces of code. -/
theorem Running.quiet (h : c.Running asked) {r : WriteResult} {d : TcpConnection}
    (hd : LoopThread.Quiet c r d) : d.Running asked := by
  cases hd with
  | skip => exact h
  | msgCallback =>
      exact ⟨h.registered, h.running, h.state, h.discipline.emit rfl (by simp)⟩
  | written => exact h.handleWrite r
  | socketReset =>
      rw [resetSocket]
      split
      · obtain ⟨hw, hmade, honce, hlast⟩ :=
          h.discipline.emit (e := .closeSocket) rfl (by simp)
        exact ⟨h.registered, h.running, h.state, ⟨hw, hmade, honce, hlast⟩⟩
      · exact h

end TcpConnection

/-! ## Runs -/

/-- A connection on its loop thread, and whether `shutdown()` has been called. -/
structure HalfClose where
  thread : LoopThread
  asked : Bool

/-- The steps: a move of the loop thread, and the return of consumed bytes to `outBuf_`. -/
inductive HalfCloseOp where
  | move (m : Move)
  | refill (stale : List UInt8)

namespace HalfClose

/-- The move is a call of `shutdown()`. -/
def asks : Move → Bool
  | .shutdown => true
  | _ => false

/-- A connection in the `connCallback_` of `connEstablished`. -/
def init (asserts : Bool) (fd : ℤ) : HalfClose := ⟨LoopThread.init asserts fd, false⟩

/-- One step. -/
def step (s : HalfClose) : HalfCloseOp → Option HalfClose
  | .move m => (s.thread.step m).map fun t => ⟨t, s.asked || asks m⟩
  | .refill stale =>
      if s.thread.conn.outBuf = [] then none
      else some { s with thread := { s.thread with
        conn := s.thread.conn.setOutBuf (stale ++ s.thread.conn.outBuf) } }

/-- The step does not run `handleClose`. -/
def NotClosing (s : HalfClose) : HalfCloseOp → Prop
  | .move m => s.thread.closes m = false
  | .refill _ => True

instance (s : HalfClose) (op : HalfCloseOp) : Decidable (s.NotClosing op) :=
  match op with
  | .move _ => inferInstanceAs (Decidable (_ = _))
  | .refill _ => isTrue trivial

/-- What `outBuf_` holds after an append: the bytes of an ideal queue, and in front of
them perhaps consumed ones. -/
theorem refill_of_append {b : Buffer} (h : b.Wf) (xs : List UInt8) (slack : ℕ) :
    ∃ stale, (b.append xs slack).content = stale ++ (b.content ++ xs) := by
  rw [Buffer.content_append h, Buffer.content_makeSpace]
  split
  · rename_i hdrained
    refine ⟨b.data.data, ?_⟩
    have hnil : b.content = [] := (Buffer.content_eq_nil_iff b).mpr hdrained.2.1
    rw [hnil, List.nil_append]
  · exact ⟨[], rfl⟩

/-- A step that does not run `handleClose` keeps the law. -/
theorem running_step {s t : HalfClose} {op : HalfCloseOp} (h : s.thread.conn.Running s.asked)
    (hok : s.NotClosing op) (hstep : s.step op = some t) : t.thread.conn.Running t.asked := by
  cases op with
  | refill stale =>
      simp only [step, Option.ite_none_left_eq_some, Option.some.injEq] at hstep
      obtain ⟨hout, rfl⟩ := hstep
      have hmore : stale ++ s.thread.conn.outBuf ≠ [] := by simp [hout]
      have hno := h.discipline.unmade fun _ => hout
      exact ⟨h.registered, h.running, h.state,
        .of_unmade hno (iff_of_true (h.discipline.writing_iff.mpr hout) hmore) fun _ => hmore⟩
  | move m =>
      rw [step, Option.map_eq_some_iff] at hstep
      obtain ⟨u, hmove, rfl⟩ := hstep
      obtain ⟨-, hm⟩ := LoopThread.moved_of_step hmove
      cases hm with
      | polled revents htodo hreg =>
          obtain ⟨hw, hmade, honce, hlast⟩ := h.discipline
          show TcpConnection.Running _ (s.asked || false)
          rw [Bool.or_false]
          exact ⟨h.registered, h.running, h.state, ⟨hw, hmade, honce, hlast⟩⟩
      | sent msg r =>
          show TcpConnection.Running _ (s.asked || false)
          rw [Bool.or_false]
          exact h.send msg r
      | shutdown =>
          show TcpConnection.Running _ (s.asked || true)
          rw [Bool.or_true]
          exact h.shutdown
      | closed => cases hok
      | ran n r t hran =>
          show TcpConnection.Running _ (s.asked || false)
          rw [Bool.or_false]
          cases hran with
          | closed k rest htodo hk hnext =>
              rw [NotClosing, LoopThread.closes, hnext] at hok
              cases hok
          | removed rest htodo hnext =>
              exact ⟨h.registered, h.running, h.state, h.discipline.emit rfl (by simp)⟩
          | quiet k rest pre c htodo hk hpre hevent hc hnext => exact h.quiet hc

theorem running_init (asserts : Bool) (fd : ℤ) :
    (init asserts fd).thread.conn.Running (init asserts fd).asked := by
  show (TcpConnection.established asserts fd).Running false
  rw [TcpConnection.established_eq]
  refine ⟨rfl, rfl, rfl, .of_unmade (by simp) ?_ (by simp)⟩
  show (Channel.init fd).enableReading.isWriting = true ↔ _
  simp only [ne_eq, not_true_eq_false, iff_false]
  show ¬ ((0 ||| kReadPollEvent) &&& kWritePollEvent != 0) = true
  decide

/-- From `connEstablished` until `handleClose`, the interest in writing, `outBuf_` and the
half-close keep to the law in every state of every run. -/
theorem run_discipline (asserts : Bool) (fd : ℤ) (ops : List HalfCloseOp)
    (hops : Runs.AllSteps step NotClosing (init asserts fd) ops) :
    Runs.Along step (fun s => s.thread.conn.Discipline s.asked) (init asserts fd) ops :=
  (Runs.Along.of_steps (P := fun s => s.thread.conn.Running s.asked)
    (fun _ _ _ h hok hstep => running_step h hok hstep) (running_init asserts fd) hops).mono
    fun _ h => h.discipline

/-- A partial write, a `shutdown()` with a byte waiting, and the writable event that drains
it and makes the half-close. -/
theorem run_discipline_drained :
    let ops := [HalfCloseOp.move (.send ⟨[1, 2], by decide⟩ (.accepted 1)), .move .shutdown,
      .move (.proceed 0 .failed), .move (.poll pollOut), .move (.proceed 1 .failed),
      .move (.proceed 1 .failed), .move (.proceed 1 .failed), .move (.proceed 1 .failed),
      .move (.proceed 1 (.accepted 1))]
    Runs.AllSteps step NotClosing (init true 7) ops ∧
      ((Runs.run step (init true 7) ops).any fun s =>
        decide (.shutdownWrite ∈ s.thread.conn.log)) = true ∧
      Runs.Along step (fun s => s.thread.conn.Discipline s.asked) (init true 7) ops :=
  ⟨by decide, by decide, run_discipline true 7 _ (by decide)⟩

end HalfClose

end Lotta
