/-
# Output that waits is written

The order of the bytes says what the kernel gets; here is that it gets them.  A byte that is in
`outBuf_` has been taken after as many further writable events as there are bytes up to it,
whatever else happens on the loop thread in between: sends in callbacks, a `shutdown()`, events of
another kind, appends that bring consumed bytes back.  The kernel is asked only that a write
which follows a writable event takes at least one byte, and the bound is for the case that it
never takes more.  A `shutdown()` that came while bytes were waiting has made its half-close after
the same number of events.

What may come in between is the end of the connection: `handleClose` drops what waits.
-/
import Lotta.BufferedOutput
import Lotta.HalfClose
import Lotta.Lib.Countdown

namespace Lotta

/-- A poll event that reports the socket to be writable. -/
def Move.reportsWritable : Move → Bool
  | .poll revents => isWritable revents
  | _ => false

namespace LoopThread

/-- `handleEvent` has still to come to its test for a writable socket. -/
def awaitsWriteTest (todo : List Todo) : Bool :=
  todo.any fun k => decide (k = .handleEvent) || decide (k = .writeTest)

/-- A writable event has been reported, and `handleWrite` is still to be called for it. -/
def writeDue (s : LoopThread) : Bool :=
  isWritable s.conn.channel.revents && awaitsWriteTest s.todo

/-- The number of writable events still to come until the byte at place `i` of the stream has
been taken, when each write takes one byte. -/
def writesLeft (s : LoopThread) (i : ℕ) : ℕ :=
  i + 1 - s.conn.kernel.length - if s.writeDue then 1 else 0

/-- The condition on a step: a write of `handleWrite` takes at least one byte. -/
def TakesSome (s : LoopThread) : Move → Prop
  | .proceed _ r => s.todo.head? = some .writeTest → isWritable s.conn.channel.revents = true →
      s.conn.channel.isWriting = true → 0 < r.returned s.conn.outBuf.length
  | _ => True

instance (s : LoopThread) : (m : Move) → Decidable (s.TakesSome m)
  | .proceed _ _ => inferInstanceAs (Decidable (_ → _))
  | .poll _ | .send _ _ | .shutdown | .close => isTrue trivial

end LoopThread

/-! ## What leaves the last events alone -/

namespace TcpConnection

variable {c : TcpConnection} {asked : Bool}

theorem revents_interest (k : InterestCall) :
    (c.interest k).channel.revents = c.channel.revents := by
  have happly : (k.apply c.channel).revents = c.channel.revents := by
    cases k <;> rfl
  unfold interest updateChannel
  simp only
  split
  · exact happly
  · exact happly
  · exact happly

theorem revents_sendTask (msg : Message) (r : WriteResult) :
    (c.sendTask msg r).channel.revents = c.channel.revents := by
  have hkeep : ∀ (d : TcpConnection) (n : ℕ),
      (d.keepRest msg n).channel.revents = d.channel.revents := by
    intro d n
    unfold keepRest
    split
    · simp only
      split
      · exact revents_interest _
      · rfl
    · rfl
  unfold sendTask
  simp only
  rw [hkeep]
  split
  · rfl
  · rfl

theorem revents_shutdown : c.shutdown.channel.revents = c.channel.revents := by
  unfold shutdown
  split
  · rfl
  · unfold shutdownTask
    split
    · rfl
    · rfl

/-- Other bytes may stand in `outBuf_`, as long as it is empty or not as before. -/
theorem Running.setOutBuf (h : c.Running asked) {xs : List UInt8} (hxs : xs = [] ↔ c.outBuf = []) :
    (c.setOutBuf xs).Running asked := by
  obtain ⟨hwriting, hmade, honce, hlast⟩ := h.discipline
  refine ⟨h.registered, h.running, h.state, ⟨?_, ?_, honce, hlast⟩⟩
  · exact hwriting.trans (not_congr hxs.symm)
  · exact hmade.trans (and_congr_right fun _ => hxs.symm)

/-- A registered channel that is interested in writing exactly while bytes wait, in a process
that no assertion has stopped. -/
structure Watches (c : TcpConnection) : Prop where
  registered : c.registration = .registered
  running : c.aborted = false
  writing_iff : c.channel.isWriting = true ↔ c.outBuf ≠ []

theorem Running.watches (h : c.Running asked) : c.Watches :=
  ⟨h.registered, h.running, h.discipline.writing_iff⟩

/-- The bytes that `handleWrite` gives to the kernel. -/
theorem kernel_handleWrite_lt (h : c.Watches) {r : WriteResult} (hwait : c.outBuf ≠ [])
    (htakes : 0 < r.returned c.outBuf.length) :
    c.kernel.length < (c.handleWrite r).kernel.length := by
  have hwriting : c.channel.isWriting = true := h.writing_iff.mpr hwait
  have hwrite : (c.handleWrite r).kernel =
      c.kernel ++ c.outBuf.take (r.returned c.outBuf.length).toNat := by
    rw [handleWrite, hwriting]
    simp only [Bool.not_true, Bool.false_eq_true, if_false, if_neg (not_le.mpr htakes)]
    split
    · rw [(frame_outputDone _).kernel, kernel_setOutBuf, kernel_emit]
      rfl
    · rw [kernel_setOutBuf, kernel_emit]
      rfl
  rw [hwrite, List.length_append, List.length_take]
  have hlen : 0 < c.outBuf.length := List.length_pos_iff.mpr hwait
  omega

end TcpConnection

/-! ## The moves -/

namespace LoopThread

variable {s t : LoopThread} {m : Move}

/-- A step after which as much has been taken, and a write is due if one was. -/
theorem writesLeft_mono (i : ℕ) (hkernel : s.conn.kernel.length ≤ t.conn.kernel.length)
    (hdue : s.writeDue = true → t.writeDue = true) : t.writesLeft i ≤ s.writesLeft i := by
  unfold writesLeft
  cases hs : s.writeDue with
  | false =>
      simp only [Bool.false_eq_true, if_false]
      omega
  | true =>
      rw [hdue hs]
      omega

/-- A write that takes something is worth the event that it was due for. -/
theorem writesLeft_of_taken (i : ℕ) (hkernel : s.conn.kernel.length < t.conn.kernel.length)
    (hdue : s.writeDue = true) : t.writesLeft i ≤ s.writesLeft i := by
  unfold writesLeft
  rw [hdue, if_pos rfl]
  omega

/-- A write is due after a piece of code that leaves the events alone and is not the test. -/
theorem writeDue_of_rest {c : TcpConnection} {k : Todo} {rest : List Todo} (pre : List Todo)
    (htodo : s.todo = k :: rest) (hrevents : c.channel.revents = s.conn.channel.revents)
    (hk : k ≠ .handleEvent ∧ k ≠ .writeTest) (hdue : s.writeDue = true) :
    writeDue ⟨c, pre ++ rest⟩ = true := by
  unfold writeDue awaitsWriteTest at *
  rw [htodo, List.any_cons, decide_eq_false hk.1, decide_eq_false hk.2, Bool.false_or,
    Bool.false_or, Bool.and_eq_true] at hdue
  rw [hrevents, hdue.1, List.any_append, hdue.2, Bool.or_true]
  rfl

/-- The next piece of code brings the byte nearer when it writes, and never takes it further
away. -/
theorem writesLeft_proceed {n : ℤ} {r : WriteResult} (h : s.conn.Watches) {i : ℕ}
    (hi : i < s.conn.fifo.history.length) (hwaits : s.conn.kernel.length ≤ i)
    (htakes : s.TakesSome (.proceed n r)) (hopen : s.closesNext n = false)
    (hstep : proceed s.conn n r s.todo = some t) : t.writesLeft i ≤ s.writesLeft i := by
  have hserved := (served_of_ran (ran_of_proceed hstep)).taken.length_le
  obtain ⟨c, todo⟩ := s
  cases todo with
  | nil => cases hstep
  | cons k rest =>
      cases k with
      | handleEvent =>
          obtain rfl := Option.some.inj hstep
          refine writesLeft_mono i hserved fun hdue => ?_
          unfold writeDue at *
          rw [Bool.and_eq_true] at hdue
          rw [hdue.1]
          rfl
      | writeTest =>
          obtain rfl := Option.some.inj hstep
          cases hwritable : isWritable c.channel.revents with
          | false =>
              refine writesLeft_mono i (Nat.le_refl _) fun hdue => ?_
              unfold writeDue at hdue
              rw [hwritable] at hdue
              cases hdue
          | true =>
              have hwait : c.outBuf ≠ [] := by
                intro hnil
                rw [Fifo.history, List.length_append, show c.fifo.content = [] from hnil] at hi
                exact absurd hi (not_lt.mpr hwaits)
              have hwriting := h.writing_iff.mpr hwait
              rw [if_pos rfl]
              refine writesLeft_of_taken i (TcpConnection.kernel_handleWrite_lt h hwait
                (htakes rfl hwritable hwriting)) ?_
              unfold writeDue
              rw [hwritable]
              rfl
      | hangUpTest =>
          obtain rfl := Option.some.inj hstep
          have hup : hangsUp c.channel.revents = false := hopen
          rw [hup] at hserved ⊢
          exact writesLeft_mono i hserved
            (writeDue_of_rest [] rfl rfl (by decide))
      | errorTest | userCode =>
          obtain rfl := Option.some.inj hstep
          exact writesLeft_mono i hserved
            (writeDue_of_rest [] rfl rfl (by decide))
      | rmConnCallback =>
          obtain rfl := Option.some.inj hstep
          exact writesLeft_mono i hserved
            (writeDue_of_rest [] rfl rfl (by decide))
      | resetSocket =>
          obtain rfl := Option.some.inj hstep
          refine writesLeft_mono i hserved
            (writeDue_of_rest [] rfl ?_ (by decide))
          unfold TcpConnection.resetSocket
          split
          · rfl
          · rfl
      | readTest =>
          obtain rfl := Option.some.inj hstep
          have hsame (pre : List Todo) (d : TcpConnection) (hkernel : d.kernel = c.kernel)
              (hrevents : d.channel.revents = c.channel.revents) :
              writesLeft ⟨d, pre ++ rest⟩ i ≤ writesLeft ⟨c, .readTest :: rest⟩ i :=
            writesLeft_mono i (Nat.le_of_eq (congrArg List.length hkernel.symm))
              (writeDue_of_rest pre rfl hrevents (by decide))
          cases hread : isReadable c.channel.revents with
          | false => exact hsame [] c rfl rfl
          | true =>
              show writesLeft (handleRead c n rest) i ≤ _
              unfold handleRead
              rw [if_neg (ne_zero_of_open hread hopen)]
              split
              · exact hsame [] c rfl rfl
              · exact hsame [.userCode] (c.emit .msgCallback) (by simp [Effect.taken]) rfl

/-- Every writable event brings the byte nearer, and no other move takes it further away, until
the connection is closed. -/
theorem writesLeft_step (h : s.conn.Watches) {i : ℕ}
    (hi : i < s.conn.fifo.history.length) (hwaits : s.conn.kernel.length ≤ i)
    (hsend : ∀ msg r, m ≠ .send msg r) (htakes : s.TakesSome m) (hopen : s.closes m = false)
    (hstep : s.step m = some t) :
    t.writesLeft i + (if m.reportsWritable then 1 else 0) ≤ s.writesLeft i := by
  have hrun : ¬ s.conn.aborted = true := by simp [h.running]
  unfold step at hstep
  rw [if_neg hrun] at hstep
  cases m with
  | send msg r => exact absurd rfl (hsend msg r)
  | close => cases hopen
  | poll revents =>
      simp only [Option.ite_none_right_eq_some, Option.some.injEq] at hstep
      obtain ⟨⟨htodo, -⟩, rfl⟩ := hstep
      have hbefore : s.writeDue = false := by
        unfold writeDue
        rw [htodo]
        exact Bool.and_false _
      have hafter : writeDue ⟨{ s.conn with channel := { s.conn.channel with revents := revents } },
          [.handleEvent]⟩ = isWritable revents := Bool.and_true _
      unfold writesLeft
      rw [hbefore, hafter]
      show i + 1 - s.conn.kernel.length - _ + _ ≤ i + 1 - s.conn.kernel.length - 0
      cases hwritable : isWritable revents with
      | false => simp [Move.reportsWritable, hwritable]
      | true =>
          simp only [Move.reportsWritable, hwritable, if_true]
          omega
  | shutdown =>
      simp only [Option.ite_none_right_eq_some, Option.some.injEq] at hstep
      obtain ⟨-, rfl⟩ := hstep
      refine writesLeft_mono i (Nat.le_of_eq ?_) fun hdue => ?_
      · exact congrArg (fun q => q.taken.length) (TcpConnection.fifo_shutdown s.conn).symm
      · unfold writeDue at *
        rwa [TcpConnection.revents_shutdown]
  | proceed n r => exact writesLeft_proceed h hi hwaits htakes hopen hstep

end LoopThread

/-! ## The sends -/

/-- A send leaves what has been taken and what waits in its place. -/
theorem TcpConnection.fifo_sendTask_grows (c : TcpConnection) (msg : Message) (r : WriteResult) :
    c.fifo.taken <+: (c.sendTask msg r).fifo.taken ∧
      c.fifo.history <+: (c.sendTask msg r).fifo.history := by
  cases hc : c.writesDirectly with
  | false =>
      rw [fifo_sendTask_buffered hc, Fifo.history_push]
      exact ⟨List.prefix_rfl, List.prefix_append _ _⟩
  | true =>
      cases r with
      | accepted k =>
          rw [fifo_sendTask_accepted hc, Fifo.history_pop, Fifo.history_push]
          exact ⟨List.prefix_append _ _, List.prefix_append _ _⟩
      | failed =>
          rw [fifo_sendTask_failed hc]
          exact ⟨List.prefix_rfl, List.prefix_rfl⟩

namespace BufferedConnection

variable (c : BufferedConnection) (msg : Message) (r : WriteResult)

/-- What `sendTask` leaves in `outBuf_` is empty only together with what an ideal one does. -/
theorem afterSend_eq_nil_iff (hwf : c.outBuf.Wf) (slack : ℕ) :
    c.afterSend msg r slack = [] ↔ (c.ideal.sendTask msg r).outBuf = [] := by
  rw [outBuf_sendTask_ideal]
  unfold afterSend
  split
  · rename_i hless
    obtain ⟨stale, hstale⟩ :=
      HalfClose.refill_of_append hwf (msg.bytes.drop (c.sendCount msg r)) slack
    have hrest : msg.bytes.drop (c.sendCount msg r) ≠ [] := by
      rw [ne_eq, List.drop_eq_nil_iff, not_le]
      exact hless
    rw [hstale]
    exact iff_of_false (by simp [hrest]) (by simp [hrest])
  · rename_i hall
    rw [List.drop_eq_nil_of_le (not_lt.mp hall), List.append_nil]

/-- A `sendTask` before `shutdown()`. -/
theorem running_sendTask {c : BufferedConnection} (hwf : c.outBuf.Wf) (h : c.ideal.Running false)
    (slack : ℕ) : (c.sendTask msg r slack).ideal.Running false := by
  rw [ideal_sendTask]
  exact (h.sendTask msg r).setOutBuf (afterSend_eq_nil_iff c msg r hwf slack)

/-- What `sendTask` leaves of the stream stands in its place: bytes come back only behind a queue
that has been drained. -/
theorem history_sendTask_grows {c : BufferedConnection} (hwf : c.outBuf.Wf) (slack : ℕ) :
    c.ideal.fifo.history <+: (c.sendTask msg r slack).ideal.fifo.history := by
  obtain ⟨htaken, hhistory⟩ := TcpConnection.fifo_sendTask_grows c.ideal msg r
  rw [ideal_sendTask]
  by_cases hrefills : c.Refills msg r
  · have hnil : c.outBuf.content = [] := (Buffer.content_eq_nil_iff _).mpr hrefills.2.2.1
    have hall : c.ideal.fifo.history = c.ideal.fifo.taken := by
      rw [Fifo.history, show c.ideal.fifo.content = [] from hnil, List.append_nil]
    rw [hall]
    exact htaken.trans (List.prefix_append _ _)
  · rw [(afterSend_eq_iff msg r hwf slack).mpr hrefills]
    exact hhistory

/-- A send takes nothing back from the kernel, and it leaves the last events alone. -/
theorem send_frame (slack : ℕ) :
    c.base.kernel <+: (c.send msg r slack).base.kernel ∧
      (c.send msg r slack).base.channel.revents = c.base.channel.revents := by
  unfold send
  split
  · exact ⟨List.prefix_rfl, rfl⟩
  · have hideal := ideal_sendTask c msg r slack
    have hkernel := congrArg TcpConnection.kernel hideal
    have hchannel := congrArg (fun d => d.channel.revents) hideal
    refine ⟨?_, ?_⟩
    · show c.base.kernel <+: (c.sendTask msg r slack).ideal.kernel
      rw [hkernel]
      exact (TcpConnection.fifo_sendTask_grows c.ideal msg r).1
    · exact hchannel.trans (TcpConnection.revents_sendTask msg r)

end BufferedConnection

/-! ## The steps with the real buffer -/

namespace BufferedThread

variable {s t : BufferedThread} {op : Move × ℕ} {asked : Bool}

/-- The condition on a step: a write of `handleWrite` takes at least one byte. -/
def TakesSome (s : BufferedThread) (op : Move × ℕ) : Prop := s.ideal.TakesSome op.1

instance (s : BufferedThread) (op : Move × ℕ) : Decidable (s.TakesSome op) :=
  inferInstanceAs (Decidable (s.ideal.TakesSome op.1))

/-- The bytes that the kernel has taken, followed by those in `outBuf_`. -/
def stream (s : BufferedThread) : List UInt8 := s.conn.ideal.fifo.history

/-- A step is a send, or a move of the ideal thread. -/
theorem step_cases (hwf : s.conn.outBuf.Wf) (hstep : s.step op = some t) :
    (∃ msg r slack, op = (.send msg r, slack) ∧ t = ⟨s.conn.send msg r slack, s.todo⟩) ∨
      (∀ msg r, op.1 ≠ .send msg r) ∧ s.ideal.step op.1 = some t.ideal := by
  have hmirrored := mirrored_step_iff hwf hstep
  rw [Mirrored, Runs.Mirrored, hstep, Option.map_some] at hmirrored
  cases (moved_of_step hstep).2 with
  | sent msg r slack huser => exact Or.inl ⟨msg, r, slack, rfl, rfl⟩
  | wrote n r slack rest c htodo hevent hc =>
      exact Or.inr ⟨fun _ _ => by simp, hmirrored.mpr trivial⟩
  | elsewhere m slack t hsend hideal => exact Or.inr ⟨hsend, hideal⟩

/-- What the kernel has taken stays taken. -/
theorem kernel_of_step (hwf : s.conn.outBuf.Wf) (hstep : s.step op = some t) :
    s.conn.base.kernel <+: t.conn.base.kernel := by
  rcases step_cases hwf hstep with ⟨msg, r, slack, rfl, rfl⟩ | ⟨hsend, hideal⟩
  · exact (s.conn.send_frame msg r slack).1
  · exact (LoopThread.served_of_step hsend hideal).taken

/-- What is in the stream stays in its place. -/
theorem stream_of_step (hwf : s.conn.outBuf.Wf) (hstep : s.step op = some t) :
    s.stream <+: t.stream := by
  rcases step_cases hwf hstep with ⟨msg, r, slack, rfl, rfl⟩ | ⟨hsend, hideal⟩
  · unfold stream BufferedConnection.send
    split
    · exact List.prefix_rfl
    · exact BufferedConnection.history_sendTask_grows msg r hwf slack
  · rw [stream, stream, show t.conn.ideal.fifo.history = _ from
      (LoopThread.served_of_step hsend hideal).history]
    exact List.prefix_rfl

/-- A connection that is gone stays so. -/
theorem gone_of_step (hwf : s.conn.outBuf.Wf) (h : s.conn.base.Gone)
    (hstep : s.step op = some t) : t.conn.base.Gone := by
  rcases step_cases hwf hstep with ⟨msg, r, slack, rfl, rfl⟩ | ⟨hsend, hideal⟩
  · show (s.conn.send msg r slack).base.Gone
    unfold BufferedConnection.send
    rwa [if_pos h.state]
  · obtain ⟨hrun, hmoved⟩ := LoopThread.moved_of_step hideal
    have hgone := (LoopThread.gone_of_moved h.not_fresh hrun hmoved
      (Or.inr ⟨h.registration, h.not_writing, h.state⟩)).1
    exact ⟨hgone.registration, hgone.not_writing, hgone.state⟩

/-- A send, which accepts nothing after `shutdown()`. -/
theorem running_send (hwf : s.conn.outBuf.Wf) (h : s.conn.ideal.Running asked) (msg : Message)
    (r : WriteResult) (slack : ℕ) :
    (s.conn.send msg r slack).ideal.Running asked ∧
      (asked = true → stream ⟨s.conn.send msg r slack, s.todo⟩ = s.stream) := by
  have hstate : s.conn.base.state = if asked then .disconnecting else .connected := h.state
  cases asked with
  | true =>
      have hsame : s.conn.send msg r slack = s.conn := by
        unfold BufferedConnection.send
        rw [if_pos (by rw [hstate]; decide)]
      rw [hsame]
      exact ⟨h, fun _ => rfl⟩
  | false =>
      have hsent : s.conn.send msg r slack = s.conn.sendTask msg r slack := by
        unfold BufferedConnection.send
        rw [if_neg (by rw [hstate]; decide)]
      rw [hsent]
      exact ⟨BufferedConnection.running_sendTask msg r hwf h slack, fun hasked => by cases hasked⟩

/-- A move that runs `handleClose`. -/
theorem gone_of_closes (h : s.conn.ideal.Running asked) (hcloses : s.ideal.closes op.1 = true)
    (hideal : s.ideal.step op.1 = some t.ideal) : t.conn.base.Gone := by
  have hfresh : s.ideal.conn.registration ≠ .fresh := by
    rw [show s.ideal.conn.registration = .registered from h.registered]
    decide
  obtain ⟨hrun, hmoved⟩ := LoopThread.moved_of_step hideal
  have hgone := (LoopThread.gone_of_moved hfresh hrun hmoved (Or.inl hcloses)).1
  exact ⟨hgone.registration, hgone.not_writing, hgone.state⟩

/-- What one step makes of a connection that has not been closed, when `shutdown()` has been
`asked` for or not. -/
theorem running_of_step (hwf : s.conn.outBuf.Wf) (h : s.conn.ideal.Running asked)
    (hstep : s.step op = some t) :
    t.conn.base.Gone ∨ t.conn.ideal.Running (asked || HalfClose.asks op.1) ∧
      (asked = true → t.stream = s.stream) := by
  rcases step_cases hwf hstep with ⟨msg, r, slack, rfl, rfl⟩ | ⟨hsend, hideal⟩
  · rw [show (asked || HalfClose.asks (.send msg r)) = asked from Bool.or_false _]
    exact Or.inr (running_send hwf h msg r slack)
  · cases hcloses : s.ideal.closes op.1 with
    | true => exact Or.inl (gone_of_closes h hcloses hideal)
    | false =>
        have hserved := LoopThread.served_of_step hsend hideal
        have hhalf : HalfClose.step ⟨s.ideal, asked⟩ (.move op.1) =
            some ⟨t.ideal, asked || HalfClose.asks op.1⟩ := by
          rw [HalfClose.step, hideal]
          rfl
        have hopen : HalfClose.NotClosing ⟨s.ideal, asked⟩ (.move op.1) := hcloses
        exact Or.inr ⟨HalfClose.running_step h hopen hhalf, fun _ => hserved.history⟩

/-! ## What holds along a run -/

/-- A connection that has been closed, or that serves its output. -/
structure Alive (s : BufferedThread) : Prop where
  wf : s.conn.outBuf.Wf
  path : s.conn.base.Gone ∨ ∃ asked, s.conn.ideal.Running asked

theorem alive_init (asserts : Bool) (fd : ℤ) (capacity : ℕ) :
    (init asserts fd capacity).Alive := by
  refine ⟨Buffer.wf_init capacity, Or.inr ⟨false, ?_⟩⟩
  show (init asserts fd capacity).ideal.conn.Running false
  rw [ideal_init]
  exact HalfClose.running_init asserts fd

theorem Alive.step (h : s.Alive) (hstep : s.step op = some t) : t.Alive := by
  refine ⟨wf_step h.wf hstep, ?_⟩
  rcases h.path with hgone | ⟨asked, hrunning⟩
  · exact Or.inl (gone_of_step h.wf hgone hstep)
  · exact (running_of_step h.wf hrunning hstep).imp_right fun hgoes => ⟨_, hgoes.1⟩

/-- Byte `i` of the stream has been taken, or will not be. -/
structure Settled (s : BufferedThread) (i : ℕ) : Prop where
  wf : s.conn.outBuf.Wf
  path : s.conn.base.Gone ∨ i < s.conn.base.kernel.length

theorem Settled.step {i : ℕ} (h : s.Settled i) (hstep : s.step op = some t) : t.Settled i where
  wf := wf_step h.wf hstep
  path := h.path.imp (fun hgone => gone_of_step h.wf hgone hstep)
    (fun hi => Nat.lt_of_lt_of_le hi (kernel_of_step h.wf hstep).length_le)

/-- Byte `i` of the stream waits in `outBuf_`, unless it is settled. -/
structure Waits (s : BufferedThread) (i : ℕ) : Prop where
  wf : s.conn.outBuf.Wf
  path : s.conn.base.Gone ∨ (∃ asked, s.conn.ideal.Running asked) ∧ i < s.stream.length

theorem Waits.step {i : ℕ} (h : s.Waits i) (hstep : s.step op = some t) : t.Waits i where
  wf := wf_step h.wf hstep
  path := by
    rcases h.path with hgone | ⟨⟨asked, hrunning⟩, hi⟩
    · exact Or.inl (gone_of_step h.wf hgone hstep)
    · exact (running_of_step h.wf hrunning hstep).imp_right fun hgoes =>
        ⟨⟨_, hgoes.1⟩, Nat.lt_of_lt_of_le hi (stream_of_step h.wf hstep).length_le⟩

/-- A connection whose `shutdown()` has been called accepts no more bytes: its stream stays
`xs`. -/
structure Closing (s : BufferedThread) (xs : List UInt8) : Prop where
  wf : s.conn.outBuf.Wf
  path : s.conn.base.Gone ∨ s.conn.ideal.Running true ∧ s.stream = xs

theorem Closing.step {xs : List UInt8} (h : s.Closing xs) (hstep : s.step op = some t) :
    t.Closing xs where
  wf := wf_step h.wf hstep
  path := by
    rcases h.path with hgone | ⟨hrunning, hstream⟩
    · exact Or.inl (gone_of_step h.wf hgone hstep)
    · refine (running_of_step h.wf hrunning hstep).imp_right ?_
      rintro ⟨hrunning', hsame⟩
      exact ⟨hrunning', (hsame rfl).trans hstream⟩

/-- A connection in `Disconnecting` that is not gone has been shut down. -/
theorem Alive.closing (h : s.Alive) (hstate : s.conn.base.state = .disconnecting) :
    s.Closing s.stream := by
  refine ⟨h.wf, h.path.imp_right ?_⟩
  rintro ⟨asked, hrunning⟩
  have hasked : s.conn.base.state = if asked then .disconnecting else .connected :=
    hrunning.state
  cases asked with
  | true => exact ⟨hrunning, rfl⟩
  | false =>
      rw [hstate] at hasked
      cases hasked

/-- It has made its half-close when all of the stream has been taken. -/
theorem Closing.made {xs : List UInt8} (h : s.Closing xs)
    (htaken : xs.length ≤ s.conn.base.kernel.length) :
    s.conn.base.Gone ∨ .shutdownWrite ∈ s.conn.base.log ∧ s.conn.base.kernel = xs := by
  refine h.path.imp_right ?_
  rintro ⟨hrunning, hstream⟩
  have htake : s.conn.base.kernel <+: s.stream := List.prefix_append _ _
  have hkernel : s.conn.base.kernel = s.stream :=
    htake.eq_of_length_le (by rw [hstream]; exact htaken)
  have hempty : s.conn.outBuf.content = [] := List.self_eq_append_right.mp hkernel
  exact ⟨hrunning.discipline.made_iff.mpr ⟨rfl, hempty⟩, hkernel.trans hstream⟩

/-! ## The countdown -/

/-- When no event is left to handle, a byte that waits needs another. -/
theorem writesLeft_pos {i : ℕ} (hwaits : s.conn.base.kernel.length ≤ i)
    (hdone : s.ideal.writeDue = false) : 0 < s.ideal.writesLeft i := by
  unfold LoopThread.writesLeft
  rw [hdone]
  show 0 < i + 1 - s.conn.base.kernel.length - 0
  omega

/-- A step of a connection that watches its output: it runs `handleClose`, or it takes the byte
no further away, and a writable event brings it nearer. -/
theorem writesLeft_of_watches {i : ℕ} (hwf : s.conn.outBuf.Wf) (h : s.conn.ideal.Watches)
    (hi : i < s.stream.length) (hwaits : s.conn.base.kernel.length ≤ i)
    (htakes : s.TakesSome op) (hstep : s.step op = some t) :
    (s.ideal.closes op.1 = true ∧ s.ideal.step op.1 = some t.ideal) ∨
      t.ideal.writesLeft i + (if op.1.reportsWritable then 1 else 0) ≤ s.ideal.writesLeft i := by
  rcases step_cases hwf hstep with ⟨msg, r, slack, rfl, rfl⟩ | ⟨hsend, hideal⟩
  · obtain ⟨hkernel, hrevents⟩ := s.conn.send_frame msg r slack
    refine Or.inr (LoopThread.writesLeft_mono i hkernel.length_le fun hdue => ?_)
    have hsame : (LoopThread.writeDue ⟨(s.conn.send msg r slack).ideal, s.todo⟩) =
        s.ideal.writeDue :=
      congrArg (fun revents => isWritable revents && LoopThread.awaitsWriteTest s.todo) hrevents
    exact hsame.trans hdue
  · cases hcloses : s.ideal.closes op.1 with
    | true => exact Or.inl ⟨rfl, hideal⟩
    | false => exact Or.inr (LoopThread.writesLeft_step h hi hwaits hsend htakes hcloses hideal)

theorem writesLeft_of_step {i : ℕ} (h : s.Waits i) (hnot : ¬ s.Settled i)
    (htakes : s.TakesSome op) (hstep : s.step op = some t) :
    t.Settled i ∨
      t.ideal.writesLeft i + (if op.1.reportsWritable then 1 else 0) ≤ s.ideal.writesLeft i := by
  have hwaits : s.conn.base.kernel.length ≤ i :=
    not_lt.mp fun hi => hnot ⟨h.wf, Or.inr hi⟩
  obtain ⟨⟨asked, hrunning⟩, hi⟩ := h.path.resolve_left fun hgone => hnot ⟨h.wf, Or.inl hgone⟩
  refine (writesLeft_of_watches h.wf hrunning.watches hi hwaits htakes hstep).imp_left ?_
  rintro ⟨hcloses, hideal⟩
  exact ⟨wf_step h.wf hstep, Or.inl (gone_of_closes hrunning hcloses hideal)⟩

/-- After as many writable events as are left, and the writes that they are due for, the byte has
been taken. -/
theorem settled_of_run {i : ℕ} {more : List (Move × ℕ)} (h : s.Waits i)
    (hmore : Runs.run step s more = some t) (htakes : Runs.AllSteps step TakesSome s more)
    (hdone : t.ideal.writeDue = false)
    (hevents : s.ideal.writesLeft i ≤ more.countP fun op => op.1.reportsWritable) :
    t.conn.base.Gone ∨ i < t.conn.base.kernel.length := by
  rcases Runs.goal_or_countdown (J := fun u : BufferedThread => u.Waits i)
    (G := fun u : BufferedThread => u.Settled i)
    (m := fun u : BufferedThread => u.ideal.writesLeft i)
    (p := fun op : Move × ℕ => op.1.reportsWritable)
    (fun _ _ _ hu hstep => hu.step hstep) (fun _ _ _ hu hstep => hu.step hstep)
    (fun _ _ _ hu hnot hok hstep => writesLeft_of_step hu hnot hok hstep)
    h htakes hmore with hsettled | ⟨-, hleft⟩
  · exact hsettled.path
  · refine Or.inr (not_le.mp fun hwaits => ?_)
    have hpos := writesLeft_pos hwaits hdone
    omega

/-! ## The bytes -/

theorem stream_of_run {more : List (Move × ℕ)} (h : s.conn.outBuf.Wf)
    (hmore : Runs.run step s more = some t) : s.stream <+: t.stream :=
  ((Runs.Along.of_invariant
    (P := fun u : BufferedThread => u.conn.outBuf.Wf ∧ s.stream <+: u.stream)
    (fun _ _ _ hu hstep => ⟨wf_step hu.1 hstep, hu.2.trans (stream_of_step hu.1 hstep)⟩)
    ⟨h, List.prefix_rfl⟩).final hmore).2

/-- What the kernel has taken are the first bytes of the stream. -/
theorem getElem?_kernel {xs : List UInt8} {i : ℕ} (h : xs <+: t.stream) (hi : i < xs.length)
    (htaken : i < t.conn.base.kernel.length) : t.conn.base.kernel[i]? = xs[i]? := by
  have hkernel : t.conn.base.kernel <+: t.stream := List.prefix_append _ _
  rw [List.getElem?_eq_getElem htaken, List.getElem?_eq_getElem hi, hkernel.getElem htaken,
    h.getElem hi]

/-! ## The loop thread goes on -/

theorem isSome_proceed (c : TcpConnection) (n : ℤ) (r : WriteResult) {todo : List Todo}
    (htodo : todo ≠ []) : (LoopThread.proceed c n r todo).isSome = true := by
  cases todo with
  | nil => exact absurd rfl htodo
  | cons k rest =>
      cases k <;> rfl

theorem isSome_handleWrite (c : BufferedConnection) (r : WriteResult) :
    (c.handleWrite r).isSome = true := by
  have hideal := c.ideal_handleWrite r
  rw [Option.map_eq_some_iff] at hideal
  obtain ⟨d, hd, -⟩ := hideal
  rw [hd]
  rfl

/-- The next event or piece of code can come, and the poller watches for a writable socket
exactly while bytes wait. -/
structure GoesOn (s : BufferedThread) : Prop where
  watches : s.conn.base.channel.isWriting = true ↔ 0 < s.conn.outBuf.readable
  proceeds : s.todo ≠ [] → ∀ n r slack, (s.step (.proceed n r, slack)).isSome = true
  polls : s.todo = [] → ∀ revents slack, (s.step (.poll revents, slack)).isSome = true

theorem goesOn_of_running (h : s.conn.ideal.Running asked) : s.GoesOn where
  watches := by
    refine h.discipline.writing_iff.trans ?_
    show s.conn.outBuf.content ≠ [] ↔ _
    rw [ne_eq, Buffer.content_eq_nil_iff, Nat.pos_iff_ne_zero]
  proceeds := by
    intro htodo n r slack
    have hrun : ¬ s.conn.base.aborted = true := by
      rw [show s.conn.base.aborted = false from h.running]
      decide
    have helse : (s.elsewhere (.proceed n r)).isSome = true := by
      unfold elsewhere LoopThread.step
      rw [Option.isSome_map, if_neg hrun]
      exact isSome_proceed _ n r htodo
    unfold step
    rw [if_neg hrun]
    simp only
    split
    · split
      · rw [Option.isSome_map]
        exact isSome_handleWrite s.conn r
      · rfl
    · exact helse
  polls := by
    intro htodo revents slack
    have hrun : ¬ s.conn.base.aborted = true := by
      rw [show s.conn.base.aborted = false from h.running]
      decide
    have hreg : s.conn.base.registration = .registered := h.registered
    unfold step
    rw [if_neg hrun]
    simp [elsewhere, LoopThread.step, hrun, htodo, hreg]

/-- In whatever state a run has come: a byte of the stream stands at its place in what the kernel
has taken when `writesLeft` more writable events have been handled, and a `shutdown()` that has
been called has made its half-close after those of the last byte, when the kernel has taken the
whole stream, if each write that follows one takes something and the connection is not closed; and
until it is closed the loop thread goes on. -/
theorem run_flushes (asserts : Bool) (fd : ℤ) (capacity : ℕ) (ops more : List (Move × ℕ))
    {s t : BufferedThread} (hrun : Runs.run step (init asserts fd capacity) ops = some s)
    (hmore : Runs.run step s more = some t) (htakes : Runs.AllSteps step TakesSome s more) :
    (t.ideal.writeDue = false → ∀ i < s.stream.length,
      (s.ideal.writesLeft i ≤ more.countP fun op => op.1.reportsWritable) →
        t.conn.base.Gone ∨ t.conn.base.kernel[i]? = s.stream[i]?) ∧
    (t.ideal.writeDue = false → s.conn.base.state = .disconnecting →
      (s.ideal.writesLeft (s.stream.length - 1) ≤ more.countP fun op => op.1.reportsWritable) →
        t.conn.base.Gone ∨ .shutdownWrite ∈ t.conn.base.log ∧ t.conn.base.kernel = s.stream) ∧
    (t.conn.base.Gone ∨ t.GoesOn) := by
  have halive {a b : BufferedThread} (ha : a.Alive) {is : List (Move × ℕ)}
      (his : Runs.run step a is = some b) : b.Alive :=
    (Runs.Along.of_invariant (P := Alive) (fun _ _ _ hu hstep => hu.step hstep) ha).final his
  have hs : s.Alive := halive (alive_init asserts fd capacity) hrun
  have ht : t.Alive := halive hs hmore
  refine ⟨?_, ?_, ?_⟩
  · intro hdone i hi hevents
    refine (settled_of_run ⟨hs.wf, hs.path.imp_right fun hrunning => ⟨hrunning, hi⟩⟩ hmore htakes
      hdone hevents).imp_right fun htaken => ?_
    exact getElem?_kernel (stream_of_run hs.wf hmore) hi htaken
  · intro hdone hstate hevents
    have hend : t.Closing s.stream :=
      (Runs.Along.of_invariant (P := fun u => Closing u s.stream)
        (fun _ _ _ hu hstep => hu.step hstep) (hs.closing hstate)).final hmore
    -- all that was in the stream has been taken
    have htaken : t.conn.base.Gone ∨ s.stream.length ≤ t.conn.base.kernel.length := by
      by_cases hempty : s.stream.length = 0
      · exact Or.inr (by omega)
      · have hlast : s.stream.length - 1 < s.stream.length := by omega
        refine (settled_of_run ⟨hs.wf, hs.path.imp_right fun h => ⟨h, hlast⟩⟩ hmore htakes
          hdone hevents).imp_right fun hless => ?_
        omega
    exact htaken.elim Or.inl hend.made
  · refine ht.path.imp_right ?_
    rintro ⟨asked, hrunning⟩
    exact goesOn_of_running hrunning

/-- Two bytes wait when `shutdown()` is called, and the kernel takes them one at a time. -/
theorem run_flushes_bytewise :
    let before := [(Move.send ⟨[1, 2, 3], by decide⟩ (.accepted 1), 0), (.shutdown, 0),
      (.proceed 1 .failed, 0)]
    let event := [(Move.poll pollOut, 0), (.proceed 1 .failed, 0), (.proceed 1 .failed, 0),
      (.proceed 1 .failed, 0), (.proceed 1 .failed, 0), (.proceed 1 (.accepted 1), 0)]
    ∃ s t : BufferedThread, Runs.run step (init true 7 4) before = some s ∧
      Runs.run step s (event ++ event) = some t ∧
      (t.conn.base.Gone ∨ .shutdownWrite ∈ t.conn.base.log ∧ t.conn.base.kernel = s.stream) := by
  intro before event
  refine ⟨_, _, rfl, rfl, ?_⟩
  exact (run_flushes true 7 4 before (event ++ event) rfl rfl (by decide)).2.1 rfl rfl
    (by decide)

end BufferedThread

end Lotta
