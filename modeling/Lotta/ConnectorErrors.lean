/-
# The pending errors of a connector's sockets

`handleWrite` and `handleError` both read the pending error of the socket, and one event may
call both; the first of them gives up the channel and leaves the state `Connecting`, so that
the second does nothing.  `handleWrite` tests `err < 0`, but the error numbers that
`SO_ERROR` gives are positive: a socket whose attempt has failed is handed over whenever the
event has no error bit.  This is the only way in which a bad socket gets through
(`run_handsOverEstablished_iff`), for any callback and any number of calls of `start()`.
-/
import Lotta.Connector
import Lotta.Lib.Runs

namespace Lotta

namespace Connector

variable {c d : Connector} {ch : ConnectorChannel}

/-! ## Good sockets -/

/-- A socket is handed over only if the pending error read from it was 0, and one that had
another error came to `retry`. -/
def HandsOverEstablished (c : Connector) : Prop :=
  (∀ fd ∈ c.handed, (fd, 0) ∈ c.reads ∧ ∀ read ∈ c.reads, read.1 = fd → read.2 = 0) ∧
    ∀ read ∈ c.reads, read.2 ≠ 0 → read.1 ∈ c.retried

instance : DecidablePred HandsOverEstablished := fun c =>
  inferInstanceAs (Decidable
    ((∀ fd ∈ c.handed, (fd, 0) ∈ c.reads ∧ ∀ read ∈ c.reads, read.1 = fd → read.2 = 0) ∧
      ∀ read ∈ c.reads, read.2 ≠ 0 → read.1 ∈ c.retried))

/-- An event that calls `handleWrite` alone finds no pending error. -/
def ErrorShown : ConnectorOp → Prop
  | .event revents err => isErroneous revents = false → isWritable revents = true → err ≤ 0
  | _ => True

/-- A socket that was read or retried is an old one, and is not in a registered channel. -/
structure Fresh (c : Connector) : Prop where
  reads : ∀ read ∈ c.reads, read.1 < c.created
  retried : ∀ fd ∈ c.retried, fd < c.created
  held : ∀ ch ∈ c.channel, ch.fd < c.created ∧
    (ch.registered = true → (∀ read ∈ c.reads, read.1 ≠ ch.fd) ∧ ch.fd ∉ c.retried)

theorem fresh_init (connCallback : ConnCallback) : Fresh (init connCallback) where
  reads := fun _ hread => absurd hread List.not_mem_nil
  retried := fun _ hfd => absurd hfd List.not_mem_nil
  held := fun ch hch => by cases hch

theorem handsOverEstablished_init (connCallback : ConnCallback) :
    (init connCallback).HandsOverEstablished :=
  ⟨fun _ hfd => absurd hfd List.not_mem_nil, fun _ hread => absurd hread List.not_mem_nil⟩

/-! ## New attempts -/

/-- A new attempt reads no pending error. -/
theorem HandsOverEstablished.startTask (hp : c.HandsOverEstablished) (h : c.Linked)
    (r : ConnectResult) : (c.startTask r).HandsOverEstablished := by
  by_cases hstate : c.state = .disconnected
  · have hattempt := attempt_of_startTask hstate h.goesOn r
    generalize c.startTask r = d at hattempt ⊢
    cases hattempt with
    | noSocket => exact hp
    | other err _ => exact hp
    | connected err _ =>
        unfold connected
        simp only
        split
        · exact hp
        · exact hp
    | retry err _ =>
        rw [retry_eq (show c.newSocket.toQuit = false from h.goesOn)]
        exact ⟨hp.1, fun read hread herr => List.mem_append_left _ (hp.2 read hread herr)⟩
  · rw [startTask_abort hstate]
    exact hp

theorem Fresh.newSocket (hf : c.Fresh) : c.newSocket.Fresh where
  reads := fun read hread => Nat.lt_succ_of_lt (hf.reads read hread)
  retried := fun fd hfd => Nat.lt_succ_of_lt (hf.retried fd hfd)
  held := fun ch hch => ⟨Nat.lt_succ_of_lt (hf.held ch hch).1, (hf.held ch hch).2⟩

/-- The socket of a new attempt has not been read or retried. -/
theorem Fresh.startTask (hf : c.Fresh) (h : c.Linked) (r : ConnectResult) :
    (c.startTask r).Fresh := by
  by_cases hstate : c.state = .disconnected
  · have hattempt := attempt_of_startTask hstate h.goesOn r
    generalize c.startTask r = d at hattempt ⊢
    cases hattempt with
    | noSocket => exact { hf with }
    | other err _ => exact hf.newSocket
    | connected err _ =>
        unfold connected
        simp only
        split
        · exact { hf.newSocket with }
        · refine { hf.newSocket with held := fun ch hch => ?_ }
          obtain rfl : (⟨c.created, true⟩ : ConnectorChannel) = ch := Option.some.inj hch
          refine ⟨Nat.lt_succ_self _, fun _ => ⟨fun read hread => ?_, fun hmem => ?_⟩⟩
          · exact (hf.reads read hread).ne
          · exact absurd (hf.retried _ hmem) (lt_irrefl _)
    | retry err _ =>
        rw [retry_eq (show c.newSocket.toQuit = false from h.goesOn)]
        refine { hf.newSocket with retried := fun fd hfd => ?_, held := fun ch hch => ?_ }
        · rcases List.mem_append.mp hfd with hfd | hfd
          · exact Nat.lt_succ_of_lt (hf.retried fd hfd)
          · rw [List.mem_singleton.mp hfd]
            exact Nat.lt_succ_self _
        · obtain ⟨hlt, hheld⟩ := hf.held ch hch
          refine ⟨Nat.lt_succ_of_lt hlt, fun hreg => ⟨(hheld hreg).1, fun hmem => ?_⟩⟩
          rcases List.mem_append.mp hmem with hmem | hmem
          · exact (hheld hreg).2 hmem
          · exact hlt.ne (List.mem_singleton.mp hmem)
  · rw [startTask_abort hstate]
    exact { hf with }

/-! ## Ends of attempts -/

/-- A channel that is given up is not registered, so that its socket may be read. -/
theorem Fresh.ended (hf : c.Fresh) (hch : c.channel = some ch) (hcreated : d.created = c.created)
    (hreads : ∀ read ∈ d.reads, read ∈ c.reads ∨ read.1 = ch.fd)
    (hretried : ∀ fd ∈ d.retried, fd ∈ c.retried ∨ fd = ch.fd)
    (hchannel : d.channel = some ⟨ch.fd, false⟩) : d.Fresh := by
  have hlt := (hf.held ch hch).1
  refine ⟨fun read hread => ?_, fun fd hfd => ?_, fun ch' hch' => ?_⟩
  · rw [hcreated]
    rcases hreads read hread with hold | hnew
    · exact hf.reads read hold
    · rw [hnew]
      exact hlt
  · rw [hcreated]
    rcases hretried fd hfd with hold | rfl
    · exact hf.retried fd hold
    · exact hlt
  · obtain rfl : ⟨ch.fd, false⟩ = ch' := Option.some.inj (hchannel.symm.trans hch')
    exact ⟨by rw [hcreated]; exact hlt, fun hreg => by cases hreg⟩

theorem Fresh.failed (hf : c.Fresh) (hch : c.channel = some ch) (hquit : c.toQuit = false) :
    (c.failed ch).Fresh := by
  rw [Connector.failed, retry_eq (show (c.giveUp ch).toQuit = false from hquit)]
  refine hf.ended hch rfl (fun read hread => ?_) (fun fd hfd => ?_) rfl
  · rcases List.mem_append.mp hread with hold | hnew
    · exact Or.inl hold
    · exact Or.inr (by rw [List.mem_singleton.mp hnew])
  · rcases List.mem_append.mp hfd with hold | hnew
    · exact Or.inl hold
    · exact Or.inr (List.mem_singleton.mp hnew)

/-- What handing over changes. -/
theorem established_fields (c : Connector) (ch : ConnectorChannel) :
    (c.established ch).created = c.created ∧
      (c.established ch).channel = some ⟨ch.fd, false⟩ ∧
      (c.established ch).retried = c.retried ∧
      (c.established ch).reads = c.reads ++ [(ch.fd, c.pendingErr)] ∧
      ∀ fd ∈ (c.established ch).handed, fd ∈ c.handed ∨ fd = ch.fd := by
  have hhanded : ∀ fd ∈ c.handed ++ [ch.fd], fd ∈ c.handed ∨ fd = ch.fd := by
    intro fd hfd
    simpa using hfd
  rw [Connector.established, callConnCallback]
  split
  · exact ⟨rfl, rfl, rfl, rfl, hhanded⟩
  · exact ⟨rfl, rfl, rfl, rfl, hhanded⟩
  · exact ⟨rfl, rfl, rfl, rfl, fun fd hfd => Or.inl hfd⟩

theorem Fresh.established (hf : c.Fresh) (hch : c.channel = some ch) :
    (c.established ch).Fresh := by
  obtain ⟨hcreated, hchannel, hretried, hreads, -⟩ := established_fields c ch
  refine hf.ended hch hcreated (fun read hread => ?_) (fun fd hfd => ?_) hchannel
  · rw [hreads] at hread
    rcases List.mem_append.mp hread with hold | hnew
    · exact Or.inl hold
    · exact Or.inr (by rw [List.mem_singleton.mp hnew])
  · exact Or.inl (hretried ▸ hfd)

/-- A failed attempt is retried, whatever error is read. -/
theorem HandsOverEstablished.failed (hp : c.HandsOverEstablished) (hf : c.Fresh)
    (hch : c.channel = some ch) (hregistered : ch.registered = true) (hquit : c.toQuit = false) :
    (c.failed ch).HandsOverEstablished := by
  have hunread := ((hf.held ch hch).2 hregistered).1
  rw [Connector.failed, retry_eq (show (c.giveUp ch).toQuit = false from hquit)]
  refine ⟨fun fd hfd => ?_, fun read hread herr => ?_⟩
  · obtain ⟨hzero, hall⟩ := hp.1 fd hfd
    refine ⟨List.mem_append_left _ hzero, fun read hread heq => ?_⟩
    rcases List.mem_append.mp hread with hold | hnew
    · exact hall read hold heq
    · rw [List.mem_singleton.mp hnew] at heq
      exact absurd heq.symm (hunread _ hzero)
  · rcases List.mem_append.mp hread with hold | hnew
    · exact List.mem_append_left _ (hp.2 read hold herr)
    · rw [List.mem_singleton.mp hnew]
      exact List.mem_append_right _ (List.mem_singleton_self _)

/-- A socket that is taken to be connected must have no pending error. -/
theorem HandsOverEstablished.established_iff (hp : c.HandsOverEstablished) (hf : c.Fresh)
    (hch : c.channel = some ch) (hregistered : ch.registered = true) :
    (c.established ch).HandsOverEstablished ↔ c.pendingErr = 0 := by
  obtain ⟨hunread, hunretried⟩ := (hf.held ch hch).2 hregistered
  obtain ⟨-, -, hretried, hreads, hhanded⟩ := established_fields c ch
  constructor
  · intro hd
    by_contra hne
    have hread : (ch.fd, c.pendingErr) ∈ (c.established ch).reads := by
      rw [hreads]
      exact List.mem_append_right _ (List.mem_singleton_self _)
    exact hunretried (hretried ▸ hd.2 _ hread hne)
  · intro hzero
    refine ⟨fun fd hfd => ?_, fun read hread herr => ?_⟩
    · rw [hreads, hzero]
      rcases hhanded fd hfd with hold | rfl
      · obtain ⟨hmem, hall⟩ := hp.1 fd hold
        refine ⟨List.mem_append_left _ hmem, fun read hread heq => ?_⟩
        rcases List.mem_append.mp hread with hread | hread
        · exact hall read hread heq
        · rw [List.mem_singleton.mp hread]
      · refine ⟨List.mem_append_right _ (List.mem_singleton_self _), fun read hread heq => ?_⟩
        rcases List.mem_append.mp hread with hread | hread
        · exact absurd heq (hunread read hread)
        · rw [List.mem_singleton.mp hread]
    · rw [hreads] at hread
      rcases List.mem_append.mp hread with hread | hread
      · exact hretried ▸ hp.2 read hread herr
      · rw [List.mem_singleton.mp hread] at herr
        exact absurd hzero herr

/-! ## Steps -/

/-- What a step does to the pending errors: with `ok` only good sockets are handed over. -/
structure Judged (c d : Connector) (ok : Prop) : Prop where
  fresh : d.Fresh
  good_iff : c.HandsOverEstablished → (d.HandsOverEstablished ↔ ok)

theorem Fresh.judged_startTask (hf : c.Fresh) (h : c.Linked) (r : ConnectResult) :
    Judged c (c.startTask r) True :=
  ⟨hf.startTask h r, fun hp => iff_of_true (hp.startTask h r) trivial⟩

/-- One event: both callbacks may run, and `handleWrite` decides only when it runs alone. -/
theorem Fresh.judged_handleEvent (hf : c.Fresh) (h : c.Linked) (hch : c.channel = some ch)
    (hregistered : ch.registered = true) (revents : BitVec 32) :
    Judged c (c.handleEvent revents) (ErrorShown (.event revents c.pendingErr)) := by
  have hhandled := h.handled hch hregistered revents
  generalize c.handleEvent revents = d at hhandled ⊢
  cases hhandled with
  | failed hfailed =>
      refine ⟨hf.failed hch h.goesOn, fun hp =>
        iff_of_true (hp.failed hf hch hregistered h.goesOn) fun herror hwrite => ?_⟩
      rcases hfailed with herror' | ⟨-, hneg⟩
      · exact absurd (herror'.symm.trans herror) Bool.noConfusion
      · exact hneg.le
  | established herror hwrite herr =>
      refine ⟨hf.established hch, fun hp => (hp.established_iff hf hch hregistered).trans ?_⟩
      exact ⟨fun hzero _ _ => hzero.le, fun hshown => le_antisymm (hshown herror hwrite) herr⟩
  | nothing herror hwrite =>
      refine ⟨hf, fun hp => iff_of_true hp fun _ hwrite' => ?_⟩
      exact absurd (hwrite'.symm.trans hwrite) Bool.noConfusion

/-- A step from a state in which no assertion has failed. -/
theorem judged_step {op : ConnectorOp} (h : c.Linked) (hf : c.Fresh)
    (hstep : c.step op = some d) : Judged c d (ErrorShown op) := by
  cases (moves_of_step hstep).2 with
  | enter _ => exact ⟨{ hf with }, fun hp => iff_of_true hp trivial⟩
  | poll _ _ _ => exact ⟨{ hf with }, fun hp => iff_of_true hp trivial⟩
  | pushStart => exact ⟨{ hf with }, fun hp => iff_of_true hp trivial⟩
  | swap _ => exact ⟨{ hf with }, fun hp => iff_of_true hp trivial⟩
  | turnDone _ _ _ => exact ⟨{ hf with }, fun hp => iff_of_true hp trivial⟩
  | event revents err ch _ hch hregistered =>
      have h' : ({ c with active := false, pendingErr := err } : Connector).Linked := { h with }
      have hf' : ({ c with active := false, pendingErr := err } : Connector).Fresh := { hf with }
      obtain ⟨hfresh, hiff⟩ := hf'.judged_handleEvent h' hch hregistered revents
      exact ⟨hfresh, hiff⟩
  | retryTimer setIn r _ _ _ =>
      have h' : ({ c with timers := c.timers.erase setIn } : Connector).Linked := { h with }
      have hf' : ({ c with timers := c.timers.erase setIn } : Connector).Fresh := { hf with }
      obtain ⟨hfresh, hiff⟩ := hf'.judged_startTask h' r
      exact ⟨hfresh, hiff⟩
  | start r _ =>
      have h' : ({ c with toQuit := false } : Connector).Linked := { h with goesOn := rfl }
      have hf' : ({ c with toQuit := false } : Connector).Fresh := { hf with }
      obtain ⟨hfresh, hiff⟩ := hf'.judged_startTask h' r
      exact ⟨hfresh, hiff⟩
  | call r a rest hphase hrest =>
      cases a with
      | startTask =>
          have hf' : ({ c with rest := rest } : Connector).Fresh := { hf with }
          obtain ⟨hfresh, hiff⟩ := hf'.judged_startTask (h.popStartTask hphase hrest) r
          exact ⟨hfresh, hiff⟩
      | resetChannel =>
          exact ⟨{ hf with held := fun ch hch => by cases hch }, fun hp => iff_of_true hp trivial⟩

/-- The connector hands over only good sockets in exactly those runs in which no event calls
`handleWrite` alone on a socket with a pending error. -/
theorem run_handsOverEstablished_iff (connCallback : ConnCallback) (ops : List ConnectorOp) :
    Runs.Along step HandsOverEstablished (init connCallback) ops ↔
      Runs.AllSteps step (fun _ => ErrorShown) (init connCallback) ops := by
  -- after a failed assertion no step is made
  refine Runs.along_iff_allSteps (J := fun c => c.stopped = true ∨ c.Linked ∧ c.Fresh) ?_ ?_
    (Or.inr ⟨linked_init connCallback, fresh_init connCallback⟩)
    (handsOverEstablished_init connCallback)
  · rintro c op d (hstopped | ⟨h, hf⟩) hstep
    · exact absurd (hstopped.symm.trans (moves_of_step hstep).1) Bool.noConfusion
    · exact (linked_step h hstep).imp_right fun hd => ⟨hd, (judged_step h hf hstep).fresh⟩
  · rintro c op d (hstopped | ⟨h, hf⟩) hp hstep
    · exact absurd (hstopped.symm.trans (moves_of_step hstep).1) Bool.noConfusion
    · exact (judged_step h hf hstep).good_iff hp

/-- An asynchronous connect that is refused, reported as writable alone: the socket is handed
over. -/
theorem not_handsOverEstablished_refused :
    ¬ Runs.Along step HandsOverEstablished (init .ofOwner)
      [.start (.answered EINPROGRESS), .enter, .poll true, .event pollOut ECONNREFUSED] := by
  decide

end Connector

end Lotta
