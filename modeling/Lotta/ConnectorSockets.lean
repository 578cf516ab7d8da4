/-
# The sockets of a connector

Every socket that `startTask` makes should end once: it is closed, or handed to the owner
through `connCallback_`.  With one `start()` that is so for every socket whose attempt has
ended, except where `connect` gives an error that the `switch` of `startTask` does not list:
the default branch drops the socket (`run_accounted_iff`).
-/
import Lotta.ConnectorAttempts

namespace Lotta

namespace Connector

variable {c d : Connector} {ch : ConnectorChannel}

/-! ## The ends of the sockets -/

/-- How often a socket has been closed or handed over. -/
def ends (c : Connector) (fd : ℕ) : ℕ := c.closed.count fd + c.handed.count fd

/-- Every socket that is not in the channel has been closed or handed over, once. -/
def Accounted (c : Connector) : Prop :=
  ∀ fd < c.created, (∀ ch ∈ c.channel, ch.fd ≠ fd) → c.ends fd = 1

instance : DecidablePred Accounted := fun c =>
  inferInstanceAs (Decidable (∀ fd < c.created, (∀ ch ∈ c.channel, ch.fd ≠ fd) → c.ends fd = 1))

/-- `connect` has failed on a socket with an error that the `switch` in `startTask` does not
list. -/
def unlisted : ConnectResult → Bool
  | .noSocket => false
  | .answered err => connectBranch err = .other

/-- The answer of `connect`, where a step calls `startTask`. -/
def answerOf (c : Connector) : ConnectorOp → Option ConnectResult
  | .start r => some r
  | .retryTimer _ r => some r
  | .call r => if c.rest.head? = some .startTask then some r else none
  | _ => none

/-- Where the step calls `connect`, the `switch` lists its answer. -/
def AnswersListed (c : Connector) (op : ConnectorOp) : Prop :=
  ∀ r ∈ c.answerOf op, unlisted r = false

/-- What every step keeps of the sockets. -/
structure Custody (c : Connector) : Prop where
  ofOwner : c.connCallback = .ofOwner
  unused : ∀ fd, c.created ≤ fd → c.ends fd = 0
  held : ∀ ch ∈ c.channel, ch.fd < c.created ∧ c.ends ch.fd = if ch.registered then 0 else 1

/-- What a step does to the sockets: with `ok` it keeps the account, else it breaks it. -/
structure Accounts (c d : Connector) (ok : Prop) : Prop where
  custody : d.Custody
  accounted_iff : c.Accounted → (d.Accounted ↔ ok)

/-- The socket of the channel comes to its end. -/
theorem Custody.ended (h : c.Custody) (hch : c.channel = some ch)
    (hregistered : ch.registered = true) (hcallback : d.connCallback = c.connCallback)
    (hcreated : d.created = c.created) (hchannel : d.channel = some { ch with registered := false })
    (hends : ∀ fd, d.ends fd = c.ends fd + [ch.fd].count fd) : Accounts c d True := by
  obtain ⟨hlt, hzero⟩ := h.held ch hch
  rw [hregistered, if_pos rfl] at hzero
  have hother : ∀ fd, ch.fd ≠ fd → d.ends fd = c.ends fd := by
    intro fd hne
    rw [hends, List.count_singleton, if_neg (by simpa using hne), Nat.add_zero]
  refine ⟨⟨hcallback.trans h.ofOwner, ?_, ?_⟩, fun hp => iff_of_true ?_ trivial⟩
  · intro fd hfd
    rw [hcreated] at hfd
    rw [hother fd (by omega), h.unused fd hfd]
  · intro ch' hch'
    obtain rfl : { ch with registered := false } = ch' := Option.some.inj (hchannel.symm.trans hch')
    refine ⟨by rw [hcreated]; exact hlt, ?_⟩
    show d.ends ch.fd = 1
    rw [hends, hzero, List.count_singleton_self]
  · intro fd hfd hheld
    have hne : ch.fd ≠ fd := hheld { ch with registered := false } hchannel
    rw [hother fd hne]
    refine hp fd (by omega) fun ch' hch' => ?_
    obtain rfl : ch = ch' := Option.some.inj (hch.symm.trans hch')
    exact hne

theorem custody_init : Custody (init .ofOwner) where
  ofOwner := rfl
  unused := fun _ _ => rfl
  held := fun ch hch => by cases hch

theorem Custody.failed (h : c.Custody) (hch : c.channel = some ch)
    (hregistered : ch.registered = true) (hquit : c.toQuit = false) :
    Accounts c (c.failed ch) True := by
  rw [Connector.failed, retry_eq (show (c.giveUp ch).toQuit = false from hquit)]
  refine h.ended hch hregistered rfl rfl rfl fun fd => ?_
  show (c.closed ++ [ch.fd]).count fd + c.handed.count fd = _
  rw [List.count_append, ends]
  omega

theorem Custody.established (h : c.Custody) (hch : c.channel = some ch)
    (hregistered : ch.registered = true) : Accounts c (c.established ch) True := by
  rw [established_eq h.ofOwner]
  refine h.ended hch hregistered rfl rfl rfl fun fd => ?_
  show c.closed.count fd + (c.handed ++ [ch.fd]).count fd = _
  rw [List.count_append, ends]
  omega

/-- A new socket is in the channel or closed, or it is lost. -/
theorem Custody.startTask (h : c.Custody) (hinv : c.Inv) (hwork : c.work = 0)
    (r : ConnectResult) : Accounts c (c.startTask r) (unlisted r = false) := by
  obtain ⟨hstate, -, hchannel, -⟩ := hinv.idle hwork
  have hheld : ∀ ch ∈ c.channel, ch.fd < c.created + 1 ∧
      c.ends ch.fd = if ch.registered then 0 else 1 := by
    intro ch hch
    rw [hchannel] at hch
    cases hch
  have hfree : ∀ fd, ∀ ch ∈ c.channel, ch.fd ≠ fd := by
    intro fd ch hch
    rw [hchannel] at hch
    cases hch
  have hnew := h.unused c.created le_rfl
  have hattempt := attempt_of_startTask hstate hinv.goesOn r
  generalize c.startTask r = d at hattempt ⊢
  cases hattempt with
  | noSocket => exact ⟨{ h with }, fun hp => iff_of_true hp rfl⟩
  | other err hother =>
      refine ⟨⟨h.ofOwner, fun fd hfd => h.unused fd (by exact Nat.le_of_succ_le hfd), hheld⟩,
        fun _ => iff_of_false ?_ (by simp [unlisted, hother])⟩
      intro hp
      have hone : c.ends c.created = 1 := hp c.created (Nat.lt_succ_self _) (hfree c.created)
      omega
  | connected err hconnected =>
      rw [connected_eq (show c.newSocket.channel = none from hchannel)]
      refine ⟨⟨h.ofOwner, fun fd hfd => h.unused fd (by exact Nat.le_of_succ_le hfd), ?_⟩,
        fun hp => iff_of_true ?_ (by simp [unlisted, hconnected])⟩
      · intro ch hch
        obtain rfl : (⟨c.created, true⟩ : ConnectorChannel) = ch := Option.some.inj hch
        exact ⟨Nat.lt_succ_self _, hnew⟩
      · intro fd hfd hne
        have hne' : c.created ≠ fd := hne _ rfl
        exact hp fd (by exact lt_of_le_of_ne (Nat.le_of_lt_succ hfd) hne'.symm) (hfree fd)
  | retry err hretry =>
      have hends : ∀ fd, (c.newSocket.retry c.created).ends fd =
          c.ends fd + [c.created].count fd := by
        intro fd
        rw [retry_eq (show c.newSocket.toQuit = false from hinv.goesOn)]
        show (c.closed ++ [c.created]).count fd + c.handed.count fd = _
        rw [List.count_append, ends]
        omega
      rw [retry_eq (show c.newSocket.toQuit = false from hinv.goesOn)] at hends ⊢
      refine ⟨⟨h.ofOwner, fun fd hfd => ?_, fun ch hch => ?_⟩,
        fun hp => iff_of_true (fun fd hfd _ => ?_) (by simp [unlisted, hretry])⟩
      · have hlt : c.created < fd := hfd
        rw [hends, h.unused fd hlt.le, List.count_singleton, if_neg (by simpa using hlt.ne)]
      · exact absurd rfl (hfree ch.fd ch hch)
      · have hle : fd ≤ c.created := Nat.le_of_lt_succ hfd
        rw [hends]
        rcases hle.eq_or_lt with rfl | hlt
        · rw [hnew, List.count_singleton_self]
        · rw [hp fd hlt (hfree fd), List.count_singleton, if_neg (by simpa using hlt.ne')]

/-- A channel that is reset had been given up, and its socket has ended. -/
theorem Custody.resetChannel (h : c.Custody) (hregistered : c.registered = false) :
    Accounts c { c with channel := none } True := by
  refine ⟨⟨h.ofOwner, h.unused, fun ch hch => by cases hch⟩,
    fun hp => iff_of_true (fun fd hfd _ => ?_) trivial⟩
  show c.ends fd = 1
  by_cases hheld : ∀ ch ∈ c.channel, ch.fd ≠ fd
  · exact hp fd hfd hheld
  · simp only [not_forall, not_not] at hheld
    obtain ⟨ch, hch, rfl⟩ := hheld
    have hone := (h.held ch hch).2
    rwa [if_neg (by rw [registered_eq hch] at hregistered; simp [hregistered])] at hone

/-- What every step does to the sockets. -/
theorem accounts_step {op : ConnectorOp} (h : c.Custody) (hinv : c.Inv)
    (hstart : op.isStart = true → c.work = 0) (hstep : c.step op = some d) :
    Accounts c d (c.AnswersListed op) := by
  have hsame : ∀ {e : Connector}, Accounts c e True → c.answerOf op = none →
      Accounts c e (c.AnswersListed op) := by
    intro e he hnone
    simpa [AnswersListed, hnone] using he
  cases (moves_of_step hstep).2 with
  | enter _ => exact hsame ⟨{ h with }, fun hp => iff_of_true hp trivial⟩ rfl
  | poll _ _ _ => exact hsame ⟨{ h with }, fun hp => iff_of_true hp trivial⟩ rfl
  | pushStart => exact hsame ⟨{ h with }, fun hp => iff_of_true hp trivial⟩ rfl
  | swap _ => exact hsame ⟨{ h with }, fun hp => iff_of_true hp trivial⟩ rfl
  | turnDone _ _ _ => exact hsame ⟨{ h with }, fun hp => iff_of_true hp trivial⟩ rfl
  | event revents err ch _ hch hregistered =>
      have h' : ({ c with active := false, pendingErr := err } : Connector).Custody := { h with }
      have hlinked : ({ c with active := false, pendingErr := err } : Connector).Linked :=
        { hinv.toLinked with }
      have hhandled := hlinked.handled hch hregistered revents
      refine hsame ?_ rfl
      generalize handleEvent _ revents = d at hhandled ⊢
      cases hhandled with
      | failed _ =>
          obtain ⟨hcustody, hiff⟩ := h'.failed hch hregistered hinv.goesOn
          exact ⟨hcustody, hiff⟩
      | established _ _ _ =>
          obtain ⟨hcustody, hiff⟩ := h'.established hch hregistered
          exact ⟨hcustody, hiff⟩
      | nothing _ _ => exact ⟨h', fun hp => iff_of_true hp trivial⟩
  | retryTimer setIn r _ hmem hlater =>
      obtain ⟨hinv', hwork⟩ := hinv.of_retryTimer hmem hlater
      have h' : ({ c with timers := c.timers.erase setIn } : Connector).Custody := { h with }
      obtain ⟨hcustody, hiff⟩ := h'.startTask hinv' hwork r
      exact ⟨hcustody, fun hp => (hiff hp).trans (by simp [AnswersListed, answerOf])⟩
  | start r _ =>
      have hinv' : ({ c with toQuit := false } : Connector).Inv := { hinv with goesOn := rfl }
      have h' : ({ c with toQuit := false } : Connector).Custody := { h with }
      obtain ⟨hcustody, hiff⟩ := h'.startTask hinv' (hstart rfl) r
      exact ⟨hcustody, fun hp => (hiff hp).trans (by simp [AnswersListed, answerOf])⟩
  | call r a rest hphase hrest =>
      cases a with
      | startTask =>
          obtain ⟨hinv', hwork⟩ := hinv.of_startTask hphase hrest
          have h' : ({ c with rest := rest } : Connector).Custody := { h with }
          obtain ⟨hcustody, hiff⟩ := h'.startTask hinv' hwork r
          exact ⟨hcustody, fun hp => (hiff hp).trans (by simp [AnswersListed, answerOf, hrest])⟩
      | resetChannel =>
          obtain ⟨hcustody, hiff⟩ := h.resetChannel (hinv.toLinked.givenUp_of_reset hrest).1
          have hnone : c.answerOf (.call r) = none := by simp [answerOf, hrest]
          exact hsame ⟨{ hcustody with }, hiff⟩ hnone

end Connector

namespace OneStart

/-- The account of the sockets is kept in exactly those runs in which `connect` gives only
errors that the `switch` in `startTask` lists. -/
theorem run_accounted_iff (ops : List ConnectorOp) :
    Runs.Along step (fun s => s.connector.Accounted) init ops ↔
      Runs.AllSteps step (fun s => s.connector.AnswersListed) init ops := by
  refine Runs.along_iff_allSteps (J := fun s => s.Inv ∧ s.connector.Custody) ?_ ?_
    ⟨inv_init, Connector.custody_init⟩ (fun fd hfd => absurd hfd (Nat.not_lt_zero fd))
  · rintro s op t ⟨h, hcustody⟩ hstep
    obtain ⟨hconnector, -, hstart⟩ := h.step_connector hstep
    exact ⟨inv_step h hstep,
      (Connector.accounts_step hcustody h.connector hstart hconnector).custody⟩
  · rintro s op t ⟨h, hcustody⟩ hp hstep
    obtain ⟨hconnector, -, hstart⟩ := h.step_connector hstep
    exact (Connector.accounts_step hcustody h.connector hstart hconnector).accounted_iff hp

/-- A host that cannot be reached (`EHOSTUNREACH`): the socket of the attempt is neither closed
nor handed over. -/
theorem not_accounted_unreachable :
    ¬ Runs.Along step (fun s => s.connector.Accounted) init [.start (.answered 113)] := by
  decide

end OneStart

end Lotta
