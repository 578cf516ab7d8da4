/-
# The watched set and the interest sets

The kernel watches the entries of `pollFds_` with a descriptor and a non-empty event
mask.  They should be exactly the pairs of descriptor and interest set of the channels
that are interested in something, after every call that changes an interest set.

`updateChannel` sets the descriptor of an entry to `-1` when the interest set becomes
empty and never sets it back, so a channel that is enabled again is not watched any
more.  `watchedExact_iff` says that this is the only way to lose the property: it holds
along a run exactly when no enabling call is made on a channel marked so.
-/
import Lotta.PollRegistry

namespace Lotta

/-- Channels with distinct open descriptors. -/
structure Descriptors (κ : Type*) where
  fd : κ → ℤ
  injective : Function.Injective fd
  nonneg : ∀ c, 0 ≤ fd c

namespace Registry

variable {κ : Type*}

/-- What the kernel watches: the entries with a descriptor and a non-empty mask. -/
def watched (s : Registry κ) : List (ℤ × BitVec 32) :=
  (s.poller.pollFds.filter fun pfd => 0 ≤ pfd.fd ∧ pfd.events ≠ 0).map
    fun pfd => (pfd.fd, pfd.events.signExtend 32)

/-- The watched entries are exactly the interested channels, each of them once. -/
def WatchedExact (s : Registry κ) : Prop :=
  s.watched.Nodup ∧ ∀ n e, (n, e) ∈ s.watched ↔
    ∃ c, (s.poller.chan c).events ≠ 0 ∧ (s.poller.chan c).fd = n ∧ (s.poller.chan c).events = e

/-- The channel has an entry and its descriptor is set to `-1`: the interest set has
become empty by an update after the first one. -/
def Marked (s : Registry κ) (c : κ) : Prop :=
  0 ≤ (s.poller.chan c).idxPoll ∧ (s.poller.entryOf c).map PollFd.fd = some (-1)

instance (s : Registry κ) (c : κ) : Decidable (s.Marked c) :=
  inferInstanceAs (Decidable (_ ∧ _))

/-- The condition on a step: `enableReading()` and `enableWriting()` are not called on a
marked channel. -/
def EnableOk (s : Registry κ) (op : κ × InterestCall) : Prop :=
  op.2.isEnable = true → ¬ s.Marked op.1

instance (s : Registry κ) (op : κ × InterestCall) : Decidable (s.EnableOk op) :=
  inferInstanceAs (Decidable (_ → _))

/-- What every run of calls keeps. -/
structure CallInv (D : Descriptors κ) (s : Registry κ) : Prop where
  linked : PollPoller.Linked s.poller s.registered
  fresh : ∀ c, c ∉ s.registered →
    (s.poller.chan c).idxPoll < 0 ∧ (s.poller.chan c).events = 0
  fd_eq : ∀ c, (s.poller.chan c).fd = D.fd c

theorem callInv_init (D : Descriptors κ) : CallInv D (init D.fd) where
  linked := PollPoller.linked_init D.fd
  fresh := fun _ _ => ⟨show (-1 : ℤ) < 0 by decide, rfl⟩
  fd_eq := fun _ => rfl

namespace CallInv

variable {D : Descriptors κ} {s : Registry κ} (h : CallInv D s)
include h

theorem fd_nonneg (c : κ) : 0 ≤ (s.poller.chan c).fd := h.fd_eq c ▸ D.nonneg c

theorem registered_of_events {c : κ} (hc : (s.poller.chan c).events ≠ 0) :
    c ∈ s.registered := by
  by_contra hnot
  exact hc (h.fresh c hnot).2

/-- A registered channel is live or marked. -/
theorem live_iff_not_marked {c : κ} (hc : c ∈ s.registered) :
    s.poller.Live c ↔ ¬ s.Marked c := by
  obtain ⟨pfd, hpfd⟩ := h.linked.exists_entry hc
  have hfd := (h.linked.entry c hc pfd hpfd).1
  have hnonneg := h.fd_nonneg c
  simp only [PollPoller.Live, Marked, hpfd, h.linked.idxPoll_nonneg hc, Option.map_some,
    Option.some.injEq, true_and, forall_eq']
  omega

/-- The entry of an interested live channel is watched under its descriptor. -/
theorem mem_watched {c : κ} (hev : (s.poller.chan c).events ≠ 0) (hlive : s.poller.Live c) :
    ((s.poller.chan c).fd, (s.poller.chan c).events) ∈ s.watched := by
  have hc := h.registered_of_events hev
  obtain ⟨pfd, hpfd⟩ := h.linked.exists_entry hc
  obtain ⟨-, hpev⟩ := h.linked.entry c hc pfd hpfd
  have hint := h.linked.interest c
  rw [watched, List.mem_map]
  refine ⟨pfd, ?_, ?_⟩
  · rw [List.mem_filter]
    refine ⟨List.mem_of_getElem? hpfd, decide_eq_true ⟨?_, ?_⟩⟩
    · rw [hlive pfd hpfd]
      exact h.fd_nonneg c
    · rw [hpev, ne_eq, setWidth_eq_zero_iff hint]
      exact hev
  · rw [hlive pfd hpfd, hpev, signExtend_setWidth hint]

/-- A watched entry belongs to an interested live channel. -/
theorem exists_of_mem_watched {pfd : PollFd} (hmem : pfd ∈ s.poller.pollFds)
    (hfd : 0 ≤ pfd.fd) (hev : pfd.events ≠ 0) :
    ∃ c ∈ s.registered, s.poller.entryOf c = some pfd ∧ (s.poller.chan c).fd = pfd.fd ∧
      (s.poller.chan c).events ≠ 0 ∧ (s.poller.chan c).events = pfd.events.signExtend 32 := by
  obtain ⟨i, hi⟩ := List.getElem?_of_mem hmem
  obtain ⟨c, hc, -, hent⟩ := h.linked.exists_owner_of_getElem? hi
  obtain ⟨hcfd, hcev⟩ := h.linked.entry c hc pfd hent
  have hint := h.linked.interest c
  refine ⟨c, hc, hent, ?_, ?_, ?_⟩
  · rcases hcfd with hcfd | hcfd
    · exact hcfd.symm
    · omega
  · rw [hcev, ne_eq, setWidth_eq_zero_iff hint] at hev
    exact hev
  · rw [hcev, signExtend_setWidth hint]

/-- No two watched entries have the same descriptor. -/
theorem nodup_watched : s.watched.Nodup := by
  rw [watched]
  refine List.Nodup.of_map Prod.fst ?_
  rw [List.map_map, List.Nodup, List.pairwise_map, List.pairwise_filter,
    List.pairwise_iff_getElem]
  intro i j hi hj hij hwi hwj heq
  simp only [decide_eq_true_eq] at hwi hwj
  simp only [Function.comp_apply] at heq
  obtain ⟨c, hc, hci, hcent⟩ :=
    h.linked.exists_owner_of_getElem? (List.getElem?_eq_getElem hi)
  obtain ⟨d, hd, hdj, hdent⟩ :=
    h.linked.exists_owner_of_getElem? (List.getElem?_eq_getElem hj)
  have hcfd := (h.linked.entry c hc _ hcent).1
  have hdfd := (h.linked.entry d hd _ hdent).1
  -- a watched descriptor is not `-1`, so it is its owner's
  have hcd : c = d := h.linked.fd_inj hc hd (by omega)
  subst hcd
  omega

/-- The watched set is exact when no interested channel is marked. -/
theorem watchedExact_iff : s.WatchedExact ↔
    ∀ c, (s.poller.chan c).events ≠ 0 → s.poller.Live c := by
  constructor
  · rintro ⟨-, hiff⟩ c hev
    obtain hmem := (hiff _ _).mpr ⟨c, hev, rfl, rfl⟩
    rw [watched, List.mem_map] at hmem
    obtain ⟨pfd, hpfd, heq⟩ := hmem
    rw [List.mem_filter, decide_eq_true_eq] at hpfd
    obtain ⟨d, hd, hent, hdfd, -⟩ := h.exists_of_mem_watched hpfd.1 hpfd.2.1 hpfd.2.2
    have hfd : pfd.fd = (s.poller.chan c).fd := congrArg Prod.fst heq
    have hdc : d = c := h.linked.fd_inj hd (h.registered_of_events hev) (hdfd.trans hfd)
    subst hdc
    intro pfd' hpfd'
    rw [hent, Option.some.injEq] at hpfd'
    rw [← hpfd', hfd]
  · intro hlive
    refine ⟨h.nodup_watched, fun n e => ⟨fun hmem => ?_, ?_⟩⟩
    · rw [watched, List.mem_map] at hmem
      obtain ⟨pfd, hpfd, heq⟩ := hmem
      rw [List.mem_filter, decide_eq_true_eq] at hpfd
      obtain ⟨c, -, -, hcfd, hev, hcev⟩ :=
        h.exists_of_mem_watched hpfd.1 hpfd.2.1 hpfd.2.2
      exact ⟨c, hev, hcfd.trans (congrArg Prod.fst heq), hcev.trans (congrArg Prod.snd heq)⟩
    · rintro ⟨c, hev, rfl, rfl⟩
      exact h.mem_watched hev (hlive c hev)

end CallInv

variable [DecidableEq κ]

/-- A call of one of the five functions that change an interest set. -/
def callStep (s : Registry κ) (op : κ × InterestCall) : Option (Registry κ) :=
  s.step (.call op.1 op.2)

variable {D : Descriptors κ} {s t : Registry κ} {c : κ} {k : InterestCall}

/-- What a call does: it never fails, and `Called` describes the result. -/
theorem exists_callStep (h : CallInv D s) (c : κ) (k : InterestCall) :
    ∃ q, PollPoller.Called s.poller q s.registered c k ∧
      callStep s (c, k) = some { s with poller := q, registered := insert c s.registered } := by
  obtain ⟨q, hq, hcall⟩ : ∃ q, s.poller.call c k = some q ∧
      PollPoller.Called s.poller q s.registered c k := by
    by_cases hc : c ∈ s.registered
    · exact PollPoller.called_registered h.linked hc k
    · refine PollPoller.called_fresh h.linked hc (h.fresh c hc).1 (fun d hd hfd => ?_) k
      rw [h.fd_eq, h.fd_eq] at hfd
      exact hc (D.injective hfd ▸ hd)
  exact ⟨q, hcall, by rw [callStep, step, hq, Option.map_some]⟩

theorem callInv_called {q : PollPoller κ} (h : CallInv D s)
    (hcall : PollPoller.Called s.poller q s.registered c k) :
    CallInv D { s with poller := q, registered := insert c s.registered } where
  linked := hcall.linked
  fresh := fun d hd => by
    obtain ⟨hdc, hdreg⟩ := not_or.mp (fun hor => hd (Finset.mem_insert.mpr hor))
    rw [hcall.chan_other d hdc]
    exact h.fresh d hdreg
  fd_eq := fun d => by
    rw [hcall.fd]
    exact h.fd_eq d

/-- After a call the channel is live, except when its interest set is empty or it was
marked before. -/
theorem live_called_iff {q : PollPoller κ} (h : CallInv D s)
    (hcall : PollPoller.Called s.poller q s.registered c k)
    (hev : (q.chan c).events ≠ 0) : q.Live c ↔ ¬ s.Marked c := by
  have hmem : c ∈ insert c s.registered := Finset.mem_insert_self _ _
  obtain ⟨pfd, hpfd⟩ := hcall.linked.exists_entry hmem
  rw [hcall.events_self] at hev
  by_cases hc : c ∈ s.registered
  · obtain ⟨old, hold, hfd⟩ := hcall.entry_registered hc pfd hpfd
    rw [if_neg hev] at hfd
    rw [← h.live_iff_not_marked hc]
    simp only [PollPoller.Live, hpfd, hold, hfd, hcall.fd, Option.some.injEq, forall_eq']
  · have hnot : ¬ s.Marked c := fun hm => absurd hm.1 (not_le.mpr (h.fresh c hc).1)
    refine iff_of_true (fun pfd' hpfd' => ?_) hnot
    rw [hcall.entry_fresh hc pfd' hpfd', hcall.fd]

/-- A call keeps the watched set exact when it does not enable a marked channel. -/
theorem watchedExact_called_iff {q : PollPoller κ} (h : CallInv D s) (hs : s.WatchedExact)
    (hcall : PollPoller.Called s.poller q s.registered c k) :
    WatchedExact { s with poller := q, registered := insert c s.registered } ↔
      s.EnableOk (c, k) := by
  rw [(callInv_called h hcall).watchedExact_iff]
  have hlive := h.watchedExact_iff.mp hs
  constructor
  · intro hall hk
    have hev : (q.chan c).events ≠ 0 := by
      rw [hcall.events_self]
      exact events_apply_ne_zero hk (h.linked.interest c)
    exact (live_called_iff h hcall hev).mp (hall c hev)
  · intro hok d hev
    by_cases hdc : d = c
    · subst hdc
      rw [live_called_iff h hcall hev]
      by_cases hk : k.isEnable = true
      · exact hok hk
      · -- a disabling call leaves something only where there was something
        have hold : (s.poller.chan d).events ≠ 0 := by
          intro hzero
          apply hev
          show (q.chan d).events = 0
          rw [hcall.events_self]
          exact events_apply_eq_zero (Bool.eq_false_iff.mpr hk) hzero
        exact (h.live_iff_not_marked (h.registered_of_events hold)).mp (hlive d hold)
    · intro pfd hpfd
      have hev' : (s.poller.chan d).events ≠ 0 := hcall.chan_other d hdc ▸ hev
      have hreg := h.registered_of_events hev'
      show pfd.fd = (q.chan d).fd
      rw [hcall.fd]
      exact hlive d hev' pfd (hcall.entry_other d hreg hdc ▸ hpfd)

/-- Every call passes the poller's assertions, and the watched set is exact along a run
exactly when no enabling call of the run is made on a marked channel. -/
theorem watchedSet_iff (D : Descriptors κ) (ops : List (κ × InterestCall)) :
    (∃ s, Runs.run callStep (init D.fd) ops = some s) ∧
      (Runs.Along callStep WatchedExact (init D.fd) ops ↔
        Runs.AllSteps callStep EnableOk (init D.fd) ops) := by
  have hstep : ∀ s op t, CallInv D s → callStep s op = some t →
      ∃ q, PollPoller.Called s.poller q s.registered op.1 op.2 ∧
        t = { s with poller := q, registered := insert op.1 s.registered } := by
    rintro s ⟨c, k⟩ t hs ht
    obtain ⟨q, hcall, hq⟩ := exists_callStep hs c k
    exact ⟨q, hcall, Option.some.inj (ht.symm.trans hq)⟩
  have hinit : WatchedExact (init D.fd) :=
    (callInv_init D).watchedExact_iff.mpr fun _ hev => absurd rfl hev
  refine ⟨?_, Runs.along_iff_allSteps (J := CallInv D) ?_ ?_ (callInv_init D) hinit⟩
  · have hnext : ∀ s op, CallInv D s → True → ∃ t, callStep s op = some t ∧ CallInv D t := by
      intro s op hs _
      obtain ⟨q, hcall, hq⟩ := exists_callStep hs op.1 op.2
      exact ⟨_, hq, callInv_called hs hcall⟩
    obtain ⟨s, hrun, -⟩ :=
      Runs.run_of_admissible hnext (callInv_init D) (Runs.admissible_true _ ops)
    exact ⟨s, hrun⟩
  · intro s op t hs ht
    obtain ⟨q, hcall, rfl⟩ := hstep s op t hs ht
    exact callInv_called hs hcall
  · intro s op t hs hexact ht
    obtain ⟨q, hcall, rfl⟩ := hstep s op t hs ht
    exact watchedExact_called_iff hs hexact hcall

/-- Reading is turned off and on again: the channel is interested in reading, but no
entry with its descriptor is left. -/
theorem not_watchedExact_reenabled :
    ¬ Runs.Along callStep WatchedExact (init fun n : Fin 1 => (n : ℤ) + 4)
      [(0, .enableReading), (0, .disableReading), (0, .enableReading)] := by
  intro h
  obtain ⟨s, hs⟩ : ∃ s, Runs.run callStep (init fun n : Fin 1 => (n : ℤ) + 4)
      [(0, .enableReading), (0, .disableReading), (0, .enableReading)] = some s := by
    exact ⟨_, rfl⟩
  have hexact := h.final hs
  have hwatched : s.watched = [] := by
    have := congrArg (Option.map watched) hs
    exact Option.some.inj (this.symm.trans (by decide))
  have hev : (s.poller.chan 0).events = kReadPollEvent := by
    have := congrArg (Option.map fun s => (s.poller.chan 0).events) hs
    exact Option.some.inj (this.symm.trans (by decide))
  have hmem := (hexact.2 _ _).mpr ⟨0, by rw [hev]; decide, rfl, rfl⟩
  rw [hwatched] at hmem
  exact absurd hmem List.not_mem_nil

end Registry

end Lotta
