/-
# Dispatch of the active channels

An iteration of `EventLoop::loop` polls once and then calls `handleEvent` on each of the
channels that the poller has put into `activeChannels_`.  The callbacks may remove any
channel of the loop from the poller, their own or another one, and `activeChannels_` is
not changed by this, so a channel that is removed before its turn is still dispatched to.

Nothing is assumed here about how the poller is used: a run goes on as long as the
assertions of the poller hold.  The condition of `run_dispatch` is on the removals.
-/
import Lotta.PollRegistry

namespace Lotta

/-! ## What the poller does to the channels -/

namespace PollPoller

variable {κ : Type*} [DecidableEq κ] {p q : PollPoller κ} {c : κ}

omit [DecidableEq κ] in
/-- A channel keeps its descriptor, and an index once it has one. -/
structure SameChannels (p q : PollPoller κ) : Prop where
  fd : ∀ c, (q.chan c).fd = (p.chan c).fd
  indexed : ∀ c, 0 ≤ (p.chan c).idxPoll → 0 ≤ (q.chan c).idxPoll

omit [DecidableEq κ] in
theorem SameChannels.trans {r : PollPoller κ} (h : SameChannels p q) (k : SameChannels q r) :
    SameChannels p r :=
  ⟨fun c => (k.fd c).trans (h.fd c), fun c hc => k.indexed c (h.indexed c hc)⟩

/-- A channel object is written. -/
theorem sameChannels_update {chan : κ → Channel} {ch : Channel}
    (hchan : q.chan = Function.update chan c ch) (hother : ∀ d, chan d = p.chan d)
    (hfd : ch.fd = (p.chan c).fd) (hidx : 0 ≤ (p.chan c).idxPoll → 0 ≤ ch.idxPoll) :
    SameChannels p q := by
  constructor
  · intro d
    by_cases hd : d = c
    · subst hd
      rw [hchan, Function.update_self, hfd]
    · rw [hchan, Function.update_of_ne hd, hother]
  · intro d hd
    by_cases hdc : d = c
    · subst hdc
      rw [hchan, Function.update_self]
      exact hidx hd
    · rw [hchan, Function.update_of_ne hdc, hother]
      exact hd

/-- An interest change puts the channel into `channels_`; one that has been there before
must still be there. -/
theorem call_spec {k : InterestCall} (h : p.call c k = some q) :
    SameChannels p q ∧ 0 ≤ (q.chan c).idxPoll ∧
      q.channels = Function.update p.channels (p.chan c).fd (some c) ∧
      (0 ≤ (p.chan c).idxPoll → p.channels (p.chan c).fd = some c) := by
  have hself : (p.setChan c (k.apply (p.chan c))).chan c = k.apply (p.chan c) :=
    Function.update_self ..
  have hset : SameChannels p (p.setChan c (k.apply (p.chan c))) :=
    sameChannels_update rfl (fun _ => rfl) (fd_apply k _) (by rw [idxPoll_apply]; exact id)
  rw [call, updateChannel, hself, fd_apply, idxPoll_apply] at h
  split at h
  · -- the first update
    rename_i hidx
    rw [Option.ite_none_right_eq_some, Option.some.injEq] at h
    obtain ⟨-, rfl⟩ := h
    refine ⟨hset.trans (sameChannels_update rfl (fun _ => rfl) rfl fun _ => ?_), ?_, ?_,
      fun hpos => absurd hidx (not_lt.mpr hpos)⟩
    · exact Int.natCast_nonneg _
    · simp [register]
    · rw [register, hself, fd_apply]
      rfl
  · rename_i hidx
    rw [Option.ite_none_right_eq_some] at h
    obtain ⟨hmem, h⟩ := h
    replace hmem : p.channels (p.chan c).fd = some c := hmem
    split at h
    · rw [Option.ite_none_right_eq_some, Option.some.injEq] at h
      obtain ⟨-, rfl⟩ := h
      refine ⟨hset.trans ⟨fun _ => rfl, fun _ => id⟩, ?_, ?_, fun _ => hmem⟩
      · show 0 ≤ ((p.setChan c (k.apply (p.chan c))).chan c).idxPoll
        rw [hself, idxPoll_apply]
        exact not_lt.mp hidx
      · rw [← hmem, Function.update_eq_self]
        rfl
    · cases h

/-- The removal of an entry gives another channel its index. -/
theorem dropEntry_spec {i : ℕ} (h : p.dropEntry i = some q) :
    SameChannels p q ∧ q.channels = p.channels := by
  rw [dropEntry] at h
  split at h
  · obtain rfl := Option.some.inj h
    exact ⟨⟨fun _ => rfl, fun _ => id⟩, rfl⟩
  · split at h
    · cases h
    · split at h
      · cases h
      · obtain rfl := Option.some.inj h
        exact ⟨sameChannels_update rfl (fun _ => rfl) rfl fun _ => Int.natCast_nonneg _, rfl⟩

/-- A teardown takes the channel out of `channels_`, and its index stays. -/
theorem teardown_spec (h : p.teardown c = some q) :
    SameChannels p q ∧ 0 ≤ (q.chan c).idxPoll ∧
      q.channels = Function.update p.channels (p.chan c).fd none := by
  rw [teardown, Option.bind_eq_some_iff] at h
  obtain ⟨r, hcall, hremove⟩ := h
  obtain ⟨hsame, hidx, hchannels, -⟩ := call_spec hcall
  rw [remove, Option.ite_none_right_eq_some, removeChannel, Option.ite_none_right_eq_some]
    at hremove
  obtain ⟨-, -, hremove⟩ := hremove
  split at hremove
  · cases hremove
  · rw [Option.ite_none_right_eq_some, Option.bind_eq_some_iff] at hremove
    obtain ⟨-, u, hdrop, hcheck⟩ := hremove
    rw [checkIndices, Option.ite_none_right_eq_some, Option.some.injEq] at hcheck
    obtain ⟨-, rfl⟩ := hcheck
    obtain ⟨hsame', hchannels'⟩ := dropEntry_spec hdrop
    have herase : SameChannels r (r.eraseFd (r.chan c).fd) := ⟨fun _ => rfl, fun _ => id⟩
    refine ⟨hsame.trans (herase.trans hsame'), (herase.trans hsame').indexed c hidx, ?_⟩
    rw [hchannels', eraseFd, hchannels, hsame.fd, Function.update_idem]

/-- The loop over the answer reports channels of `channels_` only. -/
theorem report_frame {channels : ℤ → Option κ} {l : List PollFd} {num : ℤ}
    {chan chan' : κ → Channel} {active active' : List κ}
    (h : report channels l num chan active = some (chan', active')) :
    (∀ d, (chan' d).fd = (chan d).fd ∧ (chan' d).idxPoll = (chan d).idxPoll) ∧
      ∀ d ∈ active', d ∈ active ∨ ∃ fd, channels fd = some d := by
  induction l generalizing num chan active with
  | nil =>
      rw [report, Option.some.injEq, Prod.mk.injEq] at h
      obtain ⟨rfl, rfl⟩ := h
      exact ⟨fun _ => ⟨rfl, rfl⟩, fun _ hd => Or.inl hd⟩
  | cons pfd rest ih =>
      rw [report] at h
      split at h
      · split at h
        · cases h
        · rename_i c hc
          rw [Option.ite_none_right_eq_some] at h
          obtain ⟨-, h⟩ := h
          have hmark : ∀ d, (Function.update chan c
                { chan c with revents := pfd.revents.signExtend 32 } d).fd = (chan d).fd ∧
              (Function.update chan c
                { chan c with revents := pfd.revents.signExtend 32 } d).idxPoll =
                (chan d).idxPoll := by
            intro d
            by_cases hd : d = c
            · subst hd
              rw [Function.update_self]
              exact ⟨rfl, rfl⟩
            · rw [Function.update_of_ne hd]
              exact ⟨rfl, rfl⟩
          have hnew : ∀ d ∈ active ++ [c], d ∈ active ∨ ∃ fd, channels fd = some d := by
            intro d hd
            refine (List.mem_append.mp hd).imp_right fun hd => ?_
            rw [List.mem_singleton.mp hd]
            exact ⟨pfd.fd, hc⟩
          simp only at h
          split at h
          · rw [Option.some.injEq, Prod.mk.injEq] at h
            obtain ⟨rfl, rfl⟩ := h
            exact ⟨hmark, hnew⟩
          · obtain ⟨hchan, hactive⟩ := ih h
            refine ⟨fun d => ⟨(hchan d).1.trans (hmark d).1, (hchan d).2.trans (hmark d).2⟩,
              fun d hd => ?_⟩
            rcases hactive d hd with hd | hd
            · exact hnew d hd
            · exact Or.inr hd
      · exact ih h

/-- `poll` leaves the index alone and reports channels of `channels_` only. -/
theorem poll_spec {num : ℤ} {answer : ℕ → BitVec 16} {active : List κ}
    (h : p.poll num answer = some (q, active)) :
    SameChannels p q ∧ q.channels = p.channels ∧ ∀ d ∈ active, ∃ fd, p.channels fd = some d := by
  rw [poll] at h
  split at h
  · rw [Option.some.injEq, Prod.mk.injEq] at h
    obtain ⟨rfl, rfl⟩ := h
    exact ⟨⟨fun _ => rfl, fun _ => id⟩, rfl, fun _ hd => absurd hd List.not_mem_nil⟩
  · split at h
    · rw [Option.some.injEq, Prod.mk.injEq] at h
      obtain ⟨rfl, rfl⟩ := h
      exact ⟨⟨fun _ => rfl, fun _ => id⟩, rfl, fun _ hd => absurd hd List.not_mem_nil⟩
    · rw [Option.map_eq_some_iff] at h
      obtain ⟨⟨chan, active'⟩, hreport, heq⟩ := h
      rw [Prod.mk.injEq] at heq
      obtain ⟨rfl, rfl⟩ := heq
      obtain ⟨hchan, hactive⟩ := report_frame hreport
      refine ⟨⟨fun d => (hchan d).1, fun d hd => ?_⟩, rfl, fun d hd => ?_⟩
      · show 0 ≤ (chan d).idxPoll
        rw [(hchan d).2]
        exact hd
      · exact (hactive d hd).resolve_left List.not_mem_nil

end PollPoller

/-! ## Runs -/

/-- A loop with its poller.  `active` are the channels of `activeChannels_` whose turn is
still to come, `running` says that a callback or a function runs, and `handled` records the
calls of `handleEvent`, with the information whether the channel was registered. -/
structure Dispatch (κ : Type*) where
  reg : Registry κ
  active : List κ
  running : Bool
  handled : List (κ × Bool)

/-- The steps: the poller polls, with the answer of `::poll`, the next active channel gets
its turn, and a callback or a function changes an interest set or removes a channel. -/
inductive DispatchOp (κ : Type*) where
  | poll (num : ℤ) (answer : ℕ → BitVec 16)
  | handleEvent
  | change (op : RegistryOp κ)

namespace Dispatch

variable {κ : Type*} [DecidableEq κ]

omit [DecidableEq κ] in
/-- A loop before its first iteration, when channels may be registered. -/
def init (fd : κ → ℤ) : Dispatch κ := ⟨Registry.init fd, [], true, []⟩

/-- One step; `none` when it is not its turn, or when an assertion fails. -/
def step (s : Dispatch κ) : DispatchOp κ → Option (Dispatch κ)
  | .poll num answer =>
      if s.active = [] ∧ (num < 0 ∨ num = s.reg.ready answer) then
        (s.reg.poller.poll num answer).map fun r =>
          { s with reg := { s.reg with poller := r.1 }, active := r.2, running := r.2.isEmpty }
      else none
  | .handleEvent =>
      match s.active with
      | [] => none
      | c :: rest => some { s with
          active := rest
          running := true
          handled := s.handled ++ [(c, decide (c ∈ s.reg.registered))] }
  | .change op =>
      if s.running then (s.reg.step op).map fun reg => { s with reg := reg } else none

omit [DecidableEq κ] in
/-- `handleEvent` has been called on registered channels only. -/
def HandlesRegistered (s : Dispatch κ) : Prop := ∀ h ∈ s.handled, h.2 = true

omit [DecidableEq κ] in
instance (s : Dispatch κ) : Decidable s.HandlesRegistered :=
  inferInstanceAs (Decidable (∀ _ ∈ _, _))

omit [DecidableEq κ] in
/-- The condition on a step: no channel is removed whose turn is still to come. -/
def RemovesHandled (s : Dispatch κ) : DispatchOp κ → Prop
  | .change (.teardown c) => c ∉ s.active
  | _ => True

omit [DecidableEq κ] in
/-- The channel has been registered before and is not any more. -/
def Gone (s : Registry κ) (c : κ) : Prop := c ∉ s.registered ∧ 0 ≤ (s.poller.chan c).idxPoll

omit [DecidableEq κ] in
/-- A removed channel will be dispatched to. -/
def Doomed (s : Dispatch κ) : Prop := ∃ c ∈ s.active, Gone s.reg c

omit [DecidableEq κ] in
/-- `channels_` holds registered channels, under their descriptors. -/
def Known (s : Registry κ) : Prop :=
  ∀ fd c, s.poller.channels fd = some c → c ∈ s.registered ∧ (s.poller.chan c).fd = fd

omit [DecidableEq κ] in
/-- What every step keeps: a channel that waits for its turn is registered or gone. -/
structure DispatchInv (s : Dispatch κ) : Prop where
  known : Known s.reg
  active : ∀ c ∈ s.active, c ∈ s.reg.registered ∨ Gone s.reg c

/-- What a change of the registry does: a channel that is gone stays so, and one that is
registered stays so as well unless it is the one that is removed. -/
theorem change_spec {reg reg' : Registry κ} {op : RegistryOp κ} (h : Known reg)
    (hstep : reg.step op = some reg') :
    Known reg' ∧ (∀ d, Gone reg d → Gone reg' d) ∧
      (∀ d ∈ reg.registered, op ≠ .teardown d → d ∈ reg'.registered) ∧
      ∀ c, op = .teardown c → Gone reg' c := by
  cases op with
  | call c k =>
      rw [Registry.step, Option.map_eq_some_iff] at hstep
      obtain ⟨q, hq, rfl⟩ := hstep
      obtain ⟨hsame, -, hchannels, hindexed⟩ := PollPoller.call_spec hq
      refine ⟨?_, ?_, fun d hd _ => Finset.mem_insert_of_mem hd, fun _ hop => by cases hop⟩
      · intro fd d hd
        show d ∈ insert c reg.registered ∧ (q.chan d).fd = fd
        rw [hsame.fd]
        replace hd : q.channels fd = some d := hd
        rw [hchannels] at hd
        by_cases hfd : fd = (reg.poller.chan c).fd
        · rw [hfd, Function.update_self, Option.some.injEq] at hd
          subst hd
          exact ⟨Finset.mem_insert_self _ _, hfd.symm⟩
        · rw [Function.update_of_ne hfd] at hd
          obtain ⟨hreg, hdfd⟩ := h fd d hd
          exact ⟨Finset.mem_insert_of_mem hreg, hdfd⟩
      · rintro d ⟨hd, hidx⟩
        refine ⟨fun hmem => ?_, hsame.indexed d hidx⟩
        rcases Finset.mem_insert.mp hmem with rfl | hmem
        · -- the poller asserts that it knows a channel with an index
          exact hd (h _ d (hindexed hidx)).1
        · exact hd hmem
  | teardown c =>
      rw [Registry.step, Option.map_eq_some_iff] at hstep
      obtain ⟨q, hq, rfl⟩ := hstep
      obtain ⟨hsame, hidx, hchannels⟩ := PollPoller.teardown_spec hq
      refine ⟨?_, ?_, ?_, ?_⟩
      · intro fd d hd
        show d ∈ reg.registered.erase c ∧ (q.chan d).fd = fd
        rw [hsame.fd]
        replace hd : q.channels fd = some d := hd
        rw [hchannels] at hd
        by_cases hfd : fd = (reg.poller.chan c).fd
        · rw [hfd, Function.update_self] at hd
          cases hd
        · rw [Function.update_of_ne hfd] at hd
          obtain ⟨hreg, hdfd⟩ := h fd d hd
          refine ⟨Finset.mem_erase.mpr ⟨?_, hreg⟩, hdfd⟩
          rintro rfl
          exact hfd hdfd.symm
      · rintro d ⟨hd, hdidx⟩
        exact ⟨fun hmem => hd (Finset.mem_of_mem_erase hmem), hsame.indexed d hdidx⟩
      · intro d hd hne
        refine Finset.mem_erase.mpr ⟨?_, hd⟩
        rintro rfl
        exact hne rfl
      · rintro d hd
        obtain rfl := RegistryOp.teardown.inj hd
        exact ⟨Finset.notMem_erase c _, hidx⟩

variable {s t : Dispatch κ}

omit [DecidableEq κ] in
theorem dispatchInv_init (fd : κ → ℤ) : DispatchInv (init fd) where
  known := fun _ _ h => by cases h
  active := nofun

/-- What a step does: a poll finds registered channels, a turn records the next channel, and a
change of the registry is one of `change_spec`. -/
inductive Dispatched (s : Dispatch κ) : DispatchOp κ → Dispatch κ → Prop where
  | polled {num : ℤ} {answer : ℕ → BitVec 16} {t : Dispatch κ} (hidle : s.active = [])
      (hknown : Known t.reg) (hactive : ∀ c ∈ t.active, c ∈ t.reg.registered)
      (hhandled : t.handled = s.handled) : Dispatched s (.poll num answer) t
  | turn {c : κ} {t : Dispatch κ} (hactive : s.active = c :: t.active) (hreg : t.reg = s.reg)
      (hhandled : t.handled = s.handled ++ [(c, decide (c ∈ s.reg.registered))]) :
      Dispatched s .handleEvent t
  | changed {op : RegistryOp κ} {t : Dispatch κ} (hactive : t.active = s.active)
      (hhandled : t.handled = s.handled) (hknown : Known t.reg)
      (hgone : ∀ d, Gone s.reg d → Gone t.reg d)
      (hkept : ∀ d ∈ s.reg.registered, op ≠ .teardown d → d ∈ t.reg.registered)
      (hremoved : ∀ c, op = .teardown c → Gone t.reg c) : Dispatched s (.change op) t

theorem dispatched_of_step {op : DispatchOp κ} (h : Known s.reg) (hstep : s.step op = some t) :
    Dispatched s op t := by
  cases op with
  | poll num answer =>
      simp only [step, Option.ite_none_right_eq_some, Option.map_eq_some_iff] at hstep
      obtain ⟨⟨hidle, -⟩, ⟨q, active⟩, hpoll, rfl⟩ := hstep
      obtain ⟨hsame, hchannels, hactive⟩ := PollPoller.poll_spec hpoll
      refine .polled hidle (fun fd c hc => ?_) (fun c hc => ?_) rfl
      · show c ∈ s.reg.registered ∧ (q.chan c).fd = fd
        rw [hsame.fd]
        exact h fd c (hchannels ▸ hc)
      · obtain ⟨fd, hfd⟩ := hactive c hc
        exact (h fd c hfd).1
  | handleEvent =>
      simp only [step] at hstep
      split at hstep
      · cases hstep
      · rename_i c rest hactive
        obtain rfl := Option.some.inj hstep
        exact .turn hactive rfl rfl
  | change op =>
      simp only [step, Option.ite_none_right_eq_some, Option.map_eq_some_iff] at hstep
      obtain ⟨-, reg, hreg, rfl⟩ := hstep
      obtain ⟨hknown, hgone, hkept, hremoved⟩ := change_spec h hreg
      exact .changed rfl rfl hknown hgone hkept hremoved

/-- Every step keeps the invariant. -/
theorem Dispatched.inv {op : DispatchOp κ} (hd : Dispatched s op t) (h : s.DispatchInv) :
    t.DispatchInv := by
  cases hd with
  | polled _ hknown hactive => exact ⟨hknown, fun c hc => Or.inl (hactive c hc)⟩
  | turn hactive hreg =>
      refine ⟨hreg ▸ h.known, fun d hd => ?_⟩
      rw [hreg]
      apply h.active
      rw [hactive]
      exact List.mem_cons_of_mem _ hd
  | @changed op _ hactive _ hknown hgone hkept hremoved =>
      refine ⟨hknown, fun d hd => ?_⟩
      rcases h.active d (hactive ▸ hd) with hin | hout
      · by_cases hop : op = .teardown d
        · exact Or.inr (hremoved d hop)
        · exact Or.inl (hkept d hin hop)
      · exact Or.inr (hgone d hout)

omit [DecidableEq κ] in
/-- As long as no channel that waits is gone, those that wait are registered. -/
theorem DispatchInv.registered (h : s.DispatchInv) (hsafe : ¬ s.Doomed) {c : κ}
    (hc : c ∈ s.active) : c ∈ s.reg.registered :=
  (h.active c hc).resolve_right fun hgone => hsafe ⟨c, hc, hgone⟩

/-- A step that meets the condition keeps the law, and dooms no channel. -/
theorem Dispatched.safe {op : DispatchOp κ} (hd : Dispatched s op t) (h : s.DispatchInv)
    (hlaw : s.HandlesRegistered) (hsafe : ¬ s.Doomed) (hok : s.RemovesHandled op) :
    t.HandlesRegistered ∧ ¬ t.Doomed := by
  cases hd with
  | polled _ _ hactive hhandled =>
      rw [HandlesRegistered, hhandled]
      exact ⟨hlaw, fun ⟨c, hc, hgone, _⟩ => hgone (hactive c hc)⟩
  | @turn c _ hactive hreg hhandled =>
      have hc : c ∈ s.active := by
        rw [hactive]
        exact List.mem_cons_self
      rw [HandlesRegistered, hhandled, List.forall_mem_append, List.forall_mem_singleton]
      refine ⟨⟨hlaw, decide_eq_true (h.registered hsafe hc)⟩, ?_⟩
      rintro ⟨d, hd, hgone⟩
      rw [hreg] at hgone
      apply hsafe
      rw [Doomed, hactive]
      exact ⟨d, List.mem_cons_of_mem c hd, hgone⟩
  | changed hactive hhandled _ _ hkept =>
      rw [HandlesRegistered, Doomed, hhandled, hactive]
      refine ⟨hlaw, ?_⟩
      rintro ⟨d, hd, hgone, -⟩
      refine hgone (hkept d (h.registered hsafe hd) ?_)
      rintro rfl
      exact hok hd

/-- The removal of a channel that waits dooms it. -/
theorem Dispatched.dooms {op : DispatchOp κ} (hd : Dispatched s op t)
    (hok : ¬ s.RemovesHandled op) : t.Doomed := by
  cases hd with
  | polled => exact absurd trivial hok
  | turn => exact absurd trivial hok
  | @changed op _ hactive _ _ _ _ hremoved =>
      cases op with
      | call c k => exact absurd trivial hok
      | teardown c => exact ⟨c, hactive ▸ not_not.mp hok, hremoved c rfl⟩

/-- A channel that is doomed stays so until its turn. -/
theorem Dispatched.doomed {op : DispatchOp κ} (hd : Dispatched s op t) (hdoomed : s.Doomed)
    (hlaw : t.HandlesRegistered) : t.Doomed := by
  obtain ⟨c, hc, hgone⟩ := hdoomed
  cases hd with
  | polled hidle =>
      rw [hidle] at hc
      cases hc
  | @turn d _ hactive hreg hhandled =>
      rw [hactive] at hc
      rcases List.mem_cons.mp hc with rfl | hc
      · -- the turn of the removed channel
        rw [HandlesRegistered, hhandled] at hlaw
        have hregistered := hlaw _ (List.mem_append_right _ (List.mem_singleton.mpr rfl))
        exact absurd (of_decide_eq_true hregistered) hgone.1
      · exact ⟨c, hc, hreg.symm ▸ hgone⟩
  | changed hactive _ _ hkept => exact ⟨c, hactive.symm ▸ hc, hkept c hgone⟩

/-- `handleEvent` is called on registered channels only, along a run in which no channel is
removed whose turn is still to come; and of the runs that end with no channel waiting for
its turn along no others. -/
theorem run_dispatch (fd : κ → ℤ) (ops : List (DispatchOp κ)) :
    (Runs.AllSteps step RemovesHandled (init fd) ops →
      Runs.Along step HandlesRegistered (init fd) ops) ∧
    ∀ t, Runs.run step (init fd) ops = some t → t.active = [] →
      Runs.Along step HandlesRegistered (init fd) ops →
        Runs.AllSteps step RemovesHandled (init fd) ops := by
  have hstepped : ∀ (s : Dispatch κ) op t, s.DispatchInv → s.step op = some t →
      Dispatched s op t :=
    fun _ _ _ h hstep => dispatched_of_step h.known hstep
  have hrule := Runs.along_of_doomed step RemovesHandled DispatchInv HandlesRegistered Doomed
    (fun _ _ _ h hstep => (hstepped _ _ _ h hstep).inv h)
    (fun _ _ _ h hlaw hsafe hok hstep => (hstepped _ _ _ h hstep).safe h hlaw hsafe hok)
    (fun _ _ _ h _ hok hstep _ => (hstepped _ _ _ h hstep).dooms hok)
    (fun _ _ _ h hdoomed hstep hlaw => (hstepped _ _ _ h hstep).doomed hdoomed hlaw)
    (dispatchInv_init fd) nofun (by rintro ⟨c, hc, -⟩; cases hc) ops
  refine ⟨hrule.1, fun t hrun hidle => hrule.2 t hrun ?_⟩
  rintro ⟨c, hc, -⟩
  rw [hidle] at hc
  cases hc

/-- Two channels are active, and the callback of the first removes the second. -/
theorem not_handlesRegistered_removed :
    ¬ Runs.Along step HandlesRegistered (init fun n : ℕ => (n : ℤ) + 4)
      [.change (.call 0 .enableReading), .change (.call 1 .enableReading), .poll 2 fun _ => 1,
        .handleEvent, .change (.teardown 1), .handleEvent] := by
  decide

end Dispatch

end Lotta
