/-
# Removing channels

`removeChannel` finds the owner of an entry through the descriptor that stands in it, once
for the entry that takes the place of the removed one and once for every entry in its final
assertion.  The descriptor of a channel whose interest set has become empty is `-1`, for which
`channels_` holds nothing.  So one such channel is enough to make the removal of another fail
(`run_removes_iff`).

For the channel itself the removal asserts that its entry is marked, which the first update of
a channel does not do, and it leaves the index in the channel, which therefore cannot be
registered again.  `run_teardown` says what this means for `disableEvents()` followed by
`remove()`.
-/
import Lotta.WatchedSet

namespace Lotta

variable {κ : Type*} [DecidableEq κ]

/-! ## When a removal passes its assertions -/

namespace PollPoller

variable {p q : PollPoller κ} {reg : Finset κ} {c : κ}

/-- What `dropEntry` leaves where it passes. -/
theorem pollFds_of_dropEntry {i : ℕ} (hi : i < p.pollFds.length) (h : p.dropEntry i = some q) :
    q.pollFds = SwapRemove.swapRemove p.pollFds i ∧ q.channels = p.channels := by
  unfold dropEntry at h
  split at h
  · rename_i hlast
    obtain rfl := Option.some.inj h
    exact ⟨(SwapRemove.swapRemove_last (by omega)).symm, rfl⟩
  · split at h
    · cases h
    · split at h
      · cases h
      · obtain rfl := Option.some.inj h
        exact ⟨rfl, rfl⟩

omit [DecidableEq κ] in
/-- The assertion loop finds a channel behind every entry. -/
theorem channels_of_checkIndices (h : p.checkIndices = some q) {pfd : PollFd}
    (hmem : pfd ∈ p.pollFds) : p.channels pfd.fd ≠ none := by
  unfold checkIndices at h
  split at h
  · rename_i hall
    obtain ⟨i, hi⟩ := List.getElem?_of_mem hmem
    have hindex := hall i (List.getElem?_eq_some_iff.mp hi).1
    intro hnone
    rw [indexBehind, hi, Option.bind_some, hnone] at hindex
    cases hindex
  · cases h

/-- What the removal of `c` owes the other channels: they are registered as before, with the
same interest, and their indices point to the entries they had. -/
structure LeavesOthers (p q : PollPoller κ) (reg : Finset κ) (c : κ) : Prop where
  linked : Linked q (reg.erase c)
  interest : ∀ d, d ≠ c → (q.chan d).events = (p.chan d).events
  entry : ∀ d ∈ reg, d ≠ c → q.entryOf d = p.entryOf d

/-- What the assertions of `removeChannel` ask of the channel and of the others. -/
structure Removable (p : PollPoller κ) (reg : Finset κ) (c : κ) : Prop where
  mem : c ∈ reg
  empty : (p.chan c).events = 0
  marked : ∀ pfd, p.entryOf c = some pfd → pfd.fd = -1
  live : ∀ d ∈ reg, d ≠ c → p.Live d

/-- The removal of a removable channel. -/
theorem removed_of_removable (h : Linked p reg) (hc : Removable p reg c) :
    ∃ q, p.removeChannel c = some q ∧ LeavesOthers p q reg c ∧
      q.channels (p.chan c).fd = none ∧ 0 ≤ (q.chan c).idxPoll ∧
      ∀ d, (q.chan d).fd = (p.chan d).fd := by
  obtain ⟨d, hd, hlast, hremove⟩ := remove_of_live h hc.mem hc.empty hc.marked hc.live
  have hempty : (p.chan c).isEmptyEvent = true := by
    simp [Channel.isEmptyEvent, kEmptyEvent, hc.empty]
  rw [remove, if_pos hempty] at hremove
  refine ⟨_, hremove, ⟨linked_removed h hc.mem hd hlast, fun e _ => removed_events p c d e _,
    fun e he hec => entryOf_removed h hc.mem hd hlast he hec⟩, Function.update_self .., ?_,
    fun e => removed_fd p c d e _⟩
  by_cases hdc : c = d
  · subst hdc
    rw [removed_idxPoll_self]
    exact Int.natCast_nonneg _
  · rw [removed_chan_other p c _ hdc]
    exact h.idxPoll_nonneg hc.mem

/-- Where the descriptors of the channels are open, the removal passes only for these. -/
theorem removable_of_removed (h : Linked p reg) (hfd : ∀ d, 0 ≤ (p.chan d).fd)
    (hremove : p.removeChannel c = some q) : Removable p reg c := by
  unfold removeChannel at hremove
  split at hremove
  · rename_i hassert
    obtain ⟨hchannel, hempty, -⟩ := hassert
    have hc : c ∈ reg := ((h.channels_iff _ c).mp hchannel).1
    split at hremove
    · cases hremove
    · rename_i pfd hpfd
      split at hremove
      · rename_i hmark
        rw [Option.bind_eq_some_iff] at hremove
        obtain ⟨p', hdrop, hcheck⟩ := hremove
        obtain ⟨hfds, hchannels⟩ :=
          pollFds_of_dropEntry (p := p.eraseFd (p.chan c).fd) (h.toNat_lt hc) hdrop
        refine ⟨hc, by simpa [Channel.isEmptyEvent, kEmptyEvent] using hempty, ?_, ?_⟩
        · intro pfd' hpfd'
          rw [entryOf, hpfd, Option.some.injEq] at hpfd'
          exact hpfd' ▸ hmark.1
        · intro d hd hdc e he
          refine (h.entry d hd e he).1.resolve_right fun hmarked => ?_
          -- the entry of `d` is still there, and no channel is found behind it
          have hmem : e ∈ p'.pollFds := by
            rw [hfds]
            exact SwapRemove.mem_swapRemove (l := p.pollFds) (h.toNat_lt hc)
              (fun heq => hdc (h.idxPoll_inj hd hc heq)) he
          refine channels_of_checkIndices hcheck hmem ?_
          rw [hchannels, hmarked]
          show Function.update p.channels (p.chan c).fd none (-1) = none
          have hne : (-1 : ℤ) ≠ (p.chan c).fd := by
            have := hfd c
            omega
          rw [Function.update_of_ne hne, Option.eq_none_iff_forall_ne_some]
          intro f hf
          have := hfd f
          rw [((h.channels_iff _ f).mp hf).2] at this
          omega
      · cases hremove
  · cases hremove

end PollPoller

namespace Registry

variable {D : Descriptors κ} {s : Registry κ} {c : κ}

/-! ## Removing one channel among others -/

/-- `removeChannel` on `c` passes its assertions and leaves the other channels alone. -/
def Removes (s : Registry κ) (c : κ) : Prop :=
  ∃ q, s.poller.removeChannel c = some q ∧ PollPoller.LeavesOthers s.poller q s.registered c

/-- A channel with an empty interest set is removable when it is marked and no other is. -/
theorem removable_iff (h : CallInv D s) (hev : (s.poller.chan c).events = 0) :
    PollPoller.Removable s.poller s.registered c ↔
      s.Marked c ∧ ∀ d ∈ s.registered, d ≠ c → ¬ s.Marked d := by
  have hlive : (∀ d ∈ s.registered, d ≠ c → s.poller.Live d) ↔
      ∀ d ∈ s.registered, d ≠ c → ¬ s.Marked d :=
    forall₃_congr fun d hd _ => h.live_iff_not_marked hd
  constructor
  · intro hc
    obtain ⟨pfd, hpfd⟩ := h.linked.exists_entry hc.mem
    refine ⟨⟨h.linked.idxPoll_nonneg hc.mem, ?_⟩, hlive.mp hc.live⟩
    rw [hpfd, Option.map_some, hc.marked pfd hpfd]
  · rintro ⟨⟨hidx, hmark⟩, hothers⟩
    have hc : c ∈ s.registered := by
      by_contra hnot
      exact absurd (h.fresh c hnot).1 (not_lt.mpr hidx)
    refine ⟨hc, hev, fun pfd hpfd => ?_, hlive.mpr hothers⟩
    rw [hpfd, Option.map_some] at hmark
    exact Option.some.inj hmark

theorem removes_iff (h : CallInv D s) (hev : (s.poller.chan c).events = 0) :
    s.Removes c ↔ s.Marked c ∧ ∀ d ∈ s.registered, d ≠ c → ¬ s.Marked d := by
  rw [← removable_iff h hev]
  constructor
  · rintro ⟨q, hq, -⟩
    exact PollPoller.removable_of_removed h.linked h.fd_nonneg hq
  · intro hc
    obtain ⟨q, hq, hleaves, -⟩ := PollPoller.removed_of_removable h.linked hc
    exact ⟨q, hq, hleaves⟩

/-- In every state that calls of the five functions lead to, a channel with an empty interest
set can be removed, with the others left alone, exactly when its own entry is marked and that
of no other channel is. -/
theorem run_removes_iff (D : Descriptors κ) (ops : List (κ × InterestCall)) :
    Runs.Along callStep
      (fun s => ∀ c, (s.poller.chan c).events = 0 →
        (s.Removes c ↔ s.Marked c ∧ ∀ d ∈ s.registered, d ≠ c → ¬ s.Marked d))
      (init D.fd) ops := by
  refine (Runs.Along.of_invariant (P := CallInv D) ?_ (callInv_init D)).mono
    fun s h c hev => removes_iff h hev
  rintro s ⟨c, k⟩ t hs ht
  obtain ⟨q, hcall, hq⟩ := exists_callStep hs c k
  obtain rfl := Option.some.inj (ht.symm.trans hq)
  exact callInv_called hs hcall

/-- Two channels stop reading; the removal of one of them meets the marked entry of the
other. -/
theorem not_removes_paused :
    ¬ Runs.Along callStep (fun s => ∀ c, (s.poller.chan c).events = 0 → s.Removes c)
      (init fun n : Fin 2 => (n : ℤ) + 4)
      [(0, .enableReading), (1, .enableReading), (1, .disableReading), (0, .disableReading)] := by
  intro h
  obtain ⟨s, hs⟩ : ∃ s, Runs.run callStep (init fun n : Fin 2 => (n : ℤ) + 4)
      [(0, .enableReading), (1, .enableReading), (1, .disableReading),
        (0, .disableReading)] = some s := ⟨_, rfl⟩
  have hev : (s.poller.chan 0).events = 0 := by
    have := congrArg (Option.map fun s => (s.poller.chan 0).events) hs
    exact Option.some.inj (this.symm.trans (by decide))
  have hremove : (s.poller.removeChannel 0).isNone = true := by
    have := congrArg (Option.map fun s => (s.poller.removeChannel 0).isNone) hs
    exact Option.some.inj (this.symm.trans (by decide))
  obtain ⟨q, hq, -⟩ := h.final hs 0 hev
  rw [hq] at hremove
  cases hremove

end Registry

/-! ## Tearing a channel down -/

namespace PollPoller

variable {p q : PollPoller κ} {reg : Finset κ} {c : κ} {k : InterestCall}

/-- A channel with an index that `channels_` does not hold fails the assertions of an update. -/
theorem call_eq_none (hidx : 0 ≤ (p.chan c).idxPoll)
    (hchannel : p.channels (p.chan c).fd ≠ some c) : p.call c k = none := by
  simp only [call, updateChannel, setChan, Function.update_self, idxPoll_apply, fd_apply]
  rw [if_neg (not_lt.mpr hidx), if_neg hchannel]

/-- What every call that passes does. -/
theorem called_of_call (h : Linked p reg) (hcall : p.call c k = some q) :
    Called p q reg c k := by
  obtain ⟨q', hq', hcalled⟩ : ∃ q', p.call c k = some q' ∧ Called p q' reg c k := by
    by_cases hc : c ∈ reg
    · exact called_registered h hc k
    · have hidx : (p.chan c).idxPoll < 0 := by
        by_contra hidx
        have hnone : p.channels (p.chan c).fd ≠ some c := fun hsome =>
          hc ((h.channels_iff _ c).mp hsome).1
        rw [call_eq_none (not_lt.mp hidx) hnone] at hcall
        cases hcall
      refine called_fresh h hc hidx (fun d hd hfd => ?_) k
      -- the assertion of a first update: no channel is registered for the descriptor
      simp only [call, updateChannel, setChan, Function.update_self, idxPoll_apply,
        fd_apply] at hcall
      rw [if_pos hidx, if_neg (by rw [(h.channels_iff _ d).mpr ⟨hd, hfd⟩]; simp)] at hcall
      cases hcall
  rw [hcall, Option.some.injEq] at hq'
  exact hq' ▸ hcalled

/-- `disableEvents()` and `remove()` pass for a registered channel when every other entry is
live, and for no other channel. -/
theorem teardown_iff (h : Linked p reg) (hfd : ∀ d, 0 ≤ (p.chan d).fd) :
    (∃ q, p.teardown c = some q) ↔ c ∈ reg ∧ ∀ d ∈ reg, d ≠ c → p.Live d := by
  constructor
  · rintro ⟨q, hq⟩
    rw [teardown, Option.bind_eq_some_iff] at hq
    obtain ⟨p', hcall, hremove⟩ := hq
    have hcalled := called_of_call h hcall
    have hempty : (p'.chan c).isEmptyEvent = true := by
      unfold remove at hremove
      by_contra hempty
      rw [if_neg hempty] at hremove
      cases hremove
    rw [remove, if_pos hempty] at hremove
    obtain ⟨hmem, -, hmarked, hlive⟩ := removable_of_removed hcalled.linked
      (fun d => by rw [hcalled.fd]; exact hfd d) hremove
    have hc : c ∈ reg := by
      by_contra hc
      -- the first update has put the descriptor into the entry
      obtain ⟨pfd, hpfd⟩ := hcalled.linked.exists_entry hmem
      have hfdc := hfd c
      rw [← hcalled.entry_fresh hc pfd hpfd, hmarked pfd hpfd] at hfdc
      exact absurd hfdc (by decide)
    refine ⟨hc, fun d hd hdc pfd hpfd => ?_⟩
    rw [← hcalled.entry_other d hd hdc] at hpfd
    rw [← hcalled.fd]
    exact hlive d (Finset.mem_insert_of_mem hd) hdc pfd hpfd
  · rintro ⟨hc, hlive⟩
    obtain ⟨p', hcall, hcalled⟩ := called_registered h hc .disableEvents
    have hlinked : Linked p' reg := Finset.insert_eq_self.mpr hc ▸ hcalled.linked
    have hevents : (p'.chan c).events = 0 := hcalled.events_self
    obtain ⟨q, hq, -⟩ := removed_of_removable hlinked
      { mem := hc
        empty := hevents
        marked := fun pfd hpfd => by
          obtain ⟨old, -, hfdc⟩ := hcalled.entry_registered hc pfd hpfd
          rw [hfdc]
          exact if_pos rfl
        live := fun d hd hdc pfd hpfd => by
          rw [hcalled.entry_other d hd hdc] at hpfd
          rw [hcalled.fd]
          exact hlive d hd hdc pfd hpfd }
    refine ⟨q, ?_⟩
    rw [teardown, hcall, Option.bind_some, remove, if_pos (by simp [Channel.isEmptyEvent,
      kEmptyEvent, hevents]), hq]

/-- What `remove` leaves: the structures are in step for the others, and the channel, which
`channels_` no longer holds, has kept an index. -/
theorem removed_of_remove (h : Linked p reg) (hfd : ∀ d, 0 ≤ (p.chan d).fd)
    (hremove : p.remove c = some q) :
    Linked q (reg.erase c) ∧ (∀ d, (q.chan d).fd = (p.chan d).fd) ∧
      q.channels (q.chan c).fd = none ∧ 0 ≤ (q.chan c).idxPoll := by
  unfold remove at hremove
  split at hremove
  · obtain ⟨q', hq', hleaves, hchannel, hidx, hfds⟩ :=
      removed_of_removable h (removable_of_removed h hfd hremove)
    obtain rfl := Option.some.inj (hq'.symm.trans hremove)
    exact ⟨hleaves.linked, hfds, by rw [hfds]; exact hchannel, hidx⟩
  · cases hremove

end PollPoller

/-- The steps in the life of the channels of a poller. -/
inductive LifeOp (κ : Type*) where
  | call (c : κ) (k : InterestCall)
  | remove (c : κ)

namespace Registry

/-- One step; `none` when an assertion fails. -/
def lifeStep (s : Registry κ) : LifeOp κ → Option (Registry κ)
  | .call c k => s.step (.call c k)
  | .remove c => (s.poller.remove c).map fun p => { s with
      poller := p, registered := s.registered.erase c, removed := insert c s.removed }

/-- `disableEvents()` followed by `remove()` passes every assertion, and afterwards the channel
can be enabled again: it gets a new entry behind the entries of the others. -/
def SafeTeardown (s : Registry κ) (c : κ) : Prop :=
  ∃ q, s.poller.teardown c = some q ∧ ∀ k : InterestCall, k.isEnable = true →
    ∃ r, q.call c k = some r ∧ r.channels (r.chan c).fd = some c ∧
      (r.chan c).idxPoll = q.pollFds.length ∧ r.pollFds.take q.pollFds.length = q.pollFds

/-- What every step keeps. -/
structure LifeInv (s : Registry κ) : Prop where
  linked : PollPoller.Linked s.poller s.registered
  fd_nonneg : ∀ c, 0 ≤ (s.poller.chan c).fd

omit [DecidableEq κ] in
theorem lifeInv_init (fd : κ → ℕ) : LifeInv (init fun c => (fd c : ℤ)) :=
  ⟨PollPoller.linked_init _, fun c => Int.natCast_nonneg (fd c)⟩

variable {s t : Registry κ} {c : κ}

theorem lifeInv_step {op : LifeOp κ} (h : LifeInv s) (hstep : s.lifeStep op = some t) :
    LifeInv t := by
  cases op with
  | call c k =>
      rw [lifeStep, step, Option.map_eq_some_iff] at hstep
      obtain ⟨q, hq, rfl⟩ := hstep
      have hcalled := PollPoller.called_of_call h.linked hq
      refine ⟨hcalled.linked, fun d => ?_⟩
      rw [hcalled.fd]
      exact h.fd_nonneg d
  | remove c =>
      rw [lifeStep, Option.map_eq_some_iff] at hstep
      obtain ⟨q, hq, rfl⟩ := hstep
      obtain ⟨hlinked, hfds, -⟩ := PollPoller.removed_of_remove h.linked h.fd_nonneg hq
      refine ⟨hlinked, fun d => ?_⟩
      rw [hfds]
      exact h.fd_nonneg d

/-- A channel that has been torn down is not registered again. -/
theorem not_safeTeardown (h : LifeInv s) (c : κ) : ¬ s.SafeTeardown c := by
  rintro ⟨q, hq, henable⟩
  rw [PollPoller.teardown, Option.bind_eq_some_iff] at hq
  obtain ⟨p, hcall, hremove⟩ := hq
  have hcalled := PollPoller.called_of_call h.linked hcall
  obtain ⟨-, -, hnone, hidx⟩ := PollPoller.removed_of_remove hcalled.linked
    (fun d => by rw [hcalled.fd]; exact h.fd_nonneg d) hremove
  obtain ⟨r, hr, -⟩ := henable .enableReading rfl
  rw [PollPoller.call_eq_none hidx (by rw [hnone]; simp)] at hr
  cases hr

/-- In no state of any run can a channel be torn down and then used again.  The teardown alone
passes exactly for a registered channel among others that are all live. -/
theorem run_teardown (fd : κ → ℕ) (ops : List (LifeOp κ)) :
    Runs.Along lifeStep
      (fun s => ∀ c, ¬ s.SafeTeardown c ∧
        ((∃ q, s.poller.teardown c = some q) ↔
          c ∈ s.registered ∧ ∀ d ∈ s.registered, d ≠ c → s.poller.Live d))
      (init fun c => (fd c : ℤ)) ops :=
  (Runs.Along.of_invariant (fun _ _ _ h hstep => lifeInv_step h hstep) (lifeInv_init fd)).mono
    fun _ h c => ⟨not_safeTeardown h c, PollPoller.teardown_iff h.linked h.fd_nonneg⟩

/-- The channel of a server that was never started. -/
theorem not_safeTeardown_unstarted :
    ¬ Runs.Along lifeStep (fun s => ∀ c, s.SafeTeardown c) (init fun _ : Unit => 4) [] := by
  intro h
  obtain ⟨q, hq, -⟩ := h ()
  have hnone : ((init fun _ : Unit => 4).poller.teardown ()).isNone = true := by decide
  rw [hq] at hnone
  cases hnone

end Registry

end Lotta
