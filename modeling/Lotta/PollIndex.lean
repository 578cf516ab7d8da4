/-
# The poller's index

Calls that change an interest set keep `Linked` (`Called` says once what such a call
does to the channel, to its entry and to everything else).  Under the usage rules of
the callers, which empty an interest set only to remove the channel at once, every
entry stays live, removal succeeds with all its assertions, and `poll` reports exactly
the channels with events.
-/
import Lotta.Lib.Runs
import Lotta.PollPoller

namespace Lotta

namespace PollPoller

variable {κ : Type*} [DecidableEq κ] {p q : PollPoller κ} {reg : Finset κ} {c : κ}

/-! ## One call -/

/-- What a call of `enableReading()` or one of its siblings on channel `c` does. -/
structure Called (p q : PollPoller κ) (reg : Finset κ) (c : κ) (k : InterestCall) : Prop where
  linked : Linked q (insert c reg)
  chan_other : ∀ d, d ≠ c → q.chan d = p.chan d
  fd_self : (q.chan c).fd = (p.chan c).fd
  events_self : (q.chan c).events = (k.apply (p.chan c)).events
  entry_other : ∀ d ∈ reg, d ≠ c → q.entryOf d = p.entryOf d
  entry_fresh : c ∉ reg → ∀ pfd, q.entryOf c = some pfd → pfd.fd = (p.chan c).fd
  entry_registered : c ∈ reg → ∀ pfd, q.entryOf c = some pfd →
    ∃ old, p.entryOf c = some old ∧
      pfd.fd = if (k.apply (p.chan c)).events = 0 then -1 else old.fd

theorem Called.fd (h : Called p q reg c k) (d : κ) : (q.chan d).fd = (p.chan d).fd := by
  by_cases hdc : d = c
  · rw [hdc, h.fd_self]
  · rw [h.chan_other d hdc]

/-- Only the channel `c` differs, by the call `k` on it and by its index, now `j`. -/
structure Edited (p q : PollPoller κ) (c : κ) (k : InterestCall) (j : ℤ) : Prop where
  self : q.chan c = { k.apply (p.chan c) with idxPoll := j }
  other : ∀ d, d ≠ c → q.chan d = p.chan d

section Edited

variable {k : InterestCall} {j : ℤ}

theorem Edited.fd (he : Edited p q c k j) (d : κ) : (q.chan d).fd = (p.chan d).fd := by
  by_cases hdc : d = c
  · rw [hdc, he.self]
    exact fd_apply k _
  · rw [he.other d hdc]

omit [DecidableEq κ] in
theorem Edited.idxPoll_other (he : Edited p q c k j) {d : κ} (hdc : d ≠ c) :
    (q.chan d).idxPoll = (p.chan d).idxPoll := by
  rw [he.other d hdc]

/-- The structures are in step again when `channels_`, the indices and the entries are
those of the old poller with `c` in it. -/
theorem Edited.linked (he : Edited p q c k j) (h : Linked p reg) {pfd : PollFd}
    (hchannels : ∀ fd d, q.channels fd = some d ↔ d ∈ insert c reg ∧ (p.chan d).fd = fd)
    (hbij : Set.BijOn (fun d => (q.chan d).idxPoll) (insert c reg : Finset κ) q.positions)
    (hentry : q.entryOf c = some pfd) (hfd : pfd.fd = (p.chan c).fd ∨ pfd.fd = -1)
    (hevents : pfd.events = (k.apply (p.chan c)).events.setWidth 16)
    (hother : ∀ d ∈ reg, d ≠ c → q.entryOf d = p.entryOf d) : Linked q (insert c reg) where
  channels_iff := fun fd d => by
    rw [he.fd]
    exact hchannels fd d
  bij := hbij
  entry := fun d hd e hde => by
    by_cases hdc : d = c
    · subst hdc
      obtain rfl : pfd = e := Option.some.inj (hentry.symm.trans hde)
      rw [he.fd, he.self]
      exact ⟨hfd, hevents⟩
    · have hdreg := (Finset.mem_insert.mp hd).resolve_left hdc
      rw [hother d hdreg hdc] at hde
      rw [he.other d hdc]
      exact h.entry d hdreg e hde
  interest := fun d => by
    by_cases hdc : d = c
    · rw [hdc, he.self]
      exact isInterest_apply k (h.interest c)
    · rw [he.other d hdc]
      exact h.interest d

end Edited

/-- A later update writes the channel and its entry. -/
theorem edited_refresh (p : PollPoller κ) (c : κ) (k : InterestCall) (old : PollFd) :
    Edited p ((p.setChan c (k.apply (p.chan c))).refresh c old) c k (p.chan c).idxPoll where
  self := (Function.update_self ..).trans (by rw [← idxPoll_apply k (p.chan c)])
  other := fun _ hd => Function.update_of_ne hd ..

/-- A call on a registered channel. -/
theorem called_registered (h : Linked p reg) (hc : c ∈ reg) (k : InterestCall) :
    ∃ q, p.call c k = some q ∧ Called p q reg c k := by
  obtain ⟨old, hold⟩ := h.exists_entry hc
  obtain ⟨hfd, -⟩ := h.entry c hc old hold
  have he := edited_refresh p c k old
  set ch := k.apply (p.chan c) with hch
  have hq : p.call c k = some ((p.setChan c ch).refresh c old) := by
    have hnonneg := h.idxPoll_nonneg hc
    have hent : p.pollFds[(p.chan c).idxPoll.toNat]? = some old := hold
    simp only [call, updateChannel, setChan, Function.update_self, hch, idxPoll_apply, fd_apply]
    rw [if_neg (by omega), if_pos (h.channels_fd hc), hent]
    simp only [hfd, if_true]
  have hfds : ((p.setChan c ch).refresh c old).pollFds = p.pollFds.set (p.chan c).idxPoll.toNat
      ⟨if ch.isEmptyEvent then -1 else old.fd, ch.events.setWidth 16, 0⟩ := by
    simp only [refresh, setChan, Function.update_self, hch, idxPoll_apply]
  have hidx : ∀ d, (((p.setChan c ch).refresh c old).chan d).idxPoll = (p.chan d).idxPoll := by
    intro d
    by_cases hdc : d = c
    · rw [hdc, he.self]
    · exact he.idxPoll_other hdc
  have hentry : ((p.setChan c ch).refresh c old).entryOf c =
      some ⟨if ch.isEmptyEvent then -1 else old.fd, ch.events.setWidth 16, 0⟩ := by
    rw [entryOf, hidx, hfds, List.getElem?_set_self (h.toNat_lt hc)]
  have hother : ∀ d ∈ reg, d ≠ c → ((p.setChan c ch).refresh c old).entryOf d = p.entryOf d := by
    intro d hd hdc
    rw [entryOf, hidx, hfds, List.getElem?_set_ne, entryOf]
    exact fun heq => hdc (h.idxPoll_inj hd hc heq.symm)
  have hinsert : insert c reg = reg := Finset.insert_eq_self.mpr hc
  have hpos : ((p.setChan c ch).refresh c old).positions = p.positions := by
    rw [positions, hfds, List.length_set, positions]
  have hlinked : Linked ((p.setChan c ch).refresh c old) (insert c reg) := by
    refine he.linked h (fun fd d => ?_) ?_ hentry ?_ rfl hother
    · rw [hinsert]
      exact h.channels_iff fd d
    · rw [hinsert, hpos]
      exact h.bij.congr fun d _ => (hidx d).symm
    · by_cases hempty : ch.isEmptyEvent = true
      · exact Or.inr (if_pos hempty)
      · simpa only [if_neg hempty] using hfd
  refine ⟨_, hq, hlinked, he.other, he.fd c, by rw [he.self], hother,
    fun hnot => absurd hc hnot, fun _ pfd hpfd => ⟨old, hold, ?_⟩⟩
  rw [← Option.some.inj (hentry.symm.trans hpfd)]
  simp only [Channel.isEmptyEvent, kEmptyEvent, beq_iff_eq, hch]

/-- The first update appends an entry and sets the index to its position. -/
theorem edited_register (p : PollPoller κ) (c : κ) (k : InterestCall) :
    Edited p ((p.setChan c (k.apply (p.chan c))).register c) c k p.pollFds.length where
  self := by simp [register, setChan]
  other := fun d hd => by simp [register, setChan, hd]

/-- `channels_` after a registration. -/
theorem channels_register (h : Linked p reg)
    (hfd : ∀ d ∈ reg, (p.chan d).fd ≠ (p.chan c).fd) (fd : ℤ) (d : κ) :
    Function.update p.channels (p.chan c).fd (some c) fd = some d ↔
      d ∈ insert c reg ∧ (p.chan d).fd = fd := by
  rw [Finset.mem_insert]
  by_cases hfdc : fd = (p.chan c).fd
  · subst hfdc
    rw [Function.update_self, Option.some.injEq]
    constructor
    · rintro rfl
      exact ⟨Or.inl rfl, rfl⟩
    · rintro ⟨rfl | hd, hdfd⟩
      · rfl
      · exact absurd hdfd (hfd d hd)
  · rw [Function.update_of_ne hfdc, h.channels_iff]
    constructor
    · exact fun ⟨hd, hdfd⟩ => ⟨Or.inr hd, hdfd⟩
    · rintro ⟨rfl | hd, hdfd⟩
      · exact absurd hdfd.symm hfdc
      · exact ⟨hd, hdfd⟩

/-- The first call on a channel whose descriptor no registered channel has. -/
theorem called_fresh (h : Linked p reg) (hc : c ∉ reg) (hidx : (p.chan c).idxPoll < 0)
    (hfd : ∀ d ∈ reg, (p.chan d).fd ≠ (p.chan c).fd) (k : InterestCall) :
    ∃ q, p.call c k = some q ∧ Called p q reg c k := by
  have he := edited_register p c k
  set ch := k.apply (p.chan c) with hch
  have hq : p.call c k = some ((p.setChan c ch).register c) := by
    have hnone : p.channels (p.chan c).fd = none := by
      rw [Option.eq_none_iff_forall_ne_some]
      intro d hd
      obtain ⟨hdreg, hdfd⟩ := (h.channels_iff _ d).mp hd
      exact hfd d hdreg hdfd
    simp only [call, updateChannel, setChan, Function.update_self, hch, idxPoll_apply, fd_apply]
    rw [if_pos hidx, if_pos hnone]
  have hfds : ((p.setChan c ch).register c).pollFds =
      p.pollFds ++ [⟨(p.chan c).fd, ch.events.setWidth 16, 0⟩] := by
    simp only [register, setChan, Function.update_self, hch, fd_apply]
  have hentry : ((p.setChan c ch).register c).entryOf c =
      some ⟨(p.chan c).fd, ch.events.setWidth 16, 0⟩ := by
    rw [entryOf, he.self, hfds]
    simp
  have hother : ∀ d ∈ reg, d ≠ c → ((p.setChan c ch).register c).entryOf d = p.entryOf d := by
    intro d hd hdc
    rw [entryOf, he.other d hdc, hfds, List.getElem?_append_left (h.toNat_lt hd), entryOf]
  have hlinked : Linked ((p.setChan c ch).register c) (insert c reg) := by
    refine he.linked h (fun fd d => ?_) ?_ hentry (Or.inl rfl) rfl hother
    · simp only [register, setChan, Function.update_self, hch, fd_apply]
      exact channels_register h hfd fd d
    · -- the old indices fill the old positions, and the new one is the next
      have hpos : ((p.setChan c ch).register c).positions =
          insert (p.pollFds.length : ℤ) p.positions := by
        ext i
        simp only [positions, hfds, List.length_append, List.length_singleton, Set.mem_ofPred_eq,
          Set.mem_insert_iff]
        push_cast
        omega
      have hold : Set.BijOn (fun d => (((p.setChan c ch).register c).chan d).idxPoll)
          (reg : Set κ) p.positions :=
        h.bij.congr fun d hd => (he.idxPoll_other fun hdc => hc (hdc ▸ hd)).symm
      have hnew : (((p.setChan c ch).register c).chan c).idxPoll = p.pollFds.length := by
        rw [he.self]
      have := hold.insert (a := c) (by simp only [hnew, positions, Set.mem_ofPred_eq]; omega)
      rw [hpos, Finset.coe_insert]
      simpa only [hnew] using this
  refine ⟨_, hq, hlinked, he.other, he.fd c, by rw [he.self], hother, fun _ pfd hpfd => ?_,
    fun hin => absurd hin hc⟩
  rw [← Option.some.inj (hentry.symm.trans hpfd)]

/-! ## Removal -/

/-- The poller after a removal: channel `c` is gone, and channel `d`, the owner of the
last position, owns the position `i` that `c` had. -/
def removed (p : PollPoller κ) (c d : κ) (i : ℕ) : PollPoller κ where
  channels := Function.update p.channels (p.chan c).fd none
  pollFds := SwapRemove.swapRemove p.pollFds i
  chan := Function.update p.chan d { p.chan d with idxPoll := i }

@[simp] theorem removed_pollFds (p : PollPoller κ) (c d : κ) (i : ℕ) :
    (p.removed c d i).pollFds = SwapRemove.swapRemove p.pollFds i := rfl

theorem removed_chan_other (p : PollPoller κ) (c : κ) {d e : κ} (i : ℕ) (he : e ≠ d) :
    (p.removed c d i).chan e = p.chan e :=
  Function.update_of_ne he _ _

@[simp] theorem removed_idxPoll_self (p : PollPoller κ) (c d : κ) (i : ℕ) :
    ((p.removed c d i).chan d).idxPoll = i := by
  simp [removed]

@[simp] theorem removed_fd (p : PollPoller κ) (c d e : κ) (i : ℕ) :
    ((p.removed c d i).chan e).fd = (p.chan e).fd := by
  by_cases he : e = d
  · subst he; simp [removed]
  · rw [removed_chan_other p c i he]

@[simp] theorem removed_events (p : PollPoller κ) (c d e : κ) (i : ℕ) :
    ((p.removed c d i).chan e).events = (p.chan e).events := by
  by_cases he : e = d
  · subst he; simp [removed]
  · rw [removed_chan_other p c i he]

section Removal

variable {d : κ} (h : Linked p reg) (hc : c ∈ reg) (hd : d ∈ reg)
  (hlast : (p.chan d).idxPoll.toNat = p.pollFds.length - 1)
include h hc hd hlast

/-- Every remaining channel finds its old entry at its new index. -/
theorem entryOf_removed {e : κ} (he : e ∈ reg) (hec : e ≠ c) :
    (p.removed c d (p.chan c).idxPoll.toNat).entryOf e = p.entryOf e := by
  have hi := h.toNat_lt hc
  have hlt := h.toNat_lt he
  have hei : (p.chan e).idxPoll.toNat ≠ (p.chan c).idxPoll.toNat :=
    fun heq => hec (h.idxPoll_inj he hc heq)
  rw [entryOf, removed_pollFds, SwapRemove.getElem?_swapRemove hi, entryOf]
  by_cases hed : e = d
  · subst hed
    rw [removed_idxPoll_self, Int.toNat_natCast, if_pos (by omega), if_pos rfl, hlast]
  · have hel : (p.chan e).idxPoll.toNat ≠ p.pollFds.length - 1 :=
      fun heq => hed (h.idxPoll_inj he hd (heq.trans hlast.symm))
    rw [removed_chan_other p c _ hed, if_pos (by omega), if_neg hei]

omit hd hlast in
theorem channels_iff_removed (fd : ℤ) (e : κ) :
    (p.removed c d (p.chan c).idxPoll.toNat).channels fd = some e ↔
      e ∈ reg.erase c ∧ (p.chan e).fd = fd := by
  rw [Finset.mem_erase, removed]
  by_cases hfd : fd = (p.chan c).fd
  · subst hfd
    simp only [Function.update_self, reduceCtorEq, false_iff]
    rintro ⟨⟨hec, he⟩, heq⟩
    exact hec (h.fd_inj he hc heq)
  · simp only [Function.update_of_ne hfd, h.channels_iff]
    constructor
    · rintro ⟨he, heq⟩
      exact ⟨⟨fun hec => hfd (hec ▸ heq.symm), he⟩, heq⟩
    · rintro ⟨⟨-, he⟩, heq⟩
      exact ⟨he, heq⟩

/-- The indices of the remaining channels fill the shortened array. -/
theorem bijOn_removed :
    Set.BijOn (fun e => ((p.removed c d (p.chan c).idxPoll.toNat).chan e).idxPoll)
      (reg.erase c : Finset κ) (p.removed c d (p.chan c).idxPoll.toNat).positions := by
  have hi := h.toNat_lt hc
  set i := (p.chan c).idxPoll.toNat with hidef
  have hei : ∀ e ∈ reg, e ≠ c → (p.chan e).idxPoll.toNat ≠ i :=
    fun e he hec heq => hec (h.idxPoll_inj he hc heq)
  have hel : ∀ e ∈ reg, e ≠ d → (p.chan e).idxPoll.toNat ≠ p.pollFds.length - 1 :=
    fun e he hed heq => hed (h.idxPoll_inj he hd (heq.trans hlast.symm))
  have hpos : (p.removed c d i).positions =
      {j | 0 ≤ j ∧ j < ((p.pollFds.length - 1 : ℕ) : ℤ)} := by
    rw [positions, removed_pollFds, SwapRemove.length_swapRemove]
  rw [hpos]
  refine ⟨?_, ?_, ?_⟩
  · -- only `d` was at the last position, and it has moved to `i`
    intro e he
    obtain ⟨hec, he⟩ := Finset.mem_erase.mp he
    have hlt := h.toNat_lt he
    have hnonneg := h.idxPoll_nonneg he
    simp only [Set.mem_ofPred_eq]
    by_cases hed : e = d
    · subst hed
      rw [removed_idxPoll_self]
      have := hei e he hec
      omega
    · rw [removed_chan_other p c i hed]
      have := hel e he hed
      omega
  · -- `i` was the index of `c`, which is gone
    intro e he f hf hef
    obtain ⟨hec, he⟩ := Finset.mem_erase.mp he
    obtain ⟨hfc, hf⟩ := Finset.mem_erase.mp hf
    have hei' := hei e he hec
    have hfi' := hei f hf hfc
    by_cases hed : e = d <;> by_cases hfd : f = d
    · rw [hed, hfd]
    · subst hed
      simp only [removed_idxPoll_self, removed_chan_other p c i hfd] at hef
      omega
    · subst hfd
      simp only [removed_idxPoll_self, removed_chan_other p c i hed] at hef
      omega
    · simp only [removed_chan_other p c i hed, removed_chan_other p c i hfd] at hef
      exact h.idxPoll_inj he hf (by rw [hef])
  · -- position `i` belongs to `d` now, and every other one to its old owner
    intro j hj
    simp only [Set.mem_ofPred_eq] at hj
    by_cases hji : j = i
    · have hdc : d ≠ c := by
        rintro rfl
        omega
      exact ⟨d, Finset.mem_coe.mpr (Finset.mem_erase.mpr ⟨hdc, hd⟩), by
        simp only [removed_idxPoll_self, hji]⟩
    · obtain ⟨e, he, hej⟩ := h.exists_owner (i := j.toNat) (by omega)
      have hec : e ≠ c := by
        rintro rfl
        omega
      have hed : e ≠ d := by
        rintro rfl
        omega
      refine ⟨e, Finset.mem_coe.mpr (Finset.mem_erase.mpr ⟨hec, he⟩), ?_⟩
      simp only [removed_chan_other p c i hed]
      omega

/-- A removal keeps the three structures in step. -/
theorem linked_removed :
    Linked (p.removed c d (p.chan c).idxPoll.toNat) (reg.erase c) where
  channels_iff := fun fd e => by
    rw [removed_fd]
    exact channels_iff_removed h hc fd e
  bij := bijOn_removed h hc hd hlast
  entry := fun e he pfd hpfd => by
    obtain ⟨hec, he⟩ := Finset.mem_erase.mp he
    rw [entryOf_removed h hc hd hlast he hec] at hpfd
    rw [removed_fd, removed_events]
    exact h.entry e he pfd hpfd
  interest := fun e => by
    rw [removed_events]
    exact h.interest e

end Removal

/-- Dropping an entry that is not the last moves the last one, whose owner is told. -/
theorem dropEntry_moved {i : ℕ} {last : PollFd} {d : κ} (hi : i < p.pollFds.length)
    (hne : i ≠ p.pollFds.length - 1) (hlast : p.pollFds[p.pollFds.length - 1]? = some last)
    (hd : p.channels last.fd = some d) :
    p.dropEntry i = some { p with
      pollFds := SwapRemove.swapRemove p.pollFds i
      chan := Function.update p.chan d { p.chan d with idxPoll := i } } := by
  rw [dropEntry, if_neg hne, SwapRemove.getElem?_swapLast_self hi, hlast]
  simp only [hd]

omit [DecidableEq κ] in
/-- When every entry is live, the assertion loop passes. -/
theorem checkIndices_of_live (h : Linked p reg) (hlive : ∀ e ∈ reg, p.Live e) :
    p.checkIndices = some p := by
  rw [checkIndices, if_pos]
  intro j hj
  obtain ⟨e, he, hej⟩ := h.exists_owner hj
  obtain ⟨pfd, hpfd⟩ := h.exists_entry he
  have hfd := hlive e he pfd hpfd
  rw [entryOf, hej, Int.toNat_natCast] at hpfd
  rw [indexBehind, hpfd, Option.bind_some, hfd, h.channels_fd he, Option.map_some, hej]

/-- A channel whose interest set has just become empty can be removed when every other
entry is live. -/
theorem remove_of_live (h : Linked p reg) (hc : c ∈ reg) (hev : (p.chan c).events = 0)
    (hmark : ∀ pfd, p.entryOf c = some pfd → pfd.fd = -1)
    (hlive : ∀ e ∈ reg, e ≠ c → p.Live e) :
    ∃ d ∈ reg, (p.chan d).idxPoll.toNat = p.pollFds.length - 1 ∧
      p.remove c = some (p.removed c d (p.chan c).idxPoll.toNat) := by
  obtain ⟨pfd, hpfd⟩ := h.exists_entry hc
  have hi := h.toNat_lt hc
  have hempty : (p.chan c).isEmptyEvent = true := by
    simp [Channel.isEmptyEvent, kEmptyEvent, hev]
  have hpev : pfd.events.signExtend 32 = (p.chan c).events := by
    rw [(h.entry c hc pfd hpfd).2]
    exact signExtend_setWidth (h.interest c)
  have hremove : p.remove c =
      ((p.eraseFd (p.chan c).fd).dropEntry (p.chan c).idxPoll.toNat).bind checkIndices := by
    have hent : p.pollFds[(p.chan c).idxPoll.toNat]? = some pfd := hpfd
    rw [remove, if_pos hempty, removeChannel,
      if_pos ⟨h.channels_fd hc, hempty, h.idxPoll_nonneg hc⟩, hent]
    simp only [hmark pfd hpfd, hpev, and_self, if_true]
  obtain ⟨d, hd, hdlast⟩ := h.exists_owner (i := p.pollFds.length - 1) (by omega)
  have hlast : (p.chan d).idxPoll.toNat = p.pollFds.length - 1 := by omega
  have hdrop : (p.eraseFd (p.chan c).fd).dropEntry (p.chan c).idxPoll.toNat =
      some (p.removed c d (p.chan c).idxPoll.toNat) := by
    by_cases hic : (p.chan c).idxPoll.toNat = p.pollFds.length - 1
    · -- the entry of `c` is the last one, and nothing moves
      have hdc : d = c := h.idxPoll_inj hd hc (hlast.trans hic.symm)
      subst hdc
      have hchan : ({ p.chan d with idxPoll := ((p.chan d).idxPoll.toNat : ℤ) } : Channel) =
          p.chan d := by
        have := h.idxPoll_nonneg hc
        rw [Int.toNat_of_nonneg this]
      rw [dropEntry, eraseFd, if_pos hic, removed, SwapRemove.swapRemove_last (by omega), hchan,
        Function.update_eq_self]
    · -- the last entry is live, so `channels_` finds its owner by the descriptor in it
      have hdc : d ≠ c := by
        rintro rfl
        exact hic hlast
      obtain ⟨last, hentd⟩ := h.exists_entry hd
      have hfdd := hlive d hd hdc last hentd
      have hfdne : last.fd ≠ (p.chan c).fd := fun heq => hdc (h.fd_inj hd hc (hfdd ▸ heq))
      rw [entryOf, hlast] at hentd
      have howner : (p.eraseFd (p.chan c).fd).channels last.fd = some d := by
        show Function.update p.channels (p.chan c).fd none last.fd = some d
        rw [Function.update_of_ne hfdne, hfdd]
        exact h.channels_fd hd
      exact dropEntry_moved (p := p.eraseFd (p.chan c).fd) hi hic hentd howner
  refine ⟨d, hd, hlast, ?_⟩
  rw [hremove, hdrop, Option.bind_some]
  refine checkIndices_of_live (linked_removed h hc hd hlast) fun e he => ?_
  obtain ⟨hec, he⟩ := Finset.mem_erase.mp he
  intro pfd' hpfd'
  rw [entryOf_removed h hc hd hlast he hec] at hpfd'
  rw [removed_fd]
  exact hlive e he hec pfd' hpfd'

/-! ## `poll` -/

/-- The channels behind the entries with events. -/
def reported (channels : ℤ → Option κ) (l : List PollFd) : List κ :=
  l.filterMap fun pfd => if pfd.revents ≠ 0 then channels pfd.fd else none

omit [DecidableEq κ] in
theorem reported_cons_of_eq (channels : ℤ → Option κ) {pfd : PollFd} (h : pfd.revents = 0)
    (rest : List PollFd) : reported channels (pfd :: rest) = reported channels rest := by
  rw [reported, List.filterMap_cons_none (by simp [h]), reported]

omit [DecidableEq κ] in
theorem reported_cons_of_ne {channels : ℤ → Option κ} {pfd : PollFd} (h : pfd.revents ≠ 0)
    (hc : channels pfd.fd = some c) (rest : List PollFd) :
    reported channels (pfd :: rest) = c :: reported channels rest := by
  rw [reported, List.filterMap_cons_some (b := c) (by rw [if_pos h, hc]), reported]

omit [DecidableEq κ] in
theorem reported_eq_nil {channels : ℤ → Option κ} {l : List PollFd}
    (h : ∀ pfd ∈ l, pfd.revents = 0) : reported channels l = [] := by
  rw [reported, List.filterMap_eq_nil_iff]
  intro pfd hpfd
  rw [if_neg (not_not.mpr (h pfd hpfd))]

/-- The loop has turned the channels `chan` into `chan'`: those behind an entry with events
have got them, and the others are as they were. -/
structure Marked (channels : ℤ → Option κ) (l : List PollFd) (chan chan' : κ → Channel) :
    Prop where
  other : ∀ c, c ∉ reported channels l → chan' c = chan c
  revents : ∀ pfd ∈ l, pfd.revents ≠ 0 → ∀ c, channels pfd.fd = some c →
    (chan' c).revents = pfd.revents.signExtend 32

section Marked

variable {channels : ℤ → Option κ} {pfd : PollFd} {rest : List PollFd}
  {chan chan' : κ → Channel}

omit [DecidableEq κ] in
theorem marked_of_none {l : List PollFd} (h : ∀ pfd ∈ l, pfd.revents = 0) :
    Marked channels l chan chan where
  other := fun _ _ => rfl
  revents := fun pfd hpfd hne => absurd (h pfd hpfd) hne

omit [DecidableEq κ] in
/-- An entry without events is passed over. -/
theorem Marked.skip (h : Marked channels rest chan chan') (hrev : pfd.revents = 0) :
    Marked channels (pfd :: rest) chan chan' where
  other := by
    rw [reported_cons_of_eq channels hrev]
    exact h.other
  revents := by
    intro e he herev
    rcases List.mem_cons.mp he with rfl | he
    · exact absurd hrev herev
    · exact h.revents e he herev

/-- An entry with events marks its channel, to which no later entry belongs. -/
theorem Marked.mark (hc : channels pfd.fd = some c) (hrev : pfd.revents ≠ 0)
    (hfresh : c ∉ reported channels rest)
    (h : Marked channels rest
      (Function.update chan c { chan c with revents := pfd.revents.signExtend 32 }) chan') :
    Marked channels (pfd :: rest) chan chan' where
  other := by
    intro d hd
    rw [reported_cons_of_ne hrev hc, List.mem_cons, not_or] at hd
    rw [h.other d hd.2, Function.update_of_ne hd.1]
  revents := by
    intro e he herev d hd
    rcases List.mem_cons.mp he with rfl | he
    · obtain rfl : c = d := Option.some.inj (hc.symm.trans hd)
      rw [h.other c hfresh, Function.update_self]
    · exact h.revents e he herev d hd

omit [DecidableEq κ] in
/-- Behind entries with other descriptors stand other channels. -/
theorem notMem_reported {chan : κ → Channel}
    (hall : ∀ e ∈ rest, ∃ d, channels e.fd = some d ∧ (chan d).fd = e.fd)
    (hfresh : (chan c).fd ∉ rest.map PollFd.fd) : c ∉ reported channels rest := by
  rw [reported, List.mem_filterMap]
  rintro ⟨e, he, heq⟩
  obtain ⟨d, hd, hdfd⟩ := hall e he
  split at heq
  · obtain rfl : d = c := Option.some.inj (hd.symm.trans heq)
    exact hfresh (List.mem_map.mpr ⟨e, he, hdfd.symm⟩)
  · cases heq

end Marked

/-- Stopping after `num` channels loses none, when `num` is the number of entries with
events: the loop reports every channel behind such an entry, with its events. -/
theorem report_spec (channels : ℤ → Option κ) (l : List PollFd) :
    ∀ (num : ℤ) (chan : κ → Channel) (active : List κ),
      (l.map PollFd.fd).Nodup →
      num = (l.countP fun pfd => pfd.revents ≠ 0 : ℕ) →
      (∀ pfd ∈ l, ∃ c, channels pfd.fd = some c ∧ (chan c).fd = pfd.fd) →
      ∃ chan', report channels l num chan active = some (chan', active ++ reported channels l) ∧
        Marked channels l chan chan' := by
  induction l with
  | nil =>
      intro num chan active _ _ _
      exact ⟨chan, by simp [report, reported], marked_of_none (by simp)⟩
  | cons pfd rest ih =>
      intro num chan active hnodup hnum hall
      rw [List.map_cons, List.nodup_cons] at hnodup
      obtain ⟨hfresh, hnodup⟩ := hnodup
      have hrest : ∀ e ∈ rest, ∃ c, channels e.fd = some c ∧ (chan c).fd = e.fd :=
        fun e he => hall e (List.mem_cons_of_mem pfd he)
      by_cases hrev : pfd.revents = 0
      · obtain ⟨chan', hrep, hmarked⟩ :=
          ih num chan active hnodup (by simpa [hrev] using hnum) hrest
        refine ⟨chan', ?_, hmarked.skip hrev⟩
        rw [report, if_neg (not_not.mpr hrev), hrep, reported_cons_of_eq channels hrev]
      · obtain ⟨c, hc, hcfd⟩ := hall pfd List.mem_cons_self
        have hcons := reported_cons_of_ne hrev hc rest
        have hcount : num - 1 = (rest.countP fun pfd => pfd.revents ≠ 0 : ℕ) := by
          rw [List.countP_cons_of_pos (by simpa using hrev)] at hnum
          push_cast at hnum ⊢
          omega
        have hnew : c ∉ reported channels rest := notMem_reported hrest (hcfd ▸ hfresh)
        set chan₁ := Function.update chan c
          { chan c with revents := pfd.revents.signExtend 32 } with hchan₁
        have hstop : report channels (pfd :: rest) num chan active =
            if num - 1 ≤ 0 then some (chan₁, active ++ [c])
            else report channels rest (num - 1) chan₁ (active ++ [c]) := by
          rw [report, if_pos hrev, hc]
          simp only [hcfd, if_true, hchan₁]
        by_cases hdone : num - 1 ≤ 0
        · -- the count is exhausted: no entry of the rest has events
          have hzero : ∀ e ∈ rest, e.revents = 0 := by
            have hcz : (rest.countP fun pfd => decide (pfd.revents ≠ 0)) = 0 := by omega
            intro e he
            simpa using List.countP_eq_zero.mp hcz e he
          refine ⟨chan₁, ?_, (marked_of_none hzero).mark hc hrev hnew⟩
          rw [hstop, if_pos hdone, hcons, reported_eq_nil hzero]
        · have hfd₁ : ∀ d, (chan₁ d).fd = (chan d).fd := by
            intro d
            by_cases hd : d = c
            · rw [hd, hchan₁, Function.update_self]
            · rw [hchan₁, Function.update_of_ne hd]
          obtain ⟨chan', hrep, hmarked⟩ := ih (num - 1) chan₁ (active ++ [c]) hnodup hcount
            (fun e he => by simpa only [hfd₁] using hrest e he)
          refine ⟨chan', ?_, hmarked.mark hc hrev hnew⟩
          rw [hstop, if_neg hdone, hrep, hcons, List.append_assoc, List.singleton_append]

end PollPoller

end Lotta
