/-
# Runs of a poller

`Registry` adds to a poller which channels are registered and which have been removed.
A run is a sequence of interest changes and of teardowns (`disableEvents()` immediately
followed by `remove()`).  `Usage` is what the callers in this library keep to: the
descriptors of registered channels differ, only a teardown empties an interest set, and
a removed channel is not used again.

Under it every assertion of the poller holds, its three structures stay mutually
inverse, and `poll` dispatches exactly to the channels that have events.
-/
import Lotta.PollIndex

namespace Lotta

variable {κ : Type*} [DecidableEq κ]

/-- A poller with its registered and its removed channels. -/
structure Registry (κ : Type*) where
  poller : PollPoller κ
  registered : Finset κ
  removed : Finset κ

/-- The steps of a run. -/
inductive RegistryOp (κ : Type*) where
  | call (c : κ) (k : InterestCall)
  | teardown (c : κ)

namespace Registry

/-- A new poller and channels that have not been used. -/
def init (fd : κ → ℤ) : Registry κ := ⟨PollPoller.init fd, ∅, ∅⟩

/-- One step; `none` when an assertion fails. -/
def step (s : Registry κ) : RegistryOp κ → Option (Registry κ)
  | .call c k => (s.poller.call c k).map fun p => { s with
      poller := p, registered := insert c s.registered }
  | .teardown c => (s.poller.teardown c).map fun p => { s with
      poller := p, registered := s.registered.erase c, removed := insert c s.removed }

/-- How the poller is used. -/
def Usage (s : Registry κ) : RegistryOp κ → Prop
  | .call c k => c ∉ s.removed ∧ (k.apply (s.poller.chan c)).events ≠ 0 ∧
      (c ∉ s.registered → ∀ d ∈ s.registered, (s.poller.chan d).fd ≠ (s.poller.chan c).fd)
  | .teardown c => c ∈ s.registered

instance (s : Registry κ) : (op : RegistryOp κ) → Decidable (s.Usage op)
  | .call _ _ => inferInstanceAs (Decidable (_ ∧ _ ∧ _))
  | .teardown _ => inferInstanceAs (Decidable (_ ∈ _))

/-- The invariant: the index is linked, every entry is live and not empty, and a channel
that has not been used has no index. -/
structure Inv (fd : κ → ℤ) (s : Registry κ) : Prop where
  linked : PollPoller.Linked s.poller s.registered
  live : ∀ c ∈ s.registered, s.poller.Live c
  nonempty : ∀ c ∈ s.registered, (s.poller.chan c).events ≠ 0
  fresh : ∀ c, c ∉ s.registered → c ∉ s.removed → (s.poller.chan c).idxPoll < 0
  fd_eq : ∀ c, (s.poller.chan c).fd = fd c

omit [DecidableEq κ] in
theorem inv_init (fd : κ → ℤ) : Inv fd (init fd) where
  linked := PollPoller.linked_init fd
  live := by simp [init]
  nonempty := by simp [init]
  fresh := fun _ _ _ => show (-1 : ℤ) < 0 by decide
  fd_eq := fun _ => rfl

variable {fd : κ → ℤ} {s : Registry κ} {c : κ}

/-- An interest change that keeps to the usage rules succeeds and keeps the invariant. -/
theorem inv_call (h : Inv fd s) {k : InterestCall} (hu : Usage s (.call c k)) :
    ∃ t, step s (.call c k) = some t ∧ Inv fd t := by
  obtain ⟨hrem, hne, hdist⟩ := hu
  obtain ⟨q, hq, hcall⟩ : ∃ q, s.poller.call c k = some q ∧
      PollPoller.Called s.poller q s.registered c k := by
    by_cases hc : c ∈ s.registered
    · exact PollPoller.called_registered h.linked hc k
    · exact PollPoller.called_fresh h.linked hc (h.fresh c hc hrem) (hdist hc) k
  refine ⟨_, by rw [step, hq, Option.map_some], hcall.linked, ?_, ?_, ?_, ?_⟩
  · intro d hd pfd hpfd
    rw [hcall.fd]
    by_cases hdc : d = c
    · subst hdc
      by_cases hreg : d ∈ s.registered
      · obtain ⟨old, hold, hfd⟩ := hcall.entry_registered hreg pfd hpfd
        rw [if_neg hne] at hfd
        rw [hfd]
        exact h.live d hreg old hold
      · exact hcall.entry_fresh hreg pfd hpfd
    · have hreg := (Finset.mem_insert.mp hd).resolve_left hdc
      rw [hcall.entry_other d hreg hdc] at hpfd
      exact h.live d hreg pfd hpfd
  · intro d hd
    by_cases hdc : d = c
    · subst hdc
      rw [hcall.events_self]
      exact hne
    · rw [hcall.chan_other d hdc]
      exact h.nonempty d ((Finset.mem_insert.mp hd).resolve_left hdc)
  · intro d hd hdrem
    obtain ⟨hdc, hdreg⟩ := not_or.mp (fun hor => hd (Finset.mem_insert.mpr hor))
    rw [hcall.chan_other d hdc]
    exact h.fresh d hdreg hdrem
  · intro d
    rw [hcall.fd]
    exact h.fd_eq d

/-- A teardown of a registered channel succeeds and keeps the invariant. -/
theorem inv_teardown (h : Inv fd s) (hc : c ∈ s.registered) :
    ∃ t, step s (.teardown c) = some t ∧ Inv fd t := by
  obtain ⟨q, hq, hcall⟩ := PollPoller.called_registered h.linked hc .disableEvents
  have hreg : insert c s.registered = s.registered := Finset.insert_eq_self.mpr hc
  have hlinked : PollPoller.Linked q s.registered := hreg ▸ hcall.linked
  have hev : (q.chan c).events = 0 := hcall.events_self
  -- `disableEvents()` marks the entry of `c`, as `removeChannel` asserts
  have hmark : ∀ pfd, q.entryOf c = some pfd → pfd.fd = -1 := by
    intro pfd hpfd
    obtain ⟨old, -, hfd⟩ := hcall.entry_registered hc pfd hpfd
    rw [hfd]
    exact if_pos rfl
  have hlive : ∀ e ∈ s.registered, e ≠ c → q.Live e := by
    intro e he hec pfd hpfd
    rw [hcall.entry_other e he hec] at hpfd
    rw [hcall.fd]
    exact h.live e he pfd hpfd
  obtain ⟨d, hd, hlast, hremove⟩ :=
    PollPoller.remove_of_live hlinked hc hev hmark hlive
  have hteardown : s.poller.teardown c =
      some (q.removed c d (q.chan c).idxPoll.toNat) := by
    rw [PollPoller.teardown, hq, Option.bind_some, hremove]
  refine ⟨_, by rw [step, hteardown, Option.map_some],
    PollPoller.linked_removed hlinked hc hd hlast, ?_, ?_, ?_, ?_⟩
  · intro e he pfd hpfd
    obtain ⟨hec, he⟩ := Finset.mem_erase.mp he
    rw [PollPoller.entryOf_removed hlinked hc hd hlast he hec] at hpfd
    rw [PollPoller.removed_fd]
    exact hlive e he hec pfd hpfd
  · intro e he
    obtain ⟨hec, he⟩ := Finset.mem_erase.mp he
    rw [PollPoller.removed_events, hcall.chan_other e hec]
    exact h.nonempty e he
  · intro e he herem
    obtain ⟨hec, herem⟩ := not_or.mp (fun hor => herem (Finset.mem_insert.mpr hor))
    have hereg : e ∉ s.registered := fun hin => he (Finset.mem_erase.mpr ⟨hec, hin⟩)
    have hed : e ≠ d := fun hed => hereg (hed ▸ hd)
    rw [PollPoller.removed_chan_other _ _ _ hed, hcall.chan_other e hec]
    exact h.fresh e hereg herem
  · intro e
    rw [PollPoller.removed_fd, hcall.fd]
    exact h.fd_eq e

theorem inv_step (h : Inv fd s) (op : RegistryOp κ) (hu : Usage s op) :
    ∃ t, step s op = some t ∧ Inv fd t := by
  cases op with
  | call c k => exact inv_call h hu
  | teardown c => exact inv_teardown h hu

/-! ## Dispatch -/

/-- The position of a channel in `pollFds_`. -/
def position (s : Registry κ) (c : κ) : ℕ := (s.poller.chan c).idxPoll.toNat

/-- The number of entries with events in an answer of `::poll`. -/
def ready (s : Registry κ) (answer : ℕ → BitVec 16) : ℤ :=
  ((s.poller.answered answer).countP fun pfd => pfd.revents ≠ 0 : ℕ)

omit [DecidableEq κ] in
theorem getElem?_answered (p : PollPoller κ) (answer : ℕ → BitVec 16) (i : ℕ) :
    (p.answered answer)[i]? =
      (p.pollFds[i]?).map fun pfd => { pfd with revents := answer i } := by
  rw [PollPoller.answered, List.getElem?_mapIdx]

omit [DecidableEq κ] in
/-- The entries of an answer, with the channels they belong to. -/
theorem mem_answered_iff (h : Inv fd s) (answer : ℕ → BitVec 16) (c : κ) :
    (∃ pfd ∈ s.poller.answered answer, s.poller.channels pfd.fd = some c ∧
      pfd.revents = answer (s.position c)) ↔ c ∈ s.registered := by
  constructor
  · rintro ⟨pfd, -, hc, -⟩
    exact ((h.linked.channels_iff _ c).mp hc).1
  · intro hc
    obtain ⟨pfd, hpfd⟩ := h.linked.exists_entry hc
    refine ⟨{ pfd with revents := answer (s.position c) }, ?_, ?_, rfl⟩
    · apply List.mem_of_getElem? (i := s.position c)
      rw [getElem?_answered]
      exact congrArg (Option.map _) hpfd
    · show s.poller.channels pfd.fd = some c
      rw [h.live c hc pfd hpfd]
      exact h.linked.channels_fd hc

omit [DecidableEq κ] in
/-- What the entry behind a channel says in an answer. -/
theorem revents_of_mem (h : Inv fd s) (answer : ℕ → BitVec 16) {pfd : PollFd}
    (hmem : pfd ∈ s.poller.answered answer) :
    ∃ c ∈ s.registered, s.poller.channels pfd.fd = some c ∧
      (s.poller.chan c).fd = pfd.fd ∧ pfd.revents = answer (s.position c) := by
  obtain ⟨i, hi⟩ := List.getElem?_of_mem hmem
  rw [getElem?_answered, Option.map_eq_some_iff] at hi
  obtain ⟨old, hold, rfl⟩ := hi
  obtain ⟨c, hc, hci, hent⟩ := h.linked.exists_owner_of_getElem? hold
  have hpos : s.position c = i := by rw [position, hci, Int.toNat_natCast]
  have hfd : old.fd = (s.poller.chan c).fd := h.live c hc old hent
  refine ⟨c, hc, ?_, hfd.symm, by rw [hpos]⟩
  show s.poller.channels old.fd = some c
  rw [hfd]
  exact h.linked.channels_fd hc

omit [DecidableEq κ] in
/-- No descriptor stands in two entries. -/
theorem nodup_fds (h : Inv fd s) (answer : ℕ → BitVec 16) :
    ((s.poller.answered answer).map PollFd.fd).Nodup := by
  have hmap : (s.poller.answered answer).map PollFd.fd = s.poller.pollFds.map PollFd.fd := by
    apply List.ext_getElem?
    intro i
    simp only [List.getElem?_map, getElem?_answered, Option.map_map]
    rfl
  rw [hmap, List.nodup_iff_injective_getElem]
  rintro ⟨i, hi⟩ ⟨j, hj⟩ hij
  simp only [List.length_map] at hi hj
  simp only [List.getElem_map] at hij
  obtain ⟨c, hc, hci, hcent⟩ :=
    h.linked.exists_owner_of_getElem? (List.getElem?_eq_getElem hi)
  obtain ⟨d, hd, hdj, hdent⟩ :=
    h.linked.exists_owner_of_getElem? (List.getElem?_eq_getElem hj)
  have hcfd : (s.poller.pollFds[i]).fd = (s.poller.chan c).fd := h.live c hc _ hcent
  have hdfd : (s.poller.pollFds[j]).fd = (s.poller.chan d).fd := h.live d hd _ hdent
  -- two entries with one descriptor have one owner, and it has one index
  have hcd : c = d := h.linked.fd_inj hc hd (by rw [← hcfd, ← hdfd, hij])
  subst hcd
  have : (i : ℤ) = j := by rw [← hci, ← hdj]
  exact Fin.ext (by exact_mod_cast this)

omit [DecidableEq κ] in
/-- The channels behind the entries with events of an answer. -/
theorem mem_reported_iff (h : Inv fd s) (answer : ℕ → BitVec 16) (c : κ) :
    c ∈ PollPoller.reported s.poller.channels (s.poller.answered answer) ↔
      c ∈ s.registered ∧ answer (s.position c) ≠ 0 := by
  rw [PollPoller.reported, List.mem_filterMap]
  constructor
  · rintro ⟨pfd, hpfd, hc⟩
    obtain ⟨d, hd, hdch, -, hrev⟩ := revents_of_mem h answer hpfd
    split at hc
    · rename_i hne
      rw [hdch, Option.some.injEq] at hc
      subst hc
      exact ⟨hd, hrev ▸ hne⟩
    · cases hc
  · rintro ⟨hc, hne⟩
    obtain ⟨pfd, hpfd, hch, hrev⟩ := (mem_answered_iff h answer c).mpr hc
    exact ⟨pfd, hpfd, by rw [if_pos (hrev ▸ hne), hch]⟩

omit [DecidableEq κ] in
theorem nodup_reported (h : Inv fd s) (answer : ℕ → BitVec 16) :
    (PollPoller.reported s.poller.channels (s.poller.answered answer)).Nodup := by
  have hchannel : ∀ (pfd : PollFd) (c : κ),
      (if pfd.revents ≠ 0 then s.poller.channels pfd.fd else none) = some c →
        (s.poller.chan c).fd = pfd.fd := by
    intro pfd c hc
    split at hc
    · exact ((h.linked.channels_iff _ c).mp hc).2
    · cases hc
  rw [PollPoller.reported, List.Nodup, List.pairwise_filterMap]
  refine (List.pairwise_map.mp (nodup_fds h answer)).imp fun {a b} hab c hc d hd hcd => ?_
  subst hcd
  exact hab ((hchannel a c hc).symm.trans (hchannel b c hd))

/-- `poll` reports each registered channel with events once, with its own events, and
no other channel. -/
theorem poll_dispatch (h : Inv fd s) (answer : ℕ → BitVec 16) :
    ∃ q active, s.poller.poll (s.ready answer) answer = some (q, active) ∧ active.Nodup ∧
      (∀ c, c ∈ active ↔ c ∈ s.registered ∧ answer (s.position c) ≠ 0) ∧
      ∀ c ∈ active, (q.chan c).revents = (answer (s.position c)).signExtend 32 := by
  have hready : ¬ s.ready answer < 0 := not_lt.mpr (Int.natCast_nonneg _)
  rw [PollPoller.poll, if_neg hready]
  by_cases hzero : s.ready answer = 0
  · -- nothing is ready: no registered channel has events
    have hall : ∀ pfd ∈ s.poller.answered answer, pfd.revents = 0 := by
      intro pfd hpfd
      simpa using List.countP_eq_zero.mp (Int.natCast_eq_zero.mp hzero) pfd hpfd
    rw [if_pos hzero]
    refine ⟨_, [], rfl, List.nodup_nil, fun c => ?_, by simp⟩
    rw [← mem_reported_iff h answer c, PollPoller.reported,
      List.filterMap_eq_nil_iff.mpr fun pfd hpfd => by rw [if_neg (not_not.mpr (hall pfd hpfd))]]
  · rw [if_neg hzero]
    obtain ⟨chan', hrep, hmarked⟩ := PollPoller.report_spec s.poller.channels
      (s.poller.answered answer) (s.ready answer) s.poller.chan [] (nodup_fds h answer) rfl
      fun pfd hpfd => by
        obtain ⟨c, -, hc, hcfd, -⟩ := revents_of_mem h answer hpfd
        exact ⟨c, hc, hcfd⟩
    rw [List.nil_append] at hrep
    refine ⟨_, _, by rw [hrep, Option.map_some], nodup_reported h answer,
      mem_reported_iff h answer, fun c hc => ?_⟩
    obtain ⟨hreg, hne⟩ := (mem_reported_iff h answer c).mp hc
    obtain ⟨pfd, hpfd, hch, hrev⟩ := (mem_answered_iff h answer c).mpr hreg
    rw [hmarked.revents pfd hpfd (hrev ▸ hne) c hch, hrev]

/-! ## Runs -/

/-- What holds in every state of a run: the index is a bijection, every entry carries
its channel's descriptor and interest set, and `channels_` maps the registered
descriptors. -/
structure Exact (fd : κ → ℤ) (s : Registry κ) : Prop where
  bijOn : Set.BijOn (fun c => (s.poller.chan c).idxPoll) (s.registered : Set κ)
    s.poller.positions
  entry : ∀ c ∈ s.registered, ∃ pfd, s.poller.entryOf c = some pfd ∧ pfd.fd = fd c ∧
    pfd.events.signExtend 32 = (s.poller.chan c).events
  channels_iff : ∀ n c, s.poller.channels n = some c ↔ c ∈ s.registered ∧ fd c = n

omit [DecidableEq κ] in
theorem Inv.exact (h : Inv fd s) : Exact fd s where
  bijOn := h.linked.bij
  entry := fun c hc => by
    obtain ⟨pfd, hpfd⟩ := h.linked.exists_entry hc
    refine ⟨pfd, hpfd, (h.live c hc pfd hpfd).trans (h.fd_eq c), ?_⟩
    rw [(h.linked.entry c hc pfd hpfd).2]
    exact signExtend_setWidth (h.linked.interest c)
  channels_iff := fun n c => by rw [h.linked.channels_iff, h.fd_eq]

/-- Every run that keeps to the usage rules passes all assertions of the poller and ends
with an exact index, on which `poll` dispatches to exactly the channels with events. -/
theorem run_exact (fd : κ → ℤ) (ops : List (RegistryOp κ))
    (h : Runs.Admissible step Usage (init fd) ops) :
    ∃ s, Runs.run step (init fd) ops = some s ∧ Exact fd s ∧ ∀ answer : ℕ → BitVec 16,
      ∃ q active, s.poller.poll (s.ready answer) answer = some (q, active) ∧ active.Nodup ∧
        (∀ c, c ∈ active ↔ c ∈ s.registered ∧ answer (s.position c) ≠ 0) ∧
        ∀ c ∈ active, (q.chan c).revents = (answer (s.position c)).signExtend 32 := by
  obtain ⟨s, hrun, hs⟩ := Runs.run_of_admissible (P := Inv fd)
    (fun s op hs hu => inv_step hs op hu) (inv_init fd) h
  exact ⟨s, hrun, hs.exact, poll_dispatch hs⟩

/-- Three channels, of which the first is removed while the others are registered. -/
theorem run_exact_three : ∃ s, Runs.run step (init fun n : ℕ => (n : ℤ) + 4)
    [.call 0 .enableReading, .call 1 .enableWriting, .call 2 .enableReading,
      .call 1 .enableReading, .teardown 0] = some s ∧ s.registered = {1, 2} := by
  obtain ⟨s, hrun, -⟩ := run_exact (fun n : ℕ => (n : ℤ) + 4)
    [.call 0 .enableReading, .call 1 .enableWriting, .call 2 .enableReading,
      .call 1 .enableReading, .teardown 0] (by decide)
  refine ⟨s, hrun, ?_⟩
  have hreg := congrArg (Option.map Registry.registered) hrun
  exact (Option.some.inj (hreg.symm.trans (by decide)))

end Registry

end Lotta
