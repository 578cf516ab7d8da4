/-
# PollPoller: the registered channels and the array handed to `poll(2)`

`PollPoller` keeps three structures in step: `channels_` maps a descriptor to its
channel, `pollFds_` is the array for the kernel, and every channel knows its position
in that array (`idxPoll_`).  Channels are named by a type `κ`; `chan` holds the channel
objects behind the pointers.  A failed `assert` and a dereferenced null pointer are
`none`.

`Linked` says that the three structures are mutually inverse.  In it an entry may have
the descriptor `-1`, which is how `updateChannel` marks a channel whose interest set has
become empty; `Live` is the part of a state in which no entry is marked.
-/
import Lotta.Channel
import Lotta.Lib.SwapRemove
import Mathlib.Data.Finset.Insert
import Mathlib.Data.Set.Function
import Mathlib.Logic.Function.Basic
import Mathlib.Tactic.Linarith

namespace Lotta

/-- `pollfd`. -/
structure PollFd where
  fd : ℤ
  events : BitVec 16
  revents : BitVec 16
  deriving DecidableEq, Repr

/-- The poller and the channel objects it points to. -/
structure PollPoller (κ : Type*) where
  channels : ℤ → Option κ
  pollFds : List PollFd
  chan : κ → Channel

namespace PollPoller

variable {κ : Type*}

/-- A new poller; every channel is as its constructor leaves it. -/
def init (fd : κ → ℤ) : PollPoller κ := ⟨fun _ => none, [], fun c => Channel.init (fd c)⟩

/-- What the kernel leaves in `pollFds_`: `answer` is the result for each position. -/
def answered (p : PollPoller κ) (answer : ℕ → BitVec 16) : List PollFd :=
  p.pollFds.mapIdx fun i pfd => { pfd with revents := answer i }

section Operations

variable [DecidableEq κ]

/-- Write a channel object. -/
def setChan (p : PollPoller κ) (c : κ) (ch : Channel) : PollPoller κ :=
  { p with chan := Function.update p.chan c ch }

/-! ## `updateChannel` -/

/-- The first update of a channel: a new entry at the end. -/
def register (p : PollPoller κ) (c : κ) : PollPoller κ where
  channels := Function.update p.channels (p.chan c).fd (some c)
  pollFds := p.pollFds ++ [⟨(p.chan c).fd, (p.chan c).events.setWidth 16, 0⟩]
  chan := Function.update p.chan c { p.chan c with idxPoll := p.pollFds.length }

/-- A later update: the entry `pfd` of the channel takes over the interest set, and its
descriptor becomes `-1` when that is empty. -/
def refresh (p : PollPoller κ) (c : κ) (pfd : PollFd) : PollPoller κ :=
  { p with
    pollFds := p.pollFds.set (p.chan c).idxPoll.toNat
      ⟨if (p.chan c).isEmptyEvent then -1 else pfd.fd, (p.chan c).events.setWidth 16, 0⟩ }

/-- `updateChannel`. -/
def updateChannel (p : PollPoller κ) (c : κ) : Option (PollPoller κ) :=
  if (p.chan c).idxPoll < 0 then
    if p.channels (p.chan c).fd = none then some (p.register c) else none
  else if p.channels (p.chan c).fd = some c then
    match p.pollFds[(p.chan c).idxPoll.toNat]? with
    | some pfd =>
        if pfd.fd = (p.chan c).fd ∨ pfd.fd = -1 then some (p.refresh c pfd) else none
    | none => none
  else none

/-- `enableReading()` and its siblings: change the interest set, then `update()`. -/
def call (p : PollPoller κ) (c : κ) (k : InterestCall) : Option (PollPoller κ) :=
  (p.setChan c (k.apply (p.chan c))).updateChannel c

/-! ## `removeChannel` -/

/-- Erase a descriptor from `channels_`. -/
def eraseFd (p : PollPoller κ) (fd : ℤ) : PollPoller κ :=
  { p with channels := Function.update p.channels fd none }

/-- Remove the entry at `idx`: unless it is the last, the last entry is exchanged with
it, and the channel that `channels_` holds for the moved descriptor gets its index. -/
def dropEntry (p : PollPoller κ) (idx : ℕ) : Option (PollPoller κ) :=
  if idx = p.pollFds.length - 1 then some { p with pollFds := p.pollFds.dropLast }
  else
    match (SwapRemove.swapLast p.pollFds idx)[idx]? with
    | none => none
    | some pfd =>
        match p.channels pfd.fd with
        -- `channels_[fd]` is a null pointer
        | none => none
        | some d => some
            { p with
              pollFds := SwapRemove.swapRemove p.pollFds idx
              chan := Function.update p.chan d { p.chan d with idxPoll := idx } }

/-- The index that the channel behind the entry at position `i` has, if there is one. -/
def indexBehind (p : PollPoller κ) (i : ℕ) : Option ℤ :=
  (p.pollFds[i]?).bind fun pfd => (p.channels pfd.fd).map fun d => (p.chan d).idxPoll

/-- The assertion loop at the end of `removeChannel`. -/
def checkIndices (p : PollPoller κ) : Option (PollPoller κ) :=
  if ∀ i < p.pollFds.length, p.indexBehind i = some (i : ℤ) then some p else none

/-- `removeChannel`. -/
def removeChannel (p : PollPoller κ) (c : κ) : Option (PollPoller κ) :=
  if p.channels (p.chan c).fd = some c ∧ (p.chan c).isEmptyEvent ∧ 0 ≤ (p.chan c).idxPoll then
    match p.pollFds[(p.chan c).idxPoll.toNat]? with
    | none => none
    | some pfd =>
        if pfd.fd = -1 ∧ pfd.events.signExtend 32 = (p.chan c).events then
          ((p.eraseFd (p.chan c).fd).dropEntry (p.chan c).idxPoll.toNat).bind checkIndices
        else none
  else none

/-- `Channel::remove()`. -/
def remove (p : PollPoller κ) (c : κ) : Option (PollPoller κ) :=
  if (p.chan c).isEmptyEvent then p.removeChannel c else none

/-- `disableEvents()` immediately followed by `remove()`. -/
def teardown (p : PollPoller κ) (c : κ) : Option (PollPoller κ) :=
  (p.call c .disableEvents).bind fun q => q.remove c

/-! ## `poll` -/

/-- The loop over `pollFds_` after `::poll` has answered: every entry with events is
looked up and its channel reported, until `num` channels have been. -/
def report (channels : ℤ → Option κ) :
    List PollFd → ℤ → (κ → Channel) → List κ → Option ((κ → Channel) × List κ)
  | [], _, chan, active => some (chan, active)
  | pfd :: rest, num, chan, active =>
      if pfd.revents ≠ 0 then
        match channels pfd.fd with
        | none => none
        | some c =>
            if pfd.fd = (chan c).fd then
              let chan := Function.update chan c
                { chan c with revents := pfd.revents.signExtend 32 }
              if num - 1 ≤ 0 then some (chan, active ++ [c])
              else report channels rest (num - 1) chan (active ++ [c])
            else none
      else report channels rest num chan active

/-- `poll`, with what `::poll` returns and writes; the active channels are cleared by
the caller. -/
def poll (p : PollPoller κ) (num : ℤ) (answer : ℕ → BitVec 16) :
    Option (PollPoller κ × List κ) :=
  if num < 0 then some ({ p with pollFds := p.answered answer }, [])
  else if num = 0 then some ({ p with pollFds := p.answered answer }, [])
  else
    (report p.channels (p.answered answer) num p.chan []).map fun r =>
      ({ p with pollFds := p.answered answer, chan := r.1 }, r.2)

end Operations

/-! ## The index invariant -/

/-- The entry at a channel's position. -/
def entryOf (p : PollPoller κ) (c : κ) : Option PollFd := p.pollFds[(p.chan c).idxPoll.toNat]?

/-- The positions of `pollFds_`. -/
def positions (p : PollPoller κ) : Set ℤ := {i | 0 ≤ i ∧ i < p.pollFds.length}

/-- `channels_`, `pollFds_` and the channels' indices agree on the registered channels.
An entry carries its channel's interest set and either its descriptor or `-1`. -/
structure Linked (p : PollPoller κ) (reg : Finset κ) : Prop where
  channels_iff : ∀ fd c, p.channels fd = some c ↔ c ∈ reg ∧ (p.chan c).fd = fd
  bij : Set.BijOn (fun c => (p.chan c).idxPoll) (reg : Set κ) p.positions
  entry : ∀ c ∈ reg, ∀ pfd, p.entryOf c = some pfd →
    (pfd.fd = (p.chan c).fd ∨ pfd.fd = -1) ∧ pfd.events = (p.chan c).events.setWidth 16
  interest : ∀ c, IsInterest (p.chan c).events

/-- The channel is watched under its own descriptor. -/
def Live (p : PollPoller κ) (c : κ) : Prop :=
  ∀ pfd, p.entryOf c = some pfd → pfd.fd = (p.chan c).fd

namespace Linked

variable {p : PollPoller κ} {reg : Finset κ}

theorem idxPoll_nonneg (h : Linked p reg) {c : κ} (hc : c ∈ reg) : 0 ≤ (p.chan c).idxPoll :=
  (h.bij.mapsTo hc).1

theorem toNat_lt (h : Linked p reg) {c : κ} (hc : c ∈ reg) :
    (p.chan c).idxPoll.toNat < p.pollFds.length := by
  obtain ⟨h0, hlt⟩ := h.bij.mapsTo hc
  simp only at h0 hlt
  omega

theorem idxPoll_inj (h : Linked p reg) {c d : κ} (hc : c ∈ reg) (hd : d ∈ reg)
    (hcd : (p.chan c).idxPoll.toNat = (p.chan d).idxPoll.toNat) : c = d := by
  apply h.bij.injOn hc hd
  have h1 := h.idxPoll_nonneg hc
  have h2 := h.idxPoll_nonneg hd
  simp only
  omega

/-- Every position has an owner. -/
theorem exists_owner (h : Linked p reg) {i : ℕ} (hi : i < p.pollFds.length) :
    ∃ c ∈ reg, (p.chan c).idxPoll = i := by
  obtain ⟨c, hc, hci⟩ := h.bij.surjOn (a := (i : ℤ)) ⟨by omega, by exact_mod_cast hi⟩
  exact ⟨c, hc, hci⟩

/-- Every entry has an owner. -/
theorem exists_owner_of_getElem? (h : Linked p reg) {i : ℕ} {pfd : PollFd}
    (hi : p.pollFds[i]? = some pfd) :
    ∃ c ∈ reg, (p.chan c).idxPoll = i ∧ p.entryOf c = some pfd := by
  obtain ⟨hlt, -⟩ := List.getElem?_eq_some_iff.mp hi
  obtain ⟨c, hc, hci⟩ := h.exists_owner hlt
  exact ⟨c, hc, hci, by rw [entryOf, hci, Int.toNat_natCast, hi]⟩

/-- Every registered channel has an entry. -/
theorem exists_entry (h : Linked p reg) {c : κ} (hc : c ∈ reg) : ∃ pfd, p.entryOf c = some pfd :=
  ⟨_, List.getElem?_eq_getElem (h.toNat_lt hc)⟩

theorem channels_fd (h : Linked p reg) {c : κ} (hc : c ∈ reg) :
    p.channels (p.chan c).fd = some c :=
  (h.channels_iff _ c).mpr ⟨hc, rfl⟩

/-- Registered channels have distinct descriptors. -/
theorem fd_inj (h : Linked p reg) {c d : κ} (hc : c ∈ reg) (hd : d ∈ reg)
    (hcd : (p.chan c).fd = (p.chan d).fd) : c = d := by
  have h1 := h.channels_fd hc
  rw [hcd, h.channels_fd hd] at h1
  exact (Option.some.inj h1).symm

end Linked

theorem linked_init (fd : κ → ℤ) : Linked (init fd) ∅ where
  channels_iff := by simp [init]
  bij := by
    have hnone : (init fd).positions = ∅ := by
      refine Set.eq_empty_of_forall_notMem fun i hi => ?_
      obtain ⟨h0, hlt⟩ : 0 ≤ i ∧ i < ((0 : ℕ) : ℤ) := hi
      omega
    rw [hnone, Finset.coe_empty, Set.bijOn_empty_iff_left]
  entry := by simp
  interest := fun _ => Or.inl rfl

end PollPoller

end Lotta
