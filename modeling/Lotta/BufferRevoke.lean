/-
# Giving bytes back

`revoke(n)` is to undo a consumption of `n` bytes: it moves the read index back by `n`.  Its
assertion should be that the index is at least `n`, and it is the other way round.  So it
passes when all that was consumed since the index was 0 is given back at once, and for larger
amounts, for which the subtraction of the two unsigned numbers wraps.

A run is driven by all the operations of a buffer.  A buffer whose index has wrapped fails the
assertion of `readable()` in all of them but `revoke` and `swap`.
-/
import Lotta.ReadFailure

namespace Lotta

namespace Buffer

/-! ## The operations -/

/-- `a - b` of two numbers of the type `size_t`. -/
def subSize (a b : ℕ) : ℕ := (a + (2 ^ 64 - b)) % 2 ^ 64

/-- `revoke(n)`, guarded by `assert(n >= idx_)`. -/
def revoke (b : Buffer) (n : ℕ) : Option Buffer :=
  if n ≥ b.idx then some { b with idx := subSize b.idx n } else none

/-- `discard(n)`, guarded by `assert(n <= readable())`. -/
def discard (b : Buffer) (n : ℕ) : Option Buffer :=
  if n ≤ b.readable then some { b with data := b.data.shrink (b.data.size - n) } else none

/-- `swap`. -/
def swap (a b : Buffer) : Buffer × Buffer := (b, a)

/-- The operations that consume bytes. -/
inductive Consume where
  | retrieve (n : ℕ)
  | retrieveUntil (delim : List UInt8)

/-- The other operations; the numbers are of the type `size_t`. -/
inductive AnyOp where
  | consume (op : Consume)
  | append (xs : List UInt8) (slack : ℕ)
  | readFrom (n : ℕ) (r : ReadAnswer n) (slack : ℕ)
  | discard (n : ℕ)
  | revoke (n : ℕ)
  | swap

/-- Consume bytes; `readable()` asserts that the index is inside the storage. -/
def consumeStep (b : Buffer) : Consume → Option Buffer
  | .retrieve n => if b.Wf then (b.retrieve n).map Prod.snd else none
  | .retrieveUntil delim => if b.Wf then (b.retrieveUntil delim).map Prod.snd else none

/-- The storage is not larger than a `std::vector<char>` can be; an insertion throws. -/
def fitting (b : Buffer) : Option Buffer := if b.data.size < 2 ^ 63 then some b else none

/-- One operation on the first of two buffers. -/
def anyStep (s : Buffer × Buffer) : AnyOp → Option (Buffer × Buffer)
  | .consume op => (s.1.consumeStep op).map fun b => (b, s.2)
  | .append xs slack =>
      if s.1.Wf then (s.1.append xs slack).fitting.map fun b => (b, s.2) else none
  | .readFrom n r slack =>
      if s.1.Wf then
        ((s.1.readFromFd true n r slack).bind fun p => p.2.fitting).map fun b => (b, s.2)
      else none
  | .discard n => if s.1.Wf then (s.1.discard n).map fun b => (b, s.2) else none
  | .revoke n => if n < 2 ^ 64 then (s.1.revoke n).map fun b => (b, s.2) else none
  | .swap => some (s.1.swap s.2)

/-! ## What they keep -/

/-- The index is a `size_t`, and the storage is not too large. -/
structure Sized (b : Buffer) : Prop where
  idx_lt : b.idx < 2 ^ 64
  size_lt : b.data.size < 2 ^ 63

theorem sized_of_fitting {b c : Buffer} (hwf : b.Wf) (h : b.fitting = some c) : c.Sized := by
  rw [fitting, Option.ite_none_right_eq_some, Option.some.injEq] at h
  obtain ⟨hsize, rfl⟩ := h
  refine ⟨?_, hsize⟩
  unfold Wf at hwf
  omega

/-- Consuming moves the index on, inside the storage. -/
theorem consumed {b c : Buffer} {op : Consume} (h : b.consumeStep op = some c) :
    b.Wf ∧ c.data = b.data ∧ b.idx ≤ c.idx ∧ c.Wf := by
  cases op with
  | retrieve n =>
      rw [consumeStep, Option.ite_none_right_eq_some, Option.map_eq_some_iff] at h
      obtain ⟨hwf, ⟨s, c'⟩, hr, rfl⟩ := h
      have hwf' := wf_retrieve hwf hr
      obtain ⟨-, -, rfl⟩ := retrieve_eq_some_iff.mp hr
      exact ⟨hwf, rfl, Nat.le_add_right _ _, hwf'⟩
  | retrieveUntil delim =>
      rw [consumeStep, Option.ite_none_right_eq_some] at h
      obtain ⟨hwf, h⟩ := h
      rcases retrieveUntil_cases b delim with ⟨-, hr⟩ | ⟨-, hle, hr⟩
      · rw [hr] at h
        obtain rfl := Option.some.inj h
        exact ⟨hwf, rfl, Nat.le_refl _, hwf⟩
      · rw [hr] at h
        obtain rfl := Option.some.inj h
        refine ⟨hwf, rfl, Nat.le_add_right _ _, ?_⟩
        simp only [Wf, readable] at hwf hle ⊢
        omega

theorem sized_consume {b c : Buffer} {op : Consume} (hb : b.Sized)
    (h : b.consumeStep op = some c) : c.Sized := by
  obtain ⟨-, hdata, -, hwf⟩ := consumed h
  have hsize := hb.size_lt
  rw [Wf, hdata] at hwf
  refine ⟨by omega, ?_⟩
  rw [hdata]
  exact hsize

theorem sized_step {s t : Buffer × Buffer} {op : AnyOp} (hs : s.1.Sized ∧ s.2.Sized)
    (h : anyStep s op = some t) : t.1.Sized ∧ t.2.Sized := by
  obtain ⟨h1, h2⟩ := hs
  cases op with
  | consume op =>
      rw [anyStep, Option.map_eq_some_iff] at h
      obtain ⟨c, hc, rfl⟩ := h
      exact ⟨sized_consume h1 hc, h2⟩
  | append xs slack =>
      rw [anyStep, Option.ite_none_right_eq_some, Option.map_eq_some_iff] at h
      obtain ⟨hwf, c, hc, rfl⟩ := h
      exact ⟨sized_of_fitting (wf_append hwf xs slack) hc, h2⟩
  | readFrom n r slack =>
      rw [anyStep, Option.ite_none_right_eq_some, Option.map_eq_some_iff] at h
      obtain ⟨hwf, c, hc, rfl⟩ := h
      rw [Option.bind_eq_some_iff] at hc
      obtain ⟨⟨ret, b⟩, hread, hfit⟩ := hc
      have hret : r.returned = n := by
        by_contra hne
        rw [readFromFd, if_pos (by simpa using hne)] at hread
        cases hread
      rw [readFromFd_eq_append s.1 (fun _ => hret) slack, Option.some.injEq, Prod.mk.injEq] at hread
      exact ⟨sized_of_fitting (by rw [← hread.2]; exact wf_append hwf _ slack) hfit, h2⟩
  | discard n =>
      rw [anyStep, Option.ite_none_right_eq_some, Option.map_eq_some_iff] at h
      obtain ⟨hwf, c, hc, rfl⟩ := h
      rw [discard, Option.ite_none_right_eq_some, Option.some.injEq] at hc
      obtain ⟨-, rfl⟩ := hc
      refine ⟨⟨h1.idx_lt, ?_⟩, h2⟩
      have hsize := h1.size_lt
      simp only [Vec.size, Vec.shrink, List.length_take] at hsize ⊢
      omega
  | revoke n =>
      rw [anyStep, Option.ite_none_right_eq_some, Option.map_eq_some_iff] at h
      obtain ⟨-, c, hc, rfl⟩ := h
      rw [revoke, Option.ite_none_right_eq_some, Option.some.injEq] at hc
      obtain ⟨-, rfl⟩ := hc
      exact ⟨⟨Nat.mod_lt _ (by decide), h1.size_lt⟩, h2⟩
  | swap =>
      obtain rfl := Option.some.inj h
      exact ⟨h2, h1⟩

/-- A series of calls that consume. -/
theorem consumed_run {series : List Consume} {b c : Buffer}
    (h : Runs.run consumeStep b series = some c) :
    c.data = b.data ∧ b.idx ≤ c.idx ∧ b.readable - c.readable = c.idx - b.idx := by
  have hmoved : c.data = b.data ∧ b.idx ≤ c.idx ∧ (c = b ∨ c.Wf) := by
    induction series generalizing b with
    | nil =>
        obtain rfl := Option.some.inj h
        exact ⟨rfl, Nat.le_refl _, Or.inl rfl⟩
    | cons op series ih =>
        rw [Runs.run_cons, Option.bind_eq_some_iff] at h
        obtain ⟨d, hd, hrest⟩ := h
        obtain ⟨-, hdata, hle, hwf⟩ := consumed hd
        obtain ⟨hdata', hle', hend⟩ := ih hrest
        refine ⟨hdata'.trans hdata, hle.trans hle', Or.inr ?_⟩
        exact hend.elim (fun heq => heq ▸ hwf) id
  obtain ⟨hdata, hle, hend⟩ := hmoved
  refine ⟨hdata, hle, ?_⟩
  rcases hend with rfl | hwf
  · omega
  · rw [Wf, hdata] at hwf
    rw [readable, readable, hdata]
    omega

/-! ## What `revoke` does -/

/-- The bytes consumed since `b` are given back, and the content is that of `b` again. -/
def Restored (b c : Buffer) : Prop :=
  ∃ d, c.revoke (b.readable - c.readable) = some d ∧ d.content = b.content

/-- Where `revoke(n)` passes its assertion, the index is inside the storage afterwards. -/
def KeepsIndex (b : Buffer) (n : ℕ) : Prop := ∀ c, b.revoke n = some c → c.Wf

theorem subSize_self {a : ℕ} (h : a < 2 ^ 64) : subSize a a = 0 := by
  rw [subSize, Nat.add_sub_of_le h.le, Nat.mod_self]

/-- What a series has consumed can be given back only when it began at the front. -/
theorem restored_iff {series : List Consume} {b c : Buffer} (hc : c.Sized)
    (h : Runs.run consumeStep b series = some c) : b.Restored c ↔ b.idx = 0 := by
  obtain ⟨hdata, hle, hcount⟩ := consumed_run h
  rw [Restored, hcount]
  constructor
  · rintro ⟨d, hd, -⟩
    rw [revoke, Option.ite_none_right_eq_some] at hd
    omega
  · intro hzero
    rw [hzero, Nat.sub_zero, revoke, if_pos (Nat.le_refl _), subSize_self hc.idx_lt]
    exact ⟨_, rfl, by rw [content, content, hdata, hzero]⟩

/-- A revocation that passes keeps the index in range when it goes back to 0, and when the
subtraction wraps far enough. -/
theorem keepsIndex_iff {b : Buffer} (h : b.Sized) {n : ℕ} (hn : n < 2 ^ 64) :
    b.KeepsIndex n ↔ n ≤ b.idx ∨ b.idx + 2 ^ 64 ≤ b.data.size + n := by
  have hidx := h.idx_lt
  unfold KeepsIndex revoke
  by_cases hpass : n ≥ b.idx
  · rw [if_pos hpass]
    simp only [Option.some.injEq, forall_eq', Wf]
    rcases Nat.eq_or_lt_of_le hpass with heq | hlt
    · rw [← heq, subSize_self hidx]
      exact iff_of_true (Nat.zero_le _) (Or.inl (Nat.le_refl _))
    · have hwrap : subSize b.idx n = b.idx + (2 ^ 64 - n) := by
        rw [subSize, Nat.mod_eq_of_lt (by omega)]
      rw [hwrap]
      omega
  · rw [if_neg hpass]
    exact iff_of_true (fun c hc => by cases hc) (Or.inl (by omega))

/-! ## Runs -/

/-- In every state of every run, what a series of calls consumes can be given back exactly when
the series begins with the index at 0, and a revocation that passes keeps the index in range
exactly when it goes back to 0 or wraps to a place inside the storage. -/
theorem run_revoke_iff (m n : ℕ) (ops : List AnyOp) :
    Runs.Along anyStep
      (fun s =>
        (∀ series c, Runs.run consumeStep s.1 series = some c →
          (s.1.Restored c ↔ s.1.idx = 0)) ∧
        ∀ k < 2 ^ 64, s.1.KeepsIndex k ↔
          k ≤ s.1.idx ∨ s.1.idx + 2 ^ 64 ≤ s.1.data.size + k)
      (init m, init n) ops := by
  have hinit : ∀ k, (init k).Sized := fun k =>
    ⟨show 0 < 2 ^ 64 by decide, show 0 < 2 ^ 63 by decide⟩
  refine (Runs.Along.of_invariant (P := fun s => s.1.Sized ∧ s.2.Sized)
    (fun _ _ _ hs hstep => sized_step hs hstep) ⟨hinit m, hinit n⟩).mono ?_
  rintro s ⟨hs, -⟩
  refine ⟨fun series c hc => restored_iff ?_ hc, fun k hk => keepsIndex_iff hs hk⟩
  have hseries : Runs.Along consumeStep Sized s.1 series :=
    Runs.Along.of_invariant (fun _ _ _ hb hstep => sized_consume hb hstep) hs
  exact hseries.final hc

/-- One byte has been consumed and stays so; the next is consumed and cannot be given back. -/
theorem not_revocable_second :
    ¬ Runs.Along anyStep
      (fun s => (∀ series c, Runs.run consumeStep s.1 series = some c → s.1.Restored c) ∧
        ∀ k < 2 ^ 64, s.1.KeepsIndex k)
      (init 4, init 4) [.append [1, 2, 3] 1, .consume (.retrieve 1)] := by
  intro h
  have hrun : Runs.run anyStep (init 4, init 4) [.append [1, 2, 3] 1, .consume (.retrieve 1)] =
      some (⟨1, ⟨[1, 2, 3], 4, by decide⟩⟩, init 4) := rfl
  obtain ⟨hrestored, -⟩ := h.final hrun
  obtain ⟨d, hd, -⟩ := hrestored [.retrieve 1] ⟨2, ⟨[1, 2, 3], 4, by decide⟩⟩ rfl
  cases hd

end Buffer

end Lotta
