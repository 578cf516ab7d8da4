/-
# The buffer as a byte queue

A run of a fresh `Buffer` is driven by `append`, `retrieve(n)`, `retrieve()` and
`retrieveUntil`.  Next to the buffer, `Traced` records the bytes appended and the bytes
consumed so far.  The buffer is a byte queue when the consumed bytes followed by the
readable content are the appended bytes: read as a `Fifo`, its history is what went in.

`makeSpace` breaks this in one state only, `DrainedFull`: everything has been consumed
and the vector is full.  There it sets `idx_` back to zero without dropping the
consumed bytes, which become readable again.  `byteQueue_iff` is the sharp statement.
-/
import Lotta.Buffer
import Lotta.Lib.Fifo
import Lotta.Lib.Runs

namespace Lotta

namespace Buffer

/-- The calls of a run.  `slack` is the capacity that the vector has beyond its size
after the insertion. -/
inductive Op where
  | append (xs : List UInt8) (slack : ℕ)
  | retrieve (n : ℕ)
  | retrieveAll
  | retrieveUntil (delim : List UInt8)
  deriving DecidableEq, Repr

/-- A buffer with the bytes appended to it and consumed from it so far. -/
structure Traced where
  buf : Buffer
  appended : List UInt8
  consumed : List UInt8

namespace Traced

/-- A fresh buffer with any initial capacity. -/
def init (capacity : ℕ) : Traced := ⟨Buffer.init capacity, [], []⟩

/-- Continue with the buffer `b`, which has consumed the bytes between the two read
indices. -/
def consume (t : Traced) (b : Buffer) : Traced :=
  { t with buf := b, consumed := t.consumed ++ t.buf.content.take (b.idx - t.buf.idx) }

/-- One call; `none` when the assertion of `retrieve` fails. -/
def step (t : Traced) : Op → Option Traced
  | .append xs slack =>
      some { t with buf := t.buf.append xs slack, appended := t.appended ++ xs }
  | .retrieve n => (t.buf.retrieve n).map fun r => t.consume r.2
  | .retrieveAll => t.buf.retrieveAll.map fun r => t.consume r.2
  | .retrieveUntil delim => (t.buf.retrieveUntil delim).map fun r => t.consume r.2

/-- The queue that the buffer stands for: the consumed bytes have left it, the readable
content is still inside. -/
def fifo (t : Traced) : Fifo UInt8 := ⟨t.consumed, t.buf.content⟩

/-- The readable content is the appended bytes minus the consumed ones. -/
def ByteQueue (t : Traced) : Prop := t.fifo.history = t.appended

instance (t : Traced) : Decidable t.ByteQueue := inferInstanceAs (Decidable (_ = _))

/-- The condition on a step: no append in the drained and full state. -/
def SpaceOk (t : Traced) : Op → Prop
  | .append _ _ => ¬ t.buf.DrainedFull
  | _ => True

/-! ## Steps -/

/-- Consuming moves the front of the content out of the queue. -/
theorem fifo_consume (t : Traced) (n : ℕ) :
    (t.consume { t.buf with idx := t.buf.idx + n }).fifo = t.fifo.pop n := by
  simp [consume, fifo, Fifo.pop, content, List.drop_drop]

/-- What a step that is not an append does: some bytes at the front are popped. -/
theorem consume_cases {t u : Traced} {r : Option (Slice × Buffer)}
    (hr : ∀ s b, r = some (s, b) →
      ∃ n ≤ t.buf.readable, b = { t.buf with idx := t.buf.idx + n })
    (hu : (r.map fun p => t.consume p.2) = some u) :
    ∃ n ≤ t.buf.readable, u = t.consume { t.buf with idx := t.buf.idx + n } := by
  rw [Option.map_eq_some_iff] at hu
  obtain ⟨⟨s, b⟩, hsome, rfl⟩ := hu
  obtain ⟨n, hn, rfl⟩ := hr s b hsome
  exact ⟨n, hn, rfl⟩

/-- What one step can do: append at the back, or consume at the front. -/
theorem step_cases {t u : Traced} {op : Op} (h : t.step op = some u) :
    (∃ xs slack, op = .append xs slack ∧
      u = { t with buf := t.buf.append xs slack, appended := t.appended ++ xs }) ∨
    ((∀ xs slack, op ≠ .append xs slack) ∧ ∃ n ≤ t.buf.readable,
      u = t.consume { t.buf with idx := t.buf.idx + n }) := by
  have hretrieve : ∀ n s b, t.buf.retrieve n = some (s, b) →
      ∃ m ≤ t.buf.readable, b = { t.buf with idx := t.buf.idx + m } := by
    intro n s b hr
    obtain ⟨hn, -, rfl⟩ := retrieve_eq_some_iff.mp hr
    exact ⟨n, hn, rfl⟩
  cases op with
  | append xs slack =>
      simp only [step, Option.some.injEq] at h
      exact Or.inl ⟨xs, slack, rfl, h.symm⟩
  | retrieve n => exact Or.inr ⟨by simp, consume_cases (hretrieve n) h⟩
  | retrieveAll => exact Or.inr ⟨by simp, consume_cases (hretrieve _) h⟩
  | retrieveUntil delim =>
      refine Or.inr ⟨by simp, consume_cases (fun s b hr => ?_) h⟩
      rcases retrieveUntil_cases t.buf delim with ⟨-, hnone⟩ | ⟨-, hle, hfound⟩
      · rw [hnone, Option.some.injEq, Prod.mk.injEq] at hr
        exact ⟨0, Nat.zero_le _, hr.2.symm⟩
      · rw [hfound, Option.some.injEq, Prod.mk.injEq] at hr
        exact ⟨_, hle, hr.2.symm⟩

/-- Every step keeps the read index inside the storage. -/
theorem wf_step {t u : Traced} {op : Op} (hwf : t.buf.Wf) (h : t.step op = some u) :
    u.buf.Wf := by
  rcases step_cases h with ⟨xs, slack, -, rfl⟩ | ⟨-, n, hn, rfl⟩
  · exact wf_append hwf xs slack
  · simp only [Wf, readable, consume] at hwf hn ⊢
    omega

/-- An append keeps the law exactly when the buffer is not drained and full. -/
theorem byteQueue_append_iff {t : Traced} (hwf : t.buf.Wf) (ht : t.ByteQueue)
    (xs : List UInt8) (slack : ℕ) :
    ByteQueue { t with buf := t.buf.append xs slack, appended := t.appended ++ xs } ↔
      ¬ t.buf.DrainedFull := by
  have hlaw : t.consumed ++ t.buf.content = t.appended := ht
  simp only [ByteQueue, fifo, Fifo.history, content_append hwf, content_makeSpace, ← hlaw]
  rw [← List.append_assoc, List.append_left_inj, List.append_right_inj]
  by_cases hd : t.buf.DrainedFull
  · -- all the stored bytes come back, and there are some
    rw [if_pos hd, (content_eq_nil_iff t.buf).mpr hd.2.1]
    exact iff_of_false hd.1 (fun hn => hn hd)
  · rw [if_neg hd]
    exact iff_of_true rfl hd

/-- The other calls keep the law. -/
theorem byteQueue_consume {t : Traced} (ht : t.ByteQueue) (n : ℕ) :
    (t.consume { t.buf with idx := t.buf.idx + n }).ByteQueue := by
  rw [ByteQueue, fifo_consume, Fifo.history_pop]
  exact ht

/-- One step keeps the law exactly when it meets the condition. -/
theorem byteQueue_step_iff {t u : Traced} {op : Op} (hwf : t.buf.Wf) (ht : t.ByteQueue)
    (h : t.step op = some u) : u.ByteQueue ↔ t.SpaceOk op := by
  rcases step_cases h with ⟨xs, slack, rfl, rfl⟩ | ⟨hop, n, -, rfl⟩
  · exact byteQueue_append_iff hwf ht xs slack
  · refine iff_of_true (byteQueue_consume ht n) ?_
    cases op with
    | append xs slack => exact absurd rfl (hop xs slack)
    | _ => trivial

/-! ## Runs -/

/-- The buffer is a byte queue along a run of a fresh buffer exactly when no append of
the run finds it drained and full. -/
theorem byteQueue_iff (capacity : ℕ) (ops : List Op) :
    Runs.Along step ByteQueue (init capacity) ops ↔
      Runs.AllSteps step SpaceOk (init capacity) ops :=
  Runs.along_iff_allSteps (J := fun t => t.buf.Wf)
    (fun _ _ _ hwf h => wf_step hwf h)
    (fun _ _ _ hwf ht h => byteQueue_step_iff hwf ht h)
    (wf_init capacity) rfl

/-- Four bytes appended to a buffer of capacity four and consumed: the next append
makes them readable again. -/
theorem not_byteQueue_refill :
    ¬ Runs.Along step ByteQueue (init 4)
      [.append [1, 2, 3, 4] 0, .retrieveAll, .append [5] 3] := by
  decide

end Traced

end Buffer

end Lotta
