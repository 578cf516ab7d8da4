/-
# First-in first-out queues with their history

A queue is described by what has left it and what is still inside, both in order.
`history` puts the two back together: a push appends to it and a pop leaves it as it
is, so nothing that went in is lost, duplicated or reordered on its way out.  A
component that carries items from a producer to a consumer is shown to conserve them
by reading its state as such a queue.
-/
import Mathlib.Data.List.Basic
import Mathlib.Tactic.Common

/-- A queue: the items that have left it, in order, and those still inside. -/
structure Fifo (α : Type*) where
  taken : List α
  content : List α

namespace Fifo

variable {α : Type*}

/-- Put items in at the back. -/
def push (q : Fifo α) (xs : List α) : Fifo α :=
  { q with content := q.content ++ xs }

/-- Let the `n` items at the front leave (all of them when there are fewer). -/
def pop (q : Fifo α) (n : ℕ) : Fifo α :=
  ⟨q.taken ++ q.content.take n, q.content.drop n⟩

/-- Everything that ever went in, in order. -/
def history (q : Fifo α) : List α := q.taken ++ q.content

@[simp] theorem push_nil (q : Fifo α) : q.push [] = q := by
  simp [push]

@[simp] theorem pop_zero (q : Fifo α) : q.pop 0 = q := by
  simp [pop]

/-- A push extends the history. -/
@[simp] theorem history_push (q : Fifo α) (xs : List α) :
    (q.push xs).history = q.history ++ xs := by
  simp [history, push]

/-- A pop leaves the history as it is. -/
@[simp] theorem history_pop (q : Fifo α) (n : ℕ) : (q.pop n).history = q.history := by
  simp [history, pop]

/-- Some items at the front have left, and nothing else has happened. -/
def Served (q q' : Fifo α) : Prop := ∃ n, q' = q.pop n

theorem Served.of_eq {q q' : Fifo α} (h : q' = q) : q.Served q' := ⟨0, by rw [h, pop_zero]⟩

theorem Served.history {q q' : Fifo α} (h : q.Served q') : q'.history = q.history := by
  obtain ⟨n, rfl⟩ := h
  exact history_pop q n

/-- What has left stays in its place. -/
theorem Served.taken {q q' : Fifo α} (h : q.Served q') : q.taken <+: q'.taken := by
  obtain ⟨n, rfl⟩ := h
  exact List.prefix_append _ _

end Fifo
