/-
# EventLoopPool: loops handed out in turn

`start()` makes `threadNum_` loops, each in a thread of its own, and `getLoop()` hands them
out in turn; without threads it hands out the base loop.  `PoolRun` records what has been
handed out.  A loop is named by its position in `loops_`, the base loop is `none`.

A failed `assert` is `none`, and so would be an access past the end of `loops_`.
-/
import Lotta.Lib.Runs
import Mathlib.Data.Int.CardIntervalMod

namespace Lotta

/-- `EventLoopPool`; `loops` is the size of `loops_`. -/
structure EventLoopPool where
  idx : ℕ
  threadNum : ℕ
  started : Bool
  loops : ℕ
  deriving DecidableEq, Repr

namespace EventLoopPool

/-- A new pool. -/
def init : EventLoopPool := ⟨0, 0, false, 0⟩

/-- `setThreadNum(unsigned n)`. -/
def setThreadNum (p : EventLoopPool) (n : ℕ) : EventLoopPool := { p with threadNum := n % 2 ^ 32 }

/-- `start()`: one more loop for each thread. -/
def start (p : EventLoopPool) : Option EventLoopPool :=
  if p.started then none else some { p with loops := p.loops + p.threadNum, started := true }

/-- `getLoop()`. -/
def getLoop (p : EventLoopPool) : Option (Option ℕ × EventLoopPool) :=
  if p.started = false ∨ p.threadNum ≠ p.loops then none
  else if p.threadNum = 0 then some (none, p)
  else if p.idx < p.loops then
    some (some p.idx, { p with idx := (p.idx + 1) % 2 ^ 32 % p.threadNum })
  else none

/-- What a pool of `n` loops hands out by `k` calls. -/
def turns (n k : ℕ) : List (Option ℕ) :=
  (List.range k).map fun j => if n = 0 then none else some (j % n)

/-- How often a loop has its turn. -/
theorem count_turns {n i : ℕ} (hi : i < n) (k : ℕ) :
    (turns n k).count (some i) = k / n + if i < k % n then 1 else 0 := by
  have hn : 0 < n := Nat.zero_lt_of_lt hi
  have hcount : (turns n k).count (some i) = Nat.count (fun j => j ≡ i [MOD n]) k := by
    induction k with
    | zero => rfl
    | succ k ih =>
        have hturn : (k ≡ i [MOD n]) ↔ k % n = i := by
          rw [Nat.ModEq, Nat.mod_eq_of_lt hi]
        unfold turns at ih ⊢
        rw [List.range_succ, List.map_append, List.count_append, ih, Nat.count_succ]
        simp only [List.map_singleton, if_neg hn.ne', List.count_singleton, beq_iff_eq,
          Option.some.injEq, hturn]
  rw [hcount, Nat.count_modEq_card k hn, Nat.mod_eq_of_lt hi]

/-- No loop is more than one turn ahead of another. -/
theorem turns_balanced {n i j : ℕ} (hi : i < n) (hj : j < n) (k : ℕ) :
    (turns n k).count (some i) ≤ (turns n k).count (some j) + 1 := by
  rw [count_turns hi, count_turns hj]
  split_ifs <;> omega

end EventLoopPool

/-- A pool with what it has handed out. -/
structure PoolRun where
  pool : EventLoopPool
  given : List (Option ℕ)

/-- The calls on a pool. -/
inductive PoolOp where
  | setThreadNum (n : ℕ)
  | start
  | getLoop

namespace PoolRun

/-- A new pool. -/
def init : PoolRun := ⟨EventLoopPool.init, []⟩

/-- One call. -/
def step (s : PoolRun) : PoolOp → Option PoolRun
  | .setThreadNum n => some { s with pool := s.pool.setThreadNum n }
  | .start => s.pool.start.map fun pool => { s with pool := pool }
  | .getLoop => s.pool.getLoop.map fun (loop, pool) => ⟨pool, s.given ++ [loop]⟩

end PoolRun

namespace EventLoopPool

/-- What every call keeps, when `k` loops have been handed out. -/
structure Inv (p : EventLoopPool) (k : ℕ) : Prop where
  threadNum_lt : p.threadNum < 2 ^ 32
  fresh : p.started = false → p.loops = 0 ∧ p.idx = 0 ∧ k = 0
  loops_lt : p.loops < 2 ^ 32
  idx : p.idx = if p.loops = 0 then 0 else k % p.loops

theorem inv_init : Inv init 0 := ⟨by decide, fun _ => ⟨rfl, rfl, rfl⟩, by decide, rfl⟩

variable {p q : EventLoopPool} {k : ℕ}

theorem Inv.setThreadNum (h : p.Inv k) (n : ℕ) : (p.setThreadNum n).Inv k :=
  ⟨Nat.mod_lt _ (by decide), h.fresh, h.loops_lt, h.idx⟩

theorem Inv.start (h : p.Inv k) (hstart : p.start = some q) : q.Inv k := by
  unfold EventLoopPool.start at hstart
  rw [Option.ite_none_left_eq_some, Option.some.injEq] at hstart
  obtain ⟨hfresh, rfl⟩ := hstart
  obtain ⟨hloops, hidx, rfl⟩ := h.fresh (by simpa using hfresh)
  refine ⟨h.threadNum_lt, fun hs => (by cases hs), ?_, ?_⟩
  · show p.loops + p.threadNum < 2 ^ 32
    rw [hloops, Nat.zero_add]
    exact h.threadNum_lt
  · show p.idx = if _ then 0 else 0 % _
    rw [hidx, Nat.zero_mod, ite_self]

/-- The index lies inside `loops_`. -/
theorem Inv.idx_lt (h : p.Inv k) (hloops : p.loops ≠ 0) : p.idx < p.loops := by
  rw [h.idx, if_neg hloops]
  exact Nat.mod_lt _ (Nat.pos_of_ne_zero hloops)

/-- A call of `getLoop` that goes through hands out the loop whose turn it is. -/
theorem Inv.getLoop (h : p.Inv k) {loop : Option ℕ} (hget : p.getLoop = some (loop, q)) :
    (loop = if p.loops = 0 then none else some (k % p.loops)) ∧ q.Inv (k + 1) ∧
      q.loops = p.loops := by
  unfold EventLoopPool.getLoop at hget
  rw [Option.ite_none_left_eq_some] at hget
  obtain ⟨hassert, hget⟩ := hget
  obtain ⟨hstarted, hnum⟩ : p.started = true ∧ p.threadNum = p.loops := by
    simpa [not_or] using hassert
  by_cases hzero : p.loops = 0
  · rw [hnum, if_pos hzero, Option.some.injEq, Prod.mk.injEq] at hget
    obtain ⟨rfl, rfl⟩ := hget
    refine ⟨(if_pos hzero).symm, ⟨h.threadNum_lt, fun hs => ?_, h.loops_lt, ?_⟩, rfl⟩
    · rw [hstarted] at hs
      cases hs
    · rw [h.idx, if_pos hzero, if_pos hzero]
  · have hlt := h.idx_lt hzero
    have hbound := h.loops_lt
    rw [hnum, if_neg hzero, if_pos hlt, Option.some.injEq, Prod.mk.injEq] at hget
    obtain ⟨rfl, rfl⟩ := hget
    refine ⟨?_, ⟨hbound, fun hs => ?_, hbound, ?_⟩, rfl⟩
    · rw [h.idx, if_neg hzero, if_neg hzero]
    · rw [hstarted] at hs
      cases hs
    · -- the index is below `threadNum_`, so `idx_ + 1` does not wrap around
      show (p.idx + 1) % 2 ^ 32 % p.loops = if p.loops = 0 then 0 else (k + 1) % p.loops
      rw [if_neg hzero, Nat.mod_eq_of_lt (show p.idx + 1 < 2 ^ 32 by omega), h.idx, if_neg hzero,
        Nat.mod_add_mod]

/-- `getLoop` goes through exactly when the pool has been started and the number of threads is
the one it was started with. -/
theorem Inv.getLoop_isSome_iff (h : p.Inv k) :
    p.getLoop.isSome = true ↔ p.started = true ∧ p.threadNum = p.loops := by
  unfold EventLoopPool.getLoop
  by_cases hassert : p.started = false ∨ p.threadNum ≠ p.loops
  · rw [if_pos hassert]
    refine iff_of_false (by simp) fun hok => ?_
    rcases hassert with hs | hn
    · rw [hok.1] at hs
      cases hs
    · exact hn hok.2
  · rw [if_neg hassert]
    obtain ⟨hstarted, hnum⟩ : p.started = true ∧ p.threadNum = p.loops := by
      simpa [not_or] using hassert
    refine iff_of_true ?_ ⟨hstarted, hnum⟩
    by_cases hzero : p.threadNum = 0
    · rw [if_pos hzero]
      rfl
    · rw [if_neg hzero, if_pos (h.idx_lt (hnum ▸ hzero))]
      rfl

end EventLoopPool

namespace PoolRun

/-- Every loop has its turn: what has been handed out are the loops one after the other, no
loop is more than one turn ahead of another, and the next call goes through exactly when the
pool has been started and `threadNum_` is the number of its loops. -/
structure InTurn (s : PoolRun) : Prop where
  given : s.given = EventLoopPool.turns s.pool.loops s.given.length
  balanced : ∀ i j, i < s.pool.loops → j < s.pool.loops →
    s.given.count (some i) ≤ s.given.count (some j) + 1
  goes_through : (s.step .getLoop).isSome = true ↔
    s.pool.started = true ∧ s.pool.threadNum = s.pool.loops

/-- What every call keeps. -/
structure Inv (s : PoolRun) : Prop where
  pool : s.pool.Inv s.given.length
  given : s.given = EventLoopPool.turns s.pool.loops s.given.length

theorem inv_step {s t : PoolRun} {op : PoolOp} (h : s.Inv) (hstep : s.step op = some t) :
    t.Inv := by
  cases op with
  | setThreadNum n =>
      obtain rfl := Option.some.inj hstep
      exact ⟨h.pool.setThreadNum n, h.given⟩
  | start =>
      simp only [step, Option.map_eq_some_iff] at hstep
      obtain ⟨pool, hstart, rfl⟩ := hstep
      refine ⟨h.pool.start hstart, ?_⟩
      unfold EventLoopPool.start at hstart
      rw [Option.ite_none_left_eq_some] at hstart
      obtain ⟨-, -, hnone⟩ := h.pool.fresh (by simpa using hstart.1)
      rw [List.eq_nil_of_length_eq_zero hnone]
      rfl
  | getLoop =>
      simp only [step, Option.map_eq_some_iff] at hstep
      obtain ⟨⟨loop, pool⟩, hget, rfl⟩ := hstep
      obtain ⟨hloop, hpool, hloops⟩ := h.pool.getLoop hget
      have hlen : (s.given ++ [loop]).length = s.given.length + 1 := List.length_append
      refine ⟨by rw [hlen]; exact hpool, ?_⟩
      show s.given ++ [loop] = EventLoopPool.turns pool.loops (s.given ++ [loop]).length
      rw [hlen, hloops, EventLoopPool.turns, List.range_succ, List.map_append, hloop]
      exact congrArg (· ++ _) h.given

theorem Inv.inTurn {s : PoolRun} (h : s.Inv) : s.InTurn where
  given := h.given
  balanced := fun i j hi hj => by
    rw [h.given]
    exact EventLoopPool.turns_balanced hi hj _
  goes_through := by
    rw [← h.pool.getLoop_isSome_iff]
    show (s.pool.getLoop.map _).isSome = true ↔ _
    rw [Option.isSome_map]

/-- Along every series of calls on a new pool the loops have their turns. -/
theorem run_inTurn (ops : List PoolOp) : Runs.Along step InTurn init ops :=
  (Runs.Along.of_invariant (P := Inv) (fun _ _ _ h hstep => inv_step h hstep)
    ⟨EventLoopPool.inv_init, rfl⟩).mono fun _ h => h.inTurn

end PoolRun

end Lotta
