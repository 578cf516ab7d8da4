/-
# Timers fire as specified

`TimerRun` records next to a `TimerQueue` what a specification of timers speaks about: when
each timer was added, in which order the timers went into `timers_`, which call of
`handleTimer` is in progress, and the callbacks started so far with the instant that the
call had captured and the deadline of the timer.  Every timer is added once.

A deadline is stored twice, as the key in `timers_` and in the timer itself, and it moves
when the timer goes back from a batch.  `Holds` says how the two copies and the record fit
together for the timers that are waiting, those of the batch that have been started and
those that have not; `AsSpecified` is what follows for the callbacks.
-/
import Lotta.TimerArming

namespace Lotta

/-- The start of a callback: of which timer, in which call of `handleTimer` and with which
`now`, the deadline of the timer, its place in the order of insertion, and whether it had
been cancelled. -/
structure Firing (ι : Type*) where
  timer : ι
  turn : ℕ
  now : ℤ
  deadline : ℤ
  stamp : ℕ
  cancelled : Bool
  deriving DecidableEq

/-- A queue of timers with the record of its run.  `start` are the timers as they were
made, `turn` counts the calls of `handleTimer` and `inserts` the insertions into `timers_`,
of which `stamps` has the last one for each timer.  `cancelled` are the timers for which
`cancelTask` has run while the queue held them. -/
structure TimerRun (ι : Type*) where
  q : TimerQueue ι
  start : ι → Timer
  added : List ι
  addedIn : ι → ℕ
  stamps : ι → ℕ
  inserts : ℕ
  turn : ℕ
  fired : List (Firing ι)
  cancelled : List ι

namespace TimerQueue

variable {ι : Type*}

/-- The expired timers of the call in progress. -/
def expired (q : TimerQueue ι) : List (ℤ × ι) := q.batch.elim [] Batch.expired

/-- The queue holds the timer, as one that waits or in the batch. -/
def Holds (q : TimerQueue ι) (i : ι) : Prop := i ∈ (q.timers.entries ++ q.expired).map Prod.snd

instance [DecidableEq ι] (q : TimerQueue ι) (i : ι) : Decidable (q.Holds i) :=
  inferInstanceAs (Decidable (_ ∈ _))

end TimerQueue

namespace TimerRun

variable {ι : Type*}

/-- A new queue. -/
def init (asserts : Bool) (timer : ι → Timer) (clock : ℤ) : TimerRun ι where
  q := TimerQueue.init asserts timer clock
  start := timer
  added := []
  addedIn := fun _ => 0
  stamps := fun _ => 0
  inserts := 0
  turn := 0
  fired := []
  cancelled := []

variable [DecidableEq ι]

/-- The start of the next callback of the batch. -/
def firing (s : TimerRun ι) (b : Batch ι) (i : ι) : Firing ι where
  timer := i
  turn := s.turn
  now := b.now
  deadline := (s.q.timer i).when
  stamp := s.stamps i
  cancelled := decide (i ∈ s.cancelled)

/-- The callbacks of a timer so far. -/
def runs (s : TimerRun ι) (i : ι) : List (Firing ι) := s.fired.filter fun f => f.timer = i

/-- One turn of the loop in `resetTimers`: a timer that is restarted is inserted again. -/
def restartTurn (s : TimerRun ι) (e : ℤ × ι) : TimerRun ι :=
  if s.q.restarts e then
    { s with
      q := s.q.restartEntry e
      stamps := Function.update s.stamps e.2 s.inserts
      inserts := s.inserts + 1 }
  else s

/-- What a step adds to the record. -/
def record (s : TimerRun ι) : TimerOp ι → TimerRun ι
  | .tick _ => s
  | .addTask i =>
      { s with
        added := i :: s.added
        addedIn := Function.update s.addedIn i s.turn
        stamps := Function.update s.stamps i s.inserts
        inserts := s.inserts + 1 }
  | .cancelTask i => if s.q.Holds i then { s with cancelled := i :: s.cancelled } else s
  | .handleTimer _ => { s with turn := s.turn + 1 }
  | .callback =>
      match s.q.batch with
      | some b => { s with fired := s.fired ++ (b.rest.take 1).map fun e => s.firing b e.2 }
      | none => s
  | .resetTimers => s.q.expired.foldl restartTurn s

/-- A timer is not added twice. -/
def addsOnce (s : TimerRun ι) : TimerOp ι → Bool
  | .addTask i => decide (i ∉ s.added)
  | _ => true

/-- One step of the queue, recorded. -/
def step (s : TimerRun ι) (op : TimerOp ι) : Option (TimerRun ι) :=
  if s.addsOnce op then (s.q.step op).map fun q => { s.record op with q := q } else none

/-- Timers fire as specified: at or after the deadline, a one-shot timer once, a repeating
one at the multiples of its period; a timer at most once in a call of `handleTimer`; within
a call in the order of the deadlines, and of the insertions where these are equal; never in
the call in which the timer was added. -/
structure AsSpecified (s : TimerRun ι) : Prop where
  due : ∀ f ∈ s.fired, f.deadline ≤ f.now
  once : ∀ i, (s.start i).repeats = false → (s.runs i).length ≤ 1
  deadlines : ∀ i, (s.runs i).map Firing.deadline =
    (List.range (s.runs i).length).map fun k : ℕ => (s.start i).when + k * (s.start i).period
  apart : s.fired.Pairwise fun f g => f.timer = g.timer → f.turn < g.turn
  ordered : s.fired.Pairwise fun f g => f.turn = g.turn →
    f.deadline < g.deadline ∨ (f.deadline = g.deadline ∧ f.stamp < g.stamp)
  later : ∀ f ∈ s.fired, s.addedIn f.timer < f.turn

/-! ## The invariant -/

/-- The order in which entries expire. -/
def Before (s : TimerRun ι) (e f : ℤ × ι) : Prop :=
  e.1 < f.1 ∨ (e.1 = f.1 ∧ s.stamps e.2 < s.stamps f.2)

/-- An entry that the queue holds: its key is the deadline of its timer. -/
structure Filed (s : TimerRun ι) (e : ℤ × ι) : Prop where
  key : e.1 = (s.q.timer e.2).when
  added : e.2 ∈ s.added
  stamped : s.stamps e.2 < s.inserts

/-- The deadline of an entry is that of the next callback of its timer. -/
structure Next (s : TimerRun ι) (e : ℤ × ι) : Prop where
  deadline : e.1 = (s.start e.2).when + (s.runs e.2).length * (s.start e.2).period
  once : (s.start e.2).repeats = false → s.runs e.2 = []

/-- The deadline of an entry is that of the last callback of its timer. -/
def Last (s : TimerRun ι) (e : ℤ × ι) : Prop :=
  e.1 + (s.start e.2).period =
    (s.start e.2).when + (s.runs e.2).length * (s.start e.2).period

/-- The entries that the queue holds when the batch has the parts `started` and `rest`. -/
def all (s : TimerRun ι) (started rest : List (ℤ × ι)) : List (ℤ × ι) :=
  s.q.timers.entries ++ (started ++ rest)

/-- How the queue, a batch and the record fit together. -/
structure Holds (s : TimerRun ι) (started rest : List (ℤ × ι)) : Prop where
  period : ∀ i, (s.q.timer i).period = (s.start i).period
  repeats : ∀ i, (s.q.timer i).repeats = (s.start i).repeats
  fresh : ∀ i, i ∉ s.added → s.q.timer i = s.start i
  filed : ∀ e ∈ s.all started rest, s.Filed e
  distinct : ((s.all started rest).map Prod.snd).Nodup
  ordered : s.q.timers.entries.Pairwise s.Before
  batchOrdered : (started ++ rest).Pairwise s.Before
  addedIn_le : ∀ e ∈ s.q.timers.entries, s.addedIn e.2 ≤ s.turn
  addedIn_lt : ∀ e ∈ started ++ rest, s.addedIn e.2 < s.turn
  next : ∀ e ∈ s.q.timers.entries ++ rest, s.Next e
  last : ∀ e ∈ started, s.Last e
  firedAdded : ∀ f ∈ s.fired, f.timer ∈ s.added
  turn_le : ∀ f ∈ s.fired, f.turn ≤ s.turn
  law : s.AsSpecified

/-- The callbacks of the call in progress are those of the entries `started`. -/
def Current (s : TimerRun ι) (started : List (ℤ × ι)) : Prop :=
  ∀ f ∈ s.fired, f.turn = s.turn →
    ∃ e ∈ started, e.2 = f.timer ∧ e.1 = f.deadline ∧ s.stamps e.2 = f.stamp

/-- What every step keeps. -/
inductive RunInv (s : TimerRun ι) : Prop where
  | idle (hbatch : s.q.batch = none) (h : s.Holds [] [])
  | inBatch (now : ℤ) (started rest : List (ℤ × ι))
      (hbatch : s.q.batch = some ⟨now, started ++ rest, rest⟩) (h : s.Holds started rest)
      (hcurrent : s.Current started) (hdue : ∀ e ∈ started ++ rest, e.1 ≤ now)

variable {s t : TimerRun ι} {started rest : List (ℤ × ι)}

/-- A step of the queue with what it adds to the record. -/
theorem exists_of_step {op : TimerOp ι} (hstep : s.step op = some t) :
    s.addsOnce op = true ∧ ∃ q, s.q.step op = some q ∧ t = { s.record op with q := q } := by
  simp only [step, Option.ite_none_right_eq_some, Option.map_eq_some_iff] at hstep
  obtain ⟨hadds, q, hq, rfl⟩ := hstep
  exact ⟨hadds, q, hq, rfl⟩

theorem holds_init (asserts : Bool) (timer : ι → Timer) (clock : ℤ) :
    Holds (init asserts timer clock) [] [] where
  period := fun _ => rfl
  repeats := fun _ => rfl
  fresh := fun _ _ => rfl
  filed := nofun
  distinct := List.nodup_nil
  ordered := List.Pairwise.nil
  batchOrdered := List.Pairwise.nil
  addedIn_le := nofun
  addedIn_lt := nofun
  next := nofun
  last := nofun
  firedAdded := nofun
  turn_le := nofun
  law := ⟨nofun, fun _ _ => Nat.zero_le _, fun _ => rfl, List.Pairwise.nil, List.Pairwise.nil,
    nofun⟩

/-! ## What the parts of the invariant depend on -/

theorem runs_congr (h : t.fired = s.fired) (i : ι) : t.runs i = s.runs i := by
  rw [runs, runs, h]

theorem Next.congr {e : ℤ × ι} (h : s.Next e) (hruns : t.runs e.2 = s.runs e.2)
    (hstart : t.start = s.start) : t.Next e := by
  obtain ⟨hdeadline, honce⟩ := h
  refine ⟨?_, ?_⟩
  · rw [hruns, hstart]
    exact hdeadline
  · rw [hruns, hstart]
    exact honce

theorem Last.congr {e : ℤ × ι} (h : s.Last e) (hruns : t.runs e.2 = s.runs e.2)
    (hstart : t.start = s.start) : t.Last e := by
  rw [Last, hruns, hstart]
  exact h

/-- After its callback the deadline of an entry is that of the last one. -/
theorem Next.last {e : ℤ × ι} {f : Firing ι} (h : s.Next e)
    (hruns : t.runs e.2 = s.runs e.2 ++ [f]) (hstart : t.start = s.start) : t.Last e := by
  rw [Last, hruns, hstart, h.deadline, List.length_append, List.length_singleton,
    Int.natCast_add, Int.natCast_one, Int.add_mul, Int.one_mul, Int.add_assoc]

omit [DecidableEq ι] in
theorem Filed.congr {e : ℤ × ι} (h : s.Filed e) (htimer : t.q.timer = s.q.timer)
    (hadded : t.added = s.added) (hstamps : t.stamps = s.stamps)
    (hinserts : t.inserts = s.inserts) : t.Filed e := by
  refine ⟨?_, ?_, ?_⟩
  · rw [htimer]
    exact h.key
  · rw [hadded]
    exact h.added
  · rw [hstamps, hinserts]
    exact h.stamped

omit [DecidableEq ι] in
theorem pairwise_before_congr {l : List (ℤ × ι)}
    (hstamps : ∀ e ∈ l, t.stamps e.2 = s.stamps e.2) (h : l.Pairwise s.Before) :
    l.Pairwise t.Before := by
  refine h.imp_of_mem fun {e f} he hf hef => ?_
  rw [Before, hstamps e he, hstamps f hf]
  exact hef

theorem AsSpecified.congr (h : s.AsSpecified) (hfired : t.fired = s.fired)
    (hstart : t.start = s.start) (hin : ∀ f ∈ s.fired, t.addedIn f.timer = s.addedIn f.timer) :
    t.AsSpecified := by
  constructor
  case due =>
    rw [hfired]
    exact h.due
  case once =>
    intro i
    rw [hstart, runs_congr hfired]
    exact h.once i
  case deadlines =>
    intro i
    rw [hstart, runs_congr hfired]
    exact h.deadlines i
  case apart =>
    rw [hfired]
    exact h.apart
  case ordered =>
    rw [hfired]
    exact h.ordered
  case later =>
    intro f hf
    rw [hfired] at hf
    rw [hin f hf]
    exact h.later f hf

/-- Where the timers stay as they are, so do the facts on them. -/
theorem Holds.timer_congr (h : s.Holds started rest) {q : TimerQueue ι}
    (htimer : q.timer = s.q.timer) :
    (∀ i, (q.timer i).period = (s.start i).period) ∧
      (∀ i, (q.timer i).repeats = (s.start i).repeats) ∧
      ∀ i, i ∉ s.added → q.timer i = s.start i := by
  rw [htimer]
  exact ⟨h.period, h.repeats, h.fresh⟩

/-! ## Entries go and come -/

/-- The queue lets go of entries, and the deadlines stay. -/
theorem Holds.shrink (h : s.Holds started rest) {q : TimerQueue ι} {cancelled : List ι}
    (htimer : q.timer = s.q.timer)
    (hsub : q.timers.entries.Sublist s.q.timers.entries) :
    Holds { s with q := q, cancelled := cancelled } started rest := by
  have hall := hsub.append_right (started ++ rest)
  obtain ⟨hperiod, hrepeats, hfresh⟩ := h.timer_congr htimer
  constructor
  case period => exact hperiod
  case repeats => exact hrepeats
  case fresh => exact hfresh
  case filed => exact fun e he => (h.filed e (hall.subset he)).congr htimer rfl rfl rfl
  case distinct => exact h.distinct.sublist (hall.map Prod.snd)
  case ordered => exact h.ordered.sublist hsub
  case batchOrdered => exact h.batchOrdered
  case addedIn_le => exact fun e he => h.addedIn_le e (hsub.subset he)
  case addedIn_lt => exact h.addedIn_lt
  case next => exact fun e he => (h.next e ((hsub.append_right rest).subset he)).congr rfl rfl
  case last => exact fun e he => (h.last e he).congr rfl rfl
  case firedAdded => exact h.firedAdded
  case turn_le => exact h.turn_le
  case law => exact h.law.congr rfl rfl fun _ _ => rfl

/-- A timer whose callback has run leaves the batch. -/
theorem Holds.drop {e : ℤ × ι} (h : s.Holds (e :: started) rest) : s.Holds started rest := by
  have hall : (s.all started rest).Sublist (s.all (e :: started) rest) :=
    (List.sublist_cons_self e (started ++ rest)).append_left _
  refine ⟨h.period, h.repeats, h.fresh, fun f hf => h.filed f (hall.subset hf),
    h.distinct.sublist (hall.map Prod.snd), h.ordered, h.batchOrdered.of_cons, h.addedIn_le,
    fun f hf => h.addedIn_lt f (List.mem_cons_of_mem e hf), h.next,
    fun f hf => h.last f (List.mem_cons_of_mem e hf), h.firedAdded, h.turn_le, h.law⟩

/-- A timer that the queue does not hold goes into `timers_`: a new one, or one that is
restarted. -/
theorem Holds.insert (h : s.Holds started rest) {i : ι}
    (hi : i ∉ (s.all started rest).map Prod.snd)
    (htimers : t.q.timers = s.q.timers.insert (t.q.timer i).when i)
    (htimer : ∀ j, j ≠ i → t.q.timer j = s.q.timer j)
    (hperiod : (t.q.timer i).period = (s.start i).period)
    (hrepeats : (t.q.timer i).repeats = (s.start i).repeats)
    (hadded : ∀ j, j ∈ t.added ↔ j = i ∨ j ∈ s.added)
    (hstamps : t.stamps = Function.update s.stamps i s.inserts)
    (hinserts : t.inserts = s.inserts + 1)
    (haddedIn : ∀ j ∈ s.added, t.addedIn j = s.addedIn j) (hin : t.addedIn i ≤ s.turn)
    (hturn : t.turn = s.turn) (hfired : t.fired = s.fired) (hstart : t.start = s.start)
    (hnext : s.Next ((t.q.timer i).when, i)) : t.Holds started rest := by
  have hne : ∀ e ∈ s.all started rest, e.2 ≠ i := by
    rintro e he rfl
    exact hi (List.mem_map_of_mem he)
  have hperm : (t.all started rest).Perm (((t.q.timer i).when, i) :: s.all started rest) := by
    rw [all, htimers]
    exact (Multimap.perm_insertEntry _ _).append_right _
  have hstamp : ∀ e ∈ s.all started rest, t.stamps e.2 = s.stamps e.2 := by
    intro e he
    rw [hstamps, Function.update_of_ne (hne e he)]
  -- the new stamp is larger than those of the entries there
  have hnew : ∀ e ∈ s.all started rest, t.stamps e.2 < t.stamps i := by
    intro e he
    rw [hstamp e he, hstamps, Function.update_self]
    exact (h.filed e he).stamped
  have hentries : ∀ e ∈ s.q.timers.entries, e ∈ s.all started rest := fun e he =>
    List.mem_append_left _ he
  have hruns := runs_congr hfired
  have hmem : ∀ e, e ∈ t.q.timers.entries →
      e = ((t.q.timer i).when, i) ∨ e ∈ s.q.timers.entries := by
    intro e he
    rw [htimers] at he
    exact Multimap.mem_insert.mp he
  constructor
  case period =>
    intro j
    by_cases hj : j = i
    · rw [hj, hperiod, hstart]
    · rw [htimer j hj, hstart]
      exact h.period j
  case repeats =>
    intro j
    by_cases hj : j = i
    · rw [hj, hrepeats, hstart]
    · rw [htimer j hj, hstart]
      exact h.repeats j
  case fresh =>
    intro j hj
    rw [hadded, not_or] at hj
    rw [htimer j hj.1, hstart]
    exact h.fresh j hj.2
  case filed =>
    intro e he
    rcases List.mem_cons.mp (hperm.subset he) with rfl | he
    · refine ⟨rfl, (hadded i).mpr (Or.inl rfl), ?_⟩
      rw [hstamps, Function.update_self, hinserts]
      exact Nat.lt_succ_self _
    · obtain ⟨hkey, hin, hstamped⟩ := h.filed e he
      refine ⟨?_, (hadded _).mpr (Or.inr hin), ?_⟩
      · rw [htimer _ (hne e he)]
        exact hkey
      · rw [hstamp e he, hinserts]
        exact Nat.lt_succ_of_lt hstamped
  case distinct =>
    rw [(hperm.map Prod.snd).nodup_iff, List.map_cons]
    exact List.nodup_cons.mpr ⟨hi, h.distinct⟩
  case ordered =>
    rw [htimers]
    have hordered := pairwise_before_congr (fun e he => hstamp e (hentries e he)) h.ordered
    refine Multimap.pairwise_insertEntry hordered ?_ (fun e _ hlt => Or.inl hlt) s.q.timers.sorted
    intro e he hle
    exact (lt_or_eq_of_le hle).imp_right fun heq => ⟨heq, hnew e (hentries e he)⟩
  case batchOrdered =>
    exact pairwise_before_congr (fun e he => hstamp e (List.mem_append_right _ he)) h.batchOrdered
  case addedIn_le =>
    intro e he
    rw [hturn]
    rcases hmem e he with rfl | he
    · exact hin
    · rw [haddedIn _ (h.filed e (hentries e he)).added]
      exact h.addedIn_le e he
  case addedIn_lt =>
    intro e he
    rw [hturn, haddedIn _ (h.filed e (List.mem_append_right _ he)).added]
    exact h.addedIn_lt e he
  case next =>
    intro e he
    rcases List.mem_append.mp he with he | he
    · rcases hmem e he with rfl | he
      · exact hnext.congr (hruns _) hstart
      · exact (h.next e (List.mem_append_left _ he)).congr (hruns _) hstart
    · exact (h.next e (List.mem_append_right _ he)).congr (hruns _) hstart
  case last => exact fun e he => (h.last e he).congr (hruns _) hstart
  case firedAdded =>
    intro f hf
    rw [hfired] at hf
    exact (hadded _).mpr (Or.inr (h.firedAdded f hf))
  case turn_le =>
    rw [hfired, hturn]
    exact h.turn_le
  case law => exact h.law.congr hfired hstart fun f hf => haddedIn _ (h.firedAdded f hf)

/-! ## What the steps do to the invariant -/

/-- A new timer is added. -/
theorem Holds.addTask (h : s.Holds started rest) {i : ι} (hi : i ∉ s.added) :
    Holds { s.record (.addTask i) with q := s.q.addTask i } started rest := by
  obtain ⟨a, heq⟩ := s.q.addTask_eq i
  rw [heq]
  have hruns : s.runs i = [] := by
    rw [runs, List.filter_eq_nil_iff]
    intro f hf hfi
    exact hi (of_decide_eq_true hfi ▸ h.firedAdded f hf)
  apply h.insert (i := i)
  · intro hmem
    obtain ⟨e, he, rfl⟩ := List.mem_map.mp hmem
    exact hi (h.filed e he).added
  · rfl
  · exact fun _ _ => rfl
  · exact h.period i
  · exact h.repeats i
  · exact fun j => List.mem_cons
  · rfl
  · rfl
  · intro j hj
    have hji : j ≠ i := by
      rintro rfl
      exact hi hj
    exact Function.update_of_ne hji ..
  · exact (Function.update_self ..).le
  · rfl
  · rfl
  · rfl
  · refine ⟨?_, fun _ => hruns⟩
    show (s.q.timer i).when = (s.start i).when + (s.runs i).length * _
    rw [hruns, h.fresh i hi]
    simp

theorem Current.addTask (h : s.Holds started rest) (hc : s.Current started) {i : ι}
    (hi : i ∉ s.added) : Current { s.record (.addTask i) with q := s.q.addTask i } started := by
  intro f hf hturn
  obtain ⟨e, he, htimer, hdeadline, hstamp⟩ := hc f hf hturn
  refine ⟨e, he, htimer, hdeadline, ?_⟩
  have hin := (h.filed e (List.mem_append_right _ (List.mem_append_left _ he))).added
  have hei : e.2 ≠ i := by
    rintro rfl
    exact hi hin
  rw [← hstamp]
  exact Function.update_of_ne hei ..

/-- A call of `handleTimer` begins: the expired timers move into a batch. -/
theorem Holds.handleTimer (h : s.Holds [] []) {k : ℤ} {q : TimerQueue ι}
    (htimer : q.timer = s.q.timer) (htimers : q.timers = s.q.timers.fromBound k) :
    Holds { s with turn := s.turn + 1, q := q } [] (s.q.timers.belowBound k) := by
  have hsplit := s.q.timers.belowBound_append_fromBound k
  have hentries : ∀ e ∈ q.timers.entries, e ∈ s.q.timers.entries := by
    intro e he
    rw [htimers] at he
    exact (Multimap.mem_fromBound.mp he).1
  have hbelow : ∀ e ∈ s.q.timers.belowBound k, e ∈ s.q.timers.entries := by
    intro e he
    rw [← hsplit]
    exact List.mem_append_left _ he
  have hperm : (q.timers.entries ++ ([] ++ s.q.timers.belowBound k)).Perm (s.all [] []) := by
    rw [all, List.append_nil, List.append_nil, ← hsplit, htimers]
    exact List.perm_append_comm
  have hordered := h.ordered
  rw [← hsplit, List.pairwise_append] at hordered
  obtain ⟨hperiod, hrepeats, hfresh⟩ := h.timer_congr htimer
  constructor
  case period => exact hperiod
  case repeats => exact hrepeats
  case fresh => exact hfresh
  case filed => exact fun e he => (h.filed e (hperm.subset he)).congr htimer rfl rfl rfl
  case distinct => exact (hperm.map Prod.snd).nodup_iff.mpr h.distinct
  case ordered =>
    show q.timers.entries.Pairwise s.Before
    rw [htimers]
    exact hordered.2.1
  case batchOrdered => exact hordered.1
  case addedIn_le => exact fun e he => Nat.le_succ_of_le (h.addedIn_le e (hentries e he))
  case addedIn_lt => exact fun e he => Nat.lt_succ_of_le (h.addedIn_le e (hbelow e he))
  case next =>
    intro e he
    have hmem : e ∈ s.q.timers.entries := (List.mem_append.mp he).elim (hentries e) (hbelow e)
    exact (h.next e (List.mem_append_left _ hmem)).congr rfl rfl
  case last => exact nofun
  case firedAdded => exact h.firedAdded
  case turn_le => exact fun f hf => Nat.le_succ_of_le (h.turn_le f hf)
  case law => exact h.law.congr rfl rfl fun _ _ => rfl

/-- The callbacks of a timer after one more callback. -/
theorem runs_fire {f : Firing ι} (ht : t.fired = s.fired ++ [f]) (i : ι) :
    t.runs i = if f.timer = i then s.runs i ++ [f] else s.runs i := by
  rw [runs, runs, ht, List.filter_append]
  by_cases hf : f.timer = i
  · simp [hf]
  · simp [hf]

/-- The law is kept by a callback at the deadline of the next run. -/
theorem AsSpecified.fire (h : s.AsSpecified) {f : Firing ι} (hdue : f.deadline ≤ f.now)
    (hnext : s.Next (f.deadline, f.timer))
    (hapart : ∀ g ∈ s.fired, g.timer = f.timer → g.turn < f.turn)
    (hordered : ∀ g ∈ s.fired, g.turn = f.turn →
      g.deadline < f.deadline ∨ (g.deadline = f.deadline ∧ g.stamp < f.stamp))
    (hlater : s.addedIn f.timer < f.turn) (hfired : t.fired = s.fired ++ [f])
    (hstart : t.start = s.start) (hin : t.addedIn = s.addedIn) : t.AsSpecified := by
  have hruns := runs_fire hfired
  constructor
  case due =>
    rw [hfired, List.forall_mem_append]
    exact ⟨h.due, List.forall_mem_singleton.mpr hdue⟩
  case once =>
    intro i hi
    rw [hstart] at hi
    rw [hruns]
    split
    · rename_i hf
      have hnone : s.runs i = [] := by
        rw [← hf] at hi ⊢
        exact hnext.once hi
      rw [hnone]
      exact Nat.le_refl 1
    · exact h.once i hi
  case deadlines =>
    intro i
    rw [hruns, hstart]
    split
    · rename_i hf
      have hdeadline : f.deadline =
          (s.start i).when + (s.runs i).length * (s.start i).period := by
        rw [← hf]
        exact hnext.deadline
      rw [List.map_append, h.deadlines i, List.length_append, List.length_singleton,
        List.range_succ, List.map_append, List.map_singleton, List.map_singleton, hdeadline]
    · exact h.deadlines i
  case apart =>
    rw [hfired, List.pairwise_append]
    refine ⟨h.apart, List.pairwise_singleton _ _, fun g hg f' hf' => ?_⟩
    rw [List.mem_singleton.mp hf']
    exact hapart g hg
  case ordered =>
    rw [hfired, List.pairwise_append]
    refine ⟨h.ordered, List.pairwise_singleton _ _, fun g hg f' hf' => ?_⟩
    rw [List.mem_singleton.mp hf']
    exact hordered g hg
  case later =>
    rw [hfired, hin, List.forall_mem_append]
    exact ⟨h.later, List.forall_mem_singleton.mpr hlater⟩

/-- The queue holds each timer once, so the entries beside the next one are of others. -/
theorem Holds.ne_of_mem {e : ℤ × ι} (h : s.Holds started (e :: rest)) :
    ∀ e' ∈ s.all started rest, e.2 ≠ e'.2 := by
  have hperm : (s.all started (e :: rest)).Perm (e :: s.all started rest) := by
    rw [all, all, ← List.append_assoc, ← List.append_assoc]
    exact List.perm_middle
  have hnodup := (hperm.map Prod.snd).nodup_iff.mp h.distinct
  intro e' he' heq
  exact (List.nodup_cons.mp hnodup).1 (List.mem_map.mpr ⟨e', he', heq.symm⟩)

/-- The next entry of the batch is one of the queue, under the deadline of its timer. -/
theorem Holds.filed_head {e : ℤ × ι} (h : s.Holds started (e :: rest)) : s.Filed e :=
  h.filed e (List.mem_append_right _ (List.mem_append_right _ List.mem_cons_self))

/-- The callbacks of this call belong to other timers, which expire before the next entry. -/
theorem Holds.before_head {e : ℤ × ι} (h : s.Holds started (e :: rest))
    (hcurrent : s.Current started) {g : Firing ι} (hg : g ∈ s.fired) (hturn : g.turn = s.turn) :
    g.timer ≠ e.2 ∧ (g.deadline < e.1 ∨ (g.deadline = e.1 ∧ g.stamp < s.stamps e.2)) := by
  obtain ⟨e', he', htimer, hdeadline, hstamp⟩ := hcurrent g hg hturn
  refine ⟨?_, ?_⟩
  · rw [← htimer]
    exact (h.ne_of_mem e' (List.mem_append_right _ (List.mem_append_left _ he'))).symm
  · rw [← hdeadline, ← hstamp]
    exact (List.pairwise_append.mp h.batchOrdered).2.2 e' he' e List.mem_cons_self

/-- The law is kept when the next callback of the batch is started. -/
theorem Holds.law_fire {e : ℤ × ι} {b : Batch ι} (h : s.Holds started (e :: rest))
    (hcurrent : s.Current started) (hdue : e.1 ≤ b.now)
    (hfired : t.fired = s.fired ++ [s.firing b e.2]) (hstart : t.start = s.start)
    (hin : t.addedIn = s.addedIn) : t.AsSpecified := by
  have hkey : (s.q.timer e.2).when = e.1 := h.filed_head.key.symm
  have hnext := h.next e (List.mem_append_right _ List.mem_cons_self)
  refine h.law.fire (f := s.firing b e.2) ?_ ?_ ?_ ?_ ?_ hfired hstart hin
  · show (s.q.timer e.2).when ≤ b.now
    rw [hkey]
    exact hdue
  · show s.Next ((s.q.timer e.2).when, e.2)
    rw [hkey]
    exact hnext
  · intro g hg htimer
    exact lt_of_le_of_ne (h.turn_le g hg) fun hturn => (h.before_head hcurrent hg hturn).1 htimer
  · intro g hg hturn
    show g.deadline < (s.q.timer e.2).when ∨ (g.deadline = (s.q.timer e.2).when ∧ _)
    rw [hkey]
    exact (h.before_head hcurrent hg hturn).2
  · exact h.addedIn_lt e (List.mem_append_right _ List.mem_cons_self)

/-- The next callback of the batch is started. -/
theorem Holds.callback {e : ℤ × ι} {b : Batch ι} {q : TimerQueue ι}
    (h : s.Holds started (e :: rest)) (hcurrent : s.Current started) (hdue : e.1 ≤ b.now)
    (htimer : q.timer = s.q.timer) (htimers : q.timers = s.q.timers) :
    let t := { s with q := q, fired := s.fired ++ [s.firing b e.2] }
    t.Holds (started ++ [e]) rest ∧ t.Current (started ++ [e]) := by
  intro t
  have happend : started ++ [e] ++ rest = started ++ e :: rest := List.append_assoc ..
  have hall : t.all (started ++ [e]) rest = s.all started (e :: rest) := by
    show q.timers.entries ++ (started ++ [e] ++ rest) = _
    rw [htimers, happend]
    rfl
  have hruns := runs_fire (s := s) (t := t) rfl
  have hother : ∀ e' ∈ s.all started rest, t.runs e'.2 = s.runs e'.2 := fun e' he' =>
    (hruns _).trans (if_neg (h.ne_of_mem e' he'))
  obtain ⟨hperiod, hrepeats, hfresh⟩ := h.timer_congr htimer
  refine ⟨?_, ?_⟩
  · constructor
    case period => exact hperiod
    case repeats => exact hrepeats
    case fresh => exact hfresh
    case filed =>
      rw [hall]
      exact fun e' he' => (h.filed e' he').congr htimer rfl rfl rfl
    case distinct =>
      rw [hall]
      exact h.distinct
    case ordered =>
      show q.timers.entries.Pairwise s.Before
      rw [htimers]
      exact h.ordered
    case batchOrdered =>
      rw [happend]
      exact h.batchOrdered
    case addedIn_le =>
      show ∀ e' ∈ q.timers.entries, _
      rw [htimers]
      exact h.addedIn_le
    case addedIn_lt =>
      rw [happend]
      exact h.addedIn_lt
    case next =>
      intro e' he'
      have hmem : e' ∈ s.q.timers.entries ∨ e' ∈ rest := by
        rw [← htimers]
        exact List.mem_append.mp he'
      have hnext := h.next e' (List.mem_append.mpr (hmem.imp_right (List.mem_cons_of_mem e)))
      exact hnext.congr
        (hother e' (List.mem_append.mpr (hmem.imp_right (List.mem_append_right started)))) rfl
    case last =>
      intro e' he'
      rcases List.mem_append.mp he' with he' | he'
      · have hmem : e' ∈ s.all started rest :=
          List.mem_append_right _ (List.mem_append_left _ he')
        exact (h.last e' he').congr (hother e' hmem) rfl
      · obtain rfl := List.mem_singleton.mp he'
        have hnext := h.next e' (List.mem_append_right _ List.mem_cons_self)
        exact hnext.last ((hruns _).trans (if_pos rfl)) rfl
    case firedAdded =>
      intro f hf
      rcases List.mem_append.mp hf with hf | hf
      · exact h.firedAdded f hf
      · rw [List.mem_singleton.mp hf]
        exact h.filed_head.added
    case turn_le =>
      intro f hf
      rcases List.mem_append.mp hf with hf | hf
      · exact h.turn_le f hf
      · rw [List.mem_singleton.mp hf]
        exact Nat.le_refl _
    case law => exact h.law_fire hcurrent hdue rfl rfl rfl
  · intro f hf hturn
    rcases List.mem_append.mp hf with hf | hf
    · obtain ⟨e', he', hrest⟩ := hcurrent f hf hturn
      exact ⟨e', List.mem_append_left _ he', hrest⟩
    · rw [List.mem_singleton.mp hf]
      refine ⟨e, List.mem_append_right _ (List.mem_singleton.mpr rfl), rfl, ?_, rfl⟩
      exact h.filed_head.key

/-! ## The end of a batch -/

/-- A turn of the loop in `resetTimers`. -/
theorem Holds.restartTurn {e : ℤ × ι} (h : s.Holds (e :: started) []) :
    (s.restartTurn e).Holds started [] := by
  rw [TimerRun.restartTurn]
  split
  · rename_i hrestarts
    obtain ⟨-, -, hwhen, hperiod, hother⟩ := TimerQueue.restartEntry_of_restarts hrestarts
    have hfiled := h.filed e (List.mem_append_right _ List.mem_cons_self)
    have hrepeats : (s.q.timer e.2).repeats = true := (Bool.and_eq_true_iff.mp hrestarts).1
    have hdistinct : e.2 ∉ (s.all started []).map Prod.snd := by
      have hperm : (s.all (e :: started) []).Perm (e :: s.all started []) := List.perm_middle
      have hnodup := (hperm.map Prod.snd).nodup_iff.mp h.distinct
      exact (List.nodup_cons.mp hnodup).1
    have hself : (s.q.restartEntry e).timer e.2 = (s.q.timer e.2).restart := by
      rw [TimerQueue.restartEntry, if_pos hrestarts]
      exact Function.update_self ..
    apply h.drop.insert hdistinct
    · show (s.q.restartEntry e).timers = _
      rw [TimerQueue.restartEntry, if_pos hrestarts]
      rfl
    · exact hother
    · show ((s.q.restartEntry e).timer e.2).period = _
      rw [hperiod]
      exact h.period e.2
    · show ((s.q.restartEntry e).timer e.2).repeats = _
      rw [hself, Timer.restart, if_pos hrepeats, ← h.repeats]
    · intro j
      exact ⟨Or.inr, fun hj => hj.elim (fun hj => hj ▸ hfiled.added) id⟩
    · rfl
    · rfl
    · exact fun _ _ => rfl
    · exact (h.addedIn_lt e List.mem_cons_self).le
    · rfl
    · rfl
    · rfl
    · refine ⟨?_, fun honce => ?_⟩
      · show ((s.q.restartEntry e).timer e.2).when = _
        rw [hwhen, ← hfiled.key, h.period]
        exact h.last e List.mem_cons_self
      · rw [← h.repeats, hrepeats] at honce
        cases honce
  · exact h.drop

/-- The loop in `resetTimers`. -/
theorem Holds.restarts (h : s.Holds started []) :
    (started.foldl TimerRun.restartTurn s).Holds [] [] := by
  induction started generalizing s with
  | nil => exact h
  | cons e started ih => exact ih h.restartTurn

theorem q_restartTurn (s : TimerRun ι) (e : ℤ × ι) :
    (s.restartTurn e).q = s.q.restartEntry e := by
  rw [TimerRun.restartTurn, TimerQueue.restartEntry]
  split <;> rfl

/-- The record follows the queue through the loop. -/
theorem q_foldl_restartTurn (l : List (ℤ × ι)) (s : TimerRun ι) :
    (l.foldl TimerRun.restartTurn s).q = l.foldl TimerQueue.restartEntry s.q := by
  induction l generalizing s with
  | nil => rfl
  | cons e l ih => rw [List.foldl_cons, List.foldl_cons, ih, q_restartTurn]

/-- A turn of that loop does not depend on whether the batch has ended. -/
theorem restartEntry_ended (q : TimerQueue ι) (e : ℤ × ι) :
    TimerQueue.restartEntry { q with doingTimerCallback := false, batch := none } e =
      { q.restartEntry e with doingTimerCallback := false, batch := none } := by
  unfold TimerQueue.restartEntry TimerQueue.restarts
  split
  · rfl
  · rfl

theorem foldl_restartEntry_ended (q : TimerQueue ι) (l : List (ℤ × ι)) :
    l.foldl TimerQueue.restartEntry { q with doingTimerCallback := false, batch := none } =
      { l.foldl TimerQueue.restartEntry q with doingTimerCallback := false, batch := none } := by
  induction l generalizing q with
  | nil => rfl
  | cons e l ih => rw [List.foldl_cons, restartEntry_ended, ih, List.foldl_cons]

omit [DecidableEq ι] in
/-- Arming the descriptor keeps the timers and the batch. -/
theorem rearm_frame (q : TimerQueue ι) (now : ℤ) :
    (q.rearm now).timer = q.timer ∧ (q.rearm now).timers = q.timers ∧
      (q.rearm now).batch = q.batch := by
  unfold TimerQueue.rearm
  split
  · exact ⟨rfl, rfl, rfl⟩
  · split
    · exact ⟨rfl, rfl, rfl⟩
    · exact ⟨rfl, rfl, rfl⟩

/-- The timers after `resetTimers` are those that its loop leaves. -/
theorem resetTimers_frame (q : TimerQueue ι) (now : ℤ) (l : List (ℤ × ι)) :
    let r := TimerQueue.resetTimers { q with doingTimerCallback := false, batch := none } now l
    r.timer = (l.foldl TimerQueue.restartEntry q).timer ∧
      r.timers = (l.foldl TimerQueue.restartEntry q).timers ∧ r.batch = none := by
  intro r
  have hr : r = TimerQueue.rearm { l.foldl TimerQueue.restartEntry q with
      doingTimerCallback := false, batch := none } now := by
    rw [← foldl_restartEntry_ended]
    rfl
  rw [hr]
  exact rearm_frame _ now

/-! ## Runs -/

/-- A step that leaves the batch as it is. -/
theorem RunInv.of_holds (h : s.RunInv) (hbatch : t.q.batch = s.q.batch)
    (hholds : ∀ started rest, s.Holds started rest → t.Holds started rest)
    (hcurrent : ∀ started rest, s.Holds started rest → s.Current started → t.Current started) :
    t.RunInv := by
  cases h with
  | idle hnone hs => exact .idle (hbatch.trans hnone) (hholds _ _ hs)
  | inBatch now started rest hsome hs hc hdue =>
      exact .inBatch now started rest (hbatch.trans hsome) (hholds _ _ hs)
        (hcurrent _ _ hs hc) hdue

/-- Every step keeps the invariant. -/
theorem runInv_step {op : TimerOp ι} (h : s.RunInv) (hstep : s.step op = some t) :
    t.RunInv := by
  obtain ⟨hadds, q, hq, rfl⟩ := exists_of_step hstep
  cases op with
  | tick clock =>
      simp only [TimerQueue.step, Option.ite_none_right_eq_some, Option.some.injEq] at hq
      obtain ⟨-, rfl⟩ := hq
      exact h.of_holds rfl (fun _ _ hs => hs.shrink rfl (List.Sublist.refl _)) fun _ _ _ hc => hc
  | addTask i =>
      have hi : i ∉ s.added := of_decide_eq_true hadds
      simp only [TimerQueue.step, Option.ite_none_right_eq_some, Option.some.injEq] at hq
      obtain ⟨-, rfl⟩ := hq
      have hbatch : (s.q.addTask i).batch = s.q.batch := by
        obtain ⟨a, heq⟩ := s.q.addTask_eq i
        rw [heq]
      exact h.of_holds hbatch (fun _ _ hs => hs.addTask hi) fun _ _ hs hc => hc.addTask hs hi
  | cancelTask i =>
      simp only [TimerQueue.step, Option.ite_none_right_eq_some, Option.some.injEq] at hq
      obtain ⟨-, rfl⟩ := hq
      obtain ⟨timers, marks, heq, hsub, -⟩ := s.q.cancelTask_eq i
      rw [heq, record]
      split
      · exact h.of_holds rfl (fun _ _ hs => hs.shrink rfl hsub) fun _ _ _ hc => hc
      · exact h.of_holds rfl (fun _ _ hs => hs.shrink rfl hsub) fun _ _ _ hc => hc
  | handleTimer readAt =>
      obtain ⟨hnone, -, a, rfl⟩ := TimerQueue.handleTimer_cases hq
      cases h with
      | idle _ hs =>
          refine .inBatch s.q.clock [] _ rfl (hs.handleTimer rfl rfl) ?_ ?_
          · -- the call has just begun
            intro f hf hturn
            have hle : f.turn ≤ s.turn := hs.turn_le f hf
            have heq : f.turn = s.turn + 1 := hturn
            omega
          · exact fun e he => (Multimap.lt_of_mem_belowBound he).le
      | inBatch now started rest hsome =>
          rw [hnone] at hsome
          cases hsome
  | callback =>
      obtain ⟨now, expired, e, rest, hbatch, rfl⟩ := TimerQueue.callback_cases hq
      cases h with
      | idle hnone =>
          rw [hbatch] at hnone
          cases hnone
      | inBatch now' started rest' hsome hs hc hdue =>
          rw [hbatch, Option.some.injEq, Batch.mk.injEq] at hsome
          obtain ⟨rfl, rfl, rfl⟩ := hsome
          have hmem : e ∈ started ++ e :: rest := List.mem_append_right _ List.mem_cons_self
          obtain ⟨hholds, hcurrent⟩ := hs.callback
            (b := ⟨now, started ++ e :: rest, e :: rest⟩)
            (q := { s.q with batch := some ⟨now, started ++ e :: rest, rest⟩ })
            hc (hdue e hmem) rfl rfl
          have happend : started ++ [e] ++ rest = started ++ e :: rest :=
            List.append_assoc ..
          rw [record, hbatch]
          refine .inBatch now (started ++ [e]) rest ?_ hholds hcurrent ?_
          · rw [happend]
          · rw [happend]
            exact hdue
  | resetTimers =>
      obtain ⟨now, expired, hbatch, rfl⟩ := TimerQueue.resetTimers_cases hq
      obtain ⟨htimer, htimers, hnone⟩ := resetTimers_frame s.q now expired
      cases h with
      | idle hidle =>
          rw [hbatch] at hidle
          cases hidle
      | inBatch now' started rest hsome hs =>
          rw [hbatch, Option.some.injEq, Batch.mk.injEq] at hsome
          obtain ⟨rfl, rfl, rfl⟩ := hsome
          rw [List.append_nil] at htimer htimers hnone hbatch
          have hexpired : s.q.expired = started := by
            rw [TimerQueue.expired, hbatch]
            rfl
          rw [← q_foldl_restartTurn] at htimer htimers
          rw [record, hexpired, List.append_nil]
          exact .idle hnone (hs.restarts.shrink htimer (by rw [htimers]))

/-- What every step keeps contains the law. -/
theorem RunInv.asSpecified (h : s.RunInv) : s.AsSpecified := by
  cases h with
  | idle _ hs => exact hs.law
  | inBatch _ _ _ _ hs => exact hs.law

/-- In every state of every run the callbacks have been started as specified. -/
theorem run_asSpecified (asserts : Bool) (timer : ι → Timer) (clock : ℤ)
    (ops : List (TimerOp ι)) : Runs.Along step AsSpecified (init asserts timer clock) ops :=
  (Runs.Along.of_invariant (fun _ _ _ h hstep => runInv_step h hstep)
    (RunInv.idle rfl (holds_init asserts timer clock))).mono fun _ h => h.asSpecified

/- A repeating timer that is handled late twice keeps to the multiples of its period. -/
example :
    ((Runs.run step (init true (fun _ : Unit => ⟨10, 10, true⟩) 0)
      [.addTask (), .tick 15, .handleTimer 15, .callback, .resetTimers, .tick 29,
        .handleTimer 29, .callback]).map fun s => s.fired.map fun f => (f.now, f.deadline)) =
      some [(15, 10), (29, 20)] := by
  decide

end TimerRun

end Lotta
