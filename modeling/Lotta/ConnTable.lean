/-
# The table of connections

`connections_` of a `TcpServer` maps names to connections.  `newConnection` runs on the
server's own loop and adds an entry; `removeConn` is called where a connection closes.  On
the server's loop it erases the entry at once, from another loop it pushes a closure that
the server's loop runs later.  `BaseServer` puts the table next to that loop with its
queue, whose other threads are those of the IO loops and of the user.

The table is exact (`TableExact`): every removal finds the entry of its own connection, and
what is in the table are the accepted connections whose removal has not run.
-/
import Lotta.CrossThread
import Lotta.TcpServer

namespace Lotta

/-! ## The table -/

/-- What a server knows of its connections: the connection with index `d` is `d`, and
`connName d` is its `name()`. -/
structure ConnTable where
  name : List Char
  connIdx : ℕ
  connections : List Char → Option ℕ
  connName : ℕ → List Char

namespace ConnTable

/-- A new server. -/
def init (name : List Char) : ConnTable := ⟨name, 0, fun _ => none, fun _ => []⟩

/-- `newConnection` for a connection with the local address `addr`. -/
def newConnection (t : ConnTable) (addr : List Char) : ConnTable :=
  let connName := TcpServer.formatName t.name addr t.connIdx
  { t with
    connIdx := t.connIdx + 1
    connections := Function.update t.connections connName (some t.connIdx)
    connName := Function.update t.connName t.connIdx connName }

/-- The closure of `removeConn`: the entry that it erases, and the table after that. -/
def removeTask (t : ConnTable) (d : ℕ) : Option ℕ × ConnTable :=
  (t.connections (t.connName d),
    { t with connections := Function.update t.connections (t.connName d) none })

end ConnTable

/-- The table of a server with a single loop. -/
def TcpServer.table (s : TcpServer) : ConnTable := ⟨s.name, s.connIdx, s.connections, s.connName⟩

/-- With a single loop, `newConnection` does this to the table. -/
theorem TcpServer.table_newConnection (s : TcpServer) (fd : ℤ) (addr : List Char) :
    (s.newConnection fd addr).table = s.table.newConnection addr := rfl

/-- With a single loop, `removeConn` does this to the table. -/
theorem TcpServer.table_removeConn (s : TcpServer) (d : ℕ) :
    (s.removeConn d).table = (s.table.removeTask d).2 := rfl

/-! ## The server on its loop -/

/-- The functions in the queue of the server's loop: removals, and others. -/
inductive BaseTask where
  | remove (d : ℕ)
  | other
  deriving DecidableEq

/-- The connection that a function removes. -/
def BaseTask.removes : BaseTask → Option ℕ
  | .remove d => some d
  | .other => none

/-- A server with its loop.  `closed` are the connections for which `removeConn` has been
called, and `erased` the removals that have run, with the entries that they erased. -/
structure BaseServer (τ : Type*) where
  ev : EventLoop BaseTask τ
  table : ConnTable
  closed : List ℕ
  erased : List (ℕ × Option ℕ)

/-- The steps: a connection is accepted, one is closed on the server's loop or by another
thread, the loop calls a function of its batch, and the other steps of the loop. -/
inductive BaseOp (τ : Type*) where
  | accept (addr : List Char)
  | closeHere (d : ℕ)
  | closeOn (t : τ) (d : ℕ)
  | call
  | loop (op : LoopOp BaseTask τ)

/-- A step of the loop that neither calls a function nor pushes a removal. -/
def LoopOp.isForeign {τ : Type*} : LoopOp BaseTask τ → Bool
  | .call => false
  | .pushLocal a => a == .other
  | .push _ a => a == .other
  | _ => true

theorem LoopOp.removes_of_isForeign {τ : Type*} {op : LoopOp BaseTask τ} {a : BaseTask}
    (h : op.isForeign = true) (ha : op.pushes = some a) : a.removes = none := by
  cases op with
  | pushLocal b =>
      obtain rfl := Option.some.inj ha
      rw [eq_of_beq h]
      rfl
  | push t b =>
      obtain rfl := Option.some.inj ha
      rw [eq_of_beq h]
      rfl
  | _ => cases ha

namespace BaseServer

variable {τ : Type*} [DecidableEq τ]

/-- A new server on a loop that is not running yet. -/
def init (name : List Char) : BaseServer τ := ⟨EventLoop.init, ConnTable.init name, [], []⟩

/-- The connection exists and has not been closed. -/
def MayClose (s : BaseServer τ) (d : ℕ) : Prop := d < s.table.connIdx ∧ d ∉ s.closed

omit [DecidableEq τ] in
instance (s : BaseServer τ) (d : ℕ) : Decidable (s.MayClose d) :=
  inferInstanceAs (Decidable (_ ∧ _))

/-- The closure of `removeConn` runs. -/
def runRemove (s : BaseServer τ) (d : ℕ) : BaseServer τ :=
  { s with
    table := (s.table.removeTask d).2
    erased := s.erased ++ [(d, (s.table.removeTask d).1)] }

/-- The loop calls a function. -/
def runTask (s : BaseServer τ) : BaseTask → BaseServer τ
  | .remove d => s.runRemove d
  | .other => s

/-- One step.  `connIdx_` is an `int`, which must not overflow. -/
def step (s : BaseServer τ) : BaseOp τ → Option (BaseServer τ)
  | .accept addr =>
      if ConnSystem.runsCode s.ev.pc = true ∧ s.table.connIdx + 1 < 2 ^ 31 then
        some { s with table := s.table.newConnection addr }
      else none
  | .closeHere d =>
      if ConnSystem.runsCode s.ev.pc = true ∧ s.MayClose d then
        some ({ s with closed := d :: s.closed }.runRemove d)
      else none
  | .closeOn t d =>
      if s.MayClose d then
        (s.ev.step (.push t (.remove d))).map fun ev =>
          { s with ev := ev, closed := d :: s.closed }
      else none
  | .call =>
      match s.ev.batch with
      | [] => none
      | a :: _ => (s.ev.step .call).map fun ev => runTask { s with ev := ev } a
  | .loop op =>
      if op.isForeign then (s.ev.step op).map fun ev => { s with ev := ev } else none

/-- The connections whose removal has run. -/
def removed (s : BaseServer τ) : List ℕ := s.erased.map Prod.fst

/-- The connections whose removal waits on the server's loop. -/
def pending (s : BaseServer τ) : List ℕ := (s.ev.batch ++ s.ev.queue).filterMap BaseTask.removes

/-- The table is exact. -/
structure TableExact (s : BaseServer τ) : Prop where
  /-- Accepted connections have different names. -/
  distinct : ∀ d e, d < s.table.connIdx → e < s.table.connIdx →
    s.table.connName d = s.table.connName e → d = e
  /-- The next connection will not overwrite an entry, whatever its address. -/
  next_free : ∀ addr,
    s.table.connections (TcpServer.formatName s.table.name addr s.table.connIdx) = none
  /-- Every removal has erased the entry of its connection. -/
  own : ∀ p ∈ s.erased, p.2 = some p.1
  /-- The entries are the accepted connections whose removal has not run. -/
  entries : ∀ name d, s.table.connections name = some d ↔
    d < s.table.connIdx ∧ name = s.table.connName d ∧ d ∉ s.removed

/-! ## The invariant -/

/-- What every step keeps: names are formatted from the index, the entries are as they
should be, and each connection has at most one removal, run or waiting. -/
structure TableInv (s : BaseServer τ) : Prop where
  ev : s.ev.Inv
  named : ∀ d, d < s.table.connIdx →
    ∃ addr, s.table.connName d = TcpServer.formatName s.table.name addr d
  own : ∀ p ∈ s.erased, p.2 = some p.1
  entries : ∀ name d, s.table.connections name = some d ↔
    d < s.table.connIdx ∧ name = s.table.connName d ∧ d ∉ s.removed
  unique : (s.removed ++ s.pending).Nodup
  closed : ∀ d ∈ s.removed ++ s.pending, d ∈ s.closed
  accepted : ∀ d ∈ s.closed, d < s.table.connIdx

omit [DecidableEq τ]

variable {s : BaseServer τ}

theorem tableInv_init (name : List Char) : TableInv (init name : BaseServer τ) where
  ev := EventLoop.inv_init
  named := fun d hd => absurd hd (Nat.not_lt_zero d)
  own := fun p hp => absurd hp List.not_mem_nil
  entries := fun _ d => by
    constructor
    · intro h
      cases h
    · rintro ⟨hd, -⟩
      exact absurd hd (Nat.not_lt_zero d)
  unique := List.nodup_nil
  closed := fun _ hd => absurd hd List.not_mem_nil
  accepted := fun _ hd => absurd hd List.not_mem_nil

/-- Two connections with the same name are the same. -/
theorem TableInv.connName_inj (h : s.TableInv) {d e : ℕ} (hd : d < s.table.connIdx)
    (he : e < s.table.connIdx) (hde : s.table.connName d = s.table.connName e) : d = e := by
  obtain ⟨addr, hd⟩ := h.named d hd
  obtain ⟨addr', he⟩ := h.named e he
  rw [hd, he] at hde
  exact TcpServer.formatName_inj hde

/-- The name of the next connection is free. -/
theorem TableInv.next_free (h : s.TableInv) (addr : List Char) :
    s.table.connections (TcpServer.formatName s.table.name addr s.table.connIdx) = none := by
  apply Option.eq_none_iff_forall_ne_some.mpr
  intro d hd
  obtain ⟨hlt, hname, -⟩ := (h.entries _ d).mp hd
  obtain ⟨addr', hd⟩ := h.named d hlt
  rw [hd] at hname
  exact absurd (TcpServer.formatName_inj hname) (Nat.ne_of_gt hlt)

theorem TableInv.exact (h : s.TableInv) : s.TableExact :=
  ⟨fun _ _ => h.connName_inj, h.next_free, h.own, h.entries⟩

/-! ## What the steps keep -/

/-- A step of the loop that only lets removals disappear from the queue or the batch. -/
theorem TableInv.of_sublist (h : s.TableInv) {ev : EventLoop BaseTask τ} (hev : ev.Inv)
    (hsub : ((ev.batch ++ ev.queue).filterMap BaseTask.removes).Sublist s.pending) :
    TableInv { s with ev := ev } where
  ev := hev
  named := h.named
  own := h.own
  entries := h.entries
  unique := h.unique.sublist (hsub.append_left _)
  closed := fun d hd => h.closed d ((hsub.append_left _).subset hd)
  accepted := h.accepted

/-- `newConnection` adds an entry under a name that was free. -/
theorem TableInv.accept (h : s.TableInv) (addr : List Char) :
    TableInv { s with table := s.table.newConnection addr } where
  ev := h.ev
  named := by
    intro d hd
    show ∃ a, Function.update s.table.connName s.table.connIdx _ d = _
    by_cases hnew : d = s.table.connIdx
    · subst hnew
      exact ⟨addr, Function.update_self ..⟩
    · rw [Function.update_of_ne hnew]
      exact h.named d (lt_of_le_of_ne (Nat.lt_succ_iff.mp hd) hnew)
  own := h.own
  entries := by
    intro name d
    show Function.update s.table.connections _ _ name = some d ↔
      d < s.table.connIdx + 1 ∧ name = Function.update s.table.connName s.table.connIdx _ d ∧
        d ∉ s.removed
    have hfree := h.next_free addr
    have hunremoved : s.table.connIdx ∉ s.removed := fun hmem =>
      absurd (h.accepted _ (h.closed _ (List.mem_append_left _ hmem))) (Nat.lt_irrefl _)
    by_cases hnew : d = s.table.connIdx
    · subst hnew
      rw [Function.update_self]
      constructor
      · intro hentry
        refine ⟨Nat.lt_succ_self _, ?_, hunremoved⟩
        by_contra hname
        rw [Function.update_of_ne hname] at hentry
        exact absurd ((h.entries name _).mp hentry).1 (Nat.lt_irrefl _)
      · rintro ⟨-, rfl, -⟩
        exact Function.update_self ..
    · rw [Function.update_of_ne hnew, Nat.lt_succ_iff_lt_or_eq, or_iff_left hnew, ← h.entries]
      by_cases hname : name = TcpServer.formatName s.table.name addr s.table.connIdx
      · rw [hname, Function.update_self, hfree]
        simp [Ne.symm hnew]
      · rw [Function.update_of_ne hname]
  unique := h.unique
  closed := h.closed
  accepted := fun d hd => Nat.lt_succ_of_lt (h.accepted d hd)

/-- A removal that has not run yet finds the entry of its connection and erases it. -/
theorem TableInv.erase (h : s.TableInv) {d : ℕ} (hd : d < s.table.connIdx)
    (hrun : d ∉ s.removed) :
    (s.table.removeTask d).1 = some d ∧
      ∀ name e, (s.table.removeTask d).2.connections name = some e ↔
        e < s.table.connIdx ∧ name = s.table.connName e ∧ e ∉ s.removed ++ [d] := by
  refine ⟨(h.entries _ d).mpr ⟨hd, rfl, hrun⟩, fun name e => ?_⟩
  show Function.update s.table.connections (s.table.connName d) none name = some e ↔ _
  rw [List.mem_append, List.mem_singleton, not_or]
  by_cases hname : name = s.table.connName d
  · rw [hname, Function.update_self]
    constructor
    · intro hentry
      cases hentry
    · rintro ⟨he, hde, -, hne⟩
      exact absurd (h.connName_inj he hd hde.symm) hne
  · rw [Function.update_of_ne hname, h.entries]
    constructor
    · rintro ⟨he, rfl, hmem⟩
      exact ⟨he, rfl, hmem, fun hed => hname (by rw [hed])⟩
    · rintro ⟨he, hne, hmem, -⟩
      exact ⟨he, hne, hmem⟩

/-- A removal runs: it was the next one of the batch, or is new. -/
theorem TableInv.runRemove (h : s.TableInv) {d : ℕ} {t : BaseServer τ} (hd : d < s.table.connIdx)
    (hrun : d ∉ s.removed) (hev : t.ev.Inv) (htable : t.table = s.table)
    (herased : t.erased = s.erased) (hunique : (s.removed ++ d :: t.pending).Nodup)
    (hclosed : ∀ e ∈ s.removed ++ d :: t.pending, e ∈ t.closed)
    (haccepted : ∀ e ∈ t.closed, e < s.table.connIdx) : (t.runRemove d).TableInv := by
  obtain ⟨hown, hentries⟩ := h.erase hd hrun
  have hremoved : (t.runRemove d).removed = s.removed ++ [d] := by
    show (t.erased ++ [(d, _)]).map Prod.fst = _
    rw [herased, List.map_append]
    rfl
  have happend : (t.runRemove d).removed ++ (t.runRemove d).pending =
      s.removed ++ d :: t.pending := by
    rw [hremoved, List.append_assoc]
    rfl
  refine ⟨hev, ?_, ?_, ?_, by rw [happend]; exact hunique, by rw [happend]; exact hclosed, ?_⟩
  · show ∀ e, e < t.table.connIdx →
      ∃ addr, t.table.connName e = TcpServer.formatName t.table.name addr e
    rw [htable]
    exact h.named
  · intro p hp
    have hp' : p ∈ s.erased ++ [(d, (s.table.removeTask d).1)] := by
      rw [← herased, ← htable]
      exact hp
    rcases List.mem_append.mp hp' with hmem | hmem
    · exact h.own p hmem
    · rw [List.mem_singleton.mp hmem]
      exact hown
  · rw [hremoved]
    show ∀ name e, (t.table.removeTask d).2.connections name = some e ↔
      e < t.table.connIdx ∧ name = t.table.connName e ∧ _
    rw [htable]
    exact hentries
  · show ∀ e ∈ t.closed, e < t.table.connIdx
    rw [htable]
    exact haccepted

/-- The loop calls the next function of its batch. -/
theorem TableInv.call [DecidableEq τ] (h : s.TableInv) {a : BaseTask} {rest : List BaseTask}
    (hbatch : s.ev.batch = a :: rest) {ev : EventLoop BaseTask τ}
    (hev : s.ev.step .call = some ev) : (runTask { s with ev := ev } a).TableInv := by
  have hinv : ev.Inv := EventLoop.inv_step h.ev hev
  have hleft : ev.batch = rest ∧ ev.queue = s.ev.queue := by
    simp only [EventLoop.step, hbatch] at hev
    split at hev
    · rename_i f rest' hpc hcons
      obtain ⟨-, rfl⟩ := List.cons.inj hcons
      obtain rfl := Option.some.inj hev
      exact ⟨rfl, rfl⟩
    · cases hev
  have hpending : s.pending =
      (a :: (rest ++ s.ev.queue)).filterMap BaseTask.removes := by
    rw [pending, hbatch]
    rfl
  cases a with
  | other =>
      refine h.of_sublist hinv ?_
      rw [hleft.1, hleft.2, hpending]
      exact List.Sublist.refl _
  | remove d =>
      have hcons : s.pending = d :: pending { s with ev := ev } := by
        rw [hpending, pending, hleft.1, hleft.2]
        rfl
      have hmem : d ∈ s.removed ++ s.pending := by
        rw [hcons]
        exact List.mem_append_right _ List.mem_cons_self
      have hunique := h.unique
      have hclosed := h.closed
      rw [hcons] at hunique hclosed
      refine h.runRemove (h.accepted d (h.closed d hmem)) ?_ hinv rfl rfl hunique hclosed
        h.accepted
      intro hrun
      exact (List.nodup_append.mp hunique).2.2 d hrun d List.mem_cons_self rfl

/-- Every step keeps the invariant. -/
theorem tableInv_step [DecidableEq τ] {t : BaseServer τ} {op : BaseOp τ} (h : s.TableInv)
    (hstep : s.step op = some t) : t.TableInv := by
  -- a connection that may be closed has no removal yet
  have hfresh : ∀ d, s.MayClose d → d ∉ s.removed ++ s.pending := fun d hd hmem =>
    hd.2 (h.closed d hmem)
  have hcloses : ∀ d, s.MayClose d → ∀ e ∈ d :: s.closed, e < s.table.connIdx := by
    intro d hd e he
    rcases List.mem_cons.mp he with rfl | he
    · exact hd.1
    · exact h.accepted e he
  cases op with
  | accept addr =>
      simp only [step, Option.ite_none_right_eq_some, Option.some.injEq] at hstep
      obtain ⟨-, rfl⟩ := hstep
      exact h.accept addr
  | closeHere d =>
      simp only [step, Option.ite_none_right_eq_some, Option.some.injEq] at hstep
      obtain ⟨⟨-, hd⟩, rfl⟩ := hstep
      have hnew := hfresh d hd
      refine h.runRemove (t := { s with closed := d :: s.closed }) hd.1
        (fun hmem => hnew (List.mem_append_left _ hmem)) h.ev rfl rfl ?_ ?_ (hcloses d hd)
      · exact List.nodup_middle.mpr (List.nodup_cons.mpr ⟨hnew, h.unique⟩)
      · intro e he
        rcases List.mem_cons.mp (List.perm_middle.subset he) with rfl | he
        · exact List.mem_cons_self
        · exact List.mem_cons_of_mem d (h.closed e he)
  | closeOn u d =>
      simp only [step, Option.ite_none_right_eq_some, Option.map_eq_some_iff] at hstep
      obtain ⟨hd, ev, hev, rfl⟩ := hstep
      have hinv : ev.Inv := EventLoop.inv_step h.ev hev
      have hpending : pending { s with ev := ev, closed := d :: s.closed } = s.pending ++ [d] := by
        simp only [EventLoop.step, Option.ite_none_right_eq_some, Option.some.injEq] at hev
        obtain ⟨-, rfl⟩ := hev
        show (s.ev.batch ++ (s.ev.queue ++ [BaseTask.remove d])).filterMap _ = _
        rw [← List.append_assoc, List.filterMap_append]
        rfl
      refine ⟨hinv, h.named, h.own, h.entries, ?_, ?_, hcloses d hd⟩
      · rw [hpending, ← List.append_assoc]
        exact List.nodup_append_comm.mp (List.nodup_cons.mpr ⟨hfresh d hd, h.unique⟩)
      · intro e he
        rw [hpending, ← List.append_assoc] at he
        rcases List.mem_append.mp he with he | he
        · exact List.mem_cons_of_mem d (h.closed e he)
        · rw [List.mem_singleton.mp he]
          exact List.mem_cons_self
  | call =>
      simp only [step] at hstep
      split at hstep
      · cases hstep
      · rename_i a rest hbatch
        rw [Option.map_eq_some_iff] at hstep
        obtain ⟨ev, hev, rfl⟩ := hstep
        exact h.call hbatch hev
  | loop op =>
      simp only [step, Option.ite_none_right_eq_some, Option.map_eq_some_iff] at hstep
      obtain ⟨hforeign, ev, hev, rfl⟩ := hstep
      refine h.of_sublist (EventLoop.inv_step h.ev hev) ?_
      cases EventLoop.stepped_of_step hev with
      | went => exact List.Sublist.refl _
      | pushed a pc threads hpush =>
          have hnone := LoopOp.removes_of_isForeign hforeign hpush
          show ((s.ev.batch ++ (s.ev.queue ++ [a])).filterMap _).Sublist _
          rw [← List.append_assoc, List.filterMap_append, List.filterMap_cons_none hnone,
            List.filterMap_nil, List.append_nil]
          exact List.Sublist.refl _
      | swapped hpc =>
          -- the batch before a swap is empty
          have hnil : s.ev.batch = [] := h.ev.batch_nil (by rw [hpc]; rfl)
          rw [pending, hnil, List.append_nil, List.nil_append]
      | called f rest hpc hbatch =>
          rw [pending, hbatch]
          exact (List.sublist_cons_self f _).filterMap _

/-- In every state of every run of a server the table is exact. -/
theorem run_tableExact [DecidableEq τ] (name : List Char) (ops : List (BaseOp τ)) :
    Runs.Along step TableExact (init name) ops :=
  (Runs.Along.of_invariant (fun _ _ _ h hstep => tableInv_step h hstep)
    (tableInv_init name)).mono fun _ h => h.exact

/- The names of the two connections share all their text but the index; the second is
closed by another thread and removed in the next turn of the loop. -/
example :
    ((Runs.run step (init ['#', '1'] : BaseServer Unit)
      [.loop .enter, .loop .testQuit, .loop .pollReturns, .accept ['#'], .accept ['#'],
        .closeOn () 1, .loop .handlersDone, .loop .swap, .call]).map BaseServer.erased) =
      some [(1, some 1)] := by
  decide

end BaseServer

end Lotta
