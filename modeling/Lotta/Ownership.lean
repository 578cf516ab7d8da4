/-
# A connection outlives the event being dispatched on it

While a poll event of a connection is dispatched, `Channel::handleEvent` runs in a channel
that the connection owns, so the connection needs an owner until the last test is made.
The entry in `connections_` is one, but `handleClose` erases it, on this loop at once, and
the temporaries that carry the connection through its callbacks end with them.  What is
left is a closure of `close()` in the queue of the loop, if there is one.

The condition of `kept_of_closesIdle` is therefore on the steps that run `handleClose`: no
event of the connection is being dispatched, or such a closure is waiting.
-/
import Lotta.ConnectionEffects
import Lotta.Lib.Runs
import Lotta.TcpServer

namespace Lotta

namespace TcpServer

/-- A connection has an owner as long as an event of it is dispatched. -/
def Kept (s : TcpServer) : Prop := ∀ f ∈ s.todo, ∀ d ∈ f.event, 0 < s.owners d

instance (s : TcpServer) : Decidable s.Kept := inferInstanceAs (Decidable (∀ _ ∈ s.todo, _))

/-- The condition on a step: `handleClose` runs for a connection of which no event is
dispatched, or for which a closure of `close()` is queued. -/
def ClosesIdle (s : TcpServer) (op : ServerOp) : Prop :=
  ∀ d ∈ s.closing op, s.Dispatching d → d ∈ s.queue

instance (s : TcpServer) (op : ServerOp) : Decidable (s.ClosesIdle op) :=
  inferInstanceAs (Decidable (∀ _ ∈ _, _))

/-- The entry of a connection is in `connections_` and its removal is not under way. -/
def Held (s : TcpServer) (d : ℕ) : Prop :=
  s.connections (s.connName d) = some d ∧ Frame.conn d .rmConnCallback ∉ s.todo

/-- What every step keeps.  The names of the connections are formatted from their index,
`connections_` maps them back, and a registered connection is held there; a connection
with an event in dispatch is held there too, or by a queued closure. -/
structure Inv (s : TcpServer) : Prop where
  fresh : ∀ d, s.connIdx ≤ d → (s.conns d).registration = .fresh
  not_fresh : ∀ d, d < s.connIdx → (s.conns d).registration ≠ .fresh
  running : s.stopped = false → ∀ d, (s.conns d).aborted = false
  named : ∀ d, d < s.connIdx → ∃ addr, s.connName d = formatName s.name addr d
  entry : ∀ name d, s.connections name = some d → d < s.connIdx ∧ name = s.connName d
  frames : ∀ d k, Frame.conn d k ∈ s.todo → d < s.connIdx
  queued : ∀ d, d ∈ s.rest ∨ d ∈ s.queue → d < s.connIdx
  registered : ∀ d, (s.conns d).registration = .registered → s.Held d
  dispatched : ∀ d, s.Dispatching d → s.Held d ∨ d ∈ s.queue

theorem inv_init (asserts : Bool) (name : List Char) : Inv (init asserts name) where
  fresh := fun _ _ => rfl
  not_fresh := fun d hd => absurd hd (Nat.not_lt_zero d)
  running := fun _ _ => rfl
  named := fun d hd => absurd hd (Nat.not_lt_zero d)
  entry := fun _ _ h => by cases h
  frames := fun _ _ h => by cases h
  queued := fun _ h => by rcases h with h | h <;> cases h
  registered := fun _ h => by cases h
  dispatched := fun d h => by
    obtain ⟨f, hf, -⟩ := h
    cases hf

/-- Two connections with the same name are the same. -/
theorem Inv.connName_inj {s : TcpServer} (h : Inv s) {d e : ℕ} (hd : d < s.connIdx)
    (he : e < s.connIdx) (hde : s.connName d = s.connName e) : d = e := by
  obtain ⟨addr, hd⟩ := h.named d hd
  obtain ⟨addr', he⟩ := h.named e he
  rw [hd, he] at hde
  exact formatName_inj hde

/-- The invariant says that no connection loses its last owner too early. -/
theorem Inv.kept {s : TcpServer} (h : Inv s) : s.Kept := by
  intro f hf d hd
  rcases h.dispatched d ⟨f, hf, hd⟩ with ⟨hentry, -⟩ | hqueue
  · rw [owners, if_pos hentry]
    omega
  · have hcount := List.count_pos_iff.mpr hqueue
    rw [owners]
    omega

/-! ## The code of one connection -/

/-- What the code of the connection `d` does to the server, seen from its registration:
it keeps it and starts no removal, or it is `handleClose`. -/
structure Resumes (s : TcpServer) (d : ℕ) (l : LoopThread) : Prop where
  registration : (l.conn.registration = (s.conns d).registration ∧ .rmConnCallback ∉ l.todo) ∨
    (l.conn.registration = .removed ∧ (s.Dispatching d → d ∈ s.queue))
  event : ∀ k ∈ l.todo, k.isEvent = true → s.Dispatching d

/-- The pieces of code after a resumption. -/
theorem mem_todo_resume {s : TcpServer} {d : ℕ} {l : LoopThread} {rest : List Frame}
    {f : Frame} (hf : f ∈ (s.resume d l rest).todo) :
    (∃ k ∈ l.todo, f = .conn d k) ∨ f ∈ rest := by
  rw [resume, List.mem_append, List.mem_map] at hf
  exact hf.imp_left fun ⟨k, hk, hfk⟩ => ⟨k, hk, hfk.symm⟩

theorem conns_resume_self (s : TcpServer) (d : ℕ) (l : LoopThread) (rest : List Frame) :
    (s.resume d l rest).conns d = l.conn := Function.update_self ..

theorem conns_resume_of_ne (s : TcpServer) {d e : ℕ} (h : e ≠ d) (l : LoopThread)
    (rest : List Frame) : (s.resume d l rest).conns e = s.conns e := Function.update_of_ne h ..

/-- A connection stays held when another one's code runs, or its own without a removal. -/
theorem Held.resume {s : TcpServer} {d e : ℕ} {l : LoopThread} {rest : List Frame}
    (h : s.Held e) (hrest : ∀ f ∈ rest, f ∈ s.todo)
    (hrm : e = d → .rmConnCallback ∉ l.todo) : (s.resume d l rest).Held e := by
  refine ⟨h.1, fun hmem => ?_⟩
  rcases mem_todo_resume hmem with ⟨k, hk, hfk⟩ | hmem
  · injection hfk with hed hkr
    subst hkr
    exact hrm hed hk
  · exact h.2 (hrest _ hmem)

/-- Running the code of a connection keeps the invariant. -/
theorem Inv.resume {s : TcpServer} {d : ℕ} {l : LoopThread} (rest : List Frame) (h : Inv s)
    (hd : d < s.connIdx) (hrun : s.stopped = false) (hrest : ∀ f ∈ rest, f ∈ s.todo)
    (hl : s.Resumes d l) : Inv (s.resume d l rest) where
  fresh := fun e he => by
    have hed : e ≠ d := fun hed => absurd hd (not_lt.mpr (hed ▸ he))
    rw [conns_resume_of_ne s hed]
    exact h.fresh e he
  not_fresh := fun e he => by
    by_cases hed : e = d
    · subst hed
      rw [conns_resume_self]
      rcases hl.registration with ⟨hreg, -⟩ | ⟨hreg, -⟩
      · rw [hreg]
        exact h.not_fresh e he
      · rw [hreg]
        decide
    · rw [conns_resume_of_ne s hed]
      exact h.not_fresh e he
  running := fun hstop e => by
    have hconn : l.conn.aborted = false := (Bool.or_eq_false_iff.mp hstop).2
    by_cases hed : e = d
    · subst hed
      rw [conns_resume_self, hconn]
    · rw [conns_resume_of_ne s hed]
      exact h.running hrun e
  named := h.named
  entry := h.entry
  frames := fun e k hmem => by
    rcases mem_todo_resume hmem with ⟨k', -, hfk⟩ | hmem
    · injection hfk with hed
      exact hed ▸ hd
    · exact h.frames e k (hrest _ hmem)
  queued := h.queued
  registered := fun e he => by
    by_cases hed : e = d
    · subst hed
      rw [conns_resume_self] at he
      rcases hl.registration with ⟨hreg, hrm⟩ | ⟨hreg, -⟩
      · exact (h.registered e (hreg ▸ he)).resume hrest fun _ => hrm
      · rw [hreg] at he
        cases he
    · rw [conns_resume_of_ne s hed] at he
      exact (h.registered e he).resume hrest fun h' => absurd h' hed
  dispatched := fun e he => by
    have hold : s.Dispatching e := by
      obtain ⟨f, hf, hfe⟩ := he
      rcases mem_todo_resume hf with ⟨k, hk, rfl⟩ | hf
      · by_cases hev : k.isEvent = true
        · rw [Frame.event, if_pos hev, Option.some.injEq] at hfe
          exact hfe ▸ hl.event k hk hev
        · rw [Frame.event, if_neg hev] at hfe
          cases hfe
      · exact ⟨f, hrest f hf, hfe⟩
    rcases h.dispatched e hold with hheld | hqueue
    · by_cases hed : e = d
      · subst hed
        rcases hl.registration with ⟨-, hrm⟩ | ⟨-, hclose⟩
        · exact Or.inl (hheld.resume hrest fun _ => hrm)
        · -- `handleClose` under way: the condition leaves a queued closure
          exact Or.inr (hclose hold)
      · exact Or.inl (hheld.resume hrest fun h' => absurd h' hed)
    · exact Or.inr hqueue

/-- `handleClose`, from an event or from a closure. -/
theorem resumes_handleClose {s : TcpServer} (h : Inv s) (hrun : s.stopped = false) {d : ℕ}
    (hd : d < s.connIdx) (hok : s.Dispatching d → d ∈ s.queue) {c : TcpConnection}
    (hreg : c.registration = (s.conns d).registration)
    (hab : c.aborted = (s.conns d).aborted) {rest : List Todo}
    (hrest : ∀ k ∈ rest, k.isEvent = false) :
    s.Resumes d (LoopThread.handleClose c rest) := by
  have hfresh : c.registration ≠ .fresh := by
    rw [hreg]
    exact h.not_fresh d hd
  obtain ⟨hgone, -⟩ := LoopThread.gone_handleClose hfresh (hab.trans (h.running hrun d)) rest
  refine ⟨Or.inr ⟨hgone.registration, hok⟩, fun k hk hev => ?_⟩
  rw [LoopThread.handleClose, List.mem_cons, List.mem_cons] at hk
  rcases hk with rfl | rfl | hk
  · cases hev
  · cases hev
  · rw [hrest k hk] at hev
    cases hev

/-- The next piece of code of a connection, when it is not the removal from the server. -/
theorem resumes_of_ran {s : TcpServer} (h : Inv s) (hrun : s.stopped = false) {d : ℕ}
    (hd : d < s.connIdx) {k : Todo} (hk : k ≠ .rmConnCallback) {rest : List Frame}
    (htodo : s.todo = .conn d k :: rest) {n : ℤ} {r : WriteResult} {l : LoopThread}
    (hran : LoopThread.Ran ⟨s.conns d, [k]⟩ n r l) (hok : s.ClosesIdle (.proceed n r)) :
    s.Resumes d l := by
  cases hran with
  | closed k' rest' htodo' hk' hnext =>
      obtain ⟨rfl, rfl⟩ := List.cons.inj htodo'
      refine resumes_handleClose h hrun hd (hok d ?_) rfl rfl (by simp)
      rw [closing, htodo]
      exact if_pos hnext
  | removed rest' htodo' hnext => exact absurd (List.cons.inj htodo').1 hk
  | quiet k' rest' pre c htodo' hk' hpre hevent hc hnext =>
      obtain ⟨rfl, rfl⟩ := List.cons.inj htodo'
      refine ⟨Or.inl ⟨?_, by rw [List.append_nil]; exact hpre⟩, fun j hj hev => ?_⟩
      · exact (TcpConnection.sameLife_quiet (h.not_fresh d hd) hc).registration
      · rw [List.append_nil] at hj
        refine ⟨.conn d k, by rw [htodo]; exact List.mem_cons_self, ?_⟩
        rw [Frame.event, if_pos (hevent j hj hev)]

/-- A call of user code that leaves the registration alone. -/
theorem Inv.setConn {s : TcpServer} {d : ℕ} {c : TcpConnection} (h : Inv s)
    (hd : d < s.connIdx) (hrun : s.stopped = false)
    (hreg : c.registration = (s.conns d).registration) : Inv (s.setConn d c) :=
  h.resume (l := ⟨c, []⟩) s.todo hd hrun (fun _ => id)
    ⟨Or.inl ⟨hreg, List.not_mem_nil⟩, fun _ hk => absurd hk List.not_mem_nil⟩

/-! ## The server's own code -/

section NewConnection

variable {s : TcpServer} (fd : ℤ) (addr : List Char)

theorem conns_newConnection_self :
    (s.newConnection fd addr).conns s.connIdx = TcpConnection.established s.asserts fd :=
  Function.update_self ..

theorem conns_newConnection_of_ne {d : ℕ} (hd : d ≠ s.connIdx) :
    (s.newConnection fd addr).conns d = s.conns d := Function.update_of_ne hd ..

theorem connName_newConnection_self :
    (s.newConnection fd addr).connName s.connIdx = formatName s.name addr s.connIdx :=
  Function.update_self ..

theorem connName_newConnection_of_ne {d : ℕ} (hd : d ≠ s.connIdx) :
    (s.newConnection fd addr).connName d = s.connName d := Function.update_of_ne hd ..

theorem connections_newConnection (name : List Char) :
    (s.newConnection fd addr).connections name =
      if name = formatName s.name addr s.connIdx then some s.connIdx else s.connections name :=
  Function.update_apply ..

/-- The code that is still to run for the connections. -/
theorem mem_todo_newConnection {d : ℕ} {k : Todo}
    (hmem : Frame.conn d k ∈ (s.newConnection fd addr).todo) :
    (d = s.connIdx ∧ k = .userCode) ∨ Frame.conn d k ∈ s.todo := by
  rcases List.mem_cons.mp hmem with hf | hmem
  · injection hf with hd hk
    exact Or.inl ⟨hd, hk⟩
  · exact Or.inr ((List.mem_cons.mp hmem).resolve_left (by simp))

theorem Dispatching.of_newConnection {d : ℕ} (h : (s.newConnection fd addr).Dispatching d) :
    s.Dispatching d := by
  obtain ⟨f, hf, hfd⟩ := h
  rcases List.mem_cons.mp hf with rfl | hf
  · cases hfd
  · rcases List.mem_cons.mp hf with rfl | hf
    · cases hfd
    · exact ⟨f, hf, hfd⟩

/-- The new name is none of those in use. -/
theorem Inv.connName_ne (h : Inv s) {d : ℕ} (hd : d < s.connIdx) :
    s.connName d ≠ formatName s.name addr s.connIdx := by
  intro hdn
  obtain ⟨addr', hd'⟩ := h.named d hd
  exact hd.ne (formatName_inj (hd'.symm.trans hdn))

/-- The connections that were held still are. -/
theorem Held.newConnection (h : Inv s) {d : ℕ} (hheld : s.Held d) :
    (s.newConnection fd addr).Held d := by
  have hd : d < s.connIdx := (h.entry _ d hheld.1).1
  refine ⟨?_, fun hmem => ?_⟩
  · rw [connName_newConnection_of_ne fd addr hd.ne, connections_newConnection,
      if_neg (h.connName_ne addr hd)]
    exact hheld.1
  · rcases mem_todo_newConnection fd addr hmem with ⟨-, hk⟩ | hmem
    · cases hk
    · exact hheld.2 hmem

/-- The new connection is held. -/
theorem held_newConnection (h : Inv s) : (s.newConnection fd addr).Held s.connIdx := by
  refine ⟨?_, fun hmem => ?_⟩
  · rw [connName_newConnection_self, connections_newConnection, if_pos rfl]
  · rcases mem_todo_newConnection fd addr hmem with ⟨-, hk⟩ | hmem
    · cases hk
    · exact absurd (h.frames _ _ hmem) (lt_irrefl _)

/-- A new connection gets a name of its own. -/
theorem Inv.newConnection (h : Inv s) (hrun : s.stopped = false) :
    Inv (s.newConnection fd addr) where
  fresh := fun d hd => by
    have hdlt : s.connIdx < d := hd
    rw [conns_newConnection_of_ne fd addr hdlt.ne']
    exact h.fresh d hdlt.le
  not_fresh := fun d hd => by
    by_cases hdi : d = s.connIdx
    · rw [hdi, conns_newConnection_self, TcpConnection.established_eq]
      simp
    · rw [conns_newConnection_of_ne fd addr hdi]
      exact h.not_fresh d (lt_of_le_of_ne (Nat.lt_succ_iff.mp hd) hdi)
  running := fun _ d => by
    by_cases hdi : d = s.connIdx
    · rw [hdi, conns_newConnection_self, TcpConnection.established_eq]
    · rw [conns_newConnection_of_ne fd addr hdi]
      exact h.running hrun d
  named := fun d hd => by
    by_cases hdi : d = s.connIdx
    · exact ⟨addr, by rw [hdi, connName_newConnection_self]; rfl⟩
    · rw [connName_newConnection_of_ne fd addr hdi]
      exact h.named d (lt_of_le_of_ne (Nat.lt_succ_iff.mp hd) hdi)
  entry := fun name d hentry => by
    rw [connections_newConnection] at hentry
    split at hentry
    · rename_i hn
      obtain rfl := Option.some.inj hentry
      exact ⟨Nat.lt_succ_self _, by rw [hn, connName_newConnection_self]⟩
    · obtain ⟨hd, hdn⟩ := h.entry name d hentry
      exact ⟨Nat.lt_succ_of_lt hd, by rw [connName_newConnection_of_ne fd addr hd.ne]; exact hdn⟩
  frames := fun d k hmem => by
    rcases mem_todo_newConnection fd addr hmem with ⟨hd, -⟩ | hmem
    · exact hd ▸ Nat.lt_succ_self _
    · exact Nat.lt_succ_of_lt (h.frames d k hmem)
  queued := fun d hd => Nat.lt_succ_of_lt (h.queued d hd)
  registered := fun d hd => by
    by_cases hdi : d = s.connIdx
    · rw [hdi]
      exact held_newConnection fd addr h
    · rw [conns_newConnection_of_ne fd addr hdi] at hd
      exact (h.registered d hd).newConnection fd addr h
  dispatched := fun d hd =>
    (h.dispatched d (hd.of_newConnection fd addr)).imp_left fun hheld =>
      hheld.newConnection fd addr h

end NewConnection

/-- The removal of a connection from `connections_` leaves the entries of all others. -/
theorem Inv.removeConn {s : TcpServer} (h : Inv s) {d : ℕ} {rest : List Frame}
    (hd : d < s.connIdx) (hrun : s.stopped = false)
    (htodo : s.todo = .conn d .rmConnCallback :: rest) {l : LoopThread}
    (hl : l = ⟨(s.conns d).emit .rmConnCallback, []⟩) :
    Inv ((s.resume d l rest).removeConn d) := by
  have hrest : ∀ f ∈ rest, f ∈ s.todo := fun f hf => by
    rw [htodo]
    exact List.mem_cons_of_mem _ hf
  have hres : s.Resumes d l := by
    subst hl
    exact ⟨Or.inl ⟨rfl, List.not_mem_nil⟩, fun k hk => absurd hk List.not_mem_nil⟩
  have hinv := h.resume rest hd hrun hrest hres
  have hheld : ∀ e, e ≠ d → (s.resume d l rest).Held e →
      ((s.resume d l rest).removeConn d).Held e := by
    intro e hed he
    refine ⟨?_, he.2⟩
    show Function.update s.connections (s.connName d) none (s.connName e) = some e
    rw [Function.update_of_ne]
    · exact he.1
    · exact fun hname => hed (h.connName_inj (h.entry _ e he.1).1 hd hname)
  -- the removal of `d` was under way, so the invariant did not count on its entry
  have hnot : ¬ s.Held d := fun hd => hd.2 (by rw [htodo]; exact List.mem_cons_self)
  refine ⟨hinv.fresh, hinv.not_fresh, fun hstop => hinv.running (Bool.or_eq_false_iff.mp hstop).1,
    hinv.named, fun name e he => ?_, hinv.frames, hinv.queued, fun e he => ?_, ?_⟩
  · replace he : Function.update s.connections (s.connName d) none name = some e := he
    by_cases hn : name = s.connName d
    · rw [hn, Function.update_self] at he
      cases he
    · rw [Function.update_of_ne hn] at he
      exact h.entry name e he
  · refine hheld e ?_ (hinv.registered e he)
    rintro rfl
    refine hnot (h.registered e ?_)
    replace he : ((s.resume e l rest).conns e).registration = .registered := he
    rw [conns_resume_self, hl] at he
    exact he
  · rintro e ⟨f, hf, hfe⟩
    have hold : s.Dispatching e := by
      subst hl
      exact ⟨f, hrest f hf, hfe⟩
    rcases h.dispatched e hold with he | hqueue
    · refine Or.inl (hheld e ?_ (he.resume hrest fun _ => by rw [hl]; exact List.not_mem_nil))
      rintro rfl
      exact hnot he
    · exact Or.inr hqueue

/-- The events that the poller writes change no registration. -/
theorem setRevents_frame (s : TcpServer) (reports : List (ℕ × BitVec 32)) (d : ℕ) :
    (s.setRevents reports d).registration = (s.conns d).registration ∧
      (s.setRevents reports d).aborted = (s.conns d).aborted := by
  rw [setRevents]
  refine List.foldlRecOn
    (motive := fun (conns : ℕ → TcpConnection) =>
      (conns d).registration = (s.conns d).registration ∧ (conns d).aborted = (s.conns d).aborted)
    reports _ ⟨rfl, rfl⟩ fun conns hconns p _ => ?_
  by_cases hd : d = p.1
  · subst hd
    rw [Function.update_self]
    exact hconns
  · rw [Function.update_of_ne hd]
    exact hconns

/-- The channels that are reported belong to connections that are held. -/
theorem Inv.poll {s : TcpServer} (h : Inv s) {reports : List (ℕ × BitVec 32)}
    (hrun : s.stopped = false) (hrep : s.Reported reports) :
    Inv { s with
      conns := s.setRevents reports
      todo := reports.map fun p => .conn p.1 .handleEvent
      phase := .handling } := by
  have hframe := setRevents_frame s reports
  have hmem : ∀ f, f ∈ reports.map (fun p => Frame.conn p.1 .handleEvent) →
      ∃ p ∈ reports, f = .conn p.1 .handleEvent := by
    intro f hf
    obtain ⟨p, hp, hpf⟩ := List.mem_map.mp hf
    exact ⟨p, hp, hpf.symm⟩
  have hheld : ∀ d, (s.conns d).registration = .registered →
      s.connections (s.connName d) = some d ∧
        Frame.conn d .rmConnCallback ∉ reports.map fun p => Frame.conn p.1 .handleEvent := by
    intro d hd
    refine ⟨(h.registered d hd).1, fun hf => ?_⟩
    obtain ⟨p, -, hp⟩ := hmem _ hf
    injection hp with _ hk
    cases hk
  refine ⟨fun d hd => ?_, fun d hd => ?_, fun _ d => ?_, h.named, h.entry, fun d k hf => ?_,
    h.queued, fun d hd => ?_, ?_⟩
  · exact (hframe d).1.trans (h.fresh d hd)
  · rw [(hframe d).1]
    exact h.not_fresh d hd
  · exact (hframe d).2.trans (h.running hrun d)
  · obtain ⟨p, hp, hpf⟩ := hmem _ hf
    injection hpf with hd
    exact hd ▸ (hrep.2 p hp).1
  · exact hheld d ((hframe d).1.symm.trans hd)
  · rintro d ⟨f, hf, hfd⟩
    obtain ⟨p, hp, rfl⟩ := hmem f hf
    obtain rfl : p.1 = d := Option.some.inj hfd
    exact Or.inl (hheld p.1 (hrep.2 p hp).2)

/-- The loop goes on, with nothing new to run, and no queued closure of a connection in
dispatch is taken out of the queue. -/
theorem Inv.reschedule {s : TcpServer} (h : Inv s) {todo : List Frame} {phase : Phase}
    {queue functions rest : List ℕ} (htodo : ∀ f ∈ todo, f ∈ s.todo)
    (hqueued : ∀ d, d ∈ rest ∨ d ∈ queue → d < s.connIdx)
    (hkeep : ∀ f ∈ todo, ∀ d ∈ f.event, d ∈ s.queue → d ∈ queue) :
    Inv { s with
      todo := todo, phase := phase, queue := queue, functions := functions, rest := rest } := by
  have hheld : ∀ d, s.Held d → s.connections (s.connName d) = some d ∧
      Frame.conn d .rmConnCallback ∉ todo :=
    fun d hd => ⟨hd.1, fun hmem => hd.2 (htodo _ hmem)⟩
  refine ⟨h.fresh, h.not_fresh, h.running, h.named, h.entry,
    fun d k hf => h.frames d k (htodo _ hf), hqueued, fun d hd => hheld d (h.registered d hd), ?_⟩
  rintro d ⟨f, hf, hfd⟩
  exact (h.dispatched d ⟨f, htodo f hf, hfd⟩).imp (hheld d) (hkeep f hf d hfd)

/-! ## Runs -/

/-- The next piece of code keeps the invariant when it meets the condition. -/
theorem inv_proceed {s t : TcpServer} (h : Inv s) (hrun : s.stopped = false) {n : ℤ}
    {r : WriteResult} (hok : s.ClosesIdle (.proceed n r)) (hstep : s.proceed n r = some t) :
    Inv t := by
  rw [proceed] at hstep
  split at hstep
  · cases hstep
  · rename_i d rest htodo
    obtain rfl := Option.some.inj hstep
    have hrest : ∀ f ∈ rest, f ∈ s.todo := fun f hf => by
      rw [htodo]
      exact List.mem_cons_of_mem _ hf
    exact h.reschedule hrest h.queued fun _ _ _ _ => id
  · rename_i d rest htodo
    obtain ⟨l, hl, rfl⟩ := Option.map_eq_some_iff.mp hstep
    have hd : d < s.connIdx := h.frames d .rmConnCallback (by rw [htodo]; exact List.mem_cons_self)
    exact h.removeConn hd hrun htodo (Option.some.inj hl).symm
  · rename_i d k rest hk htodo
    obtain ⟨l, hl, rfl⟩ := Option.map_eq_some_iff.mp hstep
    have hd : d < s.connIdx := h.frames d k (by rw [htodo]; exact List.mem_cons_self)
    have hran := LoopThread.ran_of_proceed (s := ⟨s.conns d, [k]⟩) hl
    refine h.resume _ hd hrun (fun f hf => ?_) (resumes_of_ran h hrun hd hk htodo hran hok)
    rw [htodo]
    exact List.mem_cons_of_mem _ hf

/-- Every step that meets the condition keeps the invariant. -/
theorem inv_step {s t : TcpServer} {op : ServerOp} (h : Inv s) (hok : s.ClosesIdle op)
    (hstep : s.step op = some t) : Inv t := by
  unfold step at hstep
  split at hstep
  · cases hstep
  · rename_i hrun
    replace hrun : s.stopped = false := by simpa using hrun
    cases op with
    | accept fd addr =>
        simp only [Option.ite_none_right_eq_some, Option.some.injEq] at hstep
        obtain ⟨-, rfl⟩ := hstep
        exact h.newConnection fd addr hrun
    | poll reports =>
        simp only [Option.ite_none_right_eq_some, Option.some.injEq] at hstep
        obtain ⟨⟨-, -, hrep⟩, rfl⟩ := hstep
        exact h.poll hrun hrep
    | proceed n r => exact inv_proceed h hrun hok hstep
    | send d msg r =>
        simp only [Option.ite_none_right_eq_some, Option.some.injEq] at hstep
        obtain ⟨⟨-, hd⟩, rfl⟩ := hstep
        exact h.setConn hd hrun (TcpConnection.sameLife_send (h.not_fresh d hd) msg r).registration
    | shutdown d =>
        simp only [Option.ite_none_right_eq_some, Option.some.injEq] at hstep
        obtain ⟨⟨-, hd⟩, rfl⟩ := hstep
        refine h.setConn hd hrun ?_
        rw [TcpConnection.shutdown]
        split
        · rfl
        · exact TcpConnection.sameLife_shutdownTask.registration
    | close d =>
        simp only [Option.ite_none_right_eq_some, Option.some.injEq] at hstep
        obtain ⟨⟨-, hd⟩, rfl⟩ := hstep
        have hres : s.Resumes d (LoopThread.close (s.conns d) []) :=
          resumes_handleClose h hrun hd (hok d rfl) (c := (s.conns d).setState .disconnecting)
            rfl rfl (by simp [Todo.isEvent])
        exact h.resume _ hd hrun (fun _ => id) hres
    | pushClose d =>
        simp only [Option.ite_none_right_eq_some, Option.some.injEq] at hstep
        obtain ⟨hd, rfl⟩ := hstep
        have hinv := h.setConn (c := (s.conns d).setState .disconnecting) hd hrun rfl
        refine hinv.reschedule (fun _ => id) (fun e he => ?_)
          fun _ _ _ _ hq => List.mem_append_left _ hq
        rcases he with he | he
        · exact hinv.queued e (Or.inl he)
        · rcases List.mem_append.mp he with he | he
          · exact hinv.queued e (Or.inr he)
          · rw [List.mem_singleton.mp he]
            exact hd
    | swap =>
        simp only [Option.ite_none_right_eq_some, Option.some.injEq] at hstep
        obtain ⟨⟨-, htodo⟩, rfl⟩ := hstep
        refine h.reschedule (fun _ => id) (fun e he => ?_) fun f hf => ?_
        · exact h.queued e (Or.inr (he.resolve_right List.not_mem_nil))
        · -- the closures leave the queue when no event is being dispatched
          rw [htodo] at hf
          cases hf
    | call =>
        simp only at hstep
        split at hstep
        · rename_i d rest hphase htodo hrest
          obtain rfl := Option.some.inj hstep
          have hd : d < s.connIdx := h.queued d (Or.inl (by rw [hrest]; exact List.mem_cons_self))
          have hidle : ¬ s.Dispatching d := by
            rintro ⟨f, hf, -⟩
            rw [htodo] at hf
            cases hf
          have hres : s.Resumes d (LoopThread.closeTask (s.conns d) []) :=
            resumes_handleClose h hrun hd (fun hdisp => absurd hdisp hidle) rfl rfl
              (by simp [Todo.isEvent])
          have hinv := h.resume [] hd hrun (fun f hf => by cases hf) hres
          refine hinv.reschedule (fun _ => id) (fun e he => h.queued e ?_) fun _ _ _ _ => id
          rw [hrest]
          exact he.imp_left (List.mem_cons_of_mem d)
        · cases hstep
    | functionsDone =>
        simp only [Option.ite_none_right_eq_some, Option.some.injEq] at hstep
        obtain ⟨-, rfl⟩ := hstep
        exact h.reschedule (fun _ => id) h.queued fun _ _ _ _ => id

/-- In a run in which `handleClose` only runs for connections of which no event is being
dispatched, or for which a closure of `close()` is queued, every connection has an owner
until the dispatch of its event is over. -/
theorem kept_of_closesIdle (asserts : Bool) (name : List Char) (ops : List ServerOp)
    (h : Runs.AllSteps step ClosesIdle (init asserts name) ops) :
    Runs.Along step Kept (init asserts name) ops :=
  (Runs.Along.of_steps (fun _ _ _ hs hok hstep => inv_step hs hok hstep)
    (inv_init asserts name) h).mono fun _ hs => hs.kept

/-- Two connections; the second is closed by user code before a poll reports the first. -/
theorem kept_two_connections :
    Runs.Along step Kept (init true "echo".toList)
      [.accept 7 "127.0.0.1:80".toList, .proceed 0 .failed, .proceed 0 .failed,
        .accept 8 "127.0.0.1:80".toList, .proceed 0 .failed, .proceed 0 .failed, .close 1,
        .proceed 0 .failed, .proceed 0 .failed, .proceed 0 .failed, .swap, .functionsDone,
        .poll [(0, pollIn)], .proceed 0 .failed, .proceed 0 .failed] :=
  kept_of_closesIdle true _ _ (by decide)

/-- The peer hangs up: after `rmConnCallback_` the connection has no owner, and three
tests of `handleEvent` are still to be made. -/
theorem not_kept_hangUp :
    ¬ Runs.Along step Kept (init true "echo".toList)
      [.accept 7 "127.0.0.1:80".toList, .proceed 0 .failed, .proceed 0 .failed, .swap,
        .functionsDone, .poll [(0, pollHup)], .proceed 0 .failed, .proceed 0 .failed,
        .proceed 0 .failed, .proceed 0 .failed] := by
  decide

end TcpServer

end Lotta
