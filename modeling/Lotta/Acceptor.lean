/-
# The acceptor when descriptors run out

`handleAccept` keeps a descriptor of `/dev/null` in reserve.  When there is no descriptor for a
waiting connection, it closes the reserve, accepts the connection into the place that this has
made, closes it, and opens the reserve again.

`accept` fails with `EMFILE` when the table of the process is full and with `ENFILE` when that of
the system is.  The code does so for `ENFILE` only.  A full table of the process is the usual
case, and in it the connection stays in the backlog.

A table has a limit, and a new descriptor is the lowest free one.  What other threads do between
the calls is arbitrary, except that they leave the reserve alone; during a call they take no
descriptors, but they may give some back, and connections may arrive.
-/
import Lotta.Lib.Runs
import Mathlib.Logic.Function.Basic

namespace Lotta

/-! ## Descriptors -/

/-- What a descriptor of the process refers to: the reserve of the acceptor, a connection that
was just accepted, or something else. -/
inductive File (κ : Type*) where
  | reserve
  | conn (c : κ)
  | other
  deriving DecidableEq, Repr

/-- Why `accept` fails. -/
inductive AcceptErrno where
  | emfile
  | enfile
  | eagain
  deriving DecidableEq, Repr

/-- `Acceptor` in its process: `idleFd_`, whether `connCallback_` is set, the table of the
process with its limit, the number of places that are free in the table of the system, and the
connections, waiting, handed to `connCallback_`, and accepted and closed. -/
structure Acceptor (κ : Type*) where
  idleFd : ℕ
  connCallback : Bool
  limit : ℕ
  file : ℕ → Option (File κ)
  sysFree : ℕ
  backlog : List κ
  handed : List κ
  closed : List κ

/-- What other threads do while a call is running: the descriptors of theirs that they close,
the places that become free in the system, and the connections that arrive. -/
structure Others (κ : Type*) where
  released : ℕ → Bool
  sysReleased : ℕ
  arrivals : List κ

namespace Acceptor

variable {κ : Type*}

/-- The lowest free descriptor. -/
def lowestFree (a : Acceptor κ) : Option ℕ :=
  (List.range a.limit).find? fun fd => (a.file fd).isNone

/-- The descriptor `fd` refers to `f` from now on. -/
def setFile (a : Acceptor κ) (fd : ℕ) (f : Option (File κ)) : Acceptor κ :=
  { a with file := Function.update a.file fd f }

/-- `accept4`; `systemFirst` says which table is looked at first when both are full. -/
def accept (systemFirst : Bool) (a : Acceptor κ) : Except AcceptErrno ℕ × Acceptor κ :=
  if a.sysFree = 0 ∧ (systemFirst = true ∨ a.lowestFree ≠ none) then (.error .enfile, a)
  else
    match a.lowestFree, a.backlog with
    | none, _ => (.error .emfile, a)
    | some _, [] => (.error .eagain, a)
    | some fd, c :: rest =>
        (.ok fd, { a.setFile fd (some (.conn c)) with sysFree := a.sysFree - 1, backlog := rest })

/-- `socket::close(fd)`; `none` is -1. -/
def close (a : Acceptor κ) : Option ℕ → Acceptor κ
  | none => a
  | some fd =>
      match a.file fd with
      | none => a
      | some (.conn c) =>
          { a.setFile fd none with sysFree := a.sysFree + 1, closed := a.closed ++ [c] }
      | some _ => { a.setFile fd none with sysFree := a.sysFree + 1 }

/-- `idleFd_ = socket::open("/dev/null")` with the assertion that it succeeds. -/
def openIdle (a : Acceptor κ) : Option (Acceptor κ) :=
  match a.lowestFree with
  | none => none
  | some fd =>
      if a.sysFree = 0 then none
      else some { a.setFile fd (some .reserve) with sysFree := a.sysFree - 1, idleFd := fd }

/-- `connCallback_(fd, peerAddr)`: the connection is the server's from now on. -/
def handOver (a : Acceptor κ) (fd : ℕ) : Acceptor κ :=
  match a.file fd with
  | some (.conn c) => { a.setFile fd (some .other) with handed := a.handed ++ [c] }
  | _ => a

/-- What others do between two system calls of the acceptor. -/
def meanwhile (a : Acceptor κ) (o : Others κ) : Acceptor κ :=
  { a with
    file := fun fd =>
      match a.file fd with
      | some .other => if o.released fd then none else some .other
      | f => f
    sysFree := a.sysFree + o.sysReleased
    backlog := a.backlog ++ o.arrivals }

/-- `handleAccept`; the others act before the second `accept`, the second `close` and `open`. -/
def handleAccept (systemFirst : Bool) (o : ℕ → Others κ) (a : Acceptor κ) :
    Option (Acceptor κ) :=
  match a.accept systemFirst with
  | (.ok fd, a) => some (if a.connCallback then a.handOver fd else a.close (some fd))
  | (.error .enfile, a) =>
      let p := ((a.close (some a.idleFd)).meanwhile (o 0)).accept systemFirst
      (((p.2.meanwhile (o 1)).close p.1.toOption).meanwhile (o 2)).openIdle
  | (.error _, a) => some a

/-- The constructor, in a process that has the descriptors `taken`. -/
def create (limit : ℕ) (taken : ℕ → Bool) (sysFree : ℕ) (connCallback : Bool) :
    Option (Acceptor κ) :=
  openIdle
    { idleFd := 0, connCallback := connCallback, limit := limit
      file := fun fd => if taken fd then some .other else none
      sysFree := sysFree, backlog := [], handed := [], closed := [] }

/-- What happens to an acceptor. -/
inductive Op (κ : Type*) where
  | between (taken : ℕ → Bool) (sysFree : ℕ) (arrivals : List κ) (connCallback : Bool)
  | call (o : ℕ → Others κ)

/-- One step: between two calls the tables change in any way, but for the reserve. -/
def step (systemFirst : Bool) (a : Acceptor κ) : Op κ → Option (Acceptor κ)
  | .between taken sysFree arrivals connCallback =>
      some { a with
        connCallback := connCallback
        file := fun fd =>
          if fd = a.idleFd then a.file fd else if taken fd then some .other else none
        sysFree := sysFree
        backlog := a.backlog ++ arrivals }
  | .call o => a.handleAccept systemFirst o

/-! ## What a call is to do -/

/-- `idleFd_` is an open descriptor, and the one in reserve. -/
structure Reserved (a : Acceptor κ) : Prop where
  idle : a.file a.idleFd = some .reserve
  idle_lt : a.idleFd < a.limit

/-- The first waiting connection has been taken off the backlog: handed over, or closed. -/
def Taken (a b : Acceptor κ) : Prop :=
  ∃ c rest arrived, a.backlog = c :: rest ∧ b.backlog = rest ++ arrived ∧
    (b.handed = a.handed ++ [c] ∧ b.closed = a.closed ∨
      b.handed = a.handed ∧ b.closed = a.closed ++ [c])

/-- A call passes its assertion, takes a connection if one waits, and keeps the reserve. -/
def Serves (systemFirst : Bool) (a : Acceptor κ) (o : ℕ → Others κ) : Prop :=
  ∃ b, a.handleAccept systemFirst o = some b ∧ (a.backlog ≠ [] → Taken a b) ∧ b.Reserved

/-- The table of the process is full, and a full table of the system does not come first. -/
def AtLimit (systemFirst : Bool) (a : Acceptor κ) : Prop :=
  (∀ fd < a.limit, a.file fd ≠ none) ∧ (a.sysFree = 0 → systemFirst = false)

/-! ## The table -/

section Table

variable {a b : Acceptor κ}

theorem lowestFree_eq_none_iff : a.lowestFree = none ↔ ∀ fd < a.limit, a.file fd ≠ none := by
  simp [lowestFree]

theorem free_of_lowestFree {fd : ℕ} (h : a.lowestFree = some fd) :
    fd < a.limit ∧ a.file fd = none :=
  ⟨List.mem_range.mp (List.mem_of_find?_eq_some h), by simpa using List.find?_some h⟩

/-- Where there is room, there is a lowest free descriptor. -/
theorem exists_lowestFree {fd : ℕ} (hlt : fd < a.limit) (hfree : a.file fd = none) :
    ∃ low, a.lowestFree = some low := by
  rw [← Option.ne_none_iff_exists']
  exact fun hnone => lowestFree_eq_none_iff.mp hnone fd hlt hfree

@[simp] theorem file_setFile (a : Acceptor κ) (fd : ℕ) (f : Option (File κ)) :
    (a.setFile fd f).file fd = f := Function.update_self ..

theorem file_setFile_of_ne {fd fd' : ℕ} (h : fd' ≠ fd) (a : Acceptor κ) (f : Option (File κ)) :
    (a.setFile fd f).file fd' = a.file fd' := Function.update_of_ne h ..

/-- Room for a descriptor in both tables. -/
def Room (a : Acceptor κ) : Prop := (∃ fd < a.limit, a.file fd = none) ∧ 0 < a.sysFree

/-- What opening the reserve leaves is a descriptor in reserve. -/
theorem reserved_of_openIdle (h : a.openIdle = some b) : b.Reserved := by
  unfold openIdle at h
  split at h
  · cases h
  · rename_i fd hlow
    rw [Option.ite_none_left_eq_some] at h
    obtain rfl := Option.some.inj h.2
    exact ⟨file_setFile a fd _, (free_of_lowestFree hlow).1⟩

/-- With room in both tables the reserve is opened. -/
theorem openIdle_of_room (h : a.Room) :
    ∃ b, a.openIdle = some b ∧ b.Reserved ∧ b.backlog = a.backlog ∧ b.handed = a.handed ∧
      b.closed = a.closed := by
  obtain ⟨⟨fd, hlt, hfree⟩, hsys⟩ := h
  obtain ⟨low, hlow⟩ := exists_lowestFree hlt hfree
  have hopen : a.openIdle = some { a.setFile low (some .reserve) with
      sysFree := a.sysFree - 1, idleFd := low } := by
    rw [openIdle, hlow]
    exact if_neg (Nat.ne_of_gt hsys)
  exact ⟨_, hopen, reserved_of_openIdle hopen, rfl, rfl, rfl⟩

/-- The others keep the room. -/
theorem Room.meanwhile (h : a.Room) (o : Others κ) : (a.meanwhile o).Room := by
  obtain ⟨⟨fd, hlt, hfree⟩, hsys⟩ := h
  refine ⟨⟨fd, hlt, ?_⟩, Nat.lt_of_lt_of_le hsys (Nat.le_add_right _ _)⟩
  simp only [Acceptor.meanwhile, hfree]

theorem file_meanwhile_conn {fd : ℕ} {c : κ} (h : a.file fd = some (.conn c)) (o : Others κ) :
    (a.meanwhile o).file fd = some (.conn c) := by
  simp only [meanwhile, h]

/-! ## One call -/

/-- The ways in which `accept` ends. -/
inductive Accepted (systemFirst : Bool) (a : Acceptor κ) :
    Except AcceptErrno ℕ × Acceptor κ → Prop where
  | enfile (hsys : a.sysFree = 0) (hnot : ¬ a.AtLimit systemFirst) :
      Accepted systemFirst a (.error .enfile, a)
  | emfile (hlimit : a.AtLimit systemFirst) : Accepted systemFirst a (.error .emfile, a)
  | eagain (hnone : a.backlog = []) (hroom : a.Room) : Accepted systemFirst a (.error .eagain, a)
  | ok {fd : ℕ} {c : κ} {rest : List κ} (hlt : fd < a.limit) (hfree : a.file fd = none)
      (hwaits : a.backlog = c :: rest) :
      Accepted systemFirst a
        (.ok fd, { a.setFile fd (some (.conn c)) with sysFree := a.sysFree - 1, backlog := rest })

theorem accepted (systemFirst : Bool) (a : Acceptor κ) :
    Accepted systemFirst a (a.accept systemFirst) := by
  unfold accept
  split
  · rename_i h
    refine .enfile h.1 fun hlimit => ?_
    rcases h.2 with hfirst | hroom
    · rw [hlimit.2 h.1] at hfirst
      cases hfirst
    · exact hroom (lowestFree_eq_none_iff.mpr hlimit.1)
  · rename_i h
    split
    · rename_i hlow
      refine .emfile ⟨lowestFree_eq_none_iff.mp hlow, fun hsys => ?_⟩
      cases systemFirst with
      | false => rfl
      | true => exact absurd ⟨hsys, Or.inl rfl⟩ h
    · rename_i hlow hnone
      obtain ⟨hlt, hfree⟩ := free_of_lowestFree hlow
      refine .eagain hnone ⟨⟨_, hlt, hfree⟩, Nat.pos_of_ne_zero fun hsys => h ⟨hsys, Or.inr ?_⟩⟩
      rw [hlow]
      exact Option.some_ne_none _
    · rename_i hlow hwaits
      obtain ⟨hlt, hfree⟩ := free_of_lowestFree hlow
      exact .ok hlt hfree hwaits

theorem close_conn {fd : ℕ} {c : κ} (h : a.file fd = some (.conn c)) :
    a.close (some fd) =
      { a.setFile fd none with sysFree := a.sysFree + 1, closed := a.closed ++ [c] } := by
  simp only [close, h]

theorem close_reserve {fd : ℕ} (h : a.file fd = some .reserve) :
    a.close (some fd) = { a.setFile fd none with sysFree := a.sysFree + 1 } := by
  simp only [close, h]

theorem handOver_conn {fd : ℕ} {c : κ} (h : a.file fd = some (.conn c)) :
    a.handOver fd = { a.setFile fd (some .other) with handed := a.handed ++ [c] } := by
  simp only [handOver, h]

/-- A free descriptor is not the reserve. -/
theorem Reserved.ne_of_free (h : a.Reserved) {fd : ℕ} (hfree : a.file fd = none) :
    a.idleFd ≠ fd := by
  rintro rfl
  rw [h.idle] at hfree
  cases hfree

theorem Reserved.setFile (h : a.Reserved) {fd : ℕ} (hne : a.idleFd ≠ fd) (f : Option (File κ)) :
    (a.setFile fd f).Reserved :=
  ⟨(file_setFile_of_ne hne a f).trans h.idle, h.idle_lt⟩

/-- The connection that was accepted is handed over or closed. -/
theorem deliver (h : a.Reserved) {fd : ℕ} {c : κ} {rest : List κ} (hfree : a.file fd = none)
    (hwaits : a.backlog = c :: rest)
    (hb : b = { a.setFile fd (some (.conn c)) with sysFree := a.sysFree - 1, backlog := rest }) :
    Taken a (if b.connCallback then b.handOver fd else b.close (some fd)) ∧
      (if b.connCallback then b.handOver fd else b.close (some fd)).Reserved := by
  have hne := h.ne_of_free hfree
  obtain ⟨hconn, hreserved, hidle, hbacklog, hhanded, hclosed⟩ :
      b.file fd = some (.conn c) ∧ b.Reserved ∧ b.idleFd = a.idleFd ∧ b.backlog = rest ∧
        b.handed = a.handed ∧ b.closed = a.closed := by
    have hset := h.setFile hne (some (.conn c))
    subst hb
    exact ⟨file_setFile a fd _, ⟨hset.idle, hset.idle_lt⟩, rfl, rfl, rfl, rfl⟩
  have hleft : b.backlog = rest ++ [] := by rw [hbacklog, List.append_nil]
  have hkept := hreserved.setFile (hidle ▸ hne)
  split
  · rw [handOver_conn hconn]
    refine ⟨⟨c, rest, [], hwaits, hleft, Or.inl ⟨?_, hclosed⟩⟩, ?_, hreserved.idle_lt⟩
    · exact congrArg (· ++ [c]) hhanded
    · exact (hkept _).idle
  · rw [close_conn hconn]
    refine ⟨⟨c, rest, [], hwaits, hleft, Or.inr ⟨hhanded, ?_⟩⟩, ?_, hreserved.idle_lt⟩
    · exact congrArg (· ++ [c]) hclosed
    · exact (hkept _).idle

/-- The reserve gives a waiting connection its place, and is opened again behind it. -/
theorem serves_reserve (systemFirst : Bool) (h : a.Reserved) (o : ℕ → Others κ) :
    let p := ((a.close (some a.idleFd)).meanwhile (o 0)).accept systemFirst
    ∃ b, (((p.2.meanwhile (o 1)).close p.1.toOption).meanwhile (o 2)).openIdle = some b ∧
      (a.backlog ≠ [] → Taken a b) ∧ b.Reserved := by
  obtain ⟨x, hx, hroom, hbacklog, hhanded, hclosed⟩ :
      ∃ x, (a.close (some a.idleFd)).meanwhile (o 0) = x ∧ x.Room ∧
        x.backlog = a.backlog ++ (o 0).arrivals ∧ x.handed = a.handed ∧ x.closed = a.closed := by
    refine ⟨_, rfl, Room.meanwhile ?_ _, ?_⟩
    · rw [close_reserve h.idle]
      exact ⟨⟨a.idleFd, h.idle_lt, file_setFile a _ none⟩, Nat.succ_pos _⟩
    · rw [close_reserve h.idle]
      exact ⟨rfl, rfl, rfl⟩
  rw [hx]
  have hacc := accepted systemFirst x
  generalize x.accept systemFirst = p at hacc
  cases hacc with
  | enfile hsys => exact absurd hsys (Nat.ne_of_gt hroom.2)
  | emfile hlimit =>
      obtain ⟨fd, hlt, hfree⟩ := hroom.1
      exact absurd hfree (hlimit.1 fd hlt)
  | eagain hnone =>
      -- nothing waits: the second `close` gets -1
      obtain ⟨b, hopen, hreserved, -⟩ :=
        openIdle_of_room ((hroom.meanwhile (o 1)).meanwhile (o 2))
      refine ⟨b, hopen, fun hwaits => absurd ?_ hwaits, hreserved⟩
      rw [hnone] at hbacklog
      exact (List.append_eq_nil_iff.mp hbacklog.symm).1
  | @ok fd c rest hlt hfree hwaits =>
      obtain ⟨y, hy, hconn, hlimit, hyb, hyh, hyc⟩ :
          ∃ y, meanwhile { x.setFile fd (some (.conn c)) with
              sysFree := x.sysFree - 1, backlog := rest } (o 1) = y ∧
            y.file fd = some (.conn c) ∧ y.limit = x.limit ∧
            y.backlog = rest ++ (o 1).arrivals ∧ y.handed = x.handed ∧ y.closed = x.closed :=
        ⟨_, rfl, file_meanwhile_conn (file_setFile x fd _) _, rfl, rfl, rfl, rfl⟩
      have hplace : (y.close (some fd)).Room := by
        rw [close_conn hconn]
        exact ⟨⟨fd, hlimit ▸ hlt, file_setFile y fd none⟩, Nat.succ_pos _⟩
      obtain ⟨b, hopen, hreserved, hbb, hbh, hbc⟩ := openIdle_of_room (hplace.meanwhile (o 2))
      simp only [hy]
      refine ⟨b, hopen, fun hne => ?_, hreserved⟩
      obtain ⟨c', rest', heq⟩ := List.exists_cons_of_ne_nil hne
      rw [heq, hwaits, List.cons_append, List.cons.injEq] at hbacklog
      obtain ⟨rfl, hrest⟩ := hbacklog
      rw [close_conn hconn] at hbb hbh hbc
      refine ⟨c, rest', (o 0).arrivals ++ (o 1).arrivals ++ (o 2).arrivals, heq, ?_,
        Or.inr ⟨?_, ?_⟩⟩
      · rw [hbb]
        show y.backlog ++ (o 2).arrivals = _
        rw [hyb, hrest]
        simp only [List.append_assoc]
      · exact hbh.trans (hyh.trans hhanded)
      · rw [hbc, ← hclosed, ← hyc]
        rfl

theorem not_taken_self (a : Acceptor κ) : ¬ Taken a a := by
  rintro ⟨c, rest, arrived, -, -, ⟨hhanded, -⟩ | ⟨-, hclosed⟩⟩
  · simp at hhanded
  · simp at hclosed

/-- Every call keeps the reserve, and takes a waiting connection unless the table of the process
is full. -/
theorem handled (systemFirst : Bool) (h : a.Reserved) (o : ℕ → Others κ) :
    ∃ b, a.handleAccept systemFirst o = some b ∧ b.Reserved ∧
      (a.backlog ≠ [] → (Taken a b ↔ ¬ a.AtLimit systemFirst)) := by
  have hacc := accepted systemFirst a
  unfold handleAccept
  generalize a.accept systemFirst = p at hacc
  cases hacc with
  | enfile hsys hnot =>
      obtain ⟨b, hb, htaken, hreserved⟩ := serves_reserve systemFirst h o
      exact ⟨b, hb, hreserved, fun hwaits => iff_of_true (htaken hwaits) hnot⟩
  | emfile hlimit =>
      exact ⟨a, rfl, h, fun _ => iff_of_false (not_taken_self a) (not_not.mpr hlimit)⟩
  | eagain hnone => exact ⟨a, rfl, h, fun hwaits => absurd hnone hwaits⟩
  | ok hlt hfree hwaits =>
      obtain ⟨htaken, hreserved⟩ := deliver h hfree hwaits rfl
      exact ⟨_, rfl, hreserved, fun _ => iff_of_true htaken fun hlimit => hlimit.1 _ hlt hfree⟩

/-- A call serves unless a connection waits and the table of the process is full. -/
theorem serves_iff (systemFirst : Bool) (h : a.Reserved) (o : ℕ → Others κ) :
    a.Serves systemFirst o ↔ ¬ (a.backlog ≠ [] ∧ a.AtLimit systemFirst) := by
  obtain ⟨b, hb, hreserved, htaken⟩ := handled systemFirst h o
  constructor
  · rintro ⟨b', hb', hserves, -⟩ ⟨hwaits, hlimit⟩
    obtain rfl := Option.some.inj (hb.symm.trans hb')
    exact (htaken hwaits).mp (hserves hwaits) hlimit
  · intro hnot
    exact ⟨b, hb, fun hwaits => (htaken hwaits).mpr fun hlimit => hnot ⟨hwaits, hlimit⟩, hreserved⟩

end Table

/-! ## Runs -/

theorem reserved_step {systemFirst : Bool} {a b : Acceptor κ} {op : Op κ} (h : a.Reserved)
    (hstep : a.step systemFirst op = some b) : b.Reserved := by
  cases op with
  | between taken sysFree arrivals connCallback =>
      obtain rfl := Option.some.inj hstep
      exact ⟨(if_pos rfl).trans h.idle, h.idle_lt⟩
  | call o =>
      obtain ⟨b', hb', hreserved, -⟩ := handled systemFirst h o
      obtain rfl := Option.some.inj (hb'.symm.trans hstep)
      exact hreserved

/-- In every state of every run, a call takes a waiting connection and keeps the reserve exactly
when no connection waits or there is room in the table of the process, or `accept` looks at the
table of the system first and that is full as well. -/
theorem run_serves_iff {systemFirst : Bool} {limit : ℕ} {taken : ℕ → Bool} {sysFree : ℕ}
    {connCallback : Bool} {a : Acceptor κ}
    (h : create limit taken sysFree connCallback = some a) (ops : List (Op κ)) :
    Runs.Along (step systemFirst)
      (fun a => ∀ o, a.Serves systemFirst o ↔ ¬ (a.backlog ≠ [] ∧ a.AtLimit systemFirst)) a ops :=
  (Runs.Along.of_invariant (fun _ _ _ ha hstep => reserved_step ha hstep)
    (reserved_of_openIdle h)).mono fun _ ha o => serves_iff systemFirst ha o

/-- An acceptor in a process that may have five descriptors and had three before it. -/
def fourOfFive : Acceptor ℕ :=
  { idleFd := 3, connCallback := true, limit := 5
    file := Function.update (fun fd => if decide (fd < 3) then some .other else none) 3
      (some .reserve)
    sysFree := 9, backlog := [], handed := [], closed := [] }

/-- It accepts a connection into the reserve when the system has no place left. -/
theorem run_serves_fourOfFive :
    Runs.Along (step false)
      (fun a => ∀ o, a.Serves false o ↔ ¬ (a.backlog ≠ [] ∧ a.AtLimit false)) fourOfFive
      [.between (fun fd => decide (fd < 3)) 0 [7] true, .call fun _ => ⟨fun _ => false, 0, []⟩] :=
  run_serves_iff (show create 5 (fun fd => decide (fd < 3)) 10 true = some fourOfFive from rfl) _

/-- The descriptors of the process run out, and a connection waits: it is not taken. -/
theorem not_serves_full :
    ¬ Runs.Along (step false) (fun a => ∀ o, a.Serves false o) fourOfFive
      [.between (fun fd => decide (fd < 5)) 9 [7] true] := by
  intro h
  obtain ⟨b, hb, htaken, -⟩ := h.final rfl fun _ => ⟨fun _ => false, 0, []⟩
  obtain rfl := Option.some.inj hb
  obtain ⟨c, rest, arrived, -, -, ⟨hhanded, -⟩ | ⟨-, hclosed⟩⟩ := htaken (List.cons_ne_nil _ _)
  · cases hhanded
  · cases hclosed

end Acceptor

end Lotta
