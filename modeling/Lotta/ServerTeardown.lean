/-
# Destroying a server

`~TcpServer` goes through `connections_` with a range-based `for` and has `handleClose`
executed for every connection: at once where the connection lives on the loop of the
destroying thread, else by a push to its own loop.

Executed at once, `handleClose` ends with `removeConn`, which erases the entry that the
iterator of the loop stands at.  To advance from it is undefined, so with thread number zero
`~TcpServer` does what it should for an empty map only (`tearsDown_iff`).  On other loops
nothing is erased meanwhile, and the loop visits every connection once
(`destroy_elsewhere`).
-/
import Lotta.ConnTable

namespace Lotta

/-- A server during its destruction.  `connections` are the connections in `connections_`,
in the order of their names, which are the keys.  `closed` are the calls of `handleClose`
and `pushed` the closures that were pushed to other loops. -/
structure ServerTeardown (name : ℕ → List Char) where
  asserts : Bool
  connections : List ℕ
  sorted : connections.Pairwise fun d e => name d < name e
  conns : ℕ → TcpConnection
  closed : List ℕ
  pushed : List ℕ
  stopped : Bool

namespace ServerTeardown

variable {name : ℕ → List Char}

/-- How the loop over `connections_` comes to its end: at `end()`, by an assertion that
fails, or by advancing from an element that has been erased. -/
inductive Outcome (name : ℕ → List Char) where
  | ended (s : ServerTeardown name)
  | aborted
  | undefined

/-- `connections_.begin()`. -/
def begin? (s : ServerTeardown name) : Option ℕ := s.connections.head?

/-- The element behind that of the connection `d`. -/
def next? (s : ServerTeardown name) (d : ℕ) : Option ℕ :=
  (s.connections.dropWhile fun e => e != d).tail.head?

/-- `removeConn`, with the assertion that an entry was erased. -/
def removeConn (s : ServerTeardown name) (d : ℕ) : ServerTeardown name :=
  { s with
    connections := s.connections.erase d
    sorted := s.sorted.sublist List.erase_sublist
    stopped := s.stopped || (s.asserts && !decide (d ∈ s.connections)) }

/-- `TcpConnection::handleClose`; `closeCallback` is code of the user. -/
def handleClose (closeCallback : ℕ → ServerTeardown name → ServerTeardown name)
    (s : ServerTeardown name) (d : ℕ) : ServerTeardown name :=
  let c := (s.conns d).handleClose
  let s := { s with
    conns := Function.update s.conns d c
    closed := s.closed ++ [d]
    stopped := s.stopped || c.aborted }
  if s.stopped then s
  else
    let s := closeCallback d s
    if s.stopped then s else s.removeConn d

/-- `pushQueue` on the loop of the connection. -/
def push (s : ServerTeardown name) (d : ℕ) : ServerTeardown name :=
  { s with pushed := s.pushed ++ [d] }

/-- The body of the loop: `exec`.  `here` are the connections on the loop of this thread. -/
def visit (here : ℕ → Bool) (closeCallback : ℕ → ServerTeardown name → ServerTeardown name)
    (s : ServerTeardown name) (d : ℕ) : ServerTeardown name :=
  if here d then s.handleClose closeCallback d else s.push d

/-- The loop from an iterator on. -/
def iterate (here : ℕ → Bool) (closeCallback : ℕ → ServerTeardown name → ServerTeardown name) :
    ℕ → Option ℕ → ServerTeardown name → Option (Outcome name)
  | _, none, s => some (.ended s)
  | 0, some _, _ => none
  | fuel + 1, some d, s =>
      let s := s.visit here closeCallback d
      if s.stopped then some .aborted
      -- the iterator stands at the element of `d`
      else if d ∈ s.connections then iterate here closeCallback fuel (s.next? d) s
      else some .undefined

/-- `~TcpServer`. -/
def destroy (here : ℕ → Bool) (closeCallback : ℕ → ServerTeardown name → ServerTeardown name)
    (fuel : ℕ) (s : ServerTeardown name) : Option (Outcome name) :=
  iterate here closeCallback fuel s.begin? s

/-! ## The map -/

/-- No two connections have the same name. -/
theorem nodup_names (s : ServerTeardown name) : (s.connections.map name).Nodup := by
  rw [List.Nodup, List.pairwise_map]
  exact s.sorted.imp fun {d e} hlt (heq : name d = name e) =>
    List.lt_irrefl (name e) (heq ▸ hlt)

theorem nodup_connections (s : ServerTeardown name) : s.connections.Nodup :=
  s.nodup_names.of_map

/-- Connections with one name are the same. -/
theorem eq_of_name (s : ServerTeardown name) {d e : ℕ} (hd : d ∈ s.connections)
    (he : e ∈ s.connections) (h : name d = name e) : d = e :=
  List.inj_on_of_nodup_map s.nodup_names hd he h

/-- `connections_` as a function of the names. -/
def table (s : ServerTeardown name) (key : List Char) : Option ℕ :=
  s.connections.find? fun d => name d == key

theorem table_eq_some_iff (s : ServerTeardown name) (key : List Char) (d : ℕ) :
    s.table key = some d ↔ d ∈ s.connections ∧ name d = key := by
  constructor
  · intro h
    exact ⟨List.mem_of_find?_eq_some h, by simpa using List.find?_some h⟩
  · rintro ⟨hmem, rfl⟩
    obtain ⟨e, he⟩ := Option.isSome_iff_exists.mp
      (List.find?_isSome (p := fun e => name e == name d).mpr ⟨d, hmem, beq_self_eq_true _⟩)
    have hname : name e = name d := by simpa using List.find?_some he
    obtain rfl : e = d := s.eq_of_name (List.mem_of_find?_eq_some he) hmem hname
    exact he

/-- On the map, `removeConn` is that of the table of connections. -/
theorem table_removeConn {s : ServerTeardown name} {d : ℕ} (hd : d ∈ s.connections) :
    (s.removeConn d).table = Function.update s.table (name d) none := by
  funext key
  apply Option.ext
  intro e
  rw [table_eq_some_iff, removeConn, s.nodup_connections.mem_erase_iff, Function.update_apply]
  split
  · rename_i hkey
    subst hkey
    refine iff_of_false ?_ (by simp)
    rintro ⟨⟨hne, he⟩, hname⟩
    exact hne (s.eq_of_name he hd hname)
  · rename_i hkey
    rw [table_eq_some_iff]
    refine and_congr_left fun hname => and_iff_right ?_
    rintro rfl
    exact hkey hname.symm

/-- The element behind another one in the map. -/
theorem next?_eq {s : ServerTeardown name} {d : ℕ} {pre post : List ℕ}
    (h : s.connections = pre ++ d :: post) : s.next? d = post.head? := by
  have hnodup := s.nodup_connections
  rw [h] at hnodup
  have hpre : ∀ e ∈ pre, (e != d) = true := by
    intro e he
    rw [bne_iff_ne]
    rintro rfl
    exact (List.nodup_append.mp hnodup).2.2 e he e List.mem_cons_self rfl
  rw [next?, h, List.dropWhile_append_of_pos hpre, List.dropWhile_cons_of_neg (by simp)]
  rfl

/-! ## Connections on other loops -/

/-- The loop pushes one closure for every connection that is still before it. -/
theorem iterate_elsewhere {here : ℕ → Bool}
    (closeCallback : ℕ → ServerTeardown name → ServerTeardown name) {post : List ℕ}
    (hhere : ∀ d ∈ post, here d = false) :
    ∀ {s : ServerTeardown name} {pre : List ℕ}, s.stopped = false → s.connections = pre ++ post →
      iterate here closeCallback post.length post.head? s =
        some (.ended { s with pushed := s.pushed ++ post }) := by
  induction post with
  | nil =>
      intro s pre _ _
      rw [List.append_nil]
      rfl
  | cons d post ih =>
      intro s pre hstopped hconnections
      have hmem : d ∈ s.connections := by
        rw [hconnections]
        exact List.mem_append_right pre List.mem_cons_self
      have hvisit : s.visit here closeCallback d = s.push d := by
        rw [visit, hhere d List.mem_cons_self]
        rfl
      have hnext : (s.push d).next? d = post.head? := next?_eq hconnections
      have hlive : ¬ (s.push d).stopped = true := by
        rw [push, hstopped]
        exact Bool.false_ne_true
      have hpre : (s.push d).connections = (pre ++ [d]) ++ post := by
        rw [push, hconnections, List.append_assoc]
        rfl
      rw [List.length_cons, List.head?_cons, iterate, hvisit]
      rw [if_neg hlive, if_pos (show d ∈ (s.push d).connections from hmem), hnext,
        ih (fun e he => hhere e (List.mem_cons_of_mem d he)) (Bool.eq_false_iff.mpr hlive) hpre]
      rw [push, List.append_assoc]
      rfl

/-- With every connection on another loop, `~TcpServer` pushes `handleClose` to each of them
once, and no entry is erased meanwhile. -/
theorem destroy_elsewhere {here : ℕ → Bool}
    (closeCallback : ℕ → ServerTeardown name → ServerTeardown name) {s : ServerTeardown name}
    (hhere : ∀ d ∈ s.connections, here d = false) (hstopped : s.stopped = false) :
    destroy here closeCallback s.connections.length s =
      some (.ended { s with pushed := s.pushed ++ s.connections }) := by
  have hconnections : s.connections = [] ++ s.connections := rfl
  exact iterate_elsewhere closeCallback hhere hstopped hconnections

/-! ## Connections on this loop -/

/-- `~TcpServer` closes every connection once and leaves none, and never advances from an
element that has been erased. -/
def TearsDown (here : ℕ → Bool)
    (closeCallback : ℕ → ServerTeardown name → ServerTeardown name)
    (s : ServerTeardown name) : Prop :=
  ∃ fuel t, destroy here closeCallback fuel s = some (.ended t) ∧ t.connections = [] ∧
    ∃ calls : List ℕ, t.closed = s.closed ++ calls ∧
      (∀ d ∈ s.connections, calls.count d = 1) ∧ ∀ d ∈ calls, d ∈ s.connections

/-- After `handleClose` the entry of the connection is gone, whatever the user's code does. -/
theorem handleClose_erases (closeCallback : ℕ → ServerTeardown name → ServerTeardown name)
    (s : ServerTeardown name) (d : ℕ) :
    (s.handleClose closeCallback d).stopped = true ∨
      d ∉ (s.handleClose closeCallback d).connections := by
  rw [handleClose]
  split
  · rename_i hstopped
    exact Or.inl hstopped
  · simp only
    split
    · rename_i hstopped
      exact Or.inl hstopped
    · exact Or.inr (nodup_connections _).not_mem_erase

/-- With thread number zero, `~TcpServer` does what it should exactly when there is no
connection. -/
theorem tearsDown_iff (here : ℕ → Bool)
    (closeCallback : ℕ → ServerTeardown name → ServerTeardown name) (s : ServerTeardown name)
    (hhere : ∀ d ∈ s.connections, here d = true) :
    s.TearsDown here closeCallback ↔ s.connections = [] := by
  constructor
  · rintro ⟨fuel, t, hended, -⟩
    cases hconnections : s.connections with
    | nil => rfl
    | cons d rest =>
        -- the first turn of the loop aborts or loses its iterator
        exfalso
        have hfirst : s.begin? = some d := by rw [begin?, hconnections]; rfl
        rw [destroy, hfirst] at hended
        cases fuel with
        | zero => cases hended
        | succ fuel =>
            have hvisit : s.visit here closeCallback d = s.handleClose closeCallback d := by
              rw [visit, hhere d (by rw [hconnections]; exact List.mem_cons_self)]
              rfl
            rw [iterate, hvisit] at hended
            rcases handleClose_erases closeCallback s d with hstopped | hgone
            · simp [hstopped] at hended
            · simp only [hgone, if_false] at hended
              split at hended
              · cases hended
              · cases hended
  · intro hnil
    refine ⟨0, s, ?_, hnil, [], by simp, by simp [hnil], by simp⟩
    rw [destroy, begin?, hnil]
    rfl

/-- A server with one connection that is established. -/
def oneConnection : ServerTeardown (TcpServer.formatName ['s'] ['a']) where
  asserts := true
  connections := [0]
  sorted := List.pairwise_singleton _ 0
  conns := fun _ => TcpConnection.established true 5
  closed := []
  pushed := []
  stopped := false

theorem tearsDown_oneConnection :
    oneConnection.TearsDown (fun _ => true) (fun _ s => s) ↔ [0] = [] :=
  tearsDown_iff (fun _ => true) (fun _ s => s) oneConnection fun _ _ => rfl

/-- The loop advances from the only element, which `removeConn` has erased. -/
theorem not_tearsDown_oneConnection :
    ¬ oneConnection.TearsDown (fun _ => true) (fun _ s => s) := by
  rintro ⟨fuel, t, hended, -⟩
  cases fuel with
  | zero => cases hended
  | succ fuel =>
      have hundefined : destroy (fun _ => true) (fun _ s => s) (fuel + 1) oneConnection =
          some .undefined := by
        rfl
      rw [hundefined] at hended
      cases hended

end ServerTeardown

end Lotta
