/-
# HTTP messages

`http::Request` and `http::Response` with their headers and the tables of names of
`state.h`.  A `std::string` is the list of its bytes.  A status is the `int` behind the
enumeration `Status`, since the code of an `HttpException` is cast to it unchecked.
-/
import Mathlib.Data.Nat.Digits.Defs
import Mathlib.Tactic.Common

namespace Lotta

namespace Http

/-! ## Strings and names -/

/-- The bytes of a string literal. -/
def ascii (s : String) : List UInt8 := s.toList.map fun c => UInt8.ofNat c.toNat

/-- `"\r\n"`. -/
def CRLF : List UInt8 := [13, 10]

/-- `" "`. -/
def SP : List UInt8 := [32]

/-- `": "`. -/
def COLON : List UInt8 := [58, 32]

/-- What `operator<<` writes for an `int`. -/
def decimal (n : ℤ) : List UInt8 :=
  let digits := (Nat.toDigits 10 n.natAbs).map fun c => UInt8.ofNat c.toNat
  if n < 0 then 45 :: digits else digits

/-- `Method`. -/
inductive Method where
  | options
  | get
  | head
  | post
  | put
  | delete
  | trace
  | connect
  deriving DecidableEq, Repr

/-- `Version`. -/
inductive Version where
  | v09
  | v10
  | v11
  | v20
  | v30
  deriving DecidableEq, Repr

/-- `MethodMsgs`. -/
def methodMsgs : Method → List UInt8
  | .options => ascii "OPTIONS"
  | .get => ascii "GET"
  | .head => ascii "HEAD"
  | .post => ascii "POST"
  | .put => ascii "PUT"
  | .delete => ascii "DELETE"
  | .trace => ascii "TRACE"
  | .connect => ascii "CONNECT"

/-- The number in a version. -/
def versionMsgs : Version → List UInt8
  | .v09 => ascii "0.9"
  | .v10 => ascii "1.0"
  | .v11 => ascii "1.1"
  | .v20 => ascii "2.0"
  | .v30 => ascii "3.0"

/-- `StatusMsgs`. -/
def statusMsgs (status : ℤ) : Option (List UInt8) :=
  if status = 200 then some (ascii "OK")
  else if status = 400 then some (ascii "Bad Request")
  else if status = 404 then some (ascii "Not Found")
  else none

/-- The methods in the order in which `readBuffer` compares with their names. -/
def methodChain : List (List UInt8 × Method) :=
  [(ascii "GET", .get), (ascii "POST", .post), (ascii "PUT", .put),
    (ascii "DELETE", .delete), (ascii "OPTIONS", .options), (ascii "HEAD", .head),
    (ascii "TRACE", .trace), (ascii "CONNECT", .connect)]

/-- The versions in the order in which `readBuffer` compares with their numbers. -/
def versionChain : List (List UInt8 × Version) :=
  [(ascii "0.9", .v09), (ascii "1.0", .v10), (ascii "1.1", .v11), (ascii "2.0", .v20),
    (ascii "3.0", .v30)]

/-- A chain of `if (slice == name) … else if …`. -/
def select {α : Type*} (chain : List (List UInt8 × α)) (eq : List UInt8 → Bool) : Option α :=
  (chain.find? fun p => eq p.1).map Prod.snd

theorem select_method (m : Method) : select methodChain (· == methodMsgs m) = some m := by
  cases m <;> decide

theorem select_version (v : Version) : select versionChain (· == versionMsgs v) = some v := by
  cases v <;> decide

/-- A chain selects only what stands in it under an equal name. -/
theorem mem_of_select {α : Type*} {chain : List (List UInt8 × α)} {name : List UInt8} {a : α}
    (h : select chain (· == name) = some a) : (name, a) ∈ chain := by
  rw [select, Option.map_eq_some_iff] at h
  obtain ⟨⟨key, b⟩, hfind, rfl⟩ := h
  have hkey : key = name := by simpa using List.find?_some hfind
  rw [← hkey]
  exact List.mem_of_find?_eq_some hfind

theorem eq_of_select_method {name : List UInt8} {m : Method}
    (h : select methodChain (· == name) = some m) : name = methodMsgs m := by
  have hall : ∀ p ∈ methodChain, p.1 = methodMsgs p.2 := by decide
  exact hall _ (mem_of_select h)

theorem eq_of_select_version {name : List UInt8} {v : Version}
    (h : select versionChain (· == name) = some v) : name = versionMsgs v := by
  have hall : ∀ p ∈ versionChain, p.1 = versionMsgs p.2 := by decide
  exact hall _ (mem_of_select h)

/-! ## Headers -/

/-- `Headers`: the pairs in the order in which they were appended. -/
abbrev Headers := List (List UInt8 × List UInt8)

namespace Headers

/-- `get`: the value of the first pair with the key, or the empty string. -/
def get (h : Headers) (key : List UInt8) : List UInt8 :=
  match h.find? fun p => p.1 == key with
  | some p => p.2
  | none => []

/-- `append`. -/
def append (h : Headers) (key val : List UInt8) : Headers := h ++ [(key, val)]

/-- `set`: overwrite the first pair with the key, or append one. -/
def set : Headers → List UInt8 → List UInt8 → Headers
  | [], key, val => append [] key val
  | p :: h, key, val => if p.1 == key then (p.1, val) :: h else p :: set h key val

theorem get_cons (p : List UInt8 × List UInt8) (h : Headers) (key : List UInt8) :
    get (p :: h) key = if p.1 = key then p.2 else get h key := by
  simp only [get, List.find?_cons]
  by_cases hp : p.1 = key
  · simp [hp]
  · rw [beq_false_of_ne hp, if_neg hp]

/-- What was set is read back; the other keys keep their values. -/
theorem get_set (h : Headers) (key val key' : List UInt8) :
    (h.set key val).get key' = if key' = key then val else h.get key' := by
  induction h with
  | nil =>
      rw [set, append, List.nil_append, get_cons]
      simp only [eq_comm]
  | cons p h ih =>
      rw [set]
      split
      · rename_i hp
        rw [beq_iff_eq] at hp
        rw [get_cons, get_cons]
        by_cases hkey : key' = key
        · simp [hp, hkey]
        · simp [hp, Ne.symm hkey, hkey]
      · rename_i hp
        rw [beq_iff_eq] at hp
        rw [get_cons, get_cons, ih]
        by_cases hkey : key' = key
        · simp [hkey, hp]
        · simp [hkey]

/-- A value that is read stands in the list, unless it is empty. -/
theorem mem_of_get {h : Headers} {key val : List UInt8} (hget : h.get key = val)
    (hval : val ≠ []) : (key, val) ∈ h := by
  induction h with
  | nil => exact absurd hget.symm hval
  | cons p h ih =>
      rw [get_cons] at hget
      split at hget
      · rename_i hp
        rw [← hp, ← hget]
        exact List.mem_cons_self
      · exact List.mem_cons_of_mem _ (ih hget)

end Headers

/-- A header as it stands in a message. -/
def headerLine (p : List UInt8 × List UInt8) : List UInt8 :=
  p.1 ++ (COLON ++ p.2) ++ CRLF

/-! ## Requests and responses -/

/-- `Request`, with the values that its constructor gives.  `query_` is never set. -/
structure Request where
  method : Method := .get
  version : Version := .v11
  path : List UInt8 := ascii "/"
  headers : Headers := []
  body : List UInt8 := []
  deriving DecidableEq, Repr

/-- `getHeader`. -/
def Request.getHeader (r : Request) (key : List UInt8) : List UInt8 := r.headers.get key

/-- `Response`, with the values that its constructor gives. -/
structure Response where
  status : ℤ := 200
  headers : Headers :=
    [(ascii "Connection", ascii "Keep-Alive"), (ascii "Content-Length", ascii "0")]
  body : List UInt8 := []
  deriving DecidableEq, Repr

namespace Response

/-- `setStatus`. -/
def setStatus (r : Response) (status : ℤ) : Response := { r with status := status }

/-- `setBody`. -/
def setBody (r : Response) (body : List UInt8) : Response :=
  { r with
    body := body
    headers := r.headers.set (ascii "Content-Length") (decimal body.length) }

/-- `toString`.  The text of a status that `StatusMsgs` does not hold is a null pointer:
writing it puts the stream into a failed state, which swallows the rest. -/
def toString (r : Response) : List UInt8 :=
  ascii "HTTP/1.1 " ++ (decimal r.status ++ (SP ++
    match statusMsgs r.status with
    | none => []
    | some msg => msg ++ (CRLF ++ (r.headers.flatMap headerLine ++ (CRLF ++ r.body)))))

/-- The announced length is that of the body. -/
def LengthAnnounced (r : Response) : Prop :=
  r.headers.get (ascii "Content-Length") = decimal r.body.length

/-- A response announces the length of its body from its construction on, and the two
setters keep it so. -/
theorem lengthAnnounced :
    LengthAnnounced {} ∧
    (∀ (r : Response) (status : ℤ), r.LengthAnnounced → (r.setStatus status).LengthAnnounced) ∧
    ∀ (r : Response) (body : List UInt8), (r.setBody body).LengthAnnounced := by
  refine ⟨by unfold LengthAnnounced; decide, fun _ _ h => h, fun r body => ?_⟩
  rw [LengthAnnounced, setBody, Headers.get_set, if_pos rfl]

end Response

end Http

end Lotta
