/-
# Short and failed reads

`readFrom` grows the storage by the number of bytes that `FIONREAD` has counted, reads into the
new room and asserts that the read has filled it.  The branch for an error comes behind the
assertion, and nothing takes back the room that the read has not filled.  So a short or a
failed read never leaves the buffer as it should: with assertions it does not return, and
without them zero bytes stay behind the content.

`ReadStream` reads from a socket that behaves; here the read may answer with any count up to
the number of bytes asked for, or with `-1`.  So may a read on a descriptor that `close()` has
given up: `ioctl` fails there and leaves `n` as it is, unless the number is another socket's by
then.  A negative `n`, for which `resize` has no meaning, is left out.
-/
import Lotta.ReadStream

namespace Lotta

/-- The answer of a read of `n` bytes: it delivers some of them, or it fails. -/
inductive ReadAnswer (n : ℕ) where
  | delivered (bytes : List UInt8) (h : bytes.length ≤ n)
  | failed

namespace ReadAnswer

variable {n : ℕ}

/-- The bytes that the read has delivered. -/
def bytes : ReadAnswer n → List UInt8
  | .delivered bytes _ => bytes
  | .failed => []

/-- The value that `socket::read` returns. -/
def returned : ReadAnswer n → ℤ
  | .delivered bytes _ => bytes.length
  | .failed => -1

theorem length_bytes_le (r : ReadAnswer n) : r.bytes.length ≤ n := by
  cases r with
  | delivered bytes h => exact h
  | failed => exact Nat.zero_le n

end ReadAnswer

/-- What a socket that holds the bytes `unread` answers. -/
def ReadResult.answer (r : ReadResult) (unread : List UInt8) : ReadAnswer unread.length :=
  match r with
  | .received _ => .delivered (unread.take (r.count unread.length)) (List.length_take_le' _ _)
  | .failed => if unread.length = 0 then .delivered [] (Nat.zero_le _) else .failed

namespace Buffer

/-- `readFrom`, when `FIONREAD` counts `n` bytes and the read of them answers `r`.  The room
that the read does not fill holds zero bytes; `none` when the assertion fails. -/
def readFromFd (asserts : Bool) (b : Buffer) (n : ℕ) (r : ReadAnswer n) (slack : ℕ) :
    Option (ℤ × Buffer) :=
  let b := b.makeSpace n
  let filled := r.bytes ++ List.replicate (n - r.bytes.length) 0
  if asserts && r.returned != n then none
  else some (r.returned, { b with data := b.data.insertEnd filled slack })

/-- `readFrom` on a descriptor that is not that of the connection any more: `FIONREAD` leaves
some `n`, and nothing is taken from the bytes `unread` of the connection. -/
def readGivenUp (b : Buffer) (unread : List UInt8) {n : ℕ} (r : ReadAnswer n) (slack : ℕ) :
    ReadOutcome :=
  let (ret, inBuf) := (b.readFromFd false n r slack).getD (r.returned, b)
  ⟨ret, inBuf, r.bytes, unread, ret == n⟩

/-- A read from a socket that behaves is one of these. -/
theorem readFromFd_answer (b : Buffer) (unread : List UInt8) (r : ReadResult) (slack : ℕ) :
    b.readFromFd false unread.length (r.answer unread) slack =
      some (b.readFrom unread r slack) := by
  rw [readFromFd, Bool.false_and, if_neg Bool.false_ne_true, readFrom]
  cases r with
  | received k =>
      have hcount : (ReadResult.received k).count unread.length ≤ unread.length :=
        Nat.min_le_right _ _
      simp [ReadResult.answer, ReadAnswer.bytes, ReadAnswer.returned, ReadResult.returned,
        Nat.min_eq_left hcount]
  | failed =>
      by_cases hn : unread.length = 0 <;>
        simp [ReadResult.answer, ReadAnswer.bytes, ReadAnswer.returned, ReadResult.returned,
          ReadResult.count, hn]

/-- `readFrom` returns, and has put exactly the bytes that were delivered behind the content. -/
def ReadExact (asserts : Bool) (b : Buffer) (n : ℕ) (r : ReadAnswer n) (slack : ℕ) : Prop :=
  ∃ b', b.readFromFd asserts n r slack = some (r.returned, b') ∧
    b'.content = b.content ++ r.bytes

/-- The storage grows as by an append of the bytes delivered and of zero bytes. -/
theorem readFromFd_eq_append (b : Buffer) {n : ℕ} {asserts : Bool} {r : ReadAnswer n}
    (h : asserts = true → r.returned = n) (slack : ℕ) :
    b.readFromFd asserts n r slack = some (r.returned,
      b.append (r.bytes ++ List.replicate (n - r.bytes.length) 0) slack) := by
  have hlen : (r.bytes ++ List.replicate (n - r.bytes.length) 0).length = n := by
    have hle := r.length_bytes_le
    rw [List.length_append, List.length_replicate]
    omega
  have hpass : ¬ (asserts && r.returned != n) = true := by
    rw [Bool.and_eq_true, bne_iff_ne]
    exact fun hfail => hfail.2 (h hfail.1)
  rw [readFromFd, append, hlen]
  exact if_neg hpass

/-- The content after a read is exact when all the room is filled and `makeSpace` has brought
no consumed bytes back. -/
theorem content_read_iff {b : Buffer} (h : b.Wf) {n : ℕ} (r : ReadAnswer n) (slack : ℕ) :
    (b.append (r.bytes ++ List.replicate (n - r.bytes.length) 0) slack).content =
        b.content ++ r.bytes ↔
      r.bytes.length = n ∧ ¬ b.DrainedFull := by
  have hle := r.length_bytes_le
  rw [content_append h, content_makeSpace]
  constructor
  · intro heq
    have hlen := congrArg List.length heq
    simp only [List.length_append, List.length_replicate] at hlen
    by_cases hd : b.DrainedFull
    · -- the consumed bytes alone make it too long
      have hpos : 0 < b.data.data.length := List.length_pos_of_ne_nil hd.1
      rw [if_pos hd, length_content, hd.2.1] at hlen
      omega
    · rw [if_neg hd, length_content] at hlen
      exact ⟨by omega, hd⟩
  · rintro ⟨hall, hd⟩
    rw [if_neg hd, hall, Nat.sub_self, List.replicate_zero, List.append_nil]

/-- A read leaves the buffer exact when it delivers every byte that was counted, and the
buffer was not drained and full; with assertions it must also return that count. -/
theorem readExact_iff (asserts : Bool) {b : Buffer} (h : b.Wf) (n : ℕ) (r : ReadAnswer n)
    (slack : ℕ) :
    b.ReadExact asserts n r slack ↔
      r.bytes.length = n ∧ (asserts = true → r.returned = n) ∧ ¬ b.DrainedFull := by
  by_cases hpass : asserts = true → r.returned = n
  · rw [ReadExact, readFromFd_eq_append b hpass slack]
    simp only [Option.some.injEq, Prod.mk.injEq, true_and, exists_eq_left', content_read_iff h]
    exact ⟨fun ⟨hall, hd⟩ => ⟨hall, hpass, hd⟩, fun ⟨hall, _, hd⟩ => ⟨hall, hd⟩⟩
  · refine iff_of_false ?_ fun hok => hpass hok.2.1
    rintro ⟨b', hread, -⟩
    rw [Classical.not_imp] at hpass
    have hfail : (asserts && r.returned != n) = true := by
      rw [Bool.and_eq_true, bne_iff_ne]
      exact hpass
    rw [readFromFd, if_pos hfail] at hread
    cases hread

/-- What a read from a socket that behaves leaves in the buffer. -/
theorem readFrom_eq_append (b : Buffer) (unread : List UInt8) (r : ReadResult) (slack : ℕ) :
    (b.readFrom unread r slack).2 = b.append ((r.answer unread).bytes ++
      List.replicate (unread.length - (r.answer unread).bytes.length) 0) slack := by
  have hread := readFromFd_answer b unread r slack
  rw [readFromFd_eq_append b (fun h => by cases h), Option.some.injEq] at hread
  exact congrArg Prod.snd hread.symm

/-- The content after it is exact when the read fills its room and no consumed bytes come
back. -/
theorem content_readFrom_iff {b : Buffer} (h : b.Wf) (unread : List UInt8) (r : ReadResult)
    (slack : ℕ) :
    (b.readFrom unread r slack).2.content = b.content ++ unread.take (r.count unread.length) ↔
      r.count unread.length = unread.length ∧ ¬ b.DrainedFull := by
  have hbytes : (r.answer unread).bytes = unread.take (r.count unread.length) := by
    cases r with
    | received k => rfl
    | failed =>
        by_cases hn : unread.length = 0
        · simp [ReadResult.answer, ReadAnswer.bytes, ReadResult.count, hn]
        · simp [ReadResult.answer, ReadAnswer.bytes, ReadResult.count, hn]
  have hle : r.count unread.length ≤ unread.length := by
    cases r with
    | received k => exact Nat.min_le_right _ _
    | failed => exact Nat.zero_le _
  rw [readFrom_eq_append, ← hbytes, content_read_iff h, hbytes, List.length_take,
    Nat.min_eq_left hle]

theorem wf_readFrom {b : Buffer} (h : b.Wf) (unread : List UInt8) (r : ReadResult) (slack : ℕ) :
    (b.readFrom unread r slack).2.Wf := by
  rw [readFrom_eq_append]
  exact wf_append h _ slack

theorem wf_readGivenUp {b : Buffer} (h : b.Wf) (unread : List UInt8) {n : ℕ} (r : ReadAnswer n)
    (slack : ℕ) : (b.readGivenUp unread r slack).inBuf.Wf := by
  unfold readGivenUp
  rw [readFromFd_eq_append b (fun h => by cases h)]
  exact wf_append h _ slack

/-- Two bytes are counted and read. -/
theorem readExact_two : (init 16).ReadExact true 2 (.delivered [1, 2] (by decide)) 14 :=
  (readExact_iff true (wf_init 16) 2 _ 14).mpr ⟨rfl, fun _ => rfl, by decide⟩

/-- Of two bytes counted one is delivered: with assertions `readFrom` does not return, and
without them a zero byte is left behind the other. -/
theorem not_readExact_short :
    ¬ (init 16).ReadExact true 2 (.delivered [1] (by decide)) 14 ∧
      ¬ (init 16).ReadExact false 2 (.delivered [1] (by decide)) 14 := by
  constructor
  · rintro ⟨b', hread, -⟩
    cases hread
  · rintro ⟨b', hread, hcontent⟩
    have hstored : b'.content = [1, 0] :=
      (congrArg (fun p => p.2.content) (Option.some.inj hread)).symm
    rw [hstored] at hcontent
    exact absurd hcontent (by decide)

end Buffer

end Lotta
