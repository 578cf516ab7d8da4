/-
# Integers in a buffer

`append<T>` swaps the bytes of an unsigned value on a little-endian host and appends the bytes
of the swapped value; `retrieve<T>` reads `sizeof(T)` bytes back into a value and swaps it
again.  So the bytes in the buffer are in network order on either host, and both functions are
inverse to each other.  The pointer cast of `append<T>` is taken as the view of the value's
bytes that it is meant to be.

A value has the type `T`, one of the unsigned types; the order of the host is a parameter.
-/
import Lotta.Lib.ByteOrder
import Lotta.Lib.Overwrite
import Lotta.BufferRevoke

namespace Lotta

/-! ## Unsigned values -/

/-- The unsigned types of the integer functions. -/
inductive UnsignedType where
  | u8
  | u16
  | u32
  | u64
  deriving DecidableEq, Repr

namespace UnsignedType

/-- `sizeof(T)`. -/
def size : UnsignedType → ℕ
  | u8 => 1
  | u16 => 2
  | u32 => 4
  | u64 => 8

/-- The values of the type. -/
abbrev Val (T : UnsignedType) := BitVec (8 * T.size)

/-- The bytes behind a pointer to a value. -/
def store (host : ByteOrder) (T : UnsignedType) (v : T.Val) : List UInt8 :=
  host.encode T.size v.toNat

/-- The value behind a pointer to its bytes. -/
def load (host : ByteOrder) (T : UnsignedType) (bs : List UInt8) : T.Val :=
  BitVec.ofNat _ (host.decode bs)

/-- The bytes of a value in network order. -/
def network (T : UnsignedType) (v : T.Val) : List UInt8 := ByteOrder.bigEndian T.size v.toNat

/-- `swapEndian(v)`, as it is compiled for a host.  The union `dest` is not initialised; the
loop assigns all its bytes. -/
def swapEndian (host : ByteOrder) (T : UnsignedType) (v : T.Val) : T.Val :=
  match host with
  | .big => v
  | .little =>
      let dest := List.replicate T.size 0
      load .little T (Overwrite.copyReverse (store .little T v) dest)

variable (host : ByteOrder) (T : UnsignedType)

@[simp] theorem length_store (v : T.Val) : (store host T v).length = T.size :=
  ByteOrder.length_encode host T.size v.toNat

@[simp] theorem length_network (v : T.Val) : (network T v).length = T.size :=
  ByteOrder.length_bigEndian T.size v.toNat

theorem two_pow_bits : 2 ^ (8 * T.size) = 256 ^ T.size := by
  rw [pow_mul]
  rfl

theorem load_store (v : T.Val) : load host T (store host T v) = v := by
  have hv : v.toNat < 256 ^ T.size := by
    rw [← two_pow_bits]
    exact v.isLt
  unfold load store
  rw [ByteOrder.decode_encode, Nat.mod_eq_of_lt hv, BitVec.ofNat_toNat, BitVec.setWidth_eq]

theorem store_load {bs : List UInt8} (h : bs.length = T.size) :
    store host T (load host T bs) = bs := by
  have hlt := host.decode_lt bs
  rw [h, ← two_pow_bits] at hlt
  unfold load store
  rw [BitVec.toNat_ofNat, Nat.mod_eq_of_lt hlt, ← h]
  exact host.encode_decode bs

/-! ## The swap -/

/-- The bytes of a value that a little-endian host has swapped are reversed. -/
theorem store_swapEndian_little (v : T.Val) :
    store .little T (swapEndian .little T v) = (store .little T v).reverse := by
  have hrev : Overwrite.copyReverse (store .little T v) (List.replicate T.size 0) =
      (store .little T v).reverse :=
    Overwrite.copyReverse_eq (by rw [List.length_replicate, length_store])
  show store .little T (load .little T (Overwrite.copyReverse _ _)) = _
  rw [hrev]
  apply store_load
  rw [List.length_reverse, length_store]

/-- On either host the bytes of a swapped value are the value in network order. -/
theorem store_swapEndian (v : T.Val) : store host T (swapEndian host T v) = network T v := by
  cases host with
  | big => rfl
  | little =>
      rw [store_swapEndian_little]
      exact ByteOrder.reverse_littleEndian T.size v.toNat

theorem swapEndian_swapEndian (v : T.Val) :
    swapEndian host T (swapEndian host T v) = v := by
  cases host with
  | big => rfl
  | little =>
      rw [← load_store .little T (swapEndian .little T (swapEndian .little T v)),
        store_swapEndian_little, store_swapEndian_little, List.reverse_reverse, load_store]

/-- Reading the bytes in network order and swapping gives the value. -/
theorem swapEndian_load_network (v : T.Val) :
    swapEndian host T (load host T (network T v)) = v := by
  rw [← store_swapEndian host, load_store, swapEndian_swapEndian]

end UnsignedType

/-- A value of one of the unsigned types. -/
structure Unsigned where
  type : UnsignedType
  val : type.Val
  deriving DecidableEq

/-- The bytes of a sequence of values in network order. -/
def Unsigned.network (vs : List Unsigned) : List UInt8 := vs.flatMap fun v => v.type.network v.val

namespace Buffer

/-! ## Writing -/

/-- `append<T>(v)`. -/
def appendInt (host : ByteOrder) (b : Buffer) (v : Unsigned) (slack : ℕ) : Buffer :=
  b.append (v.type.store host (v.type.swapEndian host v.val)) slack

/-- Appends of any bytes. -/
def appendAll (b : Buffer) (blocks : List (List UInt8 × ℕ)) : Buffer :=
  blocks.foldl (fun b x => b.append x.1 x.2) b

/-- `append<T>` of several values, one after the other. -/
def appendInts (host : ByteOrder) (b : Buffer) (vs : List (Unsigned × ℕ)) : Buffer :=
  vs.foldl (fun b v => b.appendInt host v.1 v.2) b

theorem wf_of_idx_zero {b : Buffer} (h : b.idx = 0) : b.Wf := by
  unfold Wf
  omega

/-- Bytes that have never been consumed do not make a buffer drained. -/
theorem not_full_of_idx_zero {b : Buffer} (h : b.idx = 0) : ¬ b.DrainedFull := by
  rintro ⟨hdata, hzero, -⟩
  apply hdata
  rwa [readable, h, Nat.sub_zero, Vec.size, List.length_eq_zero_iff] at hzero

theorem idx_makeSpace_of_idx_zero {b : Buffer} (h : b.idx = 0) (n : ℕ) :
    (b.makeSpace n).idx = 0 := by
  have hreset : b.resetIdx.idx = 0 := by
    unfold resetIdx
    split
    · rfl
    · exact h
  unfold makeSpace compact
  split_ifs
  · exact hreset
  · exact hreset
  · rfl

/-- An append puts its bytes behind the content while nothing has been consumed. -/
theorem append_of_idx_zero {b : Buffer} (h : b.idx = 0) (xs : List UInt8) (slack : ℕ) :
    (b.append xs slack).idx = 0 ∧ (b.append xs slack).content = b.content ++ xs := by
  refine ⟨?_, ?_⟩
  · unfold append
    exact idx_makeSpace_of_idx_zero h xs.length
  · exact content_append_of_not_full (wf_of_idx_zero h) (not_full_of_idx_zero h) xs slack

theorem appendAll_of_idx_zero {b : Buffer} (h : b.idx = 0) (blocks : List (List UInt8 × ℕ)) :
    (b.appendAll blocks).idx = 0 ∧
      (b.appendAll blocks).content = b.content ++ blocks.flatMap Prod.fst := by
  induction blocks generalizing b with
  | nil => exact ⟨h, by rw [List.flatMap_nil, List.append_nil]; rfl⟩
  | cons x blocks ih =>
      obtain ⟨hidx, hcontent⟩ := append_of_idx_zero h x.1 x.2
      obtain ⟨hidx', hcontent'⟩ := ih hidx
      refine ⟨hidx', ?_⟩
      rw [List.flatMap_cons, ← List.append_assoc, ← hcontent]
      exact hcontent'

/-- Writing values is appending their bytes in network order. -/
theorem appendInts_eq (host : ByteOrder) (b : Buffer) (vs : List (Unsigned × ℕ)) :
    b.appendInts host vs = b.appendAll (vs.map fun v => (v.1.type.network v.1.val, v.2)) := by
  unfold appendInts appendAll
  rw [List.foldl_map]
  simp only [appendInt, UnsignedType.store_swapEndian]

/-- Values written behind earlier bytes follow them in network order. -/
theorem appendInts_of_init (host : ByteOrder) (n : ℕ) (earlier : List (List UInt8 × ℕ))
    (vs : List (Unsigned × ℕ)) :
    (((init n).appendAll earlier).appendInts host vs).idx = 0 ∧
      (((init n).appendAll earlier).appendInts host vs).content =
        earlier.flatMap Prod.fst ++ Unsigned.network (vs.map Prod.fst) := by
  obtain ⟨hidx, hcontent⟩ := appendAll_of_idx_zero (b := init n) rfl earlier
  rw [appendInts_eq]
  refine ⟨(appendAll_of_idx_zero hidx _).1, ?_⟩
  rw [(appendAll_of_idx_zero hidx _).2, hcontent]
  unfold Unsigned.network
  rw [List.flatMap_map, List.flatMap_map]
  rfl

/-! ## Reading -/

/-- `retrieve<T>()`. -/
def retrieveInt (host : ByteOrder) (T : UnsignedType) (b : Buffer) : Option (T.Val × Buffer) :=
  (b.retrieve T.size).map fun (slice, b') =>
    (T.swapEndian host (T.load host (b'.bytes slice)), b')

/-- `retrieve<T>()` for several types, one after the other. -/
def retrieveInts (host : ByteOrder) : List UnsignedType → Buffer → Option (List Unsigned × Buffer)
  | [], b => some ([], b)
  | T :: Ts, b =>
      (b.retrieveInt host T).bind fun (v, b) =>
        (retrieveInts host Ts b).map fun (vs, b) => (⟨T, v⟩ :: vs, b)

/-- A value in network order at the front is read, and exactly its bytes are consumed. -/
theorem retrieveInt_network (host : ByteOrder) {b : Buffer} {T : UnsignedType} {v : T.Val}
    {rest : List UInt8} (h : b.content = T.network v ++ rest) :
    ∃ c, b.retrieveInt host T = some (v, c) ∧ c.data = b.data ∧ c.idx = b.idx + T.size ∧
      c.content = rest := by
  have hle : T.size ≤ b.readable := by
    rw [← length_content, h, List.length_append, UnsignedType.length_network]
    exact Nat.le_add_right _ _
  have hr := retrieve_eq_some_iff.mpr ⟨hle, rfl, rfl⟩
  obtain ⟨hbytes, hcontent⟩ := content_retrieve hr
  rw [h, List.take_left' (UnsignedType.length_network T v)] at hbytes
  rw [h, List.drop_left' (UnsignedType.length_network T v)] at hcontent
  refine ⟨{ b with idx := b.idx + T.size }, ?_, rfl, rfl, hcontent⟩
  rw [retrieveInt, hr, Option.map_some]
  show some (T.swapEndian host (T.load host (b.bytes ⟨.at b.idx, T.size⟩)), _) = _
  rw [hbytes, UnsignedType.swapEndian_load_network]

/-- Values in network order at the front are read one after the other. -/
theorem retrieveInts_network (host : ByteOrder) {b : Buffer} {vs : List Unsigned}
    {rest : List UInt8} (h : b.content = Unsigned.network vs ++ rest) :
    ∃ c, retrieveInts host (vs.map Unsigned.type) b = some (vs, c) ∧ c.data = b.data ∧
      c.idx = b.idx + (Unsigned.network vs).length ∧ c.content = rest := by
  induction vs generalizing b with
  | nil => exact ⟨b, rfl, rfl, rfl, h⟩
  | cons v vs ih =>
      unfold Unsigned.network at h
      rw [List.flatMap_cons, List.append_assoc] at h
      obtain ⟨c, hc, hdata, hidx, hcontent⟩ := retrieveInt_network host h
      obtain ⟨d, hd, hdata', hidx', hcontent'⟩ := ih hcontent
      refine ⟨d, ?_, hdata'.trans hdata, ?_, hcontent'⟩
      · rw [List.map_cons, retrieveInts, hc]
        show Option.map _ (retrieveInts host (vs.map Unsigned.type) c) = some (v :: vs, d)
        rw [hd]
        rfl
      · rw [hidx', hidx]
        unfold Unsigned.network
        rw [List.flatMap_cons, List.length_append, UnsignedType.length_network, Nat.add_assoc]

/-! ## Network order -/

/-- Successive `retrieve<T>()` return the values `vs`, each consuming the bytes of its value:
after any number of them the bytes of the others are left. -/
def ReadsBack (host : ByteOrder) (b : Buffer) (vs : List Unsigned) : Prop :=
  ∀ before after, vs = before ++ after →
    ∃ c, retrieveInts host (before.map Unsigned.type) b = some (before, c) ∧ c.data = b.data ∧
      c.idx = b.idx + (Unsigned.network before).length ∧ c.content = Unsigned.network after

theorem readsBack_of_content (host : ByteOrder) {b : Buffer} {vs : List Unsigned}
    (h : b.content = Unsigned.network vs) : b.ReadsBack host vs := by
  rintro before after rfl
  unfold Unsigned.network at h
  rw [List.flatMap_append] at h
  exact retrieveInts_network host h

/-- Consuming removes bytes from the front of the content. -/
theorem content_of_consumed {series : List Consume} {b c : Buffer} {front back : List UInt8}
    (h : Runs.run consumeStep b series = some c) (hb : b.content = front ++ back)
    (hcount : b.readable = front.length + c.readable) : c.content = back := by
  obtain ⟨hdata, hle, -⟩ := consumed_run h
  have hdrop : c.content = b.content.drop (c.idx - b.idx) := by
    unfold content
    rw [hdata, List.drop_drop, Nat.add_sub_cancel' hle]
  have hlen : c.content.length = back.length := by
    have hsum := congrArg List.length hb
    rw [length_content, List.length_append] at hsum
    rw [length_content]
    omega
  -- a tail of the content is determined by its length
  have hsuffix : c.content <:+ front ++ back := by
    rw [hdrop, hb]
    exact List.drop_suffix _ _
  exact (List.suffix_of_suffix_length_le hsuffix (List.suffix_append front back)
    hlen.le).eq_of_length hlen

/-- The bytes at the front can be consumed. -/
theorem exists_consumed {b : Buffer} (hidx : b.idx = 0) {front back : List UInt8}
    (hb : b.content = front ++ back) :
    ∃ c, Runs.run consumeStep b [.retrieve front.length] = some c ∧
      b.readable = front.length + c.readable := by
  have hle : front.length ≤ b.readable := by
    rw [← length_content, hb, List.length_append]
    exact Nat.le_add_right _ _
  have hwf : b.Wf := wf_of_idx_zero hidx
  refine ⟨{ b with idx := b.idx + front.length }, ?_, ?_⟩
  · rw [Runs.run_cons, consumeStep, if_pos hwf, retrieve, if_pos hle]
    rfl
  · simp only [readable] at hle ⊢
    omega

/-- Values written behind bytes that have only been appended are stored in network order on
either host.  The bytes before them can be consumed, and when they have been, in any way, the
values are read back. -/
theorem ints_in_network_order (host : ByteOrder) (n : ℕ) (earlier : List (List UInt8 × ℕ))
    (vs : List (Unsigned × ℕ)) :
    let b := ((init n).appendAll earlier).appendInts host vs
    let front := earlier.flatMap Prod.fst
    b.content = front ++ Unsigned.network (vs.map Prod.fst) ∧
      (∃ c, Runs.run consumeStep b [.retrieve front.length] = some c ∧
        b.readable = front.length + c.readable) ∧
      ∀ (series : List Consume) (c : Buffer), Runs.run consumeStep b series = some c →
        b.readable = front.length + c.readable →
          c.content = Unsigned.network (vs.map Prod.fst) ∧
            c.ReadsBack host (vs.map Prod.fst) := by
  intro b front
  obtain ⟨hidx, hcontent⟩ := appendInts_of_init host n earlier vs
  refine ⟨hcontent, exists_consumed hidx hcontent, ?_⟩
  intro series c hrun hcount
  have hc := content_of_consumed hrun hcontent hcount
  exact ⟨hc, readsBack_of_content host hc⟩

/-- Behind two bytes, consumed one by one, a value of four bytes and one of a single byte. -/
theorem ints_in_network_order_u32_u8 :
    ∃ c, Runs.run consumeStep
        (((init 4).appendAll [([7, 8], 0)]).appendInts .little
          [(⟨.u32, 0x01020304⟩, 3), (⟨.u8, 5⟩, 0)])
        [.retrieve 1, .retrieve 1] = some c ∧
      c.content = [1, 2, 3, 4, 5] ∧
      c.ReadsBack .little [⟨.u32, 0x01020304⟩, ⟨.u8, 5⟩] := by
  have h := (ints_in_network_order .little 4 [([7, 8], 0)]
    [(⟨.u32, 0x01020304⟩, 3), (⟨.u8, 5⟩, 0)]).2.2 [.retrieve 1, .retrieve 1] _ rfl (by decide)
  exact ⟨_, rfl, h.1.trans (by decide), h.2⟩

end Buffer

end Lotta
