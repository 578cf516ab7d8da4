/-
# Byte orders

A machine stores a number in `k` bytes, the least significant byte first or the most
significant one first.  `encode` and `decode` are the two directions for either order: they
are inverse on the numbers below `256 ^ k` and on the lists of `k` bytes.  The bytes in the
other order are the same ones reversed (`reverse_littleEndian`).
-/
import Mathlib.Data.Nat.Digits.Defs
import Mathlib.Tactic.Common

/-- The order in which the bytes of a number are stored. -/
inductive ByteOrder where
  | little
  | big
  deriving DecidableEq, Repr

namespace ByteOrder

/-- The byte of a number that has the weight `256 ^ j`. -/
def byteAt (n j : ℕ) : UInt8 := UInt8.ofNat (n / 256 ^ j)

/-- The `k` low bytes of a number, the least significant one first. -/
def littleEndian (k n : ℕ) : List UInt8 := (List.range k).map fun j => byteAt n j

/-- The `k` low bytes of a number, the most significant one first. -/
def bigEndian (k n : ℕ) : List UInt8 := (List.range k).map fun j => byteAt n (k - 1 - j)

/-- The number that bytes stand for, the least significant one first. -/
def ofLittleEndian (bs : List UInt8) : ℕ := Nat.ofDigits 256 (bs.map UInt8.toNat)

/-- The `k` bytes that a number is stored in. -/
def encode : ByteOrder → ℕ → ℕ → List UInt8
  | little, k, n => littleEndian k n
  | big, k, n => bigEndian k n

/-- The number that stored bytes stand for. -/
def decode : ByteOrder → List UInt8 → ℕ
  | little, bs => ofLittleEndian bs
  | big, bs => ofLittleEndian bs.reverse

@[simp] theorem length_littleEndian (k n : ℕ) : (littleEndian k n).length = k := by
  rw [littleEndian, List.length_map, List.length_range]

@[simp] theorem length_bigEndian (k n : ℕ) : (bigEndian k n).length = k := by
  rw [bigEndian, List.length_map, List.length_range]

@[simp] theorem length_encode (o : ByteOrder) (k n : ℕ) : (o.encode k n).length = k := by
  cases o with
  | little => exact length_littleEndian k n
  | big => exact length_bigEndian k n

/-- The two orders are reversed to each other. -/
theorem reverse_littleEndian (k n : ℕ) : (littleEndian k n).reverse = bigEndian k n := by
  apply List.ext_getElem
  · simp
  · intro j hj _
    rw [List.length_reverse, length_littleEndian] at hj
    simp [littleEndian, bigEndian]

theorem reverse_bigEndian (k n : ℕ) : (bigEndian k n).reverse = littleEndian k n := by
  rw [← reverse_littleEndian, List.reverse_reverse]

/-! ## The least significant byte first -/

theorem littleEndian_succ (k n : ℕ) :
    littleEndian (k + 1) n = UInt8.ofNat n :: littleEndian k (n / 256) := by
  unfold littleEndian
  rw [List.range_succ_eq_map, List.map_cons, List.map_map]
  congr 1
  · rw [byteAt, pow_zero, Nat.div_one]
  · apply List.map_congr_left
    intro j _
    rw [Function.comp_apply, byteAt, byteAt, Nat.div_div_eq_div_mul, pow_succ']

theorem ofLittleEndian_cons (b : UInt8) (bs : List UInt8) :
    ofLittleEndian (b :: bs) = b.toNat + 256 * ofLittleEndian bs := by
  rw [ofLittleEndian, List.map_cons, Nat.ofDigits_cons]
  rfl

theorem ofLittleEndian_lt (bs : List UInt8) : ofLittleEndian bs < 256 ^ bs.length := by
  have hlt := Nat.ofDigits_lt_base_pow_length (b := 256) (l := bs.map UInt8.toNat) (by decide)
    fun x hx => by
      obtain ⟨b, -, rfl⟩ := List.mem_map.mp hx
      exact b.toNat_lt
  rwa [List.length_map] at hlt

/-- Writing and reading keeps the low bytes of a number. -/
theorem ofLittleEndian_littleEndian (k n : ℕ) :
    ofLittleEndian (littleEndian k n) = n % 256 ^ k := by
  induction k generalizing n with
  | zero => rw [pow_zero, Nat.mod_one]; rfl
  | succ k ih =>
      have hlow : (UInt8.ofNat n).toNat = n % 256 := UInt8.toNat_ofNat'
      rw [littleEndian_succ, ofLittleEndian_cons, ih, hlow, pow_succ', Nat.mod_mul]

/-- Reading and writing keeps the bytes. -/
theorem littleEndian_ofLittleEndian (bs : List UInt8) :
    littleEndian bs.length (ofLittleEndian bs) = bs := by
  induction bs with
  | nil => rfl
  | cons b bs ih =>
      have hb : b.toNat < 256 := b.toNat_lt
      rw [List.length_cons, littleEndian_succ, ofLittleEndian_cons]
      congr 1
      · apply UInt8.toNat_inj.mp
        rw [UInt8.toNat_ofNat']
        omega
      · rw [show (b.toNat + 256 * ofLittleEndian bs) / 256 = ofLittleEndian bs by omega, ih]

/-! ## Either order -/

theorem decode_lt (o : ByteOrder) (bs : List UInt8) : o.decode bs < 256 ^ bs.length := by
  cases o with
  | little => exact ofLittleEndian_lt bs
  | big =>
      have hlt := ofLittleEndian_lt bs.reverse
      rwa [List.length_reverse] at hlt

/-- Storing and loading keeps the low bytes of a number. -/
theorem decode_encode (o : ByteOrder) (k n : ℕ) : o.decode (o.encode k n) = n % 256 ^ k := by
  cases o with
  | little => exact ofLittleEndian_littleEndian k n
  | big =>
      show ofLittleEndian (bigEndian k n).reverse = n % 256 ^ k
      rw [reverse_bigEndian, ofLittleEndian_littleEndian]

/-- Loading and storing keeps the bytes. -/
theorem encode_decode (o : ByteOrder) (bs : List UInt8) :
    o.encode bs.length (o.decode bs) = bs := by
  cases o with
  | little => exact littleEndian_ofLittleEndian bs
  | big =>
      have hbytes := littleEndian_ofLittleEndian bs.reverse
      rw [List.length_reverse] at hbytes
      show bigEndian bs.length (ofLittleEndian bs.reverse) = bs
      rw [← reverse_littleEndian, hbytes, List.reverse_reverse]

end ByteOrder
