import Mathlib.Data.List.Basic
import Mathlib.Tactic.Ring

/-!
# Fixed-width integers as bytes

A number is written as a given number of bytes, least or most significant byte first,
and read back from any byte string. Writing drops what does not fit; on the numbers
that fit, and on the byte strings of the right length, the two are inverse. The
32-bit forms are the ones wire and file formats use.
-/

namespace FixedWidth

open List

/-- The low bytes of a number, least significant byte first. -/
def littleEndian : Nat → Nat → List UInt8
  | 0, _ => []
  | width + 1, value => UInt8.ofNat value :: littleEndian width (value / 256)

/-- The number written by bytes, least significant byte first. -/
def ofLittleEndian : List UInt8 → Nat
  | [] => 0
  | byte :: rest => byte.toNat + 256 * ofLittleEndian rest

variable (width : Nat) (value : Nat)

/-- The low bytes of a number, most significant byte first. -/
def bigEndian : List UInt8 := (littleEndian width value).reverse

/-- The number written by bytes, most significant byte first. -/
def ofBigEndian (bytes : List UInt8) : Nat := ofLittleEndian bytes.reverse

@[simp] theorem length_littleEndian :
    (littleEndian width value).length = width := by
  induction width generalizing value with
  | zero => rfl
  | succ width ih => rw [littleEndian, length_cons, ih]

@[simp] theorem length_bigEndian : (bigEndian width value).length = width := by
  rw [bigEndian, length_reverse, length_littleEndian]

/-- Reading back keeps what the width can hold. -/
theorem ofLittleEndian_littleEndian :
    ofLittleEndian (littleEndian width value) = value % 256 ^ width := by
  induction width generalizing value with
  | zero => rw [littleEndian, ofLittleEndian, Nat.pow_zero, Nat.mod_one]
  | succ width ih =>
    have first : (UInt8.ofNat value).toNat = value % 256 := UInt8.toNat_ofNat'
    rw [littleEndian, ofLittleEndian, ih, first, Nat.pow_succ', Nat.mod_mul]

theorem ofBigEndian_bigEndian :
    ofBigEndian (bigEndian width value) = value % 256 ^ width := by
  rw [ofBigEndian, bigEndian, reverse_reverse, ofLittleEndian_littleEndian]

variable (bytes : List UInt8)

theorem ofLittleEndian_lt : ofLittleEndian bytes < 256 ^ bytes.length := by
  induction bytes with
  | nil => decide
  | cons byte rest ih =>
    have small := byte.toNat_lt
    rw [ofLittleEndian, length_cons, Nat.pow_succ]
    omega

/-- Writing at the length of a byte string restores it. -/
theorem littleEndian_ofLittleEndian :
    littleEndian bytes.length (ofLittleEndian bytes) = bytes := by
  induction bytes with
  | nil => rfl
  | cons byte rest ih =>
    have small := byte.toNat_lt
    have first : UInt8.ofNat (byte.toNat + 256 * ofLittleEndian rest) = byte := by
      apply UInt8.toNat.inj
      rw [UInt8.toNat_ofNat']
      omega
    have others : (byte.toNat + 256 * ofLittleEndian rest) / 256 = ofLittleEndian rest := by omega
    rw [ofLittleEndian, length_cons, littleEndian, first, others, ih]

theorem ofBigEndian_lt : ofBigEndian bytes < 256 ^ bytes.length := by
  have bounded := ofLittleEndian_lt bytes.reverse
  rw [length_reverse] at bounded
  exact bounded

theorem bigEndian_ofBigEndian :
    bigEndian bytes.length (ofBigEndian bytes) = bytes := by
  have restored := littleEndian_ofLittleEndian bytes.reverse
  rw [length_reverse] at restored
  rw [bigEndian, ofBigEndian, restored, reverse_reverse]

variable (value : UInt16)

/-- `u16::to_be_bytes`. -/
def be16 : List UInt8 := bigEndian 2 value.toNat

/-- `u16::from_be_bytes`, on a slice of two bytes. -/
def ofBe16 (bytes : List UInt8) : UInt16 := UInt16.ofNat (ofBigEndian bytes)

@[simp] theorem length_be16 : (be16 value).length = 2 := length_bigEndian 2 _

@[simp] theorem ofBe16_be16 : ofBe16 (be16 value) = value := by
  apply UInt16.toNat.inj
  have small := value.toNat_lt
  rw [ofBe16, be16, ofBigEndian_bigEndian, UInt16.toNat_ofNat']
  omega

variable (value : UInt32)

/-- `u32::to_be_bytes`. -/
def be32 : List UInt8 := bigEndian 4 value.toNat

/-- `u32::from_be_bytes`, on a slice of four bytes. -/
def ofBe32 (bytes : List UInt8) : UInt32 := UInt32.ofNat (ofBigEndian bytes)

@[simp] theorem length_be32 : (be32 value).length = 4 := length_bigEndian 4 _

@[simp] theorem ofBe32_be32 : ofBe32 (be32 value) = value := by
  apply UInt32.toNat.inj
  have small := value.toNat_lt
  rw [ofBe32, be32, ofBigEndian_bigEndian, UInt32.toNat_ofNat']
  omega

theorem be32_ofBe32 {bytes : List UInt8} (four : bytes.length = 4) : be32 (ofBe32 bytes) = bytes := by
  have small := ofBigEndian_lt bytes
  rw [four] at small
  have value : (ofBe32 bytes).toNat = ofBigEndian bytes := by
    rw [ofBe32, UInt32.toNat_ofNat']
    exact Nat.mod_eq_of_lt small
  have restored := bigEndian_ofBigEndian bytes
  rw [four] at restored
  rw [be32, value, restored]

/-- The 32-bit number at an offset of a byte string. -/
def be32At (bytes : List UInt8) (offset : Nat) : UInt32 := ofBe32 ((bytes.drop offset).take 4)

/-- From an offset on, a byte string is the number there and what follows it. -/
theorem drop_eq_be32At (offset : Nat) (inside : offset + 4 ≤ bytes.length) :
    bytes.drop offset = be32 (be32At bytes offset) ++ bytes.drop (offset + 4) := by
  have four : ((bytes.drop offset).take 4).length = 4 := by
    rw [length_take, length_drop]
    omega
  rw [be32At, be32_ofBe32 four, ← drop_drop, take_append_drop]

end FixedWidth
