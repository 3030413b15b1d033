import Mathlib.Data.Nat.Bitwise
import TorrentNG.FixedWidth

/-!
# The exclusive-or metric on byte strings

Byte strings of one length are numbers, most significant byte first. The exclusive or of two
strings is that of the numbers, the lexicographic order is the order of the numbers, and the
zero bits in front of the first one bit say between which powers of two the number lies. A
number that is fixed on one side is determined by its exclusive or with the other.
-/

namespace XorMetric

open FixedWidth List Nat

/-! ## Exclusive or -/

theorem xor_mul_add (first second : Nat) {firstLow secondLow : Nat} (low : firstLow < 256)
    (alsoLow : secondLow < 256) : (256 * first + firstLow) ^^^ (256 * second + secondLow) =
      256 * (first ^^^ second) + (firstLow ^^^ secondLow) := by
  refine eq_of_testBit_eq fun index => ?_
  have bit : ∀ {high lower : Nat}, lower < 2 ^ 8 → (256 * high + lower).testBit index =
      if index < 8 then lower.testBit index else high.testBit (index - 8) :=
    fun bounded => testBit_two_pow_mul_add _ bounded index
  rw [testBit_xor, bit low, bit alsoLow, bit (xor_lt_two_pow low alsoLow), testBit_xor, testBit_xor]
  split
  · rfl
  · rfl

variable {first second : List UInt8} {bits zeros value : Nat}

theorem ofLittleEndian_xor (same : first.length = second.length) :
    ofLittleEndian (List.zipWith (· ^^^ ·) first second) =
      ofLittleEndian first ^^^ ofLittleEndian second := by
  induction first generalizing second with
  | nil =>
    obtain rfl := eq_nil_of_length_eq_zero same.symm
    rfl
  | cons byte rest ih =>
    obtain ⟨other, others, rfl⟩ := exists_cons_of_length_eq_add_one same.symm
    rw [zipWith_cons_cons, ofLittleEndian, ofLittleEndian, ofLittleEndian,
      ih (Nat.succ.inj same), UInt8.toNat_xor, add_comm byte.toNat,
      add_comm other.toNat, xor_mul_add _ _ byte.toNat_lt other.toNat_lt, add_comm]

theorem ofBigEndian_xor (same : first.length = second.length) :
    ofBigEndian (List.zipWith (· ^^^ ·) first second) =
      ofBigEndian first ^^^ ofBigEndian second := by
  have reversed : first.reverse.length = second.reverse.length := by
    rw [length_reverse, length_reverse, same]
  rw [ofBigEndian, ofBigEndian, ofBigEndian, reverse_zipWith same, ofLittleEndian_xor reversed]

/-! ## Order -/

theorem ofLittleEndian_append (low high : List UInt8) :
    ofLittleEndian (low ++ high) = ofLittleEndian low + 256 ^ low.length * ofLittleEndian high := by
  induction low with
  | nil => rw [nil_append, ofLittleEndian, length_nil, pow_zero]; omega
  | cons byte rest ih =>
    rw [cons_append, ofLittleEndian, ofLittleEndian, ih, length_cons, pow_succ']
    ring

theorem ofBigEndian_cons (byte : UInt8) (rest : List UInt8) :
    ofBigEndian (byte :: rest) = byte.toNat * 256 ^ rest.length + ofBigEndian rest := by
  rw [ofBigEndian, reverse_cons, ofLittleEndian_append, length_reverse, ofLittleEndian,
    ofLittleEndian, ofBigEndian]
  ring

/-- A number is compared by its leading digit first. -/
theorem mul_add_lt_iff {digit other low otherLow base : Nat} (bounded : low < base)
    (otherBounded : otherLow < base) : digit * base + low < other * base + otherLow ↔
      digit < other ∨ digit = other ∧ low < otherLow := by
  rcases lt_trichotomy digit other with less | rfl | more
  · have room := mul_le_mul_right base (succ_le_of_lt less)
    rw [succ_mul] at room
    omega
  · omega
  · have room := mul_le_mul_right base (succ_le_of_lt more)
    rw [succ_mul] at room
    omega

theorem lt_iff_ofBigEndian_lt (same : first.length = second.length) :
    first < second ↔ ofBigEndian first < ofBigEndian second := by
  induction first generalizing second with
  | nil =>
    obtain rfl := List.eq_nil_of_length_eq_zero same.symm
    exact iff_of_false (List.lt_irrefl []) (lt_irrefl _)
  | cons byte rest ih =>
    obtain ⟨other, others, rfl⟩ := List.exists_cons_of_length_eq_add_one same.symm
    have sameRest : rest.length = others.length := Nat.succ.inj same
    have bounded := ofBigEndian_lt rest
    rw [sameRest] at bounded
    rw [List.cons_lt_cons_iff, ih sameRest, ofBigEndian_cons, ofBigEndian_cons,
      sameRest, mul_add_lt_iff bounded (ofBigEndian_lt others), UInt8.lt_iff_toNat_lt,
      UInt8.toNat_inj]

theorem ofBigEndian_inj (same : first.length = second.length) :
    ofBigEndian first = ofBigEndian second ↔ first = second := by
  refine ⟨fun equal => ?_, congrArg _⟩
  rw [← bigEndian_ofBigEndian first, ← bigEndian_ofBigEndian second, same, equal]

/-! ## Leading zeros -/

/-- The zero bits in front of the first one bit of a byte. -/
def leadingZeros (byte : UInt8) : Nat := if byte = 0 then 8 else 7 - byte.toNat.log2

/-- The zero bits in front of the first one bit, in a run of bytes that has one. -/
def leadingBit (index : Nat) : List UInt8 → Option Nat
  | [] => none
  | byte :: rest =>
    if byte ≠ 0 then some (index * 8 + leadingZeros byte) else leadingBit (index + 1) rest

/-- A number between the powers of two that a number of leading zeros in so many bits means. -/
def Leads (bits zeros value : Nat) : Prop :=
  zeros < bits ∧ 2 ^ (bits - 1 - zeros) ≤ value ∧ value < 2 ^ (bits - zeros)

theorem leads_leadingZeros {byte : UInt8} (nonzero : byte ≠ 0) :
    Leads 8 (leadingZeros byte) byte.toNat := by
  have positive : byte.toNat ≠ 0 := fun zero => nonzero (UInt8.toNat_inj.mp zero)
  have small : byte.toNat.log2 < 8 := (log2_lt positive).mpr byte.toNat_lt
  obtain ⟨lower, upper⟩ := (log2_eq_iff positive).mp rfl
  rw [leadingZeros, if_neg nonzero]
  refine ⟨by omega, ?_, ?_⟩
  · have exponent : 8 - 1 - (7 - byte.toNat.log2) = byte.toNat.log2 := by omega
    rw [exponent]
    exact lower
  · have exponent : 8 - (7 - byte.toNat.log2) = byte.toNat.log2 + 1 := by omega
    rw [exponent]
    exact upper

/-- Digits below leave the leading zeros as they are. -/
theorem Leads.append {more low : Nat} (leads : Leads bits zeros value) (bounded : low < 2 ^ more) :
    Leads (bits + more) zeros (value * 2 ^ more + low) := by
  obtain ⟨fewer, lower, upper⟩ := leads
  refine ⟨by omega, ?_, ?_⟩
  · have exponent : bits + more - 1 - zeros = (bits - 1 - zeros) + more := by omega
    rw [exponent, pow_add]
    exact (mul_le_mul_right _ lower).trans (le_add_right _ _)
  · have exponent : bits + more - zeros = (bits - zeros) + more := by omega
    have room := mul_le_mul_right (2 ^ more) (succ_le_of_lt upper)
    rw [succ_mul] at room
    rw [exponent, pow_add]
    omega

/-- Zero bits above add to the leading zeros. -/
theorem Leads.prepend (leads : Leads bits zeros value) (more : Nat) :
    Leads (more + bits) (more + zeros) value := by
  obtain ⟨fewer, lower, upper⟩ := leads
  have exponent : more + bits - 1 - (more + zeros) = bits - 1 - zeros := by omega
  have alsoExponent : more + bits - (more + zeros) = bits - zeros := by omega
  rw [Leads, exponent, alsoExponent]
  exact ⟨by omega, lower, upper⟩

theorem Leads.unique {others : Nat} (leads : Leads bits zeros value)
    (alsoLeads : Leads bits others value) : zeros = others := by
  obtain ⟨fewer, lower, upper⟩ := leads
  obtain ⟨fewerOthers, lowerOthers, upperOthers⟩ := alsoLeads
  have above := (Nat.pow_lt_pow_iff_right Nat.one_lt_two).mp (lower.trans_lt upperOthers)
  have below := (Nat.pow_lt_pow_iff_right Nat.one_lt_two).mp (lowerOthers.trans_lt upper)
  omega

theorem leadingBit_spec (index : Nat) (bytes : List UInt8) :
    leadingBit index bytes = none ∧ ofBigEndian bytes = 0 ∨
      ∃ zeros, leadingBit index bytes = some (index * 8 + zeros) ∧
        Leads (8 * bytes.length) zeros (ofBigEndian bytes) := by
  induction bytes generalizing index with
  | nil => exact .inl ⟨rfl, rfl⟩
  | cons byte rest ih =>
    have bits : 8 * (byte :: rest).length = 8 + 8 * rest.length := by
      rw [length_cons]
      omega
    have bounded : ofBigEndian rest < 2 ^ (8 * rest.length) := by
      rw [pow_mul]
      exact ofBigEndian_lt rest
    rw [leadingBit, ofBigEndian_cons, bits]
    by_cases zero : byte = 0
    · rw [if_neg (not_not.mpr zero), zero, UInt8.toNat_zero, zero_mul, zero_add]
      rcases ih (index + 1) with ⟨absent, isZero⟩ | ⟨zeros, found, leads⟩
      · exact .inl ⟨absent, isZero⟩
      · refine .inr ⟨8 + zeros, ?_, leads.prepend 8⟩
        rw [found]
        congr 1
        omega
    · rw [if_pos zero]
      refine .inr ⟨leadingZeros byte, rfl, ?_⟩
      have leads := (leads_leadingZeros zero).append bounded
      rw [pow_mul] at leads
      exact leads

end XorMetric
