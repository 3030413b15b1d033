import Mathlib.Tactic.IntervalCases
import Mathlib.Data.List.Induction
import TorrentNG.Fallible

/-!
# Decimal numerals over bytes

Printing a natural number and reading a numeral back. Reading follows the order of
checks of a fixed-width parser: a byte that is no digit is reported before an
overflow at the same place, and both stop the scan. A numeral is canonical when it
has no leading zero besides the numeral `0` itself; canonical numerals and natural
numbers correspond exactly.
-/

namespace Decimal

open List

/-- ASCII digits of a number, most significant first. -/
def digits (number : Nat) : List UInt8 := (Nat.toDigits 10 number).map Char.toUInt8

def isDigit (byte : UInt8) : Bool := 48 ≤ byte && byte ≤ 57

/-- Append one decimal digit to a number. -/
def shift (number : Nat) (byte : UInt8) : Nat := number * 10 + (byte.toNat - 48)

variable (bytes : List UInt8)

/-- The number written by a sequence of digits. -/
def value : Nat := bytes.foldl shift 0

/-- No leading zero, except in the numeral of zero. -/
def Canonical : Prop :=
  bytes ≠ [] ∧ (∀ byte ∈ bytes, isDigit byte = true) ∧
    (1 < bytes.length → bytes.head? ≠ some 48)

inductive ParseIntError where
  | empty
  | invalidDigit
  | posOverflow
  | negOverflow
deriving DecidableEq, Repr

/-- The texts of the error kinds. -/
def ParseIntError.message : ParseIntError → String
  | .empty => "cannot parse integer from empty string"
  | .invalidDigit => "invalid digit found in string"
  | .posOverflow => "number too large to fit in target type"
  | .negOverflow => "number too small to fit in target type"

/-- Scan digits while the number read so far stays below the bound. -/
def parseDigits (bound : Nat) (overflow : ParseIntError) :
    List UInt8 → Nat → Except ParseIntError Nat
  | [], number => .ok number
  | byte :: rest, number =>
      if isDigit byte then
        if shift number byte < bound then parseDigits bound overflow rest (shift number byte)
        else .error overflow
      else .error .invalidDigit

/-- `str::parse` for an unsigned 64-bit integer; a leading plus sign is allowed. -/
def parseUnsigned : Except ParseIntError Nat :=
  match bytes with
  | [] => .error .empty
  | [43] => .error .invalidDigit
  | 43 :: rest => parseDigits (2 ^ 64) .posOverflow rest 0
  | _ => parseDigits (2 ^ 64) .posOverflow bytes 0

/-- `str::parse` for a signed 64-bit integer. -/
def parseSigned : Except ParseIntError Int64 :=
  match bytes with
  | [] => .error .empty
  | [43] => .error .invalidDigit
  | [45] => .error .invalidDigit
  | 43 :: rest => (parseDigits (2 ^ 63) .posOverflow rest 0).map (fun number : Nat => Int64.ofInt number)
  | 45 :: rest =>
      (parseDigits (2 ^ 63 + 1) .negOverflow rest 0).map (fun number : Nat => Int64.ofInt (-number))
  | _ => (parseDigits (2 ^ 63) .posOverflow bytes 0).map (fun number : Nat => Int64.ofInt number)

/-- `to_string` of a signed 64-bit integer. -/
def signedDigits (number : Int64) : List UInt8 :=
  if number.toInt < 0 then 45 :: digits number.toInt.natAbs else digits number.toInt.natAbs

variable {digit number bound : Nat} {byte first : UInt8} {bytes : List UInt8}

theorem digitChar_toUInt8 (small : digit < 10) :
    (Nat.digitChar digit).toUInt8 = UInt8.ofNat (48 + digit) := by
  interval_cases digit <;> rfl

/-- The last digit is the remainder; the digits before it are those of the quotient. -/
theorem digits_eq (number : Nat) :
    digits number =
      (if number < 10 then [] else digits (number / 10)) ++ [UInt8.ofNat (48 + number % 10)] := by
  unfold digits
  rw [Nat.toDigits_eq_if (by decide)]
  split
  · next small =>
    simp [digitChar_toUInt8 small, Nat.mod_eq_of_lt small]
  · simp [digitChar_toUInt8 (Nat.mod_lt _ (by decide))]

theorem isDigit_ofNat (small : digit < 10) : isDigit (UInt8.ofNat (48 + digit)) = true := by
  interval_cases digit <;> rfl

theorem shift_ofNat (number : Nat) (small : digit < 10) :
    shift number (UInt8.ofNat (48 + digit)) = number * 10 + digit := by
  interval_cases digit <;> rfl

theorem isDigit_iff : isDigit byte = true ↔ 48 ≤ byte.toNat ∧ byte.toNat ≤ 57 := by
  simp [isDigit, UInt8.le_iff_toNat_le]

/-- A digit is its character code. -/
theorem eq_ofNat_of_isDigit (digit : isDigit byte = true) :
    byte = UInt8.ofNat (48 + (byte.toNat - 48)) := by
  have range := isDigit_iff.mp digit
  rw [Nat.add_sub_cancel' range.1, UInt8.ofNat_toNat]

theorem value_append (front : List UInt8) (byte : UInt8) :
    value (front ++ [byte]) = shift (value front) byte := by
  simp [value]

/-- Reading the printed digits gives the number back. -/
theorem value_digits (number : Nat) : value (digits number) = number := by
  induction number using Nat.strongRecOn with
  | ind number ih =>
    rw [digits_eq, value_append, shift_ofNat _ (Nat.mod_lt _ (by decide))]
    split
    · next small =>
      simp only [value, foldl_nil]
      omega
    · next large =>
      rw [ih (number / 10) (by omega)]
      omega

theorem isDigit_of_mem_digits (number : Nat) (byte : UInt8) (member : byte ∈ digits number) :
    isDigit byte = true := by
  induction number using Nat.strongRecOn with
  | ind number ih =>
    rw [digits_eq] at member
    rcases mem_append.mp member with earlier | last
    · split at earlier
      · simp at earlier
      · exact ih (number / 10) (by omega) earlier
    · rw [mem_singleton.mp last]
      exact isDigit_ofNat (Nat.mod_lt _ (by decide))

theorem digits_ne_nil (number : Nat) : digits number ≠ [] := by
  rw [digits_eq]
  simp

/-- The first printed digit is zero only in the numeral of zero. -/
theorem head_digits (positive : 0 < number) : (digits number).head? ≠ some 48 := by
  induction number using Nat.strongRecOn with
  | ind number ih =>
    rw [digits_eq]
    split
    · next small =>
      have exact : number % 10 = number := Nat.mod_eq_of_lt small
      interval_cases number <;> decide
    · next large =>
      have quotient := ih (number / 10) (by omega) (by omega)
      obtain ⟨first, rest, shape⟩ := exists_cons_of_ne_nil (digits_ne_nil (number / 10))
      rw [shape] at quotient ⊢
      exact quotient

theorem digits_canonical (number : Nat) : Canonical (digits number) := by
  refine ⟨digits_ne_nil number, isDigit_of_mem_digits number, ?_⟩
  intro long
  apply head_digits
  by_contra zero
  obtain rfl : number = 0 := by omega
  exact absurd long (by decide)

/-- A canonical numeral is the one printed for its value. -/
theorem digits_value (canonical : Canonical bytes) : digits (value bytes) = bytes := by
  induction bytes using List.reverseRecOn with
  | nil => exact absurd rfl canonical.1
  | append_singleton front last ih =>
    obtain ⟨_, allDigits, leading⟩ := canonical
    have lastDigit : isDigit last = true := allDigits last (by simp)
    have range := isDigit_iff.mp lastDigit
    have small : last.toNat - 48 < 10 := by omega
    have byteValue := eq_ofNat_of_isDigit lastDigit
    have shifted : value (front ++ [last]) = value front * 10 + (last.toNat - 48) :=
      value_append front last
    cases front with
    | nil =>
      have single : value [last] = last.toNat - 48 := by simp [value, shift]
      rw [nil_append, single, digits_eq, if_pos small, Nat.mod_eq_of_lt small, ← byteValue]
      rfl
    | cons first rest =>
      have headNonzero : (first :: rest ++ [last]).head? ≠ some 48 := leading (by simp)
      have frontCanonical : Canonical (first :: rest) := by
        refine ⟨cons_ne_nil first rest, ?_, ?_⟩
        · intro byte member
          exact allDigits byte (mem_append_left _ member)
        · intro _
          exact headNonzero
      have frontDigits := ih frontCanonical
      have frontPositive : 0 < value (first :: rest) := by
        by_contra none
        obtain zero : value (first :: rest) = 0 := by omega
        rw [zero] at frontDigits
        have start : (first :: rest).head? = some 48 := by
          rw [← frontDigits]
          rfl
        exact headNonzero (by simpa using start)
      rw [shifted, digits_eq, if_neg (by omega)]
      have quotient : (value (first :: rest) * 10 + (last.toNat - 48)) / 10 =
          value (first :: rest) := by omega
      have remainder : (value (first :: rest) * 10 + (last.toNat - 48)) % 10 =
          last.toNat - 48 := by omega
      rw [quotient, remainder, frontDigits, ← byteValue]

/-- A number below a power of ten has at most that many digits. -/
theorem length_digits_le (number width : Nat) (some : 0 < width) (below : number < 10 ^ width) :
    (digits number).length ≤ width := by
  unfold digits
  rw [length_map]
  exact (Nat.length_toDigits_le_iff (by decide) some).mpr below

/-- Appending digits never makes a number smaller. -/
theorem le_foldl_shift (bytes : List UInt8) (number : Nat) : number ≤ bytes.foldl shift number := by
  induction bytes generalizing number with
  | nil => exact Nat.le_refl number
  | cons byte rest ih =>
    have grown : number ≤ shift number byte := by
      unfold shift
      omega
    exact grown.trans (ih (shift number byte))

/-- A scan succeeds exactly on digits whose number stays below the bound. Numbers
grow along the scan, so a prefix overflows only when the whole does. -/
theorem parseDigits_eq_ok {overflow : ParseIntError} (start : Nat) {result : Nat}
    (startBelow : start < bound) : parseDigits bound overflow bytes start = .ok result ↔
      (∀ byte ∈ bytes, isDigit byte = true) ∧ bytes.foldl shift start = result ∧
        result < bound := by
  induction bytes generalizing start with
  | nil =>
    constructor
    · intro parsed
      cases parsed
      exact ⟨by simp, rfl, startBelow⟩
    · rintro ⟨_, rfl, _⟩
      rfl
  | cons byte rest ih =>
    by_cases digit : isDigit byte = true
    · by_cases fits : shift start byte < bound
      · simp only [parseDigits, digit, fits, if_true, ih _ fits,
          mem_cons, forall_eq_or_imp, true_and, foldl_cons]
      · have grown := le_foldl_shift rest (shift start byte)
        simp only [parseDigits, digit, fits, if_true, if_false, foldl_cons, reduceCtorEq, false_iff]
        rintro ⟨_, rfl, below⟩
        omega
    · simp only [parseDigits, digit, Bool.false_eq_true, if_false, reduceCtorEq, false_iff]
      rintro ⟨allDigits, _⟩
      exact digit (allDigits byte (by simp))

/-- Without a leading zero, what is scanned is the numeral printed for its value. -/
theorem parseDigits_iff_digits (overflow : ParseIntError) (positive : 0 < bound)
    (nonempty : bytes ≠ []) (leading : 1 < bytes.length → bytes.head? ≠ some 48) :
    parseDigits bound overflow bytes 0 = .ok number ↔ bytes = digits number ∧ number < bound := by
  rw [parseDigits_eq_ok 0 positive]
  constructor
  · rintro ⟨allDigits, rfl, below⟩
    exact ⟨(digits_value ⟨nonempty, allDigits, leading⟩).symm, below⟩
  · rintro ⟨rfl, below⟩
    exact ⟨isDigit_of_mem_digits number, value_digits number, below⟩

/-- A byte that starts a numeral is no sign. -/
theorem digits_cons (number : Nat) :
    ∃ first rest, digits number = first :: rest ∧ isDigit first = true := by
  obtain ⟨first, rest, shape⟩ := exists_cons_of_ne_nil (digits_ne_nil number)
  exact ⟨first, rest, shape, isDigit_of_mem_digits number first (by simp [shape])⟩

theorem not_sign_of_isDigit (digit : isDigit byte = true) : byte ≠ 43 ∧ byte ≠ 45 := by
  constructor <;> rintro rfl <;> exact absurd digit (by decide)

/-- An unsigned numeral of digits only, without a leading zero, is the one printed for its value. -/
theorem parseUnsigned_eq_ok_iff (allDigits : ∀ byte ∈ bytes, isDigit byte = true)
    (leading : 1 < bytes.length → bytes.head? ≠ some 48) :
    parseUnsigned bytes = .ok number ↔ bytes = digits number ∧ number < 2 ^ 64 := by
  cases bytes with
  | nil => simp [parseUnsigned, (digits_ne_nil number).symm]
  | cons first rest =>
    have noSign := not_sign_of_isDigit (allDigits first (by simp))
    rw [← parseDigits_iff_digits .posOverflow (by decide) (cons_ne_nil first rest) leading]
    simp [parseUnsigned, noSign.1]

theorem parseUnsigned_digits (below : number < 2 ^ 64) :
    parseUnsigned (digits number) = .ok number :=
  (parseUnsigned_eq_ok_iff (isDigit_of_mem_digits number) (digits_canonical number).2.2).mpr
    ⟨rfl, below⟩

/-- A printed integer is a numeral, after a minus sign where it is negative. -/
theorem eq_signedDigits_iff {integer : Int64} : bytes = signedDigits integer ↔
    (∃ number : Nat, number < 2 ^ 63 ∧ Int64.ofInt number = integer ∧ bytes = digits number) ∨
      ∃ number : Nat, 0 < number ∧ number < 2 ^ 63 + 1 ∧ Int64.ofInt (-number) = integer ∧
        bytes = 45 :: digits number := by
  have low := Int64.le_toInt integer
  have high := Int64.toInt_lt integer
  constructor
  · rintro rfl
    by_cases negative : integer.toInt < 0
    · have magnitude : -(integer.toInt.natAbs : Int) = integer.toInt := by omega
      refine .inr ⟨integer.toInt.natAbs, by omega, by omega, ?_, if_pos negative⟩
      rw [magnitude, Int64.ofInt_toInt]
    · have magnitude : (integer.toInt.natAbs : Int) = integer.toInt := by omega
      refine .inl ⟨integer.toInt.natAbs, by omega, ?_, if_neg negative⟩
      rw [magnitude, Int64.ofInt_toInt]
  · rintro (⟨number, below, rfl, rfl⟩ | ⟨number, positive, below, rfl, rfl⟩)
    · rw [signedDigits, Int64.toInt_ofInt_of_le (by omega) (by omega), if_neg (by omega),
        Int.natAbs_natCast]
    · rw [signedDigits, Int64.toInt_ofInt_of_le (by omega) (by omega), if_pos (by omega),
        Int.natAbs_neg, Int.natAbs_natCast]

/-- A signed numeral without a plus sign, a leading zero or a negative zero is the
one printed for the integer it is read as. -/
theorem parseSigned_eq_ok_iff {integer : Int64} (noPlus : bytes.head? ≠ some 43)
    (noZero : 1 < bytes.length → bytes.head? ≠ some 48) (noMinusZero : bytes.take 2 ≠ [45, 48]) :
    parseSigned bytes = .ok integer ↔ bytes = signedDigits integer := by
  have nonempty : ∀ number, [] ≠ digits number := fun number => (digits_ne_nil number).symm
  rw [eq_signedDigits_iff]
  cases bytes with
  | nil => simp [parseSigned, nonempty]
  | cons first rest =>
    by_cases minus : first = 45
    · subst minus
      have noDigit : ∀ number, 45 :: rest ≠ digits number := by
        intro number printed
        exact absurd (isDigit_of_mem_digits number 45 (by simp [← printed])) (by decide)
      simp only [noDigit, and_false, exists_false, false_or, List.cons.injEq, true_and]
      cases rest with
      | nil => simp [parseSigned, nonempty]
      | cons second rest =>
        have nonzero : second ≠ 48 := by
          rintro rfl
          exact noMinusZero rfl
        change (parseDigits (2 ^ 63 + 1) .negOverflow (second :: rest) 0).map _ = _ ↔ _
        simp only [Fallible.map_eq_ok, parseDigits_iff_digits .negOverflow (Nat.succ_pos (2 ^ 63))
          (cons_ne_nil second rest) (fun _ => by simpa using nonzero)]
        constructor
        · rintro ⟨number, ⟨printed, below⟩, same⟩
          refine ⟨number, ?_, below, same, printed⟩
          by_contra zero
          obtain rfl : number = 0 := by omega
          exact nonzero (head_eq_of_cons_eq printed)
        · rintro ⟨number, _, below, same, printed⟩
          exact ⟨number, ⟨printed, below⟩, same⟩
    · have plus : first ≠ 43 := by simpa using noPlus
      have scan : parseSigned (first :: rest) =
          (parseDigits (2 ^ 63) .posOverflow (first :: rest) 0).map
            (fun number : Nat => Int64.ofInt number) := by
        simp [parseSigned, minus, plus]
      simp only [scan, Fallible.map_eq_ok, parseDigits_iff_digits .posOverflow (Nat.two_pow_pos 63)
        (cons_ne_nil first rest) noZero, List.cons.injEq, minus, false_and, and_false,
        exists_false, or_false]
      constructor
      · rintro ⟨number, ⟨printed, below⟩, same⟩
        exact ⟨number, below, same, printed⟩
      · rintro ⟨number, below, same, printed⟩
        exact ⟨number, ⟨printed, below⟩, same⟩

variable (number : Int64)

theorem length_signedDigits_le : (signedDigits number).length ≤ 20 := by
  obtain ⟨magnitude, below, _, shape⟩ | ⟨magnitude, _, below, _, shape⟩ :=
    eq_signedDigits_iff.mp (Eq.refl (signedDigits number))
  · have short := length_digits_le magnitude 19 (by decide) (by omega)
    rw [shape]
    omega
  · have short := length_digits_le magnitude 19 (by decide) (by omega)
    rw [shape, length_cons]
    omega

theorem mem_signedDigits {number : Int64} (member : byte ∈ signedDigits number) :
    byte = 45 ∨ isDigit byte = true := by
  obtain ⟨magnitude, _, _, shape⟩ | ⟨magnitude, _, _, _, shape⟩ :=
    eq_signedDigits_iff.mp (Eq.refl (signedDigits number))
  · rw [shape] at member
    exact Or.inr (isDigit_of_mem_digits magnitude byte member)
  · rw [shape, mem_cons] at member
    exact member.imp id (isDigit_of_mem_digits magnitude byte)

/-- The marker `e` that closes an integer is not in its digits. -/
theorem end_not_mem_signedDigits : (101 : UInt8) ∉ signedDigits number := by
  intro member
  obtain minus | digit := mem_signedDigits member
  · exact absurd minus (by decide)
  · exact absurd digit (by decide)

theorem ne_of_isDigit (digit : isDigit byte = true) (other : UInt8)
    (notDigit : isDigit other = false) : byte ≠ other := by
  rintro rfl
  rw [digit] at notDigit
  cases notDigit

/-- A printed integer has no plus sign, no leading zero and no negative zero. -/
theorem signedDigits_canonical : (signedDigits number).head? ≠ some 43 ∧
      (1 < (signedDigits number).length → (signedDigits number).head? ≠ some 48) ∧
      (signedDigits number).take 2 ≠ [45, 48] := by
  obtain ⟨magnitude, _, _, shape⟩ | ⟨magnitude, positive, _, _, shape⟩ :=
    eq_signedDigits_iff.mp (Eq.refl (signedDigits number))
  · obtain ⟨first, rest, printed, digit⟩ := digits_cons magnitude
    have noSign := not_sign_of_isDigit digit
    have leading := (digits_canonical magnitude).2.2
    rw [shape]
    refine ⟨by simp [printed, noSign.1], leading, ?_⟩
    intro minusZero
    rw [printed, take_succ_cons] at minusZero
    exact noSign.2 (List.cons.inj minusZero).1
  · obtain ⟨first, rest, printed, _⟩ := digits_cons magnitude
    have leading := head_digits positive
    rw [shape]
    refine ⟨by simp, by simp, ?_⟩
    intro minusZero
    rw [printed] at minusZero leading
    simp only [take_succ_cons, take_zero, List.cons.injEq, true_and, and_true]
      at minusZero
    exact leading (by simp [minusZero])

end Decimal
