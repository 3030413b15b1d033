import Mathlib.Algebra.Ring.Nat
import Mathlib.Data.Nat.Log

/-!
# Fixed-width unsigned arithmetic

Unsigned machine integers are natural numbers. An operation that can leave its
type carries the check or the clamp that the machine applies, at 64 bits unless
the name says otherwise; an operation that cannot leave its type is the one on
natural numbers. Powers of two come with their exponents, so that shifts and
trailing-zero counts of powers become arithmetic on exponents.
-/

namespace MachineArithmetic

open List

/-- The contents of a buffer. -/
abbrev Bytes := List UInt8

/-- The largest signed 64-bit value. -/
def i64Max : Nat := 2 ^ 63 - 1

variable (left : Nat) (right : Nat)

/-- Addition that refuses a result outside 64 bits. -/
def checkedAdd : Option Nat :=
  if left + right < 2 ^ 64 then some (left + right) else none

/-- Multiplication that refuses a result outside 64 bits. -/
def checkedMul : Option Nat :=
  if left * right < 2 ^ 64 then some (left * right) else none

/-- Subtraction that refuses to pass below zero. -/
def checkedSub : Option Nat :=
  if right ≤ left then some (left - right) else none

/-- Addition clamped at the largest 64-bit value. -/
def saturatingAdd : Nat := min (left + right) (2 ^ 64 - 1)

/-- Multiplication clamped at the largest 64-bit value. -/
def saturatingMul : Nat := min (left * right) (2 ^ 64 - 1)

variable (value : Nat)

/-- A 64-bit shift is defined for amounts below the width. -/
def checkedShr (amount : Nat) : Option Nat :=
  if amount < 64 then some (value / 2 ^ amount) else none

/-- Narrowing to 32 bits succeeds exactly below the smaller bound. -/
def toU32 : Option Nat := if value < 2 ^ 32 then some value else none

/-- Division rounded toward the larger quotient. -/
def divCeil (divisor : Nat) : Nat :=
  value / divisor + if value % divisor = 0 then 0 else 1

/-- The least power of two that is not below the value; one for zero. -/
def nextPowerOfTwo : Nat := 2 ^ Nat.clog 2 value

/-- The next power of two, refused when it does not fit in 64 bits. -/
def checkedNextPowerOfTwo : Option Nat :=
  if nextPowerOfTwo value < 2 ^ 64 then some (nextPowerOfTwo value) else none

/-- Number of low zero bits of a value of the given width; the width for zero. -/
def trailingZeros : (width value : Nat) → Nat
  | 0, _ => 0
  | width + 1, value => if value % 2 = 1 then 0 else trailingZeros width (value / 2) + 1

variable {left right value divisor : Nat}

theorem checkedAdd_eq_some {result : Nat} :
    checkedAdd left right = some result ↔ left + right = result ∧ result < 2 ^ 64 := by
  unfold checkedAdd
  constructor
  · intro added
    split at added
    · cases added
      exact ⟨rfl, by assumption⟩
    · cases added
  · rintro ⟨rfl, bounded⟩
    exact if_pos bounded

theorem toU32_eq_some {result : Nat} :
    toU32 value = some result ↔ value = result ∧ result < 2 ^ 32 := by
  unfold toU32
  split_ifs with fits
  · rw [Option.some.injEq]
    exact ⟨fun same => ⟨same, same ▸ fits⟩, And.left⟩
  · exact ⟨nofun, fun ⟨same, bounded⟩ => absurd (same ▸ bounded) fits⟩

theorem checkedAdd_of_lt (bounded : left + right < 2 ^ 64) :
    checkedAdd left right = some (left + right) := if_pos bounded

theorem checkedMul_of_lt (bounded : left * right < 2 ^ 64) :
    checkedMul left right = some (left * right) := if_pos bounded

/-- The clamp is invisible to a comparison with a 64-bit value strictly below
the largest one. -/
theorem saturatingAdd_of_lt (bounded : left + right < 2 ^ 64) :
    saturatingAdd left right = left + right := by
  unfold saturatingAdd
  omega

/-- A clamped sum is the sum, clamped once. -/
theorem foldl_saturatingAdd (items : List Nat) (start : Nat) (bounded : start < 2 ^ 64) :
    items.foldl saturatingAdd start = min (start + items.sum) (2 ^ 64 - 1) := by
  induction items generalizing start with
  | nil =>
    rw [foldl_nil, sum_nil]
    omega
  | cons item rest ih =>
    have clamped : saturatingAdd start item < 2 ^ 64 := by
      unfold saturatingAdd
      omega
    rw [foldl_cons, ih _ clamped, sum_cons]
    unfold saturatingAdd
    omega

/-- Clamped subtractions one after another take off their sum, in any order. -/
theorem foldl_sub {α : Type} (items : List α) (amount : α → Nat) (start : Nat) :
    items.foldl (fun left item => left - amount item) start = start - (items.map amount).sum := by
  induction items generalizing start with
  | nil => rfl
  | cons item rest ih =>
    rw [foldl_cons, ih, map_cons, sum_cons, Nat.sub_sub]

section

variable {quotient : Nat} (positive : 0 < divisor)

include positive

theorem divCeil_le_iff : divCeil value divisor ≤ quotient ↔ value ≤ quotient * divisor := by
  unfold divCeil
  split
  next whole =>
    rw [Nat.add_zero, ← Nat.mul_le_mul_right_iff positive,
      Nat.div_mul_cancel (Nat.dvd_of_mod_eq_zero whole)]
  next rest =>
    rw [Nat.succ_le_iff, Nat.div_lt_iff_lt_mul positive, Nat.lt_iff_le_and_ne]
    refine and_iff_left fun same => rest ?_
    rw [same, Nat.mul_mod_left]

theorem lt_divCeil_iff : quotient < divCeil value divisor ↔ quotient * divisor < value := by
  rw [← Nat.not_le, divCeil_le_iff positive, Nat.not_le]

/-- Rounding up is the only quotient whose product reaches the value while the
product of its predecessor does not. -/
theorem divCeil_eq_iff : divCeil value divisor = quotient ↔
    value ≤ quotient * divisor ∧ quotient * divisor < value + divisor := by
  rw [le_antisymm_iff, divCeil_le_iff positive]
  refine and_congr_right fun _ => ?_
  cases quotient with
  | zero =>
    rw [Nat.zero_mul]
    exact iff_of_true (Nat.zero_le _) (Nat.add_pos_right _ positive)
  | succ quotient =>
    rw [Nat.succ_le_iff, lt_divCeil_iff positive, Nat.succ_mul, Nat.add_lt_add_iff_right]

variable (value) in
theorem le_divCeil_mul : value ≤ divCeil value divisor * divisor :=
  ((divCeil_eq_iff positive).mp rfl).1

variable (value) in
theorem divCeil_mul_lt : divCeil value divisor * divisor < value + divisor :=
  ((divCeil_eq_iff positive).mp rfl).2

/-- Adding the divisor less one before dividing is the same rounding. -/
theorem add_pred_div_eq_divCeil : (value + (divisor - 1)) / divisor = divCeil value divisor := by
  refine eq_of_forall_ge_iff fun quotient => ?_
  rw [Nat.div_le_iff_le_mul positive, divCeil_le_iff positive]
  omega

end

theorem le_nextPowerOfTwo (value : Nat) : value ≤ nextPowerOfTwo value :=
  Nat.le_pow_clog (by decide) value

@[simp] theorem nextPowerOfTwo_two_pow (exponent : Nat) :
    nextPowerOfTwo (2 ^ exponent) = 2 ^ exponent := by
  simp [nextPowerOfTwo, Nat.clog_pow]

theorem trailingZeros_two_pow {width exponent : Nat} (fits : exponent ≤ width) :
    trailingZeros width (2 ^ exponent) = exponent := by
  induction width generalizing exponent with
  | zero =>
    obtain rfl : exponent = 0 := by omega
    rfl
  | succ width ih =>
    cases exponent with
    | zero => rfl
    | succ exponent =>
      have even : 2 ^ (exponent + 1) % 2 = 0 := by omega
      have half : 2 ^ (exponent + 1) / 2 = 2 ^ exponent := by omega
      simp only [trailingZeros, even, half, Nat.zero_ne_one, if_false]
      rw [ih (by omega)]

end MachineArithmetic
