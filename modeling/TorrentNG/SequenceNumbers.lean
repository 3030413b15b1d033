import Mathlib.Data.UInt

/-!
# Wrapping sequence numbers

A protocol numbers its packets with 16 bits, so that the numbers wrap around. A packet has a
number that does not wrap as well, which the protocol does not see. Two packets whose unwrapped
numbers are less than a full turn apart have different wrapped ones, and packets at most half a
turn apart compare as their unwrapped numbers do.
-/

namespace SequenceNumbers

open List

variable (number : Nat)

/-- The number of a packet on the wire. -/
def wrap : UInt16 := UInt16.ofNat number

/-- The first number comes before the second, on the shorter way round. -/
def before (first second : UInt16) : Bool :=
  first != second && decide (0x8000 < first - second)

@[simp] theorem toNat_wrap : (wrap number).toNat = number % 65536 :=
  UInt16.toNat_ofNat'

theorem wrap_toNat (number : UInt16) : wrap number.toNat = number := UInt16.ofNat_toNat

theorem wrap_add (more : Nat) : wrap number + wrap more = wrap (number + more) := by
  apply UInt16.toNat_inj.mp
  rw [UInt16.toNat_add, toNat_wrap, toNat_wrap, toNat_wrap]
  omega

theorem wrap_succ : wrap number + 1 = wrap (number + 1) := wrap_add number 1

theorem wrap_eq_iff (first second : Nat) :
    wrap first = wrap second ↔ first % 65536 = second % 65536 := by
  rw [← UInt16.toNat_inj, toNat_wrap, toNat_wrap]

/-- Less than a full turn apart, numbers are told apart. -/
theorem wrap_inj {first second : Nat} (near : first < second + 65536)
    (alsoNear : second < first + 65536) : wrap first = wrap second ↔ first = second := by
  rw [wrap_eq_iff]
  omega

theorem toNat_difference (first second : UInt16) :
    (first - second).toNat = (65536 - second.toNat + first.toNat) % 65536 :=
  UInt16.toNat_sub first second

/-- A number comes before another if it is more than half a turn ahead of it. -/
theorem before_iff {first second : UInt16} :
    before first second = true ↔ 32768 < (first - second).toNat := by
  rw [before, Bool.and_eq_true, bne_iff_ne, decide_eq_true_iff, UInt16.lt_iff_toNat_lt]
  refine and_iff_right_of_imp ?_
  rintro far rfl
  rw [UInt16.sub_self] at far
  exact absurd far (by decide)

/-- At most half a turn apart, numbers are compared. -/
theorem before_wrap {first second : Nat} (near : first ≤ second + 32768)
    (alsoNear : second < first + 32768) :
    before (wrap first) (wrap second) = true ↔ first < second := by
  rw [before_iff, toNat_difference, toNat_wrap, toNat_wrap]
  omega

/-- How many of a run of numbers come after a number. -/
theorem countP_range' (first length number : Nat) :
    (List.range' first length).countP (fun later => decide (number < later)) =
      first + length - max (number + 1) first := by
  induction length with
  | zero => simp only [range'_zero, countP_nil]; omega
  | succ length ih =>
    rw [range'_concat, countP_append, ih, countP_singleton, Nat.one_mul]
    by_cases later : number < first + length
    · rw [decide_eq_true later, if_pos rfl]
      omega
    · rw [decide_eq_false later, if_neg Bool.false_ne_true]
      omega

end SequenceNumbers
