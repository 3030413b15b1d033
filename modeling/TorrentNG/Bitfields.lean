import TorrentNG.MachineArithmetic
import Mathlib.Data.List.Basic

/-!
# Flags packed into bytes

One bit a flag, the most significant bit of a byte first. Packing sets the bits one by one
in bytes that are zero at the start; unpacking reads as many bits as are asked for, with
zeros behind the last byte.
-/

namespace Bitfields

open MachineArithmetic List Option

/-- The bit of an index in its byte. -/
def mask (index : Nat) : UInt8 := 0x80 >>> UInt8.ofNat (index % 8)

variable (bytes : Bytes)

def isSet (index : Nat) : Bool := bytes[index / 8]?.getD 0 &&& mask index != 0

def setBit (index : Nat) : Bytes :=
  bytes.modify (index / 8) (· ||| mask index)

variable (flags : List Bool)

def pack : Bytes :=
  flags.zipIdx.foldl (fun bytes (flag, index) => if flag then setBit bytes index else bytes)
    (List.replicate (divCeil flags.length 8) 0)

def unpack (count : Nat) : List Bool := (List.range count).map (isSet bytes)

/-- Bits that tell the positions within a byte apart tell indexes apart by their position. -/
theorem bits_distinct (bit : Nat → UInt8)
    (table : ∀ left right : Fin 8, bit left &&& bit right ≠ 0 ↔ left.val = right.val)
    (index other : Nat) : bit (index % 8) &&& bit (other % 8) ≠ 0 ↔ index % 8 = other % 8 :=
  table ⟨index % 8, Nat.mod_lt _ (by decide)⟩ ⟨other % 8, Nat.mod_lt _ (by decide)⟩

theorem mask_and (index other : Nat) : mask index &&& mask other ≠ 0 ↔ index % 8 = other % 8 :=
  bits_distinct (0x80 >>> UInt8.ofNat ·) (by decide) index other

theorem or_and (left right both : UInt8) :
    (left ||| right) &&& both = (left &&& both) ||| (right &&& both) := by
  apply UInt8.toNat.inj
  exact Nat.and_or_distrib_right ..

/-- Setting a bit sets that bit and no other, in whatever order a byte's bits are counted. -/
theorem modify_or {bit : Nat → UInt8}
    (distinct : ∀ index other, bit index &&& bit other ≠ 0 ↔ index % 8 = other % 8)
    {bytes : Bytes} {index : Nat} (other : Nat) (inside : index / 8 < bytes.length) :
    ((bytes.modify (index / 8) (· ||| bit index))[other / 8]?.getD 0 &&& bit other != 0) =
      (decide (index = other) || bytes[other / 8]?.getD 0 &&& bit other != 0) := by
  rw [getElem?_modify]
  by_cases same : index / 8 = other / 8
  · rw [← same, getElem?_eq_getElem inside]
    simp only [Option.map_eq_map, Option.map_some, Option.getD_some, if_true]
    have bits := distinct index other
    have equal : index % 8 = other % 8 ↔ index = other := by omega
    rw [equal] at bits
    rw [or_and, Bool.eq_iff_iff, Bool.or_eq_true, bne_iff_ne, bne_iff_ne, ne_eq, UInt8.or_eq_zero_iff,
      not_and_or, decide_eq_true_eq, ← bits, or_comm]
  · have different : index ≠ other := fun equal => same (equal ▸ rfl)
    simp [same, different]

theorem isSet_setBit {bytes : Bytes} {index : Nat} (other : Nat) (inside : index / 8 < bytes.length) :
    isSet (setBit bytes index) other = (decide (index = other) || isSet bytes other) :=
  modify_or mask_and other inside

@[simp] theorem length_setBit (index : Nat) :
    (setBit bytes index).length = bytes.length := length_modify _ _ _

theorem isSet_replicate (count index : Nat) : isSet (List.replicate count 0) index = false := by
  rw [isSet, getElem?_replicate]
  split <;> simp

/-- The loop over the flags, from some position on. -/
theorem isSet_foldl {flags : List Bool} (start : Nat) (bytes : Bytes)
    (room : start + flags.length ≤ 8 * bytes.length) (index : Nat) :
    isSet ((flags.zipIdx start).foldl
        (fun bytes (flag, index) => if flag then setBit bytes index else bytes) bytes) index =
      (isSet bytes index || decide (start ≤ index) && flags[index - start]?.getD false) := by
  induction flags generalizing start bytes with
  | nil => simp
  | cons flag rest ih =>
    rw [length_cons] at room
    have inside : start / 8 < bytes.length := by omega
    rw [zipIdx_cons, foldl_cons]
    have later : (decide (start ≤ index) && (flag :: rest)[index - start]?.getD false) =
        (decide (start = index) && flag ||
          decide (start + 1 ≤ index) && rest[index - (start + 1)]?.getD false) := by
      rcases Nat.lt_trichotomy index start with before | rfl | behind
      · simp [show ¬start ≤ index by omega, show ¬start + 1 ≤ index by omega, show ¬start = index by omega]
      · simp
      · have position : index - start = index - (start + 1) + 1 := by omega
        simp [position, show start ≤ index by omega, show start + 1 ≤ index by omega,
          show ¬start = index by omega]
    cases flag with
    | true =>
      simp only [if_true]
      rw [ih (start + 1) _ (by rw [length_setBit]; omega),
        isSet_setBit index inside, later, Bool.and_true, Bool.or_assoc, Bool.or_left_comm]
    | false =>
      simp only [Bool.false_eq_true, if_false]
      rw [ih (start + 1) bytes (by omega), later, Bool.and_false, Bool.false_or]

@[simp] theorem length_foldl (flags : List (Bool × Nat)) (bytes : Bytes) :
    (flags.foldl (fun bytes (flag, index) => if flag then setBit bytes index else bytes)
      bytes).length = bytes.length := by
  induction flags generalizing bytes with
  | nil => rfl
  | cons first rest ih =>
    rw [foldl_cons, ih]
    dsimp only
    split
    · exact length_setBit bytes first.2
    · rfl

@[simp] theorem length_pack : (pack flags).length = divCeil flags.length 8 := by
  rw [pack, length_foldl, length_replicate]

theorem isSet_pack (index : Nat) :
    isSet (pack flags) index = flags[index]?.getD false := by
  have room : flags.length ≤ divCeil flags.length 8 * 8 := le_divCeil_mul _ (by decide)
  rw [pack, isSet_foldl 0 _ (by rw [length_replicate]; omega), isSet_replicate]
  simp

/-- Reading as many flags as were packed gives them back. -/
theorem unpack_pack : unpack (pack flags) flags.length = flags := by
  apply ext_getElem?
  intro index
  rw [unpack, getElem?_map]
  by_cases inside : index < flags.length
  · rw [getElem?_range inside, map_some, isSet_pack, getElem?_eq_getElem inside]
    rfl
  · rw [getElem?_eq_none (by simpa using inside), getElem?_eq_none (by simpa using inside)]
    rfl

end Bitfields
