import Mathlib.Data.List.DropRight
import TorrentNG.Bitfields

/-!
# Selective acknowledgements of `rt-utp`

The extension of a uTP packet that names the packets received out of order, by their distance
from the acknowledgement number. The byte string is a bit set of the distances from two on, the
least significant bit of a byte first, without zero bytes at its end. It is determined by the set
of distances.
-/

namespace TorrentNG.Utp

open List

structure SelectiveAck where
  bits : List UInt8
deriving DecidableEq

namespace SelectiveAck

/-- `1 << bit`, for the bit of an index in its byte. -/
def mask (index : Nat) : UInt8 := 1 <<< UInt8.ofNat (index % 8)

def empty : SelectiveAck := ⟨[]⟩

variable (bits : List UInt8)

/-- The body of the loop over the offsets, all of them at least two. -/
def setOffset (offset : UInt16) : List UInt8 :=
  let bitIndex := (offset - 2).toNat
  bits.modify (bitIndex / 8) (· ||| mask bitIndex)

def fromReceivedOffsets (offsets : List UInt16) : SelectiveAck :=
  let offsets := offsets.filter (2 ≤ ·)
  match (offsets.map UInt16.toNat).max? with
  | none => empty
  | some max =>
    let bits := offsets.foldl setOffset (List.replicate (max / 8 + 1) 0)
    ⟨bits.rdropWhile (· == 0)⟩

def isAcknowledged (ack : SelectiveAck) (offsetAfterAck : UInt16) : Bool :=
  if offsetAfterAck < 2 then false
  else
    let bitIndex := (offsetAfterAck - 2).toNat
    ack.bits[bitIndex / 8]?.any fun value => value &&& mask bitIndex != 0

/-- The sums are of type `u16`. -/
def acknowledgedOffsets (ack : SelectiveAck) : List UInt16 :=
  ack.bits.zipIdx.flatMap fun (byte, byteIdx) =>
    ((List.range 8).filter fun bit => byte &&& mask bit != 0).map fun bit =>
      UInt16.ofNat byteIdx * 8 + UInt16.ofNat bit + 2

/-! ## The bit set -/

/-- The bit of an index, counted through the bytes. -/
def isSet (index : Nat) : Bool := bits[index / 8]?.getD 0 &&& mask index != 0

variable {offsets : List UInt16}

/-- The loop sets the bits of the offsets. -/
theorem isSet_foldl {bits : List UInt8} (index : Nat)
    (inside : ∀ offset ∈ offsets, (offset - 2).toNat / 8 < bits.length) :
    isSet (offsets.foldl setOffset bits) index =
      (isSet bits index || offsets.any fun offset => (offset - 2).toNat = index) := by
  induction offsets generalizing bits with
  | nil => simp
  | cons offset rest ih =>
    obtain ⟨first, others⟩ := forall_mem_cons.mp inside
    have length : (setOffset bits offset).length = bits.length := length_modify ..
    have set : isSet (setOffset bits offset) index =
        (decide ((offset - 2).toNat = index) || isSet bits index) :=
      Bitfields.modify_or (Bitfields.bits_distinct (1 <<< UInt8.ofNat ·) (by decide)) index first
    rw [foldl_cons, ih (by rwa [length]), set, any_cons, Bool.or_left_comm, Bool.or_assoc]

/-- Zero bytes at the end hold no bit. -/
theorem isSet_trim (index : Nat) :
    isSet (bits.rdropWhile (· == 0)) index = isSet bits index := by
  induction bits using List.reverseRecOn with
  | nil => rfl
  | append_singleton bits byte ih =>
    rw [rdropWhile_concat]
    split
    next zero =>
      rw [beq_iff_eq] at zero
      rw [ih, zero, isSet, isSet]
      rcases Nat.lt_or_ge (index / 8) bits.length with inside | outside
      · rw [getElem?_append_left inside]
      · rw [getElem?_append_right outside, getElem?_eq_none outside]
        cases index / 8 - bits.length <;> rfl
    next => rfl

variable {offset : UInt16}

theorem toNat_sub_two (large : 2 ≤ offset) :
    (offset - 2).toNat + 2 = offset.toNat := by
  rw [UInt16.toNat_sub_of_le _ _ large]
  exact Nat.sub_add_cancel (UInt16.le_iff_toNat_le.mp large)

/-- The bits of the extension are the offsets from two on. -/
theorem isSet_fromReceivedOffsets (offsets : List UInt16) (index : Nat) :
    isSet (fromReceivedOffsets offsets).bits index = true ↔
      ∃ offset ∈ offsets.filter (2 ≤ ·), offset.toNat = index + 2 := by
  have shifted : ∀ offset ∈ offsets.filter (2 ≤ ·), (offset - 2).toNat + 2 = offset.toNat :=
    fun offset inside => toNat_sub_two (of_decide_eq_true (mem_filter.mp inside).2)
  rw [fromReceivedOffsets]
  generalize offsets.filter (2 ≤ ·) = received at shifted ⊢
  dsimp only
  split
  next none =>
    rw [max?_eq_none_iff, map_eq_nil_iff] at none
    simp [none, empty, isSet]
  next max largest =>
    have inside : ∀ offset ∈ received,
        (offset - 2).toNat / 8 < (List.replicate (max / 8 + 1) (0 : UInt8)).length := by
      intro offset member
      have most := (max?_eq_some_iff.mp largest).2 _ (mem_map_of_mem member)
      have distance := shifted offset member
      rw [length_replicate]
      omega
    have clear : isSet (List.replicate (max / 8 + 1) 0) index = false := by
      rw [isSet, getElem?_replicate]
      split <;> simp
    rw [isSet_trim, isSet_foldl index inside, clear, Bool.false_or, any_eq_true]
    refine exists_congr fun offset => and_congr_right fun member => ?_
    rw [decide_eq_true_eq, ← shifted offset member, Nat.add_right_cancel_iff]

/-- The bits in the order of their indices. -/
theorem acknowledgedOffsets_eq : acknowledgedOffsets ⟨bits⟩ =
      ((List.range (8 * bits.length)).filter (isSet bits)).map fun index =>
        UInt16.ofNat (index + 2) := by
  rw [acknowledgedOffsets]
  induction bits using List.reverseRecOn with
  | nil => rfl
  | append_singleton bits byte ih =>
    dsimp only at ih ⊢
    rw [zipIdx_append, flatMap_append, ih, length_append, length_singleton,
      Nat.mul_add, range_add, filter_append, map_append]
    congr 1
    · congr 1
      apply filter_congr
      intro index inside
      rw [isSet, isSet, getElem?_append_left (by rw [mem_range] at inside; omega)]
    · rw [filter_map, map_map]
      have bit : ∀ bit < 8, isSet (bits ++ [byte]) (8 * bits.length + bit) =
          (byte &&& mask bit != 0) := by
        intro bit small
        have position : (8 * bits.length + bit) / 8 = bits.length := by omega
        rw [isSet, position, getElem?_concat_length, mask, Nat.mul_add_mod]
        rfl
      have same : (List.range 8).filter (isSet (bits ++ [byte]) ∘ (8 * bits.length + ·)) =
          (List.range 8).filter fun bit => byte &&& mask bit != 0 :=
        filter_congr fun index inside => bit index (mem_range.mp inside)
      rw [Nat.mul_one, same]
      simp [UInt16.ofNat_add, UInt16.ofNat_mul, UInt16.mul_comm]

theorem mem_acknowledgedOffsets :
    offset ∈ (fromReceivedOffsets offsets).acknowledgedOffsets ↔ offset ∈ offsets ∧ 2 ≤ offset := by
  have filtered : offset ∈ offsets.filter (2 ≤ ·) ↔ offset ∈ offsets ∧ 2 ≤ offset := by simp
  rw [← filtered, acknowledgedOffsets_eq (fromReceivedOffsets offsets).bits, mem_map]
  constructor
  · rintro ⟨index, member, rfl⟩
    obtain ⟨offset, inside, value⟩ :=
      (isSet_fromReceivedOffsets offsets index).mp (mem_filter.mp member).2
    rwa [← value, UInt16.ofNat_toNat]
  · intro inside
    have value := toNat_sub_two (filtered.mp inside).2
    have set := (isSet_fromReceivedOffsets offsets _).mpr ⟨offset, inside, value.symm⟩
    refine ⟨(offset - 2).toNat, mem_filter.mpr ⟨mem_range.mpr ?_, set⟩, ?_⟩
    · by_contra outside
      rw [isSet, getElem?_eq_none (by omega)] at set
      simp at set
    · rw [value, UInt16.ofNat_toNat]

theorem sorted_acknowledgedOffsets (offsets : List UInt16) :
    (fromReceivedOffsets offsets).acknowledgedOffsets.Pairwise (· < ·) := by
  rw [acknowledgedOffsets_eq (fromReceivedOffsets offsets).bits, pairwise_map]
  have small : ∀ index, isSet (fromReceivedOffsets offsets).bits index = true →
      (UInt16.ofNat (index + 2)).toNat = index + 2 := by
    intro index set
    obtain ⟨offset, _, value⟩ := (isSet_fromReceivedOffsets offsets index).mp set
    rw [← value, UInt16.ofNat_toNat]
  refine (pairwise_lt_range.filter _).imp_of_mem fun first second less => ?_
  rw [UInt16.lt_iff_toNat_lt, small _ (mem_filter.mp first).2, small _ (mem_filter.mp second).2]
  exact Nat.add_lt_add_right less 2

theorem isAcknowledged_iff :
    (fromReceivedOffsets offsets).isAcknowledged offset = true ↔ offset ∈ offsets ∧ 2 ≤ offset := by
  rw [isAcknowledged]
  split
  next small => simp [UInt16.not_le.mpr small]
  next large =>
    have read : ((fromReceivedOffsets offsets).bits[(offset - 2).toNat / 8]?.any fun value =>
        value &&& mask (offset - 2).toNat != 0) =
          isSet (fromReceivedOffsets offsets).bits (offset - 2).toNat := by
      rw [isSet]
      cases (fromReceivedOffsets offsets).bits[(offset - 2).toNat / 8]? <;> simp
    dsimp only
    rw [read, isSet_fromReceivedOffsets, toNat_sub_two (UInt16.not_lt.mp large)]
    simp [UInt16.toNat_inj]

/-- The bits of two offsets can be set in either order. -/
theorem setOffset_comm (first second : UInt16) :
    setOffset (setOffset bits first) second = setOffset (setOffset bits second) first := by
  rw [setOffset, setOffset, setOffset, setOffset]
  by_cases same : (first - 2).toNat / 8 = (second - 2).toNat / 8
  · rw [same, modify_modify_eq, modify_modify_eq]
    congr 1
    funext byte
    dsimp only [Function.comp]
    ac_rfl
  · exact modify_modify_ne _ _ _ same

theorem fromReceivedOffsets_perm {left right : List UInt16} (permuted : left.Perm right) :
    fromReceivedOffsets left = fromReceivedOffsets right := by
  have received := permuted.filter (2 ≤ ·)
  have largest : ((left.filter (2 ≤ ·)).map UInt16.toNat).max? =
      ((right.filter (2 ≤ ·)).map UInt16.toNat).max? := by
    apply Option.ext
    intro max
    rw [max?_eq_some_iff, max?_eq_some_iff]
    simp only [(received.map UInt16.toNat).mem_iff]
  rw [fromReceivedOffsets, fromReceivedOffsets]
  dsimp only
  rw [largest]
  split
  · rfl
  · rw [received.foldl_eq' fun first _ second _ bits => setOffset_comm bits first second]

/-- An acknowledgement lists the distances from two on, each once and in order, and is the same
byte string in whatever order they arrived. -/
theorem acknowledgedOffsets_fromReceivedOffsets (offsets : List UInt16) :
    (fromReceivedOffsets offsets).acknowledgedOffsets.Pairwise (· < ·) ∧
      (∀ offset, offset ∈ (fromReceivedOffsets offsets).acknowledgedOffsets ↔
        offset ∈ offsets ∧ 2 ≤ offset) ∧
      (∀ offset, (fromReceivedOffsets offsets).isAcknowledged offset = true ↔
        offset ∈ (fromReceivedOffsets offsets).acknowledgedOffsets) ∧
      (fromReceivedOffsets offsets).bits.getLast? ≠ some 0 ∧
      ∀ permuted : List UInt16, permuted.Perm offsets →
        fromReceivedOffsets permuted = fromReceivedOffsets offsets := by
  refine ⟨sorted_acknowledgedOffsets offsets, fun offset => mem_acknowledgedOffsets,
    fun offset => ?_, ?_, fun permuted same => fromReceivedOffsets_perm same⟩
  · rw [isAcknowledged_iff, mem_acknowledgedOffsets]
  · rw [fromReceivedOffsets]
    dsimp only
    split
    · nofun
    · intro zero
      have nonempty := List.ne_nil_of_mem (List.mem_of_getLast? zero)
      have last := List.rdropWhile_last_not (· == 0) _ nonempty
      rw [List.getLast?_eq_some_getLast nonempty, Option.some.injEq] at zero
      exact last (beq_iff_eq.mpr zero)

end SelectiveAck

end TorrentNG.Utp
