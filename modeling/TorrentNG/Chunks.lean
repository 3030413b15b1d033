import TorrentNG.MachineArithmetic

/-!
# Fixed-size slices of a list

A list is cut into consecutive slices of one size. The last slice may be shorter
and is never empty. Cutting at a multiple of the size commutes with
concatenation.
-/

namespace Chunks

open List MachineArithmetic

universe u
variable {α : Type u}

/-- Cut at most `fuel` slices; each takes the next `size` items or what is left. -/
def cut (size : Nat) : Nat → List α → List (List α)
  | 0, _ => []
  | fuel + 1, items =>
      if items.isEmpty then [] else items.take size :: cut size fuel (items.drop size)

variable (size : Nat)

/-- All slices of the list: no list has more nonempty slices than items. -/
def chunks (items : List α) : List (List α) := cut size items.length items

/-- The slices of full size, leaving out a shorter remainder. -/
def exactChunks (items : List α) : List (List α) :=
  (chunks size items).filter (fun slice => slice.length = size)

@[simp] theorem chunks_nil : chunks size ([] : List α) = [] := rfl

variable {size : Nat} (positive : 0 < size)

include positive

/-- Any two amounts of fuel that reach the length of the list cut it alike. -/
theorem cut_fuel {fuel : Nat} (other : Nat) (items : List α)
    (enough : items.length ≤ fuel) (otherEnough : items.length ≤ other) :
    cut size fuel items = cut size other items := by
  induction fuel generalizing items other with
  | zero =>
    obtain rfl : items = [] := eq_nil_of_length_eq_zero (by omega)
    cases other <;> rfl
  | succ fuel ih =>
    cases items with
    | nil => cases other <;> rfl
    | cons first rest =>
      cases other with
      | zero => simp at otherEnough
      | succ other =>
        have remaining : ((first :: rest).drop size).length ≤ rest.length := by
          simp only [length_drop, length_cons]
          omega
        simp only [length_cons] at enough otherEnough
        simp only [cut, isEmpty_cons, Bool.false_eq_true, if_false]
        rw [ih other _ (by omega) (by omega)]

/-- A nonempty list is its first slice followed by the slices of the rest. -/
theorem chunks_step {items : List α} (nonempty : items ≠ []) :
    chunks size items = items.take size :: chunks size (items.drop size) := by
  cases items with
  | nil => exact absurd rfl nonempty
  | cons first rest =>
    have shorter : ((first :: rest).drop size).length ≤ rest.length := by
      simp only [length_drop, length_cons]
      omega
    simp only [chunks, length_cons, cut, isEmpty_cons, Bool.false_eq_true, if_false]
    rw [cut_fuel positive _ _ shorter (Nat.le_refl _)]

/-- Induction along the slices: an empty list has none, and a nonempty list loses
its first slice. -/
theorem slice_induction {motive : List α → Prop} (empty : motive [])
    (step : ∀ items : List α, items ≠ [] → motive (items.drop size) → motive items)
    (items : List α) : motive items := by
  induction length : items.length using Nat.strongRecOn generalizing items with
  | ind length ih =>
    cases items with
    | nil => exact empty
    | cons first rest =>
      apply step _ (cons_ne_nil first rest)
      apply ih _ _ _ rfl
      rw [← length, length_drop, length_cons]
      omega

/-- The number of slices is the rounded-up quotient of the length. -/
theorem length_chunks (items : List α) :
    (chunks size items).length = divCeil items.length size := by
  refine eq_of_forall_ge_iff fun quotient => ?_
  rw [divCeil_le_iff positive]
  induction items using slice_induction positive generalizing quotient with
  | empty => simp
  | step items nonempty ih =>
    have filled : 0 < items.length := length_pos_iff.mpr nonempty
    rw [chunks_step positive nonempty, length_cons]
    cases quotient with
    | zero => omega
    | succ quotient =>
      rw [Nat.succ_le_succ_iff, ih, length_drop, Nat.succ_mul, Nat.sub_le_iff_le_add]

/-- Cutting commutes with concatenation at a boundary between slices. -/
theorem chunks_append {count : Nat} (front back : List α) (boundary : front.length = count * size) :
    chunks size (front ++ back) = chunks size front ++ chunks size back := by
  induction count generalizing front with
  | zero =>
    obtain rfl : front = [] := eq_nil_of_length_eq_zero (by omega)
    simp
  | succ count ih =>
    rw [Nat.succ_mul] at boundary
    have nonempty : front ≠ [] := ne_nil_of_length_pos (by omega)
    have reached : size ≤ front.length := by omega
    rw [chunks_step positive (by simp [nonempty]), chunks_step positive nonempty,
      take_append_of_le_length reached, drop_append_of_le_length reached,
      ih (front.drop size) (by rw [length_drop]; omega)]
    rfl

/-- Records of one size that are written one after the other are cut apart again. -/
theorem exactChunks_flatMap {β : Type u} {write : β → List α}
    (sized : ∀ record, (write record).length = size) (records : List β) :
    exactChunks size (records.flatMap write) = records.map write := by
  have whole : chunks size (records.flatMap write) = records.map write := by
    induction records with
    | nil => rfl
    | cons record rest ih =>
      have first : chunks size (write record) = [write record] := by
        have nonempty : write record ≠ [] :=
          ne_nil_of_length_pos (positive.trans_eq (sized record).symm)
        rw [chunks_step positive nonempty, take_of_length_le (sized record).le,
          drop_of_length_le (sized record).le, chunks_nil]
      rw [flatMap_cons, chunks_append positive _ _ (by rw [sized, Nat.one_mul]), first,
        ih, map_cons, singleton_append]
  rw [exactChunks, whole, filter_eq_self]
  intro slice inside
  obtain ⟨record, _, rfl⟩ := mem_map.mp inside
  exact decide_eq_true (sized record)

omit positive

/-- The part of a list between two positions, where its first item has position `base`. -/
def window (base start stop : Nat) (items : List α) : List α :=
  (items.take (stop - base)).drop (start - base)

/-- A window over a concatenation is the windows over its parts. -/
theorem window_append (base start stop : Nat) (front back : List α) :
    window base start stop (front ++ back) =
      window base start stop front ++ window (base + front.length) start stop back := by
  unfold window
  rw [take_append, drop_append, length_take]
  by_cases short : stop - base < front.length
  · have nothing : stop - base - front.length = 0 := by omega
    have stillNothing : stop - (base + front.length) = 0 := by omega
    simp [nothing, stillNothing]
  · rw [Nat.min_eq_right (by omega), Nat.sub_sub, Nat.sub_sub]

theorem window_range (base start stop length : Nat) : window base start stop (List.range length) =
      (List.range (min stop (base + length) - max start base)).map (start - base + ·) := by
  unfold window
  rw [take_range, range_eq_range', drop_range', List.range'_eq_map_range]
  have lengths : min (stop - base) length - (start - base) =
      min stop (base + length) - max start base := by omega
  rw [lengths, Nat.zero_add, Nat.mul_one]

/-- Windows of one size laid end to end cover the list as far as they reach. -/
theorem flatMap_window (size count : Nat) (items : List α) :
    (List.range count).flatMap (fun index => window 0 (index * size) ((index + 1) * size) items) =
      items.take (count * size) := by
  induction count with
  | zero => simp
  | succ count ih =>
    rw [range_succ, flatMap_append, ih]
    simp only [flatMap_cons, flatMap_nil, append_nil, window, Nat.sub_zero]
    have shorter : count * size ≤ (count + 1) * size := Nat.mul_le_mul_right _ (by omega)
    have front : items.take (count * size) =
        (items.take ((count + 1) * size)).take (count * size) := by
      rw [take_take, Nat.min_eq_left shorter]
    rw [front, take_append_drop]

end Chunks
