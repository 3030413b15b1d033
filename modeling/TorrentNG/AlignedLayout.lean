import TorrentNG.MachineArithmetic

/-!
# Extents at multiples of a unit

Extents of an address space, each of which starts at the first multiple of a unit
behind the one before it. Empty extents take no space. Every multiple of the unit
below the end of such a layout lies in exactly one extent, and the space up to the
next multiple belongs to no other.
-/

namespace AlignedLayout

open List MachineArithmetic

universe u v
variable {α : Type u} {β : Type v}

/-- The first multiple of the unit at or behind a position. -/
def alignUp (unit position : Nat) : Nat := divCeil position unit * unit

/-- The items fill the space from one position to another; only items with a length
have a place. -/
def Aligned (offset length : α → Nat) (unit : Nat) : List α → Nat → Nat → Prop
  | [], start, stop => start = stop
  | item :: rest, start, stop =>
      if length item = 0 then Aligned offset length unit rest start stop
      else offset item = alignUp unit start ∧
        Aligned offset length unit rest (offset item + length item) stop

section Positions
variable {unit : Nat} (positive : 0 < unit)
include positive

theorem le_alignUp (position : Nat) : position ≤ alignUp unit position :=
  le_divCeil_mul position positive

theorem alignUp_le {position multiple : Nat} (reached : position ≤ multiple * unit) :
    alignUp unit position ≤ multiple * unit :=
  Nat.mul_le_mul_right unit ((divCeil_le_iff positive).mpr reached)

theorem next_le_alignUp {position multiple : Nat} (passed : multiple * unit < position) :
    (multiple + 1) * unit ≤ alignUp unit position := by
  refine Nat.mul_le_mul_right unit ?_
  by_contra short
  have reached := (divCeil_le_iff positive).mp (Nat.le_of_lt_succ (Nat.lt_of_not_le short))
  omega

/-- Rounding up does not change the number of units. -/
theorem divCeil_alignUp (position : Nat) :
    divCeil (alignUp unit position) unit = divCeil position unit :=
  (divCeil_eq_iff positive).mpr ⟨Nat.le_refl _, Nat.lt_add_of_pos_right positive⟩

end Positions

section Layout
variable {offset length : α → Nat} {unit : Nat}

theorem aligned_map {change : β → α} {items : List β} (start : Nat) {stop : Nat} :
    Aligned offset length unit (items.map change) start stop ↔
      Aligned (offset ∘ change) (length ∘ change) unit items start stop := by
  induction items generalizing start with
  | nil => rfl
  | cons item rest ih =>
    simp only [map_cons, Aligned, ih, Function.comp_apply]

/-- Empty items can be left out. -/
theorem aligned_filter (items : List α) (start stop : Nat) :
    Aligned offset length unit (items.filter fun item => decide (length item > 0)) start stop ↔
      Aligned offset length unit items start stop := by
  induction items generalizing start with
  | nil => rfl
  | cons item rest ih =>
    by_cases empty : length item = 0
    · simp [Aligned, empty, ih]
    · simp [Aligned, empty, ih, Nat.pos_of_ne_zero empty]

theorem aligned_append {front back : List α} (start : Nat) {stop : Nat} :
    Aligned offset length unit (front ++ back) start stop ↔
      ∃ middle, Aligned offset length unit front start middle ∧
        Aligned offset length unit back middle stop := by
  induction front generalizing start with
  | nil => simp [Aligned]
  | cons item rest ih =>
    simp only [cons_append, Aligned]
    split_ifs with empty
    · exact ih start
    · simp only [ih, and_assoc, exists_and_left]

variable {items : List α} {start stop : Nat} (aligned : Aligned offset length unit items start stop)

include aligned

/-- The layout ends with an item, or where it starts. -/
theorem aligned_stop :
    stop = start ∨ ∃ item ∈ items, 0 < length item ∧ offset item + length item = stop := by
  induction items generalizing start with
  | nil => exact Or.inl aligned.symm
  | cons first rest ih =>
    rw [Aligned] at aligned
    split_ifs at aligned with empty
    · rcases ih aligned with nothing | ⟨item, member, last⟩
      · exact Or.inl nothing
      · exact Or.inr ⟨item, mem_cons_of_mem _ member, last⟩
    · rcases ih aligned.2 with here | ⟨item, member, last⟩
      · exact Or.inr ⟨first, mem_cons_self, Nat.pos_of_ne_zero empty, here.symm⟩
      · exact Or.inr ⟨item, mem_cons_of_mem _ member, last⟩

/-- Items with a length start at multiples of the unit. -/
theorem aligned_multiple {item : α} (member : item ∈ items) (occupied : 0 < length item) :
    unit ∣ offset item := by
  obtain ⟨front, back, rfl⟩ := append_of_mem member
  obtain ⟨middle, _, following⟩ := (aligned_append start).mp aligned
  rw [Aligned, if_neg (Nat.ne_of_gt occupied)] at following
  rw [following.1, alignUp]
  exact Nat.dvd_mul_left unit _

variable (positive : 0 < unit)
include positive

theorem aligned_start_le : start ≤ stop := by
  induction items generalizing start with
  | nil => exact aligned.le
  | cons item rest ih =>
    rw [Aligned] at aligned
    split_ifs at aligned with empty
    · exact ih aligned
    · have placed := le_alignUp positive start
      have following := ih aligned.2
      omega

theorem aligned_inside {item : α} (member : item ∈ items) (occupied : 0 < length item) :
    alignUp unit start ≤ offset item ∧ offset item + length item ≤ stop := by
  induction items generalizing start with
  | nil => cases member
  | cons first rest ih =>
    rw [Aligned] at aligned
    split_ifs at aligned with empty
    · obtain rfl | later := mem_cons.mp member
      · omega
      · exact ih aligned later
    · obtain ⟨placed, following⟩ := aligned
      obtain rfl | later := mem_cons.mp member
      · exact ⟨placed.ge, aligned_start_le following positive⟩
      · have behind := ih following later
        have rounded := le_alignUp positive (offset first + length first)
        omega

/-- The extent that a multiple of the unit lies in: what comes before it ends at the
multiple, what comes after it starts at the next one. -/
theorem aligned_split (multiple : Nat) (reached : start ≤ multiple * unit)
    (inside : multiple * unit < stop) : ∃ front item back, items = front ++ item :: back ∧
      offset item ≤ multiple * unit ∧ multiple * unit < offset item + length item ∧
      (∀ other ∈ front, 0 < length other → offset other + length other ≤ multiple * unit) ∧
      ∀ other ∈ back, 0 < length other → (multiple + 1) * unit ≤ offset other := by
  induction items generalizing start with
  | nil =>
    cases aligned
    omega
  | cons first rest ih =>
    rw [Aligned] at aligned
    split_ifs at aligned with empty
    · obtain ⟨front, item, back, rfl, low, high, fronts, backs⟩ := ih aligned reached
      exact ⟨first :: front, item, back, rfl, low, high,
        forall_mem_cons.mpr ⟨by omega, fronts⟩, backs⟩
    · obtain ⟨placed, following⟩ := aligned
      have low : offset first ≤ multiple * unit := placed.trans_le (alignUp_le positive reached)
      by_cases here : multiple * unit < offset first + length first
      · refine ⟨[], first, rest, rfl, low, here, by simp, ?_⟩
        intro other member occupied
        exact (next_le_alignUp positive here).trans
          (aligned_inside following positive member occupied).1
      · obtain ⟨front, item, back, rfl, low, high, fronts, backs⟩ := ih following (by omega)
        exact ⟨first :: front, item, back, rfl, low, high,
          forall_mem_cons.mpr ⟨fun _ => by omega, fronts⟩, backs⟩

/-- Of two items with a length, the second starts behind the units of the first. -/
theorem aligned_apart : items.Pairwise fun left right => 0 < length left → 0 < length right →
      alignUp unit (offset left + length left) ≤ offset right := by
  induction items generalizing start with
  | nil => exact List.Pairwise.nil
  | cons first rest ih =>
    rw [Aligned] at aligned
    split_ifs at aligned with empty
    · exact pairwise_cons.mpr ⟨fun _ _ occupied => by omega, ih aligned⟩
    · refine pairwise_cons.mpr ⟨fun other member _ occupied => ?_, ih aligned.2⟩
      exact (aligned_inside aligned.2 positive member occupied).1

end Layout

end AlignedLayout
