import Mathlib.Data.Nat.Bitwise
import TorrentNG.PerfectTree

/-!
# Authentication paths in perfect trees

A node and the siblings beside its ancestors determine a root: climbing pairs the
node with one sibling a level, on the side that the node's index says. In a tree the
climb passes through the tree's own nodes, and an aligned run of nodes collapses to
the node above it. Under an injective pairing a root fixes both the node and the
siblings.
-/

namespace AuthenticationPath

open PerfectTree List

universe u
variable {α : Type u} (pair : α → α → α)

/-- Pair a node with its siblings on the way up. -/
def climb : Nat → α → List α → α
  | _, current, [] => current
  | index, current, sibling :: rest =>
      climb (index / 2) (if index % 2 = 0 then pair current sibling else pair sibling current) rest

/-- The other child of the same parent. -/
def siblingIndex (index : Nat) : Nat := if index % 2 = 0 then index + 1 else index - 1

variable {index : Nat}

theorem siblingIndex_lt {half : Nat} (inside : index < 2 * half) :
    siblingIndex index < 2 * half := by
  unfold siblingIndex
  split_ifs with even
  · omega
  · omega

theorem xor_one (index : Nat) : index ^^^ 1 = siblingIndex index := by
  unfold siblingIndex
  split_ifs with even
  · exact Nat.xor_one_of_even (Nat.even_iff.mpr even)
  · exact Nat.xor_one_of_odd (Nat.odd_iff.mpr (by omega))

theorem getElem?_pairUp (values : List α) (index : Nat) : (pairUp pair values)[index]? =
      (values[2 * index]?).bind fun first => (values[2 * index + 1]?).map (pair first) := by
  induction values using List.twoStepInduction generalizing index with
  | nil => rfl
  | singleton first => cases index <;> simp [pairUp, Nat.mul_add]
  | cons_cons first second rest ih =>
    cases index with
    | zero => simp [pairUp]
    | succ index => simp only [pairUp, getElem?_cons_succ, ih, Nat.mul_add]

/-- A node and its sibling make the parent. -/
theorem getElem?_parent {values : List α} {current sibling : α}
    (node : values[index]? = some current) (beside : values[siblingIndex index]? = some sibling) :
    (pairUp pair values)[index / 2]? =
      some (if index % 2 = 0 then pair current sibling else pair sibling current) := by
  rw [getElem?_pairUp]
  unfold siblingIndex at beside
  split_ifs at beside ⊢ with even
  · have left : 2 * (index / 2) = index := by omega
    rw [left, node, beside]
    rfl
  · have left : 2 * (index / 2) = index - 1 := by omega
    have right : index - 1 + 1 = index := by omega
    rw [left, beside, right, node]
    rfl

/-- Climbing with the siblings of a tree stays in the tree. -/
theorem climb_levels {leaves siblings : List α} (base index : Nat) (current : α)
    (node : (level pair base leaves)[index]? = some current)
    (beside : ∀ offset, offset < siblings.length →
      siblings[offset]? = (level pair (base + offset) leaves)[siblingIndex (index / 2 ^ offset)]?) :
    (level pair (base + siblings.length) leaves)[index / 2 ^ siblings.length]? =
      some (climb pair index current siblings) := by
  induction siblings generalizing base index current with
  | nil => simpa [climb] using node
  | cons sibling rest ih =>
    have first := beside 0 (by simp)
    rw [getElem?_cons_zero, Nat.pow_zero, Nat.div_one, Nat.add_zero] at first
    have parent := getElem?_parent pair node first.symm
    rw [← level_succ] at parent
    have above := ih (base + 1) (index / 2) _ parent (by
      intro offset inside
      have next := beside (offset + 1) (by simpa using inside)
      rw [getElem?_cons_succ, Nat.pow_succ', ← Nat.div_div_eq_div_mul] at next
      rw [next, Nat.add_right_comm, Nat.add_assoc])
    rw [length_cons, Nat.pow_succ', ← Nat.div_div_eq_div_mul, climb, ← above,
      Nat.add_right_comm, Nat.add_assoc]

/-- An aligned run of nodes is a perfect tree under one node. -/
theorem perfect_run {values : List α} (height : Nat)
    (fits : (index + 1) * 2 ^ height ≤ values.length) :
    ∃ root, Perfect pair height ((values.drop (index * 2 ^ height)).take (2 ^ height)) root ∧
      (level pair height values)[index]? = some root := by
  rw [Nat.succ_mul] at fits
  have positive : 0 < 2 ^ height := Nat.pow_pos (by decide)
  obtain ⟨root, tree⟩ := exists_perfect pair height
    ((values.drop (index * 2 ^ height)).take (2 ^ height)) (by
      rw [length_take, length_drop]
      omega)
  refine ⟨root, tree, ?_⟩
  have front : (values.take (index * 2 ^ height)).length = index * 2 ^ height := by
    rw [length_take]
    omega
  have split : values = values.take (index * 2 ^ height) ++
      ((values.drop (index * 2 ^ height)).take (2 ^ height) ++
        (values.drop (index * 2 ^ height)).drop (2 ^ height)) := by
    rw [take_append_drop, take_append_drop]
  have width : (level pair height (values.take (index * 2 ^ height))).length = index := by
    rw [length_level, front, Nat.mul_div_cancel _ positive]
  rw [split, level_append pair height index _ _ front,
    level_append pair height 1 _ _ (by rw [tree.length, Nat.one_mul]), tree.top,
    getElem?_append_right width.le, width, Nat.sub_self]
  rfl

/-- Under an injective pairing the result of a climb fixes where it started and the
siblings it met. -/
theorem climb_injective (injective : Function.Injective2 pair) (index : Nat)
    (current other : α) {siblings : List α} (others : List α) (lengths : siblings.length = others.length)
    (same : climb pair index current siblings = climb pair index other others) :
    current = other ∧ siblings = others := by
  induction siblings generalizing index current other others with
  | nil =>
    obtain rfl := length_eq_zero_iff.mp lengths.symm
    exact ⟨same, rfl⟩
  | cons sibling rest ih =>
    cases others with
    | nil => cases lengths
    | cons sibling' rest' =>
      obtain ⟨parents, rfl⟩ := ih (index / 2) _ _ rest'
        (Nat.succ.inj lengths) same
      split_ifs at parents with even
      · obtain ⟨rfl, rfl⟩ := injective parents
        exact ⟨rfl, rfl⟩
      · obtain ⟨rfl, rfl⟩ := injective parents
        exact ⟨rfl, rfl⟩

end AuthenticationPath
