import Mathlib.Data.List.Induction
import Mathlib.Tactic.Ring
import TorrentNG.MachineArithmetic

/-!
# Perfect binary trees over a pairing function

A perfect tree of height `h` has exactly `2 ^ h` leaves; its root is obtained by
pairing adjacent values level by level. The relation `Perfect` says that a value
is the root over a list of leaves, without choosing an order of evaluation:
computing whole levels, splitting at the middle and carrying subtrees in a binary
counter all produce the value it determines. Nothing is assumed of the pairing
function except where injectivity is stated.
-/

namespace PerfectTree

open List

universe u
variable {α : Type u} (pair : α → α → α)

/-- Pair adjacent values; an unpaired last value is dropped. -/
def pairUp : List α → List α
  | first :: second :: rest => pair first second :: pairUp rest
  | _ => []

variable (height : Nat) (leaves : List α)

/-- The values a given number of levels above the leaves. -/
def level : List α := (pairUp pair)^[height] leaves

/-- The value is the root of the perfect tree of this height over these leaves. -/
inductive Perfect : Nat → List α → α → Prop where
  | leaf (value : α) : Perfect 0 [value] value
  | node (height : Nat) (left right : List α) (leftRoot rightRoot : α) :
      Perfect height left leftRoot → Perfect height right rightRoot →
      Perfect (height + 1) (left ++ right) (pair leftRoot rightRoot)

/-- The root over equal leaves, built by pairing a value with itself. -/
def uniform (value : α) : Nat → α
  | 0 => value
  | height + 1 => pair (uniform value height) (uniform value height)

theorem pairUp_append {front : List α} (back : List α) (even : front.length % 2 = 0) :
    pairUp pair (front ++ back) = pairUp pair front ++ pairUp pair back := by
  induction front using List.twoStepInduction with
  | nil => rfl
  | singleton first => simp at even
  | cons_cons first second rest ih =>
    simp only [length_cons] at even
    simp only [cons_append, pairUp, ih (by omega)]

theorem length_pairUp (values : List α) : (pairUp pair values).length = values.length / 2 := by
  induction values using List.twoStepInduction with
  | nil => simp [pairUp]
  | singleton first => simp [pairUp]
  | cons_cons first second rest ih =>
    simp only [pairUp, length_cons, ih]
    omega

@[simp] theorem level_zero : level pair 0 leaves = leaves := rfl

theorem level_succ :
    level pair (height + 1) leaves = pairUp pair (level pair height leaves) :=
  Function.iterate_succ_apply' _ _ _

theorem level_add (lower upper : Nat) (leaves : List α) :
    level pair (lower + upper) leaves = level pair upper (level pair lower leaves) := by
  unfold level
  rw [Nat.add_comm, Function.iterate_add_apply]

theorem length_level :
    (level pair height leaves).length = leaves.length / 2 ^ height := by
  induction height with
  | zero => simp
  | succ height ih =>
    rw [level_succ, length_pairUp, ih, Nat.pow_succ, Nat.div_div_eq_div_mul]

/-- Levels commute with concatenation at a boundary between complete subtrees. -/
theorem level_append (count : Nat) (front back : List α)
    (boundary : front.length = count * 2 ^ height) : level pair height (front ++ back) =
      level pair height front ++ level pair height back := by
  induction height generalizing front back count with
  | zero => rfl
  | succ height ih =>
    have twice : front.length = count * 2 * 2 ^ height := by
      rw [boundary, Nat.pow_succ]
      ring
    have width : (level pair height front).length = count * 2 := by
      rw [length_level, twice, Nat.mul_div_cancel _ (Nat.pow_pos (by decide))]
    rw [level_succ, level_succ, level_succ, ih (count * 2) front back twice,
      pairUp_append _ _ (by omega)]

variable {height : Nat} {leaves : List α} {root : α}

section

variable {pair : α → α → α}

theorem Perfect.length (tree : Perfect pair height leaves root) : leaves.length = 2 ^ height := by
  induction tree with
  | leaf value => rfl
  | node height left right leftRoot rightRoot _ _ leftLength rightLength =>
    rw [length_append, leftLength, rightLength, Nat.pow_succ]
    omega

theorem Perfect.wide (tree : Perfect pair (height + 1) leaves root) : 1 < leaves.length := by
  have positive : 0 < 2 ^ height := Nat.two_pow_pos height
  rw [tree.length, Nat.pow_succ]
  omega

/-- Pairing every two adjacent leaves leaves the root in place, one level down. -/
theorem Perfect.pairUp (tree : Perfect pair (height + 1) leaves root) :
    Perfect pair height (pairUp pair leaves) root := by
  induction height generalizing leaves root with
  | zero =>
    cases tree with
    | node _ left right leftRoot rightRoot leftTree rightTree =>
      cases leftTree
      cases rightTree
      exact Perfect.leaf _
  | succ height ih =>
    cases tree with
    | node _ left right leftRoot rightRoot leftTree rightTree =>
      have even : left.length % 2 = 0 := by
        rw [leftTree.length, Nat.pow_succ]
        omega
      rw [pairUp_append pair right even]
      exact Perfect.node height _ _ leftRoot rightRoot
        (ih leftTree) (ih rightTree)

/-- The root over the leaves is the root over any level below it. -/
theorem Perfect.level {lower upper : Nat} (tree : Perfect pair (lower + upper) leaves root) :
    Perfect pair upper (level pair lower leaves) root := by
  induction lower generalizing upper with
  | zero => simpa using tree
  | succ lower ih =>
    rw [level_succ]
    apply Perfect.pairUp
    apply ih
    rwa [Nat.add_right_comm] at tree

/-- The top level consists of the root alone. -/
theorem Perfect.top (tree : Perfect pair height leaves root) :
    PerfectTree.level pair height leaves = [root] := by
  have shifted : Perfect pair (height + 0) leaves root := tree
  have top := shifted.level
  generalize PerfectTree.level pair height leaves = values at top
  cases top
  rfl

/-- Leaves determine their root. -/
theorem Perfect.functional {other : α} (tree : Perfect pair height leaves root)
    (otherTree : Perfect pair height leaves other) : root = other :=
  head_eq_of_cons_eq (tree.top.symm.trans otherTree.top)

end

/-- Every list of the right length has a root. -/
theorem exists_perfect (height : Nat) (leaves : List α) (width : leaves.length = 2 ^ height) :
    ∃ root, Perfect pair height leaves root := by
  induction height generalizing leaves with
  | zero =>
    obtain ⟨value, rfl⟩ := length_eq_one_iff.mp width
    exact ⟨value, Perfect.leaf value⟩
  | succ height ih =>
    obtain ⟨leftRoot, leftTree⟩ := ih (leaves.take (2 ^ height)) (by
      rw [length_take]
      omega)
    obtain ⟨rightRoot, rightTree⟩ := ih (leaves.drop (2 ^ height)) (by
      rw [length_drop]
      omega)
    refine ⟨pair leftRoot rightRoot, ?_⟩
    rw [← take_append_drop (2 ^ height) leaves]
    exact Perfect.node height _ _ leftRoot rightRoot leftTree rightTree

/-- Under an injective pairing a root determines its leaves. -/
theorem Perfect.injective {pair : α → α → α} (injective : Function.Injective2 pair)
    {others : List α} (tree : Perfect pair height leaves root)
    (otherTree : Perfect pair height others root) : leaves = others := by
  induction height generalizing leaves others root with
  | zero =>
    cases tree
    cases otherTree
    rfl
  | succ height ih =>
    generalize shared : root = value at otherTree
    cases tree with
    | node _ left right leftRoot rightRoot leftTree rightTree =>
      cases otherTree with
      | node _ left' right' leftRoot' rightRoot' leftTree' rightTree' =>
        obtain ⟨rfl, rfl⟩ := injective shared
        rw [ih leftTree leftTree', ih rightTree rightTree']

/-- Equal leaves have the uniform root. -/
theorem perfect_replicate (value : α) (height : Nat) :
    Perfect pair height (List.replicate (2 ^ height) value) (uniform pair value height) := by
  induction height with
  | zero => exact Perfect.leaf value
  | succ height ih =>
    have halves : List.replicate (2 ^ (height + 1)) value =
        List.replicate (2 ^ height) value ++ List.replicate (2 ^ height) value := by
      rw [replicate_append_replicate, Nat.pow_succ]
      congr 1
      omega
    rw [halves]
    exact Perfect.node height _ _ _ _ ih ih

/-- A run of equal leaves becomes a run of uniform roots at every level. -/
theorem level_replicate (value : α) (height count : Nat) :
    level pair height (List.replicate (count * 2 ^ height) value) =
      List.replicate count (uniform pair value height) := by
  induction count with
  | zero =>
    apply eq_nil_of_length_eq_zero
    rw [length_level]
    simp
  | succ count ih =>
    have split : List.replicate ((count + 1) * 2 ^ height) value =
        List.replicate (2 ^ height) value ++ List.replicate (count * 2 ^ height) value := by
      rw [replicate_append_replicate, Nat.succ_mul, Nat.add_comm]
    rw [split, level_append pair height 1 _ _ (by simp), ih,
      (perfect_replicate pair value height).top]
    rfl

end PerfectTree
