import TorrentNG.PerfectTree

/-!
# A binary counter of complete subtrees

One slot a height, least height first, each holding at most one complete subtree.
The represented leaf sequence is read from the greatest height down, because a
lower slot was filled later. Carrying a subtree into the counter merges it with
the occupied slots it meets, exactly as a binary increment carries ones, and
appends its leaves to the represented sequence.
-/

namespace SubtreeCounter

open PerfectTree List

universe u
variable {α : Type u} (pair : α → α → α)

/-- Merge a subtree upward through occupied slots into the first free one. The
counter refuses a carry past its last slot. -/
def carry : List (Option α) → α → Option (List (Option α))
  | [], _ => none
  | none :: rest, value => some (some value :: rest)
  | some left :: rest, value => (carry rest (pair left value)).map (none :: ·)

/-- The slots from the given height upward hold complete subtrees over the leaves. -/
inductive Holds : Nat → List (Option α) → List α → Prop where
  | empty (height : Nat) : Holds height [] []
  | free (height : Nat) (slots : List (Option α)) (leaves : List α) :
      Holds (height + 1) slots leaves → Holds height (none :: slots) leaves
  | occupied (height : Nat) (slots : List (Option α)) (leaves block : List α) (root : α) :
      Holds (height + 1) slots leaves → Perfect pair height block root →
      Holds height (some root :: slots) (leaves ++ block)

/-- Free slots hold no leaves. -/
theorem holds_replicate (height count : Nat) :
    Holds pair height (List.replicate count none) [] := by
  induction count generalizing height with
  | zero => exact Holds.empty height
  | succ count ih =>
    exact Holds.free height _ _ (ih (height + 1))

variable {height : Nat} {slots : List (Option α)} {leaves : List α} {pair : α → α → α}

section

variable (held : Holds pair height slots leaves)

include held

/-- Only whole subtrees are held, so the number of leaves is a multiple of the
least subtree size. -/
theorem Holds.dvd : 2 ^ height ∣ leaves.length := by
  induction held with
  | empty height => exact Nat.dvd_zero _
  | free height slots leaves _ ih =>
    exact (Nat.pow_dvd_pow 2 (Nat.le_succ height)).trans ih
  | occupied height slots leaves block root _ tree ih =>
    rw [length_append, tree.length]
    exact Nat.dvd_add ((Nat.pow_dvd_pow 2 (Nat.le_succ height)).trans ih)
      (Nat.dvd_refl _)

/-- Below capacity a carry succeeds, keeps the number of slots and appends the
leaves of the carried subtree.

An occupied slot passes the merged subtree, of twice the size, to the next height;
the remaining capacity is the same number of leaves. -/
theorem Holds.carry {block : List α} {root : α} (tree : Perfect pair height block root)
    (capacity : leaves.length + 2 ^ height < 2 ^ (height + slots.length)) :
    ∃ updated, carry pair slots root = some updated ∧ updated.length = slots.length ∧
      Holds pair height updated (leaves ++ block) := by
  induction held generalizing block root with
  | empty height => simp at capacity
  | free height slots leaves rest _ =>
    exact ⟨some root :: slots, rfl, rfl, Holds.occupied height slots leaves block root rest tree⟩
  | occupied height slots leaves stored storedRoot rest storedTree ih =>
    have merged := Perfect.node height stored block storedRoot root storedTree tree
    have room : leaves.length + 2 ^ (height + 1) < 2 ^ (height + 1 + slots.length) := by
      have width := storedTree.length
      simp only [length_append, length_cons, width] at capacity
      rw [Nat.pow_succ, Nat.add_assoc, Nat.add_comm 1]
      omega
    obtain ⟨updated, carried, length, holds⟩ := ih merged room
    refine ⟨none :: updated, ?_, ?_, ?_⟩
    · simp [SubtreeCounter.carry, carried]
    · simp [length]
    · rw [append_assoc]
      exact Holds.free height updated _ holds

/-- A multiple of the next subtree size leaves the least slot free. -/
theorem Holds.raise (nonempty : 0 < slots.length) (multiple : 2 ^ (height + 1) ∣ leaves.length) :
    ∃ rest, slots = none :: rest ∧ Holds pair (height + 1) rest leaves := by
  cases held with
  | empty => exact absurd nonempty (Nat.lt_irrefl 0)
  | free _ rest _ higher => exact ⟨rest, rfl, higher⟩
  | occupied _ _ leaves block root rest tree =>
    rw [length_append, tree.length] at multiple
    have remainder : 2 ^ (height + 1) ∣ 2 ^ height := (Nat.dvd_add_right rest.dvd).mp multiple
    have tooLarge := Nat.le_of_dvd (Nat.pow_pos (by decide)) remainder
    omega

/-- A counter that holds a power of two of leaves has one occupied slot, with the
root over all of them.

Lower slots are free because the number of leaves is a multiple of their size. The
first occupied slot already holds a subtree of the full size, so nothing is above. -/
theorem Holds.single (above : Nat) (width : leaves.length = 2 ^ (height + above)) :
    ∃ root, slots.findSome? id = some root ∧ Perfect pair (height + above) leaves root := by
  induction held generalizing above with
  | empty height =>
    have positive : 0 < 2 ^ (height + above) := Nat.pow_pos (by decide)
    simp only [length_nil] at width
    omega
  | free height slots leaves rest ih =>
    cases above with
    | zero =>
      rw [Nat.add_zero] at width
      have positive : 0 < 2 ^ height := Nat.pow_pos (by decide)
      have tooLarge := Nat.le_of_dvd (by omega) rest.dvd
      omega
    | succ above =>
      have shifted : height + (above + 1) = height + 1 + above := by omega
      rw [shifted] at width ⊢
      obtain ⟨root, found, tree⟩ := ih above width
      exact ⟨root, by simpa using found, tree⟩
  | occupied height slots leaves block root rest tree _ =>
    rw [length_append, tree.length] at width
    have multiple := rest.dvd
    cases above with
    | zero =>
      obtain rfl : leaves = [] := eq_nil_of_length_eq_zero (by
        rw [Nat.add_zero] at width
        omega)
      exact ⟨root, rfl, tree⟩
    | succ above =>
      have remainder : 2 ^ (height + 1) ∣ 2 ^ height := by
        apply (Nat.dvd_add_right multiple).mp
        rw [width]
        exact Nat.pow_dvd_pow 2 (by omega)
      have tooLarge := Nat.le_of_dvd (Nat.pow_pos (by decide)) remainder
      omega

end

end SubtreeCounter
