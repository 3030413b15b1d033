import TorrentNG.SortedSlices

/-!
# Half-open ranges of numbers

A set of numbers as a list of ranges, each with its first number and the number behind its
last one. Ranges sorted by their starts are merged in one pass; the result covers the same
numbers and its ranges lie apart, so that bisection finds the range of a number.
-/

namespace Ranges

open List SortedSlices

variable (ranges : List (Nat × Nat)) (point : Nat)

/-- A number that lies in one of the ranges. -/
def Covers : Prop :=
  ∃ range ∈ ranges, range.1 ≤ point ∧ point < range.2

/-- The numbers of the ranges, range after range. -/
def points : List Nat :=
  ranges.flatMap fun range => List.range' range.1 (range.2 - range.1)

theorem mem_points :
    point ∈ points ranges ↔ Covers ranges point := by
  simp only [points, Covers, mem_flatMap, mem_range'_1]
  constructor
  · rintro ⟨range, member, first, last⟩
    exact ⟨range, member, first, by omega⟩
  · rintro ⟨range, member, first, last⟩
    exact ⟨range, member, first, by omega⟩

variable (range : Nat × Nat)

theorem covers_cons (rest : List (Nat × Nat)) (point : Nat) :
    Covers (range :: rest) point ↔ (range.1 ≤ point ∧ point < range.2) ∨ Covers rest point := by
  simp only [Covers, mem_cons, exists_eq_or_imp]

theorem covers_congr {left right : List (Nat × Nat)} (same : left.Perm right) {point : Nat} :
    Covers left point ↔ Covers right point := by
  simp only [Covers, same.mem_iff]

/-! ## Merging -/

/-- Merge sorted ranges into a current range, which ends up in the result as soon as a range
starts behind its end. -/
def mergeFrom (current : Nat × Nat) : List (Nat × Nat) → List (Nat × Nat)
  | [] => [current]
  | range :: rest =>
      if range.1 ≤ current.2 then mergeFrom (current.1, max current.2 range.2) rest
      else current :: mergeFrom range rest

/-- Merge sorted ranges. -/
def merge : List (Nat × Nat) → List (Nat × Nat)
  | [] => []
  | range :: rest => mergeFrom range rest

/-- Ranges in order of their starts. -/
def Ordered : Prop := ranges.Pairwise fun left right => left.1 ≤ right.1

/-- Ranges in order with a gap between any two of them. -/
def Separated : Prop :=
  ranges.Pairwise fun left right => left.1 ≤ right.1 ∧ left.2 < right.1

theorem Ordered.absorb {current range : Nat × Nat} {rest : List (Nat × Nat)}
    (ordered : Ordered (current :: range :: rest)) (last : Nat) : Ordered ((current.1, last) :: rest) :=
  pairwise_cons.mpr (pairwise_cons.mp
    (ordered.sublist ((sublist_cons_self range rest).cons_cons current)))

section

variable (current : Nat × Nat) (ranges : List (Nat × Nat)) (ordered : Ordered (current :: ranges))

include ordered

/-- Merging covers the same numbers; the ranges lie apart, from the start of the current one on. -/
theorem mergeFrom_spec :
    (∀ point, Covers (mergeFrom current ranges) point ↔ Covers (current :: ranges) point) ∧
      (∀ range ∈ mergeFrom current ranges, current.1 ≤ range.1) ∧
      Separated (mergeFrom current ranges) := by
  induction ranges generalizing current with
  | nil =>
    exact ⟨fun _ => Iff.rfl, forall_mem_singleton.mpr (Nat.le_refl _), pairwise_singleton _ _⟩
  | cons next rest ih =>
    obtain ⟨heads, tails⟩ := pairwise_cons.mp ordered
    have first := heads next mem_cons_self
    unfold mergeFrom
    split
    next touches =>
      obtain ⟨covered, behind⟩ := ih _ (ordered.absorb (max current.2 next.2))
      refine ⟨fun point => ?_, behind⟩
      rw [covered, covers_cons, covers_cons, covers_cons, ← or_assoc]
      apply or_congr_left
      omega
    next apart =>
      obtain ⟨covered, starts, separated⟩ := ih next tails
      refine ⟨fun point => ?_, forall_mem_cons.mpr ⟨Nat.le_refl _, ?_⟩,
        pairwise_cons.mpr ⟨?_, separated⟩⟩
      · rw [covers_cons, covers_cons, covered]
      · exact fun range member => first.trans (starts range member)
      · intro range member
        have start := starts range member
        omega

end

variable {ranges : List (Nat × Nat)}

theorem merge_spec (ordered : Ordered ranges) :
    (∀ point, Covers (merge ranges) point ↔ Covers ranges point) ∧ Separated (merge ranges) := by
  cases ranges with
  | nil => exact ⟨fun _ => Iff.rfl, List.Pairwise.nil⟩
  | cons range rest =>
    obtain ⟨covered, _, separated⟩ := mergeFrom_spec range rest ordered
    exact ⟨covered, separated⟩

/-! ## Bisection -/

/-- Where a range lies, seen from a number. -/
def locate : Ordering :=
  if point < range.1 then .gt else if range.2 ≤ point then .lt else .eq

theorem locate_spec :
    (locate point range = .gt ↔ point < range.1) ∧
      (locate point range = .lt ↔ range.1 ≤ point ∧ range.2 ≤ point) ∧
      (locate point range = .eq ↔ range.1 ≤ point ∧ point < range.2) := by
  unfold locate
  split_ifs with before behind <;> simp only [true_iff, false_iff] <;> omega

/-- Bisection over separated ranges finds the range of a number. -/
theorem searchBy_locate (separated : Separated ranges) {point : Nat} :
    searchBy (locate point) ranges = true ↔ Covers ranges point := by
  have ordered : ranges.Pairwise fun left right =>
      (locate point left = .gt → locate point right = .gt) ∧
        (locate point right = .lt → locate point left = .lt) := by
    apply separated.imp
    intro left right related
    simp only [locate_spec]
    omega
  rw [searchBy_iff ordered]
  simp only [Covers, locate_spec]

end Ranges
