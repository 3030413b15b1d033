import Mathlib.Data.List.Pairwise
import Mathlib.Data.List.Sort

/-!
# Sorting and searching slices

The slice operations of the standard library that validators and lookups rest on:
bisection for the end of a true prefix, membership by bisection, and checks of
neighbours in a sorted slice. A total order has one sorted arrangement up to equal
keys, so sorting is insertion sort here.

Neighbours are enough to exclude a conflict between any two elements when a
conflict between two elements reaches every element sorted between them.
-/

namespace SortedSlices

open Std.OrientedCmp List
open List hiding dedup

universe u
variable {α : Type u}

/-- The halving loop of `binary_search_by` from `base` over `size` elements. -/
def narrow (above : Nat → Bool) : Nat → Nat → Nat → Nat
  | 0, base, _ => base
  | fuel + 1, base, size =>
      if 1 < size then
        narrow above fuel (if above (base + size / 2) then base else base + size / 2)
          (size - size / 2)
      else base

/-- The loop ends on the last element that is not above the boundary, or on the
first element where there is none. -/
theorem narrow_boundary {above : Nat → Bool} {fuel : Nat} (base size : Nat) {boundary : Nat}
    (splits : ∀ index, index < base + size → (above index = true ↔ boundary ≤ index))
    (enough : size ≤ fuel) (some : 0 < size) (left : base < boundary ∨ base = 0)
    (right : boundary ≤ base + size) : narrow above fuel base size < base + size ∧
      (boundary = narrow above fuel base size + 1 ∨
        boundary = 0 ∧ narrow above fuel base size = 0) := by
  induction fuel generalizing base size with
  | zero => omega
  | succ fuel ih =>
    by_cases more : 1 < size
    · rw [narrow, if_pos more]
      have halved := splits (base + size / 2) (by omega)
      split
      next higher =>
        have below := halved.mp higher
        have rest := ih base (size - size / 2)
          (fun index inside => splits index (by omega)) (by omega) (by omega) left (by omega)
        exact ⟨by omega, rest.2⟩
      next higher =>
        have reached : base + size / 2 < boundary := by
          by_contra beyond
          exact higher (halved.mpr (by omega))
        have rest := ih (base + size / 2) (size - size / 2)
          (fun index inside => splits index (by omega)) (by omega) (by omega) (Or.inl reached)
          (by omega)
        exact ⟨by omega, rest.2⟩
    · rw [narrow, if_neg more]
      omega

variable (before : α → Bool) (items : List α)

/-- The comparison of an element with the point searched for. -/
def isAbove (index : Nat) : Bool :=
  match items[index]? with
  | some item => !before item
  | none => true

/-- `partition_point`: the number of elements before the point. -/
def partitionPoint : Nat :=
  let base := narrow (isAbove before items) items.length 0 items.length
  if isAbove before items base then base else base + 1

theorem narrow_lt (above : Nat → Bool) (fuel base size limit : Nat) (inside : base < limit)
    (fits : base + size ≤ limit) : narrow above fuel base size < limit := by
  induction fuel generalizing base size with
  | zero => exact inside
  | succ fuel ih =>
    rw [narrow]
    split_ifs with more higher
    · exact ih base (size - size / 2) inside (by omega)
    · exact ih (base + size / 2) (size - size / 2) (by omega) (by omega)
    · exact inside

theorem partitionPoint_le :
    partitionPoint before items ≤ items.length := by
  unfold partitionPoint
  cases items with
  | nil => rfl
  | cons first rest =>
    have inside := narrow_lt (isAbove before (first :: rest)) (first :: rest).length 0
      (first :: rest).length (first :: rest).length (by simp) (by simp)
    dsimp only
    split_ifs
    · exact inside.le
    · exact inside

section Prefix
variable (before : α → Bool) (front back : List α)

variable (fronts : ∀ item ∈ front, before item = true) (backs : ∀ item ∈ back, before item = false)

include fronts backs

theorem isAbove_append {index : Nat} (inside : index < (front ++ back).length) :
    isAbove before (front ++ back) index = true ↔ front.length ≤ index := by
  rw [isAbove, getElem?_eq_getElem inside]
  by_cases early : index < front.length
  · rw [getElem_append_left early]
    simp only [fronts _ (getElem_mem early)]
    simpa using early
  · have late : index - front.length < back.length := by
      rw [length_append] at inside
      omega
    rw [getElem_append_right (by omega)]
    simp only [backs _ (getElem_mem late)]
    simpa using Nat.not_lt.mp early

/-- On a slice that is a true prefix followed by a false rest, the loop ends on the
last element of the prefix, or on the first element where the prefix is empty. -/
theorem narrow_append (some : 0 < (front ++ back).length) :
    let last := narrow (isAbove before (front ++ back)) (front ++ back).length 0 (front ++ back).length
    last < (front ++ back).length ∧ (front.length = last + 1 ∨ front.length = 0 ∧ last = 0) := by
  have found := narrow_boundary 0 (front ++ back).length
    (fun index inside => isAbove_append before front back fronts backs (by omega))
    (Nat.le_refl _) some (Or.inr rfl) (by simp)
  rwa [Nat.zero_add] at found

/-- The partition point of such a slice is the length of the prefix. -/
theorem partitionPoint_append : partitionPoint before (front ++ back) = front.length := by
  unfold partitionPoint
  by_cases empty : (front ++ back).length = 0
  · obtain ⟨rfl, rfl⟩ := append_eq_nil_iff.mp (length_eq_zero_iff.mp empty)
    rfl
  · have found := narrow_append before front back fronts backs (by omega)
    generalize narrow _ (front ++ back).length 0 (front ++ back).length = base at found ⊢
    dsimp only at found
    have splits := isAbove_append before front back fronts backs found.1
    by_cases higher : isAbove before (front ++ back) base = true
    · have beyond := splits.mp higher
      rw [if_pos higher]
      omega
    · have short : ¬front.length ≤ base := fun beyond => higher (splits.mpr beyond)
      rw [if_neg higher]
      omega

end Prefix

/-- `binary_search(key).is_ok()`: compare the element the halving loop ends on. -/
def binarySearch (items : List Nat) (key : Nat) : Bool :=
  items[narrow (isAbove (· ≤ key) items) items.length 0 items.length]? == some key

/-- `binary_search_by(compare).is_ok()`: compare the element the halving loop ends on. -/
def searchBy (compare : α → Ordering) (items : List α) : Bool :=
  match items[narrow (isAbove (fun item => compare item != .gt) items) items.length 0 items.length]? with
  | some item => compare item == .eq
  | none => false

variable {items : List α}

/-- Where a property of an element is shared by all elements before it, a slice is a prefix
that has it and a rest that has it not. -/
theorem exists_split {before : α → Bool}
    (ordered : items.Pairwise fun left right => before right = true → before left = true) :
    ∃ front back, items = front ++ back ∧ (∀ item ∈ front, before item = true) ∧
      ∀ item ∈ back, before item = false := by
  induction items with
  | nil => exact ⟨[], [], rfl, nofun, nofun⟩
  | cons first rest ih =>
    obtain ⟨heads, tails⟩ := pairwise_cons.mp ordered
    by_cases early : before first = true
    · obtain ⟨front, back, rfl, fronts, backs⟩ := ih tails
      exact ⟨first :: front, back, rfl, forall_mem_cons.mpr ⟨early, fronts⟩, backs⟩
    · refine ⟨[], first :: rest, rfl, nofun, ?_⟩
      intro item member
      apply Bool.eq_false_of_not_eq_true
      obtain rfl | later := mem_cons.mp member
      · exact early
      · exact fun holds => early (heads item later holds)

/-- On a slice whose elements compare first as less, then as equal, then as greater,
bisection decides whether one of them compares as equal. -/
theorem searchBy_iff {compare : α → Ordering} (ordered : items.Pairwise fun left right =>
      (compare left = .gt → compare right = .gt) ∧ (compare right = .lt → compare left = .lt)) :
    searchBy compare items = true ↔ ∃ item ∈ items, compare item = .eq := by
  unfold searchBy
  constructor
  · intro found
    split at found
    next item present => exact ⟨item, mem_of_getElem? present, beq_iff_eq.mp found⟩
    next => cases found
  rintro ⟨item, member, equal⟩
  have ends := ordered.imp fun {left right} related
      (holds : (compare right != .gt) = true) =>
    bne_iff_ne.mpr fun greater => bne_iff_ne.mp holds (related.1 greater)
  obtain ⟨front, back, rfl, fronts, backs⟩ := exists_split ends
  have inFront : item ∈ front := by
    obtain early | late := mem_append.mp member
    · exact early
    · have greater := backs item late
      rw [equal] at greater
      cases greater
  obtain ⟨start, last, rfl⟩ : ∃ start last, front = start ++ [last] :=
    ⟨front.dropLast, front.getLast (ne_nil_of_mem inFront), (dropLast_append_getLast _).symm⟩
  have stops := (narrow_append _ (start ++ [last]) back fronts backs
    (length_pos_of_mem (mem_append_left back inFront))).2
  have length : (start ++ [last]).length = start.length + 1 := by simp
  rw [length, Nat.add_right_cancel_iff, or_iff_left (by omega)] at stops
  rw [← stops, append_assoc, getElem?_append_right (Nat.le_refl _), Nat.sub_self]
  -- the last element of the prefix is not greater, and not less than one that is equal
  have notGreater := bne_iff_ne.mp (fronts last (by simp))
  have notLess : compare last ≠ .lt := by
    intro less
    obtain early | same := mem_append.mp inFront
    · have related := (pairwise_append.mp (pairwise_append.mp ordered).1).2.2
      have impossible := (related item early last (by simp)).2 less
      rw [equal] at impossible
      cases impossible
    · rw [mem_singleton.mp same, less] at equal
      cases equal
  show (compare last == .eq) = true
  cases order : compare last with
  | lt => exact absurd order notLess
  | eq => rfl
  | gt => exact absurd order notGreater

/-- A search for a number compares the elements with it. -/
theorem binarySearch_eq (items : List Nat) (key : Nat) :
    binarySearch items key = searchBy (fun item => compare item key) items := by
  have tests : (fun item => decide (item ≤ key)) = fun item => compare item key != .gt := by
    funext item
    rw [Bool.eq_iff_iff, decide_eq_true_iff, bne_iff_ne, ne_eq, compare_gt_iff_gt, not_lt]
  rw [binarySearch, searchBy, tests]
  cases items[narrow _ items.length 0 items.length]? with
  | none => rfl
  | some item => rw [Bool.eq_iff_iff, beq_iff_eq, beq_iff_eq, compare_eq_iff_eq, Option.some.injEq]

/-- On a sorted slice bisection decides membership. -/
theorem binarySearch_iff {items : List Nat} (sorted : items.Pairwise (· ≤ ·)) (key : Nat) :
    binarySearch items key = true ↔ key ∈ items := by
  rw [binarySearch_eq, searchBy_iff]
  · simp only [compare_eq_iff_eq, exists_eq_right]
  · refine sorted.imp fun {left right} below => ?_
    simp only [compare_gt_iff_gt, compare_lt_iff_lt]
    exact ⟨fun greater => greater.trans_le below, below.trans_lt⟩

/-- `sort_by` and `sort_unstable_by`: equal keys keep their order. -/
def sortBy (compare : α → α → Ordering) (items : List α) : List α :=
  items.insertionSort fun left right => (compare left right).isLE = true

theorem sortBy_perm (compare : α → α → Ordering) (items : List α) :
    (sortBy compare items).Perm items := perm_insertionSort _ items

theorem sortBy_sorted (compare : α → α → Ordering) [Std.TransCmp compare] (items : List α) :
    (sortBy compare items).Pairwise fun left right => (compare left right).isLE = true := by
  have total : Std.Total fun left right => (compare left right).isLE = true := by
    constructor
    intro left right
    have swapped : compare right left = (compare left right).swap := eq_swap
    rw [swapped]
    cases compare left right <;> simp
  have transitive : IsTrans α fun left right => (compare left right).isLE = true :=
    ⟨fun _ _ _ first second => Std.TransCmp.isLE_trans first second⟩
  exact pairwise_insertionSort _ items

/-- Where only equal items compare as equal, sorting forgets the order. -/
theorem sortBy_congr (compare : α → α → Ordering) [Std.TransCmp compare] [Std.LawfulEqCmp compare]
    {others : List α} (same : items.Perm others) :
    sortBy compare items = sortBy compare others := by
  refine List.Perm.eq_of_pairwise ?_ (sortBy_sorted compare items) (sortBy_sorted compare others)
    (((sortBy_perm compare items).trans same).trans (sortBy_perm compare others).symm)
  intro left right _ _ before after
  exact Std.LawfulEqCmp.eq_of_compare (isLE_antisymm before after)

/-- Sorting finds the one order in which no two items compare as equal. -/
theorem sortBy_eq_of_perm {compare : α → α → Ordering} [Std.TransCmp compare] {sorted : List α}
    (same : items.Perm sorted) (strict : sorted.Pairwise fun left right => compare left right = .lt) :
    sortBy compare items = sorted := by
  have ordered : sorted.Pairwise fun left right => (compare left right).isLE = true :=
    strict.imp fun before => by rw [before]; rfl
  refine List.Perm.eq_of_pairwise ?_ (sortBy_sorted compare items) ordered
    ((sortBy_perm compare items).trans same)
  intro left right inside within before after
  have equal : compare left right = .eq := isLE_antisymm before after
  have distinct : sorted.Pairwise fun left right => compare left right = .eq → left = right :=
    strict.imp fun before equal => nomatch before.symm.trans equal
  have symmetric : Std.Symm fun left right => compare left right = .eq → left = right :=
    ⟨fun _ _ only equal => (only (eq_symm equal)).symm⟩
  have listed : left ∈ sorted := ((sortBy_perm compare items).trans same).mem_iff.mp inside
  exact distinct.forall_of_forall (fun _ _ _ => rfl) listed within equal

/-- `sort_unstable` of numbers. -/
theorem sort_sorted (items : List Nat) : (sortBy compare items).Pairwise (· ≤ ·) :=
  (sortBy_sorted compare items).imp Nat.isLE_compare.mp

/-- The given number of items with the smallest keys, in order. -/
structure Smallest {β : Type u} [LT β] (key : α → β) (count : Nat) (items selected : List α) :
    Prop where
  length : selected.length = min count items.length
  mem : ∀ item ∈ selected, item ∈ items
  increasing : selected.Pairwise fun first second => key first < key second
  others : ∀ item ∈ items, item ∉ selected → ∀ smaller ∈ selected, key smaller < key item

/-- If no two keys are the same, then the items with the smallest keys come first in any sorted
arrangement. -/
theorem smallest_take {β : Type u} [PartialOrder β] {key : α → β} {sorted : List α}
    (perm : sorted.Perm items)
    (ordered : sorted.Pairwise fun first second => key first ≤ key second)
    (distinct : (items.map key).Nodup) (count : Nat) :
    Smallest key count items (sorted.take count) := by
  have different : sorted.Pairwise fun first second => key first ≠ key second :=
    pairwise_map.mp ((perm.map key).nodup_iff.mpr distinct)
  have increasing : sorted.Pairwise fun first second => key first < key second :=
    ordered.imp₂ (fun _ _ atMost differ => lt_of_le_of_ne atMost differ) different
  refine ⟨?_, fun item inside => ?_, increasing.take, fun item inside outside => ?_⟩
  · rw [length_take, perm.length_eq]
  · exact perm.mem_iff.mp (mem_of_mem_take inside)
  · have split := perm.mem_iff.mpr inside
    rw [← take_append_drop count sorted] at split increasing
    have later := (mem_append.mp split).resolve_left outside
    exact fun smaller early => (pairwise_append.mp increasing).2.2 smaller early item later

/-- `Vec::dedup`: drop an element that equals the one before it. -/
def dedup [DecidableEq α] : List α → List α
  | [] => []
  | [item] => [item]
  | first :: second :: rest =>
      if first = second then dedup (second :: rest) else first :: dedup (second :: rest)

theorem mem_dedup [DecidableEq α] (items : List α) (item : α) : item ∈ dedup items ↔ item ∈ items := by
  fun_induction dedup items with
  | case1 => rfl
  | case2 => rfl
  | case3 first rest ih => simp [ih]
  | case4 first second rest different ih => simp [ih]

theorem dedup_sublist [DecidableEq α] (items : List α) : (dedup items).Sublist items := by
  fun_induction dedup items with
  | case1 => exact List.Sublist.refl _
  | case2 => exact List.Sublist.refl _
  | case3 first rest ih => exact ih.cons _
  | case4 first second rest different ih => exact ih.cons_cons _

/-- `windows(2)`. -/
def neighbours (items : List α) : List (α × α) := items.zip items.tail

/-- Where a conflict with a later element reaches the elements in between, a sorted
slice without a conflict between neighbours has none at all. -/
theorem pairwise_of_neighbours (le conflict : α → α → Prop) (sorted : items.Pairwise le)
    (reaches : ∀ first middle last, le first middle → le middle last → conflict first last →
      conflict first middle) (separate : ∀ pair ∈ neighbours items, ¬conflict pair.1 pair.2) :
    items.Pairwise fun left right => ¬conflict left right := by
  induction items with
  | nil => exact List.Pairwise.nil
  | cons first rest ih =>
    obtain ⟨below, sortedRest⟩ := pairwise_cons.mp sorted
    cases rest with
    | nil => simp
    | cons second others =>
      have here : ¬conflict first second := separate (first, second) (by simp [neighbours])
      refine pairwise_cons.mpr ⟨?_, ih sortedRest ?_⟩
      · intro last member clash
        obtain rfl | later := mem_cons.mp member
        · exact here clash
        · have ordered := (pairwise_cons.mp sortedRest).1 last later
          exact here (reaches first second last (below second (by simp)) ordered clash)
      · intro pair member
        exact separate pair (mem_cons_of_mem _ member)

theorem pairwise_neighbours {relation : α → α → Prop} (related : items.Pairwise relation) :
    ∀ pair ∈ neighbours items, relation pair.1 pair.2 := by
  induction items with
  | nil => simp [neighbours]
  | cons first rest ih =>
    obtain ⟨heads, tails⟩ := pairwise_cons.mp related
    cases rest with
    | nil => simp [neighbours]
    | cons second others =>
      exact forall_mem_cons.mpr ⟨heads second (by simp), ih tails⟩

/-- In lexicographic order, what lies between a sequence and an extension of it is an
extension as well. -/
theorem prefix_of_between {compare : α → α → Ordering} [Std.OrientedCmp compare]
    [Std.LawfulEqCmp compare] {first : List α} (middle last : List α)
    (lower : (List.compareLex compare first middle).isLE = true)
    (upper : (List.compareLex compare middle last).isLE = true) (extension : first <+: last) :
    first <+: middle := by
  induction first generalizing middle last with
  | nil => exact nil_prefix
  | cons item first ih =>
    obtain ⟨rest, rfl⟩ := extension
    cases middle with
    | nil => simp [List.compareLex] at lower
    | cons other middle =>
      rw [List.compareLex_cons_cons] at lower
      rw [cons_append, List.compareLex_cons_cons] at upper
      have swapped : compare other item = (compare item other).swap := eq_swap
      rw [swapped] at upper
      have equal : compare item other = .eq := by
        cases order : compare item other <;> simp [order] at lower upper ⊢
      obtain rfl := Std.LawfulEqCmp.eq_of_compare equal
      rw [equal] at lower upper
      exact cons_prefix_cons.mpr
        ⟨rfl, ih middle (first ++ rest) lower upper ⟨rest, rfl⟩⟩

/-- A sequence does not come after its extensions. -/
theorem isLE_of_prefix (compare : α → α → Ordering) [Std.ReflCmp compare]
    {first : List α} (last : List α) (extension : first <+: last) :
    (List.compareLex compare first last).isLE = true := by
  induction first generalizing last with
  | nil => cases last <;> simp [List.compareLex]
  | cons item first ih =>
    obtain ⟨rest, rfl⟩ := extension
    have equal : compare item item = .eq := Std.ReflCmp.compare_self
    rw [cons_append, List.compareLex_cons_cons, equal]
    exact ih (first ++ rest) ⟨rest, rfl⟩

end SortedSlices
