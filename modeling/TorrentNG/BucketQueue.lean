import Mathlib.Data.Finset.Sort
import Mathlib.Data.List.MinMax
import Mathlib.Data.Prod.Lex

/-!
# Items in buckets by level

A list of sets keeps each item in the set of its level, so that items can be visited by
level, and by value within a level, without sorting. Level zero stands for an item that is
not kept at all. `Placed` states that the buckets hold exactly the items of a placement,
and it survives moving one item from its level to another; under it the walk over the
buckets is the sorted order of `(level, item)`.
-/

namespace BucketQueue

open List Finset

variable (buckets : List (Finset Nat)) (level : Nat)

/-- The items at a level; levels that were never used are empty. -/
def bucket : Finset Nat := buckets[level]?.getD ∅

/-- Put an item into the bucket of its level, extending the list up to the level. -/
def bucketInsert (item : Nat) : List (Finset Nat) :=
  if level = 0 then buckets
  else
    let resized := buckets ++ List.replicate (level + 1 - buckets.length) ∅
    resized.modify level (insert item ·)

/-- Take an item out of the bucket of its level. -/
def bucketRemove (item : Nat) : List (Finset Nat) :=
  if level = 0 then buckets else buckets.modify level (·.erase item)

/-- The items from the lowest level upward, each bucket in ascending order. -/
def walk : List Nat :=
  (buckets.drop 1).flatMap fun items => items.sort

/-- The first item of the walk that a predicate accepts. -/
def firstMatching (predicate : Nat → Bool) : Option Nat :=
  (buckets.drop 1).findSome? fun items => items.sort.find? predicate

/-- The buckets hold each item exactly at its level, and no item of level zero. -/
def Placed (level : Nat → Nat) : Prop :=
  ∀ item place, item ∈ bucket buckets place ↔ level item = place ∧ 0 < place

/-- Lower levels come first, and lower items within a level. -/
def rank (level : Nat → Nat) (item : Nat) : Nat ×ₗ Nat := toLex (level item, item)

variable {level : Nat → Nat} {buckets : List (Finset Nat)}

theorem rank_lt_rank {first second : Nat} : rank level first < rank level second ↔
      level first < level second ∨ level first = level second ∧ first < second :=
  Prod.Lex.toLex_lt_toLex

theorem rank_injective (level : Nat → Nat) : Function.Injective (rank level) := by
  intro first second same
  exact congrArg Prod.snd (toLex.injective same)

theorem bucket_resized (buckets : List (Finset Nat)) (size other : Nat) :
    bucket (buckets ++ List.replicate size ∅) other = bucket buckets other := by
  by_cases inside : other < buckets.length
  · rw [bucket, bucket, getElem?_append_left inside]
  · have outside : buckets[other]? = none := getElem?_eq_none (Nat.le_of_not_lt inside)
    rw [bucket, bucket, getElem?_append_right (Nat.le_of_not_lt inside), outside,
      getElem?_replicate]
    split <;> rfl

section

variable {place item other : Nat} (level : Nat)

theorem mem_bucketInsert : other ∈ bucket (bucketInsert buckets level item) place ↔
    (other = item ∧ level = place ∧ 0 < level) ∨ other ∈ bucket buckets place := by
  by_cases zero : level = 0
  · simp [bucketInsert, zero]
  rw [bucketInsert, if_neg zero, ← bucket_resized buckets (level + 1 - buckets.length) place]
  generalize resized : buckets ++ List.replicate (level + 1 - buckets.length) ∅ = extended
  have long : level < extended.length := by
    rw [← resized, length_append, length_replicate]
    omega
  rw [bucket, bucket, getElem?_modify]
  by_cases same : level = place
  · subst same
    rw [getElem?_eq_getElem long]
    simp [Nat.pos_of_ne_zero zero]
  · simp [same]

theorem mem_bucketRemove : other ∈ bucket (bucketRemove buckets level item) place ↔
    ¬(other = item ∧ level = place ∧ 0 < level) ∧ other ∈ bucket buckets place := by
  by_cases zero : level = 0
  · simp [bucketRemove, zero]
  rw [bucketRemove, if_neg zero, bucket, bucket, getElem?_modify]
  by_cases same : level = place
  · subst same
    cases buckets[level]? with
    | none => simp
    | some items => simp [Nat.pos_of_ne_zero zero]
  · simp [same]

end

/-- Moving one item to another level keeps the buckets exact. -/
theorem Placed.move {before after : Nat → Nat} (placed : Placed buckets before) (item : Nat)
    (others : ∀ other, other ≠ item → after other = before other) :
    Placed (bucketInsert (bucketRemove buckets (before item) item) (after item) item) after := by
  intro other place
  rw [mem_bucketInsert, mem_bucketRemove, placed]
  by_cases same : other = item
  · subst same
    omega
  · rw [others other same]
    simp only [same, false_and, false_or, not_false_eq_true, true_and]

theorem mem_bucket_of_mem_drop {index : Nat} {items : Finset Nat}
    (found : (buckets.drop 1)[index]? = some items) : bucket buckets (1 + index) = items := by
  rw [getElem?_drop] at found
  rw [bucket, found, Option.getD_some]

/-- The walk visits every item that is kept. -/
theorem mem_walk (placed : Placed buckets level) {item : Nat} :
    item ∈ walk buckets ↔ 0 < level item := by
  rw [walk, mem_flatMap]
  constructor
  · rintro ⟨items, member, inside⟩
    obtain ⟨index, found⟩ := mem_iff_getElem?.mp member
    rw [mem_sort, ← mem_bucket_of_mem_drop found, placed] at inside
    omega
  · intro positive
    have inside := (placed item (level item)).mpr ⟨rfl, positive⟩
    rw [bucket] at inside
    match found : buckets[level item]? with
    | none =>
      rw [found] at inside
      exact absurd inside (notMem_empty item)
    | some items =>
      rw [found, Option.getD_some] at inside
      refine ⟨items, ?_, (mem_sort _).mpr inside⟩
      apply mem_iff_getElem?.mpr
      refine ⟨level item - 1, ?_⟩
      rw [getElem?_drop, show 1 + (level item - 1) = level item by omega, found]

/-- The walk is in the order of `rank`, without repetition. -/
theorem walk_sorted (placed : Placed buckets level) :
    (walk buckets).Pairwise fun first second => rank level first < rank level second := by
  -- an item in the bucket at an index has that index, shifted by one, as its level
  have levels : ∀ index items, (buckets.drop 1)[index]? = some items →
      ∀ item ∈ items.sort, level item = 1 + index := by
    intro index items found item inside
    rw [mem_sort, ← mem_bucket_of_mem_drop found, placed] at inside
    exact inside.1
  rw [walk, pairwise_flatMap]
  constructor
  · intro items member
    obtain ⟨index, found⟩ := mem_iff_getElem?.mp member
    refine (sortedLT_sort items).pairwise.imp_of_mem ?_
    intro first second firstIn secondIn smaller
    apply rank_lt_rank.mpr
    exact .inr ⟨(levels index items found first firstIn).trans
      (levels index items found second secondIn).symm, smaller⟩
  · rw [pairwise_iff_getElem]
    intro left right leftIn rightIn smaller first firstIn second secondIn
    apply rank_lt_rank.mpr
    left
    rw [levels left _ (getElem?_eq_getElem leftIn) first firstIn,
      levels right _ (getElem?_eq_getElem rightIn) second secondIn]
    omega

theorem walk_sorted_by {value : Nat → Nat} (placed : Placed buckets level)
    (agrees : ∀ item, 0 < level item → value item = level item) :
    (walk buckets).Pairwise fun first second => rank value first < rank value second := by
  refine (walk_sorted placed).imp_of_mem ?_
  intro first second firstIn secondIn smaller
  rw [rank, rank, agrees first ((mem_walk placed).mp firstIn),
    agrees second ((mem_walk placed).mp secondIn)]
  exact smaller

theorem firstMatching_eq_find (buckets : List (Finset Nat)) (predicate : Nat → Bool) :
    firstMatching buckets predicate = (walk buckets).find? predicate := by
  rw [firstMatching, walk, find?_flatMap]

/-- The first match in a sorted list comes before every other match. -/
theorem find?_sorted {precedes : Nat → Nat → Prop} {items : List Nat} {predicate : Nat → Bool}
    {first other : Nat} (sorted : items.Pairwise precedes)
    (found : items.find? predicate = some first) (member : other ∈ items)
    (accepted : predicate other = true) : other = first ∨ precedes first other := by
  have matching := mem_filter.mpr ⟨member, accepted⟩
  replace sorted := sorted.filter predicate
  rw [← head?_filter] at found
  cases listed : items.filter predicate with
  | nil =>
    rw [listed] at matching
    cases matching
  | cons head rest =>
    rw [listed] at matching sorted found
    obtain rfl := Option.some.inj found
    exact (mem_cons.mp matching).imp_right (rel_of_pairwise_cons sorted)

/-- A search through a sorted list finds the first of the items it is after, if there is one. -/
theorem find?_first {precedes : Nat → Nat → Prop} {items : List Nat} {predicate : Nat → Bool}
    {Sought : Nat → Prop} (sorted : items.Pairwise precedes)
    (sought : ∀ item, Sought item ↔ item ∈ items ∧ predicate item = true) :
    match items.find? predicate with
    | some item => Sought item ∧ ∀ other, Sought other → other = item ∨ precedes item other
    | none => ∀ item, ¬Sought item := by
  split
  next item found =>
    refine ⟨(sought item).mpr ⟨mem_of_find?_eq_some found, find?_some found⟩, fun other rival => ?_⟩
    obtain ⟨member, accepted⟩ := (sought other).mp rival
    exact find?_sorted sorted found member accepted
  next missing =>
    intro item rival
    obtain ⟨member, accepted⟩ := (sought item).mp rival
    exact find?_eq_none.mp missing item member accepted

/-- The first match of the walk is the accepted item of least rank, in whatever order the
items that are kept are listed. The level of the other items plays no part. -/
theorem firstMatching_eq_argmin {value : Nat → Nat} (placed : Placed buckets level)
    (agrees : ∀ item, 0 < level item → value item = level item) (predicate : Nat → Bool)
    (candidates : List Nat)
    (members : ∀ item, item ∈ candidates ↔ 0 < level item ∧ predicate item = true) :
    firstMatching buckets predicate = candidates.argmin (rank value) := by
  rw [firstMatching_eq_find]
  symm
  cases found : (walk buckets).find? predicate with
  | none =>
    refine argmin_eq_none.mpr (eq_nil_iff_forall_not_mem.mpr fun item member => ?_)
    obtain ⟨kept, accepted⟩ := (members item).mp member
    exact find?_eq_none.mp found item ((mem_walk placed).mpr kept) accepted
  | some first =>
    have least : ∀ other ∈ candidates, rank value first ≤ rank value other := by
      intro other member
      obtain ⟨kept, accepted⟩ := (members other).mp member
      rcases find?_sorted (walk_sorted_by placed agrees) found ((mem_walk placed).mpr kept)
        accepted with rfl | later
      · exact le_refl _
      · exact le_of_lt later
    rw [argmin_eq_some_iff, members]
    refine ⟨⟨(mem_walk placed).mp (mem_of_find?_eq_some found), find?_some found⟩, least, ?_⟩
    intro other member below
    rw [rank_injective value (le_antisymm below (least other member))]

end BucketQueue
