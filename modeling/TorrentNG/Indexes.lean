import TorrentNG.Tables

/-!
# Secondary indexes

A store gives some of its items a name, which is a partial function `named`. Three indexes
over the names are kept beside the store: a table that inverts it, a division of the items
into parts by a function of their names, and lists of the items whose names share a group.
Each index is described by what it says of `named` alone, and has one rule for an item that
enters the store and one for an item that leaves it, both from one rule for items in places;
an update that keeps every name keeps every index.
-/

namespace Indexes

open Function List Tables AList Option

universe u v w
variable {α : Type u} {β : Type v} {γ : Type w}

/-! ## Items in places -/

/-- Every item whose name has a place is in that place, and in no other. -/
def Places (holds : γ → α → Prop) (place : β → Option γ) (named : α → Option β) : Prop :=
  ∀ here item, holds here item ↔ ∃ name, named item = some name ∧ place name = some here

namespace Places

variable [DecidableEq α] {holds after : γ → α → Prop} {place : β → Option γ} {named : α → Option β}
  {item : α} {name : β} {there : γ} (places : Places holds place named)

include places

theorem enter (unnamed : named item = none) (placed : place name = some there)
    (adds : ∀ here other, after here other ↔ holds here other ∨ here = there ∧ other = item) :
    Places after place (update named item (some name)) := by
  intro here other
  rw [adds, places]
  by_cases same : other = item
  · subst same
    simp [update_self, unnamed, placed, eq_comm]
  · simp [same]

theorem leave (present : named item = some name) (placed : place name = some there)
    (removes : ∀ here other, after here other ↔ holds here other ∧ ¬(here = there ∧ other = item)) :
    Places after place (update named item none) := by
  intro here other
  rw [removes, places]
  by_cases same : other = item
  · subst same
    simp [update_self, present, placed, eq_comm]
  · simp [same]

end Places

/-! ## Inverse tables -/

/-- The table finds the items by their names; so no two items share a name. -/
def Inverts [DecidableEq β] (table : Table β α) (named : α → Option β) : Prop :=
  ∀ name item, table.lookup name = some item ↔ named item = some name

variable {name : β} {item : α}

namespace Inverts

variable [DecidableEq β] {table : Table β α} {named : α → Option β}

theorem mem_keys_iff (inverts : Inverts table named) :
    name ∈ table.keys ↔ ∃ item, named item = some name := by
  rw [← AList.mem_keys, ← AList.lookup_isSome, isSome_iff_exists]
  exact exists_congr fun item => inverts name item

theorem iff_places :
    Inverts table named ↔ Places (fun name item => table.lookup name = some item) some named := by
  simp [Inverts, Places]

variable [DecidableEq α]

theorem enter (inverts : Inverts table named) (unnamed : named item = none)
    (unused : table.lookup name = none) :
    Inverts (table.insert name item) (update named item (some name)) := by
  rw [iff_places] at inverts ⊢
  refine inverts.enter unnamed rfl fun other candidate => ?_
  rw [lookup_insert_eq_some]
  by_cases same : other = name
  · subst same
    simp [unused]
  · simp [same]

theorem leave (inverts : Inverts table named)
    (present : named item = some name) : Inverts (table.erase name) (update named item none) := by
  have found := (inverts name item).mpr present
  rw [iff_places] at inverts ⊢
  refine inverts.leave present rfl fun other candidate => ?_
  by_cases same : other = name
  · subst same
    simp [found, eq_comm]
  · simp [same]

end Inverts

/-! ## Divisions into parts -/

/-- Every named item is in the part of its name, and in no other. -/
def Divides (parts : γ → Finset α) (part : β → γ) (named : α → Option β) : Prop :=
  ∀ place item, item ∈ parts place ↔ ∃ name, named item = some name ∧ part name = place

namespace Divides

variable {parts : γ → Finset α} {part : β → γ} {named : α → Option β}

theorem iff_places : Divides parts part named ↔
    Places (fun place item => item ∈ parts place) (some ∘ part) named := by
  simp [Divides, Places]

variable [DecidableEq α] [DecidableEq γ]

theorem enter (divides : Divides parts part named) (unnamed : named item = none)
    (name : β) : Divides (update parts (part name) (insert item (parts (part name)))) part
      (update named item (some name)) := by
  rw [iff_places] at divides ⊢
  refine divides.enter unnamed rfl fun place candidate => ?_
  by_cases same : place = part name
  · simp [same, or_comm]
  · simp [same]

theorem leave (divides : Divides parts part named)
    (present : named item = some name) :
    Divides (update parts (part name) ((parts (part name)).erase item)) part
      (update named item none) := by
  rw [iff_places] at divides ⊢
  refine divides.leave present rfl fun place candidate => ?_
  by_cases same : place = part name
  · simp [same, and_comm]
  · simp [same]

end Divides

/-! ## Lists by group -/

section Groups

variable [DecidableEq γ] (lists : Table γ (List α)) (group : γ)

/-- The items listed for a group; a group without a list has none. -/
def listed : List α := (lists.lookup group).getD []

/-- List an item, last, for a group. -/
def push (item : α) : Table γ (List α) :=
  lists.insert group (listed lists group ++ [item])

/-- Keep a list for a group unless it is empty. -/
def store (items : List α) : Table γ (List α) :=
  if items.isEmpty then lists.erase group else lists.insert group items

theorem listed_push (other : γ) (item : α) :
    listed (push lists group item) other =
      if other = group then listed lists group ++ [item] else listed lists other := by
  by_cases same : other = group
  · subst same
    rw [listed, push, lookup_insert, if_pos rfl, getD_some]
  · rw [listed, push, lookup_insert_ne same, if_neg same, listed]

theorem listed_store (other : γ) (items : List α) :
    listed (store lists group items) other = if other = group then items else listed lists other := by
  by_cases empty : items.isEmpty = true
  · rw [store, if_pos empty]
    by_cases same : other = group
    · subst same
      rw [listed, lookup_erase, if_pos rfl, isEmpty_iff.mp empty, getD_none]
    · rw [listed, lookup_erase_ne same, if_neg same, listed]
  · rw [store, if_neg empty]
    by_cases same : other = group
    · subst same
      rw [listed, lookup_insert, if_pos rfl, getD_some]
    · rw [listed, lookup_insert_ne same, if_neg same, listed]

/-- The list of each group has every item whose name is of the group, once. -/
structure Groups (lists : Table γ (List α)) (group : β → Option γ) (named : α → Option β) :
    Prop where
  distinct : ∀ place, (listed lists place).Nodup
  mem : ∀ place item, item ∈ listed lists place ↔ ∃ name, named item = some name ∧
    group name = some place

namespace Groups

variable {lists : Table γ (List α)} {group : β → Option γ} {named : α → Option β}

/-- Every listed item has a name, so that the first names are those of the first items. -/
theorem filterMap_take (groups : Groups lists group named) (place : γ) (count : Nat) :
    ((listed lists place).take count).filterMap named =
      ((listed lists place).filterMap named).take count := by
  have present : ∀ item ∈ listed lists place, (named item).isSome := by
    intro item inside
    obtain ⟨name, found, _⟩ := (groups.mem place item).mp inside
    rw [found]
    rfl
  generalize listed lists place = items at present
  induction items generalizing count with
  | nil => rw [take_nil, filterMap_nil, take_nil]
  | cons item rest ih =>
    obtain ⟨name, found⟩ := isSome_iff_exists.mp (present item mem_cons_self)
    cases count with
    | zero => rfl
    | succ count =>
      rw [take_succ_cons, filterMap_cons_some found, filterMap_cons_some found, take_succ_cons, ih]
      exact fun other inside => present other (mem_cons_of_mem item inside)

/-- The names of the items listed for a group are the registered names of the group. -/
theorem names_perm [DecidableEq β] (groups : Groups lists group named) {table : Table β α}
    (inverts : Inverts table named) (place : γ) : ((listed lists place).filterMap named).Perm
      (table.keys.filter fun name => decide (group name = some place)) := by
  apply (perm_ext_iff_of_nodup ?_ (table.keys_nodup.filter _)).mpr
  · intro name
    rw [mem_filterMap, mem_filter, inverts.mem_keys_iff, decide_eq_true_eq]
    constructor
    · rintro ⟨item, inside, present⟩
      obtain ⟨same, alsoPresent, grouped⟩ := (groups.mem place item).mp inside
      rw [present] at alsoPresent
      exact ⟨⟨item, present⟩, Option.some.inj alsoPresent ▸ grouped⟩
    · rintro ⟨⟨item, present⟩, grouped⟩
      exact ⟨item, (groups.mem place item).mpr ⟨name, present, grouped⟩, present⟩
  · apply (groups.distinct place).filterMap
    intro first second name present alsoPresent
    have found := (inverts name first).mpr present
    rw [(inverts name second).mpr alsoPresent] at found
    exact (Option.some.inj found).symm

variable [DecidableEq α] {item : α} {name : β} {place : γ}

variable (groups : Groups lists group named)

include groups

/-- Lists that a step leaves alone are right if the item that enters or leaves has no group. -/
theorem update_ungrouped {name : Option β}
    (before : ∀ old, named item = some old → group old = none)
    (after : ∀ new, name = some new → group new = none) :
    Groups lists group (update named item name) := by
  refine ⟨groups.distinct, fun place candidate => ?_⟩
  rw [groups.mem]
  by_cases same : candidate = item
  · subst same
    rw [update_self]
    constructor
    · rintro ⟨old, present, here⟩
      rw [before old present] at here
      exact nomatch here
    · rintro ⟨new, present, here⟩
      rw [after new present] at here
      exact nomatch here
  · rw [update_of_ne same]

theorem enter (unnamed : named item = none) (grouped : group name = some place) :
    Groups (push lists place item) group (update named item (some name)) := by
  have outside : ∀ other, item ∉ listed lists other := by
    intro other inside
    obtain ⟨old, present, _⟩ := (groups.mem other item).mp inside
    rw [unnamed] at present
    exact nomatch present
  constructor
  · intro other
    rw [listed_push]
    split
    next =>
      apply List.Nodup.append (groups.distinct place) (nodup_singleton item)
      exact disjoint_singleton.mpr (outside place)
    next => exact groups.distinct other
  · refine Places.enter groups.mem unnamed grouped fun other candidate => ?_
    rw [listed_push]
    by_cases same : other = place
    · simp [same]
    · simp [same]

theorem leave (present : named item = some name) (grouped : group name = some place) :
    Groups (store lists place ((listed lists place).filter fun other => decide (other ≠ item)))
      group (update named item none) := by
  constructor
  · intro other
    rw [listed_store]
    split
    next => exact (groups.distinct place).filter _
    next => exact groups.distinct other
  · refine Places.leave groups.mem present grouped fun other candidate => ?_
    rw [listed_store]
    by_cases same : other = place
    · simp [same]
    · simp [same]

/-- An item of a group is listed, so that taking it off its list shortens the list. -/
theorem length_filter_lt (present : named item = some name) (grouped : group name = some place) :
    ((listed lists place).filter fun other => decide (other ≠ item)).length <
      (listed lists place).length := by
  apply length_filter_lt_length_iff_exists.mpr
  refine ⟨item, (groups.mem place item).mpr ⟨name, present, grouped⟩, ?_⟩
  simp only [ne_eq, not_true_eq_false, decide_false, Bool.false_eq_true, not_false_eq_true]

end Groups

end Groups

end Indexes
