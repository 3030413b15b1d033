import Mathlib.Algebra.Order.BigOperators.Ring.Finset
import Mathlib.Data.List.AList

/-!
# Finite tables and totals over them

A table is Mathlib's association list without repeated keys. Added here are what programs
that account for their tables need: the list of the values, a change of every value in place,
and the sum of a measure over the entries, with what inserting, replacing and erasing an
entry does to them.
-/

namespace Tables

open AList List

universe u v
variable {κ : Type u} {ν : Type v}

abbrev Table (κ : Type u) (ν : Type v) := AList fun _ : κ => ν

/-- The sum of a measure over the entries. -/
def total (measure : κ → ν → Nat) (table : Table κ ν) : Nat :=
  (table.entries.map fun entry => measure entry.1 entry.2).sum

/-- The number of entries. -/
def size (table : Table κ ν) : Nat := table.entries.length

/-- The values, one for each key. -/
def values (table : Table κ ν) : List ν := table.entries.map Sigma.snd

/-- Change every value in place. -/
def mapValues (change : κ → ν → ν) (table : Table κ ν) : Table κ ν where
  entries := table.entries.map fun entry => ⟨entry.1, change entry.1 entry.2⟩
  nodupKeys := by
    have keys : (table.entries.map fun entry =>
        (⟨entry.1, change entry.1 entry.2⟩ : Sigma fun _ : κ => ν)).keys = table.entries.keys :=
      List.map_map
    rw [List.NodupKeys, keys]
    exact table.nodupKeys

variable (table : Table κ ν) (change : κ → ν → ν)

theorem size_eq_total : size table = total (fun _ _ => 1) table := by
  rw [size, total, map_const', sum_replicate_nat, Nat.mul_one]

@[simp] theorem size_mapValues : size (mapValues change table) = size table := length_map _

theorem length_values : (values table).length = size table := length_map _

theorem values_mapValues (change : ν → ν) :
    values (mapValues (fun _ => change) table) = (values table).map change := by
  rw [values, values, mapValues, map_map, map_map]
  rfl

/-- A change that keeps the measure keeps the total. -/
theorem total_mapValues (measure : κ → ν → Nat)
    (kept : ∀ key value, measure key (change key value) = measure key value) :
    total measure (mapValues change table) = total measure table := by
  rw [total, mapValues, map_map]
  congr 2
  funext entry
  exact kept entry.1 entry.2

section Lookup

variable [DecidableEq κ]

theorem lookup_mapValues (key : κ) :
    (mapValues change table).lookup key = (table.lookup key).map (change key) := by
  obtain ⟨entries, distinct⟩ := table
  simp only [AList.lookup, mapValues]
  clear distinct
  induction entries with
  | nil => rfl
  | cons entry rest ih =>
    obtain ⟨other, value⟩ := entry
    rw [map_cons]
    by_cases same : key = other
    · subst same
      rw [dlookup_cons_eq, dlookup_cons_eq]
      rfl
    · rw [dlookup_cons_ne _ _ same, dlookup_cons_ne _ _ same, ih]

variable {table} {key : κ} {value : ν}

/-- What is found after an insert is the new value, or was found before. -/
theorem lookup_insert_eq_some {other : κ} {found : ν} :
    (table.insert key value).lookup other = some found ↔
      other = key ∧ found = value ∨ other ≠ key ∧ table.lookup other = some found := by
  by_cases same : other = key
  · subst same
    simp [lookup_insert, eq_comm]
  · simp [lookup_insert_ne same, same]

theorem lookup_erase_eq_some {other : κ} {found : ν} :
    (table.erase key).lookup other = some found ↔ other ≠ key ∧ table.lookup other = some found := by
  by_cases same : other = key
  · subst same
    simp
  · simp [lookup_erase_ne same, same]

theorem erase_of_lookup_none (absent : table.lookup key = none) : table.erase key = table := by
  apply AList.ext
  apply kerase_of_notMem_keys
  exact lookup_eq_none.mp absent

theorem erase_insert_self (table : Table κ ν) (key : κ) (value : ν) :
    (table.insert key value).erase key = table.erase key := by
  apply AList.ext
  exact kerase_cons_eq rfl

theorem insert_erase_self (table : Table κ ν) (key : κ) (value : ν) :
    (table.erase key).insert key value = table.insert key value := by
  have erased := erase_of_lookup_none (lookup_erase key table)
  apply AList.ext
  exact congrArg (fun rest : Table κ ν => ⟨key, value⟩ :: rest.entries) erased

theorem mem_entries_iff : ⟨key, value⟩ ∈ table.entries ↔ table.lookup key = some value :=
  (mem_dlookup_iff table.nodupKeys).symm

/-- An entry that is present is one entry among those left when it is erased. -/
theorem entries_perm_erase (present : table.lookup key = some value) :
    table.entries.Perm (⟨key, value⟩ :: (table.erase key).entries) := by
  have inside : key ∈ table.entries.keys := lookup_isSome.mp (by rw [present]; rfl)
  obtain ⟨stored, front, back, _, whole, rest⟩ := exists_of_kerase inside
  have member : (⟨key, stored⟩ : Sigma fun _ : κ => ν) ∈ table.entries := by
    rw [whole]
    exact mem_append_right _ mem_cons_self
  have same : value = stored := by
    exact Option.some.inj (present.symm.trans (mem_entries_iff.mp member))
  have erased : (table.erase key).entries = front ++ back := rest
  rw [erased, whole, same]
  exact perm_middle

theorem values_perm_erase (present : table.lookup key = some value) :
    (values table).Perm (value :: values (table.erase key)) := by
  have split := (entries_perm_erase present).map Sigma.snd
  exact split

theorem mem_values : value ∈ values table ↔ ∃ key, table.lookup key = some value := by
  rw [values, mem_map]
  constructor
  · rintro ⟨entry, inside, rfl⟩
    exact ⟨entry.1, mem_entries_iff.mp inside⟩
  · rintro ⟨key, present⟩
    exact ⟨⟨key, value⟩, mem_entries_iff.mpr present, rfl⟩

theorem values_insert (table : Table κ ν) (key : κ) (value : ν) :
    values (table.insert key value) = value :: values (table.erase key) := rfl

theorem values_insert_fresh (absent : table.lookup key = none) (value : ν) :
    values (table.insert key value) = value :: values table := by
  rw [values_insert, erase_of_lookup_none absent]

section

variable (measure : κ → ν → Nat)

/-- Erasing an entry takes its measure off the total. -/
theorem total_erase (present : table.lookup key = some value) :
    total measure (table.erase key) + measure key value = total measure table := by
  have split := (entries_perm_erase present).map fun entry => measure entry.1 entry.2
  rw [total, total, split.sum_nat, map_cons, sum_cons, Nat.add_comm]

/-- Inserting an entry puts its measure on the total of the other entries. -/
theorem total_insert (table : Table κ ν) (key : κ) (value : ν) :
    total measure (table.insert key value) =
      total measure (table.erase key) + measure key value := by
  have entries : (table.insert key value).entries = ⟨key, value⟩ :: (table.erase key).entries := rfl
  rw [total, total, entries, map_cons, sum_cons, Nat.add_comm]

theorem total_insert_fresh (absent : table.lookup key = none) (value : ν) :
    total measure (table.insert key value) = total measure table + measure key value := by
  rw [total_insert, erase_of_lookup_none absent]

/-- Replacing a value by one of the same measure keeps the total. -/
theorem total_replace {old new : ν} (present : table.lookup key = some old)
    (same : measure key new = measure key old) :
    total measure (table.insert key new) = total measure table := by
  rw [total_insert, same, total_erase measure present]

/-- A total is a sum over any finite set of keys that contains those of the table. -/
theorem total_eq_sum {keys : Finset κ}
    (inside : ∀ key value, table.lookup key = some value → key ∈ keys) :
    total measure table = ∑ key ∈ keys, ((table.lookup key).map (measure key)).getD 0 := by
  obtain ⟨entries, distinct⟩ := table
  simp only [total, AList.lookup] at inside ⊢
  induction entries with
  | nil => simp
  | cons entry rest ih =>
    obtain ⟨first, value⟩ := entry
    obtain ⟨fresh, others⟩ := nodupKeys_cons.mp distinct
    have absent : rest.dlookup first = none := dlookup_eq_none.mpr fresh
    -- the entry contributes at its own key, where the rest contributes nothing
    have split : ∀ key, ((List.dlookup key (⟨first, value⟩ :: rest)).map (measure key)).getD 0 =
        (if key = first then measure first value else 0) +
          ((rest.dlookup key).map (measure key)).getD 0 := by
      intro key
      by_cases same : key = first
      · subst same
        rw [dlookup_cons_eq, absent, if_pos rfl]
        rfl
      · rw [dlookup_cons_ne _ _ same, if_neg same, Nat.zero_add]
    have here : first ∈ keys := inside first value (dlookup_cons_eq _ _ _)
    rw [map_cons, sum_cons, ih others, Finset.sum_congr rfl fun key _ =>
      split key, Finset.sum_add_distrib, Finset.sum_ite_eq' keys first, if_pos here]
    intro key stored found
    refine inside key stored ?_
    by_cases same : key = first
    · subst same
      rw [absent] at found
      cases found
    · rwa [dlookup_cons_ne _ _ same]

end

theorem size_insert_fresh (absent : table.lookup key = none) (value : ν) :
    size (table.insert key value) = size table + 1 := by
  rw [size_eq_total, size_eq_total, total_insert_fresh _ absent]

theorem size_replace {old : ν} (present : table.lookup key = some old) (new : ν) :
    size (table.insert key new) = size table := by
  rw [size_eq_total, size_eq_total]
  exact total_replace _ present rfl

theorem size_erase_le (table : Table κ ν) (key : κ) : size (table.erase key) ≤ size table := by
  match present : table.lookup key with
  | none => rw [erase_of_lookup_none present]
  | some value =>
    rw [size_eq_total, size_eq_total, ← total_erase _ present]
    exact Nat.le_add_right _ _

/-- A total of weights of the keys grows with the set of keys. -/
theorem total_mono (weight : κ → Nat) {small large : Table κ ν}
    (inside : ∀ key, (small.lookup key).isSome = true → (large.lookup key).isSome = true) :
    total (fun key _ => weight key) small ≤ total (fun key _ => weight key) large := by
  have listed : ∀ key value, large.lookup key = some value → key ∈ large.keys.toFinset :=
    fun key value present => mem_toFinset.mpr
      (mem_keys.mp (lookup_isSome.mp (by rw [present]; rfl)))
  have fewer : ∀ key value, small.lookup key = some value → key ∈ large.keys.toFinset := by
    intro key value present
    obtain ⟨other, found⟩ := Option.isSome_iff_exists.mp (inside key (by rw [present]; rfl))
    exact listed key other found
  rw [total_eq_sum _ fewer, total_eq_sum _ listed]
  refine Finset.sum_le_sum fun key _ => ?_
  cases present : small.lookup key with
  | none => exact Nat.zero_le _
  | some value =>
    obtain ⟨other, found⟩ := Option.isSome_iff_exists.mp (inside key (by rw [present]; rfl))
    rw [found]
    exact Nat.le_refl _

/-- Visiting the entries is, up to the order, looking up every key. -/
theorem filterMap_entries_perm {β : Type*} (select : κ → ν → Option β)
    {keys : List κ} (distinct : keys.Nodup)
    (inside : ∀ key value, table.lookup key = some value → key ∈ keys) :
    (table.entries.filterMap fun entry => select entry.1 entry.2).Perm
      (keys.filterMap fun key => (table.lookup key).bind (select key)) := by
  have entries : table.entries.Perm (keys.filterMap fun key =>
      (table.lookup key).map fun value => (⟨key, value⟩ : Sigma fun _ : κ => ν)) := by
    refine (perm_ext_iff_of_nodup table.nodupKeys.nodup (distinct.filterMap ?_)).mpr ?_
    · intro first second entry one other
      obtain ⟨_, _, rfl⟩ := Option.map_eq_some_iff.mp one
      obtain ⟨_, _, same⟩ := Option.map_eq_some_iff.mp other
      exact (congrArg Sigma.fst same).symm
    · intro entry
      rw [mem_filterMap, ← mem_lookup_iff]
      constructor
      · intro present
        exact ⟨entry.1, inside _ _ present, Option.map_eq_some_iff.mpr ⟨entry.2, present, rfl⟩⟩
      · rintro ⟨key, _, found⟩
        obtain ⟨value, present, rfl⟩ := Option.map_eq_some_iff.mp found
        exact present
  refine (entries.filterMap _).trans (List.Perm.of_eq ?_)
  rw [filterMap_filterMap]
  congr 1
  funext key
  rw [Option.bind_map]
  rfl

/-! ### Many entries at once -/

/-- Insert items under their keys, one after another. -/
def insertAll (key : ν → κ) (table : Table κ ν) (items : List ν) : Table κ ν :=
  items.foldl (fun table item => table.insert (key item) item) table

/-- Erase keys, one after another. -/
def eraseAll (table : Table κ ν) (keys : List κ) : Table κ ν :=
  keys.foldl (fun table key => table.erase key) table

theorem lookup_insertAll_of_unlisted {key : ν → κ} {items : List ν} {listed : κ}
    (absent : ∀ item ∈ items, key item ≠ listed) (table : Table κ ν) :
    (insertAll key table items).lookup listed = table.lookup listed := by
  induction items generalizing table with
  | nil => rfl
  | cons item rest ih =>
    refine (ih (fun other inside => absent other (.tail _ inside)) _).trans ?_
    exact lookup_insert_ne (absent item mem_cons_self).symm

/-- The value under a key is its item, if all items with that key are the same. -/
theorem lookup_insertAll_of_mem {key : ν → κ} {items : List ν} {item : ν} (inside : item ∈ items)
    (unique : ∀ other ∈ items, key other = key item → other = item) (table : Table κ ν) :
    (insertAll key table items).lookup (key item) = some item := by
  induction items generalizing table with
  | nil => exact nomatch inside
  | cons first rest ih =>
    rw [insertAll, foldl_cons]
    by_cases later : item ∈ rest
    · exact ih later (fun other inside => unique other (.tail _ inside)) _
    · have here : item = first := (mem_cons.mp inside).resolve_right later
      subst here
      refine (lookup_insertAll_of_unlisted (fun other inside same => ?_) _).trans
        (lookup_insert _)
      rw [unique other (.tail _ inside) same] at inside
      exact later inside

theorem lookup_eraseAll (table : Table κ ν) (keys : List κ) (key : κ) :
    (eraseAll table keys).lookup key = if key ∈ keys then none else table.lookup key := by
  induction keys generalizing table with
  | nil => rfl
  | cons first rest ih =>
    refine (ih _).trans ?_
    split
    next later => rw [if_pos (.tail _ later)]
    next later =>
      by_cases same : key = first
      · subst same
        rw [if_pos mem_cons_self, lookup_erase]
      · rw [lookup_erase_ne same, if_neg]
        exact fun inside => (mem_cons.mp inside).elim same later

end Lookup

end Tables
