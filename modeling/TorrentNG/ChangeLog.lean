import TorrentNG.Tables

/-!
# Bounded logs of changes

A map from keys to values changes over time, and a log records which keys change and whether
they are removed. The `n`th change has revision `n`, and only the newest changes are kept. A
log follows a history of the map if a key without a change keeps its value, and the last
change of every other key says whether it has a value at the end. Then refreshing the keys of
the log turns the map at the beginning into the map at the end, which is what a consumer of
the log does with the changes after the last revision that it has seen.
-/

namespace ChangeLog

open List Tables Option

universe u v w
variable {κ : Type u} {ν : Type v}

/-! ## What is kept of a log -/

variable (capacity : Nat)

/-- The newest elements of a list. -/
def keepLast {α : Type u} (items : List α) : List α :=
  items.drop (items.length - capacity)

variable {α : Type u} (items : List α)

theorem length_keepLast :
    (keepLast capacity items).length = min capacity items.length := by
  rw [keepLast, length_drop]
  omega

theorem keepLast_map {β : Type v} (change : α → β) (items : List α) :
    keepLast capacity (items.map change) = (keepLast capacity items).map change := by
  rw [keepLast, keepLast, length_map, map_drop]

theorem keepLast_append (more : List α) :
    keepLast capacity (keepLast capacity items ++ more) = keepLast capacity (items ++ more) := by
  by_cases few : items.length ≤ capacity
  · have whole : keepLast capacity items = items := by
      rw [keepLast, Nat.sub_eq_zero_of_le few, drop_zero]
    rw [whole]
  · have kept := length_keepLast capacity items
    rw [Nat.min_eq_left (Nat.le_of_not_le few)] at kept
    rw [keepLast, length_append, kept, keepLast, keepLast, length_append, Nat.add_sub_cancel_left,
      show items.length + more.length - capacity = (items.length - capacity) + more.length by omega,
      ← drop_drop, drop_append_of_le_length (Nat.sub_le _ _)]

variable (journal : List (κ × Bool))

/-- The changes with their revisions, which count from one. -/
def stamped : List ((κ × Bool) × Nat) := journal.zipIdx 1

theorem length_stamped : (stamped journal).length = journal.length :=
  length_zipIdx

theorem stamped_append (first second : List (κ × Bool)) :
    stamped (first ++ second) = stamped first ++ second.zipIdx (first.length + 1) := by
  rw [stamped, zipIdx_append, Nat.add_comm]
  rfl

theorem drop_zipIdx (start count : Nat) :
    (items.zipIdx start).drop count = (items.drop count).zipIdx (start + count) := by
  induction items generalizing start count with
  | nil => simp only [zipIdx_nil, drop_nil]
  | cons item rest ih =>
    cases count with
    | zero => rfl
    | succ count =>
      rw [zipIdx_cons, drop_succ_cons, drop_succ_cons, ih, Nat.add_assoc, Nat.add_comm 1 count]

/-- The changes after a revision are those that come after as many changes. -/
theorem filter_revision (start revision : Nat) :
    (journal.zipIdx start).filter (fun change => decide (revision < change.2)) =
      (journal.zipIdx start).drop (revision + 1 - start) := by
  induction journal generalizing start with
  | nil => simp only [zipIdx_nil, filter_nil, drop_nil]
  | cons change rest ih =>
    rw [zipIdx_cons, filter_cons, ih]
    by_cases later : revision < start
    · have first : revision + 1 - start = 0 := by omega
      have rest : revision + 1 - (start + 1) = 0 := by omega
      simp only [later, decide_true, if_true, first, rest, drop_zero]
    · have first : revision + 1 - start = (revision + 1 - (start + 1)) + 1 := by omega
      simp only [later, decide_false, Bool.false_eq_true, if_false, first, drop_succ_cons]

/-! ## Following a map -/

section Follows

variable [DecidableEq κ]

/-- Whether the last change of a key removes it. -/
def lastChange (key : κ) (journal : List (κ × Bool)) : Option Bool :=
  (journal.filter fun change => decide (change.1 = key)).getLast?.map Prod.snd

theorem lastChange_append (key : κ) (first second : List (κ × Bool)) :
    lastChange key (first ++ second) = (lastChange key second).or (lastChange key first) := by
  rw [lastChange, filter_append, List.getLast?_append, map_or]
  rfl

variable {journal : List (κ × Bool)} {key : κ}

theorem lastChange_eq_none :
    lastChange key journal = none ↔ ∀ change ∈ journal, change.1 ≠ key := by
  rw [lastChange, map_eq_none_iff, List.getLast?_eq_none_iff, filter_eq_nil_iff]
  simp only [decide_eq_true_eq, ne_eq]

theorem mem_of_lastChange {removed : Bool}
    (last : lastChange key journal = some removed) : (key, removed) ∈ journal := by
  obtain ⟨change, found, rfl⟩ := map_eq_some_iff.mp last
  obtain ⟨inside, same⟩ := mem_filter.mp (mem_of_getLast? found)
  rw [← of_decide_eq_true same]
  exact inside

/-- The log tells which values may have changed, and which keys have none at the end. -/
def Follows (before after : κ → Option ν) (journal : List (κ × Bool)) : Prop :=
  ∀ key, match lastChange key journal with
    | none => after key = before key
    | some removed => removed = true ↔ after key = none

namespace Follows

variable {before between after : κ → Option ν} {journal : List (κ × Bool)}

theorem refl (map : κ → Option ν) : Follows map map [] := fun _ => rfl

theorem trans {more : List (κ × Bool)} (first : Follows before between journal)
    (second : Follows between after more) : Follows before after (journal ++ more) := by
  intro key
  have early := first key
  have late := second key
  rw [lastChange_append]
  cases last : lastChange key more with
  | some removed =>
    rw [last] at late
    exact late
  | none =>
    rw [last] at late
    cases earlier : lastChange key journal with
    | some removed =>
      rw [earlier] at early
      rw [late]
      exact early
    | none =>
      rw [earlier] at early
      exact Eq.trans late early

theorem unlisted (follows : Follows before after journal)
    (absent : ∀ change ∈ journal, change.1 ≠ key) : after key = before key := by
  have said := follows key
  rw [lastChange_eq_none.mpr absent] at said
  exact said

theorem last (follows : Follows before after journal) {removed : Bool}
    (listed : lastChange key journal = some removed) : removed = true ↔ after key = none := by
  have said := follows key
  rw [listed] at said
  exact said

/-- A log in which no key occurs twice follows a map that it describes key by key. -/
theorem of_mem (unlisted : ∀ key, (∀ change ∈ journal, change.1 ≠ key) → after key = before key)
    (listed : ∀ change ∈ journal, change.2 = true ↔ after change.1 = none) :
    Follows before after journal := by
  intro key
  cases last : lastChange key journal with
  | none => exact unlisted key (lastChange_eq_none.mp last)
  | some removed => exact listed (key, removed) (mem_of_lastChange last)

/-- What is shown of the values changes as they do. -/
theorem map {ρ : Type w} (follows : Follows before after journal) (shown : ν → ρ) :
    Follows (fun key => (before key).map shown) (fun key => (after key).map shown) journal := by
  intro key
  have said := follows key
  split at said
  next =>
    simp only at said ⊢
    rw [said]
  next removed _ =>
    simp only at said ⊢
    rw [said, map_eq_none_iff]

end Follows

/-! ## Replicas -/

/-- The keys whose last change leaves a value and those whose last change removes it. -/
def settle (journal : List (κ × Bool)) : List κ × List κ :=
  journal.foldl (fun (changed, removed) (key, isRemoved) =>
    if isRemoved then (changed.erase key, removed.insert key)
    else (changed.insert key, removed.erase key)) ([], [])

section

variable (journal : List (κ × Bool))

theorem settle_snoc (key : κ) (isRemoved : Bool) :
    settle (journal ++ [(key, isRemoved)]) =
      if isRemoved then ((settle journal).1.erase key, (settle journal).2.insert key)
      else ((settle journal).1.insert key, (settle journal).2.erase key) := by
  rw [settle, foldl_append]
  rfl

theorem lastChange_snoc (key changed : κ) (isRemoved : Bool) :
    lastChange key (journal ++ [(changed, isRemoved)]) =
      if key = changed then some isRemoved else lastChange key journal := by
  by_cases same : key = changed
  · subst same
    simp [lastChange]
  · simp [lastChange, same, Ne.symm same]

theorem nodup_settle : (settle journal).1.Nodup ∧ (settle journal).2.Nodup := by
  induction journal using List.reverseRecOn with
  | nil => exact ⟨.nil, .nil⟩
  | append_singleton journal change ih =>
    obtain ⟨key, isRemoved⟩ := change
    rw [settle_snoc]
    cases isRemoved with
    | true => exact ⟨ih.1.erase key, ih.2.insert⟩
    | false => exact ⟨ih.1.insert, ih.2.erase key⟩

theorem mem_settle (key : κ) : (key ∈ (settle journal).1 ↔ lastChange key journal = some false) ∧
      (key ∈ (settle journal).2 ↔ lastChange key journal = some true) := by
  induction journal using List.reverseRecOn with
  | nil => simp [settle, lastChange]
  | append_singleton journal change ih =>
    obtain ⟨changed, isRemoved⟩ := change
    obtain ⟨distinct, alsoDistinct⟩ := nodup_settle journal
    rw [settle_snoc, lastChange_snoc]
    cases isRemoved with
    | true =>
      simp only [if_true, distinct.mem_erase_iff, mem_insert_iff, ih]
      by_cases same : key = changed <;> simp [same]
    | false =>
      simp only [Bool.false_eq_true, if_false, alsoDistinct.mem_erase_iff, mem_insert_iff, ih]
      by_cases same : key = changed <;> simp [same]

end

/-- A replica of the map at the beginning becomes one of the map at the end, if the rows whose
last change leaves them are inserted and the keys whose last change removes them are erased. -/
theorem Follows.replicates {before after : κ → Option ν}
    (follows : Follows before after journal) {key : ν → κ}
    (keyed : ∀ {listed row}, after listed = some row → key row = listed)
    {replica : Table κ ν} (holds : ∀ listed, replica.lookup listed = before listed)
    {rows : List ν} {removed : List κ} (mem_rows : ∀ row, row ∈ rows ↔
      ∃ listed, lastChange listed journal = some false ∧ after listed = some row)
    (mem_removed : ∀ listed, listed ∈ removed ↔ lastChange listed journal = some true)
    (listed : κ) :
    (eraseAll (insertAll key replica rows) removed).lookup listed = after listed := by
  rw [lookup_eraseAll]
  have unlisted : lastChange listed journal ≠ some false → ∀ row ∈ rows, key row ≠ listed := by
    rintro other row inside rfl
    obtain ⟨named, last, shown⟩ := (mem_rows row).mp inside
    rw [keyed shown] at other
    exact other last
  cases last : lastChange listed journal with
  | none =>
    rw [if_neg (by rw [mem_removed, last]; exact nofun),
      lookup_insertAll_of_unlisted (unlisted (by rw [last]; exact nofun)), holds]
    exact (follows.unlisted (lastChange_eq_none.mp last)).symm
  | some isRemoved =>
    cases isRemoved with
    | true =>
      rw [if_pos ((mem_removed listed).mpr last)]
      exact ((follows.last last).mp rfl).symm
    | false =>
      rw [if_neg (by rw [mem_removed, last]; exact nofun)]
      cases shown : after listed with
      | none => exact nomatch (follows.last last).mpr shown
      | some row =>
        obtain rfl := keyed shown
        refine lookup_insertAll_of_mem ((mem_rows row).mpr ⟨_, last, shown⟩) ?_ replica
        intro other inside same
        obtain ⟨named, _, otherShown⟩ := (mem_rows other).mp inside
        rw [← keyed otherShown, same, shown] at otherShown
        exact (Option.some.inj otherShown).symm

end Follows

end ChangeLog
