import TorrentNG.RegistrySnapshots

/-!
# Synchronizing with the session registry by its changes

A reader that has seen the registry at some revision asks for the changes since. It gets none
exactly if the bounded log has dropped one of them; otherwise it gets all of them in order, and
refreshing the hashes that they name turns its snapshot into the current one.
-/

namespace TorrentNG.Session.SessionRegistry

open ChangeLog Fallible List MachineArithmetic Tables

variable {registry past : SessionRegistry} {journal : List (Str × Bool)}

/-! ## The changes since a revision -/

section

variable (journalled : registry.Journalled journal)

include journalled

theorem changes_of_journalled :
    registry.changes = ((journal.drop (journal.length - changeLogCapacity)).zipIdx
      (1 + (journal.length - changeLogCapacity))).map toChange := by
  rw [journalled.changes, keepLast, length_stamped, stamped, drop_zipIdx]

theorem head_changes (some : 0 < journal.length) : ∃ first, registry.changes.head? = .some first ∧
      first.revision = 1 + (journal.length - changeLogCapacity) := by
  have capacity : 0 < changeLogCapacity := by decide
  have inside : journal.length - changeLogCapacity < journal.length := by omega
  refine ⟨toChange (journal[journal.length - changeLogCapacity],
    1 + (journal.length - changeLogCapacity)), ?_, rfl⟩
  rw [changes_of_journalled journalled, head?_map, drop_eq_getElem_cons inside, zipIdx_cons]
  rfl

/-- The changes after a revision, as the journal has them, unless some of them are dropped. -/
theorem changesSince_eq (bounded : journal.length < 2 ^ 64) {revision : Nat}
    (earlier : revision ≤ journal.length) :
    registry.changesSince revision =
      if journal.length - changeLogCapacity ≤ revision then
        some (((journal.drop revision).zipIdx (1 + revision)).map toChange)
      else none := by
  by_cases current : registry.revision ≤ revision
  · have all : revision = journal.length := by
      rw [journalled.revision] at current
      omega
    rw [changesSince, if_pos current, if_pos (by omega), all, drop_length]
    rfl
  · have more : revision < journal.length := by
      rw [journalled.revision] at current
      omega
    obtain ⟨first, head, oldest⟩ := head_changes journalled (by omega)
    have next : saturatingAdd revision 1 = revision + 1 := saturatingAdd_of_lt (by omega)
    rw [changesSince, if_neg current, head, Option.any_some, oldest, next]
    by_cases kept : journal.length - changeLogCapacity ≤ revision
    · rw [if_neg (by rw [decide_eq_true_eq]; omega), if_pos kept, changes_of_journalled journalled,
        filter_map]
      have later := filter_revision (journal.drop (journal.length - changeLogCapacity))
        (1 + (journal.length - changeLogCapacity)) revision
      rw [drop_zipIdx, drop_drop] at later
      rw [Nat.add_comm revision, Nat.add_sub_add_left, Nat.add_assoc,
        Nat.add_sub_cancel' kept] at later
      exact congrArg (fun changes => some (changes.map toChange)) later
    · rw [if_pos (by rw [decide_eq_true_eq]; omega), if_neg kept]

theorem mem_changes_revision {revision : Nat} :
    (∃ change ∈ registry.changes, change.revision = revision) ↔
      journal.length - changeLogCapacity < revision ∧ revision ≤ journal.length := by
  rw [changes_of_journalled journalled]
  constructor
  · rintro ⟨change, inside, rfl⟩
    obtain ⟨⟨entry, index⟩, listed, rfl⟩ := mem_map.mp inside
    have bounds := mem_zipIdx listed
    rw [length_drop] at bounds
    simp only [toChange]
    omega
  · rintro ⟨above, below⟩
    have inside : revision - 1 < journal.length := by omega
    refine ⟨toChange (journal[revision - 1], revision), mem_map.mpr ⟨_, ?_, rfl⟩, rfl⟩
    rw [mem_zipIdx_iff_le_and_getElem?_sub, getElem?_drop]
    refine ⟨by omega, ?_⟩
    rw [show journal.length - changeLogCapacity + (revision - (1 + (journal.length -
      changeLogCapacity))) = revision - 1 by omega]
    exact getElem?_eq_getElem inside

end

/-! ## Refreshing -/

/-- A snapshot in which the entries of some hashes are read again. -/
def refreshed (registry : SessionRegistry) (entries : List TorrentEntry) (hashes : List Str) :
    List TorrentEntry :=
  sortByInfoHash ((entries.filter fun entry => decide (entry.infoHash ∉ hashes)) ++
    hashes.dedup.filterMap registry.get)

/-- Reading every changed hash again gives the current projection. -/
theorem refreshed_eq_projection (coherent : past.Coherent) (leads : past.Leads journal registry) :
    registry.refreshed past.projection (journal.map Prod.fst) = registry.projection := by
  have before := coherent.projects_projection
  have reads : (journal.map Prod.fst).dedup.filterMap registry.get =
      (journal.map Prod.fst).dedup.filterMap registry.view := by
    apply filterMap_congr
    intro infoHash listed
    obtain ⟨change, inside, rfl⟩ := mem_map.mp (mem_dedup.mp listed)
    rw [get_eq_view, leads.canonical change inside]
  have unlisted : ∀ infoHash, infoHash ∉ journal.map Prod.fst →
      registry.view infoHash = past.view infoHash := by
    intro infoHash outside
    apply leads.follows.unlisted
    exact fun change inside same => outside (mem_map.mpr ⟨change, inside, same⟩)
  rw [refreshed, reads]
  apply Projects.unique (Lists.sort ?_) leads.coherent.projects_projection
  constructor
  · rw [map_append]
    apply List.Nodup.append
    · exact before.distinct.sublist (filter_sublist.map _)
    · rw [map_filterMap]
      apply (nodup_dedup _).filterMap
      intro first second infoHash named alsoNamed
      obtain ⟨entry, found, rfl⟩ := Option.map_eq_some_iff.mp named
      obtain ⟨other, otherFound, same⟩ := Option.map_eq_some_iff.mp alsoNamed
      rw [← leads.coherent.infoHash_of_view found, ← leads.coherent.infoHash_of_view otherFound,
        same]
    · intro infoHash here there
      obtain ⟨entry, inside, rfl⟩ := mem_map.mp here
      obtain ⟨other, otherInside, same⟩ := mem_map.mp there
      obtain ⟨listedHash, listed, found⟩ := mem_filterMap.mp otherInside
      have outside := of_decide_eq_true (mem_filter.mp inside).2
      rw [← same, leads.coherent.infoHash_of_view found] at outside
      exact outside (mem_dedup.mp listed)
  · intro entry
    rw [mem_append, mem_filter, before.mem, decide_eq_true_eq, mem_filterMap]
    simp only [and_true]
    constructor
    · rintro (⟨shown, outside⟩ | ⟨infoHash, listed, found⟩)
      · rw [unlisted _ outside, shown]
      · rw [leads.coherent.infoHash_of_view found, found]
    · intro shown
      by_cases listed : entry.infoHash ∈ journal.map Prod.fst
      · exact Or.inr ⟨entry.infoHash, mem_dedup.mpr listed, shown⟩
      · exact Or.inl ⟨(unlisted _ listed).symm.trans shown, listed⟩

/-! ## Complete deltas -/

/-- Asking for the changes since an earlier state misses nothing. -/
structure DeltaComplete (past registry : SessionRegistry) : Prop where
  /-- There is no answer exactly if a later change was dropped from the log. -/
  none_iff : ∀ revision ≤ registry.revision, registry.changesSince revision = none ↔
    ∃ dropped, revision < dropped ∧ dropped ≤ registry.revision ∧
      ∀ change ∈ registry.changes, change.revision ≠ dropped
  ordered : ∀ revision ≤ registry.revision, ∀ changes,
    registry.changesSince revision = some changes →
      changes.Pairwise fun first second => first.revision < second.revision
  differing : ∀ changes, registry.changesSince past.revision = some changes →
    ∀ infoHash, past.get infoHash ≠ registry.get infoHash →
      ∃ change ∈ changes, change.infoHash = canonicalInfoHash infoHash
  last : ∀ changes, registry.changesSince past.revision = some changes →
    ∀ infoHash change,
      (changes.filter fun change => decide (change.infoHash = infoHash)).getLast? = some change →
        (change.removed = true ↔ infoHash ∉ registry.byHash.keys)
  refresh : ∀ changes, registry.changesSince past.revision = some changes →
    registry.refreshed past.snapshot.1.entries (changes.map (·.infoHash)) =
      registry.snapshot.1.entries

/-- A recorded change without its revision. -/
def unstamped (change : RegistryChange) : Str × Bool := (change.infoHash, change.removed)

/-- The changes after an earlier state are the journal of what happened since. -/
theorem changesSince_leads {before : List (Str × Bool)} (journalled : past.Journalled before)
    (leads : past.Leads journal registry) (few : before.length + journal.length < 2 ^ 64)
    {changes : List RegistryChange} (answer : registry.changesSince past.revision = some changes) :
    changes.map unstamped = journal := by
  rw [changesSince_eq (leads.journalled before journalled) (by rw [length_append]; exact few)
    (by rw [journalled.revision, length_append]; omega), journalled.revision,
    drop_left] at answer
  rw [← Option.some.inj (Option.ite_none_right_eq_some.mp answer).2, map_map]
  exact zipIdx_map_fst (1 + before.length) journal

theorem map_infoHash_of_unstamped {changes : List RegistryChange}
    (same : changes.map unstamped = journal) : changes.map (·.infoHash) = journal.map Prod.fst := by
  rw [← same, map_map]
  rfl

theorem Coherent.not_registered_iff (coherent : registry.Coherent) (infoHash : Str) :
    infoHash ∉ registry.byHash.keys ↔ registry.view infoHash = none := by
  rw [coherent.mem_registered_iff, Option.eq_none_iff_forall_ne_some]
  exact not_exists

theorem deltaComplete {before : List (Str × Bool)} (coherent : past.Coherent)
    (valid : past.CachesValid) (journalled : past.Journalled before)
    (leads : past.Leads journal registry) (few : before.length + journal.length < 2 ^ 64) :
    past.DeltaComplete registry := by
  have whole := leads.journalled before journalled
  have bounded : (before ++ journal).length < 2 ^ 64 := by
    rw [length_append]
    exact few
  have answered : ∀ {changes}, registry.changesSince past.revision = some changes →
      changes.map unstamped = journal :=
    changesSince_leads journalled leads few
  constructor
  · intro revision earlier
    rw [whole.revision] at earlier ⊢
    rw [changesSince_eq whole bounded earlier]
    constructor
    · intro missing
      have dropped : ¬(before ++ journal).length - changeLogCapacity ≤ revision :=
        fun kept => nomatch (if_pos kept).symm.trans missing
      refine ⟨(before ++ journal).length - changeLogCapacity, by omega, by omega, ?_⟩
      intro change inside same
      have found := (mem_changes_revision whole).mp ⟨change, inside, same⟩
      omega
    · rintro ⟨dropped, after, upTo, absent⟩
      apply if_neg
      intro kept
      obtain ⟨change, inside, same⟩ := (mem_changes_revision whole).mpr ⟨by omega, upTo⟩
      exact absent change inside same
  · intro revision earlier changes answer
    rw [whole.revision] at earlier
    rw [changesSince_eq whole bounded earlier] at answer
    rw [← Option.some.inj (Option.ite_none_right_eq_some.mp answer).2, pairwise_map]
    apply (pairwise_map (f := Prod.snd)).mp
    rw [zipIdx_map_snd]
    exact pairwise_lt_range'
  · intro changes answer infoHash differs
    by_contra absent
    apply differs
    apply Eq.symm
    apply leads.follows.unlisted
    intro change inside same
    have named : change.1 ∈ changes.map (·.infoHash) := by
      rw [map_infoHash_of_unstamped (answered answer)]
      exact mem_map_of_mem inside
    rw [same] at named
    exact absent (mem_map.mp named)
  · intro changes answer infoHash change final
    have listed : lastChange infoHash journal = some change.removed := by
      rw [← answered answer, lastChange, filter_map, getLast?_map, Option.map_map]
      exact congrArg (Option.map _) final
    rw [leads.coherent.not_registered_iff]
    exact leads.follows.last listed
  · intro changes answer
    rw [map_infoHash_of_unstamped (answered answer), snapshot_eq_projection coherent valid,
      snapshot_eq_projection leads.coherent leads.valid]
    exact refreshed_eq_projection coherent leads

/-- In every history of torrents with distinct handles, the changes since any earlier state are
complete. -/
theorem changes_since_complete (earlier later : List Call)
    (proper : new.ProperCalls (earlier ++ later))
    (few : new.callMutations (earlier ++ later) < 2 ^ 64) :
    ∃ past registry, new.runCalls earlier = .ok past ∧ past.runCalls later = .ok registry ∧
      past.DeltaComplete registry := by
  have start : new.revision = 0 := rfl
  obtain ⟨_, _, whole, _⟩ := runCalls_leads new_coherent new_cachesValid proper (by omega)
  rw [runCalls, Runs.run_append, bind_eq_ok] at whole
  obtain ⟨past, ran, _⟩ := whole
  obtain ⟨properEarlier, properLater⟩ := (Runs.along_append ran).mp proper
  have mutations : new.callMutations (earlier ++ later) =
      new.callMutations earlier + past.callMutations later := Runs.spent_append ran
  obtain ⟨past', before, ran', toPast, count⟩ :=
    runCalls_leads new_coherent new_cachesValid properEarlier (by omega)
  obtain rfl : past' = past := Except.ok.inj (ran'.symm.trans ran)
  obtain ⟨registry, journal, ranOn, leads, counts⟩ :=
    runCalls_leads toPast.coherent toPast.valid properLater
      (by rw [toPast.revision]; omega)
  have journalled := toPast.journalled [] new_journalled
  exact ⟨past', registry, ran, ranOn,
    deltaComplete toPast.coherent toPast.valid journalled leads (by rw [List.nil_append]; omega)⟩

theorem sampleCalls_deltaComplete :
    ∃ past registry, new.runCalls (sampleCalls.take 2) = .ok past ∧
      past.runCalls (sampleCalls.drop 2) = .ok registry ∧ past.DeltaComplete registry :=
  changes_since_complete (sampleCalls.take 2) (sampleCalls.drop 2) (by decide +kernel)
    (by decide +kernel)

/-! ## Two torrents with one handle -/

/-- The entry that a reader finds before and after a change, and what the log says of it. -/
def observedChange (earlier later : List Call) (infoHash : Str) :
    Except Fault (Option Str × Option Str × Option (List RegistryChange)) := do
  let past ← new.runCalls earlier
  let registry ← past.runCalls later
  return ((past.get infoHash).map (·.infoHash), (registry.get infoHash).map (·.infoHash),
    registry.changesSince past.revision)

def firstOwner : List Call := [.change (.add (.new ⟨1⟩ 0 [0x61] [] []))]

def secondOwner : List Call := [.change (.add (.new ⟨1⟩ 0 [0x62] [] []))]

theorem observedChange_owners : observedChange firstOwner secondOwner [0x61] =
      .ok (some [0x61], some [0x62], some [⟨2, [0x62], false⟩]) := by
  decide +kernel

/-- A torrent added under a handle in use replaces the entry of the other one, which the log does
not name. -/
theorem changes_miss_shared_handle :
    ∃ past registry, new.runCalls firstOwner = .ok past ∧
      past.runCalls secondOwner = .ok registry ∧ past.get [0x61] ≠ registry.get [0x61] ∧
      ∃ changes, registry.changesSince past.revision = some changes ∧
        ∀ change ∈ changes, change.infoHash ≠ canonicalInfoHash [0x61] := by
  have seen := observedChange_owners
  rw [observedChange, bind_eq_ok] at seen
  obtain ⟨past, ran, seen⟩ := seen
  rw [bind_eq_ok] at seen
  obtain ⟨registry, ranOn, shown⟩ := seen
  have shown := Except.ok.inj shown
  simp only [Prod.mk.injEq] at shown
  obtain ⟨first, second, listed⟩ := shown
  refine ⟨past, registry, ran, ranOn, fun same => ?_, _, listed, by decide⟩
  rw [same, second] at first
  revert first
  decide

end TorrentNG.Session.SessionRegistry
