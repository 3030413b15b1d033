import TorrentNG.ChangeLog
import TorrentNG.RegistryOutcomes

/-!
# What readers of the registry see

For its readers a registry is a map from info hashes to entries, `view`, and a journal of the
hashes whose entries changed. Every quiet call changes the map as its journal says
(`Outcome.follows`), and the revision counts the changes (`Journalled`), as long as there are
fewer than 2^64 of them.
-/

namespace TorrentNG.Session.SessionRegistry

open ChangeLog Fallible Indexes List Tables Option

variable {quiet : Prop} {registry next : SessionRegistry} {journal : List (Str × Bool)}

/-! ## The map from hashes to entries -/

/-- The entry registered for a canonical info hash. -/
def view (registry : SessionRegistry) (infoHash : Str) : Option TorrentEntry := do
  let handle ← registry.byHash.lookup infoHash
  let record ← registry.entries.lookup handle
  return record.toEntry

theorem get_eq_view (registry : SessionRegistry) (infoHash : Str) :
    registry.get infoHash = registry.view (canonicalInfoHash infoHash) := rfl

theorem infoHash_toEntry (record : RegistryRecord) : record.toEntry.infoHash = record.infoHash := by
  cases record <;> rfl

variable {handle : TorrentHandle} {infoHash : Str} {entries : Table TorrentHandle RegistryRecord}

section

variable (coherent : registry.Coherent)

include coherent

theorem Coherent.view_of_lookup {record : RegistryRecord}
    (present : registry.entries.lookup handle = some record) :
    registry.view record.infoHash = some record.toEntry := by
  have named := (coherent.indexed.hashes _ _).mpr (hashOf_of_lookup present)
  simp only [view, named, present, bind, Option.bind]
  rfl

theorem Coherent.view_eq_some {entry : TorrentEntry} :
    registry.view infoHash = some entry ↔ ∃ handle record,
      registry.entries.lookup handle = some record ∧ record.infoHash = infoHash ∧
        record.toEntry = entry := by
  constructor
  · intro found
    cases registered : registry.byHash.lookup infoHash with
    | none =>
      simp only [view, registered, bind, Option.bind] at found
      exact nomatch found
    | some handle =>
      obtain ⟨record, present, same⟩ := coherent.lookup_record registered
      simp only [view, registered, present, bind, Option.bind] at found
      exact ⟨handle, record, present, same, Option.some.inj found⟩
  · rintro ⟨handle, record, present, rfl, rfl⟩
    exact coherent.view_of_lookup present

theorem Coherent.infoHash_of_view {entry : TorrentEntry}
    (found : registry.view infoHash = some entry) : entry.infoHash = infoHash := by
  obtain ⟨handle, record, _, same, rfl⟩ := coherent.view_eq_some.mp found
  rw [infoHash_toEntry, same]

theorem Coherent.mem_registered_iff :
    infoHash ∈ registry.byHash.keys ↔ ∃ entry, registry.view infoHash = some entry := by
  rw [coherent.indexed.hashes.mem_keys_iff]
  constructor
  · rintro ⟨handle, named⟩
    obtain ⟨record, present, rfl⟩ := hashOf_eq_some.mp named
    exact ⟨_, coherent.view_of_lookup present⟩
  · rintro ⟨entry, found⟩
    obtain ⟨handle, record, present, rfl, _⟩ := coherent.view_eq_some.mp found
    exact ⟨handle, hashOf_of_lookup present⟩

/-- Two registries that store the same records for a hash show the same entry for it. -/
theorem Coherent.view_congr (nextCoherent : next.Coherent)
    (same : ∀ handle record, record.infoHash = infoHash →
      (next.entries.lookup handle = some record ↔ registry.entries.lookup handle = some record)) :
    next.view infoHash = registry.view infoHash := by
  apply Option.ext
  intro entry
  rw [nextCoherent.view_eq_some, coherent.view_eq_some]
  constructor
  · rintro ⟨handle, record, present, named, projected⟩
    exact ⟨handle, record, (same handle record named).mp present, named, projected⟩
  · rintro ⟨handle, record, present, named, projected⟩
    exact ⟨handle, record, (same handle record named).mpr present, named, projected⟩

end

/-- The handle has no record of the hash. -/
def Foreign (entries : Table TorrentHandle RegistryRecord) (handle : TorrentHandle)
    (infoHash : Str) : Prop :=
  ∀ record, entries.lookup handle = some record → record.infoHash ≠ infoHash

theorem Foreign.of_lookup {old : RegistryRecord} (present : entries.lookup handle = some old)
    (other : old.infoHash ≠ infoHash) : Foreign entries handle infoHash :=
  fun _ found => Option.mem_unique present found ▸ other

section Foreign

variable (foreign : Foreign entries handle infoHash)

include foreign

/-- Records of other hashes do not concern the hash. -/
theorem Foreign.lookup_insert_iff {new : RegistryRecord} (other : new.infoHash ≠ infoHash)
    (candidate : TorrentHandle) (record : RegistryRecord) (named : record.infoHash = infoHash) :
    (entries.insert handle new).lookup candidate = some record ↔
      entries.lookup candidate = some record := by
  rw [lookup_insert_eq_some]
  constructor
  · rintro (⟨_, rfl⟩ | ⟨_, found⟩)
    · exact absurd named other
    · exact found
  · intro found
    refine .inr ⟨?_, found⟩
    rintro rfl
    exact foreign record found named

theorem Foreign.lookup_erase_iff (candidate : TorrentHandle) (record : RegistryRecord)
    (named : record.infoHash = infoHash) : (entries.erase handle).lookup candidate = some record ↔
      entries.lookup candidate = some record := by
  rw [lookup_erase_eq_some]
  apply and_iff_right_of_imp
  rintro found rfl
  exact foreign record found named

end Foreign

theorem mem_edited {order : IterationOrder Str} {edit : RegistryRecord → Option RegistryRecord}
    (labels : LabelEdit edit) : infoHash ∈ registry.edited order edit ↔ ∃ handle record changed,
      registry.entries.lookup handle = some record ∧ edit record = some changed ∧
        record.infoHash = infoHash := by
  rw [edited, (order.perm _).mem_iff, mem_filterMap]
  constructor
  · rintro ⟨record, inside, given⟩
    obtain ⟨handle, present⟩ := mem_values.mp inside
    obtain ⟨changed, edits, same⟩ := map_eq_some_iff.mp given
    exact ⟨handle, record, changed, present, edits,
      (labels.infoHash record changed edits).symm.trans same⟩
  · rintro ⟨handle, record, changed, present, edits, same⟩
    refine ⟨record, mem_values.mpr ⟨handle, present⟩, ?_⟩
    rw [edits, map_some, labels.infoHash record changed edits, same]

theorem lookup_edit_iff {order : IterationOrder Str} {edit : RegistryRecord → Option RegistryRecord}
    (labels : LabelEdit edit) (unedited : infoHash ∉ registry.edited order edit)
    (handle : TorrentHandle) (record : RegistryRecord) (named : record.infoHash = infoHash) :
    (mapValues (fun _ record => (edit record).getD record) registry.entries).lookup handle =
        some record ↔ registry.entries.lookup handle = some record := by
  have kept : ∀ stored, registry.entries.lookup handle = some stored →
      stored.infoHash = infoHash → edit stored = none := by
    intro stored present same
    cases edits : edit stored with
    | none => rfl
    | some changed =>
      exact absurd ((mem_edited labels).mpr ⟨handle, stored, changed, present, edits, same⟩) unedited
  rw [lookup_mapValues]
  cases present : registry.entries.lookup handle with
  | none => rfl
  | some stored =>
    simp only [map_some, Option.some.injEq]
    constructor
    · intro same
      have hashes : stored.infoHash = infoHash := by
        rw [← labels.getD_infoHash stored, same, named]
      rw [kept stored present hashes] at same
      exact same
    · rintro rfl
      rw [kept stored present named]
      rfl

/-! ## Quiet calls -/

theorem editRecords_entries (registry : SessionRegistry) (order : IterationOrder Str)
    (edit : RegistryRecord → Option RegistryRecord) : (registry.editRecords order edit).2.entries =
      mapValues (fun _ record => (edit record).getD record) registry.entries :=
  foldl_bumpRevision (fun other => other.entries = mapValues _ registry.entries) _
    (fun _ _ same => same) rfl

/-- A quiet call changes the view of the registry as its journal says. -/
theorem Outcome.follows (coherent : registry.Coherent) (quietly : quiet)
    (outcome : Outcome quiet registry next journal) : Follows registry.view next.view journal := by
  have nextCoherent := outcome.coherent coherent
  cases outcome with
  | idle => exact .refl _
  | enter record canonical unused fresh =>
    apply Follows.of_mem
    · intro infoHash unlisted
      have other := unlisted _ mem_cons_self
      have foreign : Foreign registry.entries record.handle infoHash :=
        fun _ found => nomatch fresh.symm.trans found
      exact coherent.view_congr nextCoherent (foreign.lookup_insert_iff other)
    · have shown := nextCoherent.view_of_lookup (AList.lookup_insert registry.entries)
      rw [forall_mem_singleton, shown]
      simp only [Bool.false_eq_true, reduceCtorEq]
  | leave handle record present index wire counts counted =>
    apply Follows.of_mem
    · intro infoHash unlisted
      have other := unlisted _ mem_cons_self
      exact coherent.view_congr nextCoherent (Foreign.of_lookup present other).lookup_erase_iff
    · rw [forall_mem_singleton]
      have gone : (registry.byHash.erase record.infoHash).lookup record.infoHash = none :=
        AList.lookup_erase _ _
      simp only [view, bumpRevision, eraseRecord, gone, bind, Option.bind]
  | convert handle old new present infoHash contribution projection counts counted =>
    intro key
    by_cases same : old.infoHash = key
    · subst same
      have shown := nextCoherent.view_of_lookup (AList.lookup_insert registry.entries)
      rw [infoHash, projection, ← coherent.view_of_lookup present] at shown
      exact shown
    · exact coherent.view_congr nextCoherent
        ((Foreign.of_lookup present same).lookup_insert_iff (infoHash.trans_ne same))
  | release handle entry present loud counts counted => exact absurd quietly loud
  | rewrite handle old entry present infoHash counts counted =>
    apply Follows.of_mem
    · intro key unlisted
      have other := unlisted _ mem_cons_self
      exact coherent.view_congr nextCoherent
        ((Foreign.of_lookup present (infoHash ▸ other)).lookup_insert_iff other)
    · have shown := nextCoherent.view_of_lookup (AList.lookup_insert registry.entries)
      simp only [RegistryRecord.infoHash] at shown
      simp only [forall_mem_singleton, shown, Bool.false_eq_true, reduceCtorEq]
  | edit order edit labels =>
    apply Follows.of_mem
    · intro key unlisted
      apply coherent.view_congr nextCoherent
      rw [editRecords_entries]
      apply lookup_edit_iff labels
      intro inside
      exact unlisted (key, false) (mem_map.mpr ⟨key, inside, rfl⟩) rfl
    · intro change inside
      obtain ⟨infoHash, listed, rfl⟩ := mem_map.mp inside
      obtain ⟨handle, record, changed, present, edits, rfl⟩ := (mem_edited labels).mp listed
      have stored : (registry.editRecords order edit).2.entries.lookup handle = some changed := by
        rw [editRecords_entries, lookup_mapValues, present, map_some, edits]
        rfl
      have shown := nextCoherent.view_of_lookup stored
      rw [labels.infoHash record changed edits] at shown
      simp only [shown, Bool.false_eq_true, reduceCtorEq]

/-- Only canonical hashes are journalled. -/
theorem Outcome.canonical (coherent : registry.Coherent)
    (outcome : Outcome quiet registry next journal) :
    ∀ change ∈ journal, canonicalInfoHash change.1 = change.1 := by
  have stored : ∀ {handle record}, registry.entries.lookup handle = some record →
      canonicalInfoHash record.infoHash = record.infoHash :=
    fun present => coherent.indexed.canonical _ _ (hashOf_of_lookup present)
  intro change inside
  cases outcome with
  | idle | convert | release => exact nomatch inside
  | enter record canonical unused fresh =>
    rw [mem_singleton.mp inside]
    exact canonical
  | leave handle record present =>
    rw [mem_singleton.mp inside]
    exact stored present
  | rewrite handle old entry present infoHash =>
    rw [mem_singleton.mp inside, infoHash]
    exact stored present
  | edit order edit labels =>
    obtain ⟨infoHash, listed, rfl⟩ := mem_map.mp inside
    obtain ⟨handle, record, changed, present, edits, rfl⟩ := (mem_edited labels).mp listed
    exact stored present

/-! ## The journal -/

/-- Record some changes, one after the other. -/
def bumpAll (registry : SessionRegistry) (journal : List (Str × Bool)) : SessionRegistry :=
  journal.foldl (fun registry change => registry.bumpRevision change.1 change.2) registry

/-- The parts of a registry that tell its readers what they have to read again. -/
structure SameJournal (first second : SessionRegistry) : Prop where
  revision : first.revision = second.revision
  shardRevisions : first.shardRevisions = second.shardRevisions
  changes : first.changes = second.changes
  snapshotCache : first.snapshotCache = second.snapshotCache
  shardSnapshotCache : first.shardSnapshotCache = second.shardSnapshotCache

theorem SameJournal.bumpRevision {first second : SessionRegistry} (same : SameJournal first second)
    (infoHash : Str) (removed : Bool) :
    SameJournal (first.bumpRevision infoHash removed) (second.bumpRevision infoHash removed) := by
  obtain ⟨revision, shardRevisions, changes, snapshotCache, shardSnapshotCache⟩ := same
  constructor <;>
    simp only [SessionRegistry.bumpRevision, revision, shardRevisions, changes, shardSnapshotCache]

/-- A call advances the revisions and the log by its journal, and in no other way. -/
theorem Outcome.sameJournal (outcome : Outcome quiet registry next journal) :
    SameJournal next (registry.bumpAll journal) := by
  cases outcome with
  | idle | enter | leave | convert | release | rewrite => exact ⟨rfl, rfl, rfl, rfl, rfl⟩
  | edit order edit labels =>
    rw [bumpAll, foldl_map]
    have same : ∀ (hashes : List Str) {first second : SessionRegistry}, SameJournal first second →
        SameJournal
          (hashes.foldl (fun registry infoHash => registry.bumpRevision infoHash false) first)
          (hashes.foldl (fun registry infoHash => registry.bumpRevision infoHash false) second) := by
      intro hashes
      induction hashes with
      | nil => exact fun same => same
      | cons infoHash rest ih =>
        exact fun same => ih (same.bumpRevision infoHash false)
    exact same _ ⟨rfl, rfl, rfl, rfl, rfl⟩

/-- A recorded change, as the journal has it. -/
def toChange (change : (Str × Bool) × Nat) : RegistryChange where
  revision := change.2
  infoHash := change.1.1
  removed := change.1.2

/-- The revision counts the changes ever made, and the log has the newest of them. -/
structure Journalled (registry : SessionRegistry) (journal : List (Str × Bool)) : Prop where
  revision : registry.revision = journal.length
  changes : registry.changes = (keepLast changeLogCapacity (stamped journal)).map toChange

theorem Journalled.bumpRevision (journalled : registry.Journalled journal)
    (room : journal.length + 1 < 2 ^ 64) (infoHash : Str) (removed : Bool) :
    (registry.bumpRevision infoHash removed).Journalled (journal ++ [(infoHash, removed)]) where
  revision := by
    rw [length_append, length_singleton]
    simp only [SessionRegistry.bumpRevision, wrappingIncrement, journalled.revision]
    exact Nat.mod_eq_of_lt room
  changes := by
    have revision : wrappingIncrement registry.revision = journal.length + 1 := by
      rw [wrappingIncrement, journalled.revision, Nat.mod_eq_of_lt room]
    have pushed : pushChange registry.changes
        { revision := journal.length + 1, infoHash, removed } = keepLast changeLogCapacity
          (registry.changes ++ [toChange ((infoHash, removed), journal.length + 1)]) := rfl
    have last : [toChange ((infoHash, removed), journal.length + 1)] =
        ([(infoHash, removed)].zipIdx (journal.length + 1)).map toChange := rfl
    simp only [SessionRegistry.bumpRevision, revision]
    rw [pushed, journalled.changes, last, ← map_append, keepLast_map, keepLast_append,
      ← stamped_append]

theorem Journalled.bumpAll {past : List (Str × Bool)} (journalled : registry.Journalled past)
    (room : past.length + journal.length < 2 ^ 64) :
    (registry.bumpAll journal).Journalled (past ++ journal) := by
  induction journal generalizing registry past with
  | nil =>
    rw [append_nil]
    exact journalled
  | cons change rest ih =>
    rw [length_cons] at room
    have bumped := journalled.bumpRevision (by omega) change.1 change.2
    have whole := ih bumped (by
      rw [length_append, length_singleton]
      omega)
    rw [append_assoc] at whole
    exact whole

theorem Outcome.journalled {past : List (Str × Bool)} (journalled : registry.Journalled past)
    (outcome : Outcome quiet registry next journal)
    (room : past.length + journal.length < 2 ^ 64) : next.Journalled (past ++ journal) := by
  have same := outcome.sameJournal
  have bumped := journalled.bumpAll room
  exact ⟨same.revision.trans bumped.revision, same.changes.trans bumped.changes⟩

theorem new_journalled : new.Journalled [] where
  revision := rfl
  changes := by simp only [new, keepLast, stamped, zipIdx_nil, drop_nil, map_nil]

/-- The torrents have distinct handles and none that is being finalized is demoted. -/
def Proper (registry : SessionRegistry) (event : Event) : Prop :=
  registry.Fresh event ∧ registry.Quiet event

end TorrentNG.Session.SessionRegistry
