import TorrentNG.RegistryIndexes

/-!
# What one call can do to the session registry

Every call ends in one of seven ways: it does nothing, a record enters or leaves, a record is
converted between its two forms, an entry that is being finalized loses its hold when it is
demoted, a lent entry is written back, or records are edited in place. `Outcome` lists them
with the changes that they record in the journal. The invariant of
the registry is a case analysis over the outcomes, and so is everything later said about
journals, snapshots and the clients of both.
-/

namespace TorrentNG.Session

open Fallible Indexes List MachineArithmetic SessionRegistryStats Tables

/-! ## Counts of records -/

theorem decrement_succ (count : Nat) : decrement (count + 1) = .ok count := by
  rfl

namespace Counted

variable {activeCount dormantCount : Nat} {records : List RegistryRecord}

theorem of_cons_active {entry : TorrentEntry}
    (counted : Counted activeCount dormantCount (.active entry :: records)) :
    ∃ count, activeCount = count + 1 ∧ Counted count dormantCount records := by
  obtain ⟨active, dormant⟩ := counted
  rw [countP_cons] at active dormant
  exact ⟨_, active, rfl, dormant⟩

theorem of_cons_dormant {torrent : DormantTorrent}
    (counted : Counted activeCount dormantCount (.dormant torrent :: records)) :
    ∃ count, dormantCount = count + 1 ∧ Counted activeCount count records := by
  obtain ⟨active, dormant⟩ := counted
  rw [countP_cons] at active dormant
  exact ⟨_, dormant, active, rfl⟩

variable (counted : Counted activeCount dormantCount records)

include counted

theorem perm {others : List RegistryRecord} (same : records.Perm others) :
    Counted activeCount dormantCount others where
  active := counted.active.trans (same.countP_eq _)
  dormant := counted.dormant.trans (same.countP_eq _)

theorem cons_active (entry : TorrentEntry) :
    Counted (activeCount + 1) dormantCount (.active entry :: records) where
  active := by
    rw [counted.active, countP_cons]
    rfl
  dormant := by
    rw [counted.dormant, countP_cons]
    rfl

theorem cons_dormant (torrent : DormantTorrent) :
    Counted activeCount (dormantCount + 1) (.dormant torrent :: records) where
  active := by
    rw [counted.active, countP_cons]
    rfl
  dormant := by
    rw [counted.dormant, countP_cons]
    rfl

end Counted

namespace SessionRegistry

/-! ## Outcomes -/

variable (registry : SessionRegistry)

/-- A record in the place of the one stored for a handle. -/
def replaceRecord (handle : TorrentHandle) (record : RegistryRecord)
    (stats : SessionRegistryStats) (counts : Nat × Nat) : SessionRegistry :=
  { registry with
    entries := registry.entries.insert handle record
    stats
    activeCount := counts.1
    dormantCount := counts.2 }

/-- An edit of labels leaves everything that is indexed or counted as it is. -/
structure LabelEdit (edit : RegistryRecord → Option RegistryRecord) : Prop where
  infoHash : ∀ record edited, edit record = some edited → edited.infoHash = record.infoHash
  contribution : ∀ record edited, edit record = some edited →
    edited.contribution = record.contribution
  active : ∀ record edited, edit record = some edited → edited.isActive = record.isActive
  dormant : ∀ record edited, edit record = some edited → edited.isDormant = record.isDormant

/-- The info hashes of the records that an edit changes, as the map yields them. -/
def edited (order : IterationOrder Str)
    (edit : RegistryRecord → Option RegistryRecord) : List Str :=
  order.arrange ((values registry.entries).filterMap fun record => (edit record).map (·.infoHash))

/-- What a call can do to a registry, with the hashes that it journals and whether it journals
them as removed. A call that is `quiet` changes no projection that it does not journal. -/
inductive Outcome (quiet : Prop) (registry : SessionRegistry) :
    SessionRegistry → List (Str × Bool) → Prop where
  | idle : Outcome quiet registry registry []
  | enter (record : RegistryRecord)
      (canonical : canonicalInfoHash record.infoHash = record.infoHash)
      (unused : registry.byHash.lookup record.infoHash = none)
      (fresh : registry.entries.lookup record.handle = none) :
      Outcome quiet registry ((registry.insertRecord record).bumpRevision record.infoHash false)
        [(record.infoHash, false)]
  | leave (handle : TorrentHandle) (record : RegistryRecord)
      (present : registry.entries.lookup handle = some record)
      (index : Table Str (List TorrentHandle))
      (wire : Groups index v2WireHashPrefix (Function.update (hashOf registry.entries) handle none))
      (counts : Nat × Nat)
      (counted : Counted counts.1 counts.2 (values (registry.entries.erase handle))) :
      Outcome quiet registry
        (({ registry with byHash := registry.byHash.erase record.infoHash }.eraseRecord handle record
          index counts).bumpRevision record.infoHash true)
        [(record.infoHash, true)]
  | convert (handle : TorrentHandle) (old new : RegistryRecord)
      (present : registry.entries.lookup handle = some old)
      (infoHash : new.infoHash = old.infoHash)
      (contribution : new.contribution = old.contribution)
      (projection : new.toEntry = old.toEntry)
      (counts : Nat × Nat)
      (counted : Counted counts.1 counts.2 (values (registry.entries.insert handle new))) :
      Outcome quiet registry (registry.replaceRecord handle new registry.stats counts) []
  | release (handle : TorrentHandle) (entry : TorrentEntry)
      (present : registry.entries.lookup handle = some (.active entry))
      (loud : ¬quiet)
      (counts : Nat × Nat)
      (counted : Counted counts.1 counts.2
        (values (registry.entries.insert handle (.dormant entry.intoDormant)))) :
      Outcome quiet registry
        (registry.replaceRecord handle (.dormant entry.intoDormant) registry.stats counts) []
  | rewrite (handle : TorrentHandle) (old : RegistryRecord) (entry : TorrentEntry)
      (present : registry.entries.lookup handle = some old)
      (infoHash : entry.infoHash = old.infoHash)
      (counts : Nat × Nat)
      (counted : Counted counts.1 counts.2
        (values (registry.entries.insert handle (.active entry)))) :
      Outcome quiet registry
        ((registry.replaceRecord handle (.active entry)
          (registry.stats.applyDelta old.contribution (.fromEntry entry)) counts).bumpRevision
          entry.infoHash false)
        [(entry.infoHash, false)]
  | edit (order : IterationOrder Str) (edit : RegistryRecord → Option RegistryRecord)
      (labels : LabelEdit edit) :
      Outcome quiet registry (registry.editRecords order edit).2
        ((registry.edited order edit).map fun infoHash => (infoHash, false))

/-- A torrent that is added, if it is not refused, has a handle of its own. -/
def FreshRecord (record : RegistryRecord) : Prop :=
  registry.byHash.lookup (canonicalInfoHash record.infoHash) = none →
    registry.entries.lookup record.handle = none

/-- The torrents of a session have distinct handles. -/
def Fresh : Event → Prop
  | .add entry => registry.FreshRecord (.active entry)
  | .addDormant torrent => registry.FreshRecord (.dormant torrent)
  | _ => True

/-- A demotion does not hit a torrent that is being finalized. -/
def Quiet : Event → Prop
  | .demote infoHash => ∀ entry, registry.get infoHash = some entry → entry.finalizing = false
  | _ => True

instance (registry : SessionRegistry) (record : RegistryRecord) :
    Decidable (registry.FreshRecord record) :=
  inferInstanceAs (Decidable (_ → _))

instance (registry : SessionRegistry) : (event : Event) → Decidable (registry.Fresh event)
  | .add entry => inferInstanceAs (Decidable (registry.FreshRecord (.active entry)))
  | .addDormant torrent => inferInstanceAs (Decidable (registry.FreshRecord (.dormant torrent)))
  | .remove _ | .demote _ | .getMut _ _ | .renameCategory _ _ _ | .clearCategories _ _
  | .clearTags _ _ => isTrue trivial

instance (registry : SessionRegistry) : (event : Event) → Decidable (registry.Quiet event)
  | .demote infoHash =>
    decidable_of_iff ((registry.get infoHash).all (fun entry => !entry.finalizing) = true) (by
      rw [Quiet, Option.all_eq_true]
      simp only [Bool.not_eq_true'])
  | .add _ | .addDormant _ | .remove _ | .getMut _ _ | .renameCategory _ _ _
  | .clearCategories _ _ | .clearTags _ _ => isTrue trivial

section Outcomes

variable {quiet : Prop} {registry : SessionRegistry}
  {handle : TorrentHandle} {record : RegistryRecord}
    {edit : RegistryRecord → Option RegistryRecord}

/-- The record of a registered hash. -/
theorem Coherent.lookup_record (coherent : registry.Coherent) {infoHash : Str}
    (registered : registry.byHash.lookup infoHash = some handle) :
    ∃ record, registry.entries.lookup handle = some record ∧ record.infoHash = infoHash :=
  hashOf_eq_some.mp ((coherent.indexed.hashes infoHash handle).mp registered)

theorem Coherent.counted_erase (coherent : registry.Coherent)
    (present : registry.entries.lookup handle = some record) :
    Counted registry.activeCount registry.dormantCount
      (record :: values (registry.entries.erase handle)) :=
  coherent.counted.perm (values_perm_erase present)

theorem addRecord_outcome (fresh : registry.FreshRecord record) :
    ∃ changes, Outcome quiet registry (registry.addRecord record).2 changes ∧
      changes.length = if (registry.addRecord record).1.isOk then 1 else 0 := by
  by_cases used : (registry.byHash.lookup (canonicalInfoHash record.infoHash)).isSome = true
  · have refused : registry.addRecord record =
        (.error (.alreadyExists (canonicalInfoHash record.infoHash)), registry) := by
      cases record <;> exact if_pos used
    rw [refused]
    exact ⟨[], .idle, rfl⟩
  · have unused : registry.byHash.lookup (canonicalInfoHash record.infoHash) = none :=
      Option.not_isSome_iff_eq_none.mp used
    have accepted : registry.addRecord record = (.ok record.handle, (registry.insertRecord
          (record.withInfoHash (canonicalInfoHash record.infoHash))).bumpRevision
          (record.withInfoHash (canonicalInfoHash record.infoHash)).infoHash false) := by
      cases record <;> exact if_neg used
    rw [accepted]
    refine ⟨_, .enter _ ?_ ?_ ?_, rfl⟩
    · rw [RegistryRecord.infoHash_withInfoHash, canonicalInfoHash_idempotent]
    · cases record <;> exact unused
    · rw [RegistryRecord.handle_withInfoHash]
      exact fresh unused

section

variable (coherent : registry.Coherent)

include coherent

theorem Coherent.uncount (present : registry.entries.lookup handle = some record) :
    ∃ counts, registry.uncount record = .ok counts ∧
      Counted counts.1 counts.2 (values (registry.entries.erase handle)) := by
  have counted := coherent.counted_erase present
  cases record with
  | active entry =>
    obtain ⟨count, same, rest⟩ := counted.of_cons_active
    refine ⟨(count, registry.dormantCount), ?_, rest⟩
    rw [SessionRegistry.uncount, same, decrement_succ]
    rfl
  | dormant torrent =>
    obtain ⟨count, same, rest⟩ := counted.of_cons_dormant
    refine ⟨(registry.activeCount, count), ?_, rest⟩
    rw [SessionRegistry.uncount, same, decrement_succ]
    rfl

theorem remove_outcome (infoHash : Str) :
    ∃ next changes, registry.step (.remove infoHash) = .ok next ∧ Outcome quiet registry next changes ∧
      changes.length = registry.mutations (.remove infoHash) := by
  cases registered : registry.byHash.lookup (canonicalInfoHash infoHash) with
  | none =>
    have missing : registry.remove infoHash =
        .ok (.error (.notFound (canonicalInfoHash infoHash)), registry) := by
      simp only [remove, registered]
    refine ⟨registry, [], ?_, .idle, ?_⟩
    · rw [step, missing]
      rfl
    · simp only [mutations, missing, length_nil]
  | some handle =>
    obtain ⟨record, present, same⟩ := coherent.lookup_record registered
    obtain ⟨index, unindexed, wire⟩ := coherent.indexed.unindexWirePrefix (hashOf_of_lookup present)
    obtain ⟨counts, uncounted, counted⟩ := coherent.uncount present
    have removed : registry.remove infoHash = .ok (.ok record.toEntry,
        ({ registry with byHash := registry.byHash.erase record.infoHash }.eraseRecord handle record
          index counts).bumpRevision record.infoHash true) := by
      simp only [remove, registered, ← same]
      rw [show okOr (registry.entries.lookup handle) Fault.missingRecord = .ok record by
        rw [present]; rfl]
      simp only [bind, Except.bind, unindexed]
      rw [show ({ registry with byHash := registry.byHash.erase record.infoHash } :
          SessionRegistry).uncount record = .ok counts from uncounted]
      rfl
    refine ⟨_, _, ?_, .leave handle record present index wire counts counted, ?_⟩
    · rw [step, removed]
      rfl
    · simp only [mutations, removed, length_cons, length_nil]

/-- What was demoted is dormant. -/
theorem demote_outcome (infoHash : Str) : ∃ next, registry.step (.demote infoHash) = .ok next ∧
      Outcome (registry.Quiet (.demote infoHash)) registry next [] ∧
      ∀ entry, registry.get infoHash = some entry →
        ∃ torrent : DormantTorrent, next.get infoHash = some torrent.toEntry := by
  cases registered : registry.byHash.lookup (canonicalInfoHash infoHash) with
  | none =>
    refine ⟨registry, ?_, .idle, ?_⟩
    · simp only [step, demote, registered]
      rfl
    · simp only [get, registered, bind, Option.bind]
      exact nofun
  | some handle =>
    obtain ⟨record, present, same⟩ := coherent.lookup_record registered
    have counted := coherent.counted_erase present
    have shown : ∀ torrent counts, (registry.replaceRecord handle (.dormant torrent) registry.stats
        counts).get infoHash = some torrent.toEntry := by
      intro torrent counts
      simp only [get, replaceRecord, registered, AList.lookup_insert, bind, Option.bind]
      rfl
    cases record with
    | active entry =>
      obtain ⟨count, lower, rest⟩ := counted.of_cons_active
      refine ⟨registry.replaceRecord handle (.dormant entry.intoDormant) registry.stats
        (count, registry.dormantCount + 1), ?_, ?_, fun _ _ => ⟨_, shown _ _⟩⟩
      · simp only [step, demote, registered, present, lower, decrement_succ]
        rfl
      · cases held : entry.finalizing with
        | false =>
          have kept : entry.intoDormant.toEntry = entry := by
            rw [TorrentEntry.toEntry_intoDormant, ← held]
          exact .convert handle _ (.dormant entry.intoDormant) present rfl rfl kept _
            (rest.cons_dormant _)
        | true =>
          apply Outcome.release handle entry present _ _ (rest.cons_dormant _)
          intro quiet
          have found : registry.get infoHash = some entry := by
            simp only [get, registered, present, bind, Option.bind]
            rfl
          rw [quiet entry found] at held
          exact nomatch held
    | dormant torrent =>
      refine ⟨_, ?_, .convert handle _ (.dormant torrent) present rfl rfl rfl
        (registry.activeCount, registry.dormantCount) counted, fun _ _ => ⟨_, shown _ _⟩⟩
      simp only [step, demote, registered, present]
      rfl

/-- A lent entry is that of the registered record, whose form no longer matters. -/
theorem getMut_eq {infoHash : Str}
    (registered : registry.byHash.lookup (canonicalInfoHash infoHash) = some handle)
    (present : registry.entries.lookup handle = some record) :
    ∃ counts lent, registry.getMut infoHash = .ok (some
        { registry := lent
          handle
          entry := record.toEntry
          infoHash := canonicalInfoHash infoHash
          before := record.contribution
          touched := false }) ∧
      Outcome quiet registry lent [] ∧ lent.stats = registry.stats ∧
      (∀ entry, Counted counts.1 counts.2 (values (registry.entries.insert handle (.active entry)))) ∧
      ∀ entry stats, { lent with entries := lent.entries.insert handle (.active entry), stats } =
        registry.replaceRecord handle (.active entry) stats counts := by
  have counted := coherent.counted_erase present
  cases record with
  | active entry =>
    refine ⟨(registry.activeCount, registry.dormantCount), registry, ?_, .idle, rfl, ?_, ?_⟩
    · simp only [getMut, registered, promote, present]
      simp only [bind, Except.bind, present]
      rfl
    · intro other
      obtain ⟨count, same, rest⟩ := counted.of_cons_active
      rw [same]
      exact rest.cons_active other
    · exact fun other stats => rfl
  | dormant torrent =>
    obtain ⟨count, same, rest⟩ := counted.of_cons_dormant
    have promoted : registry.promote handle = .ok (registry.replaceRecord handle
        (.active torrent.toEntry) registry.stats (registry.activeCount + 1, count)) := by
      simp only [promote, present, same, decrement_succ]
      rfl
    refine ⟨(registry.activeCount + 1, count), _, ?_, .convert handle _ (.active torrent.toEntry)
      present rfl rfl rfl (registry.activeCount + 1, count) (rest.cons_active _), rfl, ?_, ?_⟩
    · simp only [getMut, registered, promoted]
      simp only [bind, Except.bind, replaceRecord, AList.lookup_insert]
      rfl
    · exact fun other => rest.cons_active other
    · intro other stats
      simp only [replaceRecord, AList.insert_insert]

end

theorem foldl_derefMut (guard : SessionRegistryEntryMut)
    (mutations : List (TorrentEntry → TorrentEntry)) :
    mutations.foldl SessionRegistryEntryMut.derefMut guard =
      { guard with
        entry := mutations.foldl (fun entry mutation => mutation entry) guard.entry
        touched := guard.touched || !mutations.isEmpty } := by
  induction mutations generalizing guard with
  | nil => simp only [foldl_nil, isEmpty_nil, Bool.not_true, Bool.or_false]
  | cons mutation rest ih =>
    rw [foldl_cons, ih]
    simp only [SessionRegistryEntryMut.derefMut, Bool.true_or, foldl_cons, isEmpty_cons,
      Bool.not_false, Bool.or_true]

theorem mutate_outcome (coherent : registry.Coherent) (infoHash : Str)
    (changes : List (TorrentEntry → TorrentEntry)) :
    ∃ next journal, registry.step (.getMut infoHash changes) = .ok next ∧
      Outcome quiet registry next journal ∧
      journal.length = registry.mutations (.getMut infoHash changes) := by
  cases registered : registry.byHash.lookup (canonicalInfoHash infoHash) with
  | none =>
    have missing : registry.getMut infoHash = .ok none := by
      simp only [getMut, registered]
    refine ⟨registry, [], ?_, .idle, ?_⟩
    · simp only [step, mutate, missing]
      rfl
    · simp only [mutations, missing, length_nil]
  | some handle =>
    obtain ⟨record, present, same⟩ := coherent.lookup_record registered
    obtain ⟨counts, lent, got, converted, stats, counted, settles⟩ :=
      getMut_eq coherent registered present
    cases changes with
    | nil =>
      refine ⟨lent, [], ?_, converted, ?_⟩
      · simp only [step, mutate, got]
        rfl
      · simp only [mutations, got, isEmpty_nil, if_true, length_nil]
    | cons mutation rest =>
      refine ⟨_, _, ?_, .rewrite handle record
        { (mutation :: rest).foldl (fun entry mutation => mutation entry) record.toEntry with
          infoHash := record.infoHash } present rfl counts (counted _), ?_⟩
      · simp only [step, mutate, got]
        simp only [bind, Except.bind, foldl_derefMut, SessionRegistryEntryMut.drop,
          isEmpty_cons, Bool.not_false, Bool.or_true, if_true, settles, stats, same]
        rfl
      · simp only [mutations, got, isEmpty_cons, Bool.false_eq_true, if_false,
          length_cons, length_nil]

/-! ### Label edits -/

theorem edit_outcome (registry : SessionRegistry) (order : IterationOrder Str)
    (labels : LabelEdit edit) :
    ∃ journal, Outcome quiet registry (registry.editRecords order edit).2 journal ∧
      journal.length = (registry.editRecords order edit).1 := by
  refine ⟨_, .edit order edit labels, ?_⟩
  rw [length_map]
  rfl

/-- An edit that sets the category or the tags of some records is an edit of labels. -/
theorem labelEdit_of {condition : RegistryRecord → Prop} [DecidablePred condition]
    {set : RegistryRecord → RegistryRecord}
    (sets : ∀ record, (∃ label, set record = record.setCategory label) ∨
      ∃ labels, set record = record.setTags labels) :
    LabelEdit fun record => if condition record then some (set record) else none := by
  constructor
  all_goals
    intro record edited given
    obtain rfl := Option.some.inj (Option.ite_none_right_eq_some.mp given).2
    rcases sets record with ⟨label, same⟩ | ⟨labels, same⟩ <;> rw [same] <;> cases record <;> rfl

theorem renameCategory_labels (oldName newName : Str) :
    LabelEdit fun record =>
      if record.category = some oldName then some (record.setCategory (some newName)) else none :=
  labelEdit_of fun _ => .inl ⟨_, rfl⟩

theorem clearCategories_labels (names : List Str) :
    LabelEdit fun record =>
      if record.category.any names.contains then some (record.setCategory none) else none :=
  labelEdit_of fun _ => .inl ⟨_, rfl⟩

theorem clearTags_labels (names : List Str) :
    LabelEdit fun record =>
      let retained := record.tags.filter fun tag => !names.contains tag
      if record.tags.length ≠ retained.length then some (record.setTags retained) else none :=
  labelEdit_of fun _ => .inr ⟨_, rfl⟩

/-- Every call returns, with one of the outcomes. -/
theorem step_outcome (coherent : registry.Coherent) {event : Event} (fresh : registry.Fresh event) :
    ∃ next journal, registry.step event = .ok next ∧
      Outcome (registry.Quiet event) registry next journal ∧
      journal.length = registry.mutations event := by
  cases event with
  | add | addDormant =>
    obtain ⟨journal, outcome, length⟩ := addRecord_outcome fresh
    exact ⟨_, journal, rfl, outcome, length⟩
  | remove infoHash => exact remove_outcome coherent infoHash
  | demote infoHash =>
    obtain ⟨next, stepped, outcome, _⟩ := demote_outcome coherent infoHash
    exact ⟨next, [], stepped, outcome, rfl⟩
  | getMut infoHash mutations => exact mutate_outcome coherent infoHash mutations
  | renameCategory order oldName newName =>
    by_cases same : oldName = newName
    · have kept : registry.renameCategory order oldName newName = (0, registry) := if_pos same
      refine ⟨registry, [], ?_, .idle, ?_⟩
      · rw [step, kept]
      · rw [mutations, kept]
        rfl
    · obtain ⟨journal, outcome, length⟩ :=
        edit_outcome registry order (renameCategory_labels oldName newName)
      have edits : registry.renameCategory order oldName newName = _ := if_neg same
      rw [← edits] at outcome length
      exact ⟨_, journal, rfl, outcome, length⟩
  | clearCategories order names =>
    obtain ⟨journal, outcome, length⟩ := edit_outcome registry order (clearCategories_labels names)
    exact ⟨_, journal, rfl, outcome, length⟩
  | clearTags order names =>
    obtain ⟨journal, outcome, length⟩ := edit_outcome registry order (clearTags_labels names)
    exact ⟨_, journal, rfl, outcome, length⟩

/-! ## The invariant over the outcomes -/

theorem Coherent.bumpRevision (coherent : registry.Coherent) (infoHash : Str) (removed : Bool) :
    (registry.bumpRevision infoHash removed).Coherent :=
  ⟨coherent.indexed, coherent.counted⟩

/-- A record may take the place of another one with its hash. -/
theorem Coherent.replaceRecord (coherent : registry.Coherent) {old new : RegistryRecord}
    (present : registry.entries.lookup handle = some old)
    {stats : SessionRegistryStats} {counts : Nat × Nat}
    (counted : Counted counts.1 counts.2 (values (registry.entries.insert handle new)))
    (infoHash : new.infoHash = old.infoHash) :
    (registry.replaceRecord handle new stats counts).Coherent := by
  have same : hashOf (registry.entries.insert handle new) = hashOf registry.entries := by
    rw [hashOf_insert, infoHash, ← hashOf_of_lookup present, Function.update_eq_self]
  have indexed := coherent.indexed
  rw [← same] at indexed
  exact ⟨indexed, counted⟩

/-- A series of revisions touches neither the records nor the indexes. -/
theorem foldl_bumpRevision (property : SessionRegistry → Prop) (hashes : List Str)
    (bump : ∀ registry infoHash, property registry → property (registry.bumpRevision infoHash false))
    (start : property registry) :
    property (hashes.foldl (fun registry infoHash => registry.bumpRevision infoHash false)
      registry) := by
  induction hashes generalizing registry with
  | nil => exact start
  | cons infoHash rest ih =>
    exact ih (bump registry infoHash start)

/-- An edit that keeps a value keeps it in the records it leaves out too. -/
theorem getD_edit {β : Type} {value : RegistryRecord → β}
    (keeps : ∀ record edited, edit record = some edited → value edited = value record)
    (record : RegistryRecord) : value ((edit record).getD record) = value record := by
  cases given : edit record with
  | none => rfl
  | some edited => exact keeps record edited given

theorem LabelEdit.getD_infoHash (labels : LabelEdit edit) (record : RegistryRecord) :
    ((edit record).getD record).infoHash = record.infoHash :=
  getD_edit labels.infoHash record

theorem LabelEdit.counted (labels : LabelEdit edit) {activeCount dormantCount : Nat}
    {records : List RegistryRecord} (counted : Counted activeCount dormantCount records) :
    Counted activeCount dormantCount (records.map fun record => (edit record).getD record) where
  active := by
    rw [counted.active, countP_map]
    congr 1
    funext record
    exact (getD_edit labels.active record).symm
  dormant := by
    rw [counted.dormant, countP_map]
    congr 1
    funext record
    exact (getD_edit labels.dormant record).symm

theorem Outcome.coherent (coherent : registry.Coherent) {next : SessionRegistry}
    {journal : List (Str × Bool)} (outcome : Outcome quiet registry next journal) :
    next.Coherent := by
  cases outcome with
  | idle => exact coherent
  | enter record canonical unused fresh =>
    apply Coherent.bumpRevision
    have unnamed : hashOf registry.entries record.handle = none := by rw [hashOf, fresh]; rfl
    constructor
    · have entered := coherent.indexed.enter unnamed unused canonical
      rw [← hashOf_insert] at entered
      exact entered
    · have counted := coherent.counted
      simp only [insertRecord, values_insert_fresh fresh]
      cases record with
      | active entry => exact counted.cons_active entry
      | dormant torrent => exact counted.cons_dormant torrent
  | leave handle record present index wire counts counted =>
    apply Coherent.bumpRevision
    refine ⟨?_, counted⟩
    have left := coherent.indexed.leave (hashOf_of_lookup present) wire
    rw [← hashOf_erase] at left
    exact left
  | convert handle old new present infoHash contribution projection counts counted =>
    exact coherent.replaceRecord present counted infoHash
  | release handle entry present loud counts counted =>
    exact coherent.replaceRecord present counted rfl
  | rewrite handle old entry present infoHash counts counted =>
    exact (coherent.replaceRecord present counted infoHash).bumpRevision _ _
  | edit order edit labels =>
    apply foldl_bumpRevision Coherent _ fun registry infoHash coherent =>
      coherent.bumpRevision infoHash false
    constructor
    · have indexed := coherent.indexed
      rw [← hashOf_mapValues registry.entries labels.getD_infoHash] at indexed
      exact indexed
    · simp only [values_mapValues]
      exact labels.counted coherent.counted

theorem new_coherent : new.Coherent where
  indexed :=
    { hashes := fun name item => by simp [new, hashOf]
      shards := fun place item => by simp [new, hashOf, Vector.get]
      wire := ⟨fun place => by simp [new, listed], fun place item => by simp [new, listed, hashOf]⟩
      canonical := fun handle hash present => by simp [new, hashOf] at present }
  counted := ⟨rfl, rfl⟩

end Outcomes

end SessionRegistry

end TorrentNG.Session
