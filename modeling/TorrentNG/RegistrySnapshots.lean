import TorrentNG.RegistryView
import TorrentNG.Runs

/-!
# Snapshots of the session registry

A snapshot lists the entries of the registry by increasing info hash. It is put together from
the projections of the shards, and both the whole and its parts are cached with the revision
that they were built from. A cached projection is right as long as its revision is current,
because every quiet call that changes an entry advances the revision of its shard. A torrent
that is demoted while it is being finalized is the exception: its entry changes and no revision
does, so that snapshots go on showing the old one.
-/

namespace TorrentNG.Session

open ChangeLog Fallible Indexes List Tables

/-! ## Projections -/

/-- The entries are those that a view has for some hashes, each once. -/
structure Lists (view : Str → Option TorrentEntry) (keep : Str → Prop)
    (entries : List TorrentEntry) : Prop where
  distinct : (entries.map (·.infoHash)).Nodup
  mem : ∀ entry, entry ∈ entries ↔ view entry.infoHash = some entry ∧ keep entry.infoHash

/-- The entries that a view has for some hashes, by increasing hash. -/
structure Projects (view : Str → Option TorrentEntry) (keep : Str → Prop)
    (entries : List TorrentEntry) : Prop extends Lists view keep entries where
  sorted : entries.Pairwise fun left right => left.infoHash ≤ right.infoHash

section Projections

variable {view other : Str → Option TorrentEntry} {keep : Str → Prop}
  {entries : List TorrentEntry}

instance : Std.Total fun left right : TorrentEntry => left.infoHash ≤ right.infoHash where
  total left right := List.le_total left.infoHash right.infoHash

instance : IsTrans TorrentEntry fun left right => left.infoHash ≤ right.infoHash where
  trans _ _ _ := List.le_trans

theorem Lists.sort (lists : Lists view keep entries) :
    Projects view keep (SessionRegistry.sortByInfoHash entries) where
  distinct := by
    have same := (perm_insertionSort
      (fun left right : TorrentEntry => left.infoHash ≤ right.infoHash) entries).map (·.infoHash)
    exact same.nodup_iff.mpr lists.distinct
  mem := by
    intro entry
    rw [← lists.mem]
    exact (perm_insertionSort _ entries).mem_iff
  sorted := pairwise_insertionSort _ entries

/-- A projection is determined by the view. -/
theorem Projects.unique {others : List TorrentEntry} (first : Projects view keep entries)
    (second : Projects view keep others) : entries = others := by
  apply List.Perm.eq_of_pairwise _ first.sorted second.sorted
  · apply (List.perm_ext_iff_of_nodup first.distinct.of_map second.distinct.of_map).mpr
    intro entry
    rw [first.mem, second.mem]
  · intro left right inside alsoInside below above
    have same : left.infoHash = right.infoHash := List.le_antisymm below above
    have shown := ((first.mem left).mp inside).1
    rw [same, ((second.mem right).mp alsoInside).1] at shown
    exact (Option.some.inj shown).symm

/-- A projection stays right while the view of its hashes is the same. -/
theorem Projects.congr (projects : Projects view keep entries)
    (same : ∀ infoHash, keep infoHash → other infoHash = view infoHash) :
    Projects other keep entries where
  distinct := projects.distinct
  sorted := projects.sorted
  mem := by
    intro entry
    rw [projects.mem]
    constructor
    · exact fun ⟨shown, kept⟩ => ⟨(same _ kept).trans shown, kept⟩
    · exact fun ⟨shown, kept⟩ => ⟨(same _ kept).symm.trans shown, kept⟩

end Projections

namespace SessionRegistry

variable {quiet : Prop} {registry next : SessionRegistry} {journal : List (Str × Bool)}

/-- The entries of all registered hashes in increasing order. -/
def projection (registry : SessionRegistry) : List TorrentEntry :=
  (registry.byHash.keys.insertionSort (· ≤ ·)).filterMap registry.get

instance : Std.Total fun left right : Str => left ≤ right := ⟨List.le_total⟩

instance : IsTrans Str fun left right => left ≤ right := ⟨fun _ _ _ => List.le_trans⟩

section

variable (coherent : registry.Coherent)

include coherent

theorem Coherent.projects_projection :
    Projects registry.view (fun _ => True) registry.projection := by
  have sorted := perm_insertionSort (fun left right : Str => left ≤ right) registry.byHash.keys
  have viewed : registry.projection =
      (registry.byHash.keys.insertionSort fun left right => left ≤ right).filterMap registry.view := by
    refine filterMap_congr fun infoHash inside => ?_
    obtain ⟨handle, named⟩ := coherent.indexed.hashes.mem_keys_iff.mp (sorted.mem_iff.mp inside)
    rw [get_eq_view, coherent.indexed.canonical handle infoHash named]
  have hashes : registry.projection.map (·.infoHash) =
      registry.byHash.keys.insertionSort fun left right => left ≤ right := by
    rw [viewed, map_filterMap]
    refine (filterMap_congr fun infoHash inside => ?_).trans filterMap_some
    obtain ⟨entry, shown⟩ := coherent.mem_registered_iff.mp (sorted.mem_iff.mp inside)
    rw [shown, Option.map_some, coherent.infoHash_of_view shown]
  constructor
  · constructor
    · rw [hashes]
      exact sorted.nodup_iff.mpr registry.byHash.keys_nodup
    · intro entry
      simp only [and_true]
      rw [viewed, mem_filterMap]
      constructor
      · rintro ⟨infoHash, _, found⟩
        rw [coherent.infoHash_of_view found, found]
      · intro shown
        have registered := coherent.mem_registered_iff.mpr ⟨entry, shown⟩
        exact ⟨entry.infoHash, sorted.mem_iff.mpr registered, shown⟩
  · have ordered := pairwise_insertionSort (fun left right : Str => left ≤ right)
      registry.byHash.keys
    rw [← hashes, pairwise_map] at ordered
    exact ordered

/-! ## Rebuilding -/

theorem Coherent.projects_rebuildShard (shard : Fin snapshotShards) :
    Projects registry.view (fun infoHash => snapshotShard infoHash = shard)
      (registry.rebuildShard shard) := by
  apply Lists.sort
  constructor
  · rw [map_map]
    apply List.Nodup.map_on
    · intro first firstInside second secondInside same
      simp only [Function.comp_apply, infoHash_toEntry] at same
      have firstStored := mem_of_mem_filter firstInside
      have secondStored := mem_of_mem_filter secondInside
      have named := fun {item} (stored : item ∈ registry.entries.entries) =>
        (coherent.indexed.hashes _ _).mpr (hashOf_of_lookup (mem_entries_iff.mp stored))
      refine registry.entries.nodupKeys.eq_of_fst_eq firstStored secondStored ?_
      have handles := named firstStored
      rw [same, named secondStored] at handles
      exact (Option.some.inj handles).symm
    · exact (registry.entries.nodupKeys.nodup).filter _
  · intro entry
    rw [mem_map]
    constructor
    · rintro ⟨⟨handle, record⟩, inside, rfl⟩
      obtain ⟨stored, member⟩ := mem_filter.mp inside
      have present := mem_entries_iff.mp stored
      obtain ⟨infoHash, named, place⟩ :=
        (coherent.indexed.shards shard handle).mp (of_decide_eq_true member)
      rw [hashOf_of_lookup present] at named
      rw [infoHash_toEntry]
      exact ⟨coherent.view_of_lookup present, Option.some.inj named ▸ place⟩
    · rintro ⟨shown, place⟩
      obtain ⟨handle, record, present, same, rfl⟩ := coherent.view_eq_some.mp shown
      refine ⟨⟨handle, record⟩, mem_filter.mpr ⟨mem_entries_iff.mpr present, ?_⟩, rfl⟩
      apply decide_eq_true
      exact (coherent.indexed.shards shard handle).mpr ⟨_, hashOf_of_lookup present, same ▸ place⟩

end

/-! ## Caches -/

/-- A cached projection is right if its revision is current. -/
structure CachesValid (registry : SessionRegistry) : Prop where
  whole : ∀ entries, cachedAt registry.snapshotCache registry.revision = some entries →
    Projects registry.view (fun _ => True) entries
  /-- The revision of a cached part is not ahead of its shard. -/
  earlier : ∀ (shard : Fin snapshotShards) revision entries,
    registry.shardSnapshotCache.get shard = some (revision, entries) →
      revision ≤ registry.shardRevisions.get shard
  parts : ∀ (shard : Fin snapshotShards) entries,
    cachedAt (registry.shardSnapshotCache.get shard) (registry.shardRevisions.get shard) =
        some entries →
      Projects registry.view (fun infoHash => snapshotShard infoHash = shard) entries
  bounded : ∀ shard, registry.shardRevisions.get shard ≤ registry.revision

theorem new_cachesValid : new.CachesValid := by
  constructor <;> simp [new, cachedAt, Vector.get]

theorem cachedAt_eq_some {cache : SnapshotCache} {revision : Nat} {entries : List TorrentEntry} :
    cachedAt cache revision = some entries ↔ cache = some (revision, entries) := by
  cases cache with
  | none => simp [cachedAt]
  | some cached =>
    obtain ⟨cachedRevision, cachedEntries⟩ := cached
    simp [cachedAt]

/-! ### Reading -/

/-- What a snapshot leaves as it is: everything but the caches. -/
structure SameButCaches (before after : SessionRegistry) : Prop where
  byHash : after.byHash = before.byHash
  v2ByWireHash : after.v2ByWireHash = before.v2ByWireHash
  entries : after.entries = before.entries
  revision : after.revision = before.revision
  shardRevisions : after.shardRevisions = before.shardRevisions
  shardMembers : after.shardMembers = before.shardMembers
  changes : after.changes = before.changes
  activeCount : after.activeCount = before.activeCount
  dormantCount : after.dormantCount = before.dormantCount

theorem SameButCaches.coherent (same : SameButCaches registry next) (coherent : registry.Coherent) :
    next.Coherent := by
  constructor
  · rw [same.byHash, same.shardMembers, same.v2ByWireHash, same.entries]
    exact coherent.indexed
  · rw [same.activeCount, same.dormantCount, same.entries]
    exact coherent.counted

theorem SameButCaches.view (same : SameButCaches registry next) : next.view = registry.view := by
  funext infoHash
  rw [SessionRegistry.view, same.byHash, same.entries]
  rfl

theorem shardSnapshot_spec (coherent : registry.Coherent) (valid : registry.CachesValid)
    (shard : Fin snapshotShards) :
    Projects registry.view (fun infoHash => snapshotShard infoHash = shard)
        (registry.shardSnapshot shard).1 ∧ SameButCaches registry (registry.shardSnapshot shard).2 ∧
      (registry.shardSnapshot shard).2.CachesValid := by
  cases cached : cachedAt registry.shardSnapshotCache[shard] registry.shardRevisions[shard] with
  | some entries =>
    have reused : registry.shardSnapshot shard = (entries, registry) := by
      simp only [shardSnapshot, cached]
    rw [reused]
    exact ⟨valid.parts shard entries cached, ⟨rfl, rfl, rfl, rfl, rfl, rfl, rfl, rfl, rfl⟩, valid⟩
  | none =>
    have rebuilt : registry.shardSnapshot shard = (registry.rebuildShard shard,
        { registry with
          shardSnapshotCache := registry.shardSnapshotCache.set shard
            (some (registry.shardRevisions[shard], registry.rebuildShard shard)) }) := by
      simp only [shardSnapshot, cached]
    have projects := coherent.projects_rebuildShard shard
    rw [rebuilt]
    refine ⟨projects, ⟨rfl, rfl, rfl, rfl, rfl, rfl, rfl, rfl, rfl⟩, valid.whole, ?_, ?_, valid.bounded⟩
    · intro other revision entries stored
      rw [get_set] at stored
      split at stored
      next same =>
        obtain ⟨⟩ := stored
        exact same ▸ Nat.le_refl _
      next => exact valid.earlier other revision entries stored
    · intro other entries stored
      rw [cachedAt_eq_some, get_set] at stored
      split at stored
      next same =>
        obtain ⟨_, rfl⟩ := Prod.mk.inj (Option.some.inj stored)
        exact same ▸ projects
      next => exact valid.parts other entries (cachedAt_eq_some.mpr stored)

theorem SameButCaches.trans {last : SessionRegistry} (first : SameButCaches registry next)
    (second : SameButCaches next last) : SameButCaches registry last where
  byHash := second.byHash.trans first.byHash
  v2ByWireHash := second.v2ByWireHash.trans first.v2ByWireHash
  entries := second.entries.trans first.entries
  revision := second.revision.trans first.revision
  shardRevisions := second.shardRevisions.trans first.shardRevisions
  shardMembers := second.shardMembers.trans first.shardMembers
  changes := second.changes.trans first.changes
  activeCount := second.activeCount.trans first.activeCount
  dormantCount := second.dormantCount.trans first.dormantCount

section

variable (coherent : registry.Coherent) (valid : registry.CachesValid)

include coherent valid

/-- The projections of distinct shards together have the entries of all of them, once. -/
theorem shardSnapshots_spec {shards : List (Fin snapshotShards)} (distinct : shards.Nodup) :
    Lists registry.view (fun infoHash => snapshotShard infoHash ∈ shards)
        (registry.shardSnapshots shards).1 ∧
      SameButCaches registry (registry.shardSnapshots shards).2 ∧
      (registry.shardSnapshots shards).2.CachesValid := by
  induction shards generalizing registry with
  | nil =>
    refine ⟨⟨nodup_nil, fun entry => ?_⟩, ⟨rfl, rfl, rfl, rfl, rfl, rfl, rfl, rfl, rfl⟩, valid⟩
    simp only [shardSnapshots, not_mem_nil, and_false]
  | cons shard rest ih =>
    obtain ⟨outside, distinctRest⟩ := nodup_cons.mp distinct
    obtain ⟨first, same, validFirst⟩ := shardSnapshot_spec coherent valid shard
    obtain ⟨later, sameRest, validRest⟩ := ih (same.coherent coherent) validFirst distinctRest
    rw [same.view] at later
    refine ⟨⟨?_, fun entry => ?_⟩, same.trans sameRest, validRest⟩
    · rw [shardSnapshots, map_append]
      apply List.Nodup.append first.distinct later.distinct
      intro infoHash here there
      obtain ⟨entry, inside, rfl⟩ := mem_map.mp here
      obtain ⟨other, otherInside, equal⟩ := mem_map.mp there
      have place := ((first.mem entry).mp inside).2
      have otherPlace := ((later.mem other).mp otherInside).2
      rw [equal, place] at otherPlace
      exact outside otherPlace
    · rw [shardSnapshots, mem_append, first.mem, later.mem, mem_cons, ← and_or_left]

theorem snapshot_spec : Projects registry.view (fun _ => True) registry.snapshot.1.entries ∧
      SameButCaches registry registry.snapshot.2 ∧ registry.snapshot.2.CachesValid := by
  cases cached : cachedAt registry.snapshotCache registry.revision with
  | some entries =>
    have reused : registry.snapshot = ({ revision := registry.revision, entries }, registry) := by
      simp only [snapshot, cached]
    rw [reused]
    exact ⟨valid.whole entries cached, ⟨rfl, rfl, rfl, rfl, rfl, rfl, rfl, rfl, rfl⟩, valid⟩
  | none =>
    obtain ⟨lists, same, validParts⟩ :=
      shardSnapshots_spec coherent valid (nodup_finRange snapshotShards)
    simp only [snapshot, cached, rebuildSnapshotEntries]
    generalize registry.shardSnapshots (List.finRange snapshotShards) = combined at *
    have everywhere : Lists registry.view (fun _ => True) combined.1 :=
      ⟨lists.distinct, fun entry => by rw [lists.mem]; simp only [mem_finRange]⟩
    have projects := everywhere.sort
    refine ⟨projects, { same with }, ?_, validParts.earlier, validParts.parts, validParts.bounded⟩
    intro entries stored
    have written : some (registry.revision, sortByInfoHash combined.1) = some (_, entries) :=
      cachedAt_eq_some.mp stored
    have sameEntries : sortByInfoHash combined.1 = entries :=
      (Prod.ext_iff.mp (Option.some.inj written)).2
    rw [sameEntries, ← same.view] at projects
    exact projects

theorem snapshot_eq_projection : registry.snapshot.1.entries = registry.projection :=
  (snapshot_spec coherent valid).1.unique coherent.projects_projection

end

/-! ### Changing -/

/-- The revision counts the changes, and that of a shard grows with every change to one of its
hashes and with no other. -/
theorem revisions_bumpAll (bounded : ∀ shard, registry.shardRevisions.get shard ≤ registry.revision)
    (room : registry.revision + journal.length < 2 ^ 64) :
    (registry.bumpAll journal).revision = registry.revision + journal.length ∧ ∀ shard,
      (registry.bumpAll journal).shardRevisions.get shard ≤ (registry.bumpAll journal).revision ∧
      registry.shardRevisions.get shard ≤ (registry.bumpAll journal).shardRevisions.get shard ∧
      ((registry.bumpAll journal).shardRevisions.get shard = registry.shardRevisions.get shard →
        ∀ change ∈ journal, snapshotShard change.1 ≠ shard) := by
  induction journal generalizing registry with
  | nil =>
    exact ⟨rfl, fun shard => ⟨bounded shard, Nat.le_refl _, nofun⟩⟩
  | cons change rest ih =>
    rw [length_cons] at room
    have revision : (registry.bumpRevision change.1 change.2).revision = registry.revision + 1 := by
      exact Nat.mod_eq_of_lt (by omega)
    have bump : ∀ other, (registry.bumpRevision change.1 change.2).shardRevisions.get other =
          if other = snapshotShard change.1 then registry.shardRevisions.get other + 1
          else registry.shardRevisions.get other := by
      intro other
      refine (get_set _ _ _ _).trans ?_
      split
      next same =>
        have before := Nat.succ_le_succ (bounded (snapshotShard change.1))
        rw [same]
        exact Nat.mod_eq_of_lt (before.trans_lt (by omega))
      next => rfl
    have boundedNext : ∀ other, (registry.bumpRevision change.1 change.2).shardRevisions.get other ≤
          (registry.bumpRevision change.1 change.2).revision := by
      intro other
      rw [bump, revision]
      have before := bounded other
      split_ifs <;> omega
    obtain ⟨counted, shards⟩ := ih boundedNext (by rw [revision]; omega)
    rw [revision, Nat.add_assoc, Nat.add_comm 1] at counted
    refine ⟨counted, fun shard => ?_⟩
    obtain ⟨below, grows, untouched⟩ := shards shard
    by_cases place : shard = snapshotShard change.1
    · rw [bump, if_pos place] at grows
      exact ⟨below, Nat.le_of_succ_le grows, fun same => absurd same (Nat.ne_of_gt grows)⟩
    · rw [bump, if_neg place] at grows untouched
      exact ⟨below, grows, fun same => forall_mem_cons.mpr ⟨Ne.symm place, untouched same⟩⟩

theorem bumpAll_snapshotCache (nonempty : journal ≠ []) :
    (registry.bumpAll journal).snapshotCache = none := by
  obtain ⟨front, last, rfl⟩ := eq_nil_or_concat journal |>.resolve_left nonempty
  rw [bumpAll, concat_eq_append, foldl_append]
  rfl

theorem bumpAll_shardSnapshotCache (registry : SessionRegistry) (journal : List (Str × Bool)) :
    (registry.bumpAll journal).shardSnapshotCache = registry.shardSnapshotCache := by
  induction journal generalizing registry with
  | nil => rfl
  | cons change rest ih => exact ih _

/-- A quiet call leaves no cached projection that is wrong and passes for current. -/
theorem Outcome.cachesValid (coherent : registry.Coherent) (valid : registry.CachesValid)
    (quietly : quiet) (outcome : Outcome quiet registry next journal)
    (room : registry.revision + journal.length < 2 ^ 64) : next.CachesValid := by
  have follows := outcome.follows coherent quietly
  have same := outcome.sameJournal
  have grown := (revisions_bumpAll valid.bounded room).2
  constructor
  · intro entries cached
    rw [same.snapshotCache, same.revision] at cached
    by_cases empty : journal = []
    · subst empty
      exact (valid.whole entries cached).congr fun infoHash _ =>
        follows.unlisted nofun
    · rw [bumpAll_snapshotCache empty] at cached
      exact nomatch cached
  · intro shard revision entries stored
    rw [same.shardSnapshotCache, bumpAll_shardSnapshotCache] at stored
    rw [same.shardRevisions]
    exact Nat.le_trans (valid.earlier shard revision entries stored) (grown shard).2.1
  · intro shard entries cached
    rw [same.shardSnapshotCache, bumpAll_shardSnapshotCache, same.shardRevisions,
      cachedAt_eq_some] at cached
    -- The cached revision is at most the old one and equals the new one, so the shard is untouched.
    have kept : (registry.bumpAll journal).shardRevisions.get shard =
        registry.shardRevisions.get shard :=
      Nat.le_antisymm (valid.earlier shard _ entries cached) (grown shard).2.1
    have untouched := (grown shard).2.2 kept
    rw [kept] at cached
    apply (valid.parts shard entries (cachedAt_eq_some.mpr cached)).congr
    intro infoHash place
    exact follows.unlisted fun change inside equal => untouched change inside (equal ▸ place)
  · intro shard
    rw [same.shardRevisions, same.revision]
    exact (grown shard).1

/-! ## Histories with snapshots -/

/-- A call that changes the registry, or a reader that takes a snapshot. -/
inductive Call where
  | change (event : Event)
  | snapshot

def call (registry : SessionRegistry) : Call → Except Fault SessionRegistry
  | .change event => registry.step event
  | .snapshot => .ok registry.snapshot.2

/-- A change is proper when it happens. -/
def ProperCall (registry : SessionRegistry) : Call → Prop
  | .change event => registry.Proper event
  | .snapshot => True

/-- The number of changes that a call makes. -/
def changesMade (registry : SessionRegistry) : Call → Nat
  | .change event => registry.mutations event
  | .snapshot => 0

abbrev runCalls (registry : SessionRegistry) (calls : List Call) : Except Fault SessionRegistry :=
  Runs.run call registry calls

/-- Every change of a history is proper. -/
abbrev ProperCalls (registry : SessionRegistry) (calls : List Call) : Prop :=
  Runs.Along call ProperCall registry calls

/-- The number of changes that a history makes. -/
abbrev callMutations (registry : SessionRegistry) (calls : List Call) : Nat :=
  Runs.spent call changesMade registry calls

/-- What is known of a registry that calls lead to from another: its indexes agree, its caches
are valid, and the journal of the calls tells how its view and its log came about. -/
structure Leads (registry : SessionRegistry) (journal : List (Str × Bool))
    (final : SessionRegistry) : Prop where
  coherent : final.Coherent
  valid : final.CachesValid
  follows : Follows registry.view final.view journal
  canonical : ∀ change ∈ journal, canonicalInfoHash change.1 = change.1
  revision : final.revision = registry.revision + journal.length
  journalled : ∀ past, registry.Journalled past → final.Journalled (past ++ journal)

theorem Leads.refl (coherent : registry.Coherent) (valid : registry.CachesValid) :
    Leads registry [] registry where
  coherent := coherent
  valid := valid
  follows := .refl _
  canonical := nofun
  revision := rfl
  journalled := fun past journalled => by
    rw [append_nil]
    exact journalled

theorem Leads.trans {final : SessionRegistry} {more : List (Str × Bool)}
    (first : Leads registry journal next) (second : Leads next more final) :
    Leads registry (journal ++ more) final where
  coherent := second.coherent
  valid := second.valid
  follows := first.follows.trans second.follows
  canonical := forall_mem_append.mpr ⟨first.canonical, second.canonical⟩
  revision := by
    rw [second.revision, first.revision, length_append, Nat.add_assoc]
  journalled := fun past journalled => by
    rw [← append_assoc]
    exact second.journalled _ (first.journalled past journalled)

section

variable (coherent : registry.Coherent) (valid : registry.CachesValid)

include coherent valid

theorem snapshot_leads : Leads registry [] registry.snapshot.2 := by
  obtain ⟨_, same, validNext⟩ := snapshot_spec coherent valid
  refine ⟨same.coherent coherent, validNext, ?_, nofun, same.revision, fun past journalled => ?_⟩
  · rw [same.view]
    exact .refl _
  · rw [append_nil]
    exact ⟨same.revision.trans journalled.revision, same.changes.trans journalled.changes⟩

theorem step_leads {event : Event} (proper : registry.Proper event)
    (room : registry.revision + registry.mutations event < 2 ^ 64) :
    ∃ next journal, registry.step event = .ok next ∧ Leads registry journal next ∧
      journal.length = registry.mutations event := by
  obtain ⟨next, journal, stepped, outcome, count⟩ := step_outcome coherent proper.1
  rw [← count] at room
  refine ⟨next, journal, stepped, ⟨outcome.coherent coherent,
    outcome.cachesValid coherent valid proper.2 room, outcome.follows coherent proper.2,
    outcome.canonical coherent, ?_, fun past journalled => outcome.journalled journalled ?_⟩, count⟩
  · rw [outcome.sameJournal.revision]
    exact (revisions_bumpAll valid.bounded room).1
  · rw [← journalled.revision]
    exact room

theorem call_leads {action : Call} (proper : registry.ProperCall action)
    (room : registry.revision + registry.changesMade action < 2 ^ 64) :
    ∃ next journal, registry.call action = .ok next ∧ Leads registry journal next ∧
      journal.length = registry.changesMade action := by
  cases action with
  | snapshot => exact ⟨_, [], rfl, snapshot_leads coherent valid, rfl⟩
  | change event => exact step_leads coherent valid proper room

/-- Proper calls return, and are described by one journal. -/
theorem runCalls_leads {calls : List Call} (proper : registry.ProperCalls calls)
    (room : registry.revision + registry.callMutations calls < 2 ^ 64) :
    ∃ final journal, registry.runCalls calls = .ok final ∧ Leads registry journal final ∧
      journal.length = registry.callMutations calls := by
  have few : registry.callMutations calls < 2 ^ 64 - registry.revision := by omega
  let Inv (_ : List Call) (used : Nat) (state : SessionRegistry) : Prop :=
    ∃ journal, Leads registry journal state ∧ journal.length = used
  have initial : Inv [] 0 registry := ⟨[], .refl coherent valid, rfl⟩
  obtain ⟨final, ran, journal, leads, count⟩ := Runs.run_invariant initial (by
    rintro earlier used state action _ ⟨journal, leads, rfl⟩ properCall few
    obtain ⟨next, more, called, leadsOn, count⟩ := call_leads leads.coherent leads.valid properCall
      (by rw [leads.revision]; omega)
    exact ⟨next, called, journal ++ more, leads.trans leadsOn, by rw [length_append, count]⟩)
    proper few
  exact ⟨final, journal, ran, leads, count⟩

end

/-- A demotion keeps every entry as readers see it exactly if it is quiet. -/
theorem demote_keeps_get_iff (coherent : registry.Coherent) {infoHash : Str}
    (demoted : registry.step (.demote infoHash) = .ok next) :
    (∀ other, next.get other = registry.get other) ↔ registry.Quiet (.demote infoHash) := by
  obtain ⟨stepNext, stepped, outcome, dormant⟩ := demote_outcome coherent infoHash
  obtain rfl : stepNext = next := Except.ok.inj (stepped.symm.trans demoted)
  constructor
  · intro kept entry found
    obtain ⟨torrent, shown⟩ := dormant entry found
    rw [kept, found] at shown
    rw [Option.some.inj shown]
    rfl
  · intro quiet other
    exact (outcome.follows coherent quiet).unlisted nofun

/-- After the calls a snapshot has the registered entries by increasing hash. A demotion changes
what readers get only if it hits a torrent that is being finalized. -/
def SnapshotsProject (calls : List Call) : Prop :=
  ∃ registry, new.runCalls calls = .ok registry ∧
    registry.snapshot.1.entries = registry.projection ∧
    ∀ infoHash next, registry.step (.demote infoHash) = .ok next →
      ((∀ other, next.get other = registry.get other) ↔ registry.Quiet (.demote infoHash))

/-- Snapshots are exact after any changes and snapshots in any order, of which no demotion hits a
torrent that is being finalized. -/
theorem snapshot_eq_projection_of_proper (calls : List Call) (proper : new.ProperCalls calls)
    (few : new.callMutations calls < 2 ^ 64) : SnapshotsProject calls := by
  obtain ⟨registry, journal, ran, leads, _⟩ :=
    runCalls_leads new_coherent new_cachesValid proper (by rw [new, Nat.zero_add]; exact few)
  refine ⟨registry, ran, ?_, fun infoHash next => demote_keeps_get_iff leads.coherent⟩
  exact snapshot_eq_projection leads.coherent leads.valid

/-- A torrent that is being finalized. -/
def heldEntry : TorrentEntry :=
  { TorrentEntry.new ⟨1⟩ 0 [0x61] [] [] with finalizing := true }

/-- It is added, read and demoted. -/
def heldCalls : List Call := [.change (.add heldEntry), .snapshot, .change (.demote [0x61])]

/-- What readers find after some calls: a snapshot, the registered entries and one of them. -/
def observed (calls : List Call) (infoHash : Str) :
    Except Fault (List TorrentEntry × List TorrentEntry × Option TorrentEntry) := do
  let registry ← new.runCalls calls
  return (registry.snapshot.1.entries, registry.projection, registry.get infoHash)

theorem observed_heldCalls :
    observed heldCalls [0x61] = .ok ([heldEntry], [{ heldEntry with finalizing := false }],
      some { heldEntry with finalizing := false }) := by
  decide +kernel

/-- The demotion of a torrent that is being finalized is not seen by snapshots. -/
theorem snapshot_stale_after_demote :
    ∃ registry, new.runCalls heldCalls = .ok registry ∧
      registry.snapshot.1.entries ≠ registry.projection ∧
      registry.snapshot.1.entries = [heldEntry] ∧
      registry.get [0x61] = some { heldEntry with finalizing := false } := by
  have seen := observed_heldCalls
  rw [observed, bind_eq_ok] at seen
  obtain ⟨registry, ran, shown⟩ := seen
  have shown := Except.ok.inj shown
  simp only [Prod.mk.injEq] at shown
  obtain ⟨stale, current, found⟩ := shown
  refine ⟨registry, ran, ?_, stale, found⟩
  rw [stale, current]
  decide

/-- A torrent that is added, read, demoted and borrowed again. -/
def sampleCalls : List Call :=
  [ .change (.add (.new ⟨1⟩ 0 [0x61] [] [])), .snapshot, .change (.demote [0x61]),
    .change (.getMut [0x61] [fun entry => { entry with tags := [[0x62]] }]), .snapshot ]

instance (registry : SessionRegistry) : (action : Call) → Decidable (registry.ProperCall action)
  | .change _ => inferInstanceAs (Decidable (_ ∧ _))
  | .snapshot => isTrue trivial

theorem sampleCalls_coherent : SnapshotsProject sampleCalls :=
  snapshot_eq_projection_of_proper sampleCalls (by decide +kernel) (by decide +kernel)

end SessionRegistry

end TorrentNG.Session
