import TorrentNG.RegistryReplicas

/-!
# The shared snapshot cache of the facades

Both facades answer list requests from a small cache of snapshots. A cached snapshot is served
while it is current or young; otherwise it is refreshed. A refresh replaces the rows that the
log of the registry names, at the positions that the previous snapshot has for their hashes, or
starts over from the registry if a torrent came or went or if the log does not reach back. The
two facades differ only in what a row shows of an entry. Served snapshots show the registry as
it was at their revision.

A request looks at the cache, waits for its turn to refresh and looks again. Only the refresh
reads entries, under one lock, and only the request whose turn it is writes the cache, so that a
request is one step of the model. The indexes by state, category, tag and text, the sort orders
and the metrics are left out; the index by hash is what a refresh uses.
-/

namespace TorrentNG.Api

open ChangeLog List Session Tables
open SessionRegistry (Historic changesSince_leads map_infoHash_of_unstamped get_eq_view
  snapshot_eq_projection snapshot_leads)

variable {Row : Type}

structure TorrentSnapshot (Row : Type) where
  revision : Nat
  rows : List Row
  byHash : Table Str Nat

structure CachedTorrentSnapshot (Row : Type) where
  snapshot : TorrentSnapshot Row
  generatedAt : Nat

structure AppState (Row : Type) where
  registry : SessionRegistry
  torrentSnapshotCache : List (CachedTorrentSnapshot Row)

inductive TorrentSnapshotError where
  | expired (revision : Nat)
deriving DecidableEq

def torrentSnapshotCacheSize : Nat := 4

/-- In milliseconds. -/
def torrentSnapshotMaxAge : Nat := 750

variable (kind : RowKind Row)

/-- The position of each hash; of two rows with one hash the later one counts. -/
def buildFilterIndex (rows : List Row) : Table Str Nat :=
  rows.zipIdx.foldl (fun byHash (row, index) => byHash.insert (kind.infoHash row) index) ∅

/-- Positions beyond the end are ignored. -/
def replaceMany (rows : List Row) (values : List (Nat × Row)) : List Row :=
  values.foldl (fun rows (index, row) => rows.set index row) rows

variable (registry : SessionRegistry)

/-- All rows of the registry and their positions. -/
def projectRows :
    (List Row × Table Str Nat) × SessionRegistry :=
  let (snapshot, registry) := registry.snapshot
  let rows := snapshot.entries.map kind.ofEntry
  ((rows, buildFilterIndex kind rows), registry)

/-- A torrent came or went since the previous snapshot. -/
def structuralChange (previous : TorrentSnapshot Row)
    (changedHashes : List Str) : Bool :=
  changedHashes.any fun infoHash =>
    match registry.get infoHash with
    | some _ => (previous.byHash.lookup infoHash).isNone
    | none => (previous.byHash.lookup infoHash).isSome

def replacements
    (previous : TorrentSnapshot Row) (changedHashes : List Str) : List (Nat × Row) :=
  changedHashes.filterMap fun infoHash => do
    let entry ← registry.get infoHash
    let index ← previous.byHash.lookup infoHash
    let _ ← previous.rows[index]?
    return (index, kind.ofEntry entry)

def applySnapshotChanges (order : IterationOrder Str)
    (registry : SessionRegistry) (previous : TorrentSnapshot Row) (changes : List RegistryChange) :
    (List Row × Table Str Nat) × SessionRegistry :=
  let changedHashes := order.arrange (changes.map (·.infoHash)).dedup
  if structuralChange registry previous changedHashes then projectRows kind registry
  else
    ((replaceMany previous.rows (replacements kind registry previous changedHashes),
      previous.byHash), registry)

namespace AppState

/-- The newest snapshot, if it is current or young. -/
def cached (state : AppState Row) (now : Nat) : Option (TorrentSnapshot Row) :=
  (state.torrentSnapshotCache.head?.filter fun cached =>
    cached.snapshot.revision == state.registry.revision ||
      decide (now - cached.generatedAt ≤ torrentSnapshotMaxAge)).map (·.snapshot)

/-- The newest snapshot and the changes since, if the log has them. -/
def incremental (state : AppState Row) : Option (TorrentSnapshot Row × List RegistryChange) := do
  let cached ← state.torrentSnapshotCache.head?.filter fun cached =>
    decide (cached.snapshot.revision < state.registry.revision)
  let changes ← state.registry.changesSince cached.snapshot.revision
  return (cached.snapshot, changes)

def refresh (kind : RowKind Row) (order : IterationOrder Str) (now : Nat) (state : AppState Row) :
    TorrentSnapshot Row × AppState Row :=
  let ((rows, byHash), registry) := match state.incremental with
    | some (previous, changes) => applySnapshotChanges kind order state.registry previous changes
    | none => projectRows kind state.registry
  let snapshot : TorrentSnapshot Row := { revision := state.registry.revision, rows, byHash }
  let others := state.torrentSnapshotCache.filter fun cached =>
    cached.snapshot.revision != snapshot.revision
  (snapshot,
    { registry
      torrentSnapshotCache :=
        ({ snapshot, generatedAt := now } :: others).take torrentSnapshotCacheSize })

/-- The snapshot of a revision as long as it is cached, or else a recent one. -/
def torrentSnapshot (kind : RowKind Row) (order : IterationOrder Str) (now : Nat)
    (state : AppState Row) (requestedRevision : Option Nat) :
    Except TorrentSnapshotError (TorrentSnapshot Row) × AppState Row :=
  match requestedRevision with
  | some revision =>
    match state.torrentSnapshotCache.find? fun cached => cached.snapshot.revision == revision with
    | some cached => (.ok cached.snapshot, state)
    | none => (.error (.expired revision), state)
  | none =>
    match state.cached now with
    | some snapshot => (.ok snapshot, state)
    | none =>
      let (snapshot, state) := state.refresh kind order now
      (.ok snapshot, state)

end AppState

/-! ## Positions -/

section Positions

variable {kind : RowKind Row} {rows : List Row}

theorem buildFilterIndex_snoc (rows : List Row) (row : Row) :
    buildFilterIndex kind (rows ++ [row]) =
      (buildFilterIndex kind rows).insert (kind.infoHash row) rows.length := by
  rw [buildFilterIndex, zipIdx_append, foldl_append, Nat.zero_add]
  rfl

/-- Each of distinct hashes has its position. -/
theorem lookup_buildFilterIndex (distinct : (rows.map kind.infoHash).Nodup) {infoHash : Str}
    {index : Nat} : (buildFilterIndex kind rows).lookup infoHash = some index ↔
      (rows.map kind.infoHash)[index]? = some infoHash := by
  induction rows using List.reverseRecOn with
  | nil => exact iff_of_false nofun nofun
  | append_singleton rows row ih =>
    rw [map_append, map_singleton] at distinct ⊢
    obtain ⟨fresh, distinct⟩ := nodup_cons.mp (nodup_append_comm.mp distinct)
    rw [buildFilterIndex_snoc, lookup_insert_eq_some, ih distinct, getElem?_append,
      length_map, getElem?_singleton]
    split
    next earlier =>
      constructor
      · rintro (⟨rfl, rfl⟩ | ⟨_, found⟩)
        · exact absurd earlier (Nat.lt_irrefl _)
        · exact found
      · intro found
        refine .inr ⟨?_, found⟩
        rintro rfl
        exact fresh (mem_of_getElem? found)
    next later =>
      have none : (rows.map kind.infoHash)[index]? = none :=
        getElem?_eq_none (by rw [length_map]; omega)
      rw [none]
      split
      next here =>
        obtain rfl : index = rows.length := by omega
        simp [eq_comm]
      next beyond =>
        have apart : index ≠ rows.length := by omega
        simp [apart]

/-- The index depends on the hashes only. -/
theorem buildFilterIndex_congr {others : List Row}
    (same : rows.map kind.infoHash = others.map kind.infoHash) :
    buildFilterIndex kind rows = buildFilterIndex kind others := by
  have folded : ∀ rows : List Row, buildFilterIndex kind rows =
      (rows.map kind.infoHash).zipIdx.foldl (fun byHash (infoHash, index) =>
        byHash.insert infoHash index) ∅ := by
    intro rows
    rw [zipIdx_map, foldl_map]
    rfl
  rw [folded, folded, same]

/-- Replacements that agree with the target make it, if the other rows are in place. -/
theorem replaceMany_eq {target : List Row} {values : List (Nat × Row)}
    (length : rows.length = target.length)
    (agree : ∀ value ∈ values, target[value.1]? = some value.2)
    (others : ∀ index, index ∉ values.map Prod.fst → rows[index]? = target[index]?) :
    replaceMany rows values = target := by
  induction values generalizing rows with
  | nil => exact ext_getElem? fun index => others index nofun
  | cons value rest ih =>
    obtain ⟨head, tail⟩ := forall_mem_cons.mp agree
    refine ih (length_set.trans length) tail fun index later => ?_
    rw [List.getElem?_set]
    split
    next same =>
      rw [← same, head, if_pos]
      rw [length]
      exact (List.getElem?_eq_some_iff.mp head).1
    next other =>
      exact others index fun inside =>
        (mem_cons.mp inside).elim (fun here => other here.symm) later

end Positions

/-! ## What snapshots show -/

section Shows

variable {kind : RowKind Row} {registry past : SessionRegistry} {previous : TorrentSnapshot Row}
  {visited : SessionRegistry → Prop} {used : Nat} {state : AppState Row}
  {journal : List (Str × Bool)}

/-- The rows of a registry and their positions. -/
structure ShowsRows (kind : RowKind Row) (rows : List Row) (byHash : Table Str Nat)
    (registry : SessionRegistry) : Prop where
  listed : rows = registry.projection.map kind.ofEntry
  indexed : byHash = buildFilterIndex kind rows

/-- The snapshot shows a registry as it is at the revision of the snapshot. -/
structure TorrentSnapshot.Shows (kind : RowKind Row) (snapshot : TorrentSnapshot Row)
    (registry : SessionRegistry) : Prop extends
    ShowsRows kind snapshot.rows snapshot.byHash registry where
  revision : snapshot.revision = registry.revision

theorem projectRows_spec (coherent : registry.Coherent) (valid : registry.CachesValid) :
    ShowsRows kind (projectRows kind registry).1.1 (projectRows kind registry).1.2 registry ∧
      registry.Leads [] (projectRows kind registry).2 := by
  refine ⟨⟨?_, rfl⟩, snapshot_leads coherent valid⟩
  rw [← snapshot_eq_projection coherent valid]
  rfl

theorem lookup_iff (shows : previous.Shows kind past) (coherent : past.Coherent) {infoHash : Str}
    {index : Nat} : previous.byHash.lookup infoHash = some index ↔
      ∃ entry, past.projection[index]? = some entry ∧ entry.infoHash = infoHash := by
  have hashes : previous.rows.map kind.infoHash = past.projection.map (·.infoHash) := by
    rw [shows.listed, map_map]
    exact map_congr_left fun entry _ => kind.infoHash_ofEntry entry
  rw [shows.indexed, lookup_buildFilterIndex (hashes ▸ coherent.projects_projection.distinct), hashes,
    getElem?_map, Option.map_eq_some_iff]

theorem lookup_isSome_iff (shows : previous.Shows kind past) (coherent : past.Coherent)
    (infoHash : Str) : (previous.byHash.lookup infoHash).isSome ↔ (past.view infoHash).isSome := by
  have projects := coherent.projects_projection
  simp only [Option.isSome_iff_exists, lookup_iff shows coherent]
  constructor
  · rintro ⟨index, entry, placed, rfl⟩
    exact ⟨entry, ((projects.mem entry).mp (mem_of_getElem? placed)).1⟩
  · rintro ⟨entry, shown⟩
    obtain rfl := coherent.infoHash_of_view shown
    obtain ⟨index, placed⟩ := getElem?_of_mem ((projects.mem entry).mpr ⟨shown, trivial⟩)
    exact ⟨index, entry, placed, rfl⟩

local instance : LawfulBEq Str := inferInstance

/-- An entry of the previous snapshot, as it is now. -/
def refreshedEntry (registry : SessionRegistry) (changedHashes : List Str) (entry : TorrentEntry) :
    TorrentEntry :=
  if entry.infoHash ∈ changedHashes then (registry.view entry.infoHash).getD entry else entry

section Replacing

variable {changedHashes : List Str} (leads : past.Leads journal registry)
  (listed : ∀ infoHash, infoHash ∈ changedHashes ↔ ∃ change ∈ journal, change.1 = infoHash)
  (steady : ∀ infoHash ∈ changedHashes,
    (registry.view infoHash).isSome ↔ (past.view infoHash).isSome)
  (coherent : past.Coherent)

include leads listed steady coherent

theorem view_eq_refreshed (infoHash : Str) :
    registry.view infoHash = (past.view infoHash).map (refreshedEntry registry changedHashes) := by
  by_cases changed : infoHash ∈ changedHashes
  · have same := steady infoHash changed
    cases shown : past.view infoHash with
    | none => simpa [shown] using same
    | some entry =>
      obtain ⟨now, found⟩ := Option.isSome_iff_exists.mp (same.mpr (by rw [shown]; rfl))
      rw [Option.map_some, refreshedEntry, coherent.infoHash_of_view shown, if_pos changed, found,
        Option.getD_some]
  · have kept := leads.follows.unlisted fun change inside same =>
      changed ((listed infoHash).mpr ⟨change, inside, same⟩)
    rw [kept]
    cases shown : past.view infoHash with
    | none => rfl
    | some entry =>
      rw [Option.map_some, refreshedEntry, coherent.infoHash_of_view shown, if_neg changed]

theorem infoHash_refreshedEntry {entry : TorrentEntry}
    (shown : past.view entry.infoHash = some entry) :
    (refreshedEntry registry changedHashes entry).infoHash = entry.infoHash := by
  apply leads.coherent.infoHash_of_view
  rw [view_eq_refreshed leads listed steady coherent, shown, Option.map_some]

theorem map_infoHash_refreshed :
    (past.projection.map (refreshedEntry registry changedHashes)).map (·.infoHash) =
      past.projection.map (·.infoHash) := by
  rw [map_map]
  apply map_congr_left
  intro entry inside
  exact infoHash_refreshedEntry leads listed steady coherent
    ((coherent.projects_projection.mem entry).mp inside).1

/-- If no torrent came or went, then refreshing the entries in place gives the new ones. -/
theorem map_refreshedEntry :
    past.projection.map (refreshedEntry registry changedHashes) = registry.projection := by
  have projects := coherent.projects_projection
  have sameHashes := map_infoHash_refreshed leads listed steady coherent
  refine Projects.unique ⟨⟨?_, fun entry => ?_⟩, ?_⟩ leads.coherent.projects_projection
  · rw [sameHashes]
    exact projects.distinct
  · rw [and_iff_left trivial, mem_map, view_eq_refreshed leads listed steady coherent,
      Option.map_eq_some_iff]
    refine exists_congr fun old => and_congr_left ?_
    rintro rfl
    rw [projects.mem, and_iff_left trivial]
    constructor
    · intro shown
      rw [infoHash_refreshedEntry leads listed steady coherent shown]
      exact shown
    · intro shown
      rw [coherent.infoHash_of_view shown]
      exact shown
  · have ordered : (past.projection.map (·.infoHash)).Pairwise (· ≤ ·) :=
      pairwise_map.mpr projects.sorted
    rw [← sameHashes] at ordered
    exact pairwise_map.mp ordered

/-- The rows that are replaced at their positions are those of the new entries. -/
theorem replaceMany_replacements (shows : previous.Shows kind past)
    (canonical : ∀ infoHash ∈ changedHashes, registry.get infoHash = registry.view infoHash) :
    replaceMany previous.rows (replacements kind registry previous changedHashes) =
      registry.projection.map kind.ofEntry := by
  rw [← map_refreshedEntry leads listed steady coherent, map_map]
  apply replaceMany_eq
  · rw [shows.listed, length_map, length_map]
  · intro value inside
    obtain ⟨infoHash, changed, given⟩ := mem_filterMap.mp inside
    obtain ⟨entry, found, given⟩ := Option.bind_eq_some_iff.mp given
    obtain ⟨index, lookedUp, given⟩ := Option.bind_eq_some_iff.mp given
    obtain ⟨_, _, given⟩ := Option.bind_eq_some_iff.mp given
    obtain rfl := Option.some.inj given
    obtain ⟨old, placed, rfl⟩ := (lookup_iff shows coherent).mp lookedUp
    rw [canonical _ changed] at found
    rw [getElem?_map, placed, Option.map_some, Function.comp_apply, refreshedEntry,
      if_pos changed, found, Option.getD_some]
  · intro index kept
    rw [shows.listed, getElem?_map, getElem?_map]
    cases placed : past.projection[index]? with
    | none => rfl
    | some entry =>
      rw [Option.map_some, Option.map_some, Function.comp_apply, refreshedEntry, if_neg]
      -- A changed hash would have its position replaced.
      intro changed
      apply kept
      have shown := ((coherent.projects_projection.mem entry).mp (mem_of_getElem? placed)).1
      have found := view_eq_refreshed leads listed steady coherent entry.infoHash
      have lookedUp := (lookup_iff shows coherent).mpr ⟨entry, placed, rfl⟩
      refine mem_map.mpr ⟨(index, kind.ofEntry (refreshedEntry registry changedHashes entry)),
        mem_filterMap.mpr ⟨entry.infoHash, changed, ?_⟩, rfl⟩
      simp only [canonical _ changed, found, shown, lookedUp, bind, Option.bind, shows.listed,
        getElem?_map, placed, Option.map_some, pure]

end Replacing

/-- Applying the changes since a past state to its snapshot gives that of the present state. -/
theorem applySnapshotChanges_spec (historic : Historic visited registry used)
    (few : used < 2 ^ 64) (here : visited past) (shows : previous.Shows kind past)
    {changes : List RegistryChange} (answer : registry.changesSince past.revision = some changes)
    (order : IterationOrder Str) :
    ShowsRows kind (applySnapshotChanges kind order registry previous changes).1.1
        (applySnapshotChanges kind order registry previous changes).1.2 registry ∧
      registry.Leads [] (applySnapshotChanges kind order registry previous changes).2 := by
  obtain ⟨before, journal, coherent, _, journalled, leads, count⟩ := historic.leads past here
  have valid := historic.valid historic.current
  have hashes := map_infoHash_of_unstamped (changesSince_leads journalled leads (by omega) answer)
  let changedHashes := order.arrange (changes.map (·.infoHash)).dedup
  have listed : ∀ infoHash, infoHash ∈ changedHashes ↔ ∃ change ∈ journal, change.1 = infoHash := by
    intro infoHash
    rw [(order.perm _).mem_iff, mem_dedup, hashes, mem_map]
  have canonical : ∀ infoHash ∈ changedHashes,
      registry.get infoHash = registry.view infoHash := by
    intro infoHash inside
    obtain ⟨change, changed, rfl⟩ := (listed infoHash).mp inside
    rw [get_eq_view, leads.canonical change changed]
  rw [applySnapshotChanges]
  cases structural : structuralChange registry previous changedHashes with
  | true =>
    exact projectRows_spec leads.coherent valid
  | false =>
    have steady : ∀ infoHash ∈ changedHashes,
        (registry.view infoHash).isSome ↔ (past.view infoHash).isSome := by
      intro infoHash inside
      have unchanged := any_eq_false.mp structural infoHash inside
      rw [← lookup_isSome_iff shows coherent, ← canonical infoHash inside]
      cases found : registry.get infoHash <;> cases lookedUp : previous.byHash.lookup infoHash <;>
        simp_all
    have replaced := replaceMany_replacements leads listed steady coherent shows canonical
    rw [if_neg Bool.false_ne_true]
    refine ⟨⟨replaced, ?_⟩, .refl leads.coherent valid⟩
    rw [shows.indexed]
    apply buildFilterIndex_congr
    have hashes := map_infoHash_refreshed leads listed steady coherent
    rw [map_refreshedEntry leads listed steady coherent] at hashes
    rw [replaced, shows.listed, map_map, map_map]
    simp only [Function.comp_def, kind.infoHash_ofEntry, hashes]

/-- The cached snapshots show states that the registry has passed through. -/
def CacheShows (kind : RowKind Row) (visited : SessionRegistry → Prop)
    (cache : List (CachedTorrentSnapshot Row)) : Prop :=
  ∀ cached ∈ cache, ∃ past, visited past ∧ cached.snapshot.Shows kind past

theorem CacheShows.mono {more : SessionRegistry → Prop} {cache : List (CachedTorrentSnapshot Row)}
    (shows : CacheShows kind visited cache) (grows : ∀ past, visited past → more past) :
    CacheShows kind more cache := by
  intro cached inside
  obtain ⟨past, here, shown⟩ := shows cached inside
  exact ⟨past, grows past here, shown⟩

namespace AppState

theorem incremental_spec {changes : List RegistryChange}
    (cacheShows : CacheShows kind visited state.torrentSnapshotCache)
    (given : state.incremental = some (previous, changes)) :
    ∃ past, visited past ∧ previous.Shows kind past ∧
      state.registry.changesSince past.revision = some changes := by
  obtain ⟨cached, newest, given⟩ := Option.bind_eq_some_iff.mp given
  obtain ⟨listed, answer, given⟩ := Option.bind_eq_some_iff.mp given
  obtain ⟨rfl, rfl⟩ := Prod.mk.inj (Option.some.inj given)
  have inside := mem_of_head? (Option.filter_eq_some_iff.mp newest).1
  obtain ⟨past, here, shows⟩ := cacheShows cached inside
  refine ⟨past, here, shows, ?_⟩
  rw [← shows.revision]
  exact answer

variable (historic : Historic visited state.registry used) (few : used < 2 ^ 64)
  (cacheShows : CacheShows kind visited state.torrentSnapshotCache) (order : IterationOrder Str)
  (now : Nat)

include historic few cacheShows

theorem refresh_spec : (state.refresh kind order now).1.Shows kind state.registry ∧
      CacheShows kind visited (state.refresh kind order now).2.torrentSnapshotCache ∧
      state.registry.Leads [] (state.refresh kind order now).2.registry := by
  have made : (state.refresh kind order now).1.Shows kind state.registry ∧
      state.registry.Leads [] (state.refresh kind order now).2.registry := by
    rw [refresh]
    cases given : state.incremental with
    | none =>
      obtain ⟨shows, leads⟩ := projectRows_spec (historic.coherent historic.current)
        (historic.valid historic.current)
      exact ⟨⟨shows, rfl⟩, leads⟩
    | some pair =>
      obtain ⟨past, here, showsPast, answer⟩ := incremental_spec cacheShows given
      obtain ⟨shows, leads⟩ := applySnapshotChanges_spec historic few here showsPast answer order
      exact ⟨⟨shows, rfl⟩, leads⟩
  refine ⟨made.1, ?_, made.2⟩
  intro cached inside
  rcases mem_cons.mp (mem_of_mem_take inside) with rfl | older
  · exact ⟨state.registry, historic.current, made.1⟩
  · exact cacheShows cached (mem_filter.mp older).1

/-- A request without a revision is served, with a state that the registry has passed through. -/
theorem torrentSnapshot_spec :
    ∃ snapshot next past, state.torrentSnapshot kind order now none = (.ok snapshot, next) ∧
      visited past ∧ snapshot.Shows kind past ∧ CacheShows kind visited next.torrentSnapshotCache ∧
      state.registry.Leads [] next.registry := by
  cases young : state.cached now with
  | some snapshot =>
    obtain ⟨cached, newest, rfl⟩ := Option.map_eq_some_iff.mp young
    have inside := mem_of_head? (Option.filter_eq_some_iff.mp newest).1
    obtain ⟨past, here, shows⟩ := cacheShows cached inside
    refine ⟨cached.snapshot, state, past, ?_, here, shows, cacheShows, historic.stays⟩
    simp only [torrentSnapshot, young]
  | none =>
    obtain ⟨shows, cacheShowsNext, leads⟩ := refresh_spec historic few cacheShows order now
    refine ⟨_, _, state.registry, ?_, historic.current, shows, cacheShowsNext, leads⟩
    simp only [torrentSnapshot, young]

end AppState

end Shows

end TorrentNG.Api
