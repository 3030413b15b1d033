import TorrentNG.Fallible
import TorrentNG.Indexes
import TorrentNG.RegistryStats
import TorrentNG.SortedSlices

/-!
# The session registry

The registry stores the torrents of a session by handle and keeps seven derived structures
beside them: the handles by info hash, the handles of pure v2 torrents by the prefix that
peers send, the members of each shard, the aggregate counters, the two counts of records, the
journal of changes and the caches of the sorted projection. They are changed by small
increments in every operation.

A panic of the source is an error of type `Fault`; debug assertions count as panics. An
operation that iterates over the whole map takes the order of the iteration as an argument,
since a hash map promises none. Locks, wake-ups of waiting readers and peer bans are left
out, and a poisoned lock with them.
-/

namespace TorrentNG.Session

open Fallible MachineArithmetic Tables

/-! ## Info hashes -/

def isAsciiHexdigit (byte : UInt8) : Bool :=
  (0x30 ≤ byte && byte ≤ 0x39) || (0x61 ≤ byte && byte ≤ 0x66) || (0x41 ≤ byte && byte ≤ 0x46)

def toAsciiLowercase (byte : UInt8) : UInt8 :=
  if 0x41 ≤ byte && byte ≤ 0x5a then byte + 0x20 else byte

variable (infoHash : Str)

def canonicalInfoHash : Str :=
  if (infoHash.length = 40 ∨ infoHash.length = 64) ∧ infoHash.all isAsciiHexdigit = true then
    infoHash.map toAsciiLowercase
  else infoHash

def v2WireHashPrefix : Option Str :=
  if infoHash.length ≠ 64 ∨ infoHash.all isAsciiHexdigit = false then none
  else some ((infoHash.take 40).map toAsciiLowercase)

def snapshotShards : Nat := 64

/-- The FNV-1a hash of an info hash. -/
def fnv1a : UInt64 :=
  infoHash.foldl (fun hash byte => (hash ^^^ byte.toUInt64) * 0x100000001b3) 0xcbf29ce484222325

def snapshotShard : Fin snapshotShards :=
  ⟨(fnv1a infoHash).toNat &&& (snapshotShards - 1), Nat.lt_succ_of_le Nat.and_le_right⟩

/-! ## The registry -/

structure RegistryChange where
  revision : Nat
  infoHash : Str
  removed : Bool
  deriving DecidableEq

def changeLogCapacity : Nat := 16384

/-- A projection, with the revision that it was built from. -/
abbrev SnapshotCache := Option (Nat × List TorrentEntry)

structure SessionRegistry where
  byHash : Table Str TorrentHandle
  v2ByWireHash : Table Str (List TorrentHandle)
  entries : Table TorrentHandle RegistryRecord
  revision : Nat
  shardRevisions : Vector Nat snapshotShards
  shardMembers : Vector (Finset TorrentHandle) snapshotShards
  changes : List RegistryChange
  stats : SessionRegistryStats
  activeCount : Nat
  dormantCount : Nat
  snapshotCache : SnapshotCache
  shardSnapshotCache : Vector SnapshotCache snapshotShards

inductive SessionError where
  | notFound (infoHash : Str)
  | alreadyExists (infoHash : Str)
  deriving DecidableEq

/-- The panics of the registry. -/
inductive Fault where
  /-- A handle of `by_hash` has no record. -/
  | missingRecord
  /-- A count of records falls below zero. -/
  | countUnderflow
  /-- The index of wire prefixes has lost a handle. -/
  | wirePrefix
  /-- A record that was promoted is still dormant. -/
  | stillDormant
  deriving DecidableEq

def decrement (count : Nat) : Except Fault Nat := okOr (checkedSub count 1) .countUnderflow

/-- The order in which a hash map yields its values. -/
structure IterationOrder (α : Type) where
  arrange : List α → List α
  perm : ∀ items, (arrange items).Perm items

/-- A map that yields its values in the order of the list that stands for it. -/
def asStored {α : Type} : IterationOrder α where
  arrange := id
  perm := .refl

namespace SessionRegistry

def new : SessionRegistry where
  byHash := ∅
  v2ByWireHash := ∅
  entries := ∅
  revision := 0
  shardRevisions := Vector.replicate snapshotShards 0
  shardMembers := Vector.replicate snapshotShards ∅
  changes := []
  stats := .empty
  activeCount := 0
  dormantCount := 0
  snapshotCache := none
  shardSnapshotCache := Vector.replicate snapshotShards none

def wrappingIncrement (value : Nat) : Nat := (value + 1) % 2 ^ 64

/-- Record a change and drop the oldest ones above the capacity. -/
def pushChange (changes : List RegistryChange) (change : RegistryChange) : List RegistryChange :=
  let extended := changes ++ [change]
  extended.drop (extended.length - changeLogCapacity)

variable (registry : SessionRegistry) (infoHash : Str)

def bumpRevision (removed : Bool) : SessionRegistry :=
  let revision := wrappingIncrement registry.revision
  let shard := snapshotShard infoHash
  { registry with
    snapshotCache := none
    revision
    shardRevisions :=
      registry.shardRevisions.set shard (wrappingIncrement registry.shardRevisions[shard])
    changes := pushChange registry.changes { revision, infoHash, removed } }

/-! ### Adding -/

/-- A record under its handle and in every index. -/
def insertRecord (record : RegistryRecord) : SessionRegistry :=
  let infoHash := record.infoHash
  let handle := record.handle
  let shard := snapshotShard infoHash
  { registry with
    byHash := registry.byHash.insert infoHash handle
    v2ByWireHash :=
      match v2WireHashPrefix infoHash with
      | some wirePrefix => Indexes.push registry.v2ByWireHash wirePrefix handle
      | none => registry.v2ByWireHash
    stats := registry.stats.addContribution record.contribution
    activeCount := if record.isActive then registry.activeCount + 1 else registry.activeCount
    dormantCount := if record.isActive then registry.dormantCount else registry.dormantCount + 1
    entries := registry.entries.insert handle record
    shardMembers := registry.shardMembers.set shard (insert handle registry.shardMembers[shard]) }

def addRecord (record : RegistryRecord) : Except SessionError TorrentHandle × SessionRegistry :=
  let record := record.withInfoHash (canonicalInfoHash record.infoHash)
  let infoHash := record.infoHash
  if (registry.byHash.lookup infoHash).isSome then (.error (.alreadyExists infoHash), registry)
  else (.ok record.handle, (registry.insertRecord record).bumpRevision infoHash false)

def add (entry : TorrentEntry) : Except SessionError TorrentHandle × SessionRegistry :=
  registry.addRecord (.active entry)

def addDormant (torrent : DormantTorrent) : Except SessionError TorrentHandle × SessionRegistry :=
  registry.addRecord (.dormant torrent)

/-! ### Removing -/

/-- Take a handle off the list of its wire prefix, and the list away when it is empty. -/
def unindexWirePrefix (index : Table Str (List TorrentHandle)) (infoHash : Str)
    (handle : TorrentHandle) : Except Fault (Table Str (List TorrentHandle)) :=
  match v2WireHashPrefix infoHash with
  | none => .ok index
  | some wirePrefix =>
    match index.lookup wirePrefix with
    | none => .error .wirePrefix
    | some handles =>
      let retained := handles.filter fun candidate => decide (candidate ≠ handle)
      if retained.length < handles.length then .ok (Indexes.store index wirePrefix retained)
      else .error .wirePrefix

/-- The counts of records without one of a kind. -/
def uncount : RegistryRecord → Except Fault (Nat × Nat)
  | .active _ => do return (← decrement registry.activeCount, registry.dormantCount)
  | .dormant _ => do return (registry.activeCount, ← decrement registry.dormantCount)

/-- The registry without a record, given the index of wire prefixes and the counts without it. -/
def eraseRecord (handle : TorrentHandle) (record : RegistryRecord)
    (v2ByWireHash : Table Str (List TorrentHandle)) (counts : Nat × Nat) : SessionRegistry :=
  let shard := snapshotShard record.infoHash
  { registry with
    entries := registry.entries.erase handle
    v2ByWireHash
    stats := registry.stats.removeContribution record.contribution
    activeCount := counts.1
    dormantCount := counts.2
    shardMembers := registry.shardMembers.set shard (registry.shardMembers[shard].erase handle) }

def remove : Except Fault (Except SessionError TorrentEntry × SessionRegistry) :=
  let infoHash := canonicalInfoHash infoHash
  match registry.byHash.lookup infoHash with
  | none => .ok (.error (.notFound infoHash), registry)
  | some handle => do
    let registry := { registry with byHash := registry.byHash.erase infoHash }
    let record ← okOr (registry.entries.lookup handle) .missingRecord
    let v2ByWireHash ← unindexWirePrefix registry.v2ByWireHash record.infoHash handle
    let counts ← registry.uncount record
    let removed := registry.eraseRecord handle record v2ByWireHash counts
    return (.ok record.toEntry, removed.bumpRevision record.infoHash true)

/-! ### Demoting and promoting -/

def demote : Except Fault (Except SessionError Bool × SessionRegistry) :=
  let canonical := canonicalInfoHash infoHash
  match registry.byHash.lookup canonical with
  | none => .ok (.error (.notFound canonical), registry)
  | some handle =>
    match registry.entries.lookup handle with
    | none => .error .missingRecord
    | some (.active entry) => do
      let activeCount ← decrement registry.activeCount
      return (.ok true,
        { registry with
          entries := registry.entries.insert handle (.dormant entry.intoDormant)
          activeCount
          dormantCount := registry.dormantCount + 1 })
    | some (.dormant torrent) =>
      .ok (.ok false, { registry with entries := registry.entries.insert handle (.dormant torrent) })

/-- The step of `get_mut` that makes a dormant record active. -/
def promote (handle : TorrentHandle) : Except Fault SessionRegistry :=
  match registry.entries.lookup handle with
  | some (.dormant torrent) => do
    let dormantCount ← decrement registry.dormantCount
    return { registry with
      entries := registry.entries.insert handle (.active torrent.toEntry)
      dormantCount
      activeCount := registry.activeCount + 1 }
  | _ => .ok registry

/-- An entry lent out for changes. The guard borrows the rest of the registry; the entry is
written back when the guard is dropped. -/
structure SessionRegistryEntryMut where
  registry : SessionRegistry
  handle : TorrentHandle
  entry : TorrentEntry
  infoHash : Str
  before : EntryContribution
  touched : Bool

def getMut : Except Fault (Option SessionRegistryEntryMut) :=
  let infoHash := canonicalInfoHash infoHash
  match registry.byHash.lookup infoHash with
  | none => .ok none
  | some handle => do
    let registry ← registry.promote handle
    match registry.entries.lookup handle with
    | none => return none
    | some (.dormant _) => .error .stillDormant
    | some (.active entry) =>
      return some
        { registry, handle, entry, infoHash, before := .fromEntry entry, touched := false }

/-- One mutable access through the guard. -/
def SessionRegistryEntryMut.derefMut (guard : SessionRegistryEntryMut)
    (mutation : TorrentEntry → TorrentEntry) : SessionRegistryEntryMut :=
  { guard with entry := mutation guard.entry, touched := true }

def SessionRegistryEntryMut.drop (guard : SessionRegistryEntryMut) : SessionRegistry :=
  if guard.touched then
    -- The hash is the identity of the entry: whatever the borrower wrote there is undone.
    let entry := { guard.entry with infoHash := guard.infoHash }
    let settled : SessionRegistry :=
      { guard.registry with
        entries := guard.registry.entries.insert guard.handle (.active entry)
        stats := guard.registry.stats.applyDelta guard.before (.fromEntry entry) }
    settled.bumpRevision guard.infoHash false
  else guard.registry

/-! ### Label edits -/

variable (order : IterationOrder Str)

/-- Edit every record for which the edit gives a new one, in place, and record a change for
each of them. -/
def editRecords
    (edit : RegistryRecord → Option RegistryRecord) : Nat × SessionRegistry :=
  let changed := order.arrange
    ((values registry.entries).filterMap fun record => (edit record).map (·.infoHash))
  let edited : SessionRegistry :=
    { registry with
      entries := mapValues (fun _ record => (edit record).getD record) registry.entries }
  (changed.length, changed.foldl (fun registry infoHash => registry.bumpRevision infoHash false)
    edited)

def renameCategory (oldName newName : Str) : Nat × SessionRegistry :=
  if oldName = newName then (0, registry)
  else registry.editRecords order fun record =>
    if record.category = some oldName then some (record.setCategory (some newName)) else none

def clearCategories (names : List Str) : Nat × SessionRegistry :=
  registry.editRecords order fun record =>
    if record.category.any names.contains then some (record.setCategory none) else none

def clearTags (names : List Str) : Nat × SessionRegistry :=
  registry.editRecords order fun record =>
    let retained := record.tags.filter fun tag => !names.contains tag
    if record.tags.length ≠ retained.length then some (record.setTags retained) else none

/-! ### Reading -/

def get : Option TorrentEntry := do
  let handle ← registry.byHash.lookup (canonicalInfoHash infoHash)
  let record ← registry.entries.lookup handle
  return record.toEntry

def findV2WireHashMatches (wireHash : Str) : List Str :=
  let wirePrefix := canonicalInfoHash wireHash
  if wirePrefix.length ≠ 40 ∨ wirePrefix.all isAsciiHexdigit = false then []
  else
    ((Indexes.listed registry.v2ByWireHash wirePrefix).take 2).filterMap fun handle =>
      (registry.entries.lookup handle).map (·.infoHash)

def len : Nat := size registry.entries

def activeLen : Nat := registry.activeCount

def dormantLen : Nat := registry.dormantCount

/-- The changes after a revision, or none if the log no longer reaches back to it. -/
def changesSince (revision : Nat) : Option (List RegistryChange) :=
  if registry.revision ≤ revision then some []
  else if registry.changes.head?.any
      (fun first => decide (saturatingAdd revision 1 < first.revision)) then none
  else some (registry.changes.filter fun change => decide (revision < change.revision))

/-! ### Snapshots -/

/-- Sort entries by their info hashes, byte by byte. -/
def sortByInfoHash (entries : List TorrentEntry) : List TorrentEntry :=
  entries.insertionSort fun left right => left.infoHash ≤ right.infoHash

/-- The sorted projection of one shard. The members are visited in the order of the table of
entries; the sort makes the order of the visit immaterial. -/
def rebuildShard (shard : Fin snapshotShards) : List TorrentEntry :=
  sortByInfoHash ((registry.entries.entries.filter fun entry =>
    decide (entry.1 ∈ registry.shardMembers[shard])).map fun entry => entry.2.toEntry)

/-- The projection that a cache holds for a revision. -/
def cachedAt (cache : SnapshotCache) (revision : Nat) : Option (List TorrentEntry) :=
  match cache with
  | some (cachedRevision, entries) => if cachedRevision = revision then some entries else none
  | none => none

def shardSnapshot (shard : Fin snapshotShards) : List TorrentEntry × SessionRegistry :=
  let currentRevision := registry.shardRevisions[shard]
  match cachedAt registry.shardSnapshotCache[shard] currentRevision with
  | some entries => (entries, registry)
  | none =>
    let entries := registry.rebuildShard shard
    (entries, { registry with
      shardSnapshotCache := registry.shardSnapshotCache.set shard (some (currentRevision, entries)) })

/-- The projections of some shards, one after the other. -/
def shardSnapshots (registry : SessionRegistry) :
    List (Fin snapshotShards) → List TorrentEntry × SessionRegistry
  | [] => ([], registry)
  | shard :: shards =>
    let first := registry.shardSnapshot shard
    let rest := first.2.shardSnapshots shards
    (first.1 ++ rest.1, rest.2)

def rebuildSnapshotEntries : List TorrentEntry × SessionRegistry :=
  let combined := registry.shardSnapshots (List.finRange snapshotShards)
  (sortByInfoHash combined.1, combined.2)

structure SessionSnapshot where
  revision : Nat
  entries : List TorrentEntry
  deriving DecidableEq

def snapshot : SessionSnapshot × SessionRegistry :=
  match cachedAt registry.snapshotCache registry.revision with
  | some entries => ({ revision := registry.revision, entries }, registry)
  | none =>
    let rebuilt := registry.rebuildSnapshotEntries
    ({ revision := registry.revision, entries := rebuilt.1 },
      { rebuilt.2 with snapshotCache := some (registry.revision, rebuilt.1) })

/-! ### Histories -/

/-- The calls of the registry that change it. A borrowed entry is changed by any number of
mutable accesses; with none of them the guard is dropped untouched. -/
inductive Event where
  | add (entry : TorrentEntry)
  | addDormant (torrent : DormantTorrent)
  | remove (infoHash : Str)
  | demote (infoHash : Str)
  | getMut (infoHash : Str) (mutations : List (TorrentEntry → TorrentEntry))
  | renameCategory (order : IterationOrder Str) (oldName newName : Str)
  | clearCategories (order : IterationOrder Str) (names : List Str)
  | clearTags (order : IterationOrder Str) (names : List Str)

/-- Borrow an entry, change it and give it back. -/
def mutate
    (mutations : List (TorrentEntry → TorrentEntry)) : Except Fault SessionRegistry := do
  match ← registry.getMut infoHash with
  | none => return registry
  | some guard => return (mutations.foldl SessionRegistryEntryMut.derefMut guard).drop

/-- The number of torrents whose projection a call changes, as its result tells. -/
def mutations : Event → Nat
  | .add entry => if (registry.add entry).1.isOk then 1 else 0
  | .addDormant torrent => if (registry.addDormant torrent).1.isOk then 1 else 0
  | .remove infoHash =>
    match registry.remove infoHash with
    | .ok (.ok _, _) => 1
    | _ => 0
  | .demote _ => 0
  | .getMut infoHash mutations =>
    match registry.getMut infoHash with
    | .ok (some _) => if mutations.isEmpty then 0 else 1
    | _ => 0
  | .renameCategory order oldName newName => (registry.renameCategory order oldName newName).1
  | .clearCategories order names => (registry.clearCategories order names).1
  | .clearTags order names => (registry.clearTags order names).1

def step : Event → Except Fault SessionRegistry
  | .add entry => .ok (registry.add entry).2
  | .addDormant torrent => .ok (registry.addDormant torrent).2
  | .remove infoHash => (registry.remove infoHash).map (·.2)
  | .demote infoHash => (registry.demote infoHash).map (·.2)
  | .getMut infoHash mutations => registry.mutate infoHash mutations
  | .renameCategory order oldName newName => .ok (registry.renameCategory order oldName newName).2
  | .clearCategories order names => .ok (registry.clearCategories order names).2
  | .clearTags order names => .ok (registry.clearTags order names).2

def run (events : List Event) : Except Fault SessionRegistry :=
  events.foldlM step registry

end SessionRegistry

end TorrentNG.Session
