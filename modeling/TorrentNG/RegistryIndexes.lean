import TorrentNG.SessionRegistry

/-!
# The indexes of the session registry agree

Whatever is called on a registry, its derived structures describe the records that it holds.
The three indexes depend on the info hashes of the records alone, so that an operation is
described by what it does to the hashes (`hashOf`) and to the list of the records. No
operation panics, and the aggregate counters are the sums over the records as long as the
sums fit.
-/

namespace TorrentNG.Session

open Fallible Function Indexes MachineArithmetic SessionRegistryStats Tables Option

/-! ## Canonical info hashes -/

theorem toAsciiLowercase_of_upper {byte : UInt8} (upper : 0x41 ≤ byte ∧ byte ≤ 0x5a) :
    toAsciiLowercase byte = byte + 0x20 := by
  rw [toAsciiLowercase, if_pos]
  simpa only [Bool.and_eq_true, decide_eq_true_eq] using upper

theorem toAsciiLowercase_of_not_upper {byte : UInt8} (other : ¬(0x41 ≤ byte ∧ byte ≤ 0x5a)) :
    toAsciiLowercase byte = byte := by
  rw [toAsciiLowercase, if_neg]
  simpa only [Bool.and_eq_true, decide_eq_true_eq] using other

theorem toAsciiLowercase_idempotent (byte : UInt8) :
    toAsciiLowercase (toAsciiLowercase byte) = toAsciiLowercase byte := by
  by_cases upper : 0x41 ≤ byte ∧ byte ≤ 0x5a
  · rw [toAsciiLowercase_of_upper upper]
    apply toAsciiLowercase_of_not_upper
    simp only [UInt8.le_iff_toNat_le, UInt8.toNat_add, UInt8.reduceToNat] at upper ⊢
    omega
  · rw [toAsciiLowercase_of_not_upper upper, toAsciiLowercase_of_not_upper upper]

theorem isAsciiHexdigit_toAsciiLowercase (byte : UInt8) :
    isAsciiHexdigit (toAsciiLowercase byte) = isAsciiHexdigit byte := by
  by_cases upper : 0x41 ≤ byte ∧ byte ≤ 0x5a
  · rw [toAsciiLowercase_of_upper upper, Bool.eq_iff_iff]
    simp only [isAsciiHexdigit, Bool.or_eq_true, Bool.and_eq_true, decide_eq_true_eq,
      UInt8.le_iff_toNat_le, UInt8.toNat_add, UInt8.reduceToNat] at upper ⊢
    omega
  · rw [toAsciiLowercase_of_not_upper upper]

variable (infoHash : Str)

theorem all_hexdigit_lowercase :
    (infoHash.map toAsciiLowercase).all isAsciiHexdigit = infoHash.all isAsciiHexdigit := by
  rw [List.all_map]
  congr 1
  funext byte
  exact isAsciiHexdigit_toAsciiLowercase byte

theorem map_lowercase_idempotent :
    (infoHash.map toAsciiLowercase).map toAsciiLowercase = infoHash.map toAsciiLowercase := by
  rw [List.map_map]
  congr 1
  funext byte
  exact toAsciiLowercase_idempotent byte

theorem canonicalInfoHash_idempotent :
    canonicalInfoHash (canonicalInfoHash infoHash) = canonicalInfoHash infoHash := by
  by_cases hex : (infoHash.length = 40 ∨ infoHash.length = 64) ∧ infoHash.all isAsciiHexdigit = true
  · have lowered : canonicalInfoHash infoHash = infoHash.map toAsciiLowercase := if_pos hex
    rw [lowered, canonicalInfoHash, map_lowercase_idempotent, ite_self]
  · have kept : canonicalInfoHash infoHash = infoHash := if_neg hex
    rw [kept, kept]

/-- The wire prefix of a canonical v2 hash is its first 40 digits as they stand. -/
theorem v2WireHashPrefix_eq_some {infoHash wirePrefix : Str}
    (canonical : canonicalInfoHash infoHash = infoHash) :
    v2WireHashPrefix infoHash = some wirePrefix ↔
      infoHash.length = 64 ∧ infoHash.all isAsciiHexdigit = true ∧
        infoHash.take 40 = wirePrefix := by
  by_cases hex : infoHash.length = 64 ∧ infoHash.all isAsciiHexdigit = true
  · have lowered : infoHash.map toAsciiLowercase = infoHash := by
      rwa [canonicalInfoHash, if_pos ⟨Or.inr hex.1, hex.2⟩] at canonical
    have first : (infoHash.take 40).map toAsciiLowercase = infoHash.take 40 := by
      rw [List.map_take, lowered]
    rw [v2WireHashPrefix, if_neg (by simp [hex.1, hex.2]), first]
    simp only [Option.some.injEq, hex.1, hex.2, true_and]
  · have none : v2WireHashPrefix infoHash = none := by
      rw [v2WireHashPrefix, if_pos]
      by_cases long : infoHash.length = 64
      · exact Or.inr (Bool.eq_false_iff.mpr fun digits => hex ⟨long, digits⟩)
      · exact Or.inl long
    rw [none]
    simp only [reduceCtorEq, false_iff]
    exact fun ⟨long, digits, _⟩ => hex ⟨long, digits⟩

/-! ## The hashes of the records -/

/-- The info hash of the record stored for a handle. -/
def hashOf (entries : Table TorrentHandle RegistryRecord) (handle : TorrentHandle) : Option Str :=
  (entries.lookup handle).map (·.infoHash)

variable {entries : Table TorrentHandle RegistryRecord} {handle : TorrentHandle}

theorem hashOf_eq_some {hash : Str} : hashOf entries handle = some hash ↔
      ∃ record, entries.lookup handle = some record ∧ record.infoHash = hash := by
  rw [hashOf, map_eq_some_iff]

theorem hashOf_of_lookup {record : RegistryRecord} (present : entries.lookup handle = some record) :
    hashOf entries handle = some record.infoHash :=
  hashOf_eq_some.mpr ⟨record, present, rfl⟩

variable (entries : Table TorrentHandle RegistryRecord)

theorem hashOf_insert (handle : TorrentHandle)
    (record : RegistryRecord) : hashOf (entries.insert handle record) =
      update (hashOf entries) handle (some record.infoHash) := by
  funext other
  by_cases same : other = handle
  · subst same
    rw [hashOf, AList.lookup_insert, update_self, map_some]
  · rw [hashOf, AList.lookup_insert_ne same, update_of_ne same, hashOf]

theorem hashOf_erase (handle : TorrentHandle) :
    hashOf (entries.erase handle) = update (hashOf entries) handle none := by
  funext other
  by_cases same : other = handle
  · subst same
    rw [hashOf, AList.lookup_erase, update_self, map_none]
  · rw [hashOf, AList.lookup_erase_ne same, update_of_ne same, hashOf]

theorem hashOf_mapValues
    {change : RegistryRecord → RegistryRecord}
    (kept : ∀ record, (change record).infoHash = record.infoHash) :
    hashOf (mapValues (fun _ => change) entries) = hashOf entries := by
  funext handle
  rw [hashOf, lookup_mapValues, map_map]
  congr 1
  funext record
  exact kept record

/-! ## The invariant -/

/-- The three indexes describe the hashes of the stored records, which are canonical. -/
structure Indexed (byHash : Table Str TorrentHandle)
    (shardMembers : Vector (Finset TorrentHandle) snapshotShards)
    (v2ByWireHash : Table Str (List TorrentHandle)) (named : TorrentHandle → Option Str) :
    Prop where
  hashes : Inverts byHash named
  shards : Divides shardMembers.get snapshotShard named
  wire : Groups v2ByWireHash v2WireHashPrefix named
  canonical : ∀ handle hash, named handle = some hash → canonicalInfoHash hash = hash

/-- The two counts are those of the two kinds of records. -/
structure Counted (activeCount dormantCount : Nat) (records : List RegistryRecord) : Prop where
  active : activeCount = records.countP (·.isActive)
  dormant : dormantCount = records.countP (·.isDormant)

namespace SessionRegistry

/-- The contributions of all current entries. -/
def contributions (registry : SessionRegistry) : List EntryContribution :=
  (values registry.entries).map (·.contribution)

structure Coherent (registry : SessionRegistry) : Prop where
  indexed : Indexed registry.byHash registry.shardMembers registry.v2ByWireHash
    (hashOf registry.entries)
  counted : Counted registry.activeCount registry.dormantCount (values registry.entries)

/-- The aggregate counters are the sums over the entries. -/
def Tallied (registry : SessionRegistry) : Prop := registry.stats.Tallies registry.contributions

end SessionRegistry

/-! ## What an operation does to the indexes -/

theorem get_set {α : Type} {size : Nat} (items : Vector α size) (index other : Fin size) (item : α) :
    (items.set index item index.isLt).get other = if other = index then item else items.get other := by
  refine (Vector.getElem_set _ other.isLt).trans (if_congr ?_ rfl rfl)
  rw [Fin.ext_iff, eq_comm]

theorem shards_set (members : Vector (Finset TorrentHandle) snapshotShards)
    (shard : Fin snapshotShards) (handles : Finset TorrentHandle) :
    (members.set shard handles shard.isLt).get = update members.get shard handles := by
  funext other
  rw [get_set, update_apply]

section Indexed

variable {byHash : Table Str TorrentHandle}
  {shardMembers : Vector (Finset TorrentHandle) snapshotShards}
  {v2ByWireHash : Table Str (List TorrentHandle)} {named : TorrentHandle → Option Str}
  {infoHash : Str}

variable (indexed : Indexed byHash shardMembers v2ByWireHash named)

include indexed

theorem Indexed.enter (fresh : named handle = none) (unused : byHash.lookup infoHash = none)
    (canonical : canonicalInfoHash infoHash = infoHash) :
    Indexed (byHash.insert infoHash handle)
      (shardMembers.set (snapshotShard infoHash)
        (insert handle (shardMembers.get (snapshotShard infoHash))) (snapshotShard infoHash).isLt)
      (match v2WireHashPrefix infoHash with
        | some wirePrefix => push v2ByWireHash wirePrefix handle
        | none => v2ByWireHash)
      (update named handle (some infoHash)) where
  hashes := indexed.hashes.enter fresh unused
  shards := by
    rw [shards_set]
    exact indexed.shards.enter fresh infoHash
  wire := by
    cases grouped : v2WireHashPrefix infoHash with
    | none =>
      apply indexed.wire.update_ungrouped
      · intro old present
        rw [fresh] at present
        exact nomatch present
      · intro new same
        rw [← Option.some.inj same, grouped]
    | some wirePrefix => exact indexed.wire.enter fresh grouped
  canonical := by
    intro other hash present
    by_cases same : other = handle
    · rw [same, update_self] at present
      rw [← Option.some.inj present, canonical]
    · rw [update_of_ne same] at present
      exact indexed.canonical other hash present

/-- The wire index finds a handle that leaves, and is right without it. -/
theorem Indexed.unindexWirePrefix (present : named handle = some infoHash) :
    ∃ index, SessionRegistry.unindexWirePrefix v2ByWireHash infoHash handle = .ok index ∧
      Groups index v2WireHashPrefix (update named handle none) := by
  cases grouped : v2WireHashPrefix infoHash with
  | none =>
    refine ⟨v2ByWireHash, by rw [SessionRegistry.unindexWirePrefix, grouped], ?_⟩
    apply indexed.wire.update_ungrouped
    · intro old alsoPresent
      rw [present] at alsoPresent
      rw [← Option.some.inj alsoPresent, grouped]
    · exact nofun
  | some wirePrefix =>
    have shorter := indexed.wire.length_filter_lt present grouped
    have remaining := indexed.wire.leave present grouped
    cases stored : v2ByWireHash.lookup wirePrefix with
    | none =>
      rw [listed, stored] at shorter
      exact absurd shorter (Nat.not_lt_zero _)
    | some handles =>
      rw [listed, stored, getD_some] at shorter remaining
      refine ⟨_, ?_, remaining⟩
      rw [SessionRegistry.unindexWirePrefix, grouped]
      simp only [stored]
      exact if_pos shorter

theorem Indexed.leave (present : named handle = some infoHash)
    {index : Table Str (List TorrentHandle)}
    (wire : Groups index v2WireHashPrefix (update named handle none)) :
    Indexed (byHash.erase infoHash)
      (shardMembers.set (snapshotShard infoHash)
        ((shardMembers.get (snapshotShard infoHash)).erase handle) (snapshotShard infoHash).isLt)
      index (update named handle none) where
  hashes := indexed.hashes.leave present
  shards := by
    rw [shards_set]
    exact indexed.shards.leave present
  wire := wire
  canonical := by
    intro other hash named
    by_cases same : other = handle
    · rw [same, update_self] at named
      exact nomatch named
    · rw [update_of_ne same] at named
      exact indexed.canonical other hash named

end Indexed

end TorrentNG.Session
