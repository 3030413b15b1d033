import TorrentNG.RegistryOutcomes
import TorrentNG.Runs

/-!
# The index invariant of the session registry

After any calls, in any order, the registry's counters are the sums over its entries, its
counts are those of the two kinds of records, and its three indexes agree with the entries.
The sums hold while they fit the counters; the rest holds without that condition.
-/

namespace TorrentNG.Session.SessionRegistry

open Fallible Indexes List SessionRegistryStats Tables

variable {quiet : Prop} {registry : SessionRegistry}

/-! ## The aggregate counters -/

theorem Tallied.split (tallied : registry.Tallied) {handle : TorrentHandle} {record : RegistryRecord}
    (present : registry.entries.lookup handle = some record) : registry.stats.Tallies
      (record.contribution :: (values (registry.entries.erase handle)).map (·.contribution)) :=
  Tallies.perm tallied ((values_perm_erase present).map RegistryRecord.contribution)

theorem Tallied.bumpRevision (tallied : registry.Tallied) (infoHash : Str) (removed : Bool) :
    (registry.bumpRevision infoHash removed).Tallied := tallied

theorem Outcome.tallied (tallied : registry.Tallied) {next : SessionRegistry}
    {journal : List (Str × Bool)} (outcome : Outcome quiet registry next journal)
    (fits : Fits next.contributions) : next.Tallied := by
  cases outcome with
  | idle => exact tallied
  | enter record canonical unused fresh =>
    have entered : (registry.insertRecord record).contributions =
        record.contribution :: registry.contributions := by
      simp only [contributions, insertRecord, values_insert_fresh fresh, map_cons]
    have fits : Fits (registry.insertRecord record).contributions := fits
    apply Tallied.bumpRevision
    rw [Tallied, entered]
    rw [entered] at fits
    exact Tallies.add tallied fits
  | leave handle record present index wire counts counted =>
    apply Tallied.bumpRevision
    exact Tallies.remove (tallied.split present)
  | convert handle old new present infoHash contribution projection counts counted =>
    have split := tallied.split present
    rw [← contribution] at split
    exact split
  | release handle entry present loud counts counted =>
    have split := tallied.split present
    exact split
  | rewrite handle old entry present infoHash counts counted =>
    apply Tallied.bumpRevision
    exact Tallies.delta (tallied.split present) fits
  | edit order edit labels =>
    have kept : (values (mapValues (fun _ record => (edit record).getD record)
        registry.entries)).map (·.contribution) = registry.contributions := by
      rw [values_mapValues, map_map, contributions]
      apply map_congr_left
      exact fun record _ => getD_edit labels.contribution record
    have edited : Tallied { registry with
        entries := mapValues (fun _ record => (edit record).getD record) registry.entries } := by
      rw [Tallied, contributions, kept]
      exact tallied
    exact foldl_bumpRevision Tallied (registry.edited order edit)
      (fun registry infoHash tallied => Tallied.bumpRevision tallied infoHash false) edited

/-! ## What the indexes say -/

/-- The registered hashes. -/
def registered (registry : SessionRegistry) : List Str := registry.byHash.keys

/-- The registered hashes of 64 hexadecimal digits that start with a prefix. -/
def v2Hashes (registry : SessionRegistry) (wirePrefix : Str) : List Str :=
  registry.registered.filter fun infoHash =>
    infoHash.length = 64 ∧ infoHash.all isAsciiHexdigit = true ∧ infoHash.take 40 = wirePrefix

/-- Every derived structure of the registry describes its entries. -/
structure IndexesAgree (registry : SessionRegistry) : Prop where
  /-- The counters are the fold of the contributions; the fold does not saturate. -/
  stats : registry.stats = registry.contributions.foldl addContribution .empty
  sums : registry.stats.Tallies registry.contributions
  activeLen : registry.activeLen = (values registry.entries).countP (·.isActive)
  dormantLen : registry.dormantLen = (values registry.entries).countP (·.isDormant)
  len : registry.activeLen + registry.dormantLen = registry.len
  /-- Hashes and entries correspond to each other one to one. -/
  hashes : ∀ infoHash handle, registry.byHash.lookup infoHash = some handle ↔
    ∃ record, registry.entries.lookup handle = some record ∧ record.infoHash = infoHash
  canonical : ∀ handle record, registry.entries.lookup handle = some record →
    canonicalInfoHash record.infoHash = record.infoHash
  shards : ∀ (shard : Fin snapshotShards) handle, handle ∈ registry.shardMembers[shard] ↔
    ∃ record, registry.entries.lookup handle = some record ∧
      snapshotShard record.infoHash = shard
  /-- At most two of the v2 hashes with a prefix are found, and none that has another. -/
  wire : ∀ wirePrefix : Str, wirePrefix.length = 40 → wirePrefix.all isAsciiHexdigit = true →
    (registry.findV2WireHashMatches wirePrefix).length =
      min 2 (registry.v2Hashes (wirePrefix.map toAsciiLowercase)).length ∧
    (registry.findV2WireHashMatches wirePrefix).Nodup ∧
    ∀ infoHash ∈ registry.findV2WireHashMatches wirePrefix,
      infoHash ∈ registry.v2Hashes (wirePrefix.map toAsciiLowercase)

/-- The matches of a prefix are the first two of all of its hashes, in some order. -/
theorem findV2WireHashMatches_eq (coherent : registry.Coherent) {wirePrefix : Str}
    (length : wirePrefix.length = 40) (digits : wirePrefix.all isAsciiHexdigit = true) :
    ∃ hashes : List Str, hashes.Perm (registry.v2Hashes (wirePrefix.map toAsciiLowercase)) ∧
      registry.findV2WireHashMatches wirePrefix = hashes.take 2 := by
  have lowered : canonicalInfoHash wirePrefix = wirePrefix.map toAsciiLowercase :=
    if_pos ⟨Or.inl length, digits⟩
  have indexed := coherent.indexed
  refine ⟨_, (indexed.wire.names_perm indexed.hashes (wirePrefix.map toAsciiLowercase)).trans ?_,
    ?_⟩
  · apply List.Perm.of_eq
    apply filter_congr
    intro infoHash inside
    obtain ⟨handle, present⟩ := indexed.hashes.mem_keys_iff.mp inside
    rw [decide_eq_decide]
    exact v2WireHashPrefix_eq_some (indexed.canonical handle infoHash present)
  · rw [← indexed.wire.filterMap_take, findV2WireHashMatches]
    simp only [lowered, length_map, length, all_hexdigit_lowercase, digits, ne_eq,
      not_true_eq_false, Bool.true_eq_false, or_self, if_false]
    rfl

theorem Coherent.indexesAgree (coherent : registry.Coherent) (tallied : registry.Tallied)
    (fits : Fits registry.contributions) : registry.IndexesAgree where
  stats := Tallies.unique tallied (Tallies.fold fits)
  sums := tallied
  activeLen := coherent.counted.active
  dormantLen := coherent.counted.dormant
  len := by
    have kinds : ∀ record : RegistryRecord, record.isDormant = decide ¬record.isActive = true := by
      intro record
      cases record <;> rfl
    rw [activeLen, dormantLen, coherent.counted.active, coherent.counted.dormant, len,
      ← length_values, funext kinds]
    exact (length_eq_countP_add_countP _).symm
  hashes := by
    intro infoHash handle
    rw [coherent.indexed.hashes infoHash handle, hashOf_eq_some]
  canonical := fun handle record present =>
    coherent.indexed.canonical handle record.infoHash (hashOf_of_lookup present)
  shards := by
    intro shard handle
    constructor
    · intro inside
      obtain ⟨infoHash, named, place⟩ := (coherent.indexed.shards shard handle).mp inside
      obtain ⟨record, present, rfl⟩ := hashOf_eq_some.mp named
      exact ⟨record, present, place⟩
    · rintro ⟨record, present, place⟩
      exact (coherent.indexed.shards shard handle).mpr ⟨_, hashOf_of_lookup present, place⟩
  wire := by
    intro wirePrefix length digits
    obtain ⟨hashes, same, first⟩ := findV2WireHashMatches_eq coherent length digits
    have distinct : hashes.Nodup := same.nodup_iff.mpr (registry.byHash.keys_nodup.filter _)
    rw [first]
    refine ⟨?_, distinct.sublist (take_sublist 2 hashes), ?_⟩
    · rw [length_take, same.length_eq]
    · exact fun infoHash inside => same.mem_iff.mp (mem_of_mem_take inside)

/-! ## Histories -/

instance (contributions : List EntryContribution) : Decidable (Fits contributions) :=
  decidable_of_iff (contributions.length < 2 ^ 64 ∧
      (contributions.map (·.uploaded)).sum < 2 ^ 64 ∧
      (contributions.map (·.downloaded)).sum < 2 ^ 64 ∧
      (contributions.map (·.totalLength)).sum < 2 ^ 64 ∧
      (contributions.map (·.amountLeft)).sum < 2 ^ 64)
    ⟨fun ⟨total, uploaded, downloaded, totalLength, amountLeft⟩ =>
      ⟨total, uploaded, downloaded, totalLength, amountLeft⟩,
    fun fits => ⟨fits.total, fits.uploaded, fits.downloaded, fits.totalLength, fits.amountLeft⟩⟩

/-- A call adds no torrent under a handle in use, and the sums fit the counters after it. -/
def OrderlyStep (registry : SessionRegistry) (event : Event) : Prop :=
  registry.Fresh event ∧ (registry.step event).toOption.all fun next => Fits next.contributions

instance (registry : SessionRegistry) (event : Event) : Decidable (registry.OrderlyStep event) :=
  inferInstanceAs (Decidable (_ ∧ _))

/-- A history whose torrents have distinct handles and whose sums always fit the counters. -/
abbrev Orderly (registry : SessionRegistry) (events : List Event) : Prop :=
  Runs.Along step OrderlyStep registry events

/-- What holds of a registry and is kept by every step holds after every orderly history. -/
theorem run_agrees (coherent : registry.Coherent) (tallied : registry.Tallied)
    (fits : Fits registry.contributions) {events : List Event} (orderly : registry.Orderly events) :
    ∃ final, registry.run events = .ok final ∧ final.IndexesAgree := by
  induction events generalizing registry with
  | nil => exact ⟨registry, rfl, coherent.indexesAgree tallied fits⟩
  | cons event events ih =>
    obtain ⟨⟨fresh, fits⟩, rest⟩ := orderly
    obtain ⟨next, journal, stepped, outcome, _⟩ := step_outcome coherent fresh
    rw [stepped] at fits rest
    have fits := of_decide_eq_true fits
    obtain ⟨final, ran, agrees⟩ := ih (outcome.coherent coherent)
      (outcome.tallied tallied fits) fits rest
    refine ⟨final, ?_, agrees⟩
    rw [run, foldlM_cons, stepped]
    exact ran

theorem new_fits : Fits new.contributions := by
  constructor <;> exact Nat.two_pow_pos 64

/-- No call of an orderly history panics, and after it every index agrees with the entries. -/
theorem registry_indexes_agree (events : List Event) (orderly : new.Orderly events) :
    ∃ registry, new.run events = .ok registry ∧ registry.IndexesAgree :=
  run_agrees new_coherent Tallies.empty new_fits orderly

/-- A torrent of 16 KiB with a label. -/
def sampleEntry (uuid : BitVec 128) (infoHash : Str) : TorrentEntry :=
  { TorrentEntry.new ⟨uuid⟩ 0 infoHash [] [] with
    totalLength := 16384
    amountLeft := 16384
    category := some [0x61] }

/-- Two torrents with one wire prefix, of which one is promoted, changed and removed. -/
def sampleHistory : List Event :=
  [ .add (sampleEntry 1 (List.replicate 64 0x41)),
    .addDormant (sampleEntry 2 (List.replicate 63 0x61 ++ [0x62])).intoDormant,
    .demote (List.replicate 64 0x61),
    .getMut (List.replicate 64 0x61)
      [fun entry => { entry with state := .seeding, stats := ⟨16384, 16384⟩, infoHash := [] }],
    .renameCategory ⟨id, fun items => .refl items⟩ [0x61] [0x62],
    .remove (List.replicate 64 0x41) ]

theorem sampleHistory_agrees :
    ∃ registry, new.run sampleHistory = .ok registry ∧ registry.IndexesAgree :=
  registry_indexes_agree sampleHistory (by decide +kernel)

end TorrentNG.Session.SessionRegistry
