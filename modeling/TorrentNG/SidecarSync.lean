import TorrentNG.RangeFetch
import TorrentNG.Tables

/-!
# Bounded synchronization

`tick_bounded` of `sidecar/src/sync.rs`. A tick stores the torrents of the live summary and of
one page of the backend in the cache. A short page ends a cycle; a cycle without errors removes
the rows that it has not seen, at once under a token and at the second such cycle without one.

Counters, messages and the error that a tick returns are left out. What the cache is told is kept
beside the state, and the hash map of the confirmations, in which every value is one, is a set.
-/

namespace TorrentNG.Sidecar

open List Tables

variable {α τ κ η : Type}

/-- What a tick is answered. `none` and `false` are errors. -/
structure Tick (α τ κ : Type) where
  liveSummary : Option (List α)
  backend : Backend α τ
  upsertTorrent : α → Bool
  allHashes : Option (List κ)
  delete : κ → Bool
  syncCounts : Bool

/-- What does not depend on the page. -/
structure Cycle (α κ η : Type) where
  fullCycleSeen : Finset η
  fullCycleHadErrors : Bool
  missingConfirmations : Finset η
  stored : List α
  deleted : List κ

structure BoundedSyncState (α τ κ η : Type) extends Cycle α κ η where
  pageOffset : Nat
  snapshot : Option τ

def BoundedSyncState.start : BoundedSyncState α τ κ η := ⟨⟨∅, false, ∅, [], []⟩, 0, none⟩

/-- What a tick reads of torrents, and the size of its pages. -/
structure Projection (α κ η : Type) where
  hash : α → κ
  logicalHash : κ → η
  validate : α → Bool
  pageSize : Nat

def Projection.logical (projection : Projection α κ η) (torrent : α) : η :=
  projection.logicalHash (projection.hash torrent)

def maxSyncCacheEntries : Nat := 100000

section Ticks

variable [DecidableEq η] (projection : Projection α κ η) (tick : Tick α τ κ)

/-- A torrent of the summary or of the page; `touched` are those that the tick has stored. -/
def project : Cycle α κ η × Finset η → α → Cycle α κ η × Finset η
  | (cycle, touched), torrent =>
    if projection.validate torrent then
      let logical := projection.logical torrent
      let cycle := { cycle with fullCycleSeen := insert logical cycle.fullCycleSeen }
      if logical ∈ touched then (cycle, touched)
      else if tick.upsertTorrent torrent then
        ({ cycle with stored := cycle.stored ++ [torrent] }, insert logical touched)
      else ({ cycle with fullCycleHadErrors := true }, touched)
    else ({ cycle with fullCycleHadErrors := true }, touched)

/-- A known row that the cycle has not seen. -/
def removeMissing (stableSnapshot : Bool) (cycle : Cycle α κ η) : (_ : η) × κ → Cycle α κ η
  | ⟨logical, hash⟩ =>
    if stableSnapshot ∨ logical ∈ cycle.missingConfirmations then
      let cycle := { cycle with missingConfirmations := cycle.missingConfirmations.erase logical }
      if tick.delete hash then { cycle with deleted := cycle.deleted ++ [hash] }
      else { cycle with fullCycleHadErrors := true }
    else { cycle with missingConfirmations := insert logical cycle.missingConfirmations }

/-- The end of a cycle without errors; `none` is an early return. -/
def cleanUp (stableSnapshot : Bool) (cycle : Cycle α κ η) : Option (Cycle α κ η) := do
  let known ← tick.allHashes
  guard (known.length ≤ maxSyncCacheEntries)
  let knownByLogical := insertAll projection.logicalHash ∅ known
  let missing := knownByLogical.entries.filter (·.1 ∉ cycle.fullCycleSeen)
  let missingConfirmations := cycle.missingConfirmations.filter fun logical =>
    logical ∉ cycle.fullCycleSeen ∧ logical ∈ knownByLogical
  return missing.foldl (removeMissing tick stableSnapshot) { cycle with missingConfirmations }

def endCycle (state : BoundedSyncState α τ κ η) : BoundedSyncState α τ κ η :=
  let cleaned :=
    if state.fullCycleHadErrors then some { state.toCycle with missingConfirmations := ∅ }
    else cleanUp projection tick state.snapshot.isSome state.toCycle
  match cleaned with
  | none => state
  | some cycle =>
    -- without the counters the tick returns early, and the cycle goes on
    if !cycle.fullCycleHadErrors && !tick.syncCounts then { state with toCycle := cycle }
    else
      { cycle with
        missingConfirmations := cycle.missingConfirmations \ cycle.fullCycleSeen
        fullCycleSeen := ∅
        fullCycleHadErrors := false
        pageOffset := 0
        snapshot := none }

def turnPage (pageLen : Nat) (state : BoundedSyncState α τ κ η) : BoundedSyncState α τ κ η :=
  if pageLen < projection.pageSize then endCycle projection tick state
  else if state.pageOffset + projection.pageSize < 2 ^ 63 then
    { state with pageOffset := state.pageOffset + projection.pageSize }
  else
    { state with
      pageOffset := 0
      snapshot := none
      fullCycleSeen := ∅
      fullCycleHadErrors := false }

def tickBounded [DecidableEq τ] (state : BoundedSyncState α τ κ η) (tick : Tick α τ κ) :
    BoundedSyncState α τ κ η :=
  let (cycle, touched) := match tick.liveSummary with
    | some moving => moving.foldl (project projection tick) (state.toCycle, ∅)
    | none => ({ state.toCycle with fullCycleHadErrors := true }, ∅)
  let fetched := fetchRangeResilient tick.backend state.pageOffset projection.pageSize state.snapshot
  let cycle := { cycle with
    fullCycleHadErrors := cycle.fullCycleHadErrors || fetched.hadErrors ||
      state.snapshot.isSome && fetched.snapshot ≠ state.snapshot }
  let (cycle, _) := fetched.torrents.foldl (project projection tick) (cycle, touched)
  turnPage projection tick fetched.torrents.length
    ⟨cycle, state.pageOffset, state.snapshot.or fetched.snapshot⟩

end Ticks

/-! ## Parts of a tick -/

section Parts

variable [DecidableEq η] {projection : Projection α κ η} {tick : Tick α τ κ}

theorem stored_foldl_project {torrents : List α} (cycle : Cycle α κ η) {touched : Finset η}
    (upserts : ∀ torrent ∈ torrents, tick.upsertTorrent torrent = true)
    (distinct : (torrents.map projection.logical).Nodup)
    (fresh : ∀ torrent ∈ torrents, projection.logical torrent ∉ touched) :
    (torrents.foldl (project projection tick) (cycle, touched)).1.stored =
      cycle.stored ++ torrents.filter projection.validate := by
  induction torrents generalizing cycle touched with
  | nil => exact (append_nil _).symm
  | cons torrent rest ih =>
    obtain ⟨upsert, upserts⟩ := forall_mem_cons.mp upserts
    obtain ⟨new, fresh⟩ := forall_mem_cons.mp fresh
    obtain ⟨unlike, distinct⟩ := nodup_cons.mp distinct
    rw [foldl_cons, project]
    split
    next valid =>
      dsimp only
      rw [if_neg new, filter_cons_of_pos valid, append_cons _ _ (rest.filter _)]
      refine ih _ upserts distinct fun other inside => ?_
      rw [Finset.mem_insert, not_or]
      exact ⟨fun same => unlike (same ▸ mem_map_of_mem inside), fresh other inside⟩
    next invalid =>
      rw [filter_cons_of_neg invalid]
      exact ih _ upserts distinct fresh

theorem stored_cleanUp {stableSnapshot : Bool} {cycle cleaned : Cycle α κ η}
    (ended : cleanUp projection tick stableSnapshot cycle = some cleaned) :
    cleaned.stored = cycle.stored := by
  simp only [cleanUp, Option.bind_eq_bind, Option.bind_eq_some_iff] at ended
  obtain ⟨known, -, -, -, result⟩ := ended
  rw [← Option.some.inj result]
  refine List.foldlRecOn (motive := fun later : Cycle α κ η => later.stored = cycle.stored) _ _ rfl
    ?_
  intro later same entry _
  rw [← same, removeMissing]
  split
  next =>
    dsimp only
    split <;> rfl
  next => rfl

/-- The end of a cycle goes back to the first page, or it is tried again. -/
theorem endCycle_spec (projection : Projection α κ η) (tick : Tick α τ κ)
    (state : BoundedSyncState α τ κ η) :
    let after := endCycle projection tick state
    after.stored = state.stored ∧ (after.snapshot = none ∨ after.snapshot = state.snapshot) ∧
      (after.pageOffset = 0 ∨ after.pageOffset = state.pageOffset) := by
  dsimp only [endCycle]
  split
  next => exact ⟨rfl, .inr rfl, .inr rfl⟩
  next cycle cleaned =>
    have stored : cycle.stored = state.stored := by
      split at cleaned
      next => rw [← Option.some.inj cleaned]
      next => exact stored_cleanUp cleaned
    split
    next => exact ⟨stored, .inr rfl, .inr rfl⟩
    next => exact ⟨stored, .inl rfl, .inl rfl⟩

end Parts

/-! ## Ticks of a steady backend -/

/-- A backend with a fixed list of torrents, a fixed token and faulty positions. -/
structure Listing (α τ κ η : Type) extends Projection α κ η where
  entries : List α
  token : Option τ
  faulty : Nat → Bool
  distinct : (entries.map toProjection.logical).Nodup
  positive : 0 < pageSize
  fits : entries.length + pageSize < 2 ^ 63

namespace Listing

variable (listing : Listing α τ κ η)

/-- The backend answers, nothing moves, and what is listed can be stored. -/
structure Quiet (tick : Tick α τ κ) : Prop where
  liveSummary : tick.liveSummary = some []
  backend : tick.backend = steady listing.entries listing.token listing.faulty
  upsertTorrent : ∀ torrent ∈ listing.entries, tick.upsertTorrent torrent = true

/-- Everything succeeds. -/
def answers : Tick α τ κ where
  liveSummary := some []
  backend := steady listing.entries listing.token listing.faulty
  upsertTorrent _ := true
  allHashes := some []
  delete _ := true
  syncCounts := true

theorem quiet_answers (count : Nat) : ∀ tick ∈ List.replicate count listing.answers,
    listing.Quiet tick := by
  intro tick member
  rw [eq_of_mem_replicate member]
  exact ⟨rfl, rfl, fun _ _ => rfl⟩

def page (number : Nat) : List α :=
  sound listing.entries listing.faulty (number * listing.pageSize) listing.pageSize

/-- The pages before this one are full. -/
def Reached (number : Nat) : Prop :=
  ∀ position < number * listing.pageSize,
    listing.faulty position = false ∧ position < listing.entries.length

variable {listing} {number position : Nat} {torrent : α}

theorem Reached.le (reached : listing.Reached number) :
    number * listing.pageSize ≤ listing.entries.length :=
  Nat.le_of_not_lt fun beyond => (reached _ beyond).2.false

theorem mem_page : torrent ∈ listing.page number ↔
    ∃ position, position / listing.pageSize = number ∧ listing.faulty position = false ∧
      listing.entries[position]? = some torrent := by
  have positive := listing.positive
  simp only [page, sound, mem_filterMap, mem_filter, mem_range'_1, Bool.not_eq_true', and_assoc]
  refine exists_congr fun position => ?_
  rw [← and_assoc, Nat.div_eq_iff positive]
  exact and_congr_left fun _ => by omega

theorem reached_succ : listing.Reached (number + 1) ↔
    listing.Reached number ∧ listing.pageSize ≤ (listing.page number).length := by
  let entry := fun position => if !listing.faulty position then listing.entries[position]? else none
  have same : listing.page number =
      (List.range' (number * listing.pageSize) listing.pageSize).filterMap entry :=
    filterMap_filter ..
  have readable : ∀ position, (entry position).isSome ↔
      listing.faulty position = false ∧ position < listing.entries.length := by
    intro position
    cases bad : listing.faulty position <;> simp [entry, bad]
  have most := length_filterMap_le entry
    (List.range' (number * listing.pageSize) listing.pageSize)
  have full := filterMap_length_eq_length (f := entry)
    (l := List.range' (number * listing.pageSize) listing.pageSize)
  rw [← same, length_range'] at most full
  simp only [most.ge_iff_eq, full, readable, Reached, Nat.succ_mul, mem_range'_1]
  constructor
  · intro reached
    exact ⟨fun position before => reached position (by omega),
      fun position inside => reached position inside.2⟩
  · rintro ⟨reached, full⟩ position before
    rcases Nat.lt_or_ge position (number * listing.pageSize) with earlier | here
    · exact reached position earlier
    · exact full position ⟨here, before⟩

theorem nodup_page : ((listing.page number).map listing.logical).Nodup := by
  rw [page, sound, map_filterMap]
  refine List.Nodup.filterMap ?_ ((nodup_range' 1).filter _)
  intro first second value one other
  rw [← List.getElem?_map] at one other
  exact (List.getElem?_inj (List.getElem?_eq_some_iff.mp one).1 listing.distinct).mp
    (one.trans other.symm)

variable [DecidableEq η] [DecidableEq τ] {tick : Tick α τ κ} {state : BoundedSyncState α τ κ η}

/-- A tick stores a page; a short one is the last of the cycle. -/
theorem tick_quiet (quiet : listing.Quiet tick) (reached : listing.Reached number)
    (offset : state.pageOffset = number * listing.pageSize)
    (known : Known listing.token state.snapshot) :
    let after := tickBounded listing.toProjection state tick
    after.stored = state.stored ++ (listing.page number).filter listing.validate ∧
      Known listing.token after.snapshot ∧
      if (listing.page number).length < listing.pageSize then
        after.pageOffset = 0 ∨ after.pageOffset = state.pageOffset
      else after.pageOffset = state.pageOffset + listing.pageSize := by
  have fits : state.pageOffset + listing.pageSize < 2 ^ 63 := by
    have inside := reached.le
    have bound := listing.fits
    omega
  obtain ⟨torrents, -, knownPage⟩ :=
    fetch_steady listing.entries listing.faulty listing.positive fits known
  have listed : ∀ torrent ∈ listing.page number, tick.upsertTorrent torrent = true := by
    intro torrent inside
    obtain ⟨position, -, -, found⟩ := mem_page.mp inside
    exact quiet.upsertTorrent torrent (mem_of_getElem? found)
  have stored (cycle : Cycle α κ η) := stored_foldl_project cycle listed nodup_page
    (fun _ _ => Finset.notMem_empty _)
  rw [page, ← offset, ← torrents] at stored ⊢
  dsimp only [tickBounded]
  rw [quiet.liveSummary, quiet.backend]
  dsimp only [foldl_nil]
  rw [turnPage]
  split
  next =>
    obtain ⟨storedNow, snapshot, turned⟩ := endCycle_spec listing.toProjection tick _
    exact ⟨storedNow.trans (stored _), snapshot.elim .inl (· ▸ known.or knownPage), turned⟩
  next => exact ⟨stored _, known.or knownPage, rfl⟩

/-! ## Whole runs -/

/-- After some ticks the pages so far are stored, up to the first short one. -/
structure Paging (listing : Listing α τ κ η) (count : Nat) (state : BoundedSyncState α τ κ η) :
    Prop where
  known : Known listing.token state.snapshot
  place : ∃ number ≤ count, state.pageOffset = number * listing.pageSize ∧
    listing.Reached number ∧ (listing.Reached count → number = count)
  stored : ∀ torrent, torrent ∈ state.stored ↔
    ∃ number < count, listing.Reached number ∧ torrent ∈ (listing.page number).filter listing.validate

theorem Paging.step {count : Nat} (paging : listing.Paging count state) (quiet : listing.Quiet tick) :
    listing.Paging (count + 1) (tickBounded listing.toProjection state tick) := by
  obtain ⟨known, ⟨number, before, offset, reached, straight⟩, stored⟩ := paging
  obtain ⟨storedNow, knownNow, turned⟩ := tick_quiet quiet reached offset known
  refine ⟨knownNow, ?_, fun torrent => ?_⟩
  · split at turned
    next short =>
      have last : ¬listing.Reached (count + 1) := by
        intro further
        obtain ⟨here, full⟩ := reached_succ.mp further
        obtain rfl := straight here
        omega
      rcases turned with first | again
      · exact ⟨0, by omega, by omega, fun position impossible => by omega, (absurd · last)⟩
      · exact ⟨number, by omega, again.trans offset, reached, (absurd · last)⟩
    next full =>
      refine ⟨number + 1, by omega, ?_, reached_succ.mpr ⟨reached, Nat.le_of_not_lt full⟩, ?_⟩
      · rw [turned, offset, Nat.succ_mul]
      · exact fun further => congrArg (· + 1) (straight (reached_succ.mp further).1)
  · rw [storedNow, mem_append, stored]
    constructor
    · rintro (⟨earlier, past, visited, listed⟩ | new)
      · exact ⟨earlier, by omega, visited, listed⟩
      · exact ⟨number, by omega, reached, new⟩
    · rintro ⟨earlier, past, visited, listed⟩
      rcases Nat.lt_succ_iff_lt_or_eq.mp past with old | rfl
      · exact .inl ⟨earlier, old, visited, listed⟩
      · exact .inr (straight visited ▸ listed)

theorem paging_run {ticks : List (Tick α τ κ)} (quiet : ∀ tick ∈ ticks, listing.Quiet tick) :
    listing.Paging ticks.length (ticks.foldl (tickBounded listing.toProjection) .start) := by
  induction ticks using List.reverseRecOn with
  | nil =>
    refine ⟨.inl rfl, ⟨0, le_rfl, (Nat.zero_mul _).symm, ?_, fun _ => rfl⟩, ?_⟩
    · exact fun position impossible => by omega
    · simp [BoundedSyncState.start]
  | append_singleton ticks tick ih =>
    obtain ⟨earlier, last⟩ := forall_mem_append.mp quiet
    rw [foldl_append, length_append]
    exact (ih earlier).step (last tick (mem_singleton_self tick))

/-- A torrent that can be read is stored when it is valid and the pages before its own are full. -/
theorem mem_stored_iff {ticks : List (Tick α τ κ)} (quiet : ∀ tick ∈ ticks, listing.Quiet tick)
    (enough : listing.entries.length / listing.pageSize < ticks.length)
    (found : listing.entries[position]? = some torrent) (readable : listing.faulty position = false) :
    torrent ∈ (ticks.foldl (tickBounded listing.toProjection) .start).stored ↔
      listing.validate torrent = true ∧ listing.Reached (position / listing.pageSize) := by
  rw [(paging_run quiet).stored]
  constructor
  · rintro ⟨number, -, reached, listed⟩
    obtain ⟨listed, valid⟩ := mem_filter.mp listed
    obtain ⟨other, rfl, -, foundOther⟩ := mem_page.mp listed
    obtain rfl : other = position :=
      (List.getElem?_inj (List.getElem?_eq_some_iff.mp foundOther).1 listing.distinct.of_map).mp
        (foundOther.trans found.symm)
    exact ⟨valid, reached⟩
  · rintro ⟨valid, reached⟩
    have bound := (Nat.le_div_iff_mul_le listing.positive).mpr reached.le
    exact ⟨_, by omega, reached,
      mem_filter.mpr ⟨mem_page.mpr ⟨position, rfl, readable, found⟩, valid⟩⟩

/-- Within one tick more than there are pages, the torrents that can be read are stored exactly
when all of them are valid and none comes on a page behind that of a faulty one. -/
theorem readable_torrents_stored_iff (listing : Listing α τ κ η) (ticks : List (Tick α τ κ))
    (quiet : ∀ tick ∈ ticks, listing.Quiet tick)
    (count : ticks.length = (listing.entries.length + listing.pageSize - 1) / listing.pageSize + 1) :
    (∀ position torrent, listing.entries[position]? = some torrent →
      listing.faulty position = false →
        torrent ∈ (ticks.foldl (tickBounded listing.toProjection) .start).stored) ↔
    ∀ position torrent, listing.entries[position]? = some torrent →
      listing.faulty position = false → listing.validate torrent = true ∧
        ∀ other, listing.faulty other = true →
          position / listing.pageSize ≤ other / listing.pageSize := by
  have positive := listing.positive
  have pages : listing.entries.length / listing.pageSize ≤
      (listing.entries.length + listing.pageSize - 1) / listing.pageSize :=
    Nat.div_le_div_right (by omega)
  refine forall₄_congr fun position torrent found readable => ?_
  rw [mem_stored_iff quiet (by omega) found readable]
  refine and_congr_right fun _ => ?_
  simp only [Nat.le_div_iff_mul_le positive]
  constructor
  · intro reached other bad
    by_contra before
    exact absurd bad (by simp [(reached other (Nat.lt_of_not_le before)).1])
  · intro apart other before
    have inside := (List.getElem?_eq_some_iff.mp found).1
    have bound := Nat.div_mul_le_self position listing.pageSize
    refine ⟨?_, by omega⟩
    by_contra bad
    exact absurd (apart other (by simpa using bad)) (Nat.not_le.mpr before)

end Listing

def multicallRangePageSize : Nat := 100

/-- Torrents that are numbers, one more than a page holds, and one of them is faulty. -/
def numbered (broken : Nat) : Listing Nat Nat Nat Nat where
  hash := id
  logicalHash := id
  validate _ := true
  pageSize := multicallRangePageSize
  entries := List.range 101
  token := some 7
  faulty := (· == broken)
  distinct := by decide
  positive := by decide
  fits := by decide

/-- If the first torrent is faulty, then the last one is not stored. -/
theorem torrent_behind_faulty_page_hidden :
    (numbered 0).entries[100]? = some 100 ∧ (numbered 0).faulty 100 = false ∧
      100 ∉ ((List.replicate 3 (numbered 0).answers).foldl (tickBounded (numbered 0).toProjection)
        .start).stored := by
  refine ⟨by decide, by decide, fun stored => ?_⟩
  obtain ⟨-, reached⟩ := (Listing.mem_stored_iff ((numbered 0).quiet_answers 3) (by decide)
    (by decide : (numbered 0).entries[100]? = some 100) (by decide)).mp stored
  exact absurd (reached 0 (by decide)).1 (by decide)

/-- If the last torrent is faulty, then the one before it is stored. -/
theorem torrent_before_faulty_one_stored :
    99 ∈ ((List.replicate 3 (numbered 100).answers).foldl (tickBounded (numbered 100).toProjection)
      .start).stored := by
  refine (Listing.readable_torrents_stored_iff (numbered 100) _ ((numbered 100).quiet_answers 3)
    (by decide)).mpr ?_ 99 99 (by decide) (by decide)
  refine fun position torrent found readable => ⟨rfl, fun other bad => ?_⟩
  obtain rfl := eq_of_beq bad
  have inside : position < 101 := (List.getElem?_eq_some_iff.mp found).1.trans_eq List.length_range
  exact Nat.div_le_div_right (by omega)

end TorrentNG.Sidecar
