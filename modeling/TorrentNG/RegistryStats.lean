import TorrentNG.MachineArithmetic
import TorrentNG.SessionTorrent

/-!
# Aggregate counters of the session registry

The registry keeps counters over its torrents and changes them by the contribution of one
torrent at a time: when a torrent enters, when it leaves and when a borrowed entry is given
back. The counters saturate at the ends of `u64`. As long as the true sums fit, no operation
saturates, and the counters are the sums over the contributions of the torrents present.
-/

namespace TorrentNG.Session

open List MachineArithmetic

structure EntryContribution where
  state : TorrentState
  uploaded : Nat
  downloaded : Nat
  totalLength : Nat
  amountLeft : Nat
  deriving DecidableEq

def EntryContribution.fromEntry (entry : TorrentEntry) : EntryContribution where
  state := entry.state
  uploaded := entry.stats.uploaded
  downloaded := entry.stats.downloaded
  totalLength := entry.totalLength
  amountLeft := entry.amountLeft

def RegistryRecord.contribution : RegistryRecord → EntryContribution
  | active entry => .fromEntry entry
  | dormant torrent =>
    { state := torrent.state
      uploaded := torrent.stats.uploaded
      downloaded := torrent.stats.downloaded
      totalLength := torrent.totalLength
      amountLeft := torrent.amountLeft }

structure SessionRegistryStats where
  torrentsTotal : Nat
  torrentsStopped : Nat
  torrentsMetadataPending : Nat
  torrentsChecking : Nat
  torrentsSeeding : Nat
  torrentsDownloading : Nat
  torrentsPaused : Nat
  torrentsQueued : Nat
  torrentsError : Nat
  bytesUploaded : Nat
  bytesDownloaded : Nat
  bytesTotal : Nat
  bytesLeft : Nat
  deriving DecidableEq

def adjustCounter (current before after : Nat) : Nat :=
  if before ≤ after then saturatingAdd current (after - before) else current - (before - after)

namespace SessionRegistryStats

/-- `SessionRegistryStats::default`. -/
def empty : SessionRegistryStats := ⟨0, 0, 0, 0, 0, 0, 0, 0, 0, 0, 0, 0, 0⟩

variable (stats : SessionRegistryStats)

/-- The counter that `add_state` selects for a state. -/
def counter : TorrentState → Nat
  | .stopped => stats.torrentsStopped
  | .metadataPending => stats.torrentsMetadataPending
  | .checking => stats.torrentsChecking
  | .seeding => stats.torrentsSeeding
  | .downloading => stats.torrentsDownloading
  | .paused => stats.torrentsPaused
  | .queued => stats.torrentsQueued
  | .error => stats.torrentsError

def setCounter (value : Nat) : TorrentState → SessionRegistryStats
  | .stopped => { stats with torrentsStopped := value }
  | .metadataPending => { stats with torrentsMetadataPending := value }
  | .checking => { stats with torrentsChecking := value }
  | .seeding => { stats with torrentsSeeding := value }
  | .downloading => { stats with torrentsDownloading := value }
  | .paused => { stats with torrentsPaused := value }
  | .queued => { stats with torrentsQueued := value }
  | .error => { stats with torrentsError := value }

variable (state : TorrentState)

def addState (delta : Int) : SessionRegistryStats :=
  let counter := stats.counter state
  stats.setCounter
    (if 0 < delta then saturatingAdd counter delta.toNat else counter - delta.natAbs) state

variable (contribution : EntryContribution)

def addContribution : SessionRegistryStats :=
  let counted :=
    { stats with torrentsTotal := saturatingAdd stats.torrentsTotal 1 }.addState
      contribution.state 1
  { counted with
    bytesUploaded := saturatingAdd counted.bytesUploaded contribution.uploaded
    bytesDownloaded := saturatingAdd counted.bytesDownloaded contribution.downloaded
    bytesTotal := saturatingAdd counted.bytesTotal contribution.totalLength
    bytesLeft := saturatingAdd counted.bytesLeft contribution.amountLeft }

def removeContribution : SessionRegistryStats :=
  let counted :=
    { stats with torrentsTotal := stats.torrentsTotal - 1 }.addState contribution.state (-1)
  { counted with
    bytesUploaded := counted.bytesUploaded - contribution.uploaded
    bytesDownloaded := counted.bytesDownloaded - contribution.downloaded
    bytesTotal := counted.bytesTotal - contribution.totalLength
    bytesLeft := counted.bytesLeft - contribution.amountLeft }

def applyDelta (before after : EntryContribution) : SessionRegistryStats :=
  let counted :=
    if before.state ≠ after.state then
      (stats.addState before.state (-1)).addState after.state 1
    else stats
  { counted with
    bytesUploaded := adjustCounter counted.bytesUploaded before.uploaded after.uploaded
    bytesDownloaded := adjustCounter counted.bytesDownloaded before.downloaded after.downloaded
    bytesTotal := adjustCounter counted.bytesTotal before.totalLength after.totalLength
    bytesLeft := adjustCounter counted.bytesLeft before.amountLeft after.amountLeft }

/-! ## The counters by state -/

theorem counter_setCounter (value : Nat) (state other : TorrentState) :
    (stats.setCounter value state).counter other =
      if state = other then value else stats.counter other := by
  cases state <;> cases other <;> rfl

section Frame

variable (stats : SessionRegistryStats) (value : Nat) (state : TorrentState)

@[simp] theorem torrentsTotal_setCounter :
    (stats.setCounter value state).torrentsTotal = stats.torrentsTotal := by cases state <;> rfl

@[simp] theorem bytesUploaded_setCounter :
    (stats.setCounter value state).bytesUploaded = stats.bytesUploaded := by cases state <;> rfl

@[simp] theorem bytesDownloaded_setCounter :
    (stats.setCounter value state).bytesDownloaded = stats.bytesDownloaded := by
  cases state <;> rfl

@[simp] theorem bytesTotal_setCounter :
    (stats.setCounter value state).bytesTotal = stats.bytesTotal := by cases state <;> rfl

@[simp] theorem bytesLeft_setCounter :
    (stats.setCounter value state).bytesLeft = stats.bytesLeft := by cases state <;> rfl

end Frame

/-- A torrent that goes from one state to another changes the counters by state only. -/
theorem frame_moved {field : SessionRegistryStats → Nat}
    (kept : ∀ stats value state, field (setCounter stats value state) = field stats)
    (stats : SessionRegistryStats) (before after : EntryContribution) :
    field (if before.state ≠ after.state then
      (stats.addState before.state (-1)).addState after.state 1 else stats) = field stats := by
  split
  · rw [addState, kept, addState, kept]
  · rfl

/-- What a torrent in some state counts for the counter of another. -/
def weight (other : TorrentState) : Nat := if state = other then 1 else 0

theorem counter_addState_one {stats : SessionRegistryStats} {state other : TorrentState}
    (fits : stats.counter state + 1 < 2 ^ 64) :
    (stats.addState state 1).counter other = stats.counter other + weight state other := by
  rw [addState, counter_setCounter, weight]
  by_cases same : state = other
  · subst same
    simp only [if_true, Int.zero_lt_one, Int.toNat_one]
    exact saturatingAdd_of_lt fits
  · rw [if_neg same, if_neg same, Nat.add_zero]

theorem counter_addState_neg (other : TorrentState) :
    (stats.addState state (-1)).counter other = stats.counter other - weight state other := by
  rw [addState, counter_setCounter, weight]
  by_cases same : state = other
  · rw [if_pos same, if_pos same, same]
    rfl
  · rw [if_neg same, if_neg same, Nat.sub_zero]

/-! ## Counters as sums -/

/-- The true sums fit the counters. -/
structure Fits (contributions : List EntryContribution) : Prop where
  total : contributions.length < 2 ^ 64
  uploaded : (contributions.map (·.uploaded)).sum < 2 ^ 64
  downloaded : (contributions.map (·.downloaded)).sum < 2 ^ 64
  totalLength : (contributions.map (·.totalLength)).sum < 2 ^ 64
  amountLeft : (contributions.map (·.amountLeft)).sum < 2 ^ 64

/-- The counters are the sums over the contributions, in whatever order. -/
structure Tallies (contributions : List EntryContribution) : Prop where
  total : stats.torrentsTotal = contributions.length
  states : ∀ state, stats.counter state = contributions.countP (·.state = state)
  uploaded : stats.bytesUploaded = (contributions.map (·.uploaded)).sum
  downloaded : stats.bytesDownloaded = (contributions.map (·.downloaded)).sum
  totalLength : stats.bytesTotal = (contributions.map (·.totalLength)).sum
  amountLeft : stats.bytesLeft = (contributions.map (·.amountLeft)).sum

theorem Fits.perm {first second : List EntryContribution} (fits : Fits first)
    (same : first.Perm second) : Fits second where
  total := same.length_eq ▸ fits.total
  uploaded := (same.map (·.uploaded)).sum_nat ▸ fits.uploaded
  downloaded := (same.map (·.downloaded)).sum_nat ▸ fits.downloaded
  totalLength := (same.map (·.totalLength)).sum_nat ▸ fits.totalLength
  amountLeft := (same.map (·.amountLeft)).sum_nat ▸ fits.amountLeft

theorem Fits.of_append_right {first second : List EntryContribution} (fits : Fits (first ++ second)) :
    Fits second := by
  obtain ⟨total, uploaded, downloaded, totalLength, amountLeft⟩ := fits
  rw [length_append] at total
  rw [map_append, sum_append] at uploaded downloaded totalLength amountLeft
  constructor <;> omega

theorem countP_cons_weight (rest : List EntryContribution)
    (state : TorrentState) : (contribution :: rest).countP (·.state = state) =
      rest.countP (·.state = state) + weight contribution.state state := by
  rw [countP_cons, weight]
  simp only [decide_eq_true_eq]

theorem adjustCounter_eq {counter rest before after : Nat} (exact : counter = before + rest)
    (fits : after + rest < 2 ^ 64) : adjustCounter counter before after = after + rest := by
  rw [exact, adjustCounter]
  split
  next =>
    rw [saturatingAdd_of_lt (by omega)]
    omega
  next => omega

namespace Tallies

variable {stats : SessionRegistryStats} {contributions : List EntryContribution}

theorem empty : Tallies empty [] where
  total := rfl
  states := fun state => by cases state <;> rfl
  uploaded := rfl
  downloaded := rfl
  totalLength := rfl
  amountLeft := rfl

section

variable (tallies : Tallies stats contributions)

include tallies

theorem perm {others : List EntryContribution}
    (same : contributions.Perm others) : Tallies stats others where
  total := tallies.total.trans same.length_eq
  states := fun state => (tallies.states state).trans (same.countP_eq _)
  uploaded := tallies.uploaded.trans (same.map (·.uploaded)).sum_nat
  downloaded := tallies.downloaded.trans (same.map (·.downloaded)).sum_nat
  totalLength := tallies.totalLength.trans (same.map (·.totalLength)).sum_nat
  amountLeft := tallies.amountLeft.trans (same.map (·.amountLeft)).sum_nat

/-- The contributions determine the counters. -/
theorem unique {others : SessionRegistryStats}
    (alsoTallies : Tallies others contributions) : stats = others := by
  have states : ∀ state, stats.counter state = others.counter state :=
    fun state => (tallies.states state).trans (alsoTallies.states state).symm
  obtain ⟨total, _, uploaded, downloaded, totalLength, amountLeft⟩ := tallies
  rw [← alsoTallies.total] at total
  rw [← alsoTallies.uploaded] at uploaded
  rw [← alsoTallies.downloaded] at downloaded
  rw [← alsoTallies.totalLength] at totalLength
  rw [← alsoTallies.amountLeft] at amountLeft
  obtain ⟨⟩ := stats
  obtain ⟨⟩ := others
  rw [SessionRegistryStats.mk.injEq]
  exact ⟨total, states .stopped, states .metadataPending, states .checking, states .seeding,
    states .downloading, states .paused, states .queued, states .error, uploaded, downloaded,
    totalLength, amountLeft⟩

theorem add {contribution : EntryContribution} (fits : Fits (contribution :: contributions)) :
    Tallies (stats.addContribution contribution) (contribution :: contributions) := by
  have room : ∀ state, stats.counter state + 1 < 2 ^ 64 := by
    intro state
    rw [tallies.states]
    exact Nat.lt_of_le_of_lt (Nat.succ_le_succ countP_le_length) fits.total
  have adds : ∀ {counter amount sum : Nat}, counter = sum → amount + sum < 2 ^ 64 →
      saturatingAdd counter amount = amount + sum := by
    rintro counter amount _ rfl fits
    rw [saturatingAdd_of_lt (Nat.add_comm amount counter ▸ fits), Nat.add_comm]
  constructor
  · simp only [addContribution, addState, torrentsTotal_setCounter, tallies.total, length_cons]
    exact saturatingAdd_of_lt fits.total
  · intro state
    rw [countP_cons_weight, ← tallies.states]
    exact counter_addState_one (room contribution.state)
  · exact adds ((bytesUploaded_setCounter _ _ _).trans tallies.uploaded) fits.uploaded
  · exact adds ((bytesDownloaded_setCounter _ _ _).trans tallies.downloaded) fits.downloaded
  · exact adds ((bytesTotal_setCounter _ _ _).trans tallies.totalLength) fits.totalLength
  · exact adds ((bytesLeft_setCounter _ _ _).trans tallies.amountLeft) fits.amountLeft

end

/-- Taking off a contribution that is in the sums never reaches zero too early. -/
theorem remove {contribution : EntryContribution}
    (tallies : Tallies stats (contribution :: contributions)) :
    Tallies (stats.removeContribution contribution) contributions := by
  constructor
  · exact (torrentsTotal_setCounter _ _ _).trans (congrArg (· - 1) tallies.total)
  · intro state
    have counted : (stats.removeContribution contribution).counter state =
        stats.counter state - weight contribution.state state :=
      counter_addState_neg _ contribution.state state
    rw [counted, tallies.states, countP_cons_weight, Nat.add_sub_cancel]
  · exact Nat.sub_eq_of_eq_add' ((bytesUploaded_setCounter _ _ _).trans tallies.uploaded)
  · exact Nat.sub_eq_of_eq_add' ((bytesDownloaded_setCounter _ _ _).trans tallies.downloaded)
  · exact Nat.sub_eq_of_eq_add' ((bytesTotal_setCounter _ _ _).trans tallies.totalLength)
  · exact Nat.sub_eq_of_eq_add' ((bytesLeft_setCounter _ _ _).trans tallies.amountLeft)

/-- The counters by state, after a torrent went from one state to another. -/
theorem counter_applyDelta {before : EntryContribution} (after : EntryContribution)
    (tallies : Tallies stats (before :: contributions)) (few : contributions.length + 1 < 2 ^ 64)
    (state : TorrentState) : (stats.applyDelta before after).counter state =
      contributions.countP (·.state = state) + weight after.state state := by
  have counted := tallies.states state
  rw [countP_cons_weight] at counted
  by_cases same : before.state = after.state
  · have kept : (stats.applyDelta before after).counter state = stats.counter state := by
      simp only [applyDelta, same, ne_eq, not_true_eq_false, if_false]
      cases state <;> rfl
    rw [kept, counted, same]
  · have moved : (stats.applyDelta before after).counter state =
        ((stats.addState before.state (-1)).addState after.state 1).counter state := by
      simp only [applyDelta, same, ne_eq, not_false_eq_true, if_true]
      cases state <;> rfl
    have room : (stats.addState before.state (-1)).counter after.state + 1 < 2 ^ 64 := by
      rw [counter_addState_neg, tallies.states, countP_cons_weight, Nat.add_sub_cancel]
      exact Nat.lt_of_le_of_lt (Nat.succ_le_succ countP_le_length) few
    rw [moved, counter_addState_one room, counter_addState_neg, counted, Nat.add_sub_cancel]

theorem delta {before after : EntryContribution} (tallies : Tallies stats (before :: contributions))
    (fits : Fits (after :: contributions)) :
    Tallies (stats.applyDelta before after) (after :: contributions) := by
  constructor
  · exact (frame_moved torrentsTotal_setCounter stats before after).trans tallies.total
  · intro state
    rw [countP_cons_weight, counter_applyDelta after tallies fits.total]
  · exact adjustCounter_eq ((frame_moved bytesUploaded_setCounter _ _ _).trans tallies.uploaded)
      fits.uploaded
  · exact adjustCounter_eq ((frame_moved bytesDownloaded_setCounter _ _ _).trans tallies.downloaded)
      fits.downloaded
  · exact adjustCounter_eq ((frame_moved bytesTotal_setCounter _ _ _).trans tallies.totalLength)
      fits.totalLength
  · exact adjustCounter_eq ((frame_moved bytesLeft_setCounter _ _ _).trans tallies.amountLeft)
      fits.amountLeft

/-- Adding the contributions one after the other to empty counters gives the sums. -/
theorem fold (fits : Fits contributions) :
    Tallies (contributions.foldl addContribution SessionRegistryStats.empty) contributions := by
  suffices general : ∀ (rest : List EntryContribution) stats done, Tallies stats done →
      Fits (rest.reverse ++ done) →
      Tallies (rest.foldl addContribution stats) (rest.reverse ++ done) by
    have whole := general contributions _ [] empty
    rw [append_nil] at whole
    have same := reverse_perm contributions
    exact (whole (fits.perm same.symm)).perm same
  intro rest
  induction rest with
  | nil => exact fun stats done tallies _ => tallies
  | cons contribution rest ih =>
    intro stats done tallies fits
    rw [reverse_cons, append_assoc, singleton_append] at fits ⊢
    exact ih _ _ (tallies.add fits.of_append_right) fits

end Tallies

end SessionRegistryStats

end TorrentNG.Session
