import TorrentNG.MachineArithmetic
import TorrentNG.Runs
import TorrentNG.SessionTorrent
import TorrentNG.Tables

/-!
# The activity tiers

`TierController` of `rt-engine/src/tier.rs` puts each torrent into a tier by what it does, keeps
a small snapshot of some dormant torrents, and counts the torrents of each tier and the bytes of
the snapshots as it goes along. The two timer wheels, which the counters do not depend on, are
left out, and of a snapshot only the capacity of its info hash is kept. Times are nanoseconds.
-/

namespace TorrentNG.Tiers

open AList Function MachineArithmetic Session Tables List

inductive TorrentActivityTier where
  | dormant | warm | hot
deriving DecidableEq

structure TierPolicy where
  warmIdle : Nat
  hotIdle : Nat

structure TierInput where
  state : TorrentState
  connectedPeers : Nat
  outstandingRequests : Nat
  inboundPeer : Bool
  trackerDue : Bool
  lastActive : Option Nat
  now : Nat

structure TierDecision where
  tier : TorrentActivityTier
  nextIdleCheck : Option Nat

inductive TierEvent where
  | inboundPeer | announceDue | peerDrained | requestQueued | requestDrained
  | stateChanged (state : TorrentState)
  | idleElapsed

structure DormantTorrentSnapshot where
  infoHashCapacity : Nat

def DormantTorrentSnapshot.estimateHeapBytes (snapshot : DormantTorrentSnapshot) : Nat :=
  snapshot.infoHashCapacity

structure TierController (κ : Type) where
  policy : TierPolicy
  tiers : Table κ TorrentActivityTier
  tierCounts : TorrentActivityTier → Nat
  dormantSnapshots : Table κ DormantTorrentSnapshot
  dormantHeapBytes : Nat

def TierPolicy.decide (policy : TierPolicy) (input : TierInput) : TierDecision :=
  if input.inboundPeer ∨ 0 < input.connectedPeers ∨ 0 < input.outstandingRequests ∨
      input.state ∈ [.checking, .downloading, .metadataPending] then
    ⟨.hot, some policy.hotIdle⟩
  else if input.state ∈ [.error, .stopped, .paused] then ⟨.dormant, none⟩
  else if input.trackerDue then ⟨.warm, some policy.warmIdle⟩
  else match input.lastActive with
    | none => ⟨.dormant, none⟩
    | some lastActive =>
      let idle := input.now - lastActive
      if idle < policy.hotIdle then ⟨.hot, some (policy.hotIdle - idle)⟩
      else if idle < policy.warmIdle then ⟨.warm, some (policy.warmIdle - idle)⟩
      else ⟨.dormant, none⟩

def TierEvent.apply (input : TierInput) : TierEvent → TierInput
  | .inboundPeer =>
    { input with
      inboundPeer := true
      connectedPeers := max input.connectedPeers 1
      lastActive := some input.now }
  | .announceDue => { input with trackerDue := true }
  | .peerDrained => { input with connectedPeers := 0 }
  | .requestQueued => { input with outstandingRequests := max input.outstandingRequests 1 }
  | .requestDrained => { input with outstandingRequests := 0 }
  | .stateChanged state => { input with state }
  | .idleElapsed => input

namespace TierController

variable {κ : Type} [DecidableEq κ]

def new (policy : TierPolicy) : TierController κ := ⟨policy, ∅, fun _ => 0, ∅, 0⟩

variable (controller : TierController κ) (key : κ)

def clearDormantSnapshot : TierController κ :=
  match controller.dormantSnapshots.lookup key with
  | none => controller
  | some snapshot =>
    { controller with
      dormantSnapshots := controller.dormantSnapshots.erase key
      dormantHeapBytes := controller.dormantHeapBytes - snapshot.estimateHeapBytes }

def setDormantSnapshot (snapshot : DormantTorrentSnapshot) : TierController κ :=
  let controller := controller.clearDormantSnapshot key
  if controller.tiers.lookup key = some .dormant then
    { controller with
      dormantHeapBytes :=
        saturatingAdd controller.dormantHeapBytes snapshot.estimateHeapBytes
      dormantSnapshots := controller.dormantSnapshots.insert key snapshot }
  else controller

/-- The counts when a torrent leaves its tier. -/
def leave : Option TorrentActivityTier → TorrentActivityTier → Nat
  | none => controller.tierCounts
  | some tier => Function.update controller.tierCounts tier (controller.tierCounts tier - 1)

def remove : TierController κ :=
  let controller := controller.clearDormantSnapshot key
  { controller with
    tiers := controller.tiers.erase key
    tierCounts := controller.leave (controller.tiers.lookup key) }

def enter (tier : TorrentActivityTier) : TierController κ :=
  let counts := controller.leave (controller.tiers.lookup key)
  { controller with
    tiers := controller.tiers.insert key tier
    tierCounts := Function.update counts tier (saturatingAdd (counts tier) 1) }

def recordDecision (decision : TierDecision) : TierController κ :=
  let entered := controller.enter key decision.tier
  if decision.tier ≠ .dormant then entered.clearDormantSnapshot key else entered

/-- The decision itself is what the caller is told. -/
def applyInput (input : TierInput) : TierController κ :=
  controller.recordDecision key (controller.policy.decide input)

inductive Call (κ : Type) where
  | applyInput (key : κ) (input : TierInput)
  | applyEvent (key : κ) (input : TierInput) (event : TierEvent)
  | setDormantSnapshot (key : κ) (snapshot : DormantTorrentSnapshot)
  | clearDormantSnapshot (key : κ)
  | remove (key : κ)

def step : Call κ → TierController κ
  | .applyInput key input => controller.applyInput key input
  | .applyEvent key input event => controller.applyInput key (event.apply input)
  | .setDormantSnapshot key snapshot => controller.setDormantSnapshot key snapshot
  | .clearDormantSnapshot key => controller.clearDormantSnapshot key
  | .remove key => controller.remove key

/-- The number of tracked keys in a tier. -/
def tracked (tier : TorrentActivityTier) : Nat :=
  (values controller.tiers).count tier

/-- The bytes of the snapshots that are kept. -/
def retained : Nat :=
  ((values controller.dormantSnapshots).map (·.estimateHeapBytes)).sum

/-- The map and the snapshots are in memory, so that a `usize` counts them. -/
def InMemory : Prop :=
  (∀ tier, controller.tracked tier < 2 ^ 64) ∧ controller.retained < 2 ^ 64

/-- The counters agree with the tables. -/
structure Booked : Prop where
  counts : ∀ tier, controller.tierCounts tier = controller.tracked tier
  dormant : ∀ key ∈ controller.dormantSnapshots, controller.tiers.lookup key = some .dormant
  heap : controller.dormantHeapBytes = controller.retained

variable {controller : TierController κ} {key : κ}

theorem clearDormantSnapshot_eq (heap : controller.dormantHeapBytes = controller.retained)
    (key : κ) : controller.clearDormantSnapshot key =
      { controller with
        dormantSnapshots := controller.dormantSnapshots.erase key
        dormantHeapBytes :=
          ((values (controller.dormantSnapshots.erase key)).map (·.estimateHeapBytes)).sum } := by
  rw [clearDormantSnapshot]
  split
  · rename_i absent
    rw [erase_of_lookup_none absent, ← retained, ← heap]
  · rename_i snapshot present
    have split := ((values_perm_erase present).map (·.estimateHeapBytes)).sum_nat
    rw [heap, retained, split, map_cons, sum_cons, Nat.add_sub_cancel_left]

theorem leave_eq (counts : ∀ tier, controller.tierCounts tier = controller.tracked tier)
    (tier : TorrentActivityTier) : controller.leave (controller.tiers.lookup key) tier =
      (values (controller.tiers.erase key)).count tier := by
  cases present : controller.tiers.lookup key with
  | none => rw [leave, counts, tracked, erase_of_lookup_none present]
  | some held =>
    have split := (values_perm_erase present).count_eq tier
    rw [count_cons, ← tracked, ← counts] at split
    rw [leave]
    by_cases same : held = tier
    · subst same
      rw [update_self, split, if_pos (beq_self_eq_true held), Nat.add_sub_cancel]
    · rw [update_of_ne (Ne.symm same), split, if_neg (by simpa using same), Nat.add_zero]

theorem Booked.clear (booked : controller.Booked) (key : κ) :
    (controller.clearDormantSnapshot key).Booked := by
  rw [clearDormantSnapshot_eq booked.heap]
  exact ⟨booked.counts, fun other member => booked.dormant other (mem_erase.mp member).2, rfl⟩

theorem Booked.set (booked : controller.Booked) {snapshot : DormantTorrentSnapshot}
    (inMemory : (controller.setDormantSnapshot key snapshot).InMemory) :
    (controller.setDormantSnapshot key snapshot).Booked := by
  have cleared := booked.clear key
  rw [setDormantSnapshot] at inMemory ⊢
  rw [clearDormantSnapshot_eq booked.heap] at cleared inMemory ⊢
  dsimp only at inMemory ⊢
  split_ifs at inMemory ⊢ with dormant
  · have room := inMemory.2
    have fresh := values_insert_fresh (lookup_erase key controller.dormantSnapshots) snapshot
    rw [retained, fresh, map_cons, sum_cons, Nat.add_comm] at room
    refine ⟨booked.counts, fun other member => ?_, ?_⟩
    · obtain rfl | member := (mem_insert _).mp member
      · exact dormant
      · exact cleared.dormant other member
    · rw [retained, fresh, map_cons, sum_cons, Nat.add_comm, saturatingAdd_of_lt room]
  · exact cleared

theorem Booked.remove (booked : controller.Booked) (key : κ) : (controller.remove key).Booked := by
  rw [TierController.remove, clearDormantSnapshot_eq booked.heap]
  refine ⟨leave_eq booked.counts, fun other member => ?_, rfl⟩
  obtain ⟨different, member⟩ := mem_erase.mp member
  exact (lookup_erase_ne different).trans (booked.dormant other member)

theorem enter_counts (counts : ∀ tier, controller.tierCounts tier = controller.tracked tier)
    {tier : TorrentActivityTier} (room : ∀ other, (controller.enter key tier).tracked other < 2 ^ 64)
    (other : TorrentActivityTier) :
    (controller.enter key tier).tierCounts other = (controller.enter key tier).tracked other := by
  have room := room other
  rw [tracked, enter, values_insert, count_cons, ← leave_eq counts] at room ⊢
  by_cases same : tier = other
  · subst same
    rw [if_pos (beq_self_eq_true tier)] at room ⊢
    exact (update_self ..).trans (saturatingAdd_of_lt room)
  · rw [if_neg (by simpa using same)]
    exact update_of_ne (Ne.symm same) ..

theorem Booked.record (booked : controller.Booked) {decision : TierDecision}
    (inMemory : (controller.recordDecision key decision).InMemory) :
    (controller.recordDecision key decision).Booked := by
  have others (other : κ) (different : other ≠ key) (member : other ∈ controller.dormantSnapshots) :
      (controller.enter key decision.tier).tiers.lookup other = some .dormant :=
    (lookup_insert_ne different).trans (booked.dormant other member)
  unfold recordDecision at inMemory ⊢
  split_ifs at inMemory ⊢ with active
  · have heap : (controller.enter key decision.tier).dormantHeapBytes = _ := booked.heap
    rw [clearDormantSnapshot_eq heap] at inMemory ⊢
    refine ⟨enter_counts booked.counts inMemory.1, fun other member => ?_, rfl⟩
    obtain ⟨different, member⟩ := mem_erase.mp member
    exact others other different member
  · refine ⟨enter_counts booked.counts inMemory.1, fun other member => ?_, booked.heap⟩
    by_cases same : other = key
    · subst same
      exact (lookup_insert _).trans (congrArg some (not_not.mp active))
    · exact others other same member

/-- Any run of calls leaves every counter equal to what the tables hold. -/
theorem counters_agree_with_tables (policy : TierPolicy) {calls : List (Call κ)}
    (inMemory : Runs.Each step (fun controller call => (controller.step call).InMemory) (new policy)
      calls) : (calls.foldl step (new policy)).Booked := by
  refine Runs.foldl_invariant (fun {controller call} booked inMemory => ?_) ?_ inMemory
  · cases call with
    | applyInput key input => exact booked.record inMemory
    | applyEvent key input event => exact booked.record inMemory
    | setDormantSnapshot key snapshot => exact booked.set inMemory
    | clearDormantSnapshot key => exact booked.clear key
    | remove key => exact booked.remove key
  · exact ⟨fun _ => rfl, fun _ member => (AList.notMem_empty _ member).elim, rfl⟩

theorem paused_torrent_booked :
    let calls : List (Call Nat) :=
      [.applyInput 0 ⟨.paused, 0, 0, false, false, none, 0⟩, .setDormantSnapshot 0 ⟨40⟩]
    (calls.foldl step (new ⟨1800, 120⟩)).Booked := by
  refine counters_agree_with_tables ⟨1800, 120⟩ ⟨?_, ?_, trivial⟩
  all_goals exact ⟨fun tier => by cases tier <;> decide, by decide⟩

end TierController

end TorrentNG.Tiers
