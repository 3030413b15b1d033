import TorrentNG.Tables

/-!
# The upload slots

`Choker::run` of `rt-peer-manager/src/choker.rs`. The interested peers with the highest rates
get the regular slots, and one more peer the optimistic slot. That peer is remembered until the
slot rotates, whatever becomes of it: when it has left, has lost interest or was given a regular
slot, the optimistic slot stays empty. Rates are totally ordered, so none is a NaN; times are
nanoseconds.
-/

namespace TorrentNG.Choking

open List Tables

def defaultMaxUnchoked : Nat := 4

def optimisticRotateInterval : Nat := 30 * 1_000_000_000

inductive ChokeDecision where
  | unchoke
  | choke
deriving DecidableEq

structure PeerSnapshot (ι ρ : Type) where
  id : ι
  interested : Bool
  uploadRate : ρ
deriving DecidableEq

/-- What a round is given: one snapshot for each peer, and the two readings of the clock. -/
structure Round (ι ρ : Type) where
  elapsedAt : Nat
  rotatedAt : Nat
  peers : List (PeerSnapshot ι ρ)
  distinct : (peers.map (·.id)).Nodup

structure Choker (ι : Type) where
  maxUnchoked : Nat
  optimisticId : Option ι
  lastOptimisticRotate : Nat

variable {ι ρ : Type}

theorem lookup_decisions [DecidableEq ι] {peers : List (PeerSnapshot ι ρ)}
    (distinct : (peers.map (·.id)).Nodup) (decision : PeerSnapshot ι ρ → ChokeDecision)
    {peer : PeerSnapshot ι ρ} (member : peer ∈ peers) :
    (peers.foldl (fun (decisions : Table ι ChokeDecision) peer =>
      decisions.insert peer.id (decision peer)) ∅).lookup peer.id = some (decision peer) := by
  induction peers using List.reverseRecOn with
  | nil => cases member
  | append_singleton front last ih =>
    rw [map_append, nodup_append] at distinct
    rw [foldl_append]
    rcases mem_append.mp member with early | here
    · have different := distinct.2.2 _ (mem_map_of_mem early) last.id mem_cons_self
      exact (AList.lookup_insert_ne different).trans (ih distinct.1 early)
    · obtain rfl := mem_singleton.mp here
      exact AList.lookup_insert _

variable [LinearOrder ρ]

/-- The interested peers, the fastest first. -/
def Round.interested (round : Round ι ρ) : List (PeerSnapshot ι ρ) :=
  (round.peers.filter (·.interested)).insertionSort fun left right =>
    right.uploadRate ≤ left.uploadRate

namespace Choker

def new (maxUnchoked now : Nat) : Choker ι := ⟨maxUnchoked, none, now⟩

variable (choker : Choker ι) (round : Round ι ρ)

def regular : List (PeerSnapshot ι ρ) := round.interested.take choker.maxUnchoked

/-- The interested peers without a regular slot. -/
def waiting : List (PeerSnapshot ι ρ) := round.interested.drop choker.maxUnchoked

def rotates : Bool :=
  decide (optimisticRotateInterval ≤ round.elapsedAt - choker.lastOptimisticRotate) ||
    choker.optimisticId.isNone

def rotated : Choker ι :=
  if choker.rotates round then
    match (choker.waiting round).head? with
    | some peer =>
        { choker with optimisticId := some peer.id, lastOptimisticRotate := round.rotatedAt }
    | none => choker
  else choker

variable [DecidableEq ι]

def decision (peer : PeerSnapshot ι ρ) : ChokeDecision :=
  let inRegular := ((choker.regular round).map (·.id)).contains peer.id
  let inOptimistic := decide ((choker.rotated round).optimisticId = some peer.id)
  if (inRegular || inOptimistic) && peer.interested then .unchoke else .choke

def run : Choker ι × Table ι ChokeDecision :=
  (choker.rotated round,
    round.peers.foldl (fun decisions peer => decisions.insert peer.id (choker.decision round peer)) ∅)

/-- The peers that a round unchokes. -/
def unchoked : List (PeerSnapshot ι ρ) :=
  round.peers.filter fun peer => decide ((choker.run round).2.lookup peer.id = some .unchoke)

/-- The choker after a sequence of rounds. -/
def after (rounds : List (Round ι ρ)) : Choker ι :=
  rounds.foldl (fun choker round => (choker.run round).1) choker

end Choker

/-- All slots are in use: the regular ones by the interested peers with the highest rates. -/
structure SlotsUsed (maxUnchoked : Nat) (peers unchoked : List (PeerSnapshot ι ρ)) : Prop where
  count : unchoked.length = maxUnchoked + 1
  fastest : ∃ regular : List (PeerSnapshot ι ρ), regular.length = maxUnchoked ∧ regular.Nodup ∧
    regular ⊆ unchoked ∧ ∀ peer ∈ peers, peer.interested = true → peer ∉ regular →
      ∀ faster ∈ regular, peer.uploadRate ≤ faster.uploadRate

section Rounds

variable (round : Round ι ρ)

theorem interested_perm : round.interested.Perm (round.peers.filter (·.interested)) :=
  perm_insertionSort _ _

theorem interested_nodup : (round.interested.map (·.id)).Nodup :=
  ((interested_perm round).map _).nodup_iff.mpr (round.distinct.sublist (filter_sublist.map _))

theorem interested_sorted :
    round.interested.Pairwise fun left right => right.uploadRate ≤ left.uploadRate := by
  exact pairwise_insertionSort _ _

end Rounds

namespace Choker

variable (choker : Choker ι) (round : Round ι ρ)

theorem interested_split : choker.regular round ++ choker.waiting round = round.interested :=
  take_append_drop _ _

theorem waiting_nodup : ((choker.waiting round).map (·.id)).Nodup :=
  (interested_nodup round).sublist ((drop_sublist _ _).map _)

/-- A slot that rotates goes to a waiting peer, one that does not stays with the same peer. -/
theorem remembered_iff (crowded : choker.maxUnchoked < round.interested.length) :
    (∃ peer ∈ choker.waiting round, (choker.rotated round).optimisticId = some peer.id) ↔
      choker.rotates round = true ∨
        ∃ peer ∈ choker.waiting round, choker.optimisticId = some peer.id := by
  have some : 0 < (choker.waiting round).length := by
    rw [waiting, length_drop]
    omega
  obtain ⟨first, rest, split⟩ := exists_cons_of_length_pos some
  unfold rotated
  cases rotates : choker.rotates round with
  | true => simp [split]
  | false => simp

theorem rotated_maxUnchoked : (choker.rotated round).maxUnchoked = choker.maxUnchoked := by
  unfold rotated
  split
  · split <;> rfl
  · rfl

/-- A rotation chooses the first peer that waits, also where it has the slot already. Without one
the slot stays as it was. -/
theorem rotated_optimisticId {first : PeerSnapshot ι ρ}
    (waits : (choker.waiting round).head? = some first) : (choker.rotated round).optimisticId =
      if choker.rotates round then some first.id else choker.optimisticId := by
  rw [rotated, waits]
  split_ifs <;> rfl

variable [DecidableEq ι]

theorem after_maxUnchoked (rounds : List (Round ι ρ)) :
    (choker.after rounds).maxUnchoked = choker.maxUnchoked :=
  List.foldlRecOn (motive := fun later : Choker ι => later.maxUnchoked = choker.maxUnchoked)
    rounds _ rfl fun choker same round _ => (rotated_maxUnchoked choker round).trans same

theorem after_waiting (rounds : List (Round ι ρ)) :
    (choker.after rounds).waiting round = choker.waiting round := by
  rw [waiting, after_maxUnchoked, waiting]

/-- A peer is unchoked if it has a slot and is interested. -/
theorem unchoked_eq : choker.unchoked round = round.peers.filter fun peer =>
    (((choker.regular round).map (·.id)).contains peer.id ||
      decide ((choker.rotated round).optimisticId = some peer.id)) && peer.interested := by
  refine filter_congr fun peer member => ?_
  have decided : (choker.run round).2.lookup peer.id = some (choker.decision round peer) :=
    lookup_decisions round.distinct _ member
  rw [decided, decision]
  split <;> simp_all

/-- The regular slots, and the remembered peer if it is among those without one. -/
theorem unchoked_perm : (choker.unchoked round).Perm (choker.regular round ++
    (choker.waiting round).filter fun peer =>
      decide ((choker.rotated round).optimisticId = some peer.id)) := by
  have distinct := interested_nodup round
  rw [← interested_split choker, map_append, nodup_append] at distinct
  rw [unchoked_eq, ← filter_filter]
  refine ((interested_perm round).symm.filter _).trans (List.Perm.of_eq ?_)
  rw [← interested_split choker, filter_append]
  congr 1
  · refine filter_eq_self.mpr fun peer member => ?_
    rw [contains_iff_mem.mpr (mem_map_of_mem member), Bool.true_or]
  · refine filter_congr fun peer member => ?_
    have apart : ((choker.regular round).map (·.id)).contains peer.id = false := by
      rw [← Bool.not_eq_true, contains_iff_mem]
      exact fun inside => distinct.2.2 _ inside _ (mem_map_of_mem member) rfl
    rw [apart, Bool.false_or]

/-- Ids are distinct, so at most one peer has the optimistic slot. -/
theorem remembered_le_one (remembered : Option ι) :
    ((choker.waiting round).filter fun peer => decide (remembered = some peer.id)).length ≤ 1 := by
  have distinct := (waiting_nodup choker round).map (Option.some_injective ι)
  have once := nodup_iff_count_le_one.mp distinct remembered
  rw [map_map, List.count, countP_map] at once
  rw [← countP_eq_length_filter]
  refine le_trans (le_of_eq (countP_congr fun peer _ => ?_)) once
  simp only [decide_eq_true_eq, Function.comp_apply, beq_iff_eq]
  exact eq_comm

theorem unchoked_length : (choker.unchoked round).length = (choker.regular round).length + 1 ↔
    ∃ peer ∈ choker.waiting round, (choker.rotated round).optimisticId = some peer.id := by
  have length := (unchoked_perm choker round).length_eq
  have atMost := remembered_le_one choker round (choker.rotated round).optimisticId
  have present := length_pos_iff_exists_mem (l := (choker.waiting round).filter fun peer =>
    decide ((choker.rotated round).optimisticId = some peer.id))
  simp only [mem_filter, decide_eq_true_eq] at present
  rw [length_append] at length
  rw [← present]
  omega

/-- After any rounds, the next one unchokes no uninterested peer. If more peers are interested
than there are regular slots, it uses all slots exactly when it rotates the optimistic slot or
the remembered peer is interested and has no regular slot. -/
theorem slots_used_iff (maxUnchoked created : Nat) (rounds : List (Round ι ρ)) (round : Round ι ρ) :
    let choker : Choker ι := (new maxUnchoked created).after rounds
    (∀ peer ∈ choker.unchoked round, peer.interested = true) ∧
    (maxUnchoked < (round.peers.filter (·.interested)).length →
      (SlotsUsed maxUnchoked round.peers (choker.unchoked round) ↔
        choker.rotates round = true ∨
          ∃ peer ∈ choker.waiting round, choker.optimisticId = some peer.id)) := by
  intro choker
  have slots : choker.maxUnchoked = maxUnchoked := after_maxUnchoked _ rounds
  clear_value choker
  subst slots
  constructor
  · intro peer unchoked
    rw [unchoked_eq] at unchoked
    exact (Bool.and_eq_true_iff.mp (List.mem_filter.mp unchoked).2).2
  · intro crowded
    rw [← (interested_perm round).length_eq] at crowded
    have full : (choker.regular round).length = choker.maxUnchoked := by
      rw [regular, List.length_take]
      omega
    rw [← remembered_iff choker round crowded, ← unchoked_length, full]
    refine ⟨fun used => used.count, fun count => ⟨count, choker.regular round, full, ?_, ?_, ?_⟩⟩
    · exact ((interested_nodup round).sublist ((List.take_sublist _ _).map _)).of_map _
    · intro peer member
      exact (unchoked_perm choker round).mem_iff.mpr (List.mem_append_left _ member)
    · intro peer member interested outside faster inside
      have listed : peer ∈ round.interested :=
        (interested_perm round).mem_iff.mpr (List.mem_filter.mpr ⟨member, interested⟩)
      have sorted := interested_sorted round
      rw [← interested_split choker] at listed sorted
      exact (List.pairwise_append.mp sorted).2.2 faster inside peer
        ((List.mem_append.mp listed).resolve_left outside)

/-- Interested peers, presented in an order. -/
def ratedPeers (rate : Nat → Nat) (ids : List Nat) (distinct : ids.Nodup) (now : Nat) :
    Round Nat Nat where
  elapsedAt := now
  rotatedAt := now
  peers := ids.map fun id => ⟨id, true, rate id⟩
  distinct := by simpa [Function.comp_def] using distinct

/-- Interested peers, the first one the fastest. -/
def interestedPeers := ratedPeers (100 - ·)

/-- Six peers, of which the fifth gets the optimistic slot and leaves. Ten seconds later five
peers are interested, and only four of them are unchoked. -/
theorem departed_peer_keeps_slot :
    let choker := (new defaultMaxUnchoked 0).after [interestedPeers [1, 2, 3, 4, 5, 6] (by decide) 0]
    let round := interestedPeers [1, 2, 3, 4, 6] (by decide) 10_000_000_000
    defaultMaxUnchoked < (round.peers.filter (·.interested)).length ∧
      (choker.unchoked round).map (·.id) = [1, 2, 3, 4] ∧
      ¬SlotsUsed defaultMaxUnchoked round.peers (choker.unchoked round) := by
  refine ⟨by decide, by decide, fun used => ?_⟩
  have count := used.count
  revert count
  decide

/-! ## Rotation of the optimistic slot -/

/-- In some round of the window the peer has the optimistic slot. -/
def Holds (choker : Choker ι) (window : List (Round ι ρ)) (peer : PeerSnapshot ι ρ) : Prop :=
  ∃ rounds, rounds <+: window ∧ rounds ≠ [] ∧ (choker.after rounds).optimisticId = some peer.id

/-- In some round of the window the slot rotates while the peer is the first that waits. -/
def FirstAtExpiry (choker : Choker ι) (window : List (Round ι ρ)) (peer : PeerSnapshot ι ρ) : Prop :=
  ∃ earlier round, earlier ++ [round] <+: window ∧ (choker.after earlier).rotates round = true ∧
    (choker.waiting round).head? = some peer

/-- Who has the slot got it at the last rotation, where it was the first that waits. The induction
goes back over the rounds in which the slot does not rotate. -/
theorem holder_was_first {choker : Choker ι} {rounds window : List (Round ι ρ)}
    (waits : ∀ round ∈ rounds, ∃ first, (choker.waiting round).head? = some first)
    (expiry : ∀ round ∈ rounds.head?, choker.rotates round = true) (inside : rounds <+: window)
    (run : rounds ≠ []) : ∃ peer, choker.FirstAtExpiry window peer ∧
      (choker.after rounds).optimisticId = some peer.id := by
  induction rounds using List.reverseRecOn with
  | nil => exact absurd rfl run
  | append_singleton earlier round ih =>
    obtain ⟨first, front⟩ := waits round (by simp)
    have chosen := rotated_optimisticId (choker.after earlier) round
      ((after_waiting choker round earlier).symm ▸ front)
    rw [after, foldl_append]
    cases rotates : (choker.after earlier).rotates round with
    | true =>
      rw [if_pos rotates] at chosen
      exact ⟨first, ⟨earlier, round, inside, rotates, front⟩, chosen⟩
    | false =>
      rw [if_neg (by simp [rotates])] at chosen
      have some : earlier ≠ [] := by
        rintro rfl
        exact absurd (expiry round rfl) (by simpa [after] using rotates)
      obtain ⟨peer, was, has⟩ := ih (fun round member => waits round (mem_append_left _ member))
        (by rwa [head?_append_of_ne_nil _ some] at expiry)
        ((prefix_append earlier [round]).trans inside) some
      exact ⟨peer, was, chosen.trans has⟩

/-- The same interested peers with the same rates are presented in every round, in any order, and
more of them than there are regular slots. In a window that starts with an expiry a peer has the
optimistic slot exactly if it is the first of those that wait in a round of the window that
rotates it. If peers of one rate are always presented in the same order, then all that wait get
the slot exactly if only one does, however often it rotates. -/
theorem rotation_covers_iff (maxUnchoked created : Nat) (interested : List (PeerSnapshot ι ρ))
    (crowded : maxUnchoked < interested.length) (before window : List (Round ι ρ))
    (rounds : window ≠ []) (same : ∀ round ∈ window, round.interested.Perm interested) :
    let choker := (new maxUnchoked created).after before
    (∀ round ∈ window.head?, choker.rotates round = true) →
    (∀ peer ∈ interested, choker.Holds window peer ↔ choker.FirstAtExpiry window peer) ∧
    ((∀ round ∈ window, round.interested = interested) →
      ((∀ peer ∈ interested.drop maxUnchoked, choker.Holds window peer) ↔
        (interested.drop maxUnchoked).length = 1)) := by
  intro choker expiry
  have slots : choker.maxUnchoked = maxUnchoked := after_maxUnchoked _ before
  clear_value choker
  subst slots
  have waits : ∀ round ∈ window, ∃ first, (choker.waiting round).head? = some first := by
    intro round member
    rw [waiting, List.head?_drop]
    exact ⟨_, List.getElem?_eq_getElem ((same round member).length_eq.symm ▸ crowded)⟩
  have exact : ∀ peer ∈ interested, choker.Holds window peer ↔ choker.FirstAtExpiry window peer := by
    intro peer present
    constructor
    · rintro ⟨passed, ⟨later, rfl⟩, run, has⟩
      rw [List.head?_append_of_ne_nil _ run] at expiry
      obtain ⟨first, was, holds⟩ := holder_was_first
        (fun round member => waits round (List.mem_append_left _ member)) expiry
        (List.prefix_append passed later) run
      obtain ⟨earlier, round, inside, rotates, front⟩ := was
      have member : round ∈ passed ++ later := inside.subset (by simp)
      have order := same round member
      have distinct := (order.map (·.id)).nodup_iff.mp (interested_nodup round)
      have listed := order.mem_iff.mp (List.mem_of_mem_drop (List.mem_of_head? front))
      have known : first.id = peer.id := Option.mem_unique holds has
      rw [List.inj_on_of_nodup_map distinct listed present known] at front
      exact ⟨earlier, round, inside, rotates, front⟩
    · rintro ⟨earlier, round, inside, rotates, front⟩
      refine ⟨earlier ++ [round], inside, by simp, ?_⟩
      rw [← after_waiting choker round earlier] at front
      rw [after, List.foldl_append]
      exact (rotated_optimisticId _ round front).trans (if_pos rotates)
  refine ⟨exact, fun fixed => ?_⟩
  obtain ⟨first, others, split⟩ : ∃ first others,
      interested.drop choker.maxUnchoked = first :: others :=
    List.exists_cons_of_length_pos (by rw [List.length_drop]; omega)
  have heads : ∀ round ∈ window, (choker.waiting round).head? = some first := by
    intro round member
    rw [waiting, fixed round member, split]
    rfl
  rw [split]
  constructor
  · intro covered
    have all : ∀ peer ∈ first :: others, peer = first := by
      intro peer member
      have present : peer ∈ interested := List.mem_of_mem_drop (split ▸ member)
      obtain ⟨earlier, round, inside, -, front⟩ := (exact peer present).mp (covered peer member)
      exact Option.some.inj (front.symm.trans (heads round (inside.subset (by simp))))
    obtain ⟨round, member⟩ := List.exists_mem_of_ne_nil window rounds
    have distinct := (waiting_nodup choker round).of_map
    rw [waiting, fixed round member, split] at distinct
    rw [List.eq_replicate_of_mem all, List.nodup_replicate] at distinct
    exact le_antisymm distinct (Nat.succ_pos _)
  · intro alone peer member
    obtain rfl := List.length_eq_zero_iff.mp (Nat.succ.inj alone)
    obtain rfl := List.mem_singleton.mp member
    obtain ⟨round, later, rfl⟩ := List.exists_cons_of_ne_nil rounds
    refine (exact peer (List.mem_of_mem_drop (split ▸ member))).mpr ⟨[], round, ?_, ?_, ?_⟩
    · exact List.prefix_append [round] later
    · exact expiry round rfl
    · exact heads round List.mem_cons_self

/-- Three peers of one rate and one regular slot. The two that wait change places between the
expiries, and both get the slot. -/
theorem tied_peers_take_turns :
    let tied := ratedPeers fun _ => 0
    let choker := (new 1 0).after [tied [1, 2, 3] (by decide) 0]
    let window := [tied [1, 3, 2] (by decide) 30_000_000_000, tied [1, 2, 3] (by decide) 60_000_000_000]
    choker.Holds window ⟨2, true, 0⟩ ∧ choker.Holds window ⟨3, true, 0⟩ := by
  intro tied choker window
  have exact := (rotation_covers_iff 1 0 (tied [1, 2, 3] (by decide) 0).interested (by decide)
    [tied [1, 2, 3] (by decide) 0] window (by simp) (by decide) (by decide)).1
  refine ⟨(exact _ (by decide)).mpr ⟨window.take 1, _, List.prefix_rfl, by decide, rfl⟩,
    (exact _ (by decide)).mpr ⟨[], _, List.prefix_append [_] _, by decide, rfl⟩⟩

/-- Six peers, of which the last two wait. The slot rotates twice and stays with the fifth. -/
theorem sixth_peer_never_chosen :
    let presented := interestedPeers [1, 2, 3, 4, 5, 6] (by decide)
    let choker := (new defaultMaxUnchoked 0).after [presented 0]
    let window := [presented 30_000_000_000, presented 60_000_000_000]
    window.inits.map (fun rounds => (choker.after rounds).lastOptimisticRotate) =
        [0, 30_000_000_000, 60_000_000_000] ∧
      ¬∀ peer ∈ choker.waiting (presented 0), choker.Holds window peer := by
  intro presented choker window
  refine ⟨by decide, fun covered => ?_⟩
  obtain ⟨rounds, inside, -, has⟩ := covered ⟨6, true, 94⟩ (List.mem_of_getElem? (i := 1) rfl)
  have never : ∀ rounds ∈ window.inits, (choker.after rounds).optimisticId ≠ some 6 := by decide
  exact never rounds ((List.mem_inits _ _).mpr inside) has

end Choker

end TorrentNG.Choking
