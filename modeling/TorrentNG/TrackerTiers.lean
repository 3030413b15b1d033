import Mathlib.Algebra.Order.BigOperators.Ring.Finset

/-!
# The tiers of trackers

`TierSet` of `rt-tracker/src/tier.rs`. A failure moves the cursor of the active tier forward. At
the last tracker it makes the next tier active instead and leaves the cursor where it is, so that
of several tiers each is walked through once, and from then on only its last tracker is tried. A
success swaps the active tracker with the first one of its tier, which changes the order of the
others from the third place on.
-/

namespace TorrentNG.Tracker

open List

structure Tier (τ : Type) where
  trackers : List τ
  active : Nat
deriving DecidableEq

structure TierSet (τ : Type) where
  tiers : List (Tier τ)
  activeTier : Nat

variable {τ : Type}

namespace Tier

def new (trackers : List τ) : Tier τ := ⟨trackers, 0⟩

def swap (trackers : List τ) (left right : Nat) : List τ :=
  match trackers[left]?, trackers[right]? with
  | some first, some second => (trackers.set left second).set right first
  | _, _ => trackers

def promoteActive (tier : Tier τ) : Tier τ :=
  if 0 < tier.active ∧ tier.active < tier.trackers.length then
    ⟨swap tier.trackers 0 tier.active, 0⟩
  else tier

/-- The active tracker comes first and the others follow in their order. -/
def MovesToFront (tier : Tier τ) : Prop :=
  ∀ chosen, tier.trackers[tier.active]? = some chosen →
    tier.promoteActive = ⟨chosen :: tier.trackers.eraseIdx tier.active, 0⟩

end Tier

namespace TierSet

def new (tiers : List (List τ)) : TierSet τ := ⟨tiers.map Tier.new, 0⟩

variable (set : TierSet τ)

def advanceOnFailure : TierSet τ :=
  let nTiers := set.tiers.length
  let tierLen := (set.tiers[set.activeTier]?.map fun tier => max tier.trackers.length 1).getD 1
  let currentActive := (set.tiers[set.activeTier]?.map (·.active)).getD 0
  let next := (currentActive + 1) % tierLen
  if next = 0 ∧ 1 < nTiers then { set with activeTier := (set.activeTier + 1) % nTiers }
  else
    let tiers := set.tiers.modify set.activeTier fun tier => { tier with active := next }
    { set with tiers }

/-- The place of the active tracker: its tier, and its index there. -/
def position : Nat × Nat :=
  (set.activeTier, (set.tiers[set.activeTier]?.map (·.active)).getD 0)

def trackerCount : Nat := (set.tiers.map (·.trackers.length)).sum

/-- Within as many failures as there are trackers, each of them is active. -/
def Covered : Prop :=
  ∀ index tier, set.tiers[index]? = some tier → ∀ place < tier.trackers.length,
    ∃ calls ≤ set.trackerCount, (advanceOnFailure^[calls] set).position = (index, place)

/-- There is a tier, and the cursors are inside; that of an empty tier is at the start. -/
structure Valid (set : TierSet τ) : Prop where
  tier : set.activeTier < set.tiers.length
  cursors : ∀ tier ∈ set.tiers, tier.active < max tier.trackers.length 1

end TierSet

theorem Tier.append_singleton_eq_cons {first : τ} {middle : List τ} :
    middle ++ [first] = first :: middle ↔ ∀ tracker ∈ middle, first = tracker := by
  induction middle with
  | nil => simp
  | cons second others ih =>
    rw [cons_append, List.cons.injEq, forall_mem_cons, ← ih]
    exact (and_congr_right fun same => by rw [same]).trans (and_congr_left' eq_comm)

/-- Promotion keeps the order of the others if those in front of the active one are the same. -/
theorem Tier.movesToFront_iff (tier : Tier τ) (inside : tier.active < max tier.trackers.length 1) :
    tier.MovesToFront ↔ ∀ tracker ∈ tier.trackers.take tier.active,
      tier.trackers.head? = some tracker := by
  obtain ⟨_ | ⟨first, others⟩, _ | place⟩ := tier
  · exact iff_of_true nofun nofun
  · cases Nat.lt_of_succ_lt_succ inside
  · simp [MovesToFront, promoteActive]
  · obtain ⟨middle, chosen, rest, rfl, rfl⟩ : ∃ middle chosen rest,
        others = middle ++ chosen :: rest ∧ place = middle.length := by
      have inside : place < others.length := by simpa using inside
      exact ⟨others.take place, others[place], others.drop (place + 1), by simp, by simp; omega⟩
    have erased : (middle ++ chosen :: rest).eraseIdx middle.length = middle ++ rest := by
      rw [eraseIdx_append_of_length_le le_rfl, Nat.sub_self, eraseIdx_zero, tail_cons]
    have same : middle ++ first :: rest = first :: (middle ++ rest) ↔
        ∀ tracker ∈ middle, first = tracker := by
      rw [append_cons, ← cons_append, append_left_inj, append_singleton_eq_cons]
    simp [MovesToFront, promoteActive, swap, erased, same, or_imp, forall_and, eq_comm]

namespace TierSet

variable {set : TierSet τ} {index : Nat} {tier : Tier τ}

/-- With several tiers, a failure starts no tier again. -/
theorem advance_cursor (several : 1 < set.tiers.length) (known : set.tiers[index]? = some tier) :
    1 < set.advanceOnFailure.tiers.length ∧
      ∃ cursor, set.advanceOnFailure.tiers[index]? = some { tier with active := cursor } ∧
        (0 < tier.active → 0 < cursor) := by
  unfold advanceOnFailure
  dsimp only
  split_ifs with last
  · exact ⟨several, tier.active, known, id⟩
  · rw [length_modify, List.getElem?_modify, known]
    refine ⟨several, ?_⟩
    by_cases here : set.activeTier = index
    · exact ⟨_, congrArg some (if_pos here), fun _ => Nat.pos_of_ne_zero fun none =>
        last ⟨none, several⟩⟩
    · exact ⟨tier.active, congrArg some (if_neg here), id⟩

theorem iterate_cursor (several : 1 < set.tiers.length) (known : set.tiers[index]? = some tier)
    (calls : Nat) : 1 < (advanceOnFailure^[calls] set).tiers.length ∧
      ∃ cursor, (advanceOnFailure^[calls] set).tiers[index]? = some { tier with active := cursor } ∧
        (0 < tier.active → 0 < cursor) := by
  induction calls generalizing set tier with
  | zero => exact ⟨several, tier.active, known, id⟩
  | succ calls ih =>
    obtain ⟨several, cursor, moved, kept⟩ := advance_cursor several known
    obtain ⟨several, later, found, started⟩ := ih several moved
    exact ⟨several, later, found, started ∘ kept⟩

theorem active_of_position (known : set.tiers[index]? = some tier) {place : Nat}
    (reached : set.position = (index, place)) : tier.active = place := by
  obtain ⟨rfl, same⟩ := Prod.mk.inj reached
  simpa [known] using same

/-- A counter modulo its bound takes every value within one round. -/
theorem exists_add_mod (start : Nat) {bound value : Nat} (below : value < bound) :
    ∃ calls < bound, (start + calls) % bound = value := by
  refine ⟨(value + (bound - start % bound)) % bound, Nat.mod_lt _ (by omega), ?_⟩
  have small := Nat.mod_lt start (show 0 < bound by omega)
  rw [Nat.add_mod_mod, ← Nat.mod_add_mod, show start % bound + (value + (bound - start % bound)) =
    value + bound by omega, Nat.add_mod_right, Nat.mod_eq_of_lt below]

theorem iterate_single {trackers : List τ} {active : Nat} (inside : active < max trackers.length 1)
    (calls : Nat) : advanceOnFailure^[calls] ⟨[⟨trackers, active⟩], 0⟩ =
      ⟨[⟨trackers, (active + calls) % max trackers.length 1⟩], 0⟩ := by
  induction calls with
  | zero => simp [Nat.mod_eq_of_lt inside]
  | succ calls ih =>
    rw [Function.iterate_succ_apply', ih]
    simp [advanceOnFailure, Nat.add_assoc]

/-- The trackers of a single tier are taken in turn. -/
theorem single_covered (valid : set.Valid) (single : set.tiers.length = 1) (start : Nat) :
    (advanceOnFailure^[start] set).Covered := by
  intro index tier known place below
  obtain ⟨tiers, current⟩ := set
  obtain ⟨only, rfl⟩ := length_eq_one_iff.mp single
  obtain rfl : current = 0 := by simpa using valid.tier
  have inside := valid.cursors only mem_cons_self
  rw [iterate_single inside] at known
  cases index with
  | succ index => simp at known
  | zero =>
    obtain rfl := Option.some.inj known
    have some : max only.trackers.length 1 = only.trackers.length :=
      Nat.max_eq_left (Nat.zero_lt_of_lt below)
    obtain ⟨calls, few, value⟩ := exists_add_mod (only.active + start) below
    refine ⟨calls, ?_, ?_⟩
    · rw [iterate_single inside]
      simpa [trackerCount] using few.le
    · rw [← Function.iterate_add_apply, iterate_single inside, Nat.add_comm calls, ← Nat.add_assoc,
        some, value]
      rfl

/-- Tiers of at most one tracker are taken in turn, the empty ones too. -/
theorem iterate_alone (valid : set.Valid) (several : 1 < set.tiers.length)
    (alone : ∀ tier ∈ set.tiers, tier.trackers.length ≤ 1) (calls : Nat) :
    advanceOnFailure^[calls] set =
      { set with activeTier := (set.activeTier + calls) % set.tiers.length } := by
  induction calls with
  | zero => simp [Nat.mod_eq_of_lt valid.tier]
  | succ calls ih =>
    have inside := Nat.mod_lt (set.activeTier + calls) (show 0 < set.tiers.length by omega)
    have length := Nat.max_eq_right (alone _ (getElem_mem inside))
    rw [Function.iterate_succ_apply', ih]
    simp [advanceOnFailure, length, several, Nat.add_assoc, inside, Nat.mod_one]

/-- Of tiers with at most one tracker each, there are as many trackers as tiers that are not
empty. -/
theorem trackerCount_add (alone : ∀ tier ∈ set.tiers, tier.trackers.length ≤ 1) :
    set.trackerCount + set.tiers.countP (·.trackers.isEmpty) = set.tiers.length := by
  obtain ⟨tiers, _⟩ := set
  rw [trackerCount]
  induction tiers with
  | nil => rfl
  | cons tier rest ih =>
    obtain ⟨few, others⟩ := forall_mem_cons.mp alone
    have rest := ih others
    obtain ⟨_ | ⟨first, _ | _⟩, cursor⟩ := tier
    · simp only [map_cons, sum_cons, countP_cons, length_cons] at rest ⊢
      simp; omega
    · simp only [map_cons, sum_cons, countP_cons, length_cons] at rest ⊢
      simp; omega
    · simp at few

/-- Tiers of at most one tracker: the tiers that are not empty have to come up in time. -/
theorem covered_alone (valid : set.Valid) (several : 1 < set.tiers.length)
    (alone : ∀ tier ∈ set.tiers, tier.trackers.length ≤ 1) (start : Nat) :
    (advanceOnFailure^[start] set).Covered ↔ ∀ index tier, set.tiers[index]? = some tier →
      tier.trackers ≠ [] → ∃ calls ≤ set.trackerCount,
        (set.activeTier + start + calls) % set.tiers.length = index := by
  have position (calls : Nat) : (advanceOnFailure^[calls] (advanceOnFailure^[start] set)).position =
      ((set.activeTier + start + calls) % set.tiers.length, 0) := by
    have inside := Nat.mod_lt (set.activeTier + start + calls) (show 0 < set.tiers.length by omega)
    have first := valid.cursors _ (getElem_mem inside)
    rw [Nat.max_eq_right (alone _ (getElem_mem inside)), Nat.lt_one_iff] at first
    rw [← Function.iterate_add_apply, iterate_alone valid several alone, TierSet.position,
      Nat.add_comm calls, ← Nat.add_assoc]
    simp [inside, first]
  have same := iterate_alone valid several alone start
  simp only [Covered, position, Prod.mk.injEq]
  rw [trackerCount, same, ← trackerCount]
  refine forall₂_congr fun index tier => forall_congr' fun known => ?_
  have few := alone tier (mem_of_getElem? known)
  constructor
  · intro covered some
    obtain ⟨calls, within, reached, -⟩ := covered 0 (length_pos_iff.mpr some)
    exact ⟨calls, within, reached⟩
  · intro covered place below
    obtain ⟨calls, within, reached⟩ := covered (ne_nil_of_length_pos (by omega))
    exact ⟨calls, within, reached, by omega⟩

/-- From every point of a run of failures all trackers become active exactly when there is only
one tier, or no tier has more than one tracker and at most one of them is empty, or all are.
Promotion keeps the order of the other trackers exactly when those in front of the active one
are the same. -/
theorem tiers_covered_iff (set : TierSet τ) (valid : set.Valid) :
    ((∀ start, (advanceOnFailure^[start] set).Covered) ↔
      set.tiers.length = 1 ∨ (∀ tier ∈ set.tiers, tier.trackers.length ≤ 1) ∧
        (set.tiers.countP (·.trackers.isEmpty) ≤ 1 ∨ ∀ tier ∈ set.tiers, tier.trackers = [])) ∧
    ∀ tier ∈ set.tiers, (tier.MovesToFront ↔
      ∀ tracker ∈ tier.trackers.take tier.active, tier.trackers.head? = some tracker) := by
  refine ⟨?_, fun tier member => tier.movesToFront_iff (valid.cursors tier member)⟩
  by_cases single : set.tiers.length = 1
  · exact iff_of_true (single_covered valid single) (.inl single)
  have several : 1 < set.tiers.length := by
    have inside := valid.tier
    omega
  rw [or_iff_right single]
  by_cases alone : ∀ tier ∈ set.tiers, tier.trackers.length ≤ 1
  · rw [and_iff_right alone]
    simp only [covered_alone valid several alone]
    have count := trackerCount_add alone
    constructor
    · -- the tier that has just had its turn is the last one to come up again
      intro covered
      rw [or_iff_not_imp_right]
      intro some
      simp only [not_forall, exists_prop] at some
      obtain ⟨tier, member, some⟩ := some
      obtain ⟨index, known⟩ := List.getElem?_of_mem member
      obtain ⟨start, -, next⟩ := exists_add_mod set.activeTier
        (Nat.mod_lt (index + 1) (Nat.zero_lt_of_lt several))
      obtain ⟨calls, within, back⟩ := covered start index tier known some
      rw [← Nat.mod_add_mod, next, Nat.mod_add_mod] at back
      have whole := Nat.div_add_mod (index + 1 + calls) set.tiers.length
      rw [back] at whole
      have turns : set.tiers.length * ((index + 1 + calls) / set.tiers.length) = calls + 1 := by
        omega
      have turn := Nat.le_of_dvd (Nat.succ_pos calls) (Dvd.intro _ turns)
      omega
    · rintro (few | none) start index tier known some
      · obtain ⟨calls, within, reached⟩ := exists_add_mod (set.activeTier + start)
          (List.getElem?_eq_some_iff.mp known).1
        exact ⟨calls, by omega, reached⟩
      · exact absurd (none tier (List.mem_of_getElem? known)) some
  · refine iff_of_false (fun covered => ?_) fun narrow => alone narrow.1
    simp only [not_forall, Nat.not_le, exists_prop] at alone
    obtain ⟨tier, member, long⟩ := alone
    obtain ⟨index, known⟩ := List.getElem?_of_mem member
    -- once the second tracker of the tier is active, the first one never is
    obtain ⟨calls, -, reached⟩ := covered 0 index tier known 1 long
    obtain ⟨several, cursor, found, -⟩ := iterate_cursor several known calls
    obtain ⟨again, -, back⟩ := covered calls index _ found 0 (by dsimp only; omega)
    obtain ⟨-, later, foundAgain, started⟩ := iterate_cursor several found again
    have second := active_of_position found reached
    have first := active_of_position foundAgain back
    dsimp only at first second started
    omega

/-- Three tiers of one tracker each and an empty one are covered, two of the four empty are not. -/
theorem empty_tiers_covered :
    (∀ start, (advanceOnFailure^[start] (new [[0], [], [1], [2]])).Covered) ∧
      ¬∀ start, (advanceOnFailure^[start] (new [[0], [], [1], []])).Covered := by
  rw [(tiers_covered_iff (new [[0], [], [1], [2]]) ⟨by decide, by decide⟩).1,
    (tiers_covered_iff (new [[0], [], [1], []]) ⟨by decide, by decide⟩).1]
  decide

/-- After two failures the second tier is active. Three more do not reach the first tracker. A
third tracker that is promoted changes places with the first one. -/
theorem first_tracker_not_reached :
    ¬(advanceOnFailure^[2] (new [[0, 1], [2]])).Covered ∧
      (Tier.promoteActive ⟨[0, 1, 2], 2⟩).trackers = [2, 1, 0] := by
  refine ⟨fun covered => ?_, by decide⟩
  obtain ⟨calls, few, reached⟩ := covered 0 ⟨[0, 1], 1⟩ rfl 0 (by decide)
  have never : ∀ calls ≤ 3, (advanceOnFailure^[calls]
      (advanceOnFailure^[2] (new [[0, 1], [2]]))).position ≠ (0, 0) := by decide
  exact never calls few reached

end TierSet

end TorrentNG.Tracker
