import TorrentNG.MachineArithmetic

/-!
# The shared rate limiter

`SharedRateLimiter` of `rt-engine/src/network_budget.rs`, a bucket of tokens for any number of
callers of `acquire` and `acquire_or_cancelled`. Their loops differ in how they wait, and a wait
can end at any time. So a run is a list of events: a caller asks for bytes, tries to take what
remains of them, or is cancelled. Every attempt, whichever caller makes it, refills the bucket
for the time since the attempt before it. Times are nanoseconds, read under the lock.
-/

namespace TorrentNG.NetworkBudget

open List MachineArithmetic

def maxInitialBurstBytes : Nat := 64 * 1024

variable (limit : Nat)

def capacity : Nat := max limit maxInitialBurstBytes

structure RateState where
  limitBytesPerSec : Option Nat
  tokens : Nat
  updatedAt : Nat

/-- The product is a saturating `u128`, the tokens are a `u64`. -/
def refill (elapsed : Nat) : Nat :=
  min (min (elapsed * limit) (2 ^ 128 - 1) / 1_000_000_000) (2 ^ 64 - 1)

namespace RateState

def new (limit : Option Nat) (now : Nat) : RateState :=
  let limit := limit.filter (0 < ·)
  ⟨limit, (limit.map capacity).getD (2 ^ 64 - 1), now⟩

def refilled (state : RateState) (limit now : Nat) : Nat :=
  min (saturatingAdd state.tokens (refill limit (now - state.updatedAt))) (capacity limit)

/-- One round of the loop of a caller: the bucket after it and the tokens granted. A request
above the capacity is granted in chunks. -/
def attempt (state : RateState) (remaining now : Nat) : RateState × Nat :=
  match state.limitBytesPerSec with
  | none => (state, remaining)
  | some limit =>
      let tokens := state.refilled limit now
      let requested := min remaining (capacity limit)
      if requested ≤ tokens then
        ({ state with tokens := tokens - requested, updatedAt := now }, requested)
      else ({ state with tokens, updatedAt := now }, 0)

end RateState

/-- The bucket, and what remains for each caller; nothing for one that does not wait. -/
structure SharedRateLimiter where
  state : RateState
  remaining : Nat → Nat

inductive Action where
  | acquire (bytes : Nat)
  | attempt
  | cancel

structure Event where
  now : Nat
  caller : Nat
  action : Action

namespace SharedRateLimiter

def new (limit : Option Nat) (now : Nat) : SharedRateLimiter := ⟨.new limit now, fun _ => 0⟩

/-- The limiter after an event and the tokens that it grants. -/
def step (limiter : SharedRateLimiter) (event : Event) : SharedRateLimiter × Nat :=
  let remaining := limiter.remaining event.caller
  let waiting := Function.update limiter.remaining event.caller
  match event.action with
  | .acquire bytes => ({ limiter with remaining := waiting bytes }, 0)
  | .cancel => ({ limiter with remaining := waiting 0 }, 0)
  | .attempt =>
      if remaining = 0 then (limiter, 0)
      else
        let (state, granted) := limiter.state.attempt remaining event.now
        (⟨state, waiting (remaining - granted)⟩, granted)

/-- The tokens granted from one time to another. -/
def grantedWithin (first last : Nat) (limiter : SharedRateLimiter) : List Event → Nat
  | [] => 0
  | event :: later =>
      (if first ≤ event.now ∧ event.now ≤ last then (limiter.step event).2 else 0) +
        grantedWithin first last (limiter.step event).1 later

end SharedRateLimiter

theorem mul_refill_le (elapsed : Nat) : 1_000_000_000 * refill limit elapsed ≤ elapsed * limit :=
  calc 1_000_000_000 * refill limit elapsed
    _ ≤ 1_000_000_000 * (min (elapsed * limit) (2 ^ 128 - 1) / 1_000_000_000) :=
      Nat.mul_le_mul_left _ (Nat.min_le_left _ _)
    _ ≤ min (elapsed * limit) (2 ^ 128 - 1) := Nat.mul_div_le _ _
    _ ≤ elapsed * limit := Nat.min_le_left _ _

namespace RateState

/-- An attempt leaves of the refilled bucket what it does not grant. -/
theorem attempt_spec {state : RateState} {limit : Nat} (limited : state.limitBytesPerSec = some limit)
    (remaining now : Nat) :
    ∃ tokens granted, state.attempt remaining now = (⟨some limit, tokens, now⟩, granted) ∧
      tokens + granted = state.refilled limit now := by
  rw [attempt, limited]
  dsimp only
  split_ifs with enough
  · exact ⟨_, _, rfl, Nat.sub_add_cancel enough⟩
  · exact ⟨_, _, rfl, rfl⟩

/-! ## The ceiling -/

/-- What was granted since a time is paid for by a full bucket and the refill since then. -/
structure Metered (limit first last granted : Nat) (state : RateState) : Prop where
  limited : state.limitBytesPerSec = some limit
  tokens : state.tokens ≤ capacity limit
  begun : granted = 0 ∨ first ≤ state.updatedAt
  budget : 1_000_000_000 * (granted + state.tokens) ≤
    1_000_000_000 * capacity limit + (state.updatedAt - first) * limit
  bound : 1_000_000_000 * granted ≤ 1_000_000_000 * capacity limit + (last - first) * limit

variable {limit first last granted : Nat} {limiter : SharedRateLimiter}

theorem Metered.attempt {state : RateState}
    (metered : Metered limit first last granted state) (remaining : Nat) {now : Nat}
    (ordered : state.updatedAt ≤ now) :
    Metered limit first last
      (granted + if first ≤ now ∧ now ≤ last then (state.attempt remaining now).2 else 0)
      (state.attempt remaining now).1 := by
  obtain ⟨tokens, taken, attempted, split⟩ := attempt_spec metered.limited remaining now
  have full : tokens + taken ≤ capacity limit := split ▸ Nat.min_le_right _ _
  have refills : tokens + taken ≤ state.tokens + refill limit (now - state.updatedAt) :=
    split ▸ (Nat.min_le_left _ _).trans (Nat.min_le_left _ _)
  have amount := mul_refill_le limit (now - state.updatedAt)
  have paid : 1_000_000_000 * (granted + (tokens + taken)) ≤
      1_000_000_000 * capacity limit + (now - first) * limit := by
    rcases metered.begun with none | begun
    · omega
    · have whole : (now - state.updatedAt) * limit + (state.updatedAt - first) * limit =
          (now - first) * limit := by
        rw [← Nat.add_mul, Nat.sub_add_sub_cancel ordered begun]
      have before := metered.budget
      omega
  rw [attempted]
  split_ifs with within
  · have inside : (now - first) * limit ≤ (last - first) * limit :=
      Nat.mul_le_mul_right _ (by omega)
    exact ⟨rfl, by dsimp only; omega, .inr within.1, by dsimp only; omega, by omega⟩
  · exact ⟨rfl, by dsimp only; omega, metered.begun.imp_right ordered.trans', by dsimp only; omega,
      metered.bound⟩

/-- An event is an attempt, or it leaves the bucket alone. -/
theorem Metered.step (metered : Metered limit first last granted limiter.state) {event : Event}
    (ordered : limiter.state.updatedAt ≤ event.now) :
    Metered limit first last
      (granted + if first ≤ event.now ∧ event.now ≤ last then (limiter.step event).2 else 0)
      (limiter.step event).1.state ∧ (limiter.step event).1.state.updatedAt ≤ event.now := by
  unfold SharedRateLimiter.step
  cases event.action with
  | acquire | cancel => exact ⟨by simpa using metered, ordered⟩
  | attempt =>
    dsimp only
    by_cases done : limiter.remaining event.caller = 0
    · rw [if_pos done]
      exact ⟨by simpa using metered, ordered⟩
    · rw [if_neg done]
      refine ⟨metered.attempt _ ordered, ?_⟩
      obtain ⟨tokens, taken, attempted, _⟩ := attempt_spec metered.limited
        (limiter.remaining event.caller) event.now
      rw [attempted]

theorem Metered.run (metered : Metered limit first last granted limiter.state) {events : List Event}
    (ordered : (limiter.state.updatedAt :: events.map Event.now).Pairwise (· ≤ ·)) :
    1_000_000_000 * (granted + limiter.grantedWithin first last events) ≤
      1_000_000_000 * capacity limit + (last - first) * limit := by
  induction events generalizing limiter granted with
  | nil => exact metered.bound
  | cons event later ih =>
    rw [map_cons, pairwise_cons, pairwise_cons] at ordered
    obtain ⟨soon, after, rest⟩ := ordered
    obtain ⟨next, updated⟩ := metered.step (soon _ mem_cons_self)
    rw [SharedRateLimiter.grantedWithin, ← Nat.add_assoc]
    exact ih next (pairwise_cons.mpr ⟨fun time member => updated.trans (after time member), rest⟩)

end RateState

/-- In any interval the callers together get at most a full bucket and the refill of the
interval. -/
theorem granted_within_le {limit : Nat} (positive : 0 < limit) (created : Nat) (events : List Event)
    (ordered : (created :: events.map Event.now).Pairwise (· ≤ ·)) (first length : Nat) :
    (SharedRateLimiter.new (some limit) created).grantedWithin first (first + length) events ≤
      max limit maxInitialBurstBytes + limit * length / 1_000_000_000 := by
  have start : (SharedRateLimiter.new (some limit) created).state =
      ⟨some limit, capacity limit, created⟩ := by
    simp [SharedRateLimiter.new, RateState.new, Option.filter, positive]
  have metered : RateState.Metered limit first (first + length) 0
      (SharedRateLimiter.new (some limit) created).state := by
    rw [start]
    exact ⟨rfl, le_refl _, .inl rfl, by dsimp only; omega, by omega⟩
  have bound := metered.run (by rw [start]; exact ordered)
  rw [Nat.add_sub_cancel_left, Nat.mul_comm length, Nat.zero_add, capacity] at bound
  omega

/-- A request above the capacity, in chunks. -/
theorem granted_in_chunks :
    (SharedRateLimiter.new (some 1000) 0).grantedWithin 0 (0 + 1_000_000)
      [⟨0, 7, .acquire 65537⟩, ⟨0, 7, .attempt⟩, ⟨1_000_000, 7, .attempt⟩] ≤
      max 1000 maxInitialBurstBytes + 1000 * 1_000_000 / 1_000_000_000 :=
  granted_within_le (by decide) 0 _ (by decide) 0 1_000_000

/-! ## The refill -/

namespace RateState

/-- The tokens that a list of attempts credits, each with its time and the bytes remaining. -/
def credited (limit : Nat) (state : RateState) : List (Nat × Nat) → Nat
  | [] => 0
  | (now, remaining) :: later =>
      (state.refilled limit now - state.tokens) +
        credited limit (state.attempt remaining now).1 later

/-- The refills stay below the capacity. -/
def neverFull (limit : Nat) (state : RateState) : List (Nat × Nat) → Bool
  | [] => true
  | (now, remaining) :: later =>
      decide (state.refilled limit now < capacity limit) &&
        neverFull limit (state.attempt remaining now).1 later

/-- What the refills round off, in billionths of a token. -/
def lost (limit start : Nat) : List (Nat × Nat) → Nat
  | [] => 0
  | (now, _) :: later => (now - start) * limit % 1_000_000_000 + lost limit now later

/-- The tokens and an amount in billionths differ by less than a token. -/
def Near (tokens amount : Nat) : Prop :=
  1_000_000_000 * tokens < amount + 1_000_000_000 ∧ amount < 1_000_000_000 * tokens + 1_000_000_000

/-- What was credited and what was rounded off add up to the time passed at the limit. -/
theorem credited_add_lost {limit : Nat} (fits : limit < 2 ^ 64) {state : RateState}
    (limited : state.limitBytesPerSec = some limit) {attempts : List (Nat × Nat)}
    (ordered : (state.updatedAt :: attempts.map Prod.fst).Pairwise (· < ·))
    (below : neverFull limit state attempts = true) :
    state.updatedAt ≤ (attempts.map Prod.fst).getLastD state.updatedAt ∧
      1_000_000_000 * credited limit state attempts + lost limit state.updatedAt attempts =
        ((attempts.map Prod.fst).getLastD state.updatedAt - state.updatedAt) * limit := by
  induction attempts generalizing state with
  | nil => simp [credited, lost]
  | cons attempt later ih =>
    obtain ⟨now, remaining⟩ := attempt
    rw [neverFull, Bool.and_eq_true, decide_eq_true_eq] at below
    obtain ⟨soon, ordered⟩ := pairwise_cons.mp ordered
    have advanced := soon now mem_cons_self
    have refills : state.refilled limit now =
        state.tokens + (now - state.updatedAt) * limit / 1_000_000_000 := by
      have room := below.1
      unfold refilled saturatingAdd refill capacity maxInitialBurstBytes at *
      omega
    obtain ⟨tokens, taken, attempted, _⟩ := attempt_spec limited remaining now
    rw [attempted] at below
    have next : (⟨some limit, tokens, now⟩ : RateState).limitBytesPerSec = some limit := rfl
    obtain ⟨after, account⟩ := ih next ordered below.2
    rw [credited, lost, refills, attempted, map_cons, getLastD_cons]
    dsimp only at after account ⊢
    have whole : ((later.map Prod.fst).getLastD now - now) * limit +
        (now - state.updatedAt) * limit =
          ((later.map Prod.fst).getLastD now - state.updatedAt) * limit := by
      rw [← Nat.add_mul, Nat.sub_add_sub_cancel after advanced.le]
    omega

/-- While the bucket is not full, the credit keeps up with the elapsed time as long as the
attempts have rounded off less than a token. -/
theorem credited_near_iff {limit : Nat} (fits : limit < 2 ^ 64) {state : RateState}
    (limited : state.limitBytesPerSec = some limit) (attempts : List (Nat × Nat))
    (ordered : (state.updatedAt :: attempts.map Prod.fst).Pairwise (· < ·))
    (below : neverFull limit state attempts = true) :
    Near (credited limit state attempts)
      (((attempts.map Prod.fst).getLastD state.updatedAt - state.updatedAt) * limit) ↔
      lost limit state.updatedAt attempts < 1_000_000_000 := by
  obtain ⟨_, account⟩ := credited_add_lost fits limited ordered below
  rw [Near, ← account]
  omega

/-- An empty bucket. -/
def drained : RateState := ((new (some 1000) 0).attempt 65536 0).1

/-- Three attempts that round off less than a token together. -/
theorem credited_near_three_attempts :
    Near (credited 1000 drained [(1_200_000, 1), (2_300_000, 5), (4_400_000, 1)])
      (4_400_000 * 1000) :=
  (credited_near_iff (by decide) rfl _ (by decide) (by decide)).mpr (by decide)

/-- Two callers that wait for one byte each, half a millisecond apart, never get it. -/
theorem waiters_lose_tokens :
    let attempts := [(500_000, 1), (1_000_000, 1), (1_500_000, 1), (2_000_000, 1)]
    drained.limitBytesPerSec = some 1000 ∧
      (drained.updatedAt :: attempts.map Prod.fst).Pairwise (· < ·) ∧
      neverFull 1000 drained attempts = true ∧
      ¬Near (credited 1000 drained attempts) ((2_000_000 - drained.updatedAt) * 1000) := by
  unfold Near
  decide

end RateState

end TorrentNG.NetworkBudget
