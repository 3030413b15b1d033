import TorrentNG.Fallible

/-!
# Runs of a system that can fail

A system takes events one after another, and a step can fail. A run comes with a condition on
each of its steps and with a budget that the steps use up. What holds at the start and is kept
by every step that meets the condition within the budget holds at the end, and such a run does
not fail. The invariant may speak about the events so far, and so about every state that the
run has visited.
-/

namespace Runs

open Fallible List

universe u v w
variable {σ : Type v} {α : Type w} {ε : Type u} {step : σ → α → Except ε σ}

def run (step : σ → α → Except ε σ) (start : σ) (events : List α) : Except ε σ :=
  events.foldlM step start

/-- Each step that the run takes meets a condition. -/
def Along (step : σ → α → Except ε σ) (condition : σ → α → Prop) (state : σ) : List α → Prop
  | [] => True
  | event :: events => condition state event ∧
    match step state event with
    | .ok next => Along step condition next events
    | .error _ => True

/-- What the steps of a run use up together. -/
def spent (step : σ → α → Except ε σ) (weight : σ → α → Nat) (state : σ) : List α → Nat
  | [] => 0
  | event :: events => weight state event +
    match step state event with
    | .ok next => spent step weight next events
    | .error _ => 0

/-- A state that the run passes through. -/
def Visited (step : σ → α → Except ε σ) (start : σ) (events : List α) (state : σ) : Prop :=
  ∃ earlier, earlier <+: events ∧ run step start earlier = .ok state

instance decidableAlong {condition : σ → α → Prop}
    [decides : ∀ state event, Decidable (condition state event)] :
    (state : σ) → (events : List α) → Decidable (Along step condition state events)
  | _, [] => isTrue trivial
  | state, event :: events =>
    have : Decidable (match step state event with
        | .ok next => Along step condition next events
        | .error _ => True) :=
      match step state event with
      | .ok next => decidableAlong next events
      | .error _ => isTrue trivial
    inferInstanceAs (Decidable (_ ∧ _))

theorem run_append (start : σ) (first second : List α) :
    run step start (first ++ second) = run step start first >>= fun state =>
      run step state second :=
  foldlM_append

variable {start : σ} {events : List α}

theorem run_snoc {state : σ} (ran : run step start events = .ok state)
    (event : α) : run step start (events ++ [event]) = step state event := by
  rw [run_append, ran]
  exact bind_pure (step state event)

/-- The second part of a run goes on from where the first one ends. -/
theorem along_append {condition : σ → α → Prop} {between : σ} {first second : List α}
    (ran : run step start first = .ok between) : Along step condition start (first ++ second) ↔
      Along step condition start first ∧ Along step condition between second := by
  induction first generalizing start with
  | nil =>
    obtain rfl := Except.ok.inj ran
    exact (and_iff_right trivial).symm
  | cons event rest ih =>
    obtain ⟨next, stepped, ran⟩ := bind_eq_ok.mp ran
    rw [cons_append, Along, Along, stepped, and_assoc]
    exact and_congr_right fun _ => ih ran

theorem spent_append {weight : σ → α → Nat} {between : σ} {first second : List α}
    (ran : run step start first = .ok between) : spent step weight start (first ++ second) =
      spent step weight start first + spent step weight between second := by
  induction first generalizing start with
  | nil =>
    obtain rfl := Except.ok.inj ran
    exact (Nat.zero_add _).symm
  | cons event rest ih =>
    obtain ⟨next, stepped, ran⟩ := bind_eq_ok.mp ran
    rw [cons_append, spent, spent, stepped, Nat.add_assoc]
    exact congrArg _ (ih ran)

section Visited

variable {start state next : σ} {events : List α} {event : α}

theorem Visited.here (ran : run step start events = .ok state) : Visited step start events state :=
  ⟨events, prefix_rfl, ran⟩

theorem Visited.later (visited : Visited step start events state) (event : α) :
    Visited step start (events ++ [event]) state := by
  obtain ⟨earlier, leading, ran⟩ := visited
  exact ⟨earlier, leading.trans (prefix_append events [event]), ran⟩

/-- A step visits one more state. -/
theorem visited_snoc (ran : run step start events = .ok state) (stepped : step state event = .ok next)
    {past : σ} (visited : Visited step start (events ++ [event]) past) :
    Visited step start events past ∨ past = next := by
  obtain ⟨earlier, leading, ranEarlier⟩ := visited
  rcases prefix_concat_iff.mp leading with whole | shorter
  · rw [whole, run_snoc ran, stepped] at ranEarlier
    exact .inr (Except.ok.inj ranEarlier).symm
  · exact .inl ⟨earlier, shorter, ranEarlier⟩

end Visited

/-- The invariant rule. -/
theorem run_invariant {condition : σ → α → Prop} {weight : σ → α → Nat} {bound : Nat}
    {Inv : List α → Nat → σ → Prop} (initial : Inv [] 0 start)
    (preserved : ∀ {earlier used state event}, run step start earlier = .ok state →
      Inv earlier used state → condition state event → used + weight state event < bound →
      ∃ next, step state event = .ok next ∧
        Inv (earlier ++ [event]) (used + weight state event) next)
    (along : Along step condition start events)
    (few : spent step weight start events < bound) : ∃ final, run step start events = .ok final ∧
      Inv events (spent step weight start events) final := by
  have general : ∀ (later earlier : List α) (used : Nat) (state : σ),
      run step start earlier = .ok state → Inv earlier used state →
      Along step condition state later → used + spent step weight state later < bound →
      ∃ final, run step start (earlier ++ later) = .ok final ∧
        Inv (earlier ++ later) (used + spent step weight state later) final := by
    intro later
    induction later with
    | nil =>
      intro earlier used state ran holds _ _
      rw [append_nil]
      exact ⟨state, ran, holds⟩
    | cons event rest ih =>
      intro earlier used state ran holds along few
      rw [spent] at few
      obtain ⟨next, stepped, holdsNext⟩ := preserved ran holds along.1 (by omega)
      have alongNext := along.2
      rw [stepped] at alongNext
      rw [spent, stepped, append_cons, ← Nat.add_assoc]
      rw [stepped, ← Nat.add_assoc] at few
      exact ih (earlier ++ [event]) _ next ((run_snoc ran event).trans stepped)
        holdsNext alongNext few
  have whole := general events [] 0 start rfl initial along (by rw [Nat.zero_add]; exact few)
  rw [nil_append, Nat.zero_add] at whole
  exact whole

/-! ## Systems that cannot fail -/

section Total

variable {advance : σ → α → σ} {condition : σ → α → Prop}

/-- Each step that the run takes meets a condition. -/
def Each (advance : σ → α → σ) (condition : σ → α → Prop) (state : σ) : List α → Prop
  | [] => True
  | event :: events => condition state event ∧ Each advance condition (advance state event) events

instance decidableEach [decides : ∀ state event, Decidable (condition state event)] :
    (state : σ) → (events : List α) → Decidable (Each advance condition state events)
  | _, [] => isTrue trivial
  | state, event :: events =>
    have := decidableEach (advance state event) events
    inferInstanceAs (Decidable (_ ∧ _))

theorem each_append {state : σ} (first second : List α) :
    Each advance condition state (first ++ second) ↔ Each advance condition state first ∧
        Each advance condition (first.foldl advance state) second := by
  induction first generalizing state with
  | nil => exact (and_iff_right trivial).symm
  | cons event events ih =>
    rw [cons_append, Each, Each, ih, foldl_cons, and_assoc]

/-- The invariant rule. -/
theorem foldl_invariant {Inv : σ → Prop}
    (preserved : ∀ {state event}, Inv state → condition state event → Inv (advance state event))
    {state : σ} (initial : Inv state)
    (each : Each advance condition state events) : Inv (events.foldl advance state) := by
  induction events generalizing state with
  | nil => exact initial
  | cons event events ih =>
    exact ih (preserved initial each.1) each.2

end Total

end Runs
