import Mathlib.Data.List.Basic

/-!
# Sequencing computations that can fail

Inversion of successful runs: a sequence succeeds exactly when its parts do. Proofs
about a function that returns early take its successful runs apart with these rules
and never unfold the error paths.

A recursion bounded by fuel has one more way to stop than the program it models.
`Stop` keeps the two apart, and `complete` drops the extra one against a proof that
the fuel was enough.
-/

namespace Fallible

open List

universe u v
variable {ε : Type u} {α β : Type v}

/-- `ok_or`: the value, or the error in its absence. -/
def okOr (value : Option α) (error : ε) : Except ε α :=
  match value with
  | some result => .ok result
  | none => .error error

theorem bind_eq_ok {first : Except ε α} {next : α → Except ε β} {result : β} :
    (first >>= next) = .ok result ↔ ∃ value, first = .ok value ∧ next value = .ok result := by
  cases first with
  | error problem =>
    constructor
    · intro succeeded
      cases succeeded
    · rintro ⟨_, impossible, _⟩
      cases impossible
  | ok value =>
    constructor
    · intro succeeded
      exact ⟨value, rfl, succeeded⟩
    · rintro ⟨_, same, succeeded⟩
      cases same
      exact succeeded

theorem ok_bind (value : α) (next : α → Except ε β) : (Except.ok value >>= next) = next value := rfl

theorem okOr_eq_ok {value : Option α} {error : ε} {result : α} :
    okOr value error = .ok result ↔ value = some result := by
  cases value with
  | none => simp [okOr]
  | some value => simp [okOr]

variable {result : Except ε α} {value : α}

theorem mapError_eq_ok {δ : Type u} {change : ε → δ} :
    result.mapError change = .ok value ↔ result = .ok value := by
  cases result with
  | error problem => simp [Except.mapError]
  | ok other => simp [Except.mapError]

theorem map_eq_ok {β : Type} {change : α → β} {value : β} :
    result.map change = .ok value ↔ ∃ inner, result = .ok inner ∧ change inner = value := by
  cases result with
  | error problem => simp [Except.map]
  | ok other => simp [Except.map]

variable {problem : ε}

/-- A check in front of a computation: both have to succeed. -/
theorem check_bind_eq_ok {β : Type} {refused : Prop} [Decidable refused]
    {next : Except ε β} {result : β} :
    ((if refused then .error problem else .ok ()) >>= fun _ => next) = .ok result ↔
      ¬refused ∧ next = .ok result := by
  by_cases bad : refused
  · simp [bad, bind, Except.bind]
  · simp [bad, bind, Except.bind]

/-- What holds of the value of a computation, or of its error. -/
def Ends (good : α → Prop) (bad : ε → Prop) : Except ε α → Prop
  | .ok value => good value
  | .error problem => bad problem

section Ends

variable {good : α → Prop} {bad : ε → Prop} {run : Except ε α} (ends : Ends good bad run)

include ends

theorem Ends.of_ok (returned : run = .ok value) : good value := by
  rwa [returned] at ends

theorem Ends.of_error (failed : run = .error problem) : bad problem := by
  rwa [failed] at ends

theorem Ends.bind {next : α → Except ε β} {after : β → Prop}
    (continues : ∀ value, good value → Ends after bad (next value)) :
    Ends after bad (run >>= next) := by
  cases run with
  | ok value => exact continues value ends
  | error problem => exact ends

theorem Ends.mono {weaker : α → Prop} {worse : ε → Prop} (returns : ∀ value, good value → weaker value)
    (fails : ∀ problem, bad problem → worse problem) : Ends weaker worse run := by
  cases run with
  | ok value => exact returns value ends
  | error problem => exact fails problem ends

end Ends

/-- Why a fuelled run has no value: the fuel, or an error of the program. -/
inductive Stop (ε : Type u) where
  | exhausted
  | failed (error : ε)
deriving Repr, DecidableEq

/-- Run a part of the program that needs no fuel. -/
def lift (result : Except ε α) : Except (Stop ε) α := result.mapError .failed

theorem lift_eq_ok :
    lift result = .ok value ↔ result = .ok value :=
  mapError_eq_ok

/-- A fuelled run gives a value with a property, or fails as the program does. It runs out of
fuel only when there was not enough. -/
def Settles (enough : Prop) (post : α → Prop) : Except (Stop ε) α → Prop
  | .ok value => post value
  | .error (.failed _) => True
  | .error .exhausted => ¬enough

section Settles

variable {enough more : Prop} {post : α → Prop} {after : β → Prop} {run : Except (Stop ε) α}

theorem Settles.ne_exhausted (settles : Settles enough post run) (holds : enough) :
    run ≠ .error .exhausted := by
  rintro rfl
  exact settles holds

/-- The value of a first part is where the rest starts. -/
theorem Settles.bind {next : α → Except (Stop ε) β} (settles : Settles enough post run)
    (fuelled : more → enough)
    (continues : ∀ value, run = .ok value → post value → Settles more after (next value)) :
    Settles more after (run >>= next) := by
  match run, settles with
  | .ok value, holds => exact continues value rfl holds
  | .error (.failed _), _ => trivial
  | .error .exhausted, short => exact fun holds => short (fuelled holds)

theorem Settles.mono {weaker : α → Prop} (settles : Settles enough post run)
    (fuelled : more → enough) (weakens : ∀ value, post value → weaker value) :
    Settles more weaker run := by
  match run, settles with
  | .ok value, holds => exact weakens value holds
  | .error (.failed _), _ => trivial
  | .error .exhausted, short => exact fun holds => short (fuelled holds)

theorem settles_lift (holds : ∀ value, result = .ok value → post value) :
    Settles enough post (lift result) := by
  cases result with
  | ok value => exact holds value rfl
  | error problem => trivial

theorem settles_lift_bind {next : α → Except (Stop ε) β}
    (continues : ∀ value, result = .ok value → Settles enough after (next value)) :
    Settles enough after (lift result >>= next) :=
  (settles_lift fun _ found => found).bind id fun value _ => continues value

end Settles

/-- The outcome of a run whose fuel was enough. -/
def complete (run : Except (Stop ε) α) (enough : run ≠ .error .exhausted) : Except ε α :=
  match run, enough with
  | .ok value, _ => .ok value
  | .error (.failed problem), _ => .error problem
  | .error .exhausted, enough => absurd rfl enough

theorem complete_eq_ok {run : Except (Stop ε) α} (enough : run ≠ .error .exhausted) :
    complete run enough = .ok value ↔ run = .ok value := by
  match run, enough with
  | .ok other, _ => simp [complete]
  | .error (.failed problem), _ => simp [complete]
  | .error .exhausted, enough => exact absurd rfl enough

theorem complete_eq_error {run : Except (Stop ε) α} (enough : run ≠ .error .exhausted)
    : complete run enough = .error problem ↔ run = .error (.failed problem) := by
  match run, enough with
  | .ok other, _ => simp [complete]
  | .error (.failed other), _ => simp [complete]
  | .error .exhausted, enough => exact absurd rfl enough

/-- Collecting answers succeeds with exactly the answers. -/
theorem exists_mapM {answer : α → Option β} {questions : List α}
    (answered : ∀ question ∈ questions, ∃ result, answer question = some result) :
    ∃ results, questions.mapM answer = some results ∧ questions.map answer = results.map some := by
  induction questions with
  | nil => exact ⟨[], rfl, rfl⟩
  | cons question rest ih =>
    obtain ⟨⟨result, first⟩, others⟩ := forall_mem_cons.mp answered
    obtain ⟨results, collected, same⟩ := ih others
    refine ⟨result :: results, ?_, ?_⟩
    · rw [mapM_cons, first, collected]
      rfl
    · rw [map_cons, map_cons, first, same]

variable {compute : α → Except ε β}

/-- A list of computations succeeds when its first one and the rest of them do. -/
theorem mapM_cons_eq_ok {first : α} {rest : List α} {results : List β} :
    (first :: rest).mapM compute = .ok results ↔
      ∃ result others, compute first = .ok result ∧ rest.mapM compute = .ok others ∧
        results = result :: others := by
  rw [mapM_cons, bind_eq_ok]
  constructor
  · rintro ⟨result, computed, others⟩
    obtain ⟨remaining, collected, same⟩ := bind_eq_ok.mp others
    exact ⟨result, remaining, computed, collected, (Except.ok.inj same).symm⟩
  · rintro ⟨result, remaining, computed, collected, rfl⟩
    exact ⟨result, computed, bind_eq_ok.mpr ⟨remaining, collected, rfl⟩⟩

theorem mapM_append_eq_ok {front back : List α} {results : List β} :
    (front ++ back).mapM compute = .ok results ↔
      ∃ fronts backs, front.mapM compute = .ok fronts ∧ back.mapM compute = .ok backs ∧
        results = fronts ++ backs := by
  rw [mapM_append, bind_eq_ok]
  constructor
  · rintro ⟨fronts, front, rest⟩
    obtain ⟨backs, back, same⟩ := bind_eq_ok.mp rest
    exact ⟨fronts, backs, front, back, (Except.ok.inj same).symm⟩
  · rintro ⟨fronts, backs, front, back, rfl⟩
    exact ⟨fronts, front, bind_eq_ok.mpr ⟨backs, back, rfl⟩⟩

/-- A list of computations fails with the error of one of them. -/
theorem mapM_eq_error {items : List α} (failed : items.mapM compute = .error problem) :
    ∃ item ∈ items, compute item = .error problem := by
  induction items with
  | nil => cases failed
  | cons first rest ih =>
    rw [mapM_cons] at failed
    cases computed : compute first with
    | error other =>
      rw [computed] at failed
      cases failed
      exact ⟨first, mem_cons_self, computed⟩
    | ok result =>
      cases collected : rest.mapM compute with
      | error other =>
        rw [computed, collected] at failed
        cases failed
        obtain ⟨item, member, found⟩ := ih collected
        exact ⟨item, mem_cons_of_mem _ member, found⟩
      | ok results =>
        rw [computed, collected] at failed
        cases failed

end Fallible
