import Mathlib.Data.List.Basic

/-!
# Programs that can be cut off

A program works on a world. Wherever a call can fail it asks the outside, and the outside
answers from a list. A program that asks when no answer is left is cut off at that point,
as by a crash: the world stays as it was. Every list of answers is thus one way the calls
of a run can turn out together with the moment at which the run is cut off.

`Triple` is the judgement for such programs. Beside the condition before and the condition
on what is returned there is an invariant, and every world the program passes through must
have it: a run that fails or is cut off leaves a world of which the invariant is all that
is known, and the next run starts from there. `story` is a sequence of runs of one
program, each on the world the last one left.
-/

namespace Interruptible

variable {ω ι ε α β σ : Type}

inductive Ending (ε α : Type) where
  | returned (value : α)
  | failed (error : ε)
  /-- The answers ran out. -/
  | crashed
deriving DecidableEq

structure Execution (ω ι ε α : Type) where
  ending : Ending ε α
  /-- The answers that were not asked for. -/
  answers : List ι
  /-- The worlds after each change, in order. -/
  passed : List ω
  world : ω

def Program (ω ι ε α : Type) := List ι → ω → Execution ω ι ε α

variable {next : α → Program ω ι ε β}

namespace Program

/-- Go on with what was returned; a failure or a crash stays. -/
def andThen (first : Program ω ι ε α) (next : α → Program ω ι ε β) : Program ω ι ε β :=
  fun answers world =>
    let run := first answers world
    match run.ending with
    | .returned value =>
        let rest := next value run.answers run.world
        { rest with passed := run.passed ++ rest.passed }
    | .failed error => ⟨.failed error, run.answers, run.passed, run.world⟩
    | .crashed => ⟨.crashed, run.answers, run.passed, run.world⟩

instance : Monad (Program ω ι ε) where
  pure value := fun answers world => ⟨.returned value, answers, [], world⟩
  bind := andThen

@[simp]
theorem pure_run (value : α) (answers : List ι) (world : ω) :
    (pure value : Program ω ι ε α) answers world = ⟨.returned value, answers, [], world⟩ := rfl

@[simp]
theorem bind_run (first : Program ω ι ε α) (next : α → Program ω ι ε β) (answers : List ι)
    (world : ω) : (first >>= next) answers world = andThen first next answers world := rfl

def fail (error : ε) : Program ω ι ε α :=
  fun answers world => ⟨.failed error, answers, [], world⟩

def ofExcept : Except ε α → Program ω ι ε α
  | .ok value => pure value
  | .error error => fail error

/-- Take the next answer. -/
def ask (read : ι → Except ε α) : Program ω ι ε α :=
  fun answers world =>
    match answers with
    | [] => ⟨.crashed, [], [], world⟩
    | answer :: rest => ofExcept (read answer) rest world

def look : Program ω ι ε ω := fun answers world => ⟨.returned world, answers, [], world⟩

def change (effect : ω → ω) : Program ω ι ε Unit :=
  fun answers world => ⟨.returned (), answers, [effect world], effect world⟩

/-- The changes of the outside's choosing, for as long as its answers are changes; whether
there were any. -/
def changes (effect : ι → Option (ω → ω)) (any : Bool) : Program ω ι ε Bool
  | [], world => ⟨.returned any, [], [], world⟩
  | answer :: rest, world =>
      match effect answer with
      | none => ⟨.returned any, answer :: rest, [], world⟩
      | some made =>
          let others := changes effect true rest (made world)
          { others with passed := made world :: others.passed }

/-- Handle a failure. A crash cannot be handled. -/
def recover (program : Program ω ι ε α) (handler : ε → Program ω ι ε α) :
    Program ω ι ε α :=
  fun answers world =>
    let run := program answers world
    match run.ending with
    | .failed error =>
        let rest := handler error run.answers run.world
        { rest with passed := run.passed ++ rest.passed }
    | _ => run

/-- The program changes nothing, however it ends. -/
def Silent (program : Program ω ι ε α) : Prop :=
  ∀ answers world, (program answers world).passed = [] ∧ (program answers world).world = world

namespace Silent

theorem ret (value : α) : (pure value : Program ω ι ε α).Silent := fun _ _ => ⟨rfl, rfl⟩

theorem fail (error : ε) : (Program.fail error : Program ω ι ε α).Silent := fun _ _ => ⟨rfl, rfl⟩

theorem look : (Program.look : Program ω ι ε ω).Silent := fun _ _ => ⟨rfl, rfl⟩

theorem ofExcept (result : Except ε α) : (Program.ofExcept result : Program ω ι ε α).Silent := by
  cases result with
  | ok value => exact ret value
  | error error => exact fail error

theorem ask (read : ι → Except ε α) : (Program.ask read : Program ω ι ε α).Silent := by
  intro answers world
  cases answers with
  | nil => exact ⟨rfl, rfl⟩
  | cons answer rest => exact ofExcept (read answer) rest world

theorem bind {program : Program ω ι ε α} (first : program.Silent)
    (rest : ∀ value, (next value).Silent) : (program >>= next).Silent := by
  intro answers world
  obtain ⟨nothing, same⟩ := first answers world
  change (andThen program next answers world).passed = [] ∧
    (andThen program next answers world).world = world
  simp only [andThen]
  cases (program answers world).ending with
  | returned value =>
    obtain ⟨later, unchanged⟩ := rest value (program answers world).answers
      (program answers world).world
    exact ⟨by simp only [nothing, later, List.append_nil], unchanged.trans same⟩
  | failed error => exact ⟨nothing, same⟩
  | crashed => exact ⟨nothing, same⟩

end Silent
end Program

open Program List

/-! ## The judgement -/

/-- The invariant of the worlds, and the answers the outside may give. -/
structure Guard (ω ι : Type) where
  invariant : ω → Prop
  allowed : ι → Prop

/-- The execution keeps to the guard, and what it returns satisfies the condition. -/
structure Execution.Fulfils (run : Execution ω ι ε α) (guard : Guard ω ι)
    (after : α → ω → Prop) : Prop where
  passed : ∀ world ∈ run.passed, guard.invariant world
  world : guard.invariant run.world
  answers : ∀ answer ∈ run.answers, guard.allowed answer
  returned : ∀ value, run.ending = .returned value → after value run.world

def Triple (guard : Guard ω ι) (before : ω → Prop) (program : Program ω ι ε α)
    (after : α → ω → Prop) : Prop :=
  ∀ answers world, (∀ answer ∈ answers, guard.allowed answer) → guard.invariant world →
    before world → (program answers world).Fulfils guard after

namespace Triple

variable {guard : Guard ω ι} {before : ω → Prop} {after : α → ω → Prop}
  {program : Program ω ι ε α}

variable {weaker : ω → Prop}

theorem weaken {stronger : α → ω → Prop} (triple : Triple guard weaker program stronger)
    (enter : ∀ world, guard.invariant world → before world → weaker world)
    (leave : ∀ value world, guard.invariant world → stronger value world → after value world) :
    Triple guard before program after := by
  intro answers world allowed kept holds
  have run := triple answers world allowed kept (enter world kept holds)
  exact { run with
    returned := fun value returned => leave value _ run.world (run.returned value returned) }

theorem enter (triple : Triple guard weaker program after)
    (implies : ∀ world, guard.invariant world → before world → weaker world) :
    Triple guard before program after :=
  triple.weaken implies fun _ _ _ holds => holds

theorem leave {stronger : α → ω → Prop} (triple : Triple guard before program stronger)
    (implies : ∀ value world, guard.invariant world → stronger value world → after value world) :
    Triple guard before program after :=
  triple.weaken (fun _ _ holds => holds) implies

/-- A triple may be proved from one world at a time. -/
theorem at_world (each : ∀ world, guard.invariant world → before world →
      Triple guard (· = world) program after) : Triple guard before program after :=
  fun answers world allowed kept holds =>
    each world kept holds answers world allowed kept rfl

/-- A part of the condition that is not about the world may be assumed. -/
theorem given {fact : Prop} (triple : fact → Triple guard before program after) :
    Triple guard (fun world => fact ∧ before world) program after :=
  fun answers world allowed kept known => triple known.1 answers world allowed kept known.2

theorem ret (value : α) (holds : ∀ world, guard.invariant world → before world →
    after value world) : Triple guard before (pure value : Program ω ι ε α) after := by
  intro answers world allowed kept known
  refine ⟨by simp [pure], kept, allowed, ?_⟩
  intro other returned
  cases returned
  exact holds world kept known

theorem fail (error : ε) : Triple guard before (Program.fail error : Program ω ι ε α) after := by
  intro answers world allowed kept _
  exact ⟨by simp [Program.fail], kept, allowed, fun _ returned => by cases returned⟩

theorem bind {middle : α → ω → Prop} {last : β → ω → Prop}
    (first : Triple guard before program middle)
    (rest : ∀ value, Triple guard (middle value) (next value) last) :
    Triple guard before (program >>= next) last := by
  intro answers world allowed kept known
  have run := first answers world allowed kept known
  change (andThen program next answers world).Fulfils guard last
  simp only [andThen]
  cases ending : (program answers world).ending with
  | returned value =>
    have second := rest value _ _ run.answers run.world (run.returned value ending)
    have passed := forall_mem_append.mpr ⟨run.passed, second.passed⟩
    exact ⟨passed, second.world, second.answers, second.returned⟩
  | failed | crashed =>
    exact ⟨run.passed, run.world, run.answers, fun _ returned => by cases returned⟩

/-- `bind` for a first program with a weaker condition. -/
theorem bind_enter {middle : α → ω → Prop} {last : β → ω → Prop}
    (first : Triple guard weaker program middle)
    (implies : ∀ world, guard.invariant world → before world → weaker world)
    (rest : ∀ value, Triple guard (middle value) (next value) last) :
    Triple guard before (program >>= next) last :=
  (first.enter implies).bind rest

theorem ofExcept (result : Except ε α) :
    Triple guard before (Program.ofExcept result : Program ω ι ε α)
      (fun value world => result = .ok value ∧ before world) := by
  cases result with
  | ok value => exact ret value fun _ _ known => ⟨rfl, known⟩
  | error error => exact fail error

theorem ask (read : ι → Except ε α) : Triple guard before (Program.ask read : Program ω ι ε α)
      (fun value world => (∃ answer, read answer = .ok value) ∧ before world) := by
  intro answers world allowed kept known
  cases answers with
  | nil => exact ⟨by simp [Program.ask], kept, allowed, fun _ returned => by cases returned⟩
  | cons answer rest =>
    have run := ofExcept (read answer) rest world (forall_mem_cons.mp allowed).2 kept known
    exact { run with returned := fun value returned =>
      ⟨⟨answer, (run.returned value returned).1⟩, (run.returned value returned).2⟩ }

theorem look : Triple guard before (Program.look : Program ω ι ε ω)
      (fun seen world => seen = world ∧ before world) := by
  intro answers world allowed kept known
  refine ⟨by simp [Program.look], kept, allowed, ?_⟩
  intro other returned
  cases returned
  exact ⟨rfl, known⟩

theorem change (effect : ω → ω) {made : ω → Prop}
    (holds : ∀ world, guard.invariant world → before world →
      guard.invariant (effect world) ∧ made (effect world)) :
    Triple guard before (Program.change effect : Program ω ι ε Unit) (fun _ => made) := by
  intro answers world allowed kept known
  obtain ⟨keeps, follows⟩ := holds world kept known
  exact ⟨forall_mem_singleton.mpr keeps, keeps, allowed, fun _ _ => follows⟩

theorem changes (effect : ι → Option (ω → ω)) (any : Bool)
    (holds : ∀ answer made, guard.allowed answer → effect answer = some made →
      ∀ world, guard.invariant world → before world →
        guard.invariant (made world) ∧ before (made world)) :
    Triple guard before (Program.changes effect any : Program ω ι ε Bool) (fun _ => before) := by
  intro answers
  -- One change at a time: the list of answers gets shorter.
  induction answers generalizing any with
  | nil =>
    intro world allowed kept known
    exact ⟨by simp [Program.changes], kept, allowed, fun _ _ => known⟩
  | cons answer rest others =>
    intro world allowed kept known
    cases chosen : effect answer with
    | none =>
      simp only [Program.changes, chosen]
      exact ⟨by simp, kept, allowed, fun _ _ => known⟩
    | some made =>
      obtain ⟨keeps, follows⟩ := holds answer made (allowed answer mem_cons_self) chosen
        world kept known
      have run := others true (made world)
        (fun other member => allowed other (mem_cons_of_mem _ member)) keeps follows
      simp only [Program.changes, chosen]
      have passed := forall_mem_cons.mpr ⟨keeps, run.passed⟩
      exact ⟨passed, run.world, run.answers, run.returned⟩

section

variable {handler : ε → Program ω ι ε α} (tried : Triple guard before program after)

include tried

/-- A failure is handled from where it has left the world. -/
theorem recover_from {failing : ω → Prop}
    (leaves : ∀ answers world, before world → failing (program answers world).world)
    (handled : ∀ error, Triple guard failing (handler error) after) :
    Triple guard before (Program.recover program handler) after := by
  intro answers world allowed kept known
  have run := tried answers world allowed kept known
  simp only [Program.recover]
  cases ending : (program answers world).ending with
  | failed error =>
    have second := handled error _ _ run.answers run.world (leaves answers world known)
    have passed := forall_mem_append.mpr ⟨run.passed, second.passed⟩
    exact ⟨passed, second.world, second.answers, second.returned⟩
  | returned value => exact run
  | crashed => exact run

/-- After a failure nothing but the invariant is known. -/
theorem recover (handled : ∀ error, Triple guard (fun _ => True) (handler error) after) :
    Triple guard before (Program.recover program handler) after :=
  recover_from tried (fun _ _ _ => trivial) handled

/-- After a failure of a program that changes nothing, what was known before it still is. -/
theorem recover_silent (silent : program.Silent)
    (handled : ∀ error, Triple guard before (handler error) after) :
    Triple guard before (Program.recover program handler) after :=
  recover_from tried (fun answers world known => (silent answers world).2.symm ▸ known) handled

end

/-- A loop over a list: the condition is on the items still to come. -/
theorem foldlM {body : σ → β → Program ω ι ε σ} (loop : List β → σ → ω → Prop)
    (step : ∀ item rest state, Triple guard (loop (item :: rest) state) (body state item)
      (loop rest)) (items : List β) (state : σ) :
    Triple guard (loop items state) (items.foldlM body state) (loop []) := by
  induction items generalizing state with
  | nil => exact ret state fun _ _ holds => holds
  | cons item rest others =>
    exact (step item rest state).bind others

end Triple

/-! ## Runs after runs -/

/-- Runs of one program, each with its own answers and on the world the last one left. -/
def story (program : Program ω ι ε α) : ω → List (List ι) → List (Execution ω ι ε α)
  | _, [] => []
  | world, answers :: others =>
      let run := program answers world
      run :: story program run.world others

/-- What the program keeps in one run it keeps in every story. -/
theorem story_fulfils {guard : Guard ω ι} {program : Program ω ι ε α} {after : α → ω → Prop}
    (triple : Triple guard (fun _ => True) program after) (world : ω) {runs : List (List ι)}
    (allowed : ∀ answers ∈ runs, ∀ answer ∈ answers, guard.allowed answer)
    (kept : guard.invariant world) : ∀ run ∈ story program world runs, run.Fulfils guard after := by
  induction runs generalizing world with
  | nil => exact fun _ member => absurd member not_mem_nil
  | cons answers others later =>
    obtain ⟨here, rest⟩ := forall_mem_cons.mp allowed
    have first := triple answers world here kept trivial
    exact forall_mem_cons.mpr ⟨first, later _ rest first.world⟩

end Interruptible
