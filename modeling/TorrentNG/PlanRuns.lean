import TorrentNG.PlanExecutor
import TorrentNG.StorageSteps

/-!
# Runs of the executor

The executor of storage plans, for any plan and any way of executing and recognising its
steps. Before it executes anything, a run has settled which steps are done: each of them was
shown by the file system or precedes one that was, and every other step was seen not to be
done. From there on a run is one step after another, each skipped or executed.
-/

namespace TorrentNG.Plan

open Finset Interruptible Interruptible.Program

variable {guard : Guard World Answer} {plan : StoragePlan}
  {executeStepFn : StoragePlanStep → Run Unit} {rollbackPlanFn : StoragePlan → Run Rollback}
  {stepIsAppliedFn : Nat → StoragePlanStep → Run Bool}

/-- Rolling back after a cancellation leaves nothing but the invariant. -/
theorem cancellable_triple
    (rollsBack : Triple guard (fun _ => True) (rollbackPlanFn plan) (fun _ _ => True))
    {before after : World → Prop} {action : Run Unit} (completed : Finset Nat)
    (acts : Triple guard before action (fun _ => after)) :
    Triple guard before (cancellable rollbackPlanFn plan completed action) (fun _ => after) := by
  have cancels : ∀ error, Triple guard (fun _ => True)
      (rollbackCancelledProgress rollbackPlanFn error plan) (fun _ _ => True) := by
    refine fun error => rollsBack.bind fun rollback => ?_
    dsimp only
    split_ifs
    · exact .ret _ fun _ _ _ => trivial
    · exact .ret _ fun _ _ _ => trivial
  refine acts.recover fun error => ?_
  split_ifs
  · exact (cancels error).bind fun _ => .fail _
  · exact .fail _

/-! ## What a run knows before it executes anything -/

/-- At this world the answers about the steps can be trusted: a step that is taken as
applied is done, and one that is not is undone. A copy is done if the rename that publishes
it is. -/
structure Shows (guard : Guard World Answer) (plan : StoragePlan)
    (stepIsAppliedFn : Nat → StoragePlanStep → Run Bool) (world : World)
    (done undone : Nat → Prop) : Prop where
  each : ∀ index step, plan.steps[index]? = some step →
    Triple guard (· = world) (stepIsAppliedFn index step)
      (fun applied now => (if applied then done index else undone index) ∧ now = world)
  copies : ∀ index step next, plan.steps[index]? = some step →
    plan.steps[index + 1]? = some next → step.action = .copyVerifyRename →
      step.destination = next.source → done (index + 1) → done index

/-- The steps taken as done are done, and those that were not inferred have a checkpoint. -/
structure Progress.Sound (plan : StoragePlan) (completedSteps : List Nat) (done : Nat → Prop)
    (progress : Progress) : Prop where
  done : ∀ index ∈ progress.completed, done index
  inside : ∀ index ∈ progress.completed, index < plan.steps.length
  confirmed : ∀ index ∈ progress.completed, index ∉ progress.inferred → index ∈ completedSteps

/-- The step is taken as done, or nothing shows that it is. -/
def Examined (plan : StoragePlan) (undone : Nat → Prop) (completed : Finset Nat)
    (item : StoragePlanStep × Nat) : Prop :=
  item.2 ∈ completed ∨
    (undone item.2 ∧ precedesCompleted plan completed item.2 item.1 = false)

structure Progress.Settled (plan : StoragePlan) (completedSteps : List Nat)
    (done undone : Nat → Prop) (progress : Progress) : Prop
    extends progress.Sound plan completedSteps done where
  examined : ∀ item ∈ plan.steps.zipIdx, Examined plan undone progress.completed item

variable {index : Nat}

namespace Progress.Sound

variable {completedSteps : List Nat} {done : Nat → Prop} {progress : Progress}

theorem card_le (sound : progress.Sound plan completedSteps done) :
    progress.completed.card ≤ plan.steps.length := by
  calc progress.completed.card ≤ (Finset.range plan.steps.length).card :=
        card_le_card fun index member => mem_range.mpr (sound.inside index member)
    _ = plan.steps.length := card_range _

theorem infer (sound : progress.Sound plan completedSteps done)
    (inside : index < plan.steps.length) (holds : done index) :
    (progress.infer index).Sound plan completedSteps done := by
  refine ⟨forall_mem_insert _ _ _ |>.mpr ⟨holds, sound.done⟩,
    forall_mem_insert _ _ _ |>.mpr ⟨inside, sound.inside⟩, ?_⟩
  intro other member guessed
  rcases mem_insert.mp member with rfl | known
  · exact absurd (mem_insert_self _ _) guessed
  · exact sound.confirmed other known fun inferred => guessed (mem_insert_of_mem inferred)

end Progress.Sound

section Settling

variable {world : World} {done undone : Nat → Prop} {completedSteps : List Nat}
  (rollsBack : Triple guard (fun _ => True) (rollbackPlanFn plan) (fun _ _ => True))
  (shows : Shows guard plan stepIsAppliedFn world done undone)

include rollsBack shows

theorem validateCheckpoints_triple : Triple guard (· = world)
      (validateCheckpoints rollbackPlanFn stepIsAppliedFn plan completedSteps)
      (fun completed now => (∀ index ∈ completed, done index ∧ index < plan.steps.length ∧
        index ∈ completedSteps) ∧ now = world) := by
  refine (Triple.foldlM (fun rest completed now => (rest ⊆ completedSteps ∧
    ∀ index ∈ completed, done index ∧ index < plan.steps.length ∧ index ∈ completedSteps) ∧
      now = world) ?_ completedSteps ∅).weaken
    (fun _ _ same => ⟨⟨List.Subset.refl _, by simp⟩, same⟩)
    fun _ _ _ holds => ⟨holds.1.2, holds.2⟩
  intro index rest completed
  apply Triple.given
  rintro ⟨listed, sound⟩
  have others := List.subset_of_cons_subset listed
  refine (cancellable_triple rollsBack completed call_triple).bind fun _ => ?_
  cases placed : plan.steps[index]? with
  | none => exact Triple.ret _ fun _ _ same => ⟨⟨others, sound⟩, same⟩
  | some step =>
    refine (shows.each index step placed).bind fun applied => ?_
    cases applied with
    | false => exact Triple.ret _ fun _ _ holds => ⟨⟨others, sound⟩, holds.2⟩
    | true =>
      apply Triple.ret
      rintro now _ ⟨holds, same⟩
      refine ⟨⟨others, ?_⟩, same⟩
      intro other member
      rcases mem_insert.mp member with rfl | known
      · exact ⟨holds, (List.getElem?_eq_some_iff.mp placed).1, listed List.mem_cons_self⟩
      · exact sound other known

variable {progress : Progress}

section

variable (sound : progress.Sound plan completedSteps done)

include sound

/-- One step of the inference leaves everything as it was and has examined the step, or it
takes the step as done. -/
theorem inferStep_triple {step : StoragePlanStep}
    (placed : plan.steps[index]? = some step) :
    Triple guard (· = world) (inferStep rollbackPlanFn stepIsAppliedFn plan progress (step, index))
      (fun next now => (next.Sound plan completedSteps done ∧
        (next = progress ∧ Examined plan undone progress.completed (step, index) ∨
          next = progress.infer index ∧ index ∉ progress.completed)) ∧ now = world) := by
  simp only [inferStep]
  by_cases known : index ∈ progress.completed
  · rw [if_pos known]
    exact .ret _ fun _ _ same => ⟨⟨sound, Or.inl ⟨rfl, Or.inl known⟩⟩, same⟩
  rw [if_neg known]
  have inside := (List.getElem?_eq_some_iff.mp placed).1
  refine (cancellable_triple rollsBack _ call_triple).bind fun _ =>
    (shows.each index step placed).bind fun applied => ?_
  cases applied with
  | true =>
    exact .ret _ fun _ _ holds =>
      ⟨⟨sound.infer inside holds.1, Or.inr ⟨rfl, known⟩⟩, holds.2⟩
  | false =>
    cases precedes : precedesCompleted plan progress.completed index step with
    | false =>
      exact .ret _ fun _ _ holds =>
        ⟨⟨sound, Or.inl ⟨rfl, Or.inr ⟨holds.1, precedes⟩⟩⟩, holds.2⟩
    | true =>
      have holds : done index := by
        cases following : plan.steps[index + 1]? with
        | none => simp [precedesCompleted, following] at precedes
        | some next =>
          simp only [precedesCompleted, following, Bool.and_eq_true, decide_eq_true_eq,
            beq_iff_eq] at precedes
          exact shows.copies index step next placed following precedes.1.2 precedes.2
            (sound.done _ precedes.1.1)
      exact .ret _ fun _ _ same =>
        ⟨⟨sound.infer inside holds, Or.inr ⟨rfl, known⟩⟩, same.2⟩

/-- A round that finds nothing has examined every step; any other round adds a step. -/
theorem inferRound_triple :
    Triple guard (· = world) (inferRound rollbackPlanFn stepIsAppliedFn plan progress)
      (fun next now => (next.Sound plan completedSteps done ∧
        (next.changed = true → progress.completed.card < next.completed.card) ∧
        (next.changed = false → ∀ item ∈ plan.steps.zipIdx,
          Examined plan undone next.completed item)) ∧ now = world) := by
  -- What is known of a round after the steps in `past`.
  let Round (past : List (StoragePlanStep × Nat)) (next : Progress) : Prop :=
    next.Sound plan completedSteps done ∧ progress.completed.card ≤ next.completed.card ∧
      (next.changed = true → progress.completed.card < next.completed.card) ∧
      (next.changed = false → ∀ item ∈ past, Examined plan undone next.completed item)
  refine (Triple.foldlM (fun rest next now =>
    (∃ past, past ++ rest = plan.steps.zipIdx ∧ Round past next) ∧ now = world)
    ?_ _ _).weaken ?_ ?_
  · rintro ⟨step, index⟩ rest next
    apply Triple.given
    rintro ⟨past, split, known, least, grown, seen⟩
    have placed : plan.steps[index]? = some step := by
      rw [← List.mk_mem_zipIdx_iff_getElem?, ← split]
      simp
    apply (inferStep_triple rollsBack shows known placed).leave
    rintro later now _ ⟨⟨laterSound, which⟩, same⟩
    refine ⟨⟨past ++ [(step, index)], by simpa using split, laterSound, ?_⟩, same⟩
    rcases which with ⟨rfl, examined⟩ | ⟨rfl, fresh⟩
    · exact ⟨least, grown, fun unchanged =>
        List.forall_mem_append.mpr ⟨seen unchanged, List.forall_mem_singleton.mpr examined⟩⟩
    · have grows : next.completed.card < (next.infer index).completed.card := by
        rw [Progress.infer, card_insert_of_notMem fresh]
        exact Nat.lt_succ_self _
      have more := least.trans_lt grows
      exact ⟨more.le, fun _ => more, nofun⟩
  · rintro now _ same
    exact ⟨⟨[], rfl, ⟨sound.done, sound.inside, sound.confirmed⟩, le_rfl, nofun, by simp⟩, same⟩
  · rintro next now _ ⟨⟨past, split, known, _, grown, seen⟩, same⟩
    rw [List.append_nil] at split
    exact ⟨⟨known, grown, split ▸ seen⟩, same⟩

/-- The rounds settle: there cannot be more rounds that add a step than steps. -/
theorem inferLoop_triple {fuel : Nat}
    (enough : plan.steps.length < progress.completed.card + fuel) :
    Triple guard (· = world) (inferLoop rollbackPlanFn stepIsAppliedFn plan fuel progress)
      (fun next now => next.Settled plan completedSteps done undone ∧ now = world) := by
  induction fuel generalizing progress with
  | zero => exact absurd sound.card_le (by omega)
  | succ fuel shorter =>
    refine (inferRound_triple rollsBack shows sound).bind fun next => .given ?_
    rintro ⟨known, grown, seen⟩
    split_ifs with changed
    · have more := grown changed
      exact shorter known (by omega)
    · exact .ret _ fun _ _ same => ⟨⟨known, seen (Bool.eq_false_of_not_eq_true changed)⟩, same⟩

end

end Settling

/-! ## One step after another -/

variable {before after : World → Prop}

theorem checkpointStep_triple (step : StoragePlanStep)
    (persists : ∀ world, guard.invariant world → before world →
      guard.invariant (world.persist index) ∧ after (world.persist index)) :
    Triple guard before (checkpointStep index step) (fun _ => after) :=
  call_triple.bind fun _ => (Triple.change _ persists).bind fun _ => call_triple

variable (rollsBack : Triple guard (fun _ => True) (rollbackPlanFn plan) (fun _ _ => True))

include rollsBack

/-- A step that is done is skipped, after a checkpoint if it was inferred. -/
theorem runStep_skip {completed inferred : Finset Nat} (known : index ∈ completed)
    (keeps : index ∉ inferred → ∀ world, guard.invariant world → before world → after world)
    (persists : ∀ world, guard.invariant world → before world →
      guard.invariant (world.persist index) ∧ after (world.persist index))
    (execution : StoragePlanExecution) (step : StoragePlanStep) :
    Triple guard before (runStep checkpointStep executeStepFn rollbackPlanFn plan inferred
      (completed, execution) (step, index))
      (fun state world => state.1 = insert index completed ∧ after world) := by
  simp only [runStep]
  rw [if_pos known]
  have same : completed = insert index completed := (insert_eq_of_mem known).symm
  split
  next =>
    refine (cancellable_triple rollsBack _ (checkpointStep_triple step persists)).bind fun _ => ?_
    exact .ret _ fun _ _ holds => ⟨same, holds⟩
  next guessed =>
    exact (Triple.ret _ (keeps guessed)).bind fun _ =>
      .ret _ fun _ _ holds => ⟨same, holds⟩

/-- A step that is not done is executed and gets its checkpoint. -/
theorem runStep_execute {begun executed : World → Prop} (finished : World → Prop)
    {completed : Finset Nat} (fresh : index ∉ completed) {step : StoragePlanStep}
    (begins : ∀ world, guard.invariant world → before world →
      guard.invariant (world.begin index) ∧ begun (world.begin index))
    (executes : Triple guard begun (executeStepFn step) (fun _ => executed))
    (finishes : ∀ world, guard.invariant world → executed world →
      guard.invariant (world.finish index) ∧ finished (world.finish index))
    (persists : ∀ world, guard.invariant world → finished world →
      guard.invariant (world.persist index) ∧ after (world.persist index)) (inferred : Finset Nat)
    (execution : StoragePlanExecution) :
    Triple guard before (runStep checkpointStep executeStepFn rollbackPlanFn plan inferred
      (completed, execution) (step, index))
      (fun state world => state.1 = insert index completed ∧ after world) := by
  simp only [runStep]
  rw [if_neg fresh]
  refine (cancellable_triple rollsBack _ call_triple).bind fun _ =>
    (Triple.change _ begins).bind fun _ => ?_
  refine (executes.recover fun error => rollsBack.bind fun _ => .fail _).bind fun _ =>
    (Triple.change _ finishes).bind fun _ =>
    (cancellable_triple rollsBack _ (checkpointStep_triple step persists)).bind fun _ => ?_
  exact .ret _ fun _ _ holds => ⟨rfl, holds⟩

/-- A run that may do something, from what is settled before its first step and what its
steps do from there. -/
theorem executeStoragePlanWithExecutor_triple {world : World} {done undone : Nat → Prop}
    {completedSteps : List Nat} (shows : Shows guard plan stepIsAppliedFn world done undone)
    (runs : plan.dryRun = false → ∀ progress : Progress,
      progress.Settled plan completedSteps done undone → Triple guard (· = world)
        (plan.steps.zipIdx.foldlM
          (runStep checkpointStep executeStepFn rollbackPlanFn plan progress.inferred)
          (progress.completed, {})) (fun _ => after)) : Triple guard (· = world)
      (executeStoragePlanWithExecutor checkpointStep executeStepFn rollbackPlanFn
        stepIsAppliedFn plan completedSteps) (fun _ now => plan.dryRun = false → after now) := by
  refine (Triple.ofExcept _).bind fun _ => .given fun _ => ?_
  cases dry : plan.dryRun with
  | true => exact .ret _ fun _ _ _ impossible => by cases impossible
  | false =>
    cases completedSteps.find? (plan.steps.length ≤ ·) with
    | some index => exact .fail _
    | none =>
      refine (validateCheckpoints_triple rollsBack shows).bind fun completed =>
        .given fun sound => ?_
      have first : (⟨completed, ∅, false⟩ : Progress).Sound plan completedSteps done :=
        ⟨fun index member => (sound index member).1, fun index member => (sound index member).2.1,
          fun index member _ => (sound index member).2.2⟩
      refine (inferLoop_triple rollsBack shows first (by omega)).bind fun progress =>
        .given fun settled => (runs dry progress settled).bind fun _ => ?_
      exact .ret _ fun _ _ holds _ => holds

end TorrentNG.Plan
