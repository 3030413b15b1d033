import Mathlib.Data.Finset.Card
import TorrentNG.SecureFs

/-!
# Executing a storage plan

`execute_storage_plan_with_executor` of `plan.rs` in `rt-storage`. A run is given the steps
of the plan whose checkpoint is durable. It checks those against the file system, then
infers which further steps are done already, and then executes what is left in order, with
a checkpoint after each step. A step that fails rolls the plan back. So does a cancellation,
as long as no step that cannot be taken back has been done.

A run records the steps it hands to the file system and those it executed to their end.
This is for the proofs only; nothing reads it.
-/

namespace TorrentNG.Plan

open Interruptible Interruptible.Program Metainfo

namespace World

variable (world : World)

/-- A new run begins. -/
def restart : World := { world with begun := [] }

variable (index : Nat)

def begin : World :=
  { world with begun := world.begun ++ [index] }

def finish : World :=
  { world with finished := world.finished ++ [index] }

/-- The checkpoint of a step becomes durable. -/
def persist : World :=
  { world with
    persisted := if index ∈ world.persisted then world.persisted
      else world.persisted.orderedInsert (· ≤ ·) index }

end World

structure StoragePlanExecution where
  appliedSteps : List StoragePlanStep := []
  rolledBackSteps : List StoragePlanStep := []
  rollbackFailures : List (StoragePlanStep × Message) := []

variable (plan : StoragePlan) (completed : Finset Nat)

def hasCommittedDestructiveStep : Bool :=
  decide (∃ index ∈ completed, (plan.steps[index]?).any (·.action.isDestructive))

def cancellationCanRollback
    (currentStepCommitted : Bool) : Bool :=
  (currentStepCommitted || decide completed.Nonempty) &&
    decide (∀ index ∈ completed, (plan.steps[index]?).any (!·.action.isDestructive))

/-- The error of a run together with the rollback steps that failed after it. -/
def withRollbackFailures (error : StorageError) (failures : List (StoragePlanStep × Message)) :
    Message :=
  let describe : StoragePlanStep × Message → Message := fun (step, reason) =>
    [.action step.action, .text " "] ++ (step.source.map Part.path).toList ++ [.text " -> "] ++
      (step.destination.map Part.path).toList ++ [.text ": "] ++ reason
  error.message ++ [.text "; ADDITIONALLY ", .number failures.length,
    .text " rollback step(s) failed and left the filesystem in a partial state requiring",
    .text " manual attention: "] ++ [.text "; "].intercalate (failures.map describe)

/-- What a run answers when a step has failed and the plan was rolled back. -/
def executionError (error : StorageError)
    (failures : List (StoragePlanStep × Message)) : StorageError :=
  let reason := if failures.isEmpty then error.message else withRollbackFailures error failures
  let committed := hasCommittedDestructiveStep plan completed
  if error.requiresManualRecovery || !failures.isEmpty || committed then
    .filesystemStateUncertain
      (match error with
        | .filesystemStateUncertain step _ => step
        | _ =>
            if !failures.isEmpty then "rollback"
            else if committed then "execute_after_destructive_step" else "execute") reason
  else
    .stagedMoveFailed
      (match error with
        | .stagedMoveFailed step _ => if step = "pause" ∨ step = "cancel" then step else "execute"
        | _ => "execute") reason

/-- The copy that a completed rename has published is complete as well. -/
def precedesCompleted (index : Nat)
    (step : StoragePlanStep) : Bool :=
  match plan.steps[index + 1]? with
  | some next => decide (index + 1 ∈ completed) && step.action == .copyVerifyRename &&
      step.destination == next.source
  | none => false

/-- The state of the inference: the steps taken as done, those of them that were inferred,
and whether the round has found any. -/
structure Progress where
  completed : Finset Nat
  inferred : Finset Nat
  changed : Bool

def Progress.infer (progress : Progress) (index : Nat) : Progress :=
  ⟨insert index progress.completed, insert index progress.inferred, true⟩

section Executor

variable (checkpointStep : Nat → StoragePlanStep → Run Unit)
  (executeStepFn : StoragePlanStep → Run Unit) (rollbackPlanFn : StoragePlan → Run Rollback)
  (stepIsAppliedFn : Nat → StoragePlanStep → Run Bool)

def rollbackCancelledProgress (error : StorageError) (plan : StoragePlan) :
    Run StorageError := do
  let (_, failures) ← rollbackPlanFn plan
  if failures.isEmpty then return error
  return .filesystemStateUncertain "rollback" (withRollbackFailures error failures)

variable (plan : StoragePlan)

/-- A call at which the run may be cancelled. -/
def cancellable (completed : Finset Nat) (action : Run Unit) : Run Unit :=
  recover action fun error => do
    if cancellationCanRollback plan completed false && error.isCancellation then
      fail (← rollbackCancelledProgress rollbackPlanFn error plan)
    fail error

/-- A checkpoint counts if the file system confirms it. -/
def validateCheckpoint (completed : Finset Nat) (index : Nat) :
    Run (Finset Nat) := do
  cancellable rollbackPlanFn plan completed checkControl
  match plan.steps[index]? with
  | none => return completed
  | some step =>
      if ← stepIsAppliedFn index step then return insert index completed
      else return completed

def validateCheckpoints (completedSteps : List Nat) : Run (Finset Nat) :=
  completedSteps.foldlM (validateCheckpoint rollbackPlanFn stepIsAppliedFn plan) ∅

def inferStep (progress : Progress) (item : StoragePlanStep × Nat) :
    Run Progress := do
  let (step, index) := item
  if index ∈ progress.completed then return progress
  cancellable rollbackPlanFn plan progress.completed checkControl
  if ← stepIsAppliedFn index step then return progress.infer index
  if precedesCompleted plan progress.completed index step then return progress.infer index
  return progress

def inferRound (progress : Progress) : Run Progress :=
  plan.steps.zipIdx.foldlM (inferStep rollbackPlanFn stepIsAppliedFn plan)
    { progress with changed := false }

/-- Rounds of inference until one finds nothing. Every round before the last completes a
step, so there are at most as many rounds as steps and one more. -/
def inferLoop (plan : StoragePlan) : Nat → Progress → Run Progress
  | 0, progress => return progress
  | fuel + 1, progress => do
      let next ← inferRound rollbackPlanFn stepIsAppliedFn plan progress
      if next.changed then inferLoop plan fuel next else return next

/-- One step of the plan: skipped if it is done, else executed and checkpointed. -/
def runStep (inferred : Finset Nat)
    (state : Finset Nat × StoragePlanExecution) (item : StoragePlanStep × Nat) :
    Run (Finset Nat × StoragePlanExecution) := do
  let (completed, execution) := state
  let (step, index) := item
  let applied := { execution with appliedSteps := execution.appliedSteps ++ [step] }
  if index ∈ completed then
    if index ∈ inferred then
      cancellable rollbackPlanFn plan completed (checkpointStep index step)
    return (completed, applied)
  cancellable rollbackPlanFn plan completed checkControl
  change (·.begin index)
  recover (executeStepFn step) fun error => do
    let (_, failures) ← rollbackPlanFn plan
    fail (executionError plan completed error failures)
  change (·.finish index)
  cancellable rollbackPlanFn plan (insert index completed) (checkpointStep index step)
  return (insert index completed, applied)

def executeStoragePlanWithExecutor (completedSteps : List Nat) :
    Run StoragePlanExecution := do
  ofExcept (ensurePlanCanApply plan)
  if plan.dryRun then return {}
  match completedSteps.find? (plan.steps.length ≤ ·) with
  | some index =>
      fail (staged "checkpoint" [.text "checkpointed storage-plan step ", .number index,
        .text " is outside plan length ", .number plan.steps.length])
  | none =>
      let completed ← validateCheckpoints rollbackPlanFn stepIsAppliedFn plan completedSteps
      let progress ← inferLoop rollbackPlanFn stepIsAppliedFn plan (plan.steps.length + 1)
        ⟨completed, ∅, false⟩
      let (_, execution) ← plan.steps.zipIdx.foldlM
        (runStep checkpointStep executeStepFn rollbackPlanFn plan progress.inferred)
        (progress.completed, {})
      return execution

end Executor

/-- The checkpoint callback of the engine: the step is recorded durably, and then the
control plane is looked at. Either may fail. -/
def checkpointStep (index : Nat) (_step : StoragePlanStep) : Run Unit := do
  call
  change (·.persist index)
  checkControl

/-- `execute_storage_plan_under_roots_with_checkpoints_and_control`, resumed with the
checkpoints that are durable. -/
def executeStoragePlan (sha1 : List UInt8 → Digest 20) (plan : StoragePlan) :
    Run StoragePlanExecution := do
  change World.restart
  let world ← look
  executeStoragePlanWithExecutor checkpointStep (executeStep sha1) (rollbackPlan sha1)
    (fun index step => stepIsApplied sha1 plan index step (decide (index ∈ world.persisted)))
    plan world.persisted

end TorrentNG.Plan
