import Mathlib.Data.Finset.Basic
import TorrentNG.StorageErrors
import TorrentNG.Utf8

/-!
# Storage plans

`plan.rs` of `rt-storage`, the planning side: a move is planned as a list of steps together
with the steps that roll it back. A move within one file system is a single rename. Any
other move copies to a staging path beside the destination, renames the copy into place
and deletes the source. Which of the two is planned, and whether the plan may be applied
at all, is read off the disk at planning time; the plan is executed later.

The texts of the errors are kept as the parts that `format!` puts together.
-/

namespace TorrentNG.Plan

open Utf8 List

/-! ## Paths -/

/-- An `OsString`. -/
abbrev Name := List UInt8

/-- `std::path::Component`. -/
inductive Component where
  | rootDir
  | curDir
  | parentDir
  | normal (name : Name)
deriving Repr, DecidableEq

abbrev Path := List Component

namespace Path

variable (path : Path)

/-- `Path::file_name`. -/
def fileName : Option Name :=
  match path.getLast? with
  | some (.normal name) => some name
  | _ => none

/-- `Path::parent`. -/
def parent : Option Path :=
  match path.getLast? with
  | none | some .rootDir => none
  | some _ => some path.dropLast

def join (name : Name) : Path := path ++ [.normal name]

/-- `PathBuf::set_file_name`, for a name without separators. -/
def setFileName (name : Name) : Path :=
  join (if (fileName path).isSome then path.dropLast else path) name

end Path

variable (destination : Path)

/-- The name under which a copy to `destination` is staged: a name that is not UTF-8 is
replaced. -/
def stagingName : Name :=
  let fileName := (destination.fileName.filter fun name => (decode name).isSome).getD
    (ascii "torrentng-staged")
  ascii "." ++ fileName ++ ascii ".tng-copying"

def stagingPath : Path := destination.setFileName (stagingName destination)

theorem replacementName_isText :
    (decode (ascii "." ++ ascii "torrentng-staged" ++ ascii ".tng-copying")).isSome := by
  rw [decode_ascii]
  · rfl
  · simp [ascii]
    decide

/-- The staging path is never the destination itself. -/
theorem stagingPath_ne : stagingPath destination ≠ destination := by
  intro same
  simp only [stagingPath, Path.setFileName, Path.join] at same
  cases named : destination.fileName with
  | none =>
    rw [named] at same
    have lengths := congrArg List.length same
    simp at lengths
  | some name =>
    have last : destination.getLast? = some (.normal (stagingName destination)) := by
      have ends := congrArg List.getLast? same
      rw [getLast?_concat] at ends
      exact ends.symm
    have staged : stagingName destination = name := by
      simpa only [Path.fileName, last, Option.some.injEq] using named
    simp only [stagingName, named, Option.filter_some] at staged
    by_cases text : (decode name).isSome
    · -- The staging name is longer than the name it is made from.
      rw [if_pos text] at staged
      have lengths := congrArg List.length staged
      simp only [ascii, length_append, length_map, Option.getD_some] at lengths
      change 1 + _ + 12 = _ at lengths
      omega
    · -- The replacement is text, the name is not.
      rw [if_neg text] at staged
      rw [← staged] at text
      exact text replacementName_isText

/-! ## Actions and issues -/

inductive PlannedStorageAction where
  | importExisting
  | rename
  | copyVerifyRename
  | safeDelete
  | safeDeleteIfPresent
  | pruneEmptyDirs
deriving Repr, DecidableEq

/-- A step after which a plan can no longer be rolled back. -/
def PlannedStorageAction.isDestructive : PlannedStorageAction → Bool
  | rename | safeDelete | safeDeleteIfPresent | pruneEmptyDirs => true
  | importExisting | copyVerifyRename => false

inductive PlanIssue where
  | sourceMissing (path : Path)
  | destinationExists (path : Path)
  | insufficientCapacity (needed available : Nat)
  | atomicNoReplaceRenameUnavailable
  | deleteRequiresDryRunApproval
deriving Repr, DecidableEq

/-! ## Errors -/

/-- A piece of a formatted text. -/
inductive Part where
  | text (words : String)
  | path (path : Path)
  | number (value : Nat)
  | action (action : PlannedStorageAction)
  | issues (issues : List PlanIssue)
deriving Repr, DecidableEq

abbrev Message := List Part

abbrev StorageError := StorageErrors.StorageError Path Message

/-- `to_string`. -/
def StorageError.message : StorageError → Message
  | .io path source => [.text "I/O error on ", .path path, .text ": ", .text source]
  | .permissionDenied path => [.text "permission denied: ", .path path]
  | .fileNotFound path => [.text "file not found: ", .path path]
  | .cancelled => [.text "operation cancelled"]
  | .shortIo path expected actual =>
      [.text "short I/O on ", .path path, .text ": expected ", .number expected,
        .text " bytes, got ", .number actual]
  | .stagedMoveFailed step reason =>
      [.text "staged move failed at step ", .text step, .text ": "] ++ reason
  | .filesystemStateUncertain step reason =>
      [.text "storage filesystem state requires manual recovery at step ", .text step,
        .text ": "] ++ reason
  | .other message => [.text message]

/-! ## Plans -/

structure StoragePlanStep where
  action : PlannedStorageAction
  source : Option Path
  destination : Option Path
  bytes : Nat
deriving Repr, DecidableEq

structure StoragePlan where
  dryRun : Bool
  canApply : Bool
  issues : List PlanIssue
  steps : List StoragePlanStep
  rollbackSteps : List StoragePlanStep
deriving Repr, DecidableEq

structure MovePlanRequest where
  source : Path
  destination : Path
  bytes : Nat
  availableBytes : Option Nat
  dryRun : Bool
deriving Repr, DecidableEq

/-- What planning reads off the disk. -/
structure Disk where
  /-- `path_exists_no_follow` -/
  present : Path → Bool
  /-- The device of a path whose metadata can be read. -/
  device : Path → Option Nat

variable (disk : Disk)

def commonIssues (source destination : Path) (bytes : Nat)
    (availableBytes : Option Nat) : List PlanIssue :=
  (if !disk.present source then [.sourceMissing source] else []) ++
  (if disk.present destination then [.destinationExists destination] else []) ++
  match availableBytes with
  | some available =>
      if available < bytes then [.insufficientCapacity bytes available] else []
  | none => []

def sameFilesystem (source destination : Path) : Option Bool := do
  let sourceDev ← disk.device source
  let destDev ← disk.device (destination.parent.getD [.curDir])
  return sourceDev == destDev

variable (source : Path)

/-- The step of a move within one file system. -/
def renameStep (destination : Path) (bytes : Nat) : StoragePlanStep :=
  ⟨.rename, some source, some destination, bytes⟩

def copyStep (staging : Path) (bytes : Nat) : StoragePlanStep :=
  ⟨.copyVerifyRename, some source, some staging, bytes⟩

def deleteStep (bytes : Nat) : StoragePlanStep :=
  ⟨.safeDelete, some source, none, bytes⟩

def planMoveWithRenameSupport (req : MovePlanRequest)
    (atomicRenameSupported : Bool) : StoragePlan :=
  let issues := commonIssues disk req.source req.destination req.bytes req.availableBytes ++
    (if !atomicRenameSupported then [.atomicNoReplaceRenameUnavailable] else [])
  let staging := stagingPath req.destination
  let sameDevice := (sameFilesystem disk req.source req.destination).getD false
  { dryRun := req.dryRun
    canApply := issues.isEmpty
    issues
    steps :=
      if sameDevice then [renameStep req.source req.destination req.bytes]
      else
        [copyStep req.source staging req.bytes, renameStep staging req.destination req.bytes,
          deleteStep req.source req.bytes]
    rollbackSteps := [⟨.safeDeleteIfPresent, some staging, none, req.bytes⟩] }

section PlanMove

variable (disk : Disk) (req : MovePlanRequest) (atomicRenameSupported : Bool)

theorem planMove_steps_of_same
    (same : (sameFilesystem disk req.source req.destination).getD false = true) :
    (planMoveWithRenameSupport disk req atomicRenameSupported).steps =
      [renameStep req.source req.destination req.bytes] := if_pos same

theorem planMove_steps_of_other
    (other : (sameFilesystem disk req.source req.destination).getD false = false) :
    (planMoveWithRenameSupport disk req atomicRenameSupported).steps =
      [copyStep req.source (stagingPath req.destination) req.bytes,
        renameStep (stagingPath req.destination) req.destination req.bytes,
        deleteStep req.source req.bytes] :=
  if_neg (Bool.eq_false_iff.mp other)

/-- Both kinds of move are rolled back in the same way. -/
theorem planMove_rollbackSteps :
    (planMoveWithRenameSupport disk req atomicRenameSupported).rollbackSteps =
      [⟨.safeDeleteIfPresent, some (stagingPath req.destination), none, req.bytes⟩] := rfl

/-- A move that may be applied does not move a path onto itself: its source was there when
it was planned, and its destination was not. -/
theorem source_ne_destination
    (applies : (planMoveWithRenameSupport disk req atomicRenameSupported).canApply = true) :
    req.source ≠ req.destination := by
  intro same
  simp only [planMoveWithRenameSupport, commonIssues, same, List.isEmpty_iff,
    List.append_eq_nil_iff] at applies
  obtain ⟨⟨⟨there, absent⟩, _⟩, _⟩ := applies
  by_cases present : disk.present req.destination
  · rw [if_pos present] at absent
    cases absent
  · simp [present] at there

end PlanMove

def ensurePlanCanApply (plan : StoragePlan) : Except StorageError Unit :=
  if plan.canApply && plan.issues.isEmpty then .ok ()
  else .error (.stagedMoveFailed "plan" [.issues plan.issues])

end TorrentNG.Plan
