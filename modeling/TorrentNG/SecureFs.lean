import TorrentNG.Interruptible
import TorrentNG.Metainfo
import TorrentNG.StoragePlan

/-!
# The steps of a storage plan on the file system

`secure_fs.rs` of `rt-storage`: how one step of a plan is executed, how it is recognised as
applied, and how a plan is rolled back. The file system is a map from paths to contents; a
directory is one content, whole with everything below it. Paths that lie inside each other
and the storage roots that confine them are left out.

Everything the code cannot decide is asked of the outside: whether a call fails, and what
a copy or the removal of a directory has left behind at every moment of it. A copy is
whatever the outside says was written; only the verification makes it a copy.
-/

namespace TorrentNG.Plan

open Fallible Interruptible Interruptible.Program MachineArithmetic Metainfo

/-! ## Contents -/

/-- What a path holds. The children of a directory are listed in the order of their names,
which is the order in which the code compares them. -/
inductive Node where
  | file (content : List UInt8)
  | directory (children : List (Name × Node))
  | symlink (target : Name)
  | special

def Node.isSymlink : Node → Bool
  | .symlink _ => true
  | _ => false

def maxStorageTreeDepth : Nat := 64

def staged (step : String) (reason : Message) : StorageError := .stagedMoveFailed step reason

def stagedUncertain (step : String) (reason : Message) : StorageError :=
  .filesystemStateUncertain step reason

/-- A text and the error it introduces. -/
def introducing (text : Message) (error : StorageError) : Message := text ++ error.message

/-- An error and what else there is to say. -/
def adding (error : StorageError) (text : Message) : Message := error.message ++ text

variable (path : Path)

def unsafeSymlink (step : String) : StorageError :=
  staged step [.text "symlink entries are not allowed in move/import plans: ", .path path]

def unsupportedFileType (step : String) : StorageError :=
  staged step [.text "unsupported file type: ", .path path]

def ensureStorageTreeDepth (depth : Nat) (path : Path) (step : String) :
    Except StorageError Unit :=
  if depth ≤ maxStorageTreeDepth then .ok ()
  else
    .error (staged step [.text "directory nesting depth ", .number depth,
      .text " exceeds the maximum of ", .number maxStorageTreeDepth, .text ": ", .path path])

mutual
/-- `content_len_at`. -/
def contentLen (path : Path) (depth : Nat) : Node → Except StorageError Nat
  | .file content => .ok content.length
  | .directory children => do
      ensureStorageTreeDepth depth path "verify-tree-depth"
      childrenLen path depth children 0
  | .symlink _ => .error (unsupportedFileType path "verify")
  | .special => .error (unsupportedFileType path "verify")

def childrenLen (path : Path) (depth : Nat) :
    List (Name × Node) → Nat → Except StorageError Nat
  | [], total => .ok total
  | (name, child) :: rest, total => do
      let length ← contentLen (path.join name) (depth + 1) child
      childrenLen path depth rest (saturatingAdd total length)
end

mutual
/-- A walk over a tree: directories are entered down to the depth limit, and everything
else is looked at by `leaf`. -/
def walkTree (deep : String) (leaf : Path → Node → Except StorageError Unit) (path : Path)
    (depth : Nat) : Node → Except StorageError Unit
  | .directory children => do
      ensureStorageTreeDepth depth path deep
      walkChildren deep leaf path depth children
  | .file content => leaf path (.file content)
  | .symlink target => leaf path (.symlink target)
  | .special => leaf path .special

def walkChildren (deep : String) (leaf : Path → Node → Except StorageError Unit)
    (path : Path) (depth : Nat) : List (Name × Node) → Except StorageError Unit
  | [] => .ok ()
  | (name, child) :: rest => do
      walkTree deep leaf (path.join name) (depth + 1) child
      walkChildren deep leaf path depth rest
end

variable (node : Node)

/-- A copy takes files and directories only. -/
def copyable : Except StorageError Unit :=
  walkTree "copy-tree-depth" (fun path node =>
    match node with
    | .symlink _ => .error (unsafeSymlink path "copy-source")
    | .special => .error (unsupportedFileType path "copy-source")
    | _ => .ok ()) path 0 node

def removable : Except StorageError Unit :=
  walkTree "delete-tree-depth" (fun path node =>
    match node with
    | .special => .error (unsupportedFileType path "delete-source")
    | _ => .ok ()) path 0 node

def rejectSymlink (step : String) : Except StorageError Unit :=
  if node.isSymlink then .error (unsafeSymlink path step) else .ok ()

def rejectSpecial (step : String) : Except StorageError Unit :=
  match node with
  | .special => .error (unsupportedFileType path step)
  | _ => .ok ()

section Verification

variable (sha1 : List UInt8 → Digest 20)

mutual
/-- `verify_content_at`: the same tree of names, and files of the same hash. -/
def verifyContent (sourcePath destinationPath : Path) (depth : Nat) :
    Node → Node → Except StorageError Unit
  | .symlink _, _ => .error (unsafeSymlink sourcePath "verify-content-source")
  | .directory children, destination => do
      rejectSymlink destinationPath destination "verify-content-destination"
      ensureStorageTreeDepth depth sourcePath "verify-tree-depth"
      match destination with
      | .directory others =>
          if children.map Prod.fst ≠ others.map Prod.fst then
            .error (staged "verify-content" [.text
              "destination directory has entries absent from source: ", .path destinationPath])
          else verifyChildren sourcePath destinationPath depth children others
      | _ => .error (staged "verify-content" [.text "expected a directory at ",
          .path destinationPath, .text " to match source directory ", .path sourcePath])
  | .file content, destination => do
      rejectSymlink destinationPath destination "verify-content-destination"
      match destination with
      | .file other =>
          if sha1 content = sha1 other then .ok ()
          else
            .error (staged "verify-content" [.text "content hash mismatch after copy: ",
              .path sourcePath, .text " != ", .path destinationPath])
      | _ => .error (staged "verify-content" [.text "expected a regular file at ",
          .path destinationPath, .text " to match source file ", .path sourcePath])
  | .special, destination => do
      rejectSymlink destinationPath destination "verify-content-destination"
      .error (unsupportedFileType sourcePath "verify-content")

def verifyChildren (sourcePath destinationPath : Path) (depth : Nat) :
    List (Name × Node) → List (Name × Node) → Except StorageError Unit
  | (name, child) :: rest, (_, other) :: others => do
      verifyContent (sourcePath.join name) (destinationPath.join name) (depth + 1) child other
      verifyChildren sourcePath destinationPath depth rest others
  | _, _ => .ok ()
end

end Verification

/-! ## The world of a plan -/

abbrev FileSystem := Path → Option Node

structure World where
  files : FileSystem
  /-- The steps whose checkpoint is durable, in increasing order. -/
  persisted : List Nat
  /-- The steps handed to the file system since the current run began. -/
  begun : List Nat
  /-- The steps that were executed to their end, over all runs. -/
  finished : List Nat

namespace World

/-- A file system on which no run of the plan has begun. -/
def start (files : FileSystem) : World := ⟨files, [], [], []⟩

def set (world : World) (path : Path) (entry : Option Node) : World :=
  { world with files := Function.update world.files path entry }

/-- A rename that does not replace anything. -/
def move (world : World) (source destination : Path) : World :=
  (world.set source none).set destination (world.files source)

end World

inductive Answer where
  | proceeds
  | fails (error : StorageError)
  /-- The path that is being written or removed now holds this. -/
  | leaves (content : Node)

abbrev Run (α : Type) := Program World Answer StorageError α

/-- A call that may fail and changes nothing: a check of the control plane, a read, a sync. -/
def call : Run Unit := ask fun
  | .fails error => .error error
  | _ => .ok ()

@[simp]
theorem call_proceeds (answers : List Answer) (world : World) :
    call (.proceeds :: answers) world = ⟨.returned (), answers, [], world⟩ := rfl

@[simp]
theorem call_fails (error : StorageError) (answers : List Answer) (world : World) :
    call (.fails error :: answers) world = ⟨.failed error, answers, [], world⟩ := rfl

@[simp]
theorem call_crashes (world : World) : call [] world = ⟨.crashed, [], [], world⟩ := rfl

abbrev checkControl : Run Unit := call

/-- A path in the middle of being written or removed; whether anything was done to it. -/
def leavePieces : Run Bool :=
  changes (fun
    | .leaves content => some (·.set path (some content))
    | _ => none) false

/-- Answer a failure with another error. -/
def mapError (program : Run α) (replace : StorageError → StorageError) : Run α :=
  recover program fun error => fail (replace error)

def entryState : Run (Option Node) := do
  call
  let world ← look
  return world.files path

@[simp]
theorem entryState_proceeds (answers : List Answer) (world : World) :
    entryState path (.proceeds :: answers) world =
      ⟨.returned (world.files path), answers, [], world⟩ := rfl

def entryType : Run Node := do
  ofExcept (okOr (← entryState path) (.fileNotFound path))

def requiredPath (path : Option Path) (step : String) : Except StorageError Path :=
  okOr path (staged step [.text "missing path"])

def ensureDestinationAvailable : Run Unit := do
  if (← entryState path).isSome then
    fail (staged "destination" [.text "destination exists: ", .path path])

/-- `u64::MAX` stands for an unknown length. -/
def unknownLength : Nat := 2 ^ 64 - 1

def verifyExpectedLength (expected : Nat) (path : Path) : Run Unit := do
  if expected = unknownLength then return
  checkControl
  let node ← entryType path
  let actual ← ofExcept (contentLen path 0 node)
  if actual ≠ expected then fail (.shortIo path expected actual)

/-! ## Executing a step -/

/-- A directory goes piece by piece, anything else at once. -/
def removePieces : Node → Run Bool
  | .directory _ => leavePieces path
  | _ => return false

/-- `remove_entry_at`. -/
def removeEntry (missingOk : Bool) : Run Unit := do
  checkControl
  match ← entryState path with
  | none => if !missingOk then fail (.fileNotFound path)
  | some node =>
      let removed ← removePieces path node
      let applied (error : StorageError) := stagedUncertain "delete" (adding error
        [.text "; deletion of ", .path path, .text " was only partially applied"])
      mapError (do checkControl; ofExcept (removable path node)) fun error =>
        if removed then applied error else error
      change (·.set path none)
      mapError call applied

def secureDelete (missingOk : Bool) : Run Unit := do
  checkControl
  removeEntry path missingOk

section Steps

variable (sha1 : List UInt8 → Digest 20) (source : Path) (destination : Path)

/-- `verify_content_with_control`. -/
def verifyContentWithControl : Run Unit := do
  checkControl
  let sourceNode ← entryType source
  let destinationNode ← entryType destination
  ofExcept (verifyContent sha1 source destination 0 sourceNode destinationNode)

/-- The new entry before anything is written to it. -/
def blank : Node → Node
  | .directory _ => .directory []
  | _ => .file []

variable (expectedBytes : Nat)

/-- `secure_copy_entry`: a copy that fails after its destination was created takes the
destination away again. -/
def secureCopyEntry : Run Unit := do
  checkControl
  let node ← entryType source
  ofExcept (rejectSymlink source node "copy-source")
  ensureDestinationAvailable destination
  ofExcept (rejectSpecial source node "copy-source")
  call
  change (·.set destination (some (blank node)))
  recover
    (do
      let _ ← leavePieces destination
      call
      ofExcept (copyable source node)
      verifyExpectedLength expectedBytes destination
      verifyContentWithControl sha1 source destination)
    fun error => do
      mapError (removeEntry destination true) fun cleanupError =>
        stagedUncertain "copy-cleanup" (adding error (introducing
          [.text "; failed to remove partial destination ", .path destination, .text ": "]
          cleanupError))
      mapError call fun syncError =>
        stagedUncertain "copy-cleanup-sync" (adding error (introducing
          [.text "; removed partial destination but failed to sync its parent: "] syncError))
      fail error
  call

def secureCopy : Run Unit := do
  checkControl
  call
  ensureDestinationAvailable destination
  secureCopyEntry sha1 source destination expectedBytes

/-- A hard link, where the file system can make one. -/
def linkFile (node : Node) (destination : Path) : Run Bool :=
  match node with
  | .file _ =>
      recover (do call; change (·.set destination (some node)); return true) fun _ =>
        return false
  | _ => return false

/-- A file is linked where that is possible, anything else is copied. -/
def secureImport : Run Unit := do
  checkControl
  call
  ensureDestinationAvailable destination
  let node ← entryType source
  ofExcept (rejectSymlink source node "import-source")
  verifyExpectedLength expectedBytes source
  if ← linkFile node destination then
    recover (verifyExpectedLength expectedBytes destination) fun error => do
      mapError (do call; change (·.set destination none)) fun cleanupError =>
        stagedUncertain "import-cleanup" (adding error (introducing
          [.text "; failed to remove hard-link destination ", .path destination, .text ": "]
          cleanupError))
      mapError call fun syncError =>
        stagedUncertain "import-cleanup-sync" (adding error (introducing
          [.text "; removed hard-link destination but failed to sync its parent: "] syncError))
      fail error
    mapError call fun error => stagedUncertain "import-sync" (introducing
      [.text "hard-link import committed but failed to sync source directory ",
        .path source, .text ": "] error)
    mapError call fun error => stagedUncertain "import-sync" (introducing
      [.text "hard-link import committed but failed to sync destination directory ",
        .path destination, .text ": "] error)
  else secureCopyEntry sha1 source destination expectedBytes

/-- The check after the rename gives the source back before it reports a failure. -/
def secureRename : Run Unit := do
  checkControl
  call
  ensureDestinationAvailable destination
  let node ← entryType source
  ofExcept (rejectSymlink source node "rename-source")
  verifyExpectedLength expectedBytes source
  checkControl
  call
  change (·.move source destination)
  mapError call fun error => stagedUncertain "rename-sync" (introducing
    [.text "rename committed but failed to sync source directory ", .path source,
      .text ": "] error)
  mapError call fun error => stagedUncertain "rename-sync" (introducing
    [.text "rename committed but failed to sync destination directory ", .path destination,
      .text ": "] error)
  recover (verifyExpectedLength expectedBytes destination) fun error => do
    let restored ← recover (do call; change (·.move destination source); return true)
      fun _ => pure false
    if restored then
      mapError (do call; call) fun syncError => stagedUncertain "rename-rollback-sync"
        (adding error (introducing [.text "; restored ", .path source,
          .text " but failed to sync the rollback: "] syncError))
      fail error
    else
      fail (stagedUncertain "rename-verify" (adding error [.text "; failed to restore ",
        .path source, .text " after verification failure"]))

/-- The directories from `source` up to the boundary, the innermost first. -/
def prunePaths (boundary : Path) : List Path :=
  ((List.range (source.length - boundary.length)).map fun above =>
    source.take (source.length - above))

/-- Empty directories are removed upwards; the first that is not empty ends it. -/
def pruneLoop (source : Path) : List Path → Bool → Run Unit
  | [], _ => return
  | path :: rest, removed => do
      let partly (error : StorageError) :=
        if removed then
          stagedUncertain "prune" (adding error [.text "; directory pruning of ",
            .path source, .text " was only partially applied"])
        else error
      mapError checkControl partly
      match ← mapError (entryState path) partly with
      | none => pruneLoop source rest removed
      | some (.directory []) =>
          mapError call partly
          change (·.set path none)
          mapError call fun error => stagedUncertain "prune-sync" (introducing
            [.text "directory pruning committed but failed to sync ", .path source,
              .text ": "] error)
          pruneLoop source rest true
      | some _ => return

def securePrune (boundary : Path) : Run Unit := do
  checkControl
  if !boundary.isPrefixOf source then
    fail (staged "prune-root" [.text "directory ", .path source,
      .text " is outside prune root ", .path boundary])
  pruneLoop source (prunePaths source boundary) false

def executeStep (step : StoragePlanStep) : Run Unit := do
  checkControl
  match step.action with
  | .importExisting =>
      let source ← ofExcept (requiredPath step.source "import-source")
      let destination ← ofExcept (requiredPath step.destination "import-destination")
      secureImport sha1 source destination step.bytes
  | .rename =>
      let source ← ofExcept (requiredPath step.source "rename-source")
      let destination ← ofExcept (requiredPath step.destination "rename-destination")
      secureRename source destination step.bytes
  | .copyVerifyRename =>
      let source ← ofExcept (requiredPath step.source "copy-source")
      let destination ← ofExcept (requiredPath step.destination "copy-destination")
      secureCopy sha1 source destination step.bytes
  | .safeDelete =>
      let source ← ofExcept (requiredPath step.source "delete-source")
      secureDelete source false
  | .safeDeleteIfPresent =>
      let source ← ofExcept (requiredPath step.source "delete-source")
      secureDelete source true
  | .pruneEmptyDirs =>
      let source ← ofExcept (requiredPath step.source "prune-source")
      let root ← ofExcept (requiredPath step.destination "prune-root")
      securePrune source root

/-- The steps rolled back, and those that could not be, each with its error. -/
abbrev Rollback := List StoragePlanStep × List (StoragePlanStep × Message)

variable (plan : StoragePlan)

def rollbackPlan : Run Rollback :=
  plan.rollbackSteps.foldlM (fun (rolledBack, failures) step =>
    recover (do executeStep sha1 step; return (rolledBack ++ [step], failures))
      fun error => return (rolledBack, failures ++ [(step, error.message)])) ([], [])

/-! ## Recognising a step as applied -/

/-- `reconcile_content`: every mismatch is a matter for manual recovery. -/
def reconcileContent : Run Unit :=
  mapError (verifyContentWithControl sha1 source destination) fun error =>
    if error.requiresManualRecovery then error else stagedUncertain "reconcile" error.message

def verifyCheckpointedLength (path : Path) (expected : Nat) (step : String) : Run Unit := do
  if expected = unknownLength then return
  call
  let node ← entryType path
  let actual ← ofExcept (contentLen path 0 node)
  if actual ≠ expected then
    fail (stagedUncertain step [.text "checkpointed destination has ", .number actual,
      .text " bytes, expected ", .number expected, .text ": ", .path path])

variable (index : Nat)

/-- The step before a rename, where the rename can be proved complete from it: the copy the
rename publishes, with its source still there. -/
def publishedCopy (source : Path) : Run (Option Path) := do
  match (if index = 0 then none else plan.steps[index - 1]?) with
  | none => return none
  | some previous =>
      let previousSource ← ofExcept (requiredPath previous.source "reconcile-previous-source")
      if previous.action ≠ .copyVerifyRename || previous.destination ≠ some source then
        return none
      if (← entryState previousSource).isNone then return none
      return some previousSource

def renameIsApplied (source destination : Path)
    (bytes : Nat) (checkpointed : Bool) : Run Bool := do
  let sourceState ← entryState source
  let destinationState ← entryState destination
  match sourceState, destinationState with
  | some _, some _ =>
      fail (stagedUncertain "reconcile"
        [.text "rename has both source and destination present: ", .path source,
          .text " -> ", .path destination])
  | none, some node =>
      if checkpointed then
        if node.isSymlink then
          fail (stagedUncertain "reconcile"
            [.text "checkpointed rename destination is a symlink: ", .path destination])
        verifyCheckpointedLength destination bytes "reconcile-destination"
        return true
      match ← publishedCopy plan index source with
      | none =>
          fail (stagedUncertain "reconcile"
            [.text "cannot prove rename completion after source disappeared: ", .path source,
              .text " -> ", .path destination])
      | some previousSource =>
          reconcileContent sha1 previousSource destination
          return true
  | _, none =>
      if checkpointed then
        fail (stagedUncertain "reconcile"
          [.text "checkpointed rename is not in its committed state: ", .path source,
            .text " -> ", .path destination])
      return false

def copyIsApplied : Run Bool := do
  if (← entryState destination).isNone then return false
  if (← entryState source).isNone then
    fail (stagedUncertain "reconcile"
      [.text "cannot prove copy or import completion after source disappeared: ",
        .path source, .text " -> ", .path destination])
  reconcileContent sha1 source destination
  return true

def deleteIsApplied (checkpointed : Bool) : Run Bool := do
  let sourceExists := (← entryState source).isSome
  if checkpointed && sourceExists then
    fail (stagedUncertain "reconcile"
      [.text "checkpointed delete target reappeared and will not be deleted again: ",
        .path source])
  return !sourceExists

/-- Whether the file system shows a step to be done. A checkpoint is not believed without
it, and a state that could have come about otherwise is refused. -/
def stepIsApplied (step : StoragePlanStep)
    (checkpointed : Bool) : Run Bool := do
  match step.action with
  | .rename =>
      let source ← ofExcept (requiredPath step.source "reconcile-source")
      let destination ← ofExcept (requiredPath step.destination "reconcile-destination")
      renameIsApplied sha1 plan index source destination step.bytes checkpointed
  | .copyVerifyRename | .importExisting =>
      let source ← ofExcept (requiredPath step.source "reconcile-source")
      let destination ← ofExcept (requiredPath step.destination "reconcile-destination")
      copyIsApplied sha1 source destination
  | .safeDelete | .safeDeleteIfPresent =>
      let source ← ofExcept (requiredPath step.source "reconcile-source")
      deleteIsApplied source checkpointed
  | .pruneEmptyDirs =>
      let source ← ofExcept (requiredPath step.source "reconcile-source")
      return (← entryState source).isNone

end Steps
end TorrentNG.Plan
