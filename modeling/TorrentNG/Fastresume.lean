import TorrentNG.MachineArithmetic
import TorrentNG.SortedSlices
import TorrentNG.Utf8

/-!
# Resume records and their recovery after a crash

The record of `rt-fastresume/src/state.rs` and the decision of `recovery.rs` whether
it may be trusted. A record marks pieces as valid; its watermark says whether the data
behind them was flushed when the record was written and which pieces were written
since the last barrier. After an unclean shutdown the listed pieces are downgraded,
and a record without a list is not used at all.

The effect of the hints about files is modelled with the piece map, the bounds of
deserialisation with the container. The names of the reasons are not part of this model.
-/

namespace TorrentNG.Fastresume

open MachineArithmetic SortedSlices Utf8

/-! ## Records -/

inductive PieceState where
  | valid
  | invalid
  | unknown
  | missing
deriving DecidableEq

structure FileHint where
  fileIndex : Nat
  size : Nat
  mtimeSecs : Nat
  inode : Nat
deriving DecidableEq

structure PartialPieceState where
  piece : Nat
  receivedBlocks : List Nat
deriving DecidableEq

/-- With the values of `DurabilityWatermark::default`. -/
structure DurabilityWatermark where
  barrierGeneration : Nat := 0
  dirtyPiecesSinceBarrier : List Nat := []
  synced : Bool := true
  bootId : Option Text := none
  lastDataWriteUnix : Nat := 0
  savedByRunId : Nat := 0
deriving DecidableEq

inductive ImportPolicy where
  | requireVerification
  | trustHints
  | trustAll
deriving DecidableEq

/-- Every field of a record but the states of its pieces: the JSON part of its container. -/
structure FastresumeHeader where
  version : Nat
  infoHash : Text
  sessionGeneration : Nat
  partialPieces : List PartialPieceState
  fileHints : List FileHint
  lastFullVerify : Nat
  cleanShutdown : Bool
  uploadedBytes : Nat
  downloadedBytes : Nat
  importPolicy : ImportPolicy
  durability : DurabilityWatermark
deriving DecidableEq

structure FastresumeState extends FastresumeHeader where
  pieces : List PieceState
deriving DecidableEq

inductive FastresumeError where
  | versionMismatch (expected found : Nat)
  | infohashMismatch (stored current : Text)
  | pieceCountMismatch (stored current : Nat)
deriving DecidableEq

def fastresumeVersion : Nat := 1

/-- `hex::encode`: two lower-case digits a byte. -/
def hexEncode (bytes : List UInt8) : Text :=
  bytes.flatMap fun byte => [Nat.digitChar (byte.toNat / 16), Nat.digitChar (byte.toNat % 16)]

namespace FastresumeState

def newEmpty (infoHash : List UInt8) (pieceCount : Nat) (policy : ImportPolicy) :
    FastresumeState where
  version := fastresumeVersion
  infoHash := hexEncode infoHash
  sessionGeneration := 1
  pieces := List.replicate pieceCount .unknown
  partialPieces := []
  fileHints := []
  lastFullVerify := 0
  cleanShutdown := false
  uploadedBytes := 0
  downloadedBytes := 0
  importPolicy := policy
  durability := {}

variable (state : FastresumeState)

/-- Whether the record belongs to the torrent. -/
def validate (infoHash : List UInt8) (pieceCount : Nat) : Except FastresumeError Unit :=
  if state.version ≠ fastresumeVersion then
    .error (.versionMismatch fastresumeVersion state.version)
  else if state.infoHash ≠ hexEncode infoHash then
    .error (.infohashMismatch state.infoHash (hexEncode infoHash))
  else if state.pieces.length % 2 ^ 32 ≠ pieceCount then
    .error (.pieceCountMismatch (state.pieces.length % 2 ^ 32) pieceCount)
  else .ok ()

def setDirtyPiecesSinceBarrier (pieces : List Nat) : FastresumeState :=
  let listed := (dedup (sortBy compare pieces)).filter fun piece => piece < state.pieces.length
  { state with durability := { state.durability with dirtyPiecesSinceBarrier := listed } }

def completeDurabilityBarrier : FastresumeState :=
  { state with
    durability := { state.durability with
      barrierGeneration := saturatingAdd state.durability.barrierGeneration 1
      dirtyPiecesSinceBarrier := []
      synced := true }
    cleanShutdown := true }

def markSavedWithoutDataSync : FastresumeState :=
  { state with durability := { state.durability with synced := false } }

/-- The loop over the dirty pieces: the states after it and the number downgraded. -/
def downgrade : List Nat → List PieceState → Nat → List PieceState × Nat
  | [], pieces, downgraded => (pieces, downgraded)
  | piece :: rest, pieces, downgraded =>
      if pieces[piece]? = some .valid then
        downgrade rest (pieces.set piece .unknown) (downgraded + 1)
      else downgrade rest pieces downgraded

/-- The number of downgraded pieces, if the record can be used, and the record after it. -/
def applyUncleanShutdownWatermark : Option Nat × FastresumeState :=
  if state.cleanShutdown then (some 0, state)
  else if state.durability.dirtyPiecesSinceBarrier.isEmpty then (none, state)
  else
    let dirty := dedup (sortBy compare state.durability.dirtyPiecesSinceBarrier)
    let (pieces, downgraded) := downgrade dirty state.pieces 0
    (some downgraded,
      { state with
        pieces := pieces
        partialPieces := state.partialPieces.filter fun entry => !binarySearch dirty entry.piece
        cleanShutdown := true
        durability := { state.durability with dirtyPiecesSinceBarrier := [] } })

/-- The record marks the piece as valid. -/
def MarksValid (piece : Nat) : Prop :=
  state.pieces[piece]? = some .valid

instance (state : FastresumeState) (piece : Nat) : Decidable (state.MarksValid piece) :=
  inferInstanceAs (Decidable (_ = _))

/-- A piece is valid after the loop if it was before and is not listed. -/
theorem downgrade_valid (dirty : List Nat) (pieces : List PieceState) (downgraded piece : Nat) :
    (downgrade dirty pieces downgraded).1[piece]? = some .valid ↔
      pieces[piece]? = some .valid ∧ piece ∉ dirty := by
  induction dirty generalizing pieces downgraded with
  | nil => simp [downgrade]
  | cons first rest ih =>
    rw [downgrade]
    by_cases same : piece = first
    · subst same
      split_ifs with valid
      · simp [ih, List.getElem?_set]
      · simp [ih, valid]
    · split_ifs with valid
      · simp [ih, List.getElem?_set_ne (Ne.symm same), same]
      · simp [ih, same]

/-- Pieces that are valid after the watermark was applied: after an unclean shutdown
the record lists some, and those are not among them. -/
theorem applyUncleanShutdownWatermark_valid (state after : FastresumeState) (downgraded piece : Nat)
    (applied : state.applyUncleanShutdownWatermark = (some downgraded, after)) :
    (state.cleanShutdown = true ∨ state.durability.dirtyPiecesSinceBarrier ≠ []) ∧
      (after.MarksValid piece ↔ state.MarksValid piece ∧
        (state.cleanShutdown = true ∨ piece ∉ state.durability.dirtyPiecesSinceBarrier)) := by
  rw [applyUncleanShutdownWatermark] at applied
  split_ifs at applied with clean unlisted
  · obtain rfl := congrArg Prod.snd applied
    simp [clean]
  · cases applied
  · have listed : state.durability.dirtyPiecesSinceBarrier ≠ [] := by simpa using unlisted
    obtain rfl := congrArg Prod.snd applied
    refine ⟨Or.inr listed, ?_⟩
    simp only [MarksValid, downgrade_valid, mem_dedup, (sortBy_perm compare _).mem_iff, clean,
      false_or, Bool.false_eq_true]

/-- A record that lists pieces can be used. -/
theorem exists_applyUncleanShutdownWatermark {state : FastresumeState}
    (listed : state.durability.dirtyPiecesSinceBarrier ≠ []) :
    ∃ downgraded after, state.applyUncleanShutdownWatermark = (some downgraded, after) := by
  rw [applyUncleanShutdownWatermark]
  split_ifs with clean unlisted
  · exact ⟨_, _, rfl⟩
  · exact absurd (List.isEmpty_iff.mp unlisted) listed
  · exact ⟨_, _, rfl⟩

end FastresumeState

/-! ## The decision after a crash -/

/-- How the previous run ended. -/
inductive PreviousRun where
  | noRecord
  | clean
  | processCrash
  | hostCrash
  | uncleanUnknownCause
deriving DecidableEq

/-- Whether the page cache may have been lost. -/
def PreviousRun.mayBeHostCrash : PreviousRun → Bool
  | .hostCrash | .uncleanUnknownCause => true
  | .noRecord | .clean | .processCrash => false

inductive RecoveryPolicy where
  | watermark
  | recent
  | full
deriving DecidableEq

def RecoveryPolicy.atLeastRecent : RecoveryPolicy → RecoveryPolicy
  | .watermark => .recent
  | other => other

inductive DurabilityTrust where
  | strong
  | unknown
  | weak
deriving DecidableEq

inductive RecheckReason where
  | unsyncedStateAfterHostCrash
  | fullPolicy
  | recentWrite
  | weakMount
  | unknownMountRecentWrite
deriving DecidableEq

inductive RecoveryAction where
  | trust
  | recheck (reason : RecheckReason)
deriving DecidableEq

structure RecoveryInputs where
  previousRun : PreviousRun
  crashReferenceUnix : Option Nat
  nowUnix : Nat
  policy : RecoveryPolicy
  recentWindowSecs : Nat
  mountTrust : DurabilityTrust
  weakMountEscalation : Bool
  stateSynced : Bool
  lastDataWriteUnix : Nat
  completedUnix : Option Nat
  stateSavedThisRun : Bool

/-- The policy for a mount, and the reason when the mount has raised it. -/
def escalatePolicy (policy : RecoveryPolicy) (mountTrust : DurabilityTrust)
    (escalationEnabled : Bool) : RecoveryPolicy × Option RecheckReason :=
  if !escalationEnabled then (policy, none)
  else
    match mountTrust with
    | .weak => (.full, some .weakMount)
    | .unknown =>
        let raised := policy.atLeastRecent
        (raised, if raised ≠ policy then some .unknownMountRecentWrite else none)
    | .strong => (policy, none)

def writtenRecently (input : RecoveryInputs) : Bool :=
  let lastWrite := max input.lastDataWriteUnix (input.completedUnix.getD 0)
  if lastWrite = 0 then false
  else
    let reference := input.crashReferenceUnix.getD input.nowUnix
    saturatingAdd lastWrite input.recentWindowSecs ≥ reference

def decideRecovery (input : RecoveryInputs) : RecoveryAction :=
  if !input.previousRun.mayBeHostCrash || input.stateSavedThisRun then .trust
  else if !input.stateSynced then .recheck .unsyncedStateAfterHostCrash
  else
    let (policy, escalatedBy) :=
      escalatePolicy input.policy input.mountTrust input.weakMountEscalation
    match policy with
    | .watermark => .trust
    | .full => .recheck ((escalatedBy.filter (· = .weakMount)).getD .fullPolicy)
    | .recent =>
        if writtenRecently input then .recheck (escalatedBy.getD .recentWrite) else .trust

/-- A host crash on a mount whose flushes are trusted, under the watermark policy. -/
def RecoveryInputs.watermark (stateSynced : Bool) : RecoveryInputs where
  previousRun := .hostCrash
  crashReferenceUnix := none
  nowUnix := 0
  policy := .watermark
  recentWindowSecs := 0
  mountTrust := .strong
  weakMountEscalation := true
  stateSynced := stateSynced
  lastDataWriteUnix := 0
  completedUnix := none
  stateSavedThisRun := false

end TorrentNG.Fastresume
