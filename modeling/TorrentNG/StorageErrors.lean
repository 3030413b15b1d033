/-!
# Storage errors

`error.rs` of `rt-storage`. The reads name a file by its path below the storage root, and the
executor of plans by any path; the texts that the executor puts together are kept in their
parts. The type is therefore one over what stands for a path and for a text.
-/

namespace TorrentNG.StorageErrors

inductive StorageError (Path Message : Type) where
  | io (path : Path) (source : String)
  | permissionDenied (path : Path)
  | fileNotFound (path : Path)
  | cancelled
  | shortIo (path : Path) (expected actual : Nat)
  | stagedMoveFailed (step : String) (reason : Message)
  | filesystemStateUncertain (step : String) (reason : Message)
  /-- The errors of other parts of the storage layer. -/
  | other (message : String)
deriving Repr, DecidableEq

namespace StorageError

variable {Path Message : Type}

/-- The executor cannot tell whether the file system is back in a state in which the torrent
may run. -/
def requiresManualRecovery : StorageError Path Message → Bool
  | filesystemStateUncertain _ _ => true
  | _ => false

/-- `is_cancellation_error`. -/
def isCancellation : StorageError Path Message → Bool
  | cancelled => true
  | stagedMoveFailed step _ => step == "cancel"
  | _ => false

end StorageError

end TorrentNG.StorageErrors
