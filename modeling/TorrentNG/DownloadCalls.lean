import TorrentNG.DownloadTask

/-!
# What receiving a block does to the picker

Every operation of a download task changes its picker by calls of the picker, and leaves the
map and the hashes of the torrent alone. A block that is handled is ignored, or it is
received, cancelled or rejected with its piece, after other pieces were rejected to keep the
assemblies within their budget.
-/

namespace TorrentNG.Download.DownloadTask

open Picker Tables

/-- A task that is reached by calls of the picker, and by changes of its assemblies. -/
structure Works (calls : List Call) (before after : DownloadTask) : Prop where
  picker : after.picker = before.picker.run calls
  pieceMap : after.pieceMap = before.pieceMap
  pieces : after.pieces = before.pieces

theorem Works.refl (task : DownloadTask) : Works [] task task := ⟨rfl, rfl, rfl⟩

theorem Works.trans {first second third : DownloadTask} {early late : List Call}
    (one : Works early first second) (other : Works late second third) :
    Works (early ++ late) first third := by
  refine ⟨?_, other.pieceMap.trans one.pieceMap, other.pieces.trans one.pieces⟩
  rw [other.picker, one.picker, PiecePicker.run_append]

/-- An operation of the assemblies alone. -/
theorem Works.followed {calls : List Call} {first second third : DownloadTask}
    (one : Works calls first second) (other : Works [] second third) : Works calls first third := by
  have both := one.trans other
  rwa [List.append_nil] at both

/-- The calls that reject pieces. -/
def rejections (pieces : List Nat) : List Call := pieces.map .rejectPiece

/-- What handling a block does: nothing, if the piece is not in progress or the block is known,
or one of four things to the block after some rejections. -/
inductive BlockCalls (picker : PiecePicker) (block : BlockEvent) : List Call → Prop
  | ignored (known : picker.isPieceInProgress block.piece = false ∨
      picker.isBlockReceived block.piece block.offset = true) : BlockCalls picker block []
  | cancelled : BlockCalls picker block [.cancelRequest block.piece block.offset]
  | rejected (evicted : List Nat) :
      BlockCalls picker block (rejections evicted ++ [.rejectPiece block.piece])
  | received (evicted : List Nat) :
      BlockCalls picker block (rejections evicted ++ [.blockReceived block.piece block.offset])
  | refused (evicted : List Nat) : BlockCalls picker block
      (rejections evicted ++ [.blockReceived block.piece block.offset, .rejectPiece block.piece])

variable (task : DownloadTask) (piece : Nat)

theorem removePieceAssembly_frame :
    ∃ pieceAssemblyBytes, task.removePieceAssembly piece =
      { task with pieceAssemblyBytes, pieceAssemblies := task.pieceAssemblies.erase piece } := by
  unfold removePieceAssembly
  split
  next absent => exact ⟨_, by rw [erase_of_lookup_none absent]⟩
  next => exact ⟨_, rfl⟩

theorem removePieceAssembly_works :
    Works [] task (task.removePieceAssembly piece) := by
  obtain ⟨_, removed⟩ := removePieceAssembly_frame task piece
  rw [removed]
  exact ⟨rfl, rfl, rfl⟩

theorem rejectPiece_works :
    Works [.rejectPiece piece] task (task.rejectPiece piece) := ⟨rfl, rfl, rfl⟩

theorem rejectPieces_works (pieces : List Nat) :
    Works (rejections pieces) task (task.rejectPieces pieces) := by
  induction pieces generalizing task with
  | nil => exact Works.refl task
  | cons piece rest ih =>
    exact (rejectPiece_works task piece).trans (ih (task.rejectPiece piece))

theorem releasePiece_works : Works [] task (task.releasePiece piece) := by
  have removed := removePieceAssembly_works
    { task with restoredPartialPieces := task.restoredPartialPieces.erase piece } piece
  exact ⟨removed.picker, removed.pieceMap, removed.pieces⟩

theorem clearPieceAssemblies_works :
    ∃ pieces, Works (rejections pieces) task task.clearPieceAssemblies := by
  have rejected := rejectPieces_works
    { task with pieceAssemblies := ∅, pieceAssemblyBytes := 0 }
    (task.pieceAssemblies.entries.map Sigma.fst)
  exact ⟨_, rejected.picker, rejected.pieceMap, rejected.pieces⟩

theorem enforcePieceAssemblyBudget_works (currentPiece : Nat) :
    ∃ evicted, Works (rejections evicted) task (task.enforcePieceAssemblyBudget currentPiece) := by
  unfold enforcePieceAssemblyBudget
  generalize evictPieceAssembliesToBudget task.pieceAssemblies task.pieceAssemblyBytes currentPiece
    maxInMemoryPieceAssemblies task.pieceAssemblySoftCapBytes = left
  have rejected := rejectPieces_works
    { task with pieceAssemblies := left.1, pieceAssemblyBytes := left.2.1 } left.2.2
  exact ⟨_, rejected.picker, rejected.pieceMap, rejected.pieces⟩

end TorrentNG.Download.DownloadTask
