import TorrentNG.ReceivedBlocks
import TorrentNG.Recheck

/-!
# Receiving blocks in `rt-engine`

`handle_block` of a torrent task, with everything it calls that touches the picker or the
assemblies. The blocks of a piece are collected in memory, in a `PieceAssembly`, and the
piece is written once it is verified; a piece that is too long for that, or that was partly
on disk before a restart, is written block by block. Assemblies are evicted when they
exceed a budget.

The world outside the task (the clock, the memory governor, the disk, the hash workers) is
an argument of the call, so a history of a task is a list of events with what the world
answered. The statistics, the messages to peers and the registry are left out; saving the
progress changes nothing here.
-/

namespace TorrentNG.Download

open Fallible MachineArithmetic Metainfo Picker Pieces Reading Recheck Storage Tables

/-- A block received from a peer. -/
structure BlockEvent where
  piece : Nat
  offset : Nat
  data : Bytes

/-- Why a block is refused: a request the map does not accept, or a message of the task. -/
inductive BlockError where
  | request (error : RequestError)
  | message (text : String)
deriving DecidableEq

/-! ## Padding -/

/-- Walk over the regions of a block; the answer is the offset after the last region. -/
def walkRegions (data : Bytes) : List PieceRegion → Nat → Except BlockError Nat
  | [], dataOffset => .ok dataOffset
  | region :: rest, dataOffset => do
      let stop ← okOr (checkedAdd dataOffset region.length)
        (.message "piece region data offset overflow")
      if data.length < stop then
        .error (.message "peer block does not cover mapped piece regions")
      else if region.pad && (slice data dataOffset stop).any (· != 0) then
        .error (.message "peer block contains non-zero bytes for BEP 47 padding")
      else walkRegions data rest stop

def validatePaddingBlock (pieceMap : PieceMap) (piece begin : Nat) (data : Bytes) :
    Except BlockError Unit := do
  let length ← okOr (toU32 data.length) (.message "peer block length does not fit in u32")
  let regions ← (pieceMap.validateRequest piece begin length).mapError .request
  let dataOffset ← walkRegions data regions 0
  if dataOffset ≠ data.length then
    .error (.message "mapped piece regions do not cover the peer block")
  else .ok ()

/-! ## Assemblies -/

structure PieceAssembly where
  data : Bytes
  received : List Bool
  lastUsed : Nat
deriving DecidableEq

namespace PieceAssembly

def new (len now : Nat) : PieceAssembly where
  data := List.replicate len 0
  received := List.replicate (divCeil len maxBlockSize) false
  lastUsed := now

variable (assembly : PieceAssembly)

/-- Put a block into an assembly. Its time of use changes even when the block is refused. -/
def insert (now offset : Nat) (block : Bytes) :
    PieceAssembly × Except BlockError Unit :=
  let assembly := { assembly with lastUsed := now }
  match checkedAdd offset block.length with
  | none => (assembly, .error (.message "piece block offset overflow"))
  | some stop =>
      if assembly.data.length < stop then
        let len := assembly.data.length
        (assembly, .error (.message s!"piece block range {offset}..{stop} exceeds piece length {len}"))
      else
        let blockIdx := offset / maxBlockSize
        match assembly.received[blockIdx]? with
        | none => (assembly, .error (.message s!"piece block index {blockIdx} out of range"))
        | some true =>
            if slice assembly.data offset stop = block then (assembly, .ok ())
            else (assembly, .error (.message s!"conflicting duplicate block at offset {offset}"))
        | some false =>
            ({ assembly with
                data := assembly.data.take offset ++ block ++ assembly.data.drop stop
                received := assembly.received.set blockIdx true }, .ok ())

def isComplete : Bool := assembly.received.all id

def len : Nat := assembly.data.length

end PieceAssembly

def maxInMemoryPieceAssemblies : Nat := 64

/-- The assembly of another piece that was used least recently. Between assemblies of the
same time the order of the table decides, as the order of the hash map does in the source. -/
def leastRecentlyUsed (assemblies : Table Nat PieceAssembly) (currentPiece : Nat) : Option Nat :=
  ((assemblies.entries.filter fun entry => entry.1 != currentPiece).argmin
    fun entry => entry.2.lastUsed).map Sigma.fst

/-- The loop of `evict_piece_assemblies_to_budget`. Every round evicts an assembly, so there
are at most as many rounds as assemblies. -/
def evictLoop (currentPiece maxAssemblies maxBytes : Nat) :
    Nat → Table Nat PieceAssembly → Nat → Table Nat PieceAssembly × Nat × List Nat
  | 0, assemblies, bytes => (assemblies, bytes, [])
  | rounds + 1, assemblies, bytes =>
      if maxAssemblies < size assemblies ∨ maxBytes < bytes then
        match leastRecentlyUsed assemblies currentPiece with
        | none => (assemblies, bytes, [])
        | some piece =>
            match assemblies.lookup piece with
            | none => evictLoop currentPiece maxAssemblies maxBytes rounds assemblies bytes
            | some assembly =>
                let (assemblies, bytes, evictions) := evictLoop currentPiece maxAssemblies maxBytes
                  rounds (assemblies.erase piece) (bytes - assembly.len)
                (assemblies, bytes, piece :: evictions)
      else (assemblies, bytes, [])

def evictPieceAssembliesToBudget (assemblies : Table Nat PieceAssembly) (assemblyBytes : Nat)
    (currentPiece maxAssemblies maxBytes : Nat) : Table Nat PieceAssembly × Nat × List Nat :=
  evictLoop currentPiece maxAssemblies maxBytes (size assemblies) assemblies assemblyBytes

/-! ## The task -/

/-- The part of a torrent task that receives blocks. Every piece of the map has a hash. -/
structure DownloadTask where
  pieceMap : PieceMap
  pieces : List (Digest 20)
  hashed : pieces.length = pieceMap.pieceCount
  pieceAssemblySoftCapBytes : Nat
  picker : PiecePicker
  pieceAssemblies : Table Nat PieceAssembly
  pieceAssemblyBytes : Nat
  restoredPartialPieces : Finset Nat

/-- What the world outside answers while a block is handled. -/
structure Outside where
  now : Nat
  /-- The governor grants the memory for a new assembly. -/
  memoryGranted : Bool
  /-- A block is written to disk. -/
  blockWritten : Bool
  /-- A complete piece is written to disk. -/
  pieceWritten : Bool
  sha1 : Bytes → Except StorageError (Digest 20)
  /-- The verdict on a piece as it is on disk. -/
  verifyPiece : VerifyResult

namespace DownloadTask

def new (pieceMap : PieceMap) (pieces : List (Digest 20))
    (hashed : pieces.length = pieceMap.pieceCount) (softCap : Nat) : DownloadTask where
  pieceMap
  pieces
  hashed
  pieceAssemblySoftCapBytes := softCap
  picker := PiecePicker.ofPieceMap pieceMap
  pieceAssemblies := ∅
  pieceAssemblyBytes := 0
  restoredPartialPieces := ∅

variable (task : DownloadTask)

def pieceLength (piece : Nat) : Except BlockError Nat :=
  if task.pieces.length ≤ piece then .error (.message s!"piece {piece} out of range")
  else
    let last := task.pieces.length - 1
    if piece = last then
      let rem := task.pieceMap.totalLength % task.pieceMap.pieceLength
      .ok (if rem = 0 then task.pieceMap.pieceLength else rem)
    else .ok task.pieceMap.pieceLength

def rejectPiece (piece : Nat) : DownloadTask :=
  { task with picker := task.picker.rejectPiece piece }

def rejectPieces (pieces : List Nat) : DownloadTask :=
  pieces.foldl rejectPiece task

variable (piece : Nat)

def canAggregatePieceWrite : Bool :=
  match task.pieceLength piece with
  | .error _ => false
  | .ok len => decide (len ≤ task.pieceAssemblySoftCapBytes) &&
      !decide (piece ∈ task.restoredPartialPieces)

def removePieceAssembly : DownloadTask :=
  match task.pieceAssemblies.lookup piece with
  | none => task
  | some assembly =>
      { task with
        pieceAssemblies := task.pieceAssemblies.erase piece
        pieceAssemblyBytes := task.pieceAssemblyBytes - assembly.len }

def clearPieceAssemblies : DownloadTask :=
  let discardedPieces := task.pieceAssemblies.entries.map Sigma.fst
  let task := { task with pieceAssemblies := ∅, pieceAssemblyBytes := 0 }
  task.rejectPieces discardedPieces

def enforcePieceAssemblyBudget (currentPiece : Nat) : DownloadTask :=
  let (pieceAssemblies, pieceAssemblyBytes, evictions) := evictPieceAssembliesToBudget
    task.pieceAssemblies task.pieceAssemblyBytes currentPiece maxInMemoryPieceAssemblies
    task.pieceAssemblySoftCapBytes
  let task := { task with pieceAssemblies, pieceAssemblyBytes }
  task.rejectPieces evictions

/-- The assembly of a piece, after memory for it was reserved if there was none. -/
def openAssembly (len : Nat) (outside : Outside) :
    Except BlockError (DownloadTask × PieceAssembly × Bool) :=
  match task.pieceAssemblies.lookup piece with
  | some assembly => .ok (task, assembly, false)
  | none =>
      if outside.memoryGranted then
        let assembly := PieceAssembly.new len outside.now
        .ok ({ task with
          pieceAssemblyBytes := saturatingAdd task.pieceAssemblyBytes len
          pieceAssemblies := task.pieceAssemblies.insert piece assembly }, assembly, true)
      else .error (.message s!"piece assembly allocation of {len} bytes denied")

variable (block : BlockEvent) (outside : Outside)

def recordPieceBlock :
    DownloadTask × Except BlockError Unit :=
  match task.pieceLength block.piece with
  | .error error => (task, .error error)
  | .ok len =>
      if task.pieceAssemblySoftCapBytes < len then (task, .ok ())
      else
        match task.openAssembly block.piece len outside with
        | .error error => (task, .error error)
        | .ok (task, assembly, inserted) =>
            let (assembly, result) := assembly.insert outside.now block.offset block.data
            let task :=
              { task with pieceAssemblies := task.pieceAssemblies.insert block.piece assembly }
            match result with
            | .error error =>
                (if inserted then task.removePieceAssembly block.piece else task, .error error)
            | .ok () => (task.enforcePieceAssemblyBudget block.piece, .ok ())

/-- Verify a completed piece, from memory if its assembly is complete. -/
def verifyCompletedPiece : VerifyResult :=
  match (task.pieceAssemblies.lookup piece).filter PieceAssembly.isComplete with
  | none => outside.verifyPiece
  | some assembly =>
      match task.pieces[piece]? with
      | none => .missing 0 (.noHash piece)
      | some expected =>
          match outside.sha1 assembly.data with
          | .ok actual => if actual = expected then .valid else .invalid
          | .error error => .missing 0 (.storage error)

/-- Write a completed piece, which needs its complete assembly. -/
def writeCompletedPiece : Bool :=
  match (task.pieceAssemblies.lookup piece).filter PieceAssembly.isComplete with
  | none => false
  | some _ => outside.pieceWritten

/-- Keep the data of a block, in memory or on disk; false when that failed. -/
def storeBlock (aggregatePieceWrite : Bool)
    (outside : Outside) : DownloadTask × Bool :=
  if aggregatePieceWrite then
    match task.recordPieceBlock block outside with
    | (task, .error _) => ((task.removePieceAssembly block.piece).rejectPiece block.piece, false)
    | (task, .ok ()) => (task, true)
  else if outside.blockWritten then (task, true)
  else
    let task := { task with picker := task.picker.cancelRequest block.piece block.offset }
    (task.removePieceAssembly block.piece, false)

/-- `handle_block` until the picker has recorded the block. When that completes the piece,
the answer is whether the piece is written as a whole. -/
def receiveBlock : DownloadTask × Option Bool :=
  if task.picker.isPieceInProgress block.piece = false then (task, none)
  else if task.picker.isBlockReceived block.piece block.offset then (task, none)
  else
    match validatePaddingBlock task.pieceMap block.piece block.offset block.data with
    | .error _ =>
        let task := { task with picker := task.picker.cancelRequest block.piece block.offset }
        (task.removePieceAssembly block.piece, none)
    | .ok () =>
        let aggregatePieceWrite := task.canAggregatePieceWrite block.piece
        match task.storeBlock block aggregatePieceWrite outside with
        | (task, false) => (task, none)
        | (task, true) =>
            let (picker, complete) := task.picker.blockReceived block.piece block.offset
            ({ task with picker }, if complete then some aggregatePieceWrite else none)

/-- A piece leaves the set of restored pieces, and its assembly is dropped. -/
def releasePiece : DownloadTask :=
  let task :=
    { task with restoredPartialPieces := task.restoredPartialPieces.erase piece }
  task.removePieceAssembly piece

/-- The rest of `handle_block`, for a block that completed its piece. -/
def finishPiece (aggregatePieceWrite : Bool) (outside : Outside) : DownloadTask :=
  match task.verifyCompletedPiece piece outside with
  | .valid =>
      if aggregatePieceWrite && !task.writeCompletedPiece piece outside then
        (task.rejectPiece piece).removePieceAssembly piece
      else task.releasePiece piece
  | .invalid | .missing _ _ => (task.rejectPiece piece).releasePiece piece

def handleBlock : DownloadTask :=
  match task.receiveBlock block outside with
  | (task, none) => task
  | (task, some aggregatePieceWrite) => task.finishPiece block.piece aggregatePieceWrite outside

/-- A partial piece of a resume file. It counts as restored when the picker lists it among
its partial pieces: in progress, with a received block. -/
def restorePartialPiece (piece : Nat) (receivedBlocks : List Nat) : DownloadTask :=
  let task := { task with picker := task.picker.restorePartialPiece piece receivedBlocks }
  match task.picker.inProgress.lookup piece with
  | none => task
  | some state =>
      if state.received.any id then
        { task with restoredPartialPieces := insert piece task.restoredPartialPieces }
      else task

/-- A piece of a file that was renamed. -/
def invalidatePiece : DownloadTask :=
  let task := task.rejectPiece piece
  { task with restoredPartialPieces := task.restoredPartialPieces.erase piece }

end DownloadTask

/-! ## Histories -/

/-- What happens to a task. Blocks are marked as received by `handle_block` and by the
restoration of a resume file only; every other call on the picker may come at any time. -/
inductive Event where
  | handleBlock (block : BlockEvent) (outside : Outside)
  | enforcePieceAssemblyBudget (currentPiece : Nat)
  | clearPieceAssemblies
  | restorePartialPiece (piece : Nat) (receivedBlocks : List Nat)
  | invalidatePiece (piece : Nat)
  | pickerCall (call : Call) (other : PiecePicker.marksReceived call = false)

namespace DownloadTask

def step (task : DownloadTask) : Event → DownloadTask
  | .handleBlock block outside => task.handleBlock block outside
  | .enforcePieceAssemblyBudget currentPiece => task.enforcePieceAssemblyBudget currentPiece
  | .clearPieceAssemblies => task.clearPieceAssemblies
  | .restorePartialPiece piece receivedBlocks => task.restorePartialPiece piece receivedBlocks
  | .invalidatePiece piece => task.invalidatePiece piece
  | .pickerCall call _ => { task with picker := (task.picker.step call).1 }

/-- The task after a history of events. -/
def run (task : DownloadTask) (events : List Event) : DownloadTask := events.foldl step task

end DownloadTask

end TorrentNG.Download
