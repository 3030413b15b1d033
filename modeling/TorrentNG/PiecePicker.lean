import TorrentNG.Availability
import TorrentNG.MachineArithmetic
import TorrentNG.Tables

/-!
# The piece picker of `rt-piece-picker`

Which block to request next: priority pieces first, then either in sequence or rarest
first, with duplicate requests at the end of a download. The picker keeps the pieces it
still wants, the pieces it may request, the state of every piece in progress and two
counters derived from them. Every public call that changes the picker is a `Call`, so a
history of the picker is a list of calls with their replies.

A `Vec` indexed by piece is a list; an index outside reads as `false`, which no call
reaches, since every index is compared with the piece count first. The queries
`bytes_left`, `have_pieces` and `partial_pieces` stand with the results about them; the memory
estimate for a whole torrent is left out.
-/

namespace TorrentNG.Picker

open MachineArithmetic Tables

def maxBlockSize : Nat := 16 * 1024
def maxInProgressPieces : Nat := 16384
def maxInProgressPieceStateBytes : Nat := 64 * 1024 * 1024

structure BlockRequest where
  piece : Nat
  begin : Nat
  length : Nat
deriving DecidableEq, Repr

/-- The number of blocks of a piece. -/
def nBlocks (pieceLength : Nat) : Nat := divCeil pieceLength maxBlockSize

/-- The blocks of a piece: how often each is requested, and whether it was received. -/
structure PieceState where
  pieceLength : Nat
  requested : List Nat
  received : List Bool
deriving DecidableEq

namespace PieceState

def new (pieceLength : Nat) : PieceState where
  pieceLength
  requested := List.replicate (nBlocks pieceLength) 0
  received := List.replicate (nBlocks pieceLength) false

variable (state : PieceState)

def nextUnrequested : Option Nat :=
  (state.requested.zip state.received).findIdx? fun (requests, received) => requests == 0 && !received

/-- The request for a block. Its offset is below the piece length and fits in 32 bits. -/
def blockRequestFor (piece blockIdx : Nat) : BlockRequest :=
  let begin := blockIdx * maxBlockSize
  let remaining := state.pieceLength - begin
  { piece := piece % 2 ^ 32, begin, length := min remaining maxBlockSize }

def nextRequestedNotReceived (exclude : List BlockRequest) (piece : Nat) :
    Option Nat :=
  (state.requested.zip state.received).zipIdx.findSome? fun ((requests, received), blockIdx) =>
    if requests = 0 ∨ received = true then none
    else if exclude.contains (state.blockRequestFor piece blockIdx) then none
    else some blockIdx

/-- The counter of requests is a saturating `u16`. -/
def markRequested (blockIdx : Nat) : PieceState :=
  { state with requested := state.requested.modify blockIdx fun requests => min (requests + 1) (2 ^ 16 - 1) }

def markReceived (blockIdx : Nat) : PieceState :=
  { state with
    received := state.received.set blockIdx true
    requested := state.requested.set blockIdx 0 }

/-- The loop of `restore_partial_piece`: blocks outside the piece are ignored. -/
def restoreBlocks (receivedBlocks : List Nat) : PieceState :=
  receivedBlocks.foldl
    (fun state blockIdx => { state with received := state.received.set blockIdx true }) state

def isComplete : Bool := state.received.all id

end PieceState

/-- `size_of::<PieceState>()` on a 64-bit target. -/
def pieceStateSize : Nat := 56

def pieceStateMemoryBytes (pieceLength : Nat) : Nat :=
  let blocks := nBlocks pieceLength
  saturatingAdd (saturatingAdd pieceStateSize (saturatingMul blocks 2)) (saturatingMul blocks 1)

structure PiecePicker where
  pieceCount : Nat
  defaultPieceLength : Nat
  lastPieceLength : Nat
  wanted : List Bool
  enabled : List Bool
  inProgress : Table Nat PieceState
  inProgressBytes : Nat
  priority : List Bool
  sequential : Bool
  sequentialStartPiece : Nat
  availability : Availability
  outstandingWanted : Nat

/-- The flag of a piece. -/
def flag (flags : List Bool) (piece : Nat) : Bool := flags[piece]?.getD false

namespace PiecePicker

def new (pieceCount defaultPieceLength lastPieceLength : Nat) : PiecePicker where
  pieceCount
  defaultPieceLength
  lastPieceLength
  wanted := List.replicate pieceCount true
  enabled := List.replicate pieceCount true
  inProgress := ∅
  inProgressBytes := 0
  priority := List.replicate pieceCount false
  sequential := false
  sequentialStartPiece := 0
  availability := Availability.new pieceCount
  outstandingWanted := pieceCount

variable (picker : PiecePicker) (piece : Nat)

/-- Follow a change of a piece's flags with the counter and the bucket walk. -/
def adjustOutstanding
    (oldWanted oldEnabled newWanted newEnabled : Bool) : PiecePicker :=
  let wasOutstanding := oldWanted && oldEnabled
  let isOutstanding := newWanted && newEnabled
  if isOutstanding && !wasOutstanding then
    { picker with
      outstandingWanted := saturatingAdd picker.outstandingWanted 1
      availability := picker.availability.reinstate piece }
  else if wasOutstanding && !isOutstanding then
    { picker with
      outstandingWanted := picker.outstandingWanted - 1
      availability := picker.availability.retire piece }
  else picker

def pieceLengthFor : Nat :=
  if piece + 1 = picker.pieceCount then picker.lastPieceLength else picker.defaultPieceLength

def canAdmitPieceState (pieceLength : Nat) : Bool :=
  decide (size picker.inProgress < maxInProgressPieces) &&
    match checkedAdd picker.inProgressBytes (pieceStateMemoryBytes pieceLength) with
    | none => false
    | some next => decide (next ≤ maxInProgressPieceStateBytes)

def removeInProgress : PiecePicker :=
  match picker.inProgress.lookup piece with
  | none => picker
  | some state =>
      { picker with
        inProgress := picker.inProgress.erase piece
        inProgressBytes := picker.inProgressBytes - pieceStateMemoryBytes state.pieceLength }

/-- Set whether a piece is wanted, as `mark_have` and `reject_piece` do. -/
def setWanted (wanted : Bool) : PiecePicker :=
  let oldWanted := flag picker.wanted piece
  let enabled := flag picker.enabled piece
  let picker := { picker with wanted := picker.wanted.set piece wanted }
  picker.adjustOutstanding piece oldWanted enabled wanted enabled

/-- A piece that is already complete. -/
def markHave : PiecePicker :=
  if piece < picker.pieceCount then (picker.setWanted piece false).removeInProgress piece else picker

/-- A piece that failed its verification. -/
def rejectPiece : PiecePicker :=
  if piece < picker.pieceCount then (picker.setWanted piece true).removeInProgress piece else picker

def setPieceEnabled (enabled : Bool) : PiecePicker :=
  if piece < picker.pieceCount then
    let wanted := flag picker.wanted piece
    let oldEnabled := flag picker.enabled piece
    let picker := { picker with enabled := picker.enabled.set piece enabled }
    let picker := picker.adjustOutstanding piece wanted oldEnabled wanted enabled
    if enabled then picker else picker.removeInProgress piece
  else picker

/-- Blocks that were on disk before a restart. A record that lists every block is not
believed: the piece was never verified. -/
def restorePartialPiece (receivedBlocks : List Nat) : PiecePicker :=
  if picker.pieceCount ≤ piece ∨ receivedBlocks.isEmpty = true ∨ flag picker.wanted piece = false
      ∨ flag picker.enabled piece = false ∨ (picker.inProgress.lookup piece).isSome = true
      ∨ picker.canAdmitPieceState (picker.pieceLengthFor piece) = false then picker
  else
    let pieceLength := picker.pieceLengthFor piece
    let state := (PieceState.new pieceLength).restoreBlocks receivedBlocks
    if state.isComplete then picker
    else
      { picker with
        inProgressBytes := saturatingAdd picker.inProgressBytes (pieceStateMemoryBytes pieceLength)
        inProgress := picker.inProgress.insert piece state }

def setPriority (pieces : List Nat) : PiecePicker :=
  { picker with
    priority := pieces.foldl (fun priority piece => priority.set piece true)
      (List.replicate picker.pieceCount false) }

def setPriorityMask (priority : List Bool) : PiecePicker :=
  if priority.length = picker.pieceCount then { picker with priority }
  else { picker with priority := List.replicate picker.priority.length false }

def setSequential (enabled : Bool) : PiecePicker :=
  { picker with sequential := enabled }

def setSequentialFromPiece : PiecePicker :=
  { picker with sequentialStartPiece := min piece (picker.pieceCount - 1) }

/-- A piece with a block that nobody was asked for. -/
def pieceIsRequestable : Bool :=
  decide (piece < picker.pieceCount) && flag picker.wanted piece && flag picker.enabled piece &&
    match picker.inProgress.lookup piece with
    | none => true
    | some state => state.nextUnrequested.isSome

/-- The pieces from the start of the sequence to the end, then those before it. -/
def sequence : List Nat :=
  let start := min picker.sequentialStartPiece (picker.pieceCount - 1)
  List.range' start (picker.pieceCount - start) ++ List.range start

/-- Request the next block of a piece, which becomes a piece in progress. -/
def pickBlockFrom : PiecePicker × Option BlockRequest :=
  if picker.pieceCount ≤ piece then (picker, none)
  else
    let pieceLength := picker.pieceLengthFor piece
    let isNew := (picker.inProgress.lookup piece).isNone
    if isNew && !picker.canAdmitPieceState pieceLength then (picker, none)
    else
      let inProgressBytes :=
        if isNew then saturatingAdd picker.inProgressBytes (pieceStateMemoryBytes pieceLength)
        else picker.inProgressBytes
      let state := (picker.inProgress.lookup piece).getD (PieceState.new pieceLength)
      match state.nextUnrequested with
      | none =>
          ({ picker with inProgressBytes, inProgress := picker.inProgress.insert piece state }, none)
      | some blockIdx =>
          let state := state.markRequested blockIdx
          ({ picker with inProgressBytes, inProgress := picker.inProgress.insert piece state },
            some (state.blockRequestFor piece blockIdx))

variable (peerHas : Nat → Bool)

def rarestRequestablePiece : Option Nat :=
  picker.availability.rarestMatching fun piece => picker.pieceIsRequestable piece && peerHas piece

/-- Pick the next block to request from a peer. -/
def pick : PiecePicker × Option BlockRequest :=
  if picker.outstandingWanted = 0 then (picker, none)
  else
    match (List.range picker.pieceCount).find? fun piece =>
        flag picker.priority piece && picker.pieceIsRequestable piece && peerHas piece with
    | some piece => picker.pickBlockFrom piece
    | none =>
        if picker.sequential then
          match picker.sequence.find? fun piece =>
              picker.pieceIsRequestable piece && peerHas piece with
          | some piece => picker.pickBlockFrom piece
          | none => (picker, none)
        else
          match picker.rarestRequestablePiece peerHas with
          | some piece => picker.pickBlockFrom piece
          | none => (picker, none)

/-- Pick from a source that has every piece and is not counted among the peers. -/
def pickFromSeed : PiecePicker × Option BlockRequest :=
  match (List.range picker.pieceCount).find? fun piece =>
      flag picker.priority piece && picker.pieceIsRequestable piece with
  | some piece => picker.pickBlockFrom piece
  | none =>
      if picker.sequential then
        match picker.sequence.find? picker.pieceIsRequestable with
        | some piece => picker.pickBlockFrom piece
        | none => (picker, none)
      else
        match (List.range picker.pieceCount).find? picker.pieceIsRequestable with
        | some piece => picker.pickBlockFrom piece
        | none => (picker, none)

/-- Every wanted piece has all its blocks requested or received. -/
def endgameActive : Bool :=
  if picker.outstandingWanted = 0 then false
  else
    ((picker.wanted.zip picker.enabled).zipIdx.filter fun ((wanted, enabled), _) =>
      wanted && enabled).all fun (_, piece) =>
        ((picker.inProgress.lookup piece).bind PieceState.nextUnrequested).isNone

def nextEndgamePiece
    (alreadyRequestedByPeer : List BlockRequest) : Option Nat :=
  let isCandidate := fun piece =>
    decide (piece < picker.pieceCount) && flag picker.wanted piece && flag picker.enabled piece &&
      peerHas piece &&
      match picker.inProgress.lookup piece with
      | none => false
      | some state => (state.nextRequestedNotReceived alreadyRequestedByPeer piece).isSome
  match (List.range picker.pieceCount).find? fun piece =>
      flag picker.priority piece && isCandidate piece with
  | some piece => some piece
  | none =>
      if picker.sequential then
        picker.sequence.find? fun piece => isCandidate piece && !flag picker.priority piece
      else
        picker.availability.rarestMatching fun piece =>
          !flag picker.priority piece && isCandidate piece

/-- Pick a block that another peer was asked for already. -/
def pickEndgame
    (alreadyRequestedByPeer : List BlockRequest) : PiecePicker × Option BlockRequest :=
  if picker.endgameActive = false then (picker, none)
  else
    match picker.nextEndgamePiece peerHas alreadyRequestedByPeer with
    | none => (picker, none)
    | some piece =>
        match picker.inProgress.lookup piece with
        | none => (picker, none)
        | some state =>
            match state.nextRequestedNotReceived alreadyRequestedByPeer piece with
            | none => (picker, none)
            | some blockIdx =>
                let state := state.markRequested blockIdx
                ({ picker with inProgress := picker.inProgress.insert piece state },
                  some (state.blockRequestFor piece blockIdx))

variable (begin : Nat)

/-- Record a received block; true when it completes its piece. -/
def blockReceived : PiecePicker × Bool :=
  let blockIdx := begin / maxBlockSize
  match picker.inProgress.lookup piece with
  | none => (picker, false)
  | some state =>
      let state := state.markReceived blockIdx
      let picker := { picker with inProgress := picker.inProgress.insert piece state }
      if state.isComplete then ((picker.removeInProgress piece).setWanted piece false, true)
      else (picker, false)

def isPieceInProgress : Bool :=
  (picker.inProgress.lookup piece).isSome

def isBlockReceived : Bool :=
  ((picker.inProgress.lookup piece).bind fun state => state.received[begin / maxBlockSize]?).getD false

def cancelRequest : PiecePicker :=
  match picker.inProgress.lookup piece with
  | none => picker
  | some state =>
      let requested := state.requested.modify (begin / maxBlockSize) (· - 1)
      { picker with inProgress := picker.inProgress.insert piece { state with requested } }

/-- Forget every outstanding request; received blocks stay. -/
def resetOutstandingRequests : PiecePicker :=
  { picker with
    inProgress := mapValues
      (fun _ state => { state with requested := List.replicate state.requested.length 0 })
      picker.inProgress }

end PiecePicker

/-- The public calls that change a picker. A peer is what it has. -/
inductive Call where
  | markHave (piece : Nat)
  | rejectPiece (piece : Nat)
  | setPieceEnabled (piece : Nat) (enabled : Bool)
  | restorePartialPiece (piece : Nat) (receivedBlocks : List Nat)
  | setPriority (pieces : List Nat)
  | setPriorityMask (priority : List Bool)
  | setSequential (enabled : Bool)
  | setSequentialFromPiece (piece : Nat)
  | pick (peerHas : Nat → Bool)
  | pickFromSeed
  | pickEndgame (peerHas : Nat → Bool) (alreadyRequestedByPeer : List BlockRequest)
  | blockReceived (piece begin : Nat)
  | cancelRequest (piece begin : Nat)
  | resetOutstandingRequests
  | addHave (piece : Nat)
  | removeHave (piece : Nat)
  | addBitfield (bitfield : List UInt8)
  | removeBitfield (bitfield : List UInt8)

/-- What a call returns. -/
inductive Reply where
  | done
  | block (request : Option BlockRequest)
  | completed (complete : Bool)
deriving DecidableEq

namespace PiecePicker

def step (picker : PiecePicker) : Call → PiecePicker × Reply
  | .markHave piece => (picker.markHave piece, .done)
  | .rejectPiece piece => (picker.rejectPiece piece, .done)
  | .setPieceEnabled piece enabled => (picker.setPieceEnabled piece enabled, .done)
  | .restorePartialPiece piece blocks => (picker.restorePartialPiece piece blocks, .done)
  | .setPriority pieces => (picker.setPriority pieces, .done)
  | .setPriorityMask priority => (picker.setPriorityMask priority, .done)
  | .setSequential enabled => (picker.setSequential enabled, .done)
  | .setSequentialFromPiece piece => (picker.setSequentialFromPiece piece, .done)
  | .pick peerHas => let (picker, request) := picker.pick peerHas; (picker, .block request)
  | .pickFromSeed => let (picker, request) := picker.pickFromSeed; (picker, .block request)
  | .pickEndgame peerHas already =>
      let (picker, request) := picker.pickEndgame peerHas already; (picker, .block request)
  | .blockReceived piece begin =>
      let (picker, complete) := picker.blockReceived piece begin; (picker, .completed complete)
  | .cancelRequest piece begin => (picker.cancelRequest piece begin, .done)
  | .resetOutstandingRequests => (picker.resetOutstandingRequests, .done)
  | .addHave piece => ({ picker with availability := picker.availability.addHave piece }, .done)
  | .removeHave piece => ({ picker with availability := picker.availability.removeHave piece }, .done)
  | .addBitfield bits => ({ picker with availability := picker.availability.addBitfield bits }, .done)
  | .removeBitfield bits =>
      ({ picker with availability := picker.availability.removeBitfield bits }, .done)

/-- The picker after a history of calls. -/
def run (picker : PiecePicker) (calls : List Call) : PiecePicker :=
  calls.foldl (fun picker call => (picker.step call).1) picker

end PiecePicker

end TorrentNG.Picker
