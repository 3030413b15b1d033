import TorrentNG.DownloadTask

/-!
# The peers of a torrent task in `rt-engine`

`handle_peer_event` of a torrent task and the calls that connect, fill and drop peers. Each
active peer has the pieces it announced and the list of the requests that were sent to it;
the picker counts the same announcements and requests over all peers.

Addresses and connection ids are any types. The world outside is an argument again: whether
a new peer is admitted, how many download tokens there are, and whether the mailbox of a
peer takes another command. Upload, choking by us, peer exchange and metadata exchange are
left out, and so are the statistics.

The words of a `PieceBitmap` are a list of flags. `all_true` sets bits behind the end that
nothing reads.
-/

namespace TorrentNG.Transfer

open Download MachineArithmetic Picker Tables

/-! ## Bitmaps of pieces -/

structure PieceBitmap where
  bits : List Bool
deriving DecidableEq

namespace PieceBitmap

def new (len : Nat) : PieceBitmap := ⟨List.replicate len false⟩

def allTrue (len : Nat) : PieceBitmap := ⟨List.replicate len true⟩

def len (bitmap : PieceBitmap) : Nat := bitmap.bits.length

def set (bitmap : PieceBitmap) (index : Nat) (value : Bool) : PieceBitmap :=
  ⟨bitmap.bits.set index value⟩

def hasPiece (bitmap : PieceBitmap) (piece : Nat) : Bool := bitmap.bits[piece]?.getD false

/-- Read a bitfield, most significant bit first, up to the last piece. -/
def fromValidatedBitfield (bits : List UInt8) (pieceCount : Nat) : PieceBitmap :=
  bits.zipIdx.foldl (fun bitmap (byte, byteIndex) =>
    ((List.range 8).takeWhile fun bit => byteIndex * 8 + bit < pieceCount).foldl
      (fun bitmap bit =>
        if byte &&& (0x80 >>> UInt8.ofNat bit) ≠ 0 then bitmap.set (byteIndex * 8 + bit) true
        else bitmap)
      bitmap)
    (new pieceCount)

end PieceBitmap

/-- A message that says which pieces a peer has. The peer loop turns each of them into the
same event, with a bitmap of as many flags as there are pieces. -/
inductive Announcement where
  | bitfield (bits : List UInt8)
  | haveAll
  | haveNone

def Announcement.pieces (pieceCount : Nat) : Announcement → PieceBitmap
  | .bitfield bits => .fromValidatedBitfield bits pieceCount
  | .haveAll => .allTrue pieceCount
  | .haveNone => .new pieceCount

def reconcilePeerAvailability (availability : Availability) (old new : PieceBitmap) : Availability :=
  (List.range availability.pieceCount).foldl (fun availability piece =>
    match old.hasPiece piece, new.hasPiece piece with
    | false, true => availability.addHave piece
    | true, false => availability.removeHave piece
    | _, _ => availability) availability

def removePeerAvailability (availability : Availability) (peerHas : PieceBitmap) : Availability :=
  (List.range availability.pieceCount).foldl (fun availability piece =>
    if peerHas.hasPiece piece then availability.removeHave piece else availability) availability

/-! ## Lists of requests -/

/-- `Vec::swap_remove`: the last item takes the place of the removed one. -/
def swapRemove {α : Type} (items : List α) (position : Nat) : List α :=
  match items.getLast? with
  | none => items
  | some last => (items.set position last).dropLast

def removeRequestedBlock (requested : List BlockRequest) (piece begin : Nat) : List BlockRequest :=
  match requested.findIdx? fun request => request.piece == piece && request.begin == begin with
  | none => requested
  | some position => swapRemove requested position

/-- Add the requests for blocks that are not listed yet. -/
def mergeUniqueBlockRequests (requests additional : List BlockRequest) : List BlockRequest :=
  (additional.foldl (fun (requests, seen) request =>
    if (request.piece, request.begin) ∈ seen then (requests, seen)
    else (requests ++ [request], insert (request.piece, request.begin) seen))
    (requests, (requests.map fun request => (request.piece, request.begin)).toFinset)).1

/-- The loop over `cancel_request`. -/
def cancelRequests (picker : PiecePicker) (requests : List BlockRequest) : PiecePicker :=
  requests.foldl (fun picker request => picker.cancelRequest request.piece request.begin) picker

/-! ## The task -/

/-- An active peer: what it has, and what was requested from it. -/
structure PeerHandle (Id : Type) where
  id : Id
  peerHas : PieceBitmap
  choked : Bool
  outstanding : Nat
  requested : List BlockRequest

structure TransferTask (Address Id : Type) where
  download : DownloadTask
  activePeers : Table Address (PeerHandle Id)

/-- What a connection attempt finds. -/
structure Admission where
  /-- Policies, bans and the connection budget. -/
  allowed : Bool
  peerCapacity : Nat
  /-- Memory for the bitmaps of the peer. -/
  stateGranted : Bool
  /-- Memory for the bitmap that is uploaded to the peer. -/
  uploadGranted : Bool

/-- What the world answers while the requests of a peer are filled up. -/
structure Supply where
  /-- The download tokens, if the rate is limited. -/
  downloadTokens : Option Nat
  /-- Whether the mailbox takes a request, by the number of requests that fit the pipeline. -/
  accepts : Nat → Bool

/-- What a peer loop reports. -/
inductive PeerEvent where
  | bitfield (announced : Announcement)
  | havePiece (piece : Nat)
  | unchoked
  | choked (outstanding : List BlockRequest)
  | piece (block : BlockEvent) (outside : Outside)
  | requestRejected (rejected : BlockRequest)
  | disconnected (outstanding : List BlockRequest)
  | requestTimedOut (timedOut : List BlockRequest)

def peerRequestPipelineNormal : Nat := 32
def peerRequestPipelineConstrained : Nat := 8

def memoryAwareRequestPipeline (pieceAssemblyBytes softCapBytes : Nat) : Nat :=
  if softCapBytes = 0 then peerRequestPipelineNormal
  else if saturatingMul softCapBytes 3 ≤ saturatingMul pieceAssemblyBytes 4 then
    peerRequestPipelineConstrained
  else peerRequestPipelineNormal

/-- The next block for a peer, repeated if nothing else is left. -/
def pickFor {Id : Type} (picker : PiecePicker) (handle : PeerHandle Id) :
    PiecePicker × Option BlockRequest :=
  match picker.pick handle.peerHas.hasPiece with
  | (picker, some request) => (picker, some request)
  | (picker, none) => picker.pickEndgame handle.peerHas.hasPiece handle.requested

/-- The loop of `refill_peer_requests`: every round but the last sends a request, so there are
at most as many rounds as requests fit the pipeline. -/
def refillLoop {Id : Type} (accepts : Nat → Bool) :
    Nat → Option Nat → PiecePicker → PeerHandle Id → PiecePicker × PeerHandle Id
  | 0, _, picker, handle => (picker, handle)
  | rounds + 1, tokens, picker, handle =>
      if tokens = some 0 then (picker, handle)
      else
        match pickFor picker handle with
        | (picker, none) => (picker, handle)
        | (picker, some request) =>
            if tokens.any (· < request.length) || !accepts rounds then
              (picker.cancelRequest request.piece request.begin, handle)
            else
              refillLoop accepts rounds (tokens.map (· - request.length)) picker
                { handle with
                  outstanding := handle.outstanding + 1
                  requested := handle.requested ++ [request] }

namespace TransferTask

variable {Address Id : Type} [DecidableEq Address] [DecidableEq Id]

def new (download : DownloadTask) : TransferTask Address Id := ⟨download, ∅⟩

variable (task : TransferTask Address Id)

def picker : PiecePicker := task.download.picker

def withPicker (picker : PiecePicker) : TransferTask Address Id :=
  { task with download := { task.download with picker } }

variable (peer : Address)

def withPeer (handle : PeerHandle Id) : TransferTask Address Id :=
  { task with activePeers := task.activePeers.insert peer handle }

def withoutPeer : TransferTask Address Id :=
  { task with activePeers := task.activePeers.erase peer }

def registerPeer (id : Id) : TransferTask Address Id :=
  task.withPeer peer
    { id
      peerHas := .new task.download.pieces.length
      choked := true
      outstanding := 0
      requested := [] }

/-- What connecting and accepting a peer have in common. -/
def connectPeer (id : Id) (admission : Admission) : TransferTask Address Id :=
  if admission.peerCapacity ≤ size task.activePeers ∨ admission.allowed = false ∨
      (task.activePeers.lookup peer).isSome = true ∨ admission.stateGranted = false then task
  else if admission.uploadGranted then task.registerPeer peer id
  else (task.registerPeer peer id).withoutPeer peer

def refillPeerRequests (supply : Supply) : TransferTask Address Id :=
  match task.activePeers.lookup peer with
  | none => task
  | some handle =>
      if handle.choked then task
      else
        let requestPipeline := memoryAwareRequestPipeline task.download.pieceAssemblyBytes
          task.download.pieceAssemblySoftCapBytes
        let (picker, handle) := refillLoop supply.accepts (requestPipeline - handle.outstanding)
          supply.downloadTokens task.picker handle
        (task.withPicker picker).withPeer peer handle

/-- An event of a peer that is active under the address and the id of the event. -/
def handleActive (handle : PeerHandle Id)
    (supply : Supply) : PeerEvent → TransferTask Address Id
  | .bitfield announced =>
      let pieces := announced.pieces task.picker.pieceCount
      let availability :=
        reconcilePeerAvailability task.picker.availability handle.peerHas pieces
      ((task.withPicker { task.picker with availability }).withPeer peer
        { handle with peerHas := pieces }).refillPeerRequests peer supply
  | .havePiece piece =>
      if handle.peerHas.hasPiece piece then task.refillPeerRequests peer supply
      else
        let availability := task.picker.availability.addHave piece
        ((task.withPicker { task.picker with availability }).withPeer peer
          { handle with peerHas := handle.peerHas.set piece true }).refillPeerRequests peer supply
  | .unchoked => (task.withPeer peer { handle with choked := false }).refillPeerRequests peer supply
  | .choked outstanding =>
      let outstanding := mergeUniqueBlockRequests handle.requested outstanding
      (task.withPeer peer { handle with choked := true, outstanding := 0, requested := [] }).withPicker
        (cancelRequests task.picker outstanding)
  | .piece block outside =>
      let task := task.withPeer peer
        { handle with
          outstanding := handle.outstanding - 1
          requested := removeRequestedBlock handle.requested block.piece block.offset }
      { task with download := task.download.handleBlock block outside }.refillPeerRequests peer supply
  | .requestRejected rejected =>
      let task := task.withPeer peer
        { handle with
          outstanding := handle.outstanding - 1
          requested := removeRequestedBlock handle.requested rejected.piece rejected.begin }
      (task.withPicker (task.picker.cancelRequest rejected.piece rejected.begin)).refillPeerRequests
        peer supply
  | .disconnected outstanding =>
      let outstanding := mergeUniqueBlockRequests handle.requested outstanding
      let availability := removePeerAvailability task.picker.availability handle.peerHas
      (task.withPicker (cancelRequests { task.picker with availability } outstanding)).withoutPeer peer
  | .requestTimedOut timedOut =>
      let task := task.withPeer peer
        { handle with
          outstanding := handle.outstanding - timedOut.length
          requested := timedOut.foldl (fun requested request =>
            removeRequestedBlock requested request.piece request.begin) handle.requested }
      (task.withPicker (cancelRequests task.picker timedOut)).refillPeerRequests peer supply

/-- Events of a connection that was replaced are dropped. -/
def handlePeerEvent (id : Id) (event : PeerEvent)
    (supply : Supply) : TransferTask Address Id :=
  match task.activePeers.lookup peer with
  | none => task
  | some handle => if handle.id = id then task.handleActive peer handle supply event else task

def evictPeer : TransferTask Address Id :=
  match task.activePeers.lookup peer with
  | none => task
  | some handle =>
      let availability := removePeerAvailability task.picker.availability handle.peerHas
      (task.withoutPeer peer).withPicker
        (cancelRequests { task.picker with availability } handle.requested)

def shutdownPeers : TransferTask Address Id :=
  let availability := (values task.activePeers).foldl
    (fun availability handle => removePeerAvailability availability handle.peerHas)
    task.picker.availability
  let picker := { task.picker with availability }.resetOutstandingRequests
  { download := { task.download with picker }.clearPieceAssemblies, activePeers := ∅ }

end TransferTask

/-! ## Histories -/

/-- A call on the picker that neither requests a block nor counts an announcement. -/
def isQuiet : Call → Bool
  | .pick _ | .pickFromSeed | .pickEndgame _ _ => false
  | .addHave _ | .removeHave _ | .addBitfield _ | .removeBitfield _ => false
  | _ => true

/-- An event of the rest of the task, with only quiet calls on the picker. -/
def isQuietEvent : Download.Event → Bool
  | .pickerCall call _ => isQuiet call
  | _ => true

/-- What happens to a task with peers. There are no web seeds. -/
inductive Event (Address Id : Type) where
  | connectPeer (peer : Address) (id : Id) (admission : Admission)
  | peerEvent (peer : Address) (id : Id) (event : PeerEvent) (supply : Supply)
  | refillPeerRequests (peer : Address) (supply : Supply)
  | evictPeer (peer : Address)
  | shutdownPeers
  | download (event : Download.Event) (quiet : isQuietEvent event = true)

namespace TransferTask

variable {Address Id : Type} [DecidableEq Address] [DecidableEq Id]

def step (task : TransferTask Address Id) : Event Address Id → TransferTask Address Id
  | .connectPeer peer id admission => task.connectPeer peer id admission
  | .peerEvent peer id event supply => task.handlePeerEvent peer id event supply
  | .refillPeerRequests peer supply => task.refillPeerRequests peer supply
  | .evictPeer peer => task.evictPeer peer
  | .shutdownPeers => task.shutdownPeers
  | .download event _ => { task with download := task.download.step event }

/-- The task after a history of events. -/
def run (task : TransferTask Address Id) (events : List (Event Address Id)) :
    TransferTask Address Id := events.foldl step task

end TransferTask

end TorrentNG.Transfer
