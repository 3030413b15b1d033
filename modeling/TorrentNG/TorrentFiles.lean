import TorrentNG.Metainfo

/-!
# The file lists of a torrent

The v1 list of `files`, the v2 `file tree`, the v2 piece layers, and the check that
the two views of a hybrid torrent describe one payload. The loops carry the running
offsets and path budget of the source explicitly. Hash maps are association lists
with one entry for a key.
-/

namespace TorrentNG.Metainfo

open Bencode Fallible MachineArithmetic SafePath Utf8

/-- The loop over the components of one path. Empty components are dropped. -/
def parsePathParts : List BValue → Parsed (List Text)
  | [] => .ok []
  | .bytes content :: rest =>
      if content.length > maxPathComponentBytes then
        .error (.limitExceeded "path component bytes" maxPathComponentBytes)
      else do
        let name ← okOr (Utf8.decode content) (.invalidUtf8 "path component")
        let names ← parsePathParts rest
        .ok (if name.isEmpty then names else name :: names)
  | _ :: _ => .error (.invalidFieldType "path component")

variable (name : Text)

/-- One round of the loop of `parse_files_v1`: the file, and the path budget after it. -/
def parseFileEntry (index offset : Nat) (budget : FilePathBudget) (entry : BValue) :
    Parsed (TorrentFileV1 × FilePathBudget) := do
  let length ← getNonnegativeU64 entry (ascii "length") "file length"
  match entry.get (ascii "path") with
  | some (.list parts) =>
      if saturatingAdd parts.length 1 > maxPathComponents then
        .error (.limitExceeded "path components" maxPathComponents)
      else do
        let names ← parsePathParts parts
        let budget ← budget.reserve (name :: names)
        let path ← (SafeRelPath.fromComponents (name :: names) false).mapError .invalidPath
        .ok ({ index, length, path, offset, pad := isPadAttr entry }, budget)
  | _ => .error (.missingField "file path")

def parseFileEntries (name : Text) :
    List BValue → Nat → Nat → FilePathBudget → Parsed (List TorrentFileV1)
  | [], _, _, _ => .ok []
  | entry :: rest, index, offset, budget => do
      let (file, budget) ← parseFileEntry name index offset budget entry
      let next ← addOffset offset file.length "file offset"
      let files ← parseFileEntries name rest (index + 1) next budget
      .ok (file :: files)

def parseFilesV1 (info : BValue) (name : Text) : Parsed (List TorrentFileV1) :=
  match info.get (ascii "files") with
  | some (.list entries) =>
      if entries.length > maxFiles then .error (.limitExceeded "files" maxFiles)
      else parseFileEntries name entries 0 0 {}
  | some _ => .error (.invalidFieldType "files")
  | none => do
      let length ← getNonnegativeU64 info (ascii "length") "length"
      let _ ← FilePathBudget.reserve {} [name]
      let path ← (SafeRelPath.fromName name false).mapError .invalidPath
      .ok [{ index := 0, length, path, offset := 0, pad := false }]

/-- The next multiple of the piece length. -/
def alignPieceOffset (offset pieceLength : Nat) : Parsed Nat :=
  if offset % pieceLength = 0 then .ok offset
  else okOr (checkedAdd offset (pieceLength - offset % pieceLength))
    (.integerOverflow "file tree piece alignment")

/-- The running values of `walk_file_tree`. -/
structure TreeState where
  out : List TorrentFileV2 := []
  offset : Nat := 0
  pieceOffset : Nat := 0
  budget : FilePathBudget := {}

def parsePiecesRoot (leaf : BValue) (length : Nat) : Parsed (Option (Digest 32)) :=
  match leaf.get (ascii "pieces root") with
  | some value => do
      let content ← okOr value.asBytes (.invalidFieldType "pieces root")
      if sized : content.length = 32 then .ok (some ⟨content, sized⟩)
      else .error (.invalidFieldType "pieces root (must be 32 bytes)")
  | none => if length = 0 then .ok none else .error (.missingField "pieces root")

/-- The leaf case of `walk_file_tree`: append one file. -/
def walkLeaf (pieceLength : Nat) (pairs : Pairs) (leaf : BValue)
    (path : List Text) (state : TreeState) : Parsed TreeState :=
  if path = [] then .error (.invalidFieldType "file tree root")
  else if pairs.length ≠ 1 then .error (.invalidFieldType "file tree leaf with sibling entries")
  else do
    let length ← getNonnegativeU64 leaf (ascii "length") "file tree length"
    let piecesRoot ← parsePiecesRoot leaf length
    let budget ← state.budget.reserve path
    let safePath ← (SafeRelPath.fromComponents path false).mapError .invalidPath
    let filePieceOffset ← alignPieceOffset state.pieceOffset pieceLength
    let offset ← addOffset state.offset length "file tree offset"
    let pieceOffset ←
      if length > 0 then
        okOr (checkedAdd filePieceOffset length) (.integerOverflow "file tree piece offset")
      else .ok state.pieceOffset
    .ok { out := state.out ++
            [{ index := state.out.length, length, path := safePath, offset := state.offset
               pieceOffset := filePieceOffset, piecesRoot, pad := isPadAttr leaf }]
          offset, pieceOffset, budget }

/-- The two limits every node is checked against. -/
def checkNode (path : List Text) (state : TreeState) : Parsed Unit :=
  if state.out.length ≥ maxFiles then .error (.limitExceeded "files" maxFiles)
  else if path.length > maxPathComponents then
    .error (.limitExceeded "path components" maxPathComponents)
  else .ok ()

mutual

def walkFileTree (pieceLength : Nat) :
    BValue → List Text → TreeState → Parsed TreeState
  | .dict pairs, path, state => do
      checkNode path state
      match (BValue.dict pairs).get [] with
      | some leaf => walkLeaf pieceLength pairs leaf path state
      | none => walkEntries pieceLength pairs path state
  | .bytes _, path, state => do
      checkNode path state
      .error (.invalidFieldType "file tree node")
  | .int _, path, state => do
      checkNode path state
      .error (.invalidFieldType "file tree node")
  | .list _, path, state => do
      checkNode path state
      .error (.invalidFieldType "file tree node")

/-- The loop over the entries of an interior node. -/
def walkEntries (pieceLength : Nat) :
    Pairs → List Text → TreeState → Parsed TreeState
  | [], _, state => .ok state
  | (key, child) :: rest, path, state =>
      if key = [] then walkEntries pieceLength rest path state
      else if key.length > maxPathComponentBytes then
        .error (.limitExceeded "path component bytes" maxPathComponentBytes)
      else do
        let component ← okOr (Utf8.decode key) (.invalidUtf8 "file tree key")
        let state ← walkFileTree pieceLength child (path ++ [component]) state
        walkEntries pieceLength rest path state

end

def parseFileTree (info : BValue) (pieceLength : Nat) :
    Parsed (List TorrentFileV2) := do
  let tree ← okOr (info.get (ascii "file tree")) (.missingField "file tree")
  let state ← walkFileTree pieceLength tree [] {}
  if state.out.isEmpty then .error (.missingField "file tree (empty)") else .ok state.out

section Layers
variable {Key Value : Type} [DecidableEq Key]

/-- `HashMap::insert`: the value replaced, if any, and the new map. -/
def insertEntry (key : Key) (value : Value) (entries : List (Key × Value)) :
    Option Value × List (Key × Value) :=
  ((entries.find? fun entry => entry.1 = key).map Prod.snd,
    (key, value) :: entries.filter fun entry => entry.1 ≠ key)

/-- `HashMap::get`. -/
def lookupEntry (key : Key) (entries : List (Key × Value)) : Option Value :=
  (entries.find? fun entry => entry.1 = key).map Prod.snd

end Layers

/-- The layers the files need: length and hash count for each root. -/
abbrev RequiredLayers := List (Digest 32 × (Nat × Nat))

/-- Number of hashes in the layer of a file. -/
def layerCount (length pieceLength : Nat) : Parsed Nat := do
  let sum ← okOr (checkedAdd length (pieceLength - 1)) (.integerOverflow "piece layer count")
  if sum / pieceLength > maxPieces then .error (.limitExceeded "piece layers" maxPieces)
  else .ok (sum / pieceLength)

def collectRequired (pieceLength : Nat) :
    List TorrentFileV2 → RequiredLayers → Parsed RequiredLayers
  | [], required => .ok required
  | file :: rest, required =>
      if file.length ≤ pieceLength then collectRequired pieceLength rest required
      else do
        let piecesRoot ← okOr file.piecesRoot (.missingField "pieces root")
        let count ← layerCount file.length pieceLength
        match insertEntry piecesRoot (file.length, count) required with
        | (some (previousLength, previousCount), required) =>
            if previousLength ≠ file.length ∨ previousCount ≠ count then
              .error (.invalidPieceLayer "same pieces root has conflicting file requirements")
            else collectRequired pieceLength rest required
        | (none, required) => collectRequired pieceLength rest required

/-- One entry of `piece layers`: its root and its authenticated hashes. -/
def parseLayer (environment : Environment) (required : RequiredLayers) (key : List UInt8)
    (value : BValue) : Parsed (Digest 32 × List (Digest 32)) :=
  if sized : key.length = 32 then
    match lookupEntry (⟨key, sized⟩ : Digest 32) required with
    | none => .error (.invalidPieceLayer "piece-layer key has no matching layered file")
    | some (_, expected) => do
        let content ← okOr value.asBytes (.invalidFieldType "piece layer")
        if content.length % 32 ≠ 0 then
          .error (.invalidPieceLayer "piece-layer bytes are not a multiple of 32")
        else if content.length / 32 ≠ expected then
          .error (.invalidPieceLayerCount expected (content.length / 32))
        else
          let hashes := splitDigests 32 (content.length / 32) content
          if MerkleHash.merkleRoot environment.hasher hashes ≠ ⟨key, sized⟩ then
            .error .pieceLayerRootMismatch
          else .ok (⟨key, sized⟩, hashes)
  else .error (.invalidPieceLayer "piece-layer key must be a 32-byte pieces root")

def collectLayers (environment : Environment) (required : RequiredLayers) :
    Pairs → List (Digest 32 × List (Digest 32)) →
      Parsed (List (Digest 32 × List (Digest 32)))
  | [], layers => .ok layers
  | (key, value) :: rest, layers => do
      let (root, hashes) ← parseLayer environment required key value
      match insertEntry root hashes layers with
      | (some _, _) => .error (.invalidPieceLayer "duplicate piece-layer key")
      | (none, layers) => collectLayers environment required rest layers

def parsePieceLayers (environment : Environment) (root : BValue) (files : List TorrentFileV2)
    (pieceLength : Nat) : Parsed (List (Digest 32 × List (Digest 32))) := do
  let required ← collectRequired pieceLength files []
  match root.get (ascii "piece layers") with
  | none => if required.isEmpty then .ok [] else .error (.missingField "piece layers")
  | some (.dict entries) =>
      let layers ← collectLayers environment required entries []
      if layers.length ≠ required.length then
        .error (.invalidPieceLayer "missing piece layer for a layered file")
      else .ok layers
  | some _ => .error (.invalidFieldType "piece layers")

/-- `try_fold` over the lengths. -/
def sumLengths : List TorrentFileV1 → Nat → Parsed Nat
  | [], total => .ok total
  | file :: rest, total => do
      let total ← okOr (checkedAdd total file.length) (.integerOverflow "total length")
      sumLengths rest total

def validatePieceCount (pieces : List (Digest 20)) (files : List TorrentFileV1)
    (pieceLength : Nat) : Parsed Unit := do
  let total ← sumLengths files 0
  if total = 0 ∨ ¬files.any fun file => !file.pad && decide (file.length > 0) then
    .error .zeroTotalLength
  else do
    let sum ← okOr (checkedAdd total (pieceLength - 1)) (.integerOverflow "piece count")
    if pieces.length ≠ sum / pieceLength then
      .error (.invalidPieceCount (sum / pieceLength) pieces.length)
    else .ok ()

/-- Paths of the files that are not padding. -/
def payloadPaths (files : List TorrentFileV1) : List SafeRelPath :=
  (files.filter fun file => !file.pad).map TorrentFileV1.path

/-- The same for v2 files. -/
def payloadPathsV2 (files : List TorrentFileV2) : List SafeRelPath :=
  (files.filter fun file => !file.pad).map TorrentFileV2.path

/-- One round of the loop over the v2 files: the stream offset and logical end after it. -/
def checkV2File (pieceLength : Nat) (file : TorrentFileV2) (index streamOffset logicalEnd : Nat) :
    Parsed (Nat × Nat) :=
  if file.index ≠ index then
    .error (.inconsistentHybridLayout "v2 file indexes are not contiguous")
  else if file.pad then
    .error (.inconsistentHybridLayout "v2 file tree contains an explicit padding file")
  else if file.offset ≠ streamOffset then
    .error (.inconsistentHybridLayout "v2 file offsets are not contiguous")
  else do
    let expected ← alignPieceOffset logicalEnd pieceLength
    if file.pieceOffset ≠ expected then
      .error (.inconsistentHybridLayout "v2 file piece offsets are not correctly aligned")
    else do
      let streamOffset ← okOr (checkedAdd streamOffset file.length)
        (.integerOverflow "hybrid v2 payload length")
      if file.length > 0 then do
        let logicalEnd ← okOr (checkedAdd file.pieceOffset file.length)
          (.integerOverflow "hybrid v2 logical length")
        .ok (streamOffset, logicalEnd)
      else .ok (streamOffset, logicalEnd)

def checkV2Layout (pieceLength : Nat) :
    List TorrentFileV2 → Nat → Nat → Nat → Parsed Nat
  | [], _, _, logicalEnd => .ok logicalEnd
  | file :: rest, index, streamOffset, logicalEnd => do
      let (streamOffset, logicalEnd) ← checkV2File pieceLength file index streamOffset logicalEnd
      checkV2Layout pieceLength rest (index + 1) streamOffset logicalEnd

/-- Whether a v1 path is the v2 path itself, or the v2 path below the torrent name. -/
def pathLayout (isMultifile : Bool) (file : TorrentFileV1) (other : TorrentFileV2) :
    Parsed Bool :=
  if file.path.components = other.path.components then .ok true
  else if isMultifile ∧ file.path.components.head? = some name ∧
      file.path.components.tail = other.path.components then .ok false
  else .error (.inconsistentHybridLayout "v1 and v2 payload file paths differ")

/-- A payload file of v1 against its v2 counterpart; returns the path layout. -/
def checkPayload (isMultifile : Bool) (rooted : Option Bool) (file : TorrentFileV1)
    (other : TorrentFileV2) : Parsed Bool :=
  if file.length ≠ other.length then
    .error (.inconsistentHybridLayout "v1 and v2 payload file lengths differ")
  else do
    let layout ← pathLayout name isMultifile file other
    if rooted.any (· ≠ layout) then
      .error (.inconsistentHybridLayout "v2 file tree mixes rooted and rootless paths")
    else if file.length > 0 ∧ file.offset ≠ other.pieceOffset then
      .error (.inconsistentHybridLayout
        "v1 padding does not align payload files to v2 piece boundaries")
    else .ok layout

/-- The running values over the v1 files: stream offset and payload length; the v2
files are consumed by the payload files in order. -/
def checkV1Layout (name : Text) (isMultifile : Bool) :
    List TorrentFileV1 → List TorrentFileV2 → Nat → Nat → Nat → Option Bool →
      Parsed (Nat × Nat)
  | [], [], _, streamOffset, payloadLength, _ => .ok (streamOffset, payloadLength)
  | [], _ :: _, _, _, _, _ =>
      .error (.inconsistentHybridLayout "v2 contains more payload files than v1")
  | file :: rest, others, index, streamOffset, payloadLength, rooted =>
      if file.index ≠ index then
        .error (.inconsistentHybridLayout "v1 file indexes are not contiguous")
      else if file.offset ≠ streamOffset then
        .error (.inconsistentHybridLayout "v1 file offsets are not contiguous")
      else do
        let streamOffset ← okOr (checkedAdd streamOffset file.length)
          (.integerOverflow "hybrid v1 stream length")
        if file.pad then
          checkV1Layout name isMultifile rest others (index + 1) streamOffset payloadLength rooted
        else
          match others with
          | [] => .error (.inconsistentHybridLayout "v1 contains more payload files than v2")
          | other :: others => do
              let layout ← checkPayload name isMultifile rooted file other
              let payloadLength ← okOr (checkedAdd payloadLength file.length)
                (.integerOverflow "hybrid payload length")
              checkV1Layout name isMultifile rest others (index + 1) streamOffset payloadLength
                (some layout)

/-- The v1 and v2 views of a hybrid torrent describe the same payload files in the
same order and at the same piece boundaries. -/
def validateHybridFileLayout (v1 : TorrentMetaV1) (v2 : TorrentMetaV2) :
    Parsed Unit :=
  if v1.pieceLength = 0 ∨ v1.pieceLength ≠ v2.pieceLength then
    .error (.inconsistentHybridLayout "v1 and v2 piece lengths differ or are zero")
  else if v1.name ≠ v2.name then
    .error (.inconsistentHybridLayout "v1 and v2 torrent names differ")
  else do
    validateFilePathCollisions (payloadPaths v1.files)
    validateFilePathCollisions (payloadPathsV2 v2.files)
    let logicalEnd ← checkV2Layout v1.pieceLength v2.files 0 0 0
    let isMultifile := v1.files.any fun file => decide (file.path.components.length > 1)
    let (streamOffset, payloadLength) ←
      checkV1Layout v1.name isMultifile v1.files v2.files 0 0 0 none
    if payloadLength = 0 then
      .error (.inconsistentHybridLayout "hybrid torrent contains no non-empty payload")
    else do
      let alignedEnd ← alignPieceOffset logicalEnd v1.pieceLength
      if streamOffset ≠ logicalEnd ∧ streamOffset ≠ alignedEnd then
        .error (.inconsistentHybridLayout "v1 trailing padding does not match the v2 logical end")
      else .ok ()

end TorrentNG.Metainfo
