import TorrentNG.PieceMap
import TorrentNG.TorrentFiles

/-!
# Parsing a torrent, and what the engine may rely on

`parse_torrent` and its reserving variant, for v1, v2 and hybrid torrents. The main
result joins four validators that were written apart: whatever v1 file list the
parser accepts, the engine's piece map over it is built, has one piece for each
parsed hash, and the payload paths can exist side by side on disk.
-/

namespace TorrentNG.Metainfo

open Bencode Fallible List MachineArithmetic Pieces Reading SafePath Utf8

variable (info : BValue)

/-- The checks of `meta version` against the fields present; whether the torrent is v2. -/
def checkVersion : Parsed Bool :=
  let version := (info.get (ascii "meta version")).bind BValue.asInt
  let hasFileTree := (info.get (ascii "file tree")).isSome
  match version with
  | some number =>
      if number.toInt < 0 then .error (.invalidIntegerValue "meta version" number)
      else if number.toInt > 2 then .error (.unsupportedMetaVersion number)
      else if number = 2 ∧ ¬hasFileTree then .error (.missingField "file tree")
      else if hasFileTree ∧ number ≠ 2 then .error (.unsupportedMetaVersion number)
      else .ok (number = 2 ∧ hasFileTree)
  | none => if hasFileTree then .error (.missingField "meta version") else .ok false

def parsePrivate : Parsed Bool :=
  match info.get (ascii "private") with
  | none => .ok false
  | some value =>
      match value.asInt with
      | some number =>
          if number = 0 then .ok false
          else if number = 1 then .ok true
          else .error (.invalidIntegerValue "private" number)
      | none => .error (.invalidFieldType "private")

def parsePieceLength (isV2 : Bool) : Parsed Nat := do
  let pieceLength ← getPositiveU64 info (ascii "piece length") "piece length"
  if pieceLength > 2 ^ 32 - 1 then .error (.invalidPieceLength pieceLength)
  else if isV2 ∧ (pieceLength < 16 * 1024 ∨ nextPowerOfTwo pieceLength ≠ pieceLength) then
    .error (.invalidPieceLength pieceLength)
  else .ok pieceLength

def parseHeader (root info : BValue) (isV2 : Bool) : Parsed Header := do
  let announce ← parseAnnounce root
  let announceList ← parseAnnounceList root (if announce.isSome then 1 else 0)
    ((announce.map byteLength).getD 0)
  let webseeds ← parseWebseeds root
  let comment ← parseOptionalString root (ascii "comment")
  let createdBy ← parseOptionalString root (ascii "created by")
  let creationDate := (root.get (ascii "creation date")).bind BValue.asInt
  let name ← getString info (ascii "name") "name" maxNameBytes
  if name.isEmpty then .error .zeroLengthName
  else do
    let pieceLength ← parsePieceLength info isV2
    let isPrivate ← parsePrivate info
    .ok { announce, announceList, webseeds, comment, createdBy, creationDate, name, pieceLength
          isPrivate }

variable (header : Header)

/-- The hashes and files of the v1 view, with the checks made before anything else is
parsed. -/
def parseV1Files :
    Parsed (List (Digest 20) × List TorrentFileV1) := do
  let pieces ← parsePieceHashes info
  let files ← parseFilesV1 info header.name
  validateFilePathCollisions (payloadPaths files)
  .ok (pieces, files)

/-- The files and layers of the v2 view. -/
def parseV2Files (environment : Environment) (root info : BValue) (header : Header) :
    Parsed (List TorrentFileV2 × List (Digest 32 × List (Digest 32))) := do
  let files ← parseFileTree info header.pieceLength
  validateFilePathCollisions (payloadPathsV2 files)
  let pieceLayers ← parsePieceLayers environment root files header.pieceLength
  .ok (files, pieceLayers)

def makeV1 (infoHash : Digest 20) (pieces : List (Digest 20)) (files : List TorrentFileV1)
    (raw : Bytes) : TorrentMetaV1 :=
  { header with infoHash, pieces, files, raw }

def makeV2 (infoHashV2 : Digest 32) (files : List TorrentFileV2)
    (pieceLayers : List (Digest 32 × List (Digest 32))) (raw : Bytes) : TorrentMetaV2 :=
  { header with infoHashV2, files, pieceLayers, raw }

section Reserving
variable {σ : Type}

def reserveProjectionAllocationBytes (reserve : Reservation σ) (bytes : Nat) (budget : σ) :
    Parsed σ :=
  if bytes > 0 then
    let (granted, budget) := reserve bytes budget
    if granted then .ok budget else .error (.bencode (.allocationBudgetExceeded bytes))
  else .ok budget

def copyRawWithAllocationReservation (reserve : Reservation σ) (raw : Bytes)
    (budget : σ) : Parsed (Bytes × σ) :=
  let (granted, budget) := reserve raw.length budget
  if granted then
    if raw.length > maxAllocation then .error (.bencode .allocationFailed) else .ok (raw, budget)
  else .error (.bencode (.allocationBudgetExceeded raw.length))

/-- The decoded root, its `info` value and the bytes of that value. -/
def decodeRoot (raw : Bytes) (reserve : Reservation σ) (budget : σ) :
    Parsed ((BValue × BValue × Bytes) × σ) :=
  if raw.length > maxTorrentBytes then .error (.limitExceeded "torrent bytes" maxTorrentBytes)
  else do
    let ((value, span), budget) ←
      (decodeTorrentInfoSpanWithAllocationReservation raw reserve budget).mapError fun error =>
        match error with
        | .bencode problem => .bencode problem
        | .fault => .spanFault
    match value with
    | .dict pairs => do
        let info ← okOr ((BValue.dict pairs).get infoKey) (.missingField "info")
        match span with
        | some (start, stop) => .ok ((.dict pairs, info, slice raw start stop), budget)
        | none => .error (.missingField "info span")
    | _ => .error (.missingField "root dict")

variable (environment : Environment)

def parseHybrid (reserve : Reservation σ) (raw : Bytes)
    (root info : BValue) (infoBytes : Bytes) (header : Header) (budget : σ) :
    Parsed TorrentMeta := do
  let (pieces, filesV1) ← parseV1Files info header
  let (filesV2, pieceLayers) ← parseV2Files environment root info header
  validatePieceCount pieces filesV1 header.pieceLength
  let (rawV1, budget) ← copyRawWithAllocationReservation reserve raw budget
  let (rawV2, _) ← copyRawWithAllocationReservation reserve raw budget
  let v1 := makeV1 header (environment.sha1 infoBytes) pieces filesV1 rawV1
  let v2 := makeV2 header (environment.sha256 infoBytes) filesV2 pieceLayers rawV2
  validateHybridFileLayout v1 v2
  .ok (.hybrid v1 v2)

def parseV2 (reserve : Reservation σ) (raw : Bytes)
    (root info : BValue) (infoBytes : Bytes) (header : Header) (budget : σ) :
    Parsed TorrentMeta := do
  let (files, pieceLayers) ← parseV2Files environment root info header
  let (rawV2, _) ← copyRawWithAllocationReservation reserve raw budget
  .ok (.v2 (makeV2 header (environment.sha256 infoBytes) files pieceLayers rawV2))

def parseV1 (reserve : Reservation σ) (raw : Bytes)
    (info : BValue) (infoBytes : Bytes) (header : Header) (budget : σ) :
    Parsed TorrentMeta := do
  let (pieces, files) ← parseV1Files info header
  validatePieceCount pieces files header.pieceLength
  let (rawV1, _) ← copyRawWithAllocationReservation reserve raw budget
  .ok (.v1 (makeV1 header (environment.sha1 infoBytes) pieces files rawV1))

def parseTorrentWithAllocationReservation
    (reserve : Reservation σ) (raw : Bytes) (budget : σ) :
    Parsed TorrentMeta := do
  let ((root, info, infoBytes), budget) ← decodeRoot raw reserve budget
  let isV2 ← checkVersion info
  let hasPieces := (info.get (ascii "pieces")).isSome
  let budget ← reserveProjectionAllocationBytes reserve
    (environment.estimateProjection root info isV2 (isV2 && hasPieces)) budget
  let header ← parseHeader root info isV2
  if isV2 && hasPieces then
    parseHybrid environment reserve raw root info infoBytes header budget
  else if isV2 then parseV2 environment reserve raw root info infoBytes header budget
  else parseV1 environment reserve raw info infoBytes header budget

end Reserving

/-- Grant requests while their sum stays within the limit. -/
def boundedAllocationReservation (limit additional reserved : Nat) : Bool × Nat :=
  match checkedAdd reserved additional with
  | none => (false, reserved)
  | some next => if next > limit then (false, reserved) else (true, next)

def parseTorrent (environment : Environment) (raw : Bytes) :
    Parsed TorrentMeta :=
  parseTorrentWithAllocationReservation environment
    (boundedAllocationReservation maxConvenienceMetainfoAllocationBytes) raw 0

/-- The engine's `build_piece_map`: padding files become padding indexes. -/
def fileSpans (files : List TorrentFileV1) : List FileSpan :=
  files.map fun file => ⟨file.index, file.path, file.offset, file.length⟩

def paddingIndices (files : List TorrentFileV1) : List Nat :=
  files.filterMap fun file => if file.pad then some file.index else none

def buildPieceMap (pieceLength : Nat) (files : List TorrentFileV1) :
    Except PieceMapError PieceMap :=
  PieceMap.newWithPadding pieceLength (fileSpans files) (paddingIndices files)

/-- The v1 metadata of a torrent, if it has any. -/
def TorrentMeta.v1View : TorrentMeta → Option TorrentMetaV1
  | .v1 view => some view
  | .hybrid view _ => some view
  | .v2 _ => none

/-- The v2 metadata of a torrent, if it has any. -/
def TorrentMeta.v2View : TorrentMeta → Option TorrentMetaV2
  | .v1 _ => none
  | .hybrid _ view => some view
  | .v2 view => some view

/-- What a parsed v1 file list is from a given index and offset on. -/
structure Listed (files : List TorrentFileV1) (index offset : Nat) : Prop where
  indexes : files.map TorrentFileV1.index = List.range' index files.length
  contiguous : Contiguous (fileSpans files) offset
  bounded : offset + spanLength (fileSpans files) < 2 ^ 64

variable {index offset : Nat} {files : List TorrentFileV1} {name : Text} {info : BValue}

theorem Listed.cons {file : TorrentFileV1} {rest : List TorrentFileV1}
    (numbered : file.index = index) (placed : file.offset = offset)
    (tail : Listed rest (index + 1) (offset + file.length)) :
    Listed (file :: rest) index offset := by
  refine ⟨?_, ⟨placed, tail.contiguous⟩, ?_⟩
  · rw [map_cons, numbered, tail.indexes, length_cons, List.range'_succ]
  · have sums := tail.bounded
    simp only [fileSpans, map_cons, spanLength, sum_cons] at sums ⊢
    omega

theorem Listed.indexes_nodup (listed : Listed files index offset) :
    (files.map TorrentFileV1.index).Nodup := by
  rw [listed.indexes]
  exact nodup_range'

theorem parseFileEntry_placed {budget after : FilePathBudget} {entry : BValue}
    {file : TorrentFileV1}
    (parsed : parseFileEntry name index offset budget entry = .ok (file, after)) :
    file.index = index ∧ file.offset = offset := by
  obtain ⟨length, _, parsed⟩ := bind_eq_ok.mp parsed
  split at parsed
  · split_ifs at parsed
    obtain ⟨names, _, parsed⟩ := bind_eq_ok.mp parsed
    obtain ⟨reserved, _, parsed⟩ := bind_eq_ok.mp parsed
    obtain ⟨path, _, parsed⟩ := bind_eq_ok.mp parsed
    cases parsed
    exact ⟨rfl, rfl⟩
  · cases parsed

theorem parseFileEntries_listed {entries : List BValue} (index offset : Nat)
    (budget : FilePathBudget) (files : List TorrentFileV1) (small : offset < 2 ^ 64)
    (parsed : parseFileEntries name entries index offset budget = .ok files) :
    Listed files index offset := by
  induction entries generalizing index offset budget files with
  | nil =>
    cases parsed
    exact ⟨rfl, trivial, small⟩
  | cons entry rest ih =>
    rw [parseFileEntries, bind_eq_ok] at parsed
    obtain ⟨⟨file, after⟩, first, parsed⟩ := parsed
    obtain ⟨next, added, parsed⟩ := bind_eq_ok.mp parsed
    obtain ⟨others, remaining, parsed⟩ := bind_eq_ok.mp parsed
    cases parsed
    obtain ⟨rfl, bounded⟩ := checkedAdd_eq_some.mp (okOr_eq_ok.mp added)
    obtain ⟨numbered, placed⟩ := parseFileEntry_placed first
    exact Listed.cons numbered placed (ih _ _ _ _ bounded remaining)

theorem getNonnegativeU64_lt {dict : BValue} {key : Bytes} {field : String} {value : Nat}
    (read : getNonnegativeU64 dict key field = .ok value) : value < 2 ^ 63 := by
  obtain ⟨integer, _, accepted⟩ := bind_eq_ok.mp read
  split_ifs at accepted with negative
  obtain rfl := Except.ok.inj accepted
  have high := Int64.toInt_lt integer
  omega

theorem parseFilesV1_listed (parsed : parseFilesV1 info name = .ok files) : Listed files 0 0 := by
  unfold parseFilesV1 at parsed
  split at parsed
  · split_ifs at parsed
    exact parseFileEntries_listed _ _ _ _ (by decide) parsed
  · cases parsed
  · obtain ⟨length, read, parsed⟩ := bind_eq_ok.mp parsed
    obtain ⟨_, _, parsed⟩ := bind_eq_ok.mp parsed
    obtain ⟨path, _, parsed⟩ := bind_eq_ok.mp parsed
    cases parsed
    have small := getNonnegativeU64_lt read
    refine ⟨rfl, ⟨rfl, trivial⟩, ?_⟩
    simp only [fileSpans, map_cons, map_nil, spanLength, sum_cons, sum_nil]
    omega

/-- The running sum of the lengths is their sum, where it fits. -/
theorem sumLengths_eq_ok (start : Nat) {total : Nat} (summed : sumLengths files start = .ok total) :
    start + spanLength (fileSpans files) = total := by
  induction files generalizing start with
  | nil => exact Except.ok.inj summed
  | cons file rest ih =>
    rw [sumLengths, bind_eq_ok] at summed
    obtain ⟨next, added, summed⟩ := summed
    obtain ⟨rfl, _⟩ := checkedAdd_eq_some.mp (okOr_eq_ok.mp added)
    rw [← ih _ summed]
    simp only [fileSpans, map_cons, spanLength, sum_cons]
    omega

theorem validatePieceCount_eq_ok {pieces : List (Digest 20)} {pieceLength : Nat}
    (positive : 0 < pieceLength) (valid : validatePieceCount pieces files pieceLength = .ok ()) :
    0 < spanLength (fileSpans files) ∧
      pieces.length = divCeil (spanLength (fileSpans files)) pieceLength := by
  obtain ⟨total, summed, valid⟩ := bind_eq_ok.mp valid
  have sums := sumLengths_eq_ok 0 summed
  rw [Nat.zero_add] at sums
  subst sums
  split_ifs at valid with empty
  obtain ⟨sum, added, valid⟩ := bind_eq_ok.mp valid
  obtain ⟨rfl, _⟩ := checkedAdd_eq_some.mp (okOr_eq_ok.mp added)
  split_ifs at valid with different
  rw [add_pred_div_eq_divCeil positive] at different
  rw [not_or] at empty
  exact ⟨Nat.pos_of_ne_zero empty.1, not_ne_iff.mp different⟩

/-- What the parser has established about the v1 view of an accepted torrent. -/
structure V1Checked (view : TorrentMetaV1) : Prop where
  listed : Listed view.files 0 0
  paths : (payloadPaths view.files).Pairwise fun left right => ¬Conflict left right
  content : 0 < spanLength (fileSpans view.files)
  counted : view.pieces.length = divCeil (spanLength (fileSpans view.files)) view.pieceLength
  few : view.pieces.length ≤ maxPieces
  positive : 0 < view.pieceLength
  pieceFits : view.pieceLength < 2 ^ 32

theorem parsePieceHashes_length {pieces : List (Digest 20)}
    (parsed : parsePieceHashes info = .ok pieces) : pieces.length ≤ maxPieces := by
  obtain ⟨content, _, parsed⟩ := bind_eq_ok.mp parsed
  split_ifs at parsed with _ many
  cases parsed
  rw [length_splitDigests _ (Nat.div_mul_le_self _ _)]
  omega

theorem parseHeader_pieceLength {root : BValue} {isV2 : Bool} {header : Header}
    (parsed : parseHeader root info isV2 = .ok header) :
    0 < header.pieceLength ∧ header.pieceLength < 2 ^ 32 := by
  obtain ⟨announce, _, parsed⟩ := bind_eq_ok.mp parsed
  obtain ⟨tiers, _, parsed⟩ := bind_eq_ok.mp parsed
  obtain ⟨webseeds, _, parsed⟩ := bind_eq_ok.mp parsed
  obtain ⟨comment, _, parsed⟩ := bind_eq_ok.mp parsed
  obtain ⟨createdBy, _, parsed⟩ := bind_eq_ok.mp parsed
  obtain ⟨name, _, parsed⟩ := bind_eq_ok.mp parsed
  split_ifs at parsed
  obtain ⟨pieceLength, sized, parsed⟩ := bind_eq_ok.mp parsed
  obtain ⟨isPrivate, _, parsed⟩ := bind_eq_ok.mp parsed
  cases parsed
  obtain ⟨value, read, sized⟩ := bind_eq_ok.mp sized
  have positive := (getPositiveU64_bounds read).1
  split_ifs at sized with large
  cases sized
  exact ⟨positive, not_le.mp large⟩

section Accepted
variable {σ : Type}

/-- What was parsed for the views of an accepted torrent. -/
theorem parseTorrent_views {environment : Environment} {reserve : Reservation σ}
    {raw : Bytes} {budget : σ} {torrent : TorrentMeta}
    (parsed : parseTorrentWithAllocationReservation environment reserve raw budget = .ok torrent) :
    ∃ root info header, 0 < header.pieceLength ∧ header.pieceLength < 2 ^ 32 ∧
      (∀ view, torrent.v1View = some view → ∃ hash pieces files copy,
        parseV1Files info header = .ok (pieces, files) ∧
          validatePieceCount pieces files header.pieceLength = .ok () ∧
            makeV1 header hash pieces files copy = view) ∧
      ∀ view, torrent.v2View = some view → ∃ hash files layers copy,
        parseV2Files environment root info header = .ok (files, layers) ∧
          makeV2 header hash files layers copy = view := by
  obtain ⟨⟨⟨root, info, infoBytes⟩, decoded⟩, _, parsed⟩ := bind_eq_ok.mp parsed
  obtain ⟨isV2, _, parsed⟩ := bind_eq_ok.mp parsed
  obtain ⟨reserved, _, parsed⟩ := bind_eq_ok.mp parsed
  obtain ⟨header, headed, parsed⟩ := bind_eq_ok.mp parsed
  obtain ⟨positive, small⟩ := parseHeader_pieceLength headed
  refine ⟨root, info, header, positive, small, ?_⟩
  split_ifs at parsed
  · obtain ⟨⟨pieces, files⟩, listed, parsed⟩ := bind_eq_ok.mp parsed
    obtain ⟨⟨filesV2, layers⟩, listedV2, parsed⟩ := bind_eq_ok.mp parsed
    obtain ⟨_, counted, parsed⟩ := bind_eq_ok.mp parsed
    obtain ⟨⟨rawV1, _⟩, _, parsed⟩ := bind_eq_ok.mp parsed
    obtain ⟨⟨rawV2, _⟩, _, parsed⟩ := bind_eq_ok.mp parsed
    obtain ⟨_, _, parsed⟩ := bind_eq_ok.mp parsed
    cases parsed
    exact ⟨fun _ viewed => ⟨_, pieces, files, rawV1, listed, counted, Option.some.inj viewed⟩,
      fun _ viewed => ⟨_, filesV2, layers, rawV2, listedV2, Option.some.inj viewed⟩⟩
  · obtain ⟨⟨filesV2, layers⟩, listedV2, parsed⟩ := bind_eq_ok.mp parsed
    obtain ⟨⟨rawV2, _⟩, _, parsed⟩ := bind_eq_ok.mp parsed
    cases parsed
    exact ⟨nofun, fun _ viewed => ⟨_, filesV2, layers, rawV2, listedV2, Option.some.inj viewed⟩⟩
  · obtain ⟨⟨pieces, files⟩, listed, parsed⟩ := bind_eq_ok.mp parsed
    obtain ⟨_, counted, parsed⟩ := bind_eq_ok.mp parsed
    obtain ⟨⟨rawV1, _⟩, _, parsed⟩ := bind_eq_ok.mp parsed
    cases parsed
    exact ⟨fun _ viewed => ⟨_, pieces, files, rawV1, listed, counted, Option.some.inj viewed⟩, nofun⟩

/-- The checks both kinds of torrent with a v1 view have passed. -/
theorem parseTorrent_v1Checked {environment : Environment} {reserve : Reservation σ}
    {raw : Bytes} {budget : σ} {torrent : TorrentMeta} {view : TorrentMetaV1}
    (parsed : parseTorrentWithAllocationReservation environment reserve raw budget = .ok torrent)
    (viewed : torrent.v1View = some view) : V1Checked view := by
  obtain ⟨_, _, _, positive, small, views, _⟩ := parseTorrent_views parsed
  obtain ⟨_, _, _, _, parsed, counted, rfl⟩ := views view viewed
  obtain ⟨hashes, hashed, parsed⟩ := bind_eq_ok.mp parsed
  obtain ⟨list, listed, parsed⟩ := bind_eq_ok.mp parsed
  obtain ⟨_, separate, parsed⟩ := bind_eq_ok.mp parsed
  cases parsed
  obtain ⟨content, count⟩ := validatePieceCount_eq_ok positive counted
  exact ⟨parseFilesV1_listed listed, validateUniqueFilePaths_eq_ok.mp (mapError_eq_ok.mp separate),
    content, count, parsePieceHashes_length hashed, positive, small⟩

end Accepted

/-- In a contiguous list each file starts at the sum of the lengths before it. -/
theorem offset_eq_sum (base : Nat) (contiguous : Contiguous (fileSpans files) base) (position : Nat)
    (inside : position < files.length) :
    files[position].offset = base + ((files.take position).map TorrentFileV1.length).sum := by
  induction files generalizing base position with
  | nil => simp at inside
  | cons file rest ih =>
    obtain ⟨placed, following⟩ := contiguous
    cases position with
    | zero => simpa using placed
    | succ position =>
      have later := ih (base + file.length) following position
        (by simpa using inside)
      simp only [getElem_cons_succ, take_succ_cons, map_cons, sum_cons]
      rw [later, Nat.add_assoc]

theorem Listed.buildPieceMap_succeeds {pieceLength : Nat} (listed : Listed files 0 0)
    (positive : 0 < pieceLength) (pieceFits : pieceLength < 2 ^ 32)
    (content : 0 < spanLength (fileSpans files))
    (countFits : divCeil (spanLength (fileSpans files)) pieceLength < 2 ^ 32) :
    ∃ map, buildPieceMap pieceLength files = .ok map ∧
      map.pieceCount = divCeil (spanLength (fileSpans files)) pieceLength := by
  have bounded := listed.bounded
  have indexes : (fileSpans files).map FileSpan.fileIndex = files.map TorrentFileV1.index := by
    rw [fileSpans, map_map]
    rfl
  refine PieceMap.newWithPadding_succeeds positive pieceFits listed.contiguous (by omega) content
    (indexes ▸ listed.indexes_nodup) countFits fun index member => ?_
  obtain ⟨file, inFiles, found⟩ := mem_filterMap.mp member
  split_ifs at found
  obtain rfl := Option.some.inj found
  exact indexes ▸ mem_map_of_mem inFiles

theorem V1Checked.buildPieceMap_succeeds {view : TorrentMetaV1} (checked : V1Checked view) :
    ∃ map, buildPieceMap view.pieceLength view.files = .ok map ∧
      map.pieceCount = view.pieces.length := by
  have few := checked.few
  rw [checked.counted, maxPieces] at few
  rw [checked.counted]
  exact checked.listed.buildPieceMap_succeeds checked.positive checked.pieceFits checked.content
    (by omega)

/-- Every accepted torrent with a v1 view is usable: its files are numbered in order
and follow each other, the engine's piece map over them is built with one piece for
each hash, and no payload path equals or contains another. -/
theorem accepted_v1_view_usable (environment : Environment) (raw : Bytes)
    (torrent : TorrentMeta) (view : TorrentMetaV1)
    (parsed : parseTorrent environment raw = .ok torrent)
    (viewed : torrent.v1View = some view) :
    view.files.map TorrentFileV1.index = List.range view.files.length ∧
      (∀ position (inside : position < view.files.length), view.files[position].offset =
        ((view.files.take position).map TorrentFileV1.length).sum) ∧
      (∃ map, buildPieceMap view.pieceLength view.files = .ok map ∧
        map.pieceCount = view.pieces.length) ∧
      (payloadPaths view.files).Pairwise fun left right =>
        ¬(left.components <+: right.components) ∧ ¬(right.components <+: left.components) := by
  have checked := parseTorrent_v1Checked parsed viewed
  refine ⟨?_, ?_, checked.buildPieceMap_succeeds, ?_⟩
  · rw [List.range_eq_range']
    exact checked.listed.indexes
  · intro position inside
    have offset := offset_eq_sum 0 checked.listed.contiguous position inside
    rwa [Nat.zero_add] at offset
  · exact checked.paths.imp fun clear => not_or.mp clear

/-- Digests are constant and nothing is charged for the projection. -/
def sampleEnvironment : Environment where
  sha1 := fun _ => zeros 20
  sha256 := fun _ => zeros 32
  estimateProjection := fun _ _ _ _ => 0

/-- Two files of three and two bytes in pieces of four. -/
def sampleTorrent : Bytes :=
  ascii ("d4:infod5:filesld6:lengthi3e4:pathl1:beed6:lengthi2e4:pathl1:ceee4:name1:a" ++
    "12:piece lengthi4e6:pieces40:aaaaaaaaaaaaaaaaaaaabbbbbbbbbbbbbbbbbbbbee")

theorem accepted_v1_view_usable_sample : ∃ torrent view,
    parseTorrent sampleEnvironment sampleTorrent = .ok torrent ∧ torrent.v1View = some view ∧
      ∃ map, buildPieceMap view.pieceLength view.files = .ok map ∧
        map.pieceCount = view.pieces.length := by
  have viewable : ((parseTorrent sampleEnvironment sampleTorrent).toOption.bind
      TorrentMeta.v1View).isSome = true := by
    decide +kernel
  cases parsed : parseTorrent sampleEnvironment sampleTorrent with
  | error problem => simp [parsed, Except.toOption] at viewable
  | ok torrent =>
    obtain ⟨view, viewed⟩ : ∃ view, torrent.v1View = some view := by
      simpa [parsed, Except.toOption, Option.isSome_iff_exists] using viewable
    have usable := accepted_v1_view_usable sampleEnvironment sampleTorrent torrent view parsed viewed
    exact ⟨torrent, view, rfl, viewed, usable.2.2.1⟩

end TorrentNG.Metainfo
