import TorrentNG.Bitfields
import TorrentNG.Fallible
import TorrentNG.Fastresume
import TorrentNG.FixedWidth

/-!
# The container of resume records

`encode_container` and `decode_container` of `rt-fastresume/src/store.rs`. A record is
stored as a header in JSON, with its length before it, and the states of the pieces as one
bit a piece, with their number before them. A bit says that a piece is valid; the other
three states are not told apart.

JSON is a pair of functions. Nothing is assumed of them but, where it is needed, that the
header of the record at hand is read back. What can be read is bounded: the vectors of a
header have a maximal length each, and so has the list of pieces.
-/

namespace TorrentNG.Fastresume

open Bitfields Fallible FixedWidth List MachineArithmetic Utf8

def maxFastresumePieces : Nat := 16000000
def maxFastresumePartialPieces : Nat := 16384
def maxFastresumeBlocksPerPartialPiece : Nat := 16384
def maxFastresumeFileHints : Nat := 100000
def maxFastresumeDirtyPieces : Nat := maxFastresumePieces

/-- The bytes `RTF2`. -/
def containerMagic : Bytes := [0x52, 0x54, 0x46, 0x32]

def containerVersion : UInt8 := 1

/-- An I/O error of the kind `InvalidData`, or an error of the JSON parser. -/
inductive ContainerError where
  | invalidData (message : String)
  | json (message : String)
deriving DecidableEq

/-- `serde_json` on headers, without the bounds on vectors. -/
structure HeaderJson where
  toVec : FastresumeHeader → Bytes
  parse : Bytes → Except String FastresumeHeader

/-- `deserialize_bounded_vec`. -/
def bounded {α : Type} (maximum : Nat) (field : String) (values : List α) : Except String Unit :=
  if maximum < values.length then .error s!"{field} exceeds the maximum of {maximum} items"
  else .ok ()

/-- The bounds on the vectors of a header. -/
def FastresumeHeader.checkBounds (header : FastresumeHeader) : Except String Unit := do
  bounded maxFastresumePartialPieces "fastresume partial pieces" header.partialPieces
  header.partialPieces.forM fun record =>
    bounded maxFastresumeBlocksPerPartialPiece "fastresume partial-piece blocks" record.receivedBlocks
  bounded maxFastresumeFileHints "fastresume file hints" header.fileHints
  bounded maxFastresumeDirtyPieces "fastresume dirty pieces"
    header.durability.dirtyPiecesSinceBarrier

variable (json : HeaderJson)

/-- `serde_json::from_slice` of a header. -/
def HeaderJson.fromSlice (bytes : Bytes) :
    Except String FastresumeHeader := do
  let header ← json.parse bytes
  header.checkBounds
  .ok header

def FastresumeState.header (state : FastresumeState) : FastresumeHeader := state.toFastresumeHeader

def encodePieceBitfield (pieces : List PieceState) : Bytes := pack (pieces.map (· == .valid))

def decodePieceBitfield (bits : Bytes) (pieceCount : Nat) : List PieceState :=
  (unpack bits pieceCount).map fun set => if set then .valid else .unknown

def encodeContainer (state : FastresumeState) :
    Except ContainerError Bytes := do
  let pieceCount ← okOr (toU32 state.pieces.length)
    (.invalidData "fastresume piece count exceeds u32")
  let headerJson := json.toVec state.header
  let headerLen ← okOr (toU32 headerJson.length) (.invalidData "fastresume header exceeds u32 bytes")
  let bitfield := encodePieceBitfield state.pieces
  .ok (containerMagic ++ (containerVersion :: (littleEndian 4 headerLen ++
    (headerJson ++ (littleEndian 4 pieceCount ++ bitfield)))))

def corrupt (message : String) : ContainerError :=
  .invalidData s!"corrupt fastresume container: {message}"

/-- `split_at_checked`. -/
def splitAtChecked (bytes : Bytes) (position : Nat) : Option (Bytes × Bytes) :=
  if position ≤ bytes.length then some (bytes.take position, bytes.drop position) else none

def decodeContainer (data : Bytes) :
    Except ContainerError FastresumeState := do
  let (_, rest) ← okOr (splitAtChecked data containerMagic.length)
    (corrupt "truncated before container version")
  match rest with
  | [] => .error (corrupt "missing container version")
  | version :: rest =>
      if version ≠ containerVersion then .error (corrupt "unsupported container version")
      else do
        let (lenBytes, rest) ← okOr (splitAtChecked rest 4) (corrupt "truncated header length")
        let headerLen := ofLittleEndian lenBytes
        let (headerJson, rest) ← okOr (splitAtChecked rest headerLen)
          (corrupt "header length exceeds file size")
        let header ← (json.fromSlice headerJson).mapError .json
        let (countBytes, rest) ← okOr (splitAtChecked rest 4) (corrupt "truncated piece count")
        let pieceCount := ofLittleEndian countBytes
        if maxFastresumePieces < pieceCount then .error (corrupt "piece count exceeds maximum")
        else if rest.length ≠ divCeil pieceCount 8 then
          .error (corrupt "bitfield length does not match piece count")
        else
          .ok { header with pieces := decodePieceBitfield rest pieceCount }

/-! ## What the container keeps -/

/-- What a piece is read back as. -/
def PieceState.readBack : PieceState → PieceState
  | .valid => .valid
  | .invalid | .unknown | .missing => .unknown

theorem decodePieceBitfield_encodePieceBitfield (pieces : List PieceState) :
    decodePieceBitfield (encodePieceBitfield pieces) pieces.length = pieces.map PieceState.readBack := by
  have flags := unpack_pack (pieces.map (· == .valid))
  rw [length_map] at flags
  rw [decodePieceBitfield, encodePieceBitfield, flags, map_map]
  apply map_congr_left
  intro state _
  cases state <;> rfl

/-- A record within the bounds of what can be read. -/
structure FastresumeState.WithinLimits (state : FastresumeState) : Prop where
  pieces : state.pieces.length ≤ maxFastresumePieces
  partialPieces : state.partialPieces.length ≤ maxFastresumePartialPieces
  blocks : ∀ record ∈ state.partialPieces,
    record.receivedBlocks.length ≤ maxFastresumeBlocksPerPartialPiece
  fileHints : state.fileHints.length ≤ maxFastresumeFileHints
  dirtyPieces : state.durability.dirtyPiecesSinceBarrier.length ≤ maxFastresumeDirtyPieces

theorem bounded_of_le {α : Type} {maximum : Nat} (field : String) {values : List α}
    (few : values.length ≤ maximum) : bounded maximum field values = .ok () :=
  if_neg (Nat.not_lt.mpr few)

theorem forM_bounded (field : String) {maximum : Nat} {records : List PartialPieceState}
    (few : ∀ record ∈ records, record.receivedBlocks.length ≤ maximum) :
    records.forM (fun record => bounded maximum field record.receivedBlocks) = .ok () := by
  induction records with
  | nil => rfl
  | cons record rest ih =>
    obtain ⟨here, others⟩ := forall_mem_cons.mp few
    rw [forM_eq_forM, forM_cons, bounded_of_le field here]
    exact ih others

theorem checkBounds_eq {state : FastresumeState} (limits : state.WithinLimits) :
    state.header.checkBounds = .ok () := by
  simp only [FastresumeHeader.checkBounds, FastresumeState.header,
    bounded_of_le _ limits.partialPieces, forM_bounded _ limits.blocks,
    bounded_of_le _ limits.fileHints, bounded_of_le _ limits.dirtyPieces, bind, Except.bind]

theorem splitAtChecked_append {front : Bytes} (rest : Bytes) {position : Nat}
    (length : front.length = position) :
    splitAtChecked (front ++ rest) position = some (front, rest) := by
  rw [splitAtChecked, if_pos (by rw [length_append]; omega), take_left' length, drop_left' length]

theorem splitAtChecked_eq_some {bytes front rest : Bytes} {position : Nat}
    (split : splitAtChecked bytes position = some (front, rest)) :
    bytes = front ++ rest ∧ front.length = position := by
  unfold splitAtChecked at split
  split_ifs at split with inside
  obtain ⟨rfl, rfl⟩ := Prod.ext_iff.mp (Option.some.inj split)
  exact ⟨(take_append_drop _ _).symm, length_take_of_le inside⟩

/-- Reading back what a width of four bytes holds. -/
theorem ofLittleEndian_four {value : Nat} (small : value < 2 ^ 32) :
    ofLittleEndian (littleEndian 4 value) = value := by
  rw [ofLittleEndian_littleEndian]
  exact Nat.mod_eq_of_lt small

section Container

variable (json : HeaderJson) {state : FastresumeState}

/-- The encoded record is read back. -/
theorem decodeContainer_encoded (limits : state.WithinLimits)
    (readBack : json.parse (json.toVec state.header) = .ok state.header)
    (short : (json.toVec state.header).length < 2 ^ 32) :
    decodeContainer json (containerMagic ++ (containerVersion ::
      (littleEndian 4 (json.toVec state.header).length ++ (json.toVec state.header ++
        (littleEndian 4 state.pieces.length ++ encodePieceBitfield state.pieces))))) =
      .ok { state with pieces := state.pieces.map PieceState.readBack } := by
  have few : state.pieces.length < 2 ^ 32 := Nat.lt_of_le_of_lt limits.pieces (by decide)
  have header : json.fromSlice (json.toVec state.header) = .ok state.header := by
    simp only [HeaderJson.fromSlice, readBack, checkBounds_eq limits, bind, Except.bind]
  have bits : (encodePieceBitfield state.pieces).length = divCeil state.pieces.length 8 := by
    rw [encodePieceBitfield, length_pack, length_map]
  unfold decodeContainer
  rw [splitAtChecked_append _ rfl]
  simp only [okOr, bind, Except.bind, ne_eq, not_true_eq_false, if_false]
  rw [splitAtChecked_append _ (length_littleEndian 4 _)]
  dsimp only
  rw [ofLittleEndian_four short, splitAtChecked_append _ rfl]
  dsimp only
  rw [header, Except.mapError]
  rw [splitAtChecked_append _ (length_littleEndian 4 _)]
  dsimp only
  rw [ofLittleEndian_four few, if_neg (Nat.not_lt.mpr limits.pieces), if_neg (not_not.mpr bits),
    decodePieceBitfield_encodePieceBitfield]
  rfl

/-- What is read consists of a magic number, a version and two parts with their lengths. -/
theorem decodeContainer_layout {data : Bytes} (decoded : decodeContainer json data = .ok state) :
    ∃ magic version lenBytes headerJson countBytes bits,
      data = magic ++ (version :: (lenBytes ++ (headerJson ++ (countBytes ++ bits)))) ∧
      magic.length = 4 ∧ lenBytes.length = 4 ∧ headerJson.length = ofLittleEndian lenBytes ∧
      countBytes.length = 4 ∧ bits.length = divCeil (ofLittleEndian countBytes) 8 := by
  obtain ⟨⟨magic, afterMagic⟩, first, decoded⟩ := bind_eq_ok.mp decoded
  obtain ⟨whole, four⟩ := splitAtChecked_eq_some (okOr_eq_ok.mp first)
  cases afterMagic with
  | nil => cases decoded
  | cons version afterVersion =>
    dsimp only at decoded
    split_ifs at decoded
    obtain ⟨⟨lenBytes, afterLength⟩, second, decoded⟩ := bind_eq_ok.mp decoded
    obtain ⟨lengthSplit, lenFour⟩ := splitAtChecked_eq_some (okOr_eq_ok.mp second)
    obtain ⟨⟨headerJson, afterHeader⟩, third, decoded⟩ := bind_eq_ok.mp decoded
    obtain ⟨headerSplit, headerLength⟩ := splitAtChecked_eq_some (okOr_eq_ok.mp third)
    obtain ⟨header, _, decoded⟩ := bind_eq_ok.mp decoded
    obtain ⟨⟨countBytes, bits⟩, fourth, decoded⟩ := bind_eq_ok.mp decoded
    obtain ⟨countSplit, countFour⟩ := splitAtChecked_eq_some (okOr_eq_ok.mp fourth)
    dsimp only at decoded headerSplit countSplit
    split_ifs at decoded with _ length
    refine ⟨magic, version, lenBytes, headerJson, countBytes, bits, ?_, four, lenFour, headerLength,
      countFour, not_not.mp length⟩
    rw [whole, lengthSplit, headerSplit, countSplit]

/-- Of two byte strings that are read, neither continues the other: the lengths inside a
container say where it ends. -/
theorem eq_of_prefix_of_decoded {shorter longer : Bytes} {other : FastresumeState}
    (decodedShorter : decodeContainer json shorter = .ok state)
    (decodedLonger : decodeContainer json longer = .ok other) (begins : shorter <+: longer) :
    shorter = longer := by
  obtain ⟨magic, version, lenBytes, headerJson, countBytes, bits, rfl, four, lenFour, headerLength,
    countFour, bitsLength⟩ := decodeContainer_layout json decodedShorter
  obtain ⟨magic', version', lenBytes', headerJson', countBytes', bits', rfl, four', lenFour',
    headerLength', countFour', bitsLength'⟩ := decodeContainer_layout json decodedLonger
  obtain ⟨extra, whole⟩ := begins
  simp only [append_assoc, cons_append] at whole
  obtain ⟨sameMagic, afterMagic⟩ := append_inj whole (four.trans four'.symm)
  obtain ⟨sameVersion, afterVersion⟩ := List.cons.inj afterMagic
  obtain ⟨rfl, afterLength⟩ := append_inj afterVersion (lenFour.trans lenFour'.symm)
  obtain ⟨rfl, afterHeader⟩ := append_inj afterLength (headerLength.trans headerLength'.symm)
  obtain ⟨rfl, afterCount⟩ := append_inj afterHeader (countFour.trans countFour'.symm)
  have same : bits.length = bits'.length := bitsLength.trans bitsLength'.symm
  have ends : extra = [] := by
    rw [← afterCount, length_append] at same
    exact eq_nil_of_length_eq_zero (by omega)
  rw [ends, append_nil] at afterCount
  rw [sameMagic, sameVersion, afterCount]

/-- The bytes are read as the record with its valid pieces, and neither a part of them nor
anything behind them is accepted. -/
structure ReadBackWhole (state : FastresumeState) (bytes : Bytes) : Prop where
  read : decodeContainer json bytes =
    .ok { state with pieces := state.pieces.map PieceState.readBack }
  cut : ∀ shorter, shorter <+: bytes → shorter ≠ bytes →
    ∃ error, decodeContainer json shorter = .error error
  followed : ∀ extra, extra ≠ [] → ∃ error, decodeContainer json (bytes ++ extra) = .error error

/-- A record within the limits is read back from what was written. The only record that is not
written is one whose header is too long for its length field. -/
theorem container_round_trip (limits : state.WithinLimits)
    (readBack : json.parse (json.toVec state.header) = .ok state.header) :
    match encodeContainer json state with
    | .ok bytes => ReadBackWhole json state bytes
    | .error error => error = .invalidData "fastresume header exceeds u32 bytes" ∧
        2 ^ 32 ≤ (json.toVec state.header).length := by
  have few : state.pieces.length < 2 ^ 32 := Nat.lt_of_le_of_lt limits.pieces (by decide)
  unfold encodeContainer
  by_cases short : (json.toVec state.header).length < 2 ^ 32
  · simp only [toU32, if_pos few, if_pos short, okOr, bind, Except.bind]
    have decoded := decodeContainer_encoded json limits readBack short
    generalize containerMagic ++ _ = bytes at decoded ⊢
    refine ⟨decoded, ?_, ?_⟩
    · intro shorter begins different
      cases result : decodeContainer json shorter with
      | error error => exact ⟨error, rfl⟩
      | ok other => exact absurd (eq_of_prefix_of_decoded json result decoded begins) different
    · intro extra some
      cases result : decodeContainer json (bytes ++ extra) with
      | error error => exact ⟨error, rfl⟩
      | ok other =>
        have same := eq_of_prefix_of_decoded json decoded result (List.prefix_append bytes extra)
        exact absurd (List.self_eq_append_right.mp same) some
  · simp only [toU32, if_pos few, if_neg short, okOr, bind, Except.bind]
    exact ⟨trivial, Nat.le_of_not_lt short⟩

end Container

/-- A record of nine pieces. -/
def ninePieces : FastresumeState :=
  { FastresumeState.newEmpty [] 0 .trustHints with
    pieces := [.valid, .invalid, .missing, .unknown, .valid, .valid, .unknown, .unknown, .valid] }

/-- The text that `serde_json` writes for the header of a new record with an import policy and
dirty pieces. -/
def headerText (importPolicy dirtyPieces : String) : Bytes :=
  ascii "\x7b\"version\":1,\"info_hash\":\"\",\"session_generation\":1,\"partial_pieces\":[]," ++
  ascii "\"file_hints\":[],\"last_full_verify\":0,\"clean_shutdown\":false,\"uploaded_bytes\":0," ++
  ascii "\"downloaded_bytes\":0,\"import_policy\":\"" ++ ascii importPolicy ++
  ascii "\",\"durability\":\x7b\"barrier_generation\":0,\"dirty_pieces_since_barrier\":[" ++
  ascii dirtyPieces ++ ascii "],\"synced\":true,\"boot_id\":null,\"last_data_write_unix\":0," ++
  ascii "\"saved_by_run_id\":0\x7d\x7d"

/-- JSON as far as one header goes: no other text is read. -/
def onlyHeader (header : FastresumeHeader) (text : Bytes) : HeaderJson where
  toVec other := if other = header then text else []
  parse bytes := if bytes = text then .ok header else .error "expected value"

theorem onlyHeader_reads (header : FastresumeHeader) (text : Bytes) :
    (onlyHeader header text).parse ((onlyHeader header text).toVec header) = .ok header := by
  simp only [onlyHeader, if_true]

def ninePiecesJson : HeaderJson := onlyHeader ninePieces.header (headerText "TrustHints" "")

def ninePiecesFile : Bytes :=
  [0x52, 0x54, 0x46, 0x32, 1, 0x58, 1, 0, 0] ++ headerText "TrustHints" "" ++
    [9, 0, 0, 0, 0x8c, 0x80]

theorem ninePieces_round_trip :
    encodeContainer ninePiecesJson ninePieces = .ok ninePiecesFile ∧
      ReadBackWhole ninePiecesJson ninePieces ninePiecesFile := by
  have encoded : encodeContainer ninePiecesJson ninePieces = .ok ninePiecesFile := by
    decide +kernel
  have reads : ninePiecesJson.parse (ninePiecesJson.toVec ninePieces.header) =
      .ok ninePieces.header := onlyHeader_reads _ _
  have limits : ninePieces.WithinLimits :=
    ⟨by decide, by decide, by decide, by decide, by decide⟩
  -- The text is not evaluated again.
  generalize ninePiecesJson = json at *
  have read := container_round_trip json limits reads
  rw [encoded] at read
  exact ⟨encoded, read⟩

end TorrentNG.Fastresume
