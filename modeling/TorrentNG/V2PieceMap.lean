import TorrentNG.AlignedLayout
import TorrentNG.PieceRequests

/-!
# The v2 piece map of `rt-piece-map`

In BEP 52 a file with content starts at a piece boundary, and the gap before it
belongs to no file. A piece therefore has a single region. The constructor sorts the
spans, drops the empty ones and checks the rest; the lookup finds the last file that
does not start behind the piece.
-/

namespace TorrentNG.Pieces

open AlignedLayout Fallible MachineArithmetic SafePath SortedSlices

/-- A v2 file in piece space. -/
structure V2FileSpan where
  fileIndex : Nat
  path : SafeRelPath
  pieceOffset : Nat
  length : Nat
  pad : Bool
deriving DecidableEq

/-- The part of a file that one v2 piece covers. -/
structure V2PieceRegion where
  fileIndex : Nat
  path : SafeRelPath
  fileOffset : Nat
  length : Nat
  pad : Bool
deriving DecidableEq

/-- The lookup table: sorted by offset, without empty files. -/
def occupied (files : List V2FileSpan) : List V2FileSpan :=
  (sortBy (fun left right => compare left.pieceOffset right.pieceOffset) files).filter
    fun file => decide (file.length > 0)

/-- The loop over the table, with the end of the file before and the largest end. -/
def checkV2Spans (pieceLength : Nat) : List V2FileSpan → Nat → Nat → Except PieceMapError Nat
  | [], _, logicalLength => .ok logicalLength
  | file :: rest, previousEnd, logicalLength =>
      if file.length = 0 then checkV2Spans pieceLength rest previousEnd logicalLength
      else if file.pieceOffset % pieceLength ≠ 0 then
        .error (.v2FileNotAligned file.fileIndex pieceLength)
      else do
        let fileEnd ← okOr (checkedAdd file.pieceOffset file.length)
          (.integerOverflow "v2 file span end")
        if file.pieceOffset < previousEnd then .error (.v2FileOverlap file.fileIndex)
        else checkV2Spans pieceLength rest fileEnd (max logicalLength fileEnd)

/-- Maps v2 pieces to files. The last fields are the constructor's checks. -/
structure V2PieceMap where
  pieceLength : Nat
  logicalLength : Nat
  pieceCount : Nat
  files : List V2FileSpan
  positive : 0 < pieceLength
  pieceFits : pieceLength < 2 ^ 32
  table : ∃ given, occupied given = files
  spans : checkV2Spans pieceLength files 0 0 = .ok logicalLength
  counted : toU32 (divCeil logicalLength pieceLength) = some pieceCount

variable (map : V2PieceMap)

namespace V2PieceMap

theorem lt_of_not_gt_pred {value : Nat} (small : ¬value > 2 ^ 32 - 1) : value < 2 ^ 32 := by
  omega

def new (pieceLength : Nat) (files : List V2FileSpan) : Except PieceMapError V2PieceMap :=
  if zero : pieceLength = 0 then .error .zeroPieceLength
  else if large : pieceLength > 2 ^ 32 - 1 then .error (.pieceLengthTooLarge pieceLength)
  else
    match spans : checkV2Spans pieceLength (occupied files) 0 0 with
    | .error problem => .error problem
    | .ok logicalLength =>
        match counted : toU32 (divCeil logicalLength pieceLength) with
        | none => .error (.pieceCountTooLarge (divCeil logicalLength pieceLength))
        | some pieceCount =>
            .ok { pieceLength, logicalLength, pieceCount
                  files := occupied files
                  positive := Nat.pos_of_ne_zero zero
                  pieceFits := lt_of_not_gt_pred large
                  table := ⟨files, rfl⟩
                  spans, counted }

variable (map : V2PieceMap) (piece : Nat)

def checkPiece : Except PieceMapError Unit :=
  if piece ≥ map.pieceCount then .error (.pieceOutOfRange piece map.pieceCount) else .ok ()

/-- The last file that does not start behind a position. -/
def candidate (start : Nat) : Option Nat :=
  checkedSub (partitionPoint (fun file => file.pieceOffset ≤ start) map.files) 1

theorem candidate_lt {start index : Nat}
    (found : map.candidate start = some index) : index < map.files.length := by
  have bound := partitionPoint_le (fun file : V2FileSpan => file.pieceOffset ≤ start) map.files
  unfold candidate checkedSub at found
  split_ifs at found
  cases found
  omega

/-- The file-backed region of a piece. -/
def pieceToFile : Except PieceMapError V2PieceRegion := do
  map.checkPiece piece
  let pieceStart ← okOr (checkedMul piece map.pieceLength) (.integerOverflow "v2 piece start")
  match found : map.candidate pieceStart with
  | none => .error (.noV2FileForPiece piece)
  | some index => do
      let file := map.files.get ⟨index, map.candidate_lt found⟩
      let fileEnd ← okOr (checkedAdd file.pieceOffset file.length)
        (.integerOverflow "v2 file span end")
      if file.length = 0 ∨ pieceStart ≥ fileEnd then .error (.noV2FileForPiece piece)
      else do
        let length ← okOr (toU32 (min (fileEnd - pieceStart) map.pieceLength))
          (.integerOverflow "v2 piece length")
        .ok { fileIndex := file.fileIndex, path := file.path
              fileOffset := pieceStart - file.pieceOffset, length, pad := file.pad }

def pieceLen : Except PieceMapError Nat := do
  let region ← map.pieceToFile piece
  .ok region.length

/-- The part of a piece that a block request names. -/
def validateRequest (begin length : Nat) :
    Except RequestError V2PieceRegion :=
  if length = 0 then .error .zeroRequestLength
  else if maxRequestSize < length then .error (.blockTooLarge length maxRequestSize)
  else do
    let region ← (map.pieceToFile piece).mapError .map
    if region.length < begin + length then
      .error (.requestOutOfBounds begin length region.length)
    else do
      let fileOffset ← okOr (checkedAdd region.fileOffset begin)
        (.map (.integerOverflow "v2 request file offset"))
      .ok { region with fileOffset, length }

end V2PieceMap

variable {files : List V2FileSpan} {pieceLength : Nat}

/-- A layout whose files start at the next boundary passes the checks, and its end is
the logical length. -/
theorem checkV2Spans_aligned (positive : 0 < pieceLength)
    (start : Nat) {stop : Nat} (bounded : stop < 2 ^ 64)
    (aligned : Aligned V2FileSpan.pieceOffset V2FileSpan.length pieceLength files start stop) :
    checkV2Spans pieceLength files start start = .ok stop := by
  induction files generalizing start with
  | nil =>
    cases aligned
    rfl
  | cons file rest ih =>
    rw [Aligned] at aligned
    split_ifs at aligned with empty
    · rw [checkV2Spans, if_pos empty]
      exact ih start aligned
    · obtain ⟨placed, following⟩ := aligned
      have behind := le_alignUp positive start
      have ends := aligned_start_le following positive
      have boundary : file.pieceOffset % pieceLength = 0 := by
        rw [placed, alignUp, Nat.mul_mod_left]
      rw [checkV2Spans, if_neg empty, if_neg (not_not.mpr boundary), checkedAdd_of_lt (by omega)]
      simp only [okOr, bind, Except.bind]
      rw [if_neg (by omega), Nat.max_eq_right (by omega)]
      exact ih _ following

namespace V2PieceMap

theorem new_files {map : V2PieceMap}
    (built : new pieceLength files = .ok map) :
    map.files = occupied files ∧ map.pieceLength = pieceLength := by
  unfold new at built
  split_ifs at built
  split at built
  · cases built
  · split at built
    · cases built
    · cases built
      exact ⟨rfl, rfl⟩

theorem pieceCount_eq :
    divCeil map.logicalLength map.pieceLength = map.pieceCount ∧ map.pieceCount < 2 ^ 32 := by
  have counted := map.counted
  unfold toU32 at counted
  split_ifs at counted with fits
  exact ⟨Option.some.inj counted, Option.some.inj counted ▸ fits⟩

theorem new_succeeds {logicalLength : Nat}
    (positive : 0 < pieceLength) (pieceFits : pieceLength < 2 ^ 32)
    (spans : checkV2Spans pieceLength (occupied files) 0 0 = .ok logicalLength)
    (countFits : divCeil logicalLength pieceLength < 2 ^ 32) :
    ∃ map, new pieceLength files = .ok map := by
  have counted : toU32 (divCeil logicalLength pieceLength) =
      some (divCeil logicalLength pieceLength) := if_pos countFits
  unfold new
  rw [dif_neg (by omega), dif_neg (by omega)]
  split
  · next failed => exact absurd (spans.symm.trans failed) (by simp)
  · next total found =>
    obtain rfl := Except.ok.inj (spans.symm.trans found)
    split
    · next failed => exact absurd (counted.symm.trans failed) (by simp)
    · exact ⟨_, rfl⟩

variable (piece : Nat)

theorem piece_lt_of_region (region : V2PieceRegion)
    (answered : map.pieceToFile piece = .ok region) : piece < map.pieceCount := by
  obtain ⟨_, checked, _⟩ := bind_eq_ok.mp answered
  unfold checkPiece at checked
  split_ifs at checked with outside
  exact Nat.lt_of_not_ge outside

/-- A region lies in its file, whose end is a 64-bit position. -/
theorem region_end_lt (region : V2PieceRegion)
    (answered : map.pieceToFile piece = .ok region) :
    region.fileOffset + region.length < 2 ^ 64 := by
  obtain ⟨_, _, answered⟩ := bind_eq_ok.mp answered
  obtain ⟨pieceStart, _, answered⟩ := bind_eq_ok.mp answered
  split at answered
  · cases answered
  · next index found =>
    obtain ⟨fileEnd, ended, answered⟩ := bind_eq_ok.mp answered
    obtain ⟨sum, bounded⟩ := checkedAdd_eq_some.mp (okOr_eq_ok.mp ended)
    split_ifs at answered with outside
    obtain ⟨length, narrowed, answered⟩ := bind_eq_ok.mp answered
    cases answered
    have narrow := okOr_eq_ok.mp narrowed
    unfold toU32 at narrow
    split_ifs at narrow
    obtain rfl := Option.some.inj narrow
    dsimp only
    omega

/-- A request is accepted exactly when it names between 1 and 16384 bytes of the region of a
piece. -/
theorem validateRequest_ok_iff (begin length : Nat) :
    (∃ part, map.validateRequest piece begin length = .ok part) ↔
      1 ≤ length ∧ length ≤ maxRequestSize ∧
        ∃ region, map.pieceToFile piece = .ok region ∧ begin + length ≤ region.length := by
  unfold validateRequest
  by_cases zero : length = 0
  · simp [zero]
  by_cases large : maxRequestSize < length
  · simp [zero, large]
  rw [if_neg zero, if_neg large]
  cases answered : map.pieceToFile piece with
  | error problem => simp [Except.mapError, bind, Except.bind]
  | ok region =>
    have bounded := map.region_end_lt piece region answered
    simp only [Except.mapError, bind, Except.bind, Except.ok.injEq, exists_eq_left']
    split
    next =>
      refine iff_of_false nofun ?_
      rintro ⟨_, _, fits⟩
      omega
    next =>
      rw [checkedAdd_of_lt (by omega)]
      exact iff_of_true ⟨_, rfl⟩ ⟨by omega, by omega, by omega⟩

/-- The lookup, where the table splits at the file that the piece starts in. -/
theorem pieceToFile_eq (front back : List V2FileSpan)
    (file : V2FileSpan) (split : map.files = front ++ file :: back)
    (inside : piece < map.pieceCount) (bounded : file.pieceOffset + file.length < 2 ^ 64)
    (fronts : ∀ other ∈ front, other.pieceOffset ≤ piece * map.pieceLength)
    (low : file.pieceOffset ≤ piece * map.pieceLength)
    (high : piece * map.pieceLength < file.pieceOffset + file.length)
    (backs : ∀ other ∈ back, piece * map.pieceLength < other.pieceOffset) :
    map.pieceToFile piece = .ok
      { fileIndex := file.fileIndex, path := file.path
        fileOffset := piece * map.pieceLength - file.pieceOffset
        length := min (file.pieceOffset + file.length - piece * map.pieceLength) map.pieceLength
        pad := file.pad } := by
  have fits := map.pieceFits
  have chosen : map.candidate (piece * map.pieceLength) = some front.length := by
    rw [candidate, split, List.append_cons, partitionPoint_append _ (front ++ [file]) back
      (by simpa [List.mem_append, or_imp, forall_and] using ⟨fronts, low⟩)
      (by simpa using backs), List.length_append]
    rfl
  have here : ∀ within : front.length < map.files.length,
      map.files.get ⟨front.length, within⟩ = file := by
    intro within
    simp [split]
  unfold pieceToFile checkPiece
  rw [if_neg (by omega), checkedMul_of_lt (by omega)]
  simp only [okOr, bind, Except.bind]
  split
  · next missing => exact absurd (chosen.symm.trans missing) (by simp)
  · next index found =>
    obtain rfl := Option.mem_unique chosen found
    rw [here, checkedAdd_of_lt bounded]
    simp only [toU32]
    rw [if_neg (by omega), if_pos (by omega)]

end V2PieceMap

end TorrentNG.Pieces
