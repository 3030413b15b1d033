import TorrentNG.Chunks
import TorrentNG.SafePath

/-!
# The v1 piece map of `rt-piece-map`

A torrent's files lie one after the other in a content stream, and the stream is cut
into pieces. `PieceMap` answers which parts of which files a piece consists of. It
finds the first file by bisection, walks the files from there and stops behind the
piece. Padding files are part of the stream and are marked in the answer.

A map is only built by the constructor, so the type carries what the constructor
has checked; the facts the lookups rest on are derived from it once.
-/

namespace TorrentNG.Pieces

open Chunks Fallible MachineArithmetic SafePath SortedSlices
open List hiding dedup

/-- A slice of a file that belongs to a piece. -/
structure FileRegion where
  fileIndex : Nat
  path : SafeRelPath
  fileOffset : Nat
  pieceOffset : Nat
  length : Nat
  pad : Bool
deriving DecidableEq

/-- A file in the content stream. -/
structure FileSpan where
  fileIndex : Nat
  path : SafeRelPath
  contentOffset : Nat
  length : Nat
deriving DecidableEq

inductive PieceMapError where
  | pieceOutOfRange (piece count : Nat)
  | zeroPieceLength
  | zeroTotalLength
  | pieceLengthTooLarge (length : Nat)
  | pieceCountTooLarge (count : Nat)
  | nonContiguousFileSpan (fileIndex expected actual : Nat)
  | duplicateFileIndex (fileIndex : Nat)
  | unknownPaddingFileIndex (fileIndex : Nat)
  | integerOverflow (what : String)
  | noV2FileForPiece (piece : Nat)
  | v2FileNotAligned (fileIndex pieceLength : Nat)
  | v2FileOverlap (fileIndex : Nat)
deriving Repr, DecidableEq

/-- The loop over the spans: each must start where the one before it ends. -/
def checkSpans : List FileSpan → Nat → Except PieceMapError Nat
  | [], expected => .ok expected
  | file :: rest, expected =>
      if file.contentOffset ≠ expected then
        .error (.nonContiguousFileSpan file.fileIndex expected file.contentOffset)
      else do
        let next ← okOr (checkedAdd expected file.length) (.integerOverflow "file span offset")
        checkSpans rest next

variable (files : List FileSpan)

/-- The file indexes in increasing order. -/
def sortedIndices : List Nat :=
  sortBy compare (files.map FileSpan.fileIndex)

/-- The first index that occurs twice. -/
def duplicateIndex : Option Nat :=
  (neighbours (sortedIndices files)).findSome? fun pair =>
    if pair.1 = pair.2 then some pair.1 else none

def countPieces (totalLength pieceLength : Nat) : Except PieceMapError Nat := do
  let count ← okOr (checkedAdd (totalLength / pieceLength)
    (if totalLength % pieceLength = 0 then 0 else 1)) (.integerOverflow "piece count")
  okOr (toU32 count) (.pieceCountTooLarge count)

/-- The padding indexes as the map stores them. -/
def sortedPadding (padding : List Nat) : List Nat := dedup (sortBy compare padding)

/-- The first padding index that no file has. -/
def unknownPadding (padding : List Nat) : Option Nat :=
  (sortedPadding padding).find? fun index => !binarySearch (sortedIndices files) index

/-- Maps pieces to file regions. The last fields are the constructor's checks. -/
structure PieceMap where
  pieceLength : Nat
  totalLength : Nat
  pieceCount : Nat
  files : List FileSpan
  paddingFileIndices : List Nat
  positive : 0 < pieceLength
  pieceFits : pieceLength < 2 ^ 32
  spans : checkSpans files 0 = .ok totalLength
  content : 0 < totalLength
  distinct : duplicateIndex files = none
  counted : countPieces totalLength pieceLength = .ok pieceCount
  padding : ∃ given, sortedPadding given = paddingFileIndices ∧ unknownPadding files given = none

namespace PieceMap

/-- Build a map from files in content-stream order; the selected indexes are
synthetic zero spans. -/
def newWithPadding (pieceLength : Nat) (files : List FileSpan) (padding : List Nat) :
    Except PieceMapError PieceMap :=
  if zero : pieceLength = 0 then .error .zeroPieceLength
  else if large : pieceLength > 2 ^ 32 - 1 then .error (.pieceLengthTooLarge pieceLength)
  else
    match spans : checkSpans files 0 with
    | .error problem => .error problem
    | .ok totalLength =>
        if empty : totalLength = 0 then .error .zeroTotalLength
        else
          match distinct : duplicateIndex files with
          | some index => .error (.duplicateFileIndex index)
          | none =>
              match counted : countPieces totalLength pieceLength with
              | .error problem => .error problem
              | .ok pieceCount =>
                  match known : unknownPadding files padding with
                  | some index => .error (.unknownPaddingFileIndex index)
                  | none =>
                      .ok { pieceLength, totalLength, pieceCount, files
                            paddingFileIndices := sortedPadding padding
                            positive := Nat.pos_of_ne_zero zero
                            pieceFits := by omega
                            spans, distinct, counted
                            content := Nat.pos_of_ne_zero empty
                            padding := ⟨padding, rfl, known⟩ }

def new (pieceLength : Nat) (files : List FileSpan) : Except PieceMapError PieceMap :=
  newWithPadding pieceLength files []

variable (map : PieceMap)

def fileIsPadding (fileIndex : Nat) : Bool :=
  binarySearch map.paddingFileIndices fileIndex

variable (piece : Nat)

/-- Byte length of a piece; the last one may be shorter. -/
def pieceLen : Except PieceMapError Nat :=
  if piece ≥ map.pieceCount then .error (.pieceOutOfRange piece map.pieceCount)
  else do
    let start ← okOr (checkedMul piece map.pieceLength) (.integerOverflow "piece start")
    .ok (min (map.totalLength - start) map.pieceLength)

/-- The range of a piece in the content stream. -/
def pieceContentRange : Except PieceMapError (Nat × Nat) :=
  if piece ≥ map.pieceCount then .error (.pieceOutOfRange piece map.pieceCount)
  else do
    let start ← okOr (checkedMul piece map.pieceLength) (.integerOverflow "piece start")
    let stop ← okOr (checkedAdd start map.pieceLength) (.integerOverflow "piece end")
    .ok (start, min stop map.totalLength)

/-- Index of the first file that ends behind a position. -/
def firstFileAtOrAfter (start : Nat) : Nat :=
  partitionPoint (fun file => saturatingAdd file.contentOffset file.length ≤ start) map.files

/-- The region of a file between two positions of the stream. -/
def regionOf (start stop : Nat) (file : FileSpan) : FileRegion where
  fileIndex := file.fileIndex
  path := file.path
  fileOffset := max start file.contentOffset - file.contentOffset
  pieceOffset := max start file.contentOffset - start
  length := min stop (file.contentOffset + file.length) - max start file.contentOffset
  pad := map.fileIsPadding file.fileIndex

/-- The loop over the files from the first one: stop behind the piece, and leave out
files without a byte in it. -/
def collectRegions (map : PieceMap) (start stop : Nat) :
    List FileSpan → Except PieceMapError (List FileRegion)
  | [] => .ok []
  | file :: rest =>
      if file.contentOffset ≥ stop then .ok []
      else do
        let fileEnd ← okOr (checkedAdd file.contentOffset file.length)
          (.integerOverflow "file span end")
        if max start file.contentOffset ≥ min stop fileEnd then collectRegions map start stop rest
        else do
          let regions ← collectRegions map start stop rest
          .ok (map.regionOf start stop file :: regions)

def pieceToFileRegions : Except PieceMapError (List FileRegion) := do
  let (start, stop) ← map.pieceContentRange piece
  map.collectRegions start stop (map.files.drop (map.firstFileAtOrAfter start))

end PieceMap

/-- Each file starts where the one before it ends, from the given position on. -/
def Contiguous : List FileSpan → Nat → Prop
  | [], _ => True
  | file :: rest, base => file.contentOffset = base ∧ Contiguous rest (base + file.length)

/-- Total length of a list of files. -/
def spanLength : Nat := (files.map FileSpan.length).sum

variable {files : List FileSpan}

theorem checkSpans_eq_ok (expected : Nat) {total : Nat} (start : expected < 2 ^ 64) :
    checkSpans files expected = .ok total ↔
      Contiguous files expected ∧ expected + spanLength files = total ∧ total < 2 ^ 64 := by
  induction files generalizing expected with
  | nil =>
    simp only [checkSpans, Contiguous, spanLength, map_nil, sum_nil, Nat.add_zero,
      Except.ok.injEq, true_and]
    constructor
    · rintro rfl
      exact ⟨rfl, start⟩
    · exact fun same => same.1
  | cons file rest ih =>
    simp only [checkSpans, Contiguous, spanLength, map_cons, sum_cons]
    by_cases placed : file.contentOffset = expected
    · rw [if_neg (not_not.mpr placed), bind_eq_ok]
      simp only [okOr_eq_ok, checkedAdd_eq_some]
      constructor
      · rintro ⟨next, ⟨rfl, bounded⟩, checked⟩
        obtain ⟨contiguous, sums, fits⟩ := (ih _ bounded).mp checked
        exact ⟨⟨placed, contiguous⟩, by rw [← Nat.add_assoc]; exact sums, fits⟩
      · rintro ⟨⟨_, contiguous⟩, sums, fits⟩
        refine ⟨expected + file.length, ⟨rfl, by omega⟩, ?_⟩
        exact (ih _ (by omega)).mpr
          ⟨contiguous, by rw [Nat.add_assoc]; exact sums, fits⟩
    · simp [placed]

theorem countPieces_eq_ok {totalLength pieceLength count : Nat} (bounded : totalLength < 2 ^ 64)
    (positive : 0 < pieceLength) : countPieces totalLength pieceLength = .ok count ↔
      divCeil totalLength pieceLength = count ∧ count < 2 ^ 32 := by
  have small : divCeil totalLength pieceLength < 2 ^ 64 := Nat.lt_of_le_of_lt
      ((divCeil_le_iff positive).mpr (Nat.le_mul_of_pos_right totalLength positive)) bounded
  have added : checkedAdd (totalLength / pieceLength)
      (if totalLength % pieceLength = 0 then 0 else 1) = some (divCeil totalLength pieceLength) :=
    checkedAdd_of_lt small
  rw [countPieces, added, bind_eq_ok]
  simp only [okOr_eq_ok, Option.some.injEq, toU32_eq_some, exists_eq_left']

theorem sortedIndices_sorted (files : List FileSpan) :
    (sortedIndices files).Pairwise (· ≤ ·) := sort_sorted _

theorem duplicateIndex_eq_none :
    duplicateIndex files = none ↔ (files.map FileSpan.fileIndex).Nodup := by
  have permuted := sortBy_perm compare (files.map FileSpan.fileIndex)
  have checked : duplicateIndex files = none ↔
      ∀ pair ∈ neighbours (sortedIndices files), ¬pair.1 = pair.2 := by
    rw [duplicateIndex, List.findSome?_eq_none_iff]
    exact forall₂_congr fun pair _ => by simp
  rw [checked, ← permuted.nodup_iff]
  constructor
  · intro separate
    exact pairwise_of_neighbours (· ≤ ·) (· = ·) (sortedIndices_sorted files)
      (fun first middle last lower upper same => by omega) separate
  · exact pairwise_neighbours

/-- Every padding index belongs to a file. -/
theorem unknownPadding_eq_none {padding : List Nat} : unknownPadding files padding = none ↔
      ∀ index ∈ padding, index ∈ files.map FileSpan.fileIndex := by
  have known : ∀ index, binarySearch (sortedIndices files) index = true ↔
      index ∈ files.map FileSpan.fileIndex := fun index =>
    (binarySearch_iff (sortedIndices_sorted files) index).trans (sortBy_perm compare _).mem_iff
  simp only [unknownPadding, sortedPadding, find?_eq_none, SortedSlices.mem_dedup,
    Bool.not_eq_true', Bool.not_eq_false, known, (sortBy_perm compare _).mem_iff]

namespace PieceMap
variable (map : PieceMap)

theorem contiguous : Contiguous map.files 0 := ((checkSpans_eq_ok _ (by decide)).mp map.spans).1

theorem spanLength_eq : spanLength map.files = map.totalLength := by
  have sums := ((checkSpans_eq_ok _ (by decide)).mp map.spans).2.1
  rwa [Nat.zero_add] at sums

theorem totalLength_lt : map.totalLength < 2 ^ 64 :=
  ((checkSpans_eq_ok _ (by decide)).mp map.spans).2.2

theorem pieceCount_eq : divCeil map.totalLength map.pieceLength = map.pieceCount :=
  ((countPieces_eq_ok map.totalLength_lt map.positive).mp map.counted).1

theorem pieceCount_lt : map.pieceCount < 2 ^ 32 :=
  ((countPieces_eq_ok map.totalLength_lt map.positive).mp map.counted).2

/-- A piece below the count starts inside the stream, at a 64-bit position. -/
theorem piece_start (piece : Nat) (inside : piece < map.pieceCount) :
    piece * map.pieceLength < map.totalLength ∧
      piece * map.pieceLength + map.pieceLength < 2 ^ 64 := by
  have rounded := divCeil_mul_lt map.totalLength map.positive
  rw [map.pieceCount_eq] at rounded
  have reached : (piece + 1) * map.pieceLength ≤ map.pieceCount * map.pieceLength :=
    Nat.mul_le_mul_right _ inside
  have bounded : map.pieceCount * map.pieceLength ≤ (2 ^ 32 - 1) * (2 ^ 32 - 1) :=
    Nat.mul_le_mul (Nat.le_pred_of_lt map.pieceCount_lt) (Nat.le_pred_of_lt map.pieceFits)
  rw [Nat.succ_mul] at reached
  constructor <;> omega

/-- The end of a piece in the stream. -/
def pieceEnd (piece : Nat) : Nat := min ((piece + 1) * map.pieceLength) map.totalLength

variable (piece : Nat) (inside : piece < map.pieceCount)

include inside

theorem piece_start_lt_end : piece * map.pieceLength < map.pieceEnd piece := by
  have bounds := map.piece_start piece inside
  have positive := map.positive
  rw [pieceEnd, Nat.succ_mul]
  omega

theorem pieceContentRange_eq :
    map.pieceContentRange piece = .ok (piece * map.pieceLength, map.pieceEnd piece) := by
  have bounds := map.piece_start piece inside
  rw [pieceContentRange, if_neg (Nat.not_le.mpr inside), checkedMul_of_lt (by omega), pieceEnd,
    Nat.succ_mul]
  simp only [okOr, bind, Except.bind]
  rw [checkedAdd_of_lt bounds.2]

theorem pieceLen_eq : map.pieceLen piece = .ok (map.pieceEnd piece - piece * map.pieceLength) := by
  have bounds := map.piece_start piece inside
  have lengths : min (map.totalLength - piece * map.pieceLength) map.pieceLength =
      map.pieceEnd piece - piece * map.pieceLength := by
    rw [pieceEnd, Nat.succ_mul]
    omega
  rw [pieceLen, if_neg (Nat.not_le.mpr inside), checkedMul_of_lt (by omega), ← lengths]
  rfl

end PieceMap

variable (base : Nat)

/-- No file starts before the position the list starts at. -/
theorem contiguous_offset_le
    (contiguous : Contiguous files base) : ∀ file ∈ files, base ≤ file.contentOffset := by
  induction files generalizing base with
  | nil => simp
  | cons first rest ih =>
    obtain ⟨placed, following⟩ := contiguous
    intro file member
    obtain rfl | later := mem_cons.mp member
    · omega
    · have behind := ih _ following file later
      omega

theorem spanLength_append (front back : List FileSpan) :
    spanLength (front ++ back) = spanLength front + spanLength back := by
  simp [spanLength]

theorem contiguous_append {front back : List FileSpan} :
    Contiguous (front ++ back) base ↔
      Contiguous front base ∧ Contiguous back (base + spanLength front) := by
  induction front generalizing base with
  | nil => simp [Contiguous, spanLength]
  | cons file rest ih =>
    simp only [cons_append, Contiguous, ih, spanLength, map_cons,
      sum_cons, Nat.add_assoc, and_assoc]

/-- No file ends behind the end of the list. -/
theorem contiguous_end_le {base : Nat} (contiguous : Contiguous files base) :
    ∀ file ∈ files, file.contentOffset + file.length ≤ base + spanLength files := by
  intro file member
  obtain ⟨front, back, rfl⟩ := append_of_mem member
  have placed := ((contiguous_append base).mp contiguous).2.1
  rw [spanLength_append, placed]
  simp only [spanLength, map_cons, sum_cons]
  omega

/-- The files that end at or before a position come first. -/
theorem contiguous_split (position : Nat) (contiguous : Contiguous files base) :
    ∃ front back, files = front ++ back ∧
      (∀ file ∈ front, file.contentOffset + file.length ≤ position) ∧
      ∀ file ∈ back, position < file.contentOffset + file.length := by
  induction files generalizing base with
  | nil => exact ⟨[], [], rfl, by simp, by simp⟩
  | cons file rest ih =>
    obtain ⟨placed, following⟩ := contiguous
    by_cases early : file.contentOffset + file.length ≤ position
    · obtain ⟨front, back, rfl, fronts, backs⟩ := ih _ following
      exact ⟨file :: front, back, rfl, by simpa [early] using fronts, backs⟩
    · refine ⟨[], file :: rest, rfl, by simp, ?_⟩
      intro other member
      obtain rfl | later := mem_cons.mp member
      · omega
      · have behind := contiguous_offset_le _ following other later
        omega
namespace PieceMap
variable (map : PieceMap) (start : Nat)

/-- The region of a file, if it has a byte between the positions. -/
def overlap (stop : Nat) (file : FileSpan) : Option FileRegion :=
  if max start file.contentOffset < min stop (file.contentOffset + file.length) then
    some (map.regionOf start stop file)
  else none

variable {stop : Nat}

theorem overlap_eq_some {start : Nat} {file : FileSpan} {region : FileRegion} :
    map.overlap start stop file = some region ↔
      max start file.contentOffset < min stop (file.contentOffset + file.length) ∧
        map.regionOf start stop file = region := by
  unfold overlap
  split_ifs with shared
  · simp [shared]
  · simp [shared]

theorem overlap_behind {base : Nat}
    (contiguous : Contiguous files base) (behind : stop ≤ base) :
    files.filterMap (map.overlap start stop) = [] := by
  rw [filterMap_eq_nil_iff]
  intro file member
  have placed := contiguous_offset_le base contiguous file member
  exact if_neg (by omega)

/-- Leaving the loop early and skipping files loses no region. -/
theorem collectRegions_eq (stop base : Nat)
    (contiguous : Contiguous files base) (bounded : base + spanLength files < 2 ^ 64) :
    map.collectRegions start stop files = .ok (files.filterMap (map.overlap start stop)) := by
  induction files generalizing base with
  | nil => rfl
  | cons file rest ih =>
    have everything := contiguous
    obtain ⟨placed, following⟩ := contiguous
    simp only [spanLength, map_cons, sum_cons] at bounded
    by_cases behind : file.contentOffset ≥ stop
    · rw [collectRegions, if_pos behind, map.overlap_behind start everything (by omega)]
    · have added : checkedAdd file.contentOffset file.length =
          some (file.contentOffset + file.length) := checkedAdd_of_lt (by omega)
      have remaining := ih (base + file.length) following
        (by rw [spanLength]; omega)
      rw [collectRegions, if_neg behind, added, filterMap_cons, overlap]
      simp only [okOr, bind, Except.bind]
      split
      next apart => rw [if_neg (Nat.not_lt.mpr apart), remaining]
      next apart => rw [if_pos (Nat.not_le.mp apart), remaining]

/-- Bisection skips only files without a region. -/
theorem drop_firstFileAtOrAfter (stop : Nat) : ∃ front back, map.files = front ++ back ∧
      map.files.drop (map.firstFileAtOrAfter start) = back ∧
      front.filterMap (map.overlap start stop) = [] := by
  obtain ⟨front, back, split, fronts, backs⟩ := contiguous_split 0 start map.contiguous
  have fits : ∀ file ∈ map.files, saturatingAdd file.contentOffset file.length =
      file.contentOffset + file.length := by
    intro file member
    have inside := contiguous_end_le map.contiguous file member
    have bounded := map.totalLength_lt
    rw [map.spanLength_eq] at inside
    exact saturatingAdd_of_lt (by omega)
  have point : map.firstFileAtOrAfter start = front.length := by
    rw [firstFileAtOrAfter, split]
    refine partitionPoint_append _ front back ?_ ?_
    · intro file member
      rw [fits file (by simp [split, member])]
      simpa using fronts file member
    · intro file member
      rw [fits file (by simp [split, member])]
      simpa using backs file member
  refine ⟨front, back, split, ?_, ?_⟩
  · rw [point, split, drop_left]
  · rw [filterMap_eq_nil_iff]
    intro file member
    have early := fronts file member
    exact if_neg (by omega)

/-- Walking the files from the first one at a position finds every overlap. -/
theorem collectRegions_from (stop : Nat) :
    map.collectRegions start stop (map.files.drop (map.firstFileAtOrAfter start)) =
      .ok (map.files.filterMap (map.overlap start stop)) := by
  obtain ⟨front, back, split, dropped, skipped⟩ := map.drop_firstFileAtOrAfter start stop
  have sums := map.spanLength_eq
  have bounded := map.totalLength_lt
  have contiguous := map.contiguous
  rw [split, contiguous_append] at contiguous
  rw [split, spanLength_append] at sums
  rw [dropped, map.collectRegions_eq _ _ _ contiguous.2 (by omega), split,
    filterMap_append, skipped, nil_append]

/-- The regions of a piece are those of all files that have a byte in it. -/
theorem pieceToFileRegions_eq {piece : Nat} (inside : piece < map.pieceCount) :
    map.pieceToFileRegions piece =
      .ok (map.files.filterMap (map.overlap (piece * map.pieceLength) (map.pieceEnd piece))) := by
  rw [pieceToFileRegions, map.pieceContentRange_eq piece inside, bind_eq_ok]
  exact ⟨_, rfl, map.collectRegions_from _ _⟩

end PieceMap

/-- The bytes of a file, each named by its file index and its offset in the file. -/
def FileSpan.bytes (file : FileSpan) : List (Nat × Nat) :=
  (List.range file.length).map fun offset => (file.fileIndex, offset)

/-- The bytes of a region, in the same terms. -/
def FileRegion.bytes (region : FileRegion) : List (Nat × Nat) :=
  (List.range region.length).map fun offset => (region.fileIndex, region.fileOffset + offset)

/-- Every region starts in the piece where the one before it ends. -/
def Tiles : Nat → List FileRegion → Prop
  | _, [] => True
  | start, region :: rest => region.pieceOffset = start ∧ Tiles (start + region.length) rest

theorem length_bytes (files : List FileSpan) :
    (files.flatMap FileSpan.bytes).length = spanLength files := by
  simp [FileSpan.bytes, spanLength]

namespace PieceMap
variable (map : PieceMap) (start : Nat) (stop : Nat)

/-- The overlap of one file holds the bytes of the file between the positions. -/
theorem overlap_bytes (file : FileSpan) :
    (map.overlap start stop file).toList.flatMap FileRegion.bytes =
      window file.contentOffset start stop file.bytes := by
  have cut : window file.contentOffset start stop file.bytes =
      (window file.contentOffset start stop (List.range file.length)).map
        fun offset => (file.fileIndex, offset) := by
    rw [FileSpan.bytes, window, window, map_drop, map_take]
  rw [cut, window_range, overlap]
  by_cases shared : max start file.contentOffset < min stop (file.contentOffset + file.length)
  · have offsets : max start file.contentOffset - file.contentOffset =
        start - file.contentOffset := by omega
    rw [if_pos shared]
    simp [FileRegion.bytes, regionOf, offsets, Function.comp_def]
  · have nothing : min stop (file.contentOffset + file.length) -
        max start file.contentOffset = 0 := by omega
    rw [if_neg shared, nothing]
    rfl

/-- The overlaps of consecutive files hold the bytes of the stream between the
positions. -/
theorem overlaps_bytes (base : Nat) (contiguous : Contiguous files base) :
    (files.filterMap (map.overlap start stop)).flatMap FileRegion.bytes =
      window base start stop (files.flatMap FileSpan.bytes) := by
  induction files generalizing base with
  | nil => simp [window]
  | cons file rest ih =>
    obtain ⟨placed, following⟩ := contiguous
    have length : file.bytes.length = file.length := by simp [FileSpan.bytes]
    have here := map.overlap_bytes start stop file
    have split : (file :: rest).filterMap (map.overlap start stop) =
        (map.overlap start stop file).toList ++ rest.filterMap (map.overlap start stop) := by
      rw [filterMap_cons]
      cases map.overlap start stop file <;> rfl
    rw [split, flatMap_append, here, ih _ following, flatMap_cons, window_append, placed, length]

/-- The overlaps follow each other in the piece and end where the window ends. -/
theorem overlaps_tile (base : Nat) (ordered : start < stop)
    (contiguous : Contiguous files base) (reached : stop ≤ base + spanLength files) :
    Tiles (max start base - start) (files.filterMap (map.overlap start stop)) ∧
      ((files.filterMap (map.overlap start stop)).map FileRegion.length).sum =
        stop - max start base := by
  induction files generalizing base with
  | nil =>
    simp only [spanLength, map_nil, sum_nil] at reached
    simp only [filterMap_nil, Tiles, map_nil, sum_nil, true_and]
    omega
  | cons file rest ih =>
    have everything := contiguous
    obtain ⟨placed, following⟩ := contiguous
    simp only [spanLength, map_cons, sum_cons] at reached
    obtain ⟨tiles, sums⟩ := ih (base + file.length) following
      (by rw [spanLength]; omega)
    by_cases behind : stop ≤ base
    · rw [map.overlap_behind start everything behind]
      simp only [Tiles, map_nil, sum_nil, true_and]
      omega
    · rw [filterMap_cons, overlap, placed]
      by_cases shared : max start base < min stop (base + file.length)
      · rw [if_pos shared]
        simp only [Tiles, map_cons, sum_cons, sums, regionOf, placed, true_and]
        constructor
        · by_cases last : stop ≤ base + file.length
          · rw [map.overlap_behind start following last]
            trivial
          · have continues : max start base - start + (min stop (base + file.length) -
                max start base) = max start (base + file.length) - start := by omega
            rw [continues]
            exact tiles
        · omega
      · rw [if_neg shared]
        have same : max start (base + file.length) = max start base := by omega
        rw [same] at tiles sums
        exact ⟨tiles, sums⟩

theorem overlaps_positive {start stop : Nat} :
    ∀ region ∈ files.filterMap (map.overlap start stop), 0 < region.length := by
  intro region member
  obtain ⟨file, _, found⟩ := mem_filterMap.mp member
  obtain ⟨shared, rfl⟩ := map.overlap_eq_some.mp found
  exact Nat.sub_pos_of_lt shared

theorem piece_lt_of_regions {piece : Nat} {found : List FileRegion}
    (answered : map.pieceToFileRegions piece = .ok found) : piece < map.pieceCount := by
  obtain ⟨_, ranged, _⟩ := bind_eq_ok.mp answered
  unfold pieceContentRange at ranged
  split_ifs at ranged with outside
  exact Nat.lt_of_not_ge outside

/-- The regions of a piece; there are none outside the map. -/
def regions (piece : Nat) : List FileRegion := (map.pieceToFileRegions piece).toOption.getD []

section

variable (piece : Nat) (inside : piece < map.pieceCount)

include inside

theorem regions_eq : map.regions piece =
      map.files.filterMap (map.overlap (piece * map.pieceLength) (map.pieceEnd piece)) := by
  rw [regions, map.pieceToFileRegions_eq inside]
  rfl

theorem regions_answered : map.pieceToFileRegions piece = .ok (map.regions piece) := by
  rw [map.regions_eq piece inside, map.pieceToFileRegions_eq inside]

/-- Regions are not empty and end at a 64-bit position of their file. -/
theorem regions_fit : ∀ region ∈ map.regions piece,
      0 < region.length ∧ region.fileOffset + region.length < 2 ^ 64 := by
  intro region member
  rw [map.regions_eq piece inside] at member
  refine ⟨map.overlaps_positive region member, ?_⟩
  obtain ⟨file, listed, found⟩ := mem_filterMap.mp member
  have bounded := contiguous_end_le map.contiguous file listed
  have limit := map.totalLength_lt
  rw [map.spanLength_eq] at bounded
  obtain ⟨shared, rfl⟩ := map.overlap_eq_some.mp found
  dsimp only [regionOf]
  omega

/-- A piece consists of the stream's bytes from its start to its end. -/
theorem regions_bytes : (map.regions piece).flatMap FileRegion.bytes =
      window 0 (piece * map.pieceLength) ((piece + 1) * map.pieceLength)
        (map.files.flatMap FileSpan.bytes) := by
  have length := length_bytes map.files
  rw [map.spanLength_eq] at length
  rw [map.regions_eq piece inside, map.overlaps_bytes _ _ 0 map.contiguous, window,
    window, pieceEnd]
  by_cases whole : (piece + 1) * map.pieceLength ≤ map.totalLength
  · rw [Nat.min_eq_left whole]
  · rw [Nat.min_eq_right (by omega), Nat.sub_zero, Nat.sub_zero, ← length, take_length,
      take_of_length_le (by omega)]

end

section

variable {pieceLength : Nat} {padding : List Nat} {map : PieceMap}
  (built : newWithPadding pieceLength files padding = .ok map)

include built

theorem newWithPadding_files : map.files = files ∧ map.pieceLength = pieceLength ∧
      map.paddingFileIndices = sortedPadding padding := by
  unfold newWithPadding at built
  split_ifs at built
  split at built
  · cases built
  · split_ifs at built
    split at built
    · cases built
    · split at built
      · cases built
      · split at built
        · cases built
        · cases built
          exact ⟨rfl, rfl, rfl⟩

/-- A built map marks the files it was told to. -/
theorem fileIsPadding_iff (index : Nat) : map.fileIsPadding index = true ↔ index ∈ padding := by
  have sorted : (sortedPadding padding).Pairwise (· ≤ ·) :=
    (sort_sorted padding).sublist (dedup_sublist _)
  rw [fileIsPadding, (newWithPadding_files built).2.2, binarySearch_iff sorted, sortedPadding,
    SortedSlices.mem_dedup, (sortBy_perm compare padding).mem_iff]

end

/-- Files that follow each other, with distinct indexes and known padding, make a map
whenever the piece length and the piece count fit in 32 bits. -/
theorem newWithPadding_succeeds {pieceLength : Nat} {padding : List Nat}
    (positive : 0 < pieceLength) (pieceFits : pieceLength < 2 ^ 32)
    (contiguous : Contiguous files 0) (bounded : spanLength files < 2 ^ 64)
    (content : 0 < spanLength files) (distinct : (files.map FileSpan.fileIndex).Nodup)
    (countFits : divCeil (spanLength files) pieceLength < 2 ^ 32)
    (known : ∀ index ∈ padding, index ∈ files.map FileSpan.fileIndex) :
    ∃ map, newWithPadding pieceLength files padding = .ok map ∧
      map.pieceCount = divCeil (spanLength files) pieceLength := by
  have spans : checkSpans files 0 = .ok (spanLength files) :=
    (checkSpans_eq_ok _ (by decide)).mpr ⟨contiguous, Nat.zero_add _, bounded⟩
  have unique := duplicateIndex_eq_none.mpr distinct
  have counted : countPieces (spanLength files) pieceLength =
      .ok (divCeil (spanLength files) pieceLength) :=
    (countPieces_eq_ok bounded positive).mpr ⟨rfl, countFits⟩
  have noUnknown := unknownPadding_eq_none.mpr known
  unfold newWithPadding
  rw [dif_neg (by omega), dif_neg (by omega)]
  split
  · next failed => exact absurd (spans.symm.trans failed) (by simp)
  · next total found =>
    obtain rfl := Except.ok.inj (spans.symm.trans found)
    rw [dif_neg (by omega)]
    split
    · next index found => exact absurd (unique.symm.trans found) (by simp)
    · split
      · next failed => exact absurd (counted.symm.trans failed) (by simp)
      · next count found =>
        obtain rfl := Except.ok.inj (counted.symm.trans found)
        split
        · next index found => exact absurd (noUnknown.symm.trans found) (by simp)
        · exact ⟨_, rfl, rfl⟩

/-- Every piece of a built map has regions. They have bytes, follow each other from the
start of the piece to its end, and over all pieces in order they hold every byte of
every file once, in file order. -/
theorem regions_partition_content (pieceLength : Nat) (files : List FileSpan) (padding : List Nat)
    (map : PieceMap) (built : newWithPadding pieceLength files padding = .ok map) :
    (∀ piece, piece < map.pieceCount →
      ∃ length, map.pieceLen piece = .ok length ∧
        map.pieceToFileRegions piece = .ok (map.regions piece) ∧
        (∀ region ∈ map.regions piece, 0 < region.length) ∧
        ((map.regions piece).map FileRegion.length).sum = length ∧
        Tiles 0 (map.regions piece)) ∧
    (List.range map.pieceCount).flatMap
        (fun piece => (map.regions piece).flatMap FileRegion.bytes) =
      files.flatMap FileSpan.bytes := by
  obtain ⟨rfl, _, _⟩ := newWithPadding_files built
  constructor
  · intro piece inside
    have ends : map.pieceEnd piece ≤ map.totalLength := Nat.min_le_right _ _
    obtain ⟨tiles, sums⟩ := map.overlaps_tile (piece * map.pieceLength) (map.pieceEnd piece) 0
      (map.piece_start_lt_end piece inside) map.contiguous
      (by rw [map.spanLength_eq]; omega)
    rw [Nat.max_zero] at tiles sums
    rw [Nat.sub_self] at tiles
    refine ⟨_, map.pieceLen_eq piece inside, map.regions_answered piece inside, ?_, ?_, ?_⟩
    · rw [map.regions_eq piece inside]
      exact map.overlaps_positive
    · rw [map.regions_eq piece inside, sums]
    · rw [map.regions_eq piece inside]
      exact tiles
  · have covered := le_divCeil_mul map.totalLength map.positive
    rw [map.pieceCount_eq] at covered
    refine (List.flatMap_congr fun piece member =>
      map.regions_bytes piece (List.mem_range.mp member)).trans ?_
    rw [flatMap_window, List.take_of_length_le]
    rw [length_bytes, map.spanLength_eq]
    exact covered

def samplePath : SafeRelPath := .sample

/-- Three files of 3, 2 and 6 bytes. -/
def sampleFiles : List FileSpan :=
  [⟨0, samplePath, 0, 3⟩, ⟨1, samplePath, 3, 2⟩, ⟨2, samplePath, 5, 6⟩]

theorem regions_partition_content_sample :
    ∃ map, newWithPadding 4 sampleFiles [1] = .ok map ∧
      (List.range map.pieceCount).flatMap
          (fun piece => (map.regions piece).flatMap FileRegion.bytes) =
        sampleFiles.flatMap FileSpan.bytes := by
  obtain ⟨map, built⟩ : ∃ map, newWithPadding 4 sampleFiles [1] = .ok map := ⟨_, rfl⟩
  exact ⟨map, built, (regions_partition_content 4 sampleFiles [1] map built).2⟩

end PieceMap

end TorrentNG.Pieces
