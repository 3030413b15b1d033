import TorrentNG.PieceMap
import TorrentNG.Ranges

/-!
# The pieces of a file

`PieceMap::piece_ranges_for_file_indices` and `PieceMap::piece_range_for_file_bytes`: from
files, or from some bytes of one file, to the pieces that hold them. Both divide positions of
the content stream by the piece length. The results are compared with the regions of the
pieces, which is the way from a piece to its files.
-/

namespace TorrentNG.Pieces.PieceMap

open Fallible MachineArithmetic Option SortedSlices Ranges List

variable (map : PieceMap)

/-- The range of pieces of a file. -/
def filePieces (file : FileSpan) : Except PieceMapError (Nat × Nat) := do
  let fileEnd ← okOr (checkedAdd file.contentOffset file.length) (.integerOverflow "file span end")
  let first ← okOr (toU32 (file.contentOffset / map.pieceLength))
    (.integerOverflow "file piece start")
  let last ← okOr (toU32 (min (divCeil fileEnd map.pieceLength) map.pieceCount))
    (.integerOverflow "file piece end")
  .ok (first, last)

/-- The loop of `piece_ranges_for_file_indices`. -/
def collectRanges (map : PieceMap) (fileIndices : List Nat) :
    List FileSpan → Except PieceMapError (List (Nat × Nat))
  | [] => .ok []
  | file :: rest =>
      if binarySearch fileIndices file.fileIndex = false ∨ file.length = 0 ∨
          map.fileIsPadding file.fileIndex = true then collectRanges map fileIndices rest
      else do
        let (first, last) ← map.filePieces file
        let ranges ← collectRanges map fileIndices rest
        .ok (if first < last then (first, last) :: ranges else ranges)

/-- The ranges of pieces of the selected files; the indexes are sorted. -/
def pieceRangesForFileIndices (fileIndices : List Nat) :
    Except PieceMapError (List (Nat × Nat)) := map.collectRanges fileIndices map.files

/-- The file of an index: the files are most often numbered in their order. -/
def fileOfIndex (fileIndex : Nat) : Option FileSpan :=
  (map.files[fileIndex]?.filter fun file => file.fileIndex == fileIndex).or
    (map.files.find? fun file => file.fileIndex == fileIndex)

/-- The range of pieces of the bytes of a file from one offset to another; the offsets are
clamped to the file. -/
def pieceRangeForFileBytes (fileIndex start stop : Nat) : Option (Nat × Nat) := do
  let file ← map.fileOfIndex fileIndex
  let stop := min stop file.length
  if start ≥ stop then none
  else do
    let contentStart ← checkedAdd file.contentOffset start
    let contentEnd ← checkedAdd file.contentOffset stop
    let first ← toU32 (contentStart / map.pieceLength)
    let last ← toU32 (min (divCeil contentEnd map.pieceLength) map.pieceCount)
    if first < last then some (first, last) else none

/-- A piece that contains a byte of a file. -/
def Holds (piece : Nat) (file : FileSpan) : Prop :=
  ∃ position, file.contentOffset ≤ position ∧ position < file.contentOffset + file.length ∧
    position / map.pieceLength = piece

variable (map : PieceMap)

theorem file_end_le (file : FileSpan) (member : file ∈ map.files) :
    file.contentOffset + file.length ≤ map.totalLength := by
  have inside := contiguous_end_le map.contiguous file member
  rwa [Nat.zero_add, map.spanLength_eq] at inside

/-- A range of positions of the stream as a range of pieces, which are those with a position
of the range. -/
theorem pieces_between (start stop : Nat) (ordered : start < stop) (ends : stop ≤ map.totalLength) :
    start / map.pieceLength < divCeil stop map.pieceLength ∧
      divCeil stop map.pieceLength ≤ map.pieceCount ∧
      ∀ piece, (start / map.pieceLength ≤ piece ∧ piece < divCeil stop map.pieceLength) ↔
        piece * map.pieceLength < stop ∧ start < (piece + 1) * map.pieceLength := by
  have positive := map.positive
  have covered := le_divCeil_mul stop positive
  refine ⟨?_, ?_, fun piece => and_comm.trans (and_congr ?_ ?_)⟩
  · rw [Nat.div_lt_iff_lt_mul positive]
    omega
  · rw [divCeil_le_iff positive]
    have whole := le_divCeil_mul map.totalLength positive
    rw [map.pieceCount_eq] at whole
    omega
  · exact lt_divCeil_iff positive
  · rw [← Nat.lt_succ_iff, Nat.div_lt_iff_lt_mul positive]

variable {file : FileSpan} {piece start stop : Nat}

theorem holds_iff_between : map.Holds piece file ↔ 0 < file.length ∧
    piece * map.pieceLength < file.contentOffset + file.length ∧
      file.contentOffset < (piece + 1) * map.pieceLength := by
  constructor
  · rintro ⟨position, start, stop, rfl⟩
    have lower := Nat.div_mul_le_self position map.pieceLength
    have upper := Nat.lt_mul_div_succ position map.positive
    rw [Nat.mul_comm] at upper
    omega
  · rintro ⟨content, below, above⟩
    have positive := map.positive
    -- the first byte of the file, or of the piece if the file starts before it
    refine ⟨max file.contentOffset (piece * map.pieceLength), Nat.le_max_left _ _, by omega, ?_⟩
    rw [Nat.div_eq_iff positive]
    rw [Nat.succ_mul] at above
    omega

/-- The range of a file with content is not empty and contains the pieces with a byte of it. -/
theorem filePieces_eq (member : file ∈ map.files) (content : 0 < file.length) :
    ∃ first last, map.filePieces file = .ok (first, last) ∧ first < last ∧
      ∀ piece, (first ≤ piece ∧ piece < last) ↔ map.Holds piece file := by
  have ends := map.file_end_le file member
  have bounded := map.totalLength_lt
  have few := map.pieceCount_lt
  obtain ⟨starts, counted, between⟩ := map.pieces_between file.contentOffset
    (file.contentOffset + file.length) (by omega) ends
  refine ⟨file.contentOffset / map.pieceLength,
    divCeil (file.contentOffset + file.length) map.pieceLength, ?_, starts, ?_⟩
  · have startFits : file.contentOffset / map.pieceLength < 2 ^ 32 := by omega
    have endFits : divCeil (file.contentOffset + file.length) map.pieceLength < 2 ^ 32 := by omega
    simp only [filePieces, checkedAdd_of_lt (Nat.lt_of_le_of_lt ends bounded), okOr, bind, Except.bind,
      Nat.min_eq_left counted, toU32, if_pos startFits, if_pos endFits]
  · intro piece
    rw [between, holds_iff_between, and_iff_right content]

/-- The ranges cover the pieces that contain a byte of a selected file. -/
theorem collectRanges_eq {fileIndices : List Nat} (sorted : fileIndices.Pairwise (· ≤ ·))
    {files : List FileSpan} (known : ∀ file ∈ files, file ∈ map.files) :
    ∃ ranges, map.collectRanges fileIndices files = .ok ranges ∧
      ∀ piece, Covers ranges piece ↔ ∃ file ∈ files, file.fileIndex ∈ fileIndices ∧
        map.fileIsPadding file.fileIndex = false ∧ map.Holds piece file := by
  induction files with
  | nil => exact ⟨[], rfl, fun piece => by simp [Covers]⟩
  | cons file rest ih =>
    obtain ⟨here, others⟩ := forall_mem_cons.mp known
    obtain ⟨ranges, collected, covers⟩ := ih others
    have selected := binarySearch_iff sorted file.fileIndex
    unfold collectRanges
    split
    next skipped =>
      refine ⟨ranges, collected, fun piece => ?_⟩
      rw [covers, exists_mem_cons_iff, or_iff_right]
      rintro ⟨member, content, holds⟩
      rcases skipped with absent | empty | padding
      · rw [selected.mpr member] at absent
        cases absent
      · exact Nat.ne_of_gt (map.holds_iff_between.mp holds).1 empty
      · rw [content] at padding
        cases padding
    next taken =>
      simp only [not_or, Bool.not_eq_false, Bool.not_eq_true] at taken
      obtain ⟨member, content, padding⟩ := taken
      obtain ⟨first, last, range, ordered, holds⟩ :=
        map.filePieces_eq here (Nat.pos_of_ne_zero content)
      refine ⟨(first, last) :: ranges, ?_, fun piece => ?_⟩
      · simp only [range, collected, bind, Except.bind, if_pos ordered]
      · rw [covers_cons, covers, holds, exists_mem_cons_iff]
        apply or_congr_left
        exact ⟨fun held => ⟨selected.mp member, padding, held⟩, fun both => both.2.2⟩

/-- Indexes name at most one file. -/
theorem file_unique {first second : FileSpan} (firstMember : first ∈ map.files)
    (secondMember : second ∈ map.files) (same : first.fileIndex = second.fileIndex) :
    first = second :=
  inj_on_of_nodup_map (duplicateIndex_eq_none.mp map.distinct) firstMember secondMember same

theorem fileOfIndex_eq_some {fileIndex : Nat} :
    map.fileOfIndex fileIndex = some file ↔ file ∈ map.files ∧ file.fileIndex = fileIndex := by
  have sound : ∀ found, map.fileOfIndex fileIndex = some found →
      found ∈ map.files ∧ found.fileIndex = fileIndex := by
    intro found looked
    rcases or_eq_some_iff.mp looked with direct | ⟨_, searched⟩
    · obtain ⟨placed, named⟩ := filter_eq_some_iff.mp direct
      exact ⟨mem_of_getElem? placed, beq_iff_eq.mp named⟩
    · exact ⟨mem_of_find?_eq_some searched, by simpa using find?_some searched⟩
  refine ⟨sound file, ?_⟩
  rintro ⟨member, named⟩
  cases looked : map.fileOfIndex fileIndex with
  | none =>
    obtain ⟨_, missing⟩ := or_eq_none_iff.mp looked
    exact absurd (beq_iff_eq.mpr named) (find?_eq_none.mp missing file member)
  | some found =>
    obtain ⟨foundMember, foundNamed⟩ := sound found looked
    rw [map.file_unique foundMember member (foundNamed.trans named.symm)]

variable (member : file ∈ map.files)

include member

/-- A piece contains a byte of a file when one of its regions is of the file. -/
theorem holds_iff : map.Holds piece file ↔ piece < map.pieceCount ∧
      ∃ region, map.overlap (piece * map.pieceLength) (map.pieceEnd piece) file = some region := by
  have ends := map.file_end_le file member
  rw [holds_iff_between]
  constructor
  · rintro ⟨content, below, above⟩
    have inside : piece < map.pieceCount := by
      rw [← map.pieceCount_eq, lt_divCeil_iff map.positive]
      omega
    refine ⟨inside, _, if_pos ?_⟩
    have nonEmpty := map.piece_start_lt_end piece inside
    unfold pieceEnd at nonEmpty ⊢
    omega
  · rintro ⟨_, region, found⟩
    obtain ⟨touched, _⟩ := map.overlap_eq_some.mp found
    unfold pieceEnd at touched
    omega

/-- The regions of a file in a piece, of which there is at most one. -/
theorem region_of_file (inside : piece < map.pieceCount) {region : FileRegion} :
    (region ∈ map.regions piece ∧ region.fileIndex = file.fileIndex) ↔
      map.overlap (piece * map.pieceLength) (map.pieceEnd piece) file = some region := by
  rw [map.regions_eq piece inside, mem_filterMap]
  constructor
  · rintro ⟨⟨other, otherMember, found⟩, named⟩
    obtain ⟨_, rfl⟩ := map.overlap_eq_some.mp found
    rwa [map.file_unique member otherMember named.symm]
  · intro found
    obtain ⟨_, rfl⟩ := map.overlap_eq_some.mp found
    exact ⟨⟨file, member, found⟩, rfl⟩

/-- A region of a file in a piece with bytes of the file from one offset to another. -/
def Meets (piece fileIndex start stop : Nat) : Prop :=
  ∃ regions, map.pieceToFileRegions piece = .ok regions ∧ ∃ region ∈ regions,
    region.fileIndex = fileIndex ∧
      max start region.fileOffset < min stop (region.fileOffset + region.length)

theorem meets_iff_overlap (inside : piece < map.pieceCount) :
    map.Meets piece file.fileIndex start stop ↔
      ∃ region, map.overlap (piece * map.pieceLength) (map.pieceEnd piece) file = some region ∧
        max start region.fileOffset < min stop (region.fileOffset + region.length) := by
  unfold Meets
  rw [map.regions_answered piece inside]
  simp only [Except.ok.injEq, exists_eq_left', ← and_assoc, map.region_of_file member inside]

/-- A piece has such a region when positions of the stream lie both in the piece and in that
part of the file. -/
theorem meets_iff (ordered : start < min stop file.length) :
    map.Meets piece file.fileIndex start stop ↔
      piece * map.pieceLength < file.contentOffset + min stop file.length ∧
        file.contentOffset + start < (piece + 1) * map.pieceLength := by
  have ends := map.file_end_le file member
  constructor
  · intro reaches
    obtain ⟨regions, answered, _⟩ := id reaches
    have inside := map.piece_lt_of_regions answered
    obtain ⟨region, found, shared⟩ := (map.meets_iff_overlap member inside).mp reaches
    obtain ⟨touched, rfl⟩ := map.overlap_eq_some.mp found
    dsimp only [regionOf] at shared
    unfold pieceEnd at touched shared
    omega
  · rintro ⟨below, above⟩
    have holds : map.Holds piece file := map.holds_iff_between.mpr ⟨by omega, by omega, by omega⟩
    obtain ⟨inside, region, found⟩ := (map.holds_iff member).mp holds
    obtain ⟨touched, rfl⟩ := map.overlap_eq_some.mp found
    refine (map.meets_iff_overlap member inside).mpr ⟨_, found, ?_⟩
    dsimp only [regionOf]
    unfold pieceEnd at touched ⊢
    omega

theorem pieceRangeForFileBytes_eq (ordered : start < min stop file.length) :
    map.pieceRangeForFileBytes file.fileIndex start stop =
      some ((file.contentOffset + start) / map.pieceLength,
        divCeil (file.contentOffset + min stop file.length) map.pieceLength) := by
  have ends := map.file_end_le file member
  have bounded := map.totalLength_lt
  have few := map.pieceCount_lt
  have looked := map.fileOfIndex_eq_some.mpr ⟨member, rfl⟩
  obtain ⟨starts, counted, _⟩ := map.pieces_between (file.contentOffset + start)
    (file.contentOffset + min stop file.length) (by omega) (by omega)
  have startFits : (file.contentOffset + start) / map.pieceLength < 2 ^ 32 := by omega
  have endFits : divCeil (file.contentOffset + min stop file.length) map.pieceLength < 2 ^ 32 := by
    omega
  rw [pieceRangeForFileBytes, looked]
  simp only [bind_eq_bind, bind_some, if_neg (Nat.not_le.mpr ordered)]
  rw [checkedAdd_of_lt (by omega), checkedAdd_of_lt (by omega)]
  simp only [bind_some, Nat.min_eq_left counted, toU32, if_pos startFits, if_pos endFits,
    if_pos starts]

omit member

/-- Bytes of a file have a range of pieces exactly when there are any in the file, and the
range holds the pieces with a region that contains one of them. The ranges of some files hold
the pieces with a region of one of the files that is not padding. -/
theorem file_pieces_exact :
    (∀ fileIndex start stop,
      ((∃ range, map.pieceRangeForFileBytes fileIndex start stop = some range) ↔
        ∃ file ∈ map.files, file.fileIndex = fileIndex ∧ start < min stop file.length) ∧
      ∀ first last, map.pieceRangeForFileBytes fileIndex start stop = some (first, last) →
        ∀ piece, (first ≤ piece ∧ piece < last) ↔ map.Meets piece fileIndex start stop) ∧
    ∀ fileIndices : List Nat, fileIndices.Pairwise (· ≤ ·) →
      ∃ ranges, map.pieceRangesForFileIndices fileIndices = .ok ranges ∧
        ∀ piece, Covers ranges piece ↔ ∃ regions, map.pieceToFileRegions piece = .ok regions ∧
          ∃ region ∈ regions, region.fileIndex ∈ fileIndices ∧ region.pad = false := by
  constructor
  · intro fileIndex start stop
    have nonEmpty : ∀ range, map.pieceRangeForFileBytes fileIndex start stop = some range →
        ∃ file ∈ map.files, file.fileIndex = fileIndex ∧ start < min stop file.length := by
      intro range found
      obtain ⟨file, looked, rest⟩ := Option.bind_eq_some_iff.mp found
      obtain ⟨member, named⟩ := map.fileOfIndex_eq_some.mp looked
      dsimp only at rest
      split_ifs at rest with empty
      exact ⟨file, member, named, Nat.not_le.mp empty⟩
    refine ⟨⟨fun ⟨range, found⟩ => nonEmpty range found, ?_⟩, ?_⟩
    · rintro ⟨file, member, rfl, ordered⟩
      exact ⟨_, map.pieceRangeForFileBytes_eq member ordered⟩
    · intro first last found piece
      obtain ⟨file, member, rfl, ordered⟩ := nonEmpty _ found
      have ends := map.file_end_le file member
      rw [map.pieceRangeForFileBytes_eq member ordered] at found
      obtain ⟨rfl, rfl⟩ := Prod.mk.inj (Option.some.inj found)
      obtain ⟨_, _, between⟩ := map.pieces_between (file.contentOffset + start)
        (file.contentOffset + min stop file.length) (by omega) (by omega)
      rw [between, map.meets_iff member ordered]
  · intro fileIndices sorted
    obtain ⟨ranges, found, covers⟩ :=
      map.collectRanges_eq sorted fun _ member => member
    refine ⟨ranges, found, fun piece => ?_⟩
    rw [covers]
    constructor
    · rintro ⟨file, member, selected, padding, holds⟩
      obtain ⟨inside, region, overlapping⟩ := (map.holds_iff member).mp holds
      obtain ⟨listed, _⟩ := (map.region_of_file member inside).mpr overlapping
      obtain ⟨_, rfl⟩ := map.overlap_eq_some.mp overlapping
      exact ⟨_, map.regions_answered piece inside, _, listed, selected, padding⟩
    · rintro ⟨regions, answered, region, listed, selected, padding⟩
      have inside := map.piece_lt_of_regions answered
      rw [map.pieceToFileRegions_eq inside] at answered
      obtain rfl := Except.ok.inj answered
      obtain ⟨file, member, overlapping⟩ := List.mem_filterMap.mp listed
      have holds := (map.holds_iff member).mpr ⟨inside, region, overlapping⟩
      obtain ⟨_, rfl⟩ := map.overlap_eq_some.mp overlapping
      exact ⟨file, member, selected, padding, holds⟩

end TorrentNG.Pieces.PieceMap
