import TorrentNG.PieceMap

/-!
# Block requests against a piece map

`PieceMap::validate_request`: a request names a block of a piece, and is answered with the
parts of files it consists of. The loop over the files is the one that answers for a whole
piece, with the request's own range; a part carries no offset in the piece. What it finds is
what cutting the regions of the whole piece would give.
-/

namespace TorrentNG.Pieces

open Fallible FileRegion MachineArithmetic SafePath

/-- `MAX_BLOCK_SIZE` of `rt-piece-map`. -/
def maxRequestSize : Nat := 16 * 1024

/-- A slice of a file that belongs to a request. -/
structure PieceRegion where
  fileIndex : Nat
  path : SafeRelPath
  fileOffset : Nat
  length : Nat
  pad : Bool
deriving DecidableEq

/-- The errors of `PieceMapError` that only a request can cause, with those of the map. -/
inductive RequestError where
  | zeroRequestLength
  | blockTooLarge (length maximum : Nat)
  | requestOutOfBounds (offset len pieceLen : Nat)
  | map (error : PieceMapError)
deriving DecidableEq

/-- The length of a part is cast to 32 bits. -/
def FileRegion.toPieceRegion (region : FileRegion) : PieceRegion where
  fileIndex := region.fileIndex
  path := region.path
  fileOffset := region.fileOffset
  length := region.length % 2 ^ 32
  pad := region.pad

namespace PieceMap

def validateRequest (map : PieceMap) (piece begin length : Nat) :
    Except RequestError (List PieceRegion) :=
  if length = 0 then .error .zeroRequestLength
  else if maxRequestSize < length then .error (.blockTooLarge length maxRequestSize)
  else do
    let pieceLen ← (map.pieceLen piece).mapError .map
    if pieceLen < begin + length then .error (.requestOutOfBounds begin length pieceLen)
    else do
      let pieceStart ← okOr (checkedMul piece map.pieceLength) (.map (.integerOverflow "piece start"))
      let requestStart ← okOr (checkedAdd pieceStart begin) (.map (.integerOverflow "request start"))
      let requestEnd ← okOr (checkedAdd requestStart length) (.map (.integerOverflow "request end"))
      let regions ← (map.collectRegions requestStart requestEnd
        (map.files.drop (map.firstFileAtOrAfter requestStart))).mapError .map
      .ok (regions.map FileRegion.toPieceRegion)

variable (map : PieceMap)

/-- A request is accepted exactly when it names a block of at most 16 KiB within an existing
piece, and is answered with the overlaps of its range. -/
theorem validateRequest_eq_ok {piece begin length : Nat} {regions : List PieceRegion} :
    map.validateRequest piece begin length = .ok regions ↔
      (0 < length ∧ length ≤ maxRequestSize ∧ piece < map.pieceCount ∧
        piece * map.pieceLength + begin + length ≤ map.pieceEnd piece) ∧
      regions = (map.files.filterMap (map.overlap (piece * map.pieceLength + begin)
        (piece * map.pieceLength + begin + length))).map toPieceRegion := by
  unfold validateRequest
  by_cases zero : length = 0
  · simp [zero]
  by_cases large : maxRequestSize < length
  · simp [zero, large]
  by_cases inside : piece < map.pieceCount
  · have bounds := map.piece_start piece inside
    have below : map.pieceEnd piece ≤ map.totalLength := Nat.min_le_right _ _
    have limit := map.totalLength_lt
    rw [if_neg zero, if_neg large, map.pieceLen_eq piece inside]
    simp only [Except.mapError, bind, Except.bind]
    split
    next =>
      refine iff_of_false nofun ?_
      rintro ⟨⟨_, _, _, fits⟩, _⟩
      omega
    next =>
      rw [checkedMul_of_lt (by omega)]
      simp only [okOr]
      rw [checkedAdd_of_lt (by omega)]
      simp only
      rw [checkedAdd_of_lt (by omega)]
      simp only [map.collectRegions_from, Except.ok.injEq]
      constructor
      · rintro rfl
        exact ⟨⟨Nat.pos_of_ne_zero zero, Nat.le_of_not_lt large, inside, by omega⟩, rfl⟩
      · rintro ⟨_, rfl⟩
        rfl
  · have outside : map.pieceLen piece = .error (.pieceOutOfRange piece map.pieceCount) :=
      if_pos (Nat.le_of_not_lt inside)
    simp [zero, large, outside, inside, Except.mapError, bind, Except.bind]

end PieceMap

/-- The part of a region of a piece that lies between two positions of the piece, if there
is one. -/
def FileRegion.between (region : FileRegion) (start stop : Nat) : Option PieceRegion :=
  let first := max start region.pieceOffset
  let last := min stop (region.pieceOffset + region.length)
  if first < last then
    some { fileIndex := region.fileIndex
           path := region.path
           fileOffset := region.fileOffset + (first - region.pieceOffset)
           length := last - first
           pad := region.pad }
  else none

namespace PieceMap

variable (map : PieceMap)

/-- Cutting the region of a whole piece gives what the request finds in the file itself. -/
theorem overlap_between {piece begin length : Nat} (small : length ≤ maxRequestSize)
    (inside : piece * map.pieceLength + begin + length ≤ map.pieceEnd piece) (file : FileSpan) :
    ((map.overlap (piece * map.pieceLength) (map.pieceEnd piece) file).bind fun region =>
        region.between begin (begin + length)) =
      (map.overlap (piece * map.pieceLength + begin) (piece * map.pieceLength + begin + length)
        file).map toPieceRegion := by
  generalize piece * map.pieceLength = start at *
  generalize map.pieceEnd piece = stop at *
  unfold maxRequestSize at small
  unfold overlap
  by_cases touched : max (start + begin) file.contentOffset <
      min (start + begin + length) (file.contentOffset + file.length)
  · have whole : max start file.contentOffset < min stop (file.contentOffset + file.length) := by
      omega
    rw [if_pos whole, if_pos touched, Option.bind_some, Option.map_some]
    dsimp only [FileRegion.between, regionOf, toPieceRegion]
    rw [if_pos (by omega), Option.some.injEq, PieceRegion.mk.injEq]
    refine ⟨rfl, rfl, ?_, ?_, rfl⟩ <;> omega
  · rw [if_neg touched]
    split_ifs with whole
    · dsimp only [Option.bind_some, FileRegion.between, regionOf]
      exact if_neg (by omega)
    · rfl

/-- A 32-bit cast changes no part of a request, so that the parts add up to the request. -/
theorem sum_toPieceRegion {regions : List FileRegion}
    (small : (regions.map FileRegion.length).sum ≤ maxRequestSize) :
    ((regions.map toPieceRegion).map PieceRegion.length).sum =
      (regions.map FileRegion.length).sum := by
  induction regions with
  | nil => rfl
  | cons region rest ih =>
    simp only [List.map_cons, List.sum_cons, maxRequestSize] at small ih ⊢
    rw [ih (by omega), toPieceRegion]
    congr 1
    exact Nat.mod_eq_of_lt (by omega)

/-- A request is accepted exactly when it names between 1 and 16384 bytes within an existing
piece. It is answered with the regions of the piece cut to the request, in their order and
with their padding marks, and the parts add up to the request. -/
theorem validate_request_exact (piece begin length : Nat) :
    ((∃ parts, map.validateRequest piece begin length = .ok parts) ↔
      piece < map.pieceCount ∧ 1 ≤ length ∧ length ≤ 16384 ∧
        ∃ pieceLen, map.pieceLen piece = .ok pieceLen ∧ begin + length ≤ pieceLen) ∧
    ∀ parts, map.validateRequest piece begin length = .ok parts →
      ∃ regions, map.pieceToFileRegions piece = .ok regions ∧
        parts = regions.filterMap (fun region => region.between begin (begin + length)) ∧
        (parts.map PieceRegion.length).sum = length := by
  constructor
  · constructor
    · rintro ⟨parts, accepted⟩
      obtain ⟨⟨positive, small, inside, fits⟩, _⟩ :=
        map.validateRequest_eq_ok.mp accepted
      exact ⟨inside, positive, small, _, map.pieceLen_eq piece inside, by omega⟩
    · rintro ⟨inside, positive, small, pieceLen, found, fits⟩
      rw [map.pieceLen_eq piece inside] at found
      obtain rfl := Except.ok.inj found
      exact ⟨_, map.validateRequest_eq_ok.mpr ⟨⟨positive, small, inside, by omega⟩, rfl⟩⟩
  · intro parts accepted
    obtain ⟨⟨positive, small, inside, fits⟩, rfl⟩ :=
      map.validateRequest_eq_ok.mp accepted
    have below : map.pieceEnd piece ≤ map.totalLength := Nat.min_le_right _ _
    obtain ⟨_, sums⟩ := map.overlaps_tile (piece * map.pieceLength + begin)
      (piece * map.pieceLength + begin + length) 0 (by omega) map.contiguous
      (by rw [map.spanLength_eq]; omega)
    rw [Nat.max_zero, Nat.add_sub_cancel_left] at sums
    refine ⟨_, map.pieceToFileRegions_eq inside, ?_, ?_⟩
    · rw [List.filterMap_filterMap, List.map_filterMap]
      exact List.filterMap_congr fun file _ =>
        (map.overlap_between small fits file).symm
    · rw [sum_toPieceRegion (by rw [sums]; exact small), sums]

end PieceMap

end TorrentNG.Pieces
