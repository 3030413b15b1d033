import TorrentNG.AuthenticationPath
import TorrentNG.TorrentFiles

/-!
# BEP 52 hash requests

A client that has the info dictionary of a v2 torrent but not its piece layers asks
peers for ranges of a file's hash tree. This module has the two sides of one request:
how the client chooses ranges and checks an answer (`metadata_task.rs`), and how the
serving side bounds a request and collects the answer (`torrent_task_v2.rs`). The two
compute the height of the tree, the omitted layers and the length of the proof apart
from each other.

Hashes are abstract and so is the pairing function. Coordinates are 32-bit in the
source and natural numbers here.
-/

namespace TorrentNG.HashExchange

open AuthenticationPath Fallible MachineArithmetic MerkleHash Metainfo PerfectTree Reading Option

variable {Hash : Type}

/-- What a request, its answer and its rejection have in common. -/
structure Coordinates (Hash : Type) where
  piecesRoot : Hash
  baseLayer : Nat
  index : Nat
  length : Nat
  proofLayers : Nat
deriving DecidableEq

/-- A layered file of the info dictionary. The last fields are what
`v2_piece_layer_requirements` has checked when it lists the file. -/
structure V2PieceLayerRequirement (Hash : Type) (pieceLength : Nat) where
  piecesRoot : Hash
  fileLength : Nat
  hashCount : Nat
  layered : pieceLength < fileLength
  counted : layerCount fileLength pieceLength = .ok hashCount

/-- The loop of `v2_piece_layer_requirements`: one entry for each root, in file order. -/
def collectRequirements (pieceLength : Nat) : List TorrentFileV2 → RequiredLayers →
    Parsed (List (V2PieceLayerRequirement (Digest 32) pieceLength))
  | [], _ => .ok []
  | file :: rest, seen =>
      if flat : file.length ≤ pieceLength then collectRequirements pieceLength rest seen
      else do
        let piecesRoot ← okOr file.piecesRoot (.missingField "pieces root")
        match counted : layerCount file.length pieceLength with
        | .error problem => .error problem
        | .ok hashCount =>
            match lookupEntry piecesRoot seen with
            | some (previousLength, previousHashCount) =>
                if previousLength ≠ file.length ∨ previousHashCount ≠ hashCount then
                  .error (.invalidPieceLayer "same pieces root has conflicting file requirements")
                else collectRequirements pieceLength rest seen
            | none => do
                let others ← collectRequirements pieceLength rest
                  (insertEntry piecesRoot (file.length, hashCount) seen).2
                .ok (⟨piecesRoot, file.length, hashCount, Nat.lt_of_not_le flat, counted⟩ :: others)

/-- The messages the client gives up with; addresses are left out. -/
inductive ExchangeError where
  /-- invalid v2 piece length for hash exchange -/
  | invalidPieceLength (pieceLength : Nat)
  /-- v2 leaf count overflowed -/
  | leafCountOverflow
  /-- v2 Merkle tree is too large -/
  | treeTooLarge
  /-- v2 piece layer base is not below tree height -/
  | baseNotBelowTree (base height : Nat)
  /-- v2 piece-layer width overflowed -/
  | layerWidthOverflow
  /-- v2 piece-layer count exceeds padded layer width -/
  | countExceedsWidth (count width : Nat)
  /-- v2 proof-layer count underflowed -/
  | proofLayersUnderflow
  /-- v2 piece-layer allocation failed -/
  | allocationFailed
  /-- v2 piece-layer request length overflowed -/
  | requestLengthOverflow
  /-- v2 piece-layer request index overflowed -/
  | requestIndexOverflow
  /-- v2 piece-layer request index and length exceed layer width -/
  | requestOutsideLayer (index length width : Nat)
  /-- peer closed during v2 piece-layer transfer -/
  | peerClosed
  /-- peer returned a mismatched v2 hashes response -/
  | mismatchedResponse
  /-- peer rejected v2 piece-layer request -/
  | requestRejected
  /-- peer returned invalid v2 hash request coordinates -/
  | invalidCoordinates
  /-- invalid v2 piece length in hash response -/
  | invalidResponsePieceLength
  /-- peer returned an unexpected v2 hash base layer -/
  | unexpectedBaseLayer
  /-- v2 hash base layer is too large -/
  | baseLayerTooLarge
  /-- v2 hash range overflowed -/
  | rangeOverflow
  /-- peer returned v2 hash coordinates outside the file tree -/
  | outsideTree
  /-- peer returned an incomplete v2 hash proof -/
  | incompleteProof
  /-- v2 response hash count overflowed -/
  | hashCountOverflow
  /-- v2 hashes response contains one number of hashes, expected another -/
  | wrongHashCount (found expected : Nat)
  /-- v2 proof depth overflowed -/
  | proofDepthOverflow
  /-- v2 hashes response proof does not match pieces root -/
  | proofMismatch
  /-- v2 piece layer does not reconstruct its pieces root -/
  | rootMismatch
deriving Repr, DecidableEq

/-! ## The client's requests -/

def maxMetadataHashRequestLength : Nat := 512

/-- Number of leaves of a file's tree, with the padding. -/
def paddedLeafCount (fileLength : Nat) : Except ExchangeError Nat := do
  let sum ← okOr (checkedAdd fileLength (v2BlockSize - 1)) .leafCountOverflow
  okOr (checkedNextPowerOfTwo (max (sum / v2BlockSize) 1)) .treeTooLarge

/-- The base layer of a file's requests, their number of proof layers, and the width
of the base layer. -/
def v2PieceLayerShape {pieceLength : Nat} (requirement : V2PieceLayerRequirement Hash pieceLength) :
    Except ExchangeError (Nat × Nat × Nat) :=
  if pieceLength < v2BlockSize ∨ ¬pieceLength.isPowerOfTwo ∨ pieceLength % v2BlockSize ≠ 0 then
    .error (.invalidPieceLength pieceLength)
  else do
    let baseLayer := trailingZeros 64 (pieceLength / v2BlockSize)
    let padded ← paddedLeafCount requirement.fileLength
    let treeHeight := trailingZeros 64 padded
    if baseLayer ≥ treeHeight then .error (.baseNotBelowTree baseLayer treeHeight)
    else do
      let layerLen ← okOr (checkedShr padded baseLayer) .layerWidthOverflow
      if requirement.hashCount = 0 ∨ requirement.hashCount > layerLen then
        .error (.countExceedsWidth requirement.hashCount layerLen)
      else do
        let proofLayers ← okOr (checkedSub treeHeight (baseLayer + 1)) .proofLayersUnderflow
        .ok (baseLayer, proofLayers, layerLen)

def v2HashRequestLength (remaining : Nat) : Except ExchangeError Nat :=
  if remaining > maxMetadataHashRequestLength then .ok maxMetadataHashRequestLength
  else okOr (toU32 (max (nextPowerOfTwo remaining) 2)) .requestLengthOverflow

/-- The request of a round of `fetch_v2_piece_layer`. -/
def requestAt {pieceLength : Nat} (requirement : V2PieceLayerRequirement Hash pieceLength)
    (shape : Nat × Nat × Nat) (cursor : Nat) : Except ExchangeError (Coordinates Hash) := do
  let (baseLayer, proofLayers, layerLen) := shape
  let length ← v2HashRequestLength (requirement.hashCount - cursor)
  let index ← okOr (toU32 cursor) .requestIndexOverflow
  if index % length ≠ 0 ∨ index + length > layerLen then
    .error (.requestOutsideLayer index length layerLen)
  else .ok ⟨requirement.piecesRoot, baseLayer, index, length, proofLayers⟩

/-! ## The client's check of an answer -/

/-- The loop over the proof: hash with one sibling a depth. -/
def foldProof (hasher : Hasher Hash) (index : Nat) :
    Nat → Hash → List Hash → Except ExchangeError Hash
  | _, current, [] => .ok current
  | depth, current, sibling :: rest => do
      let depth ← okOr (toU32 depth) .proofDepthOverflow
      foldProof hasher index (depth + 1)
        (if index / 2 ^ depth % 2 = 0 then hasher.hashPair current sibling
          else hasher.hashPair sibling current) rest

/-- Number of proof hashes behind a range of the given length. -/
def proofHashCount (length proofLayers : Nat) : Nat :=
  let omitted := trailingZeros 32 length
  if omitted ≤ proofLayers then proofLayers - omitted + 1 else 0

/-- The coordinates of an answer against the file's tree. -/
def checkCoordinates (coordinates : Coordinates Hash) (fileLength pieceLength : Nat) :
    Except ExchangeError Unit :=
  if coordinates.length < 2 ∨ ¬coordinates.length.isPowerOfTwo ∨
      coordinates.index % coordinates.length ≠ 0 ∨
      coordinates.length > maxMetadataHashRequestLength then
    .error .invalidCoordinates
  else if ¬(pieceLength / v2BlockSize).isPowerOfTwo then .error .invalidResponsePieceLength
  else if coordinates.baseLayer ≠ trailingZeros 64 (pieceLength / v2BlockSize) then
    .error .unexpectedBaseLayer
  else do
    let padded ← paddedLeafCount fileLength
    let treeHeight := trailingZeros 64 padded
    let layerLen ← okOr (checkedShr padded coordinates.baseLayer) .baseLayerTooLarge
    let stop ← okOr (checkedAdd coordinates.index coordinates.length) .rangeOverflow
    if coordinates.baseLayer ≥ treeHeight ∨ stop > layerLen then .error .outsideTree
    else do
      let expected ← okOr (checkedSub treeHeight (coordinates.baseLayer + 1)) .proofLayersUnderflow
      if coordinates.proofLayers ≠ expected then .error .incompleteProof else .ok ()

/-- An answer is accepted when its range and proof hash to the root of the file. The
range is not empty, so the collapsed level has a first node. -/
def validateV2HashesResponse [DecidableEq Hash] (hasher : Hasher Hash)
    (coordinates : Coordinates Hash) (fileLength pieceLength : Nat) (hashes : List Hash) :
    Except ExchangeError Unit := do
  checkCoordinates coordinates fileLength pieceLength
  let expected ← okOr (checkedAdd coordinates.length
    (proofHashCount coordinates.length coordinates.proofLayers)) .hashCountOverflow
  if hashes.length ≠ expected then .error (.wrongHashCount hashes.length expected)
  else do
    let nodes := collapse hasher coordinates.length (hashes.take coordinates.length)
    let current ← foldProof hasher coordinates.index (trailingZeros 32 coordinates.length)
      (nodes.headD hasher.zero) (hashes.drop coordinates.length)
    if current ≠ coordinates.piecesRoot then .error .proofMismatch else .ok ()

/-! ## The serving side -/

def v2MaxHashRequestLength : Nat := 512

/-- Base layer, start, count and proof count of a request that fits the tree. -/
def hashRequestBounds (leafCount baseLayer index length proofLayers : Nat) :
    Option (Nat × Nat × Nat × Nat) :=
  if leafCount = 0 ∨ length < 2 ∨ ¬length.isPowerOfTwo ∨ index % length ≠ 0 then none
  else if length > v2MaxHashRequestLength then none
  else do
    let padded ← checkedNextPowerOfTwo leafCount
    let treeHeight := trailingZeros 64 padded
    if baseLayer > treeHeight then none
    else do
      let layerLen ← checkedShr padded baseLayer
      let stop ← checkedAdd index length
      if layerLen < length ∨ stop > layerLen then none
      else if proofLayers > treeHeight - saturatingAdd baseLayer 1 then none
      else some (baseLayer, index, length, proofLayers)

/-- The sibling of the range's ancestor at a depth. -/
def proofHash (layers : List (List Hash)) (base start proofIndex : Nat) : Option Hash := do
  let proofLayer ← checkedAdd base proofIndex
  let nodeIndex ← checkedShr start proofIndex
  let layer ← layers[proofLayer]?
  layer[nodeIndex ^^^ 1]?

def hashesForV2Request (layers : List (List Hash))
    (leafCount baseLayer index length proofLayers : Nat) : Option (List Hash) := do
  let (base, start, count, proofCount) ←
    hashRequestBounds leafCount baseLayer index length proofLayers
  let layer ← layers[base]?
  let stop ← checkedAdd start count
  if stop > layer.length then none
  else do
    let first ← layers.head?
    let expected ← checkedShr first.length baseLayer
    if expected = 0 ∨ layer.length ≠ expected then none
    else do
      let omitted := trailingZeros 32 length
      let proof ←
        (List.range' omitted (proofCount + 1 - omitted)).mapM (proofHash layers base start)
      some (slice layer start stop ++ proof)

/-! ## The shape of a layered file -/

/-- The numbers that both sides compute, for a layered file. -/
structure TreeShape (pieceLength fileLength hashCount base height : Nat) : Prop where
  blocks : pieceLength = v2BlockSize * 2 ^ base
  clog_eq : Nat.clog 2 (divCeil fileLength v2BlockSize) = height
  below : base < height
  small : height ≤ 50
  fits : fileLength + (v2BlockSize - 1) < 2 ^ 64
  counted : hashCount = divCeil fileLength pieceLength
  several : 2 ≤ hashCount
  covered : hashCount ≤ 2 ^ (height - base)
  few : hashCount ≤ maxPieces

variable {pieceLength : Nat}

theorem layerCount_eq_ok {length count : Nat} (positive : 0 < pieceLength)
    (counted : layerCount length pieceLength = .ok count) :
    count = divCeil length pieceLength ∧ count ≤ maxPieces ∧ length + (pieceLength - 1) < 2 ^ 64 := by
  obtain ⟨sum, added, counted⟩ := bind_eq_ok.mp counted
  obtain ⟨rfl, bounded⟩ := checkedAdd_eq_some.mp (okOr_eq_ok.mp added)
  split_ifs at counted with many
  obtain rfl := Except.ok.inj counted
  exact ⟨add_pred_div_eq_divCeil positive, Nat.not_lt.mp many, bounded⟩

/-- A layered file's tree is higher than a piece, and the rest of its height is the
height of the tree over its pieces. -/
theorem clog_layer {base length : Nat} (layered : v2BlockSize * 2 ^ base < length) :
    base < Nat.clog 2 (divCeil length v2BlockSize) ∧
      Nat.clog 2 (divCeil length (v2BlockSize * 2 ^ base)) =
        Nat.clog 2 (divCeil length v2BlockSize) - base := by
  have blockPositive : 0 < v2BlockSize := by decide
  have positive : 0 < v2BlockSize * 2 ^ base := Nat.mul_pos blockPositive (Nat.pow_pos (by decide))
  have regroup : ∀ exponent, 2 ^ exponent * (v2BlockSize * 2 ^ base) =
      2 ^ (exponent + base) * v2BlockSize := by
    intro exponent
    rw [Nat.pow_add, Nat.mul_comm v2BlockSize, Nat.mul_assoc]
  have whole : length ≤ 2 ^ Nat.clog 2 (divCeil length v2BlockSize) * v2BlockSize :=
    (divCeil_le_iff blockPositive).mp (Nat.le_pow_clog (by decide) _)
  have below : base < Nat.clog 2 (divCeil length v2BlockSize) := by
    by_contra flat
    have wide : 2 ^ Nat.clog 2 (divCeil length v2BlockSize) * v2BlockSize ≤
        2 ^ base * v2BlockSize :=
      Nat.mul_le_mul_right _ (Nat.pow_le_pow_right (by decide) (Nat.not_lt.mp flat))
    rw [Nat.mul_comm] at layered
    omega
  refine ⟨below, Nat.le_antisymm ?_ ?_⟩
  · refine Nat.clog_le_of_le_pow ((divCeil_le_iff positive).mpr ?_)
    rw [regroup, Nat.sub_add_cancel below.le]
    exact whole
  · have covered : length ≤
        2 ^ Nat.clog 2 (divCeil length (v2BlockSize * 2 ^ base)) * (v2BlockSize * 2 ^ base) :=
      (divCeil_le_iff positive).mp (Nat.le_pow_clog (by decide) _)
    rw [regroup] at covered
    have bounded := Nat.clog_le_of_le_pow ((divCeil_le_iff blockPositive).mpr covered)
    omega

theorem exists_base (power : pieceLength.isPowerOfTwo) (large : v2BlockSize ≤ pieceLength) :
    ∃ base, pieceLength = v2BlockSize * 2 ^ base := by
  have block : v2BlockSize = 2 ^ 14 := rfl
  obtain ⟨exponent, rfl⟩ := power
  rw [block, Nat.pow_le_pow_iff_right (by decide)] at large
  exact ⟨exponent - 14, by rw [block, ← Nat.pow_add, Nat.add_sub_cancel' large]⟩

theorem exists_treeShape {fileLength hashCount : Nat} (power : pieceLength.isPowerOfTwo)
    (large : v2BlockSize ≤ pieceLength) (layered : pieceLength < fileLength)
    (countable : layerCount fileLength pieceLength = .ok hashCount) :
    ∃ base height, TreeShape pieceLength fileLength hashCount base height := by
  have block : v2BlockSize = 2 ^ 14 := rfl
  obtain ⟨counted, few, bounded⟩ := layerCount_eq_ok (by omega) countable
  obtain ⟨base, rfl⟩ := exists_base power large
  obtain ⟨below, above⟩ := clog_layer layered
  have positive : 0 < v2BlockSize * 2 ^ base := Nat.mul_pos (by decide) (Nat.pow_pos (by decide))
  refine ⟨base, _, rfl, rfl, below, ?_, by omega, counted, ?_, ?_, few⟩
  · refine Nat.clog_le_of_le_pow ((divCeil_le_iff (by decide)).mpr ?_)
    omega
  · by_contra single
    have short : divCeil fileLength (v2BlockSize * 2 ^ base) ≤ 1 := by omega
    have fit := (divCeil_le_iff positive).mp short
    omega
  · rw [counted, ← above]
    exact Nat.le_pow_clog (by decide) _

namespace TreeShape
variable {fileLength hashCount base height : Nat}
variable (shape : TreeShape pieceLength fileLength hashCount base height)
include shape

theorem leafCount_pos : 0 < divCeil fileLength v2BlockSize := by
  by_contra empty
  have none : Nat.clog 2 (divCeil fileLength v2BlockSize) = 0 :=
    Nat.clog_of_right_le_one (by omega) 2
  have flat := shape.clog_eq
  have below := shape.below
  omega

theorem checkedNextPowerOfTwo_eq :
    checkedNextPowerOfTwo (divCeil fileLength v2BlockSize) = some (2 ^ height) := by
  have small := shape.small
  rw [checkedNextPowerOfTwo, nextPowerOfTwo, shape.clog_eq,
    if_pos (Nat.pow_lt_pow_right (by decide) (by omega))]

theorem paddedLeafCount_eq : paddedLeafCount fileLength = .ok (2 ^ height) := by
  have positive := shape.leafCount_pos
  rw [paddedLeafCount, checkedAdd_of_lt shape.fits]
  simp only [okOr, bind, Except.bind]
  rw [add_pred_div_eq_divCeil (by decide), Nat.max_eq_left positive, shape.checkedNextPowerOfTwo_eq]

theorem trailingZeros_height : trailingZeros 64 (2 ^ height) = height := by
  have small := shape.small
  exact trailingZeros_two_pow (by omega)

theorem blocks_div : pieceLength / v2BlockSize = 2 ^ base := by
  rw [shape.blocks, Nat.mul_div_cancel_left _ (by decide)]

theorem trailingZeros_base : trailingZeros 64 (pieceLength / v2BlockSize) = base := by
  have small := shape.small
  have below := shape.below
  rw [shape.blocks_div]
  exact trailingZeros_two_pow (by omega)

theorem checkedShr_eq : checkedShr (2 ^ height) base = some (2 ^ (height - base)) := by
  have small := shape.small
  have below := shape.below
  rw [checkedShr, if_pos (by omega), Nat.pow_div below.le (by decide)]

theorem width_le : 2 ^ (height - base) ≤ 2 ^ 50 :=
  Nat.pow_le_pow_right (by decide) ((Nat.sub_le _ _).trans shape.small)

theorem checkedSub_eq : checkedSub height (base + 1) = some (height - (base + 1)) :=
  if_pos shape.below

end TreeShape

variable {base height : Nat}

theorem v2PieceLayerShape_eq {requirement : V2PieceLayerRequirement Hash pieceLength}
    (shape : TreeShape pieceLength requirement.fileLength requirement.hashCount base height) :
    v2PieceLayerShape requirement = .ok (base, height - (base + 1), 2 ^ (height - base)) := by
  have positive : 0 < 2 ^ base := Nat.pow_pos (by decide)
  have power : pieceLength.isPowerOfTwo := ⟨14 + base, by rw [shape.blocks, Nat.pow_add]; rfl⟩
  have multiple : pieceLength % v2BlockSize = 0 := by rw [shape.blocks, Nat.mul_mod_right]
  have large : ¬pieceLength < v2BlockSize := by
    rw [shape.blocks]
    exact Nat.not_lt.mpr (Nat.le_mul_of_pos_right _ positive)
  have several := shape.several
  have covered := shape.covered
  rw [v2PieceLayerShape, if_neg (by simp [large, power, multiple]), shape.paddedLeafCount_eq,
    shape.trailingZeros_base]
  simp only [bind, Except.bind]
  rw [shape.trailingZeros_height, if_neg (Nat.not_le.mpr shape.below), shape.checkedShr_eq]
  simp only [okOr]
  rw [if_neg (by omega), shape.checkedSub_eq]

/-! ## One request -/

/-- A request for an aligned run of the base layer, with the proof up to the root. -/
structure FitsTree (base height : Nat) (request : Coordinates Hash) (exponent : Nat) : Prop where
  baseLayer : request.baseLayer = base
  proofLayers : request.proofLayers = height - (base + 1)
  length : request.length = 2 ^ exponent
  low : 1 ≤ exponent
  high : exponent ≤ 9
  aligned : request.index % 2 ^ exponent = 0
  inside : request.index + 2 ^ exponent ≤ 2 ^ (height - base)

/-- The length of a request is a power of two. It covers what remains or is the largest
one, and it is not larger than a layer that what remains fits in. -/
theorem v2HashRequestLength_eq (remaining : Nat) :
    ∃ exponent, v2HashRequestLength remaining = .ok (2 ^ exponent) ∧ 1 ≤ exponent ∧
      exponent ≤ 9 ∧ (remaining ≤ 2 ^ exponent ∨ exponent = 9) ∧
      ∀ bound, 1 ≤ bound → remaining ≤ 2 ^ bound → exponent ≤ bound := by
  by_cases long : remaining > maxMetadataHashRequestLength
  · refine ⟨9, if_pos long, by omega, Nat.le_refl 9, Or.inr rfl, ?_⟩
    intro bound _ reached
    have wide : 2 ^ 9 < 2 ^ bound := Nat.lt_of_lt_of_le long reached
    exact ((Nat.pow_lt_pow_iff_right (by decide)).mp wide).le
  · have short : remaining ≤ 2 ^ 9 := Nat.not_lt.mp long
    have small : Nat.clog 2 remaining ≤ 9 := Nat.clog_le_of_le_pow short
    have length : max (nextPowerOfTwo remaining) 2 = 2 ^ max (Nat.clog 2 remaining) 1 :=
      (Monotone.map_max (a := Nat.clog 2 remaining) (b := 1) (pow_right_mono₀ (a := 2) (by decide))).symm
    have fits : 2 ^ max (Nat.clog 2 remaining) 1 < 2 ^ 32 :=
      Nat.pow_lt_pow_right (by decide) (by omega)
    refine ⟨max (Nat.clog 2 remaining) 1, ?_, by omega, by omega, Or.inl ?_, ?_⟩
    · rw [v2HashRequestLength, if_neg long, length, toU32, if_pos fits]
      rfl
    · exact (Nat.le_pow_clog (by decide) remaining).trans
        (Nat.pow_le_pow_right (by decide) (Nat.le_max_left _ _))
    · intro bound positive reached
      exact Nat.max_le.mpr ⟨Nat.clog_le_of_le_pow reached, positive⟩

/-- A round whose cursor is at a multiple of the largest length has a request, and
the request fits the tree. -/
theorem requestAt_fits {cursor : Nat} {requirement : V2PieceLayerRequirement Hash pieceLength}
    (shape : TreeShape pieceLength requirement.fileLength requirement.hashCount base height)
    (more : cursor < requirement.hashCount) (multiple : cursor % maxMetadataHashRequestLength = 0) :
    ∃ request exponent,
      requestAt requirement (base, height - (base + 1), 2 ^ (height - base)) cursor = .ok request ∧
      request.piecesRoot = requirement.piecesRoot ∧ request.index = cursor ∧
      FitsTree base height request exponent ∧
      (requirement.hashCount - cursor ≤ 2 ^ exponent ∨ exponent = 9) := by
  obtain ⟨exponent, length, low, high, covers, limited⟩ :=
    v2HashRequestLength_eq (requirement.hashCount - cursor)
  have few : requirement.hashCount ≤ 16000000 := shape.few
  have covered := shape.covered
  have below := shape.below
  have divides : 2 ^ exponent ∣ 2 ^ 9 := Nat.pow_dvd_pow 2 high
  have aligned : cursor % 2 ^ exponent = 0 :=
    Nat.mod_eq_zero_of_dvd (divides.trans (Nat.dvd_of_mod_eq_zero multiple))
  have inside : cursor + 2 ^ exponent ≤ 2 ^ (height - base) := by
    by_cases wide : 9 ≤ height - base
    · obtain ⟨runs, whole⟩ : 2 ^ 9 ∣ 2 ^ (height - base) := Nat.pow_dvd_pow 2 wide
      have short : 2 ^ exponent ≤ 2 ^ 9 := Nat.pow_le_pow_right (by decide) high
      rw [maxMetadataHashRequestLength] at multiple
      omega
    · have narrow : 2 ^ (height - base) < 2 ^ 9 :=
        Nat.pow_lt_pow_right (by decide) (Nat.lt_of_not_le wide)
      have first : cursor = 0 := by
        rw [maxMetadataHashRequestLength] at multiple
        omega
      have fits : 2 ^ exponent ≤ 2 ^ (height - base) :=
        Nat.pow_le_pow_right (by decide) (limited _ (by omega) (by omega))
      omega
  refine ⟨⟨requirement.piecesRoot, base, cursor, 2 ^ exponent, height - (base + 1)⟩, exponent,
    ?_, rfl, rfl, ⟨rfl, rfl, rfl, low, high, aligned, inside⟩, covers⟩
  rw [requestAt, length]
  simp only [bind, Except.bind]
  rw [toU32, if_pos (by omega)]
  simp only [okOr]
  rw [if_neg (by omega)]

section FitsTree
variable {exponent : Nat} {request : Coordinates Hash}
  (fits : FitsTree base height request exponent)
include fits

theorem FitsTree.exponent_le : exponent ≤ height - base := by
  have inside := fits.inside
  exact (Nat.pow_le_pow_iff_right (by decide : 1 < 2)).mp (by omega)

theorem FitsTree.run_length : 2 ^ 1 ≤ 2 ^ exponent ∧ 2 ^ exponent ≤ 2 ^ 9 :=
  ⟨Nat.pow_le_pow_right (by decide) fits.low, Nat.pow_le_pow_right (by decide) fits.high⟩

end FitsTree

section Serving
variable {fileLength hashCount : Nat}
variable (shape : TreeShape pieceLength fileLength hashCount base height)
variable {request : Coordinates Hash} {exponent : Nat}
variable (fits : FitsTree base height request exponent)
include shape fits

theorem hashRequestBounds_eq :
    hashRequestBounds (divCeil fileLength v2BlockSize) request.baseLayer request.index
        request.length request.proofLayers =
      some (base, request.index, 2 ^ exponent, height - (base + 1)) := by
  have positive := shape.leafCount_pos
  have below := shape.below
  have small := shape.small
  have inside := fits.inside
  obtain ⟨two, most⟩ := fits.run_length
  have width := shape.width_le
  have power : (2 ^ exponent).isPowerOfTwo := ⟨exponent, rfl⟩
  have first : ¬(divCeil fileLength v2BlockSize = 0 ∨ 2 ^ exponent < 2 ∨
      ¬(2 ^ exponent).isPowerOfTwo ∨ request.index % 2 ^ exponent ≠ 0) := by
    rintro (empty | short | other | odd)
    · omega
    · omega
    · exact other power
    · exact odd fits.aligned
  have short : ¬2 ^ exponent > v2MaxHashRequestLength := Nat.not_lt.mpr most
  rw [hashRequestBounds, fits.baseLayer, fits.length, fits.proofLayers, if_neg first,
    if_neg short, shape.checkedNextPowerOfTwo_eq]
  simp only [bind_eq_bind, bind_some]
  rw [shape.trailingZeros_height, if_neg (by omega), shape.checkedShr_eq, bind_some,
    checkedAdd_of_lt (by omega), bind_some, if_neg (by omega),
    saturatingAdd_of_lt (by omega), if_neg (by omega)]

theorem checkCoordinates_eq : checkCoordinates request fileLength pieceLength = .ok () := by
  have below := shape.below
  have inside := fits.inside
  obtain ⟨two, most⟩ := fits.run_length
  have width := shape.width_le
  have first : ¬(2 ^ exponent < 2 ∨ ¬(2 ^ exponent).isPowerOfTwo ∨
      request.index % 2 ^ exponent ≠ 0 ∨ 2 ^ exponent > maxMetadataHashRequestLength) := by
    rintro (short | other | odd | long)
    · omega
    · exact other ⟨exponent, rfl⟩
    · exact odd fits.aligned
    · exact absurd most (Nat.not_le.mpr long)
  have power : (pieceLength / v2BlockSize).isPowerOfTwo := ⟨base, shape.blocks_div⟩
  rw [checkCoordinates, fits.baseLayer, fits.length, fits.proofLayers, if_neg first,
    if_neg (not_not.mpr power), shape.trailingZeros_base, if_neg (by simp),
    shape.paddedLeafCount_eq]
  simp only [bind, Except.bind]
  rw [shape.trailingZeros_height, shape.checkedShr_eq, checkedAdd_of_lt (by omega)]
  simp only [okOr]
  rw [if_neg (by omega), shape.checkedSub_eq]
  simp

end Serving

end TorrentNG.HashExchange
