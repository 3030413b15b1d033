import TorrentNG.HashExchange

/-!
# Piece layers and file roots

The piece layer of a file has the hash of every piece; its root is compared with the
root of the file where a layer is parsed or fetched. The two are roots of the same
tree cut at different levels. The file's tree is padded with zero leaves, so above the
last piece the layer of the tree continues with roots of zero subtrees. `merkle_root`
continues a piece layer with the zero hash itself.

The layers agree when nothing has to be added, and when a piece is a single block.
The main result says that these are the only cases in which an honest layer is
accepted whatever the hash function is.
-/

namespace TorrentNG.MerkleHash

open Chunks Fallible HashExchange List MachineArithmetic PerfectTree

variable {Hash : Type} (hasher : Hasher Hash)

/-- The hashes of the pieces of a file, the last of which may be shorter. -/
def pieceLayer (data : Bytes) (pieceLength : Nat) :
    Option (List Hash) :=
  (chunks pieceLength data).mapM fun piece => pieceLayerHash hasher piece pieceLength

/-- A list of a full width is its own padding. -/
theorem perfect_merkleRoot (leaves : List Hash) (height : Nat)
    (width : leaves.length = 2 ^ height) :
    Perfect hasher.hashPair height leaves (merkleRoot hasher leaves) := by
  have tree := merkleRoot_perfect hasher leaves
  have whole : padLeaves hasher leaves = leaves := by
    rw [padLeaves, width, nextPowerOfTwo_two_pow, Nat.sub_self]
    simp
  rwa [whole, width, Nat.clog_pow _ _ (by decide)] at tree

variable (base : Nat)

/-- The hash of a piece is the root over its blocks, padded with zero hashes to the
blocks of a whole piece. -/
theorem pieceLayerHash_perfect (piece : Bytes)
    (short : piece.length ≤ v2BlockSize * 2 ^ base) :
    ∃ hash, pieceLayerHash hasher piece (v2BlockSize * 2 ^ base) = some hash ∧
      (leafHashes hasher piece).length ≤ 2 ^ base ∧
      Perfect hasher.hashPair base (leafHashes hasher piece ++
        List.replicate (2 ^ base - (leafHashes hasher piece).length) hasher.zero) hash := by
  have positive : 0 < 2 ^ base := Nat.pow_pos (by decide)
  have power : (v2BlockSize * 2 ^ base).isPowerOfTwo := ⟨14 + base, by rw [Nat.pow_add]; rfl⟩
  have large : ¬v2BlockSize * 2 ^ base < v2BlockSize :=
    Nat.not_lt.mpr (Nat.le_mul_of_pos_right _ positive)
  have few : divCeil piece.length v2BlockSize ≤ 2 ^ base :=
    (divCeil_le_iff (by decide)).mpr (by rwa [Nat.mul_comm])
  have blocks : v2BlockSize * 2 ^ base / v2BlockSize = 2 ^ base :=
    Nat.mul_div_cancel_left _ (by decide)
  have width : max (2 ^ base) (max (divCeil piece.length v2BlockSize) 1) = 2 ^ base := by omega
  rw [← length_leafHashes hasher piece] at few
  have filled : resize (leafHashes hasher piece) (2 ^ base) hasher.zero = leafHashes hasher piece ++
        List.replicate (2 ^ base - (leafHashes hasher piece).length) hasher.zero := by
    rw [resize, take_of_length_le few]
  have tree := perfect_merkleRoot hasher (resize (leafHashes hasher piece) (2 ^ base) hasher.zero)
    base (by rw [filled, length_append, length_replicate]; omega)
  refine ⟨merkleRoot hasher (resize (leafHashes hasher piece) (2 ^ base) hasher.zero), ?_, few, ?_⟩
  · rw [pieceLayerHash, if_neg (by simp [large, power, short])]
    simp only [blocks, width, leafHashes]
  · rwa [← filled]

/-- The piece layer is a level of the file's tree, with zero leaves up to a whole
number of pieces. -/
theorem pieceLayer_level (data : Bytes) :
    ∃ layer padding, pieceLayer hasher data (v2BlockSize * 2 ^ base) = some layer ∧
      layer.length = divCeil data.length (v2BlockSize * 2 ^ base) ∧
      (leafHashes hasher data).length + padding = layer.length * 2 ^ base ∧
      level hasher.hashPair base (leafHashes hasher data ++ List.replicate padding hasher.zero) =
        layer := by
  have positive : 0 < v2BlockSize * 2 ^ base := Nat.mul_pos (by decide) (Nat.pow_pos (by decide))
  induction data using slice_induction positive with
  | empty =>
    refine ⟨[], 0, rfl, by simp [divCeil], by simp [leafHashes], ?_⟩
    rw [← length_eq_zero_iff, length_level]
    simp [leafHashes]
  | step data nonempty ih =>
    obtain ⟨layer, padding, collected, length, width, levels⟩ := ih
    obtain ⟨hash, hashed, few, tree⟩ := pieceLayerHash_perfect hasher base
      (data.take (v2BlockSize * 2 ^ base)) (by rw [length_take]; omega)
    have chunked := chunks_step positive nonempty
    have pieces : pieceLayer hasher data (v2BlockSize * 2 ^ base) = some (hash :: layer) := by
      rw [pieceLayer, chunked, mapM_cons, hashed]
      rw [pieceLayer] at collected
      rw [collected]
      rfl
    have count : (hash :: layer).length = divCeil data.length (v2BlockSize * 2 ^ base) := by
      rw [← length_chunks positive, chunked, length_cons, length_cons, length,
        length_chunks positive]
    by_cases short : data.length ≤ v2BlockSize * 2 ^ base
    · have last : layer = [] := by
        rw [drop_of_length_le short] at collected
        exact (Option.some.inj collected).symm
      rw [take_of_length_le short] at few tree
      subst last
      refine ⟨[hash], 2 ^ base - (leafHashes hasher data).length, pieces, count, ?_, tree.top⟩
      rw [length_singleton, Nat.one_mul]
      omega
    · have full : (data.take (v2BlockSize * 2 ^ base)).length = 2 ^ base * v2BlockSize := by
        rw [length_take, Nat.min_eq_left (Nat.le_of_not_le short), Nat.mul_comm]
      have split : leafHashes hasher data =
          leafHashes hasher (data.take (v2BlockSize * 2 ^ base)) ++
            leafHashes hasher (data.drop (v2BlockSize * 2 ^ base)) := by
        rw [leafHashes, leafHashes, leafHashes, ← map_append,
          ← chunks_append (by decide) _ _ full, take_append_drop]
      have whole : (leafHashes hasher (data.take (v2BlockSize * 2 ^ base))).length = 2 ^ base := by
        rw [length_leafHashes, full, divCeil_eq_iff (by decide)]
        exact ⟨Nat.le_refl _, Nat.lt_add_of_pos_right (by decide)⟩
      rw [whole, Nat.sub_self, replicate_zero, append_nil] at tree
      refine ⟨hash :: layer, padding, pieces, count, ?_, ?_⟩
      · rw [split, length_append, whole, length_cons, Nat.succ_mul]
        omega
      · rw [split, append_assoc,
          level_append hasher.hashPair base 1 _ _ (by rw [whole, Nat.one_mul]), tree.top, levels]
        rfl

theorem length_pieceLayer {hasher : Hasher Hash} (data : Bytes)
    {layer : List Hash} (collected : pieceLayer hasher data (v2BlockSize * 2 ^ base) = some layer) :
    layer.length = divCeil data.length (v2BlockSize * 2 ^ base) := by
  obtain ⟨found, _, same, length, _⟩ := pieceLayer_level hasher base data
  obtain rfl := Option.mem_unique collected same
  exact length

section

variable (hasher : Hasher Hash) (base : Nat) (data : Bytes)
  (layered : v2BlockSize * 2 ^ base < data.length) (layer : List Hash)
  (collected : pieceLayer hasher data (v2BlockSize * 2 ^ base) = some layer)

include layered collected

/-- The level of the file's tree at the height of a piece: the piece layer, continued
with roots of zero subtrees. -/
theorem level_padLeaves : level hasher.hashPair base (padLeaves hasher (leafHashes hasher data)) =
      layer ++ List.replicate (2 ^ Nat.clog 2 layer.length - layer.length)
        (uniform hasher.hashPair hasher.zero base) := by
  obtain ⟨found, padding, same, length, width, levels⟩ := pieceLayer_level hasher base data
  obtain rfl := Option.mem_unique collected same
  obtain ⟨below, above⟩ := clog_layer layered
  have reached : layer.length ≤ 2 ^ Nat.clog 2 layer.length := Nat.le_pow_clog (by decide) _
  have total : 2 ^ Nat.clog 2 (leafHashes hasher data).length =
      2 ^ Nat.clog 2 layer.length * 2 ^ base := by
    rw [← Nat.pow_add, length_leafHashes, length, above, Nat.sub_add_cancel below.le]
  have remaining : nextPowerOfTwo (leafHashes hasher data).length -
      (leafHashes hasher data).length =
        padding + (2 ^ Nat.clog 2 layer.length - layer.length) * 2 ^ base := by
    have fits : layer.length * 2 ^ base ≤ 2 ^ Nat.clog 2 layer.length * 2 ^ base :=
      Nat.mul_le_mul_right _ reached
    rw [nextPowerOfTwo, total, Nat.sub_mul]
    omega
  rw [padLeaves, remaining, ← replicate_append_replicate, ← append_assoc,
    level_append hasher.hashPair base layer.length _ _
      (by rw [length_append, length_replicate, width]), levels, level_replicate]

/-- The root of the file is the root over the piece layer continued that way. -/
theorem merkleRoot_leafHashes : Perfect hasher.hashPair (Nat.clog 2 layer.length)
      (layer ++ List.replicate (2 ^ Nat.clog 2 layer.length - layer.length)
        (uniform hasher.hashPair hasher.zero base))
      (merkleRoot hasher (leafHashes hasher data)) := by
  have tree := merkleRoot_perfect hasher (leafHashes hasher data)
  obtain ⟨below, above⟩ := clog_layer layered
  rw [← length_leafHashes hasher] at below above
  rw [← Nat.add_sub_cancel' below.le, ← above] at tree
  rw [← level_padLeaves hasher base data layered layer collected,
    length_pieceLayer base data collected]
  exact tree.level

/-- The two roots are the same when nothing is added to the layer, and when what is
added is the zero hash itself. -/
theorem merkleRoot_pieceLayer (agrees : base = 0 ∨ layer.length.isPowerOfTwo) :
    merkleRoot hasher layer = merkleRoot hasher (leafHashes hasher data) := by
  have tree := merkleRoot_leafHashes hasher base data layered layer collected
  have layerTree := merkleRoot_perfect hasher layer
  refine layerTree.functional ?_
  rcases agrees with rfl | ⟨exponent, width⟩
  · exact tree
  · have full : 2 ^ Nat.clog 2 layer.length - layer.length = 0 := by
      rw [width, Nat.clog_pow _ _ (by decide), Nat.sub_self]
    have same : nextPowerOfTwo layer.length - layer.length = 0 := full
    rw [full, replicate_zero] at tree
    rwa [padLeaves, same, replicate_zero]

end

/-! ## A hash function that tells the paddings apart -/

/-- A measure that grows by one at every level along the last leaf. -/
theorem measure_root {pair : Hash → Hash → Hash} {measure : Hash → UInt8}
    (grows : ∀ left right, measure (pair left right) = measure right + 1)
    {height : Nat} {leaves : List Hash} {root last : Hash}
    (tree : Perfect pair height leaves root) (ends : leaves.getLast? = some last) :
    measure root = measure last + UInt8.ofNat height := by
  induction tree with
  | leaf value =>
    obtain rfl := Option.some.inj ends
    simp
  | node height left right leftRoot rightRoot leftTree rightTree _ ih =>
    have nonempty : right ≠ [] := by
      rintro rfl
      exact (Nat.pow_pos (by decide)).ne rightTree.length
    rw [getLast?_append_of_ne_nil _ nonempty] at ends
    rw [grows, ih ends, UInt8.ofNat_add, UInt8.add_assoc]
    rfl

/-- Under such a measure a piece of several blocks and a layer that has to be filled
give different roots: the file's tree ends with a subtree of zero leaves, the tree
over the layer with one zero hash. -/
theorem measure_roots {hasher : Hasher Hash} {measure : Hash → UInt8}
    (grows : ∀ left right, measure (hasher.hashPair left right) = measure right + 1)
    {base : Nat} {data : Bytes} (layered : v2BlockSize * 2 ^ base < data.length)
    {layer : List Hash} (collected : pieceLayer hasher data (v2BlockSize * 2 ^ base) = some layer)
    (filled : ¬layer.length.isPowerOfTwo) : measure (merkleRoot hasher layer) =
        measure hasher.zero + UInt8.ofNat (Nat.clog 2 layer.length) ∧
      measure (merkleRoot hasher (leafHashes hasher data)) =
        measure hasher.zero + UInt8.ofNat base + UInt8.ofNat (Nat.clog 2 layer.length) := by
  have missing : 2 ^ Nat.clog 2 layer.length - layer.length ≠ 0 := by
    intro full
    have reached : layer.length ≤ 2 ^ Nat.clog 2 layer.length := Nat.le_pow_clog (by decide) _
    exact filled ⟨Nat.clog 2 layer.length, by omega⟩
  have ends : ∀ value : Hash, (layer ++ List.replicate
      (2 ^ Nat.clog 2 layer.length - layer.length) value).getLast? = some value := by
    intro value
    rw [getLast?_append_of_ne_nil _ (by simp [missing]), getLast?_replicate, if_neg missing]
  have zeroSubtree : measure (uniform hasher.hashPair hasher.zero base) =
      measure hasher.zero + UInt8.ofNat base :=
    measure_root grows (perfect_replicate hasher.hashPair hasher.zero base)
      (by simp [getLast?_replicate])
  refine ⟨measure_root grows (merkleRoot_perfect hasher layer) (ends _), ?_⟩
  rw [← zeroSubtree]
  exact measure_root grows (merkleRoot_leafHashes hasher base data layered layer collected) (ends _)

end TorrentNG.MerkleHash

namespace TorrentNG.Metainfo

open Bencode Chunks Fallible HashExchange MachineArithmetic MerkleHash SafePath Utf8

/-- A digest that is zero but for its last byte. -/
def countDigest (count : UInt8) : Digest 32 :=
  ⟨List.replicate 31 0 ++ [count], by simp⟩

/-- A stand-in for SHA-256: 64 bytes are hashed to their last byte and one more,
everything else to zero. It counts the levels above the last leaf of a tree. -/
def countingEnvironment : Environment where
  sha1 _ := zeros 20
  sha256 content := countDigest (if content.length = 64 then content.getLastD 0 + 1 else 0)
  estimateProjection _ _ _ _ := 0

def lastByte (digest : Digest 32) : UInt8 := digest.val.getLastD 0

theorem lastByte_hashPair (left right : Digest 32) :
    lastByte (countingEnvironment.hasher.hashPair left right) = lastByte right + 1 := by
  have nonempty : right.val ≠ [] := by
    intro empty
    have size := right.property
    rw [empty] at size
    cases size
  have width : (left.val ++ right.val).length = 64 := by
    rw [List.length_append, left.property, right.property]
  have last : (left.val ++ right.val).getLastD 0 = right.val.getLastD 0 := by
    rw [List.getLastD_eq_getLast?, List.getLastD_eq_getLast?,
      List.getLast?_append_of_ne_nil _ nonempty]
  simp only [lastByte, Environment.hasher, countingEnvironment, countDigest, width, if_true, last]
  rw [List.getLastD_concat]

/-! ## Acceptance -/

theorem layerCount_eq (length pieceLength : Nat) (positive : 0 < pieceLength)
    (fits : length + (pieceLength - 1) < 2 ^ 64) :
    layerCount length pieceLength =
      if divCeil length pieceLength > maxPieces then .error (.limitExceeded "piece layers" maxPieces)
      else .ok (divCeil length pieceLength) := by
  rw [layerCount, checkedAdd_of_lt fits]
  simp only [okOr, bind, Except.bind]
  rw [add_pred_div_eq_divCeil positive]

/-- A torrent with one layered file, perhaps several times, among files of one piece. -/
structure OneLayered (files : List TorrentFileV2) (length pieceLength : Nat) (root : Digest 32) :
    Prop where
  listed : ∃ file ∈ files, pieceLength < file.length
  same : ∀ file ∈ files, pieceLength < file.length →
    file.length = length ∧ file.piecesRoot = some root

variable (root : Digest 32) (layer : List (Digest 32))

/-- Its `piece layers` dictionary: the hashes of the layer, one after another. -/
def layerEntries : BValue :=
  .dict [(root.val, .bytes (layer.flatMap Subtype.val))]

section Parsing
variable {length pieceLength : Nat} {root : Digest 32} {layer : List (Digest 32)}
  {files : List TorrentFileV2}

/-- The file is required once, however often it is listed. -/
theorem collectRequired_eq (counted : layerCount length pieceLength = .ok layer.length)
    (same : ∀ file ∈ files, pieceLength < file.length →
      file.length = length ∧ file.piecesRoot = some root) {entries : List (Digest 32 × (Nat × Nat))}
    (found : entries = [(root, (length, layer.length))] ∨
      entries = [] ∧ ∃ file ∈ files, pieceLength < file.length) :
    collectRequired pieceLength files entries = .ok [(root, (length, layer.length))] := by
  induction files generalizing entries with
  | nil =>
    obtain rfl | ⟨-, file, member, -⟩ := found
    · rfl
    · cases member
  | cons file rest ih =>
    obtain ⟨here, others⟩ := List.forall_mem_cons.mp same
    rw [collectRequired]
    split_ifs with flat
    · refine ih others (found.imp_right (And.imp_right ?_))
      simp [Nat.not_lt.mpr flat]
    · obtain ⟨rfl, rooted⟩ := here (Nat.lt_of_not_le flat)
      simp only [rooted, okOr, counted, bind, Except.bind]
      obtain rfl | ⟨rfl, -⟩ := found
      · simpa [insertEntry] using ih others (.inl rfl)
      · simpa [insertEntry] using ih others (.inl rfl)

theorem parseLayer_eq (environment : Environment) :
    parseLayer environment [(root, (length, layer.length))] root.val
        (.bytes (layer.flatMap Subtype.val)) =
      if merkleRoot environment.hasher layer = root then .ok (root, layer)
      else .error .pieceLayerRootMismatch := by
  have found : lookupEntry (⟨root.val, root.property⟩ : Digest 32)
      [(root, (length, layer.length))] = some (length, layer.length) := by
    simp [lookupEntry]
  have whole : (layer.flatMap Subtype.val).length / 32 = layer.length := by
    rw [length_flatMap_digests, Nat.mul_div_cancel _ (by decide)]
  have multiple : ¬(layer.flatMap Subtype.val).length % 32 ≠ 0 := by
    rw [length_flatMap_digests, Nat.mul_mod_left]
    simp
  rw [parseLayer, dif_pos root.property, found]
  simp only [BValue.asBytes, okOr, bind, Except.bind]
  rw [if_neg multiple, whole, if_neg (by simp), splitDigests_flatMap, ite_not]

/-- Parsing accepts the layer exactly when it hashes to the root. -/
theorem parsePieceLayers_eq (environment : Environment)
    (counted : layerCount length pieceLength = .ok layer.length)
    (layered : OneLayered files length pieceLength root) {torrent : BValue}
    (placed : torrent.get (ascii "piece layers") = some (layerEntries root layer)) :
    parsePieceLayers environment torrent files pieceLength =
      if merkleRoot environment.hasher layer = root then .ok [(root, layer)]
      else .error .pieceLayerRootMismatch := by
  rw [parsePieceLayers, collectRequired_eq counted layered.same (.inr ⟨rfl, layered.listed⟩), placed,
    layerEntries]
  simp only [bind, Except.bind, collectLayers, parseLayer_eq]
  split_ifs with agrees
  · simp [insertEntry]
  · rfl

end Parsing

/-- An honest peer delivers the layer, and it is kept exactly when it hashes to the root. -/
theorem fetchV2PieceLayer_eq {Hash : Type} [DecidableEq Hash] {hasher : Hasher Hash} {base : Nat}
    {data : Bytes} {layer : List Hash}
    (collected : pieceLayer hasher data (v2BlockSize * 2 ^ base) = some layer)
    (requirement : V2PieceLayerRequirement Hash (v2BlockSize * 2 ^ base))
    (sized : requirement.fileLength = data.length)
    (rooted : requirement.piecesRoot = merkleRoot hasher (leafHashes hasher data))
    {peer : Peer Hash} (honest : Honest hasher (leafHashes hasher data) peer) :
    (fetchV2PieceLayer hasher peer requirement).outcome =
      if merkleRoot hasher layer = requirement.piecesRoot then .ok layer
      else .error .rootMismatch := by
  have power : (v2BlockSize * 2 ^ base).isPowerOfTwo := ⟨14 + base, by rw [Nat.pow_add]; rfl⟩
  obtain ⟨other, height, shape⟩ := exists_treeShape power
    (Nat.le_mul_of_pos_right _ (Nat.pow_pos (by decide))) requirement.layered requirement.counted
  obtain rfl : base = other := by
    have same := Nat.eq_of_mul_eq_mul_left (by decide : 0 < v2BlockSize) shape.blocks
    exact Nat.pow_right_injective (by decide) same
  have count : requirement.hashCount = layer.length := by
    rw [length_pieceLayer base data collected, shape.counted, sized]
  have delivered := collectLayer_honest hasher peer requirement shape (leafHashes hasher data)
    (by rw [length_leafHashes, sized]) rooted honest
  rw [level_padLeaves hasher base data (sized ▸ requirement.layered) layer collected, count,
    List.take_left] at delivered
  rw [fetchV2PieceLayer, delivered]
  simp only [bind, Except.bind, count, ne_eq, not_true, false_or, ite_not]

/-! ## When honest layers are accepted -/

/-- The pieces of the data hash to a layer whose root is the accumulator's root over the
blocks of the data. -/
def LayerReconstructs (environment : Environment) (data : Bytes) (pieceLength : Nat) : Prop :=
  ∃ layer root, pieceLayer environment.hasher data pieceLength = some layer ∧
    MerkleAccumulator.rootOf environment.hasher (leafHashes environment.hasher data) = some root ∧
    merkleRoot environment.hasher layer = root

/-- The layer of the data is accepted from a torrent that has it, and from a peer that
serves the data. -/
def LayerAccepted (environment : Environment) (data : Bytes) (pieceLength : Nat) : Prop :=
  ∃ layer root, pieceLayer environment.hasher data pieceLength = some layer ∧
    MerkleAccumulator.rootOf environment.hasher (leafHashes environment.hasher data) = some root ∧
    (∀ files torrent, OneLayered files data.length pieceLength root →
      torrent.get (ascii "piece layers") = some (layerEntries root layer) →
      parsePieceLayers environment torrent files pieceLength = .ok [(root, layer)]) ∧
    ∀ (requirement : V2PieceLayerRequirement (Digest 32) pieceLength) (peer : Peer (Digest 32)),
      requirement.fileLength = data.length → requirement.piecesRoot = root →
      Honest environment.hasher (leafHashes environment.hasher data) peer →
      (fetchV2PieceLayer environment.hasher peer requirement).outcome = .ok layer

/-- A torrent of one file. -/
def singleFile (length : Nat) (root : Digest 32) : TorrentFileV2 :=
  ⟨0, length, .sample, 0, 0, some root, false⟩

theorem oneLayered_single {length pieceLength : Nat}
    (layered : pieceLength < length) :
    OneLayered [singleFile length root] length pieceLength root := by
  refine ⟨⟨singleFile length root, List.mem_singleton_self _, layered⟩, ?_⟩
  intro file member _
  obtain rfl := List.mem_singleton.mp member
  exact ⟨rfl, rfl⟩

def singleTorrent : BValue :=
  .dict [(ascii "piece layers", layerEntries root layer)]

theorem get_singleTorrent :
    (singleTorrent root layer).get (ascii "piece layers") = some (layerEntries root layer) := by
  simp [singleTorrent, BValue.get]

section Conditions
variable (base : Nat) (data : Bytes)

theorem rootOf_leafHashes {Hash : Type} (hasher : Hasher Hash) (addressable : data.length < 2 ^ 63) :
    MerkleAccumulator.rootOf hasher (leafHashes hasher data) =
      some (merkleRoot hasher (leafHashes hasher data)) := by
  refine MerkleAccumulator.rootOf_eq hasher ?_
  rw [length_leafHashes, divCeil_le_iff (by decide)]
  exact addressable.le.trans (Nat.le_mul_of_pos_right _ (by decide))

variable (layered : v2BlockSize * 2 ^ base < data.length) (addressable : data.length < 2 ^ 63)
include layered addressable

theorem layerReconstructs_of (environment : Environment)
    (agrees : base = 0 ∨ (divCeil data.length (v2BlockSize * 2 ^ base)).isPowerOfTwo) :
    LayerReconstructs environment data (v2BlockSize * 2 ^ base) := by
  obtain ⟨layer, _, collected, length, _⟩ := pieceLayer_level environment.hasher base data
  exact ⟨layer, _, collected, rootOf_leafHashes data _ addressable,
    merkleRoot_pieceLayer _ base data layered layer collected (by rwa [length])⟩

theorem layerAccepted_of {environment : Environment}
    (few : divCeil data.length (v2BlockSize * 2 ^ base) ≤ maxPieces)
    (reconstructs : LayerReconstructs environment data (v2BlockSize * 2 ^ base)) :
    LayerAccepted environment data (v2BlockSize * 2 ^ base) := by
  obtain ⟨layer, root, collected, computed, same⟩ := reconstructs
  obtain rfl : merkleRoot environment.hasher (leafHashes environment.hasher data) = root :=
    Option.some.inj ((rootOf_leafHashes data _ addressable).symm.trans computed)
  have counted : layerCount data.length (v2BlockSize * 2 ^ base) = .ok layer.length := by
    rw [layerCount_eq _ _ (Nat.mul_pos (by decide) (Nat.pow_pos (by decide))) (by omega),
      if_neg (by omega), length_pieceLayer base data collected]
  refine ⟨layer, _, collected, computed, ?_, ?_⟩
  · intro files torrent oneLayered placed
    rw [parsePieceLayers_eq environment counted oneLayered placed, if_pos same]
  · intro requirement peer sized rooted honest
    rw [fetchV2PieceLayer_eq collected requirement sized rooted honest,
      if_pos (same.trans rooted.symm)]

/-- An accepted layer has the root it was compared with, and is not too long. -/
theorem reconstructs_of_accepted {environment : Environment}
    (accepted : LayerAccepted environment data (v2BlockSize * 2 ^ base)) :
    LayerReconstructs environment data (v2BlockSize * 2 ^ base) ∧
      divCeil data.length (v2BlockSize * 2 ^ base) ≤ maxPieces := by
  obtain ⟨layer, root, collected, computed, parses, _⟩ := accepted
  have parsed := parses _ _ (oneLayered_single root layered) (get_singleTorrent root layer)
  have count := layerCount_eq data.length (v2BlockSize * 2 ^ base)
    (Nat.mul_pos (by decide) (Nat.pow_pos (by decide))) (by omega)
  split_ifs at count with many
  · have long : ¬(singleFile data.length root).length ≤ v2BlockSize * 2 ^ base :=
      Nat.not_le.mpr layered
    rw [parsePieceLayers, collectRequired, if_neg long] at parsed
    simp only [singleFile, okOr, count, bind, Except.bind] at parsed
    cases parsed
  · rw [← length_pieceLayer base data collected] at count many
    rw [parsePieceLayers_eq environment count (oneLayered_single _ layered)
      (get_singleTorrent root layer)] at parsed
    split_ifs at parsed with same
    rw [← length_pieceLayer base data collected]
    exact ⟨⟨layer, root, collected, computed, same⟩, Nat.not_lt.mp many⟩

/-- The counting hash function rejects every layer whose paddings differ. -/
theorem not_layerReconstructs (several : base ≠ 0)
    (filled : ¬(divCeil data.length (v2BlockSize * 2 ^ base)).isPowerOfTwo) :
    ¬LayerReconstructs countingEnvironment data (v2BlockSize * 2 ^ base) := by
  rintro ⟨layer, root, collected, computed, same⟩
  obtain rfl : merkleRoot countingEnvironment.hasher
      (leafHashes countingEnvironment.hasher data) = root :=
    Option.some.inj ((rootOf_leafHashes data _ addressable).symm.trans computed)
  rw [← length_pieceLayer base data collected] at filled
  obtain ⟨layerLast, fileLast⟩ := measure_roots lastByte_hashPair layered collected filled
  have zero : lastByte countingEnvironment.hasher.zero = 0 := rfl
  rw [← same, layerLast, zero, UInt8.zero_add, UInt8.zero_add] at fileLast
  have small : base < 256 := by
    have wide : 2 ^ base < 2 ^ 256 := by
      have shrink : 2 ^ base ≤ v2BlockSize * 2 ^ base := Nat.le_mul_of_pos_left _ (by decide)
      omega
    exact (Nat.pow_lt_pow_iff_right (by decide)).mp wide
  have none : UInt8.ofNat base = 0 := by
    simpa using fileLast
  have value := congrArg UInt8.toNat none
  rw [UInt8.toNat_ofNat_of_lt' small] at value
  exact several value

end Conditions

/-- For which lengths the honest piece layer of a file fits its root, whatever SHA-256
computes: the pieces are single blocks, or their number is a power of two. Layers are
accepted by the parser and by the hash exchange for the same lengths, as long as the
pieces are not too many. -/
theorem piece_layer_accepted_iff (pieceLength length : Nat) (power : pieceLength.isPowerOfTwo)
    (large : v2BlockSize ≤ pieceLength) (layered : pieceLength < length)
    (addressable : length < 2 ^ 63) :
    ((∀ environment data, data.length = length → LayerReconstructs environment data pieceLength) ↔
      pieceLength = v2BlockSize ∨ (divCeil length pieceLength).isPowerOfTwo) ∧
    ((∀ environment data, data.length = length → LayerAccepted environment data pieceLength) ↔
      (pieceLength = v2BlockSize ∨ (divCeil length pieceLength).isPowerOfTwo) ∧
        divCeil length pieceLength ≤ maxPieces) := by
  obtain ⟨base, rfl⟩ := exists_base power large
  have single : v2BlockSize * 2 ^ base = v2BlockSize ↔ base = 0 := by
    constructor
    · intro same
      have unit := Nat.eq_of_mul_eq_mul_left (by decide : 0 < v2BlockSize)
        (same.trans (Nat.mul_one _).symm)
      simpa using unit
    · rintro rfl
      simp
  have zeros : ∃ data : Bytes, data.length = length :=
    ⟨List.replicate length 0, List.length_replicate⟩
  have reconstructs : (∀ environment data, data.length = length →
      LayerReconstructs environment data (v2BlockSize * 2 ^ base)) ↔
        v2BlockSize * 2 ^ base = v2BlockSize ∨
          (divCeil length (v2BlockSize * 2 ^ base)).isPowerOfTwo := by
    rw [single]
    constructor
    · intro always
      by_contra differ
      obtain ⟨several, filled⟩ := not_or.mp differ
      obtain ⟨data, rfl⟩ := zeros
      exact not_layerReconstructs base data layered addressable several filled
        (always countingEnvironment data rfl)
    · rintro agrees environment data rfl
      exact layerReconstructs_of base data layered addressable environment agrees
  refine ⟨reconstructs, ?_⟩
  rw [← reconstructs]
  constructor
  · intro always
    refine ⟨fun environment data sized => ?_, ?_⟩
    · subst sized
      exact (reconstructs_of_accepted base data layered addressable (always environment data rfl)).1
    · obtain ⟨data, rfl⟩ := zeros
      exact (reconstructs_of_accepted base data layered addressable
        (always countingEnvironment data rfl)).2
  · rintro ⟨always, few⟩ environment data rfl
    exact layerAccepted_of base data layered addressable few (always environment data rfl)

theorem piece_layer_accepted_iff_blocks : (v2BlockSize < 40000 ∧ 40000 < 2 ^ 63) ∧
    ∀ environment data, data.length = 40000 → LayerAccepted environment data v2BlockSize :=
  ⟨by decide, (piece_layer_accepted_iff v2BlockSize 40000 ⟨14, rfl⟩ (by decide) (by decide)
    (by decide)).2.mpr ⟨Or.inl rfl, by decide⟩⟩

/-- A file of three pieces of two blocks, the last of which has one byte. -/
def threePieces : Bytes := List.replicate 65537 0

def threePiecesRequirement : V2PieceLayerRequirement (Digest 32) 32768 :=
  ⟨root, 65537, 3, by decide, by decide⟩

/-- Its five blocks make a tree of height three. The layer of its three pieces is
filled up with a zero hash and has height two, where the tree of the file has the
hash of two zero leaves. -/
theorem three_pieces_rejected : ∃ layer root,
    pieceLayer countingEnvironment.hasher threePieces 32768 = some layer ∧
    MerkleAccumulator.rootOf countingEnvironment.hasher
      (leafHashes countingEnvironment.hasher threePieces) = some root ∧
    layer.length = 3 ∧ lastByte (merkleRoot countingEnvironment.hasher layer) = 2 ∧
    lastByte root = 3 ∧
    parsePieceLayers countingEnvironment (singleTorrent root layer) [singleFile 65537 root] 32768 =
      .error .pieceLayerRootMismatch ∧
    (fetchV2PieceLayer countingEnvironment.hasher
      (servingPeer countingEnvironment.hasher (leafHashes countingEnvironment.hasher threePieces))
      (threePiecesRequirement root)).outcome = .error .rootMismatch := by
  have sized : threePieces.length = 65537 := List.length_replicate
  -- Only the length matters from here on.
  generalize threePieces = data at sized ⊢
  have layered : v2BlockSize * 2 ^ 1 < data.length := by
    rw [sized]
    decide
  obtain ⟨layer, _, collected, length, _⟩ := pieceLayer_level countingEnvironment.hasher 1 data
  have three : layer.length = 3 := by
    rw [length, sized]
    decide
  have filled : ¬layer.length.isPowerOfTwo := by
    rw [three]
    decide
  obtain ⟨layerLast, fileLast⟩ := measure_roots lastByte_hashPair layered collected filled
  have height : Nat.clog 2 layer.length = 2 := by
    rw [three]
    decide
  rw [height] at layerLast fileLast
  have differ : merkleRoot countingEnvironment.hasher layer ≠
      merkleRoot countingEnvironment.hasher (leafHashes countingEnvironment.hasher data) := by
    intro same
    rw [← same, layerLast] at fileLast
    exact absurd fileLast (by decide)
  have counted : layerCount 65537 32768 = .ok layer.length := by
    rw [three]
    decide
  refine ⟨layer, _, collected, rootOf_leafHashes data _ (by rw [sized]; decide), three,
    layerLast, fileLast, ?_, ?_⟩
  · rw [parsePieceLayers_eq countingEnvironment counted (oneLayered_single _ (by decide))
      (get_singleTorrent _ layer), if_neg differ]
  · let root := merkleRoot countingEnvironment.hasher (leafHashes countingEnvironment.hasher data)
    have outcome := fetchV2PieceLayer_eq collected
      (threePiecesRequirement root) sized.symm rfl (servingPeer_honest _ _)
    exact outcome.trans (if_neg differ)

end TorrentNG.Metainfo
