import TorrentNG.Chunks
import TorrentNG.SubtreeCounter

/-!
# The v2 hash primitives of `rt-hash`

Block hashes, Merkle roots and layers over padded leaf lists, piece-layer hashes
and the incremental accumulator, as `crates/rt-hash/src/lib.rs` computes them. The
crate uses SHA-256 only through the hash of a block and the hash of two child
hashes; both are parameters here, together with the all-zero hash that pads a
tree, and no property of either is assumed.

An accumulator operation that would panic (a leaf count or a target outside
`usize`, a carry past the last level) returns `none`. The main results state when
the three ways of computing a root agree.
-/

namespace TorrentNG.MerkleHash

open List MachineArithmetic Chunks PerfectTree

variable {Hash : Type}

/-- What the crate takes from SHA-256: `[0u8; 32]`, `BlockHash::of` and `hash_pair`. -/
structure Hasher (Hash : Type) where
  zero : Hash
  blockHash : List UInt8 → Hash
  hashPair : Hash → Hash → Hash

/-- BEP 52 hashes file data in 16 KiB blocks. -/
def v2BlockSize : Nat := 16 * 1024

/-- `usize::BITS + 1` levels. -/
def merkleMaxLevels : Nat := 64 + 1

/-- `Vec::resize`: cut or fill to the given length. -/
def resize (items : List Hash) (length : Nat) (value : Hash) : List Hash :=
  items.take length ++ List.replicate (length - items.length) value

variable (hasher : Hasher Hash) (leaves : List Hash)

/-- Leaves followed by zero hashes up to the next power of two. -/
def padLeaves : List Hash :=
  leaves ++ List.replicate (nextPowerOfTwo leaves.length - leaves.length) hasher.zero

/-- `while level.len() > 1`, replacing the level by its pairwise hashes. A level
shrinks in every round, so its length is fuel enough. -/
def collapse (hasher : Hasher Hash) : Nat → List Hash → List Hash
  | 0, level => level
  | fuel + 1, level =>
      if 1 < level.length then collapse hasher fuel (pairUp hasher.hashPair level) else level

/-- Root over the padded leaves; the zero hash for no leaves at all. -/
def merkleRoot : Hash :=
  if leaves.isEmpty then hasher.zero
  else
    let level := padLeaves hasher leaves
    (collapse hasher level.length level).headD hasher.zero

/-- Push pairwise levels while the last one has more than one node. -/
def layersFrom (hasher : Hasher Hash) : Nat → List Hash → List (List Hash)
  | 0, level => [level]
  | fuel + 1, level =>
      level :: if 1 < level.length then layersFrom hasher fuel (pairUp hasher.hashPair level) else []

/-- Every level of the padded tree, leaves first. -/
def merkleLayers : List (List Hash) :=
  if leaves.isEmpty then [[hasher.zero]]
  else
    let level := padLeaves hasher leaves
    layersFrom hasher level.length level

/-- The hashes of the 16 KiB blocks of a file. -/
def leafHashes (data : List UInt8) : List Hash :=
  (chunks v2BlockSize data).map hasher.blockHash

/-- Hash of one piece-sized segment, padded with zero nodes to the blocks of a
piece. Invalid piece lengths and oversized segments have none. -/
def pieceLayerHash (data : List UInt8) (pieceLength : Nat) : Option Hash :=
  if pieceLength < v2BlockSize ∨ ¬ pieceLength.isPowerOfTwo ∨ pieceLength % v2BlockSize ≠ 0 ∨
      pieceLength < data.length then none
  else
    let blockCount := pieceLength / v2BlockSize
    let leafCount := max (divCeil data.length v2BlockSize) 1
    let leaves := (chunks v2BlockSize data).map hasher.blockHash
    some (merkleRoot hasher (resize leaves (max blockCount leafCount) hasher.zero))

/-- At most one subtree a level, least level first, and the number of leaves. -/
structure MerkleAccumulator (Hash : Type) where
  levels : List (Option Hash)
  leafCount : Nat

/-- Root of a subtree of zero leaves. -/
def zeroSubtreeHash (level : Nat) : Hash :=
  (List.range level).foldl (fun hash _ => hasher.hashPair hash hash) hasher.zero

namespace MerkleAccumulator

def new : MerkleAccumulator Hash := ⟨List.replicate merkleMaxLevels none, 0⟩

/-- Merge a node upward from its level through the subtrees stored there, and
store the result at the first level without one. -/
def pushNode (hasher : Hasher Hash) :
    List (Option Hash) → Hash → Nat → Option (List (Option Hash))
  | [], _, _ => none
  | slot :: rest, node, level + 1 => (pushNode hasher rest node level).map (slot :: ·)
  | none :: rest, node, 0 => some (some node :: rest)
  | some left :: rest, node, 0 =>
      (pushNode hasher rest (hasher.hashPair left node) 0).map (none :: ·)

variable (hasher : Hasher Hash)

/-- Add one leaf in content order. -/
def push (accumulator : MerkleAccumulator Hash) (leaf : Hash) :
    Option (MerkleAccumulator Hash) := do
  let leafCount ← checkedAdd accumulator.leafCount 1
  let levels ← pushNode hasher accumulator.levels leaf 0
  pure ⟨levels, leafCount⟩

/-- `while padding != 0`: push a zero subtree for every set bit of the padding.
A 64-bit padding has at most 64 bits to visit. -/
def padLevels (hasher : Hasher Hash) :
    Nat → Nat → Nat → List (Option Hash) → Option (List (Option Hash))
  | 0, padding, _, levels => if padding = 0 then some levels else none
  | fuel + 1, padding, level, levels =>
      if padding = 0 then some levels
      else do
        let levels ←
          if padding % 2 = 1 then pushNode hasher levels (zeroSubtreeHash hasher level) level
          else some levels
        padLevels hasher fuel (padding / 2) (level + 1) levels

/-- Root over the pushed leaves, padded with zero hashes to a power of two. -/
def finish (accumulator : MerkleAccumulator Hash) : Option Hash :=
  if accumulator.leafCount = 0 then some hasher.zero
  else do
    let target ← checkedNextPowerOfTwo accumulator.leafCount
    let levels ← padLevels hasher 64 (target - accumulator.leafCount) 0 accumulator.levels
    levels.findSome? id

/-- Push the leaves one by one. -/
def pushAll (leaves : List Hash) : Option (MerkleAccumulator Hash) :=
  leaves.foldlM (push hasher) new

/-- Push the leaves one by one and finish. -/
def rootOf (leaves : List Hash) : Option Hash :=
  (pushAll hasher leaves).bind (finish hasher)

end MerkleAccumulator

/-! ## Roots and layers of the padded tree -/

section

variable (hasher : Hasher Hash)

theorem length_leafHashes (data : List UInt8) :
    (leafHashes hasher data).length = divCeil data.length v2BlockSize := by
  rw [leafHashes, length_map, length_chunks (by decide)]

variable (leaves : List Hash)

theorem length_padLeaves :
    (padLeaves hasher leaves).length = 2 ^ Nat.clog 2 leaves.length := by
  have reached := le_nextPowerOfTwo leaves.length
  rw [padLeaves, length_append, length_replicate, Nat.add_sub_cancel' reached]
  rfl

theorem clog_le_length_padLeaves :
    Nat.clog 2 leaves.length ≤ (padLeaves hasher leaves).length := by
  rw [length_padLeaves]
  exact Nat.le_of_lt Nat.lt_two_pow_self

theorem collapse_perfect (fuel : Nat) {height : Nat} (level : List Hash) {root : Hash}
    (tree : Perfect hasher.hashPair height level root) (enough : height ≤ fuel) :
    collapse hasher fuel level = [root] := by
  induction height generalizing fuel level with
  | zero =>
    cases tree
    cases fuel <;> simp [collapse]
  | succ height ih =>
    cases fuel with
    | zero => omega
    | succ fuel =>
      simp only [collapse, tree.wide, if_true]
      exact ih fuel _ tree.pairUp (by omega)

theorem layersFrom_perfect (fuel : Nat) {height : Nat} (level : List Hash) {root : Hash}
    (tree : Perfect hasher.hashPair height level root) (enough : height ≤ fuel) :
    layersFrom hasher fuel level =
      (List.range (height + 1)).map (fun index => PerfectTree.level hasher.hashPair index level) := by
  induction height generalizing fuel level with
  | zero =>
    cases tree
    cases fuel <;> simp [layersFrom]
  | succ height ih =>
    cases fuel with
    | zero => omega
    | succ fuel =>
      simp only [layersFrom, tree.wide, if_true]
      rw [ih fuel _ tree.pairUp (by omega), range_succ_eq_map (n := height + 1), map_cons, map_map]
      rfl

/-- The root that `merkle_root` computes is the root over the padded leaves. For
no leaves the padding is a single zero hash, which is the root. -/
theorem merkleRoot_perfect :
    Perfect hasher.hashPair (Nat.clog 2 leaves.length) (padLeaves hasher leaves)
      (merkleRoot hasher leaves) := by
  cases leaves with
  | nil => exact Perfect.leaf hasher.zero
  | cons first rest =>
    obtain ⟨root, tree⟩ := exists_perfect hasher.hashPair _ _ (length_padLeaves hasher (first :: rest))
    have computed : merkleRoot hasher (first :: rest) = root := by
      simp only [merkleRoot, isEmpty_cons, Bool.false_eq_true, if_false]
      rw [collapse_perfect hasher _ _ tree (clog_le_length_padLeaves hasher _)]
      rfl
    rw [computed]
    exact tree

/-- The layers are the levels of the padded tree, from the leaves to the root. -/
theorem merkleLayers_eq : merkleLayers hasher leaves =
      (List.range (Nat.clog 2 leaves.length + 1)).map
        (fun index => PerfectTree.level hasher.hashPair index (padLeaves hasher leaves)) := by
  cases leaves with
  | nil => rfl
  | cons first rest =>
    exact layersFrom_perfect hasher _ _ (merkleRoot_perfect hasher (first :: rest))
      (clog_le_length_padLeaves hasher _)

theorem zeroSubtreeHash_eq (level : Nat) :
    zeroSubtreeHash hasher level = uniform hasher.hashPair hasher.zero level := by
  induction level with
  | zero => rfl
  | succ level ih =>
    unfold zeroSubtreeHash at ih ⊢
    rw [range_succ, foldl_append, ih]
    rfl

end

/-! ## The accumulator -/

namespace MerkleAccumulator

open SubtreeCounter

variable (hasher : Hasher Hash)

/-- Pushing at a level is a counter carry into the slots from that level on. -/
theorem pushNode_eq (lower upper : List (Option Hash)) (node : Hash) :
    pushNode hasher (lower ++ upper) node lower.length =
      (carry hasher.hashPair upper node).map (lower ++ ·) := by
  induction lower with
  | nil =>
    simp only [nil_append, length_nil]
    induction upper generalizing node with
    | nil => rfl
    | cons slot rest ih =>
      cases slot with
      | none => rfl
      | some left =>
        simp only [pushNode, carry, ih, Option.map_map]
        rfl
  | cons slot lower ih =>
    simp only [cons_append, length_cons, pushNode, ih, Option.map_map]
    rfl

variable {leaves : List Hash}

/-- Free lower slots do not change what a counter holds. -/
theorem holds_lower (height : Nat) {count : Nat} {slots : List (Option Hash)}
    (held : Holds hasher.hashPair (height + count) slots leaves) :
    Holds hasher.hashPair height (List.replicate count none ++ slots) leaves := by
  induction count generalizing height with
  | zero => exact held
  | succ count ih =>
    apply Holds.free
    apply ih
    rwa [Nat.add_right_comm, Nat.add_assoc]

/-- After pushing leaves one by one the levels hold exactly those leaves. -/
theorem pushAll_holds (leaves : List Hash) (bounded : leaves.length < 2 ^ 64) :
    ∃ accumulator, pushAll hasher leaves = some accumulator ∧
      accumulator.leafCount = leaves.length ∧ accumulator.levels.length = merkleMaxLevels ∧
      Holds hasher.hashPair 0 accumulator.levels leaves := by
  induction leaves using List.reverseRecOn with
  | nil => exact ⟨new, rfl, rfl, length_replicate, holds_replicate hasher.hashPair 0 _⟩
  | append_singleton leaves leaf ih =>
    rw [length_append, length_singleton] at bounded
    obtain ⟨accumulator, pushed, count, width, held⟩ := ih (by omega)
    obtain ⟨levels, carried, length, holds⟩ := held.carry (Perfect.leaf leaf) (by
      rw [width]
      simp only [merkleMaxLevels]
      omega)
    have stored : pushNode hasher accumulator.levels leaf 0 = some levels := by
      simpa [carried] using pushNode_eq hasher [] accumulator.levels leaf
    refine ⟨⟨levels, leaves.length + 1⟩, ?_, by simp, length.trans width, holds⟩
    have last : push hasher accumulator leaf = some ⟨levels, leaves.length + 1⟩ := by
      rw [push, count, checkedAdd_of_lt bounded, Option.bind_eq_bind, Option.bind_some, stored]
      rfl
    unfold pushAll at pushed ⊢
    rw [foldlM_append, pushed]
    simp [last]

/-- One round of the padding loop: an odd padding carries a zero subtree into the
counter above the free slots, an even one leaves the counter as it is. -/
theorem padLevels_round (fuel : Nat) {padding level : Nat} {upper : List (Option Hash)}
    (held : Holds hasher.hashPair level upper leaves)
    (room : leaves.length + 2 ^ level < 2 ^ (level + upper.length)) (due : padding ≠ 0) :
    ∃ slots, padLevels hasher (fuel + 1) padding level (List.replicate level none ++ upper) =
        padLevels hasher fuel (padding / 2) (level + 1) (List.replicate level none ++ slots) ∧
      slots.length = upper.length ∧ Holds hasher.hashPair level slots
        (leaves ++ List.replicate (padding % 2 * 2 ^ level) hasher.zero) := by
  by_cases odd : padding % 2 = 1
  · obtain ⟨slots, carried, length, holds⟩ :=
      held.carry (perfect_replicate hasher.hashPair hasher.zero level) room
    have pushed : pushNode hasher (List.replicate level none ++ upper)
        (zeroSubtreeHash hasher level) level = some (List.replicate level none ++ slots) := by
      have stored := pushNode_eq hasher (List.replicate level none) upper
        (zeroSubtreeHash hasher level)
      rw [length_replicate, zeroSubtreeHash_eq, carried] at stored
      rw [zeroSubtreeHash_eq]
      exact stored
    refine ⟨slots, ?_, length, ?_⟩
    · simp only [padLevels, due, odd, if_false, if_true, pushed]
      rfl
    · rw [odd, Nat.one_mul]
      exact holds
  · refine ⟨upper, ?_, rfl, ?_⟩
    · simp only [padLevels, due, odd, if_false]
      rfl
    · have even : padding % 2 = 0 := by omega
      simpa [even] using held

/-- Padding fills the represented leaves with zeros up to the target.

Invariant: before the level `level` every lower slot is free and the represented
leaves with the padding still due, counted in subtrees of this level, make up the
target. An odd padding finds the slot occupied and clears it by its carry; an even
padding finds it free. Either way the next level starts with one more free slot. -/
theorem padLevels_holds (fuel padding level target : Nat) (upper : List (Option Hash))
    (leaves : List Hash) (held : Holds hasher.hashPair level upper leaves)
    (width : level + upper.length = merkleMaxLevels) (some : 0 < leaves.length)
    (total : leaves.length + padding * 2 ^ level = 2 ^ target) (fits : target < 64)
    (bits : padding < 2 ^ fuel) :
    ∃ levels, padLevels hasher fuel padding level (List.replicate level none ++ upper) =
        Option.some levels ∧ Holds hasher.hashPair 0 levels
        (leaves ++ List.replicate (padding * 2 ^ level) hasher.zero) := by
  induction fuel generalizing padding level upper leaves with
  | zero =>
    obtain rfl : padding = 0 := by omega
    refine ⟨List.replicate level none ++ upper, rfl, ?_⟩
    simpa using holds_lower hasher 0 (by simpa using held)
  | succ fuel ih =>
    by_cases done : padding = 0
    · subst done
      refine ⟨List.replicate level none ++ upper, rfl, ?_⟩
      simpa using holds_lower hasher 0 (by simpa using held)
    · have split : padding * 2 ^ level =
          padding % 2 * 2 ^ level + padding / 2 * 2 ^ (level + 1) := by
        calc padding * 2 ^ level = (padding % 2 + 2 * (padding / 2)) * 2 ^ level := by
              rw [Nat.mod_add_div]
          _ = padding % 2 * 2 ^ level + padding / 2 * 2 ^ (level + 1) := by ring
      have least : 2 ^ level ≤ padding * 2 ^ level :=
        Nat.le_mul_of_pos_left _ (Nat.pos_of_ne_zero done)
      have below : level < target :=
        (Nat.pow_lt_pow_iff_right (by decide)).mp (by omega : 2 ^ level < 2 ^ target)
      have large : 2 ^ target < 2 ^ merkleMaxLevels :=
        Nat.pow_lt_pow_right (by decide) (by simp only [merkleMaxLevels]; omega)
      obtain ⟨slots, stepped, length, filled⟩ :=
        padLevels_round hasher fuel held (by rw [width]; omega) done
      have remaining : (leaves ++ List.replicate (padding % 2 * 2 ^ level) hasher.zero).length +
          padding / 2 * 2 ^ (level + 1) = 2 ^ target := by
        rw [length_append, length_replicate]
        omega
      have multiple : 2 ^ (level + 1) ∣
          (leaves ++ List.replicate (padding % 2 * 2 ^ level) hasher.zero).length := by
        apply (Nat.dvd_add_left (Nat.dvd_mul_left _ (padding / 2))).mp
        rw [remaining]
        exact Nat.pow_dvd_pow 2 below
      simp only [merkleMaxLevels] at width
      obtain ⟨rest, rfl, higher⟩ := filled.raise (by omega) multiple
      have shifted : List.replicate level none ++ none :: rest =
          List.replicate (level + 1) (none : Option Hash) ++ rest := by
        rw [replicate_succ', append_assoc]
        rfl
      rw [length_cons] at length
      obtain ⟨levels, padded, result⟩ := ih (padding / 2) (level + 1) rest _ higher
        (by simp only [merkleMaxLevels]; omega) (by rw [length_append]; omega) remaining
        (by omega)
      refine ⟨levels, ?_, ?_⟩
      · rw [stepped, shifted]
        exact padded
      · rw [split, ← replicate_append_replicate, ← append_assoc]
        exact result

/-- Pushing the leaves and finishing gives the root over the padded leaves. -/
theorem rootOf_eq (bounded : leaves.length ≤ 2 ^ 63) :
    rootOf hasher leaves = some (merkleRoot hasher leaves) := by
  obtain ⟨accumulator, pushed, count, width, held⟩ := pushAll_holds hasher leaves (by omega)
  unfold rootOf
  rw [pushed, Option.bind_some]
  by_cases empty : leaves.length = 0
  · obtain rfl : leaves = [] := eq_nil_of_length_eq_zero empty
    simp [finish, count, merkleRoot]
  · have reached : leaves.length ≤ 2 ^ Nat.clog 2 leaves.length := le_nextPowerOfTwo leaves.length
    have target : Nat.clog 2 leaves.length ≤ 63 := Nat.clog_le_of_le_pow bounded
    have representable : checkedNextPowerOfTwo leaves.length =
        some (2 ^ Nat.clog 2 leaves.length) :=
      if_pos (Nat.pow_lt_pow_right (by decide) (by omega))
    obtain ⟨levels, padded, holds⟩ := padLevels_holds hasher 64
      (2 ^ Nat.clog 2 leaves.length - leaves.length) 0 (Nat.clog 2 leaves.length)
      accumulator.levels leaves held (by omega) (by omega) (by omega) (by omega) (by
        have large : 2 ^ Nat.clog 2 leaves.length ≤ 2 ^ 63 :=
          Nat.pow_le_pow_right (by decide) target
        omega)
    simp only [Nat.pow_zero, Nat.mul_one] at holds
    obtain ⟨root, found, tree⟩ := holds.single (Nat.clog 2 leaves.length) (by
      rw [Nat.zero_add]
      exact length_padLeaves hasher leaves)
    rw [Nat.zero_add] at tree
    have same : root = merkleRoot hasher leaves :=
      tree.functional (merkleRoot_perfect hasher leaves)
    simp only [finish, count, empty, if_false, representable]
    simp only [replicate_zero, nil_append] at padded
    simp [padded, found, same]

end MerkleAccumulator

/-- One root, three computations: accumulating the leaves one by one, collapsing
the padded leaves, and the single node of the last layer. The first layer is the
leaves padded with zero hashes to the next power of two, and every later layer is
the pairwise hash of the one below.

A slice of 32-byte hashes is far shorter than the bound, which is where the
accumulator's own target leaves `usize`. -/
theorem merkle_computations_agree (hasher : Hasher Hash) (leaves : List Hash)
    (bounded : leaves.length ≤ 2 ^ 63) :
    MerkleAccumulator.rootOf hasher leaves = some (merkleRoot hasher leaves) ∧
      (merkleLayers hasher leaves).getLast? = some [merkleRoot hasher leaves] ∧
      (merkleLayers hasher leaves)[0]? =
        some (leaves ++
          List.replicate (nextPowerOfTwo leaves.length - leaves.length) hasher.zero) ∧
      ∀ index, index + 1 < (merkleLayers hasher leaves).length →
        (merkleLayers hasher leaves)[index + 1]? =
          ((merkleLayers hasher leaves)[index]?).map (pairUp hasher.hashPair) := by
  refine ⟨MerkleAccumulator.rootOf_eq hasher bounded, ?_, ?_, ?_⟩
  · rw [merkleLayers_eq, List.range_succ, List.map_append, List.getLast?_append]
    simp [(merkleRoot_perfect hasher leaves).top]
  · rw [merkleLayers_eq]
    simp [padLeaves]
  · intro index within
    rw [merkleLayers_eq, List.length_map, List.length_range] at within
    rw [merkleLayers_eq]
    have lower : index < Nat.clog 2 leaves.length + 1 := by omega
    simp [within, lower, level_succ]

/-- Three leaves under a pairing that keeps its arguments apart: the fourth leaf of
the padded tree is the zero hash. -/
theorem merkle_computations_agree_three :
    MerkleAccumulator.rootOf (Hasher.mk 0 List.length (fun left right => 2 * left + 3 * right))
      [5, 7, 11] = some 128 :=
  (merkle_computations_agree (Hasher.mk 0 List.length (fun left right => 2 * left + 3 * right))
    [5, 7, 11] (by decide)).1.trans (by decide)

end TorrentNG.MerkleHash
