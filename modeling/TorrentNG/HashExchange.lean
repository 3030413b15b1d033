import Mathlib.Data.Nat.Pairing
import TorrentNG.HashRequests

/-!
# The BEP 52 hash exchange

`fetch_v2_piece_layer` asks for the base layer of a file range by range and checks
every answer against the root of the file. An honest answer is the requested range
of the file's tree followed by the siblings of its ancestors; it passes the check,
and with a pairing function without collisions nothing else does.
-/

namespace TorrentNG.HashExchange

open AuthenticationPath Fallible List MachineArithmetic MerkleHash Metainfo Option PerfectTree
open Reading

variable {Hash : Type}

/-! ## The answer to a request -/

section Answer
variable {pieceLength fileLength hashCount base height : Nat}
variable (shape : TreeShape pieceLength fileLength hashCount base height)
variable {request : Coordinates Hash} {exponent : Nat}
variable (fits : FitsTree base height request exponent)
variable (hasher : Hasher Hash) {leaves : List Hash}
variable (sized : leaves.length = divCeil fileLength v2BlockSize)
include shape sized

theorem length_level_padLeaves {index : Nat} (inside : index ≤ height) :
    (level hasher.hashPair index (padLeaves hasher leaves)).length = 2 ^ (height - index) := by
  rw [length_level, length_padLeaves, sized, shape.clog_eq, Nat.pow_div inside (by decide)]

theorem getElem?_merkleLayers {index : Nat} (inside : index ≤ height) :
    (merkleLayers hasher leaves)[index]? =
      some (level hasher.hashPair index (padLeaves hasher leaves)) := by
  rw [merkleLayers_eq, sized, shape.clog_eq]
  simp [Nat.lt_succ_of_le inside]

/-- The sibling of an ancestor below the root is in the tree. -/
theorem proofHash_eq {start proofIndex : Nat} (start_lt : start < 2 ^ (height - base))
    (below : base + proofIndex < height) :
    ∃ sibling, proofHash (merkleLayers hasher leaves) base start proofIndex = some sibling ∧
      (level hasher.hashPair (base + proofIndex) (padLeaves hasher leaves))[
        siblingIndex (start / 2 ^ proofIndex)]? = some sibling := by
  have small := shape.small
  have width : 2 ^ (height - base) = 2 ^ (height - (base + proofIndex)) * 2 ^ proofIndex := by
    rw [← Nat.pow_add]
    congr 1
    omega
  have node : start / 2 ^ proofIndex < 2 ^ (height - (base + proofIndex)) :=
    Nat.div_lt_of_lt_mul (by rwa [Nat.mul_comm, ← width])
  have even : 2 ^ (height - (base + proofIndex)) = 2 * 2 ^ (height - (base + proofIndex) - 1) := by
    rw [← Nat.pow_succ']
    congr 1
    omega
  have inside : siblingIndex (start / 2 ^ proofIndex) <
      (level hasher.hashPair (base + proofIndex) (padLeaves hasher leaves)).length := by
    rw [length_level_padLeaves shape hasher sized below.le, even]
    exact siblingIndex_lt (even ▸ node)
  refine ⟨_, ?_, getElem?_eq_getElem inside⟩
  rw [proofHash, checkedAdd_of_lt (by omega), checkedShr, if_pos (by omega)]
  simp only [bind_eq_bind, bind_some]
  rw [getElem?_merkleLayers shape hasher sized below.le, bind_some, xor_one,
    getElem?_eq_getElem inside]

include fits

/-- The serving side answers with the requested run of the base layer and the siblings
of its ancestors. -/
theorem hashesForV2Request_eq :
    ∃ proof, hashesForV2Request (merkleLayers hasher leaves) leaves.length request.baseLayer
        request.index request.length request.proofLayers =
          some (((level hasher.hashPair base (padLeaves hasher leaves)).drop request.index).take
            (2 ^ exponent) ++ proof) ∧ proof.length = height - (base + exponent) ∧
      ∀ offset, offset < proof.length → proof[offset]? =
        (level hasher.hashPair (base + exponent + offset) (padLeaves hasher leaves))[
          siblingIndex (request.index / 2 ^ exponent / 2 ^ offset)]? := by
  have below := shape.below
  have inside := fits.inside
  have short := fits.high
  have positive : 0 < 2 ^ exponent := Nat.pow_pos (by decide)
  have width := shape.width_le
  have bounds := hashRequestBounds_eq shape fits
  have layer := length_level_padLeaves shape hasher sized below.le
  have first := length_level_padLeaves shape hasher sized (Nat.zero_le _)
  have head : (merkleLayers hasher leaves).head? =
      some (level hasher.hashPair 0 (padLeaves hasher leaves)) := by
    rw [head?_eq_getElem?, getElem?_merkleLayers shape hasher sized (Nat.zero_le _)]
  have omitted : trailingZeros 32 request.length = exponent := by
    rw [fits.length]
    exact trailingZeros_two_pow (by omega)
  have siblings : ∀ proofIndex ∈ List.range' exponent (height - (base + 1) + 1 - exponent),
      ∃ sibling, proofHash (merkleLayers hasher leaves) base request.index proofIndex =
        some sibling ∧ (level hasher.hashPair (base + proofIndex) (padLeaves hasher leaves))[
          siblingIndex (request.index / 2 ^ proofIndex)]? = some sibling := by
    intro proofIndex member
    rw [mem_range'_1] at member
    exact proofHash_eq shape hasher sized (by omega) (by omega)
  obtain ⟨proof, collected, answers⟩ := exists_mapM fun proofIndex member =>
    (siblings proofIndex member).imp fun _ found => found.1
  have length : proof.length = height - (base + exponent) := by
    have lengths := congrArg List.length answers
    rw [length_map, length_map, length_range'] at lengths
    omega
  refine ⟨proof, ?_, length, ?_⟩
  · rw [hashesForV2Request, sized, bounds]
    simp only [bind_eq_bind, bind_some]
    rw [getElem?_merkleLayers shape hasher sized below.le, bind_some,
      checkedAdd_of_lt (by omega), bind_some, if_neg (by omega), head, bind_some,
      first, fits.baseLayer, Nat.sub_zero, shape.checkedShr_eq, bind_some,
      if_neg (by omega), omitted, collected, bind_some, slice, Nat.add_sub_cancel_left]
  · intro offset within
    have asked : (List.range' exponent (height - (base + 1) + 1 - exponent))[offset]? =
        some (exponent + offset) := by
      rw [getElem?_range' (by omega), Nat.one_mul]
    obtain ⟨sibling, found, placed⟩ := siblings _ (mem_of_getElem? asked)
    have same := congrArg (fun results => results[offset]?) answers
    simp only [getElem?_map, asked, map_some, found] at same
    rw [Nat.div_div_eq_div_mul, ← Nat.pow_add, Nat.add_assoc, placed]
    rw [getElem?_eq_getElem within, map_some] at same
    rw [getElem?_eq_getElem within]
    exact (Option.some.inj same).symm

end Answer

/-! ## Checking an answer -/

/-- The loop climbs to the root unless its depth leaves the range of `u32`. -/
theorem foldProof_eq (hasher : Hasher Hash) (index depth : Nat) (current : Hash)
    (siblings : List Hash) : foldProof hasher index depth current siblings =
        .ok (climb hasher.hashPair (index / 2 ^ depth) current siblings) ∨
      2 ^ 32 < depth + siblings.length ∧
        foldProof hasher index depth current siblings = .error .proofDepthOverflow := by
  induction siblings generalizing depth current with
  | nil => exact .inl rfl
  | cons sibling rest ih =>
    rw [foldProof, toU32, length_cons]
    split_ifs with small
    · simp only [okOr, bind, Except.bind]
      rw [climb, Nat.div_div_eq_div_mul, ← Nat.pow_succ]
      exact (ih _ _).imp_right (And.imp_left (by omega))
    · exact .inr ⟨by omega, rfl⟩

variable {hasher : Hasher Hash} {fileLength pieceLength : Nat} {request : Coordinates Hash}

/-- What an accepted answer is: a run whose collapse climbs to the root. -/
theorem accepted_answer [DecidableEq Hash] {coordinates : Coordinates Hash} {hashes : List Hash}
    (accepted : validateV2HashesResponse hasher coordinates fileLength pieceLength hashes =
      .ok ()) : ∃ exponent current, coordinates.length = 2 ^ exponent ∧
      hashes.length = 2 ^ exponent + proofHashCount (2 ^ exponent) coordinates.proofLayers ∧
      Perfect hasher.hashPair exponent (hashes.take (2 ^ exponent)) current ∧
      climb hasher.hashPair (coordinates.index / 2 ^ exponent) current
        (hashes.drop (2 ^ exponent)) = coordinates.piecesRoot := by
  obtain ⟨_, checked, accepted⟩ := bind_eq_ok.mp accepted
  obtain ⟨expected, summed, accepted⟩ := bind_eq_ok.mp accepted
  obtain ⟨rfl, _⟩ := checkedAdd_eq_some.mp (okOr_eq_ok.mp summed)
  unfold checkCoordinates at checked
  split_ifs at checked with invalid
  simp only [not_or, not_not, Nat.not_lt] at invalid
  obtain ⟨_, ⟨exponent, length⟩, _, short⟩ := invalid
  rw [length] at accepted short ⊢
  have small : exponent ≤ 9 := (Nat.pow_le_pow_iff_right (by decide)).mp short
  rw [trailingZeros_two_pow (by omega : exponent ≤ 32)] at accepted
  split_ifs at accepted with wrong
  obtain ⟨root, folded, accepted⟩ := bind_eq_ok.mp accepted
  split_ifs at accepted with different
  have count := not_ne_iff.mp wrong
  obtain ⟨current, tree⟩ := exists_perfect hasher.hashPair exponent (hashes.take (2 ^ exponent))
    (by rw [length_take]; omega)
  rw [collapse_perfect hasher _ _ tree (Nat.le_of_lt Nat.lt_two_pow_self)] at folded
  refine ⟨exponent, current, rfl, count, tree, ?_⟩
  rw [← not_ne_iff.mp different]
  rcases foldProof_eq hasher coordinates.index exponent current (hashes.drop (2 ^ exponent)) with
    climbed | ⟨_, failed⟩
  · exact Except.ok.inj (climbed.symm.trans folded)
  · exact nomatch failed.symm.trans folded

/-- With a pairing function without collisions, a root and coordinates have at most
one accepted answer. -/
theorem accepted_unique [DecidableEq Hash] (hasher : Hasher Hash)
    (injective : Function.Injective2 hasher.hashPair) (coordinates : Coordinates Hash)
    (fileLength pieceLength : Nat) (first second : List Hash)
    (firstAccepted : validateV2HashesResponse hasher coordinates fileLength pieceLength first =
      .ok ())
    (secondAccepted : validateV2HashesResponse hasher coordinates fileLength pieceLength second =
      .ok ()) : first = second := by
  obtain ⟨exponent, current, length, count, tree, climbed⟩ := accepted_answer firstAccepted
  obtain ⟨exponent', other, length', count', tree', climbed'⟩ := accepted_answer secondAccepted
  obtain rfl : exponent = exponent' :=
    Nat.pow_right_injective (by decide) (length.symm.trans length')
  obtain ⟨rfl, proofs⟩ := climb_injective hasher.hashPair injective _ _ _ _
    (by rw [length_drop, length_drop, count, count'])
    (climbed.trans climbed'.symm)
  rw [← take_append_drop (2 ^ exponent) first, tree.injective injective tree', proofs,
    take_append_drop]

/-- The answer of a serving peer to a fitting request is accepted. Its first hashes are
the requested run of the base layer. -/
theorem honest_answer [DecidableEq Hash] {hashCount base height exponent : Nat}
    (shape : TreeShape pieceLength fileLength hashCount base height)
    (fits : FitsTree base height request exponent) {leaves : List Hash}
    (sized : leaves.length = divCeil fileLength v2BlockSize)
    (rooted : request.piecesRoot = merkleRoot hasher leaves) :
    ∃ hashes, hashesForV2Request (merkleLayers hasher leaves) leaves.length request.baseLayer
        request.index request.length request.proofLayers = some hashes ∧
      validateV2HashesResponse hasher request fileLength pieceLength hashes = .ok () ∧
      hashes.take (2 ^ exponent) =
        ((level hasher.hashPair base (padLeaves hasher leaves)).drop request.index).take
          (2 ^ exponent) := by
  obtain ⟨proof, answered, proofLength, siblings⟩ := hashesForV2Request_eq shape fits hasher sized
  have below := shape.below
  have small := shape.small
  have inside := fits.inside
  have short := fits.high
  have high := fits.exponent_le
  have most := fits.run_length.2
  have layer := length_level_padLeaves shape hasher sized below.le
  have start : request.index / 2 ^ exponent * 2 ^ exponent = request.index :=
    Nat.div_mul_cancel (Nat.dvd_of_mod_eq_zero fits.aligned)
  obtain ⟨node, run, placed⟩ := perfect_run hasher.hashPair exponent
    (by rw [Nat.succ_mul, start, layer]; exact inside)
  rw [start] at run
  rw [← level_add] at placed
  have climbed := climb_levels hasher.hashPair _ _ node placed siblings
  have root : climb hasher.hashPair (request.index / 2 ^ exponent) node proof =
      request.piecesRoot := by
    have top := (merkleRoot_perfect hasher leaves).top
    rw [sized, shape.clog_eq] at top
    have ascent : base + exponent + proof.length = height := by omega
    rw [ascent, top] at climbed
    have found := mem_of_getElem? climbed
    rw [rooted, mem_singleton.mp found]
  generalize ((level hasher.hashPair base (padLeaves hasher leaves)).drop request.index).take
    (2 ^ exponent) = values at answered run
  have width := run.length
  have front : (values ++ proof).take (2 ^ exponent) = values := by rw [← width, take_left]
  have back : (values ++ proof).drop (2 ^ exponent) = proof := by rw [← width, drop_left]
  have omitted : trailingZeros 32 (2 ^ exponent) = exponent := trailingZeros_two_pow (by omega)
  have count : proofHashCount (2 ^ exponent) (height - (base + 1)) = proof.length := by
    simp only [proofHashCount, omitted]
    split_ifs with some
    · omega
    · omega
  refine ⟨values ++ proof, answered, ?_, front⟩
  rw [validateV2HashesResponse, checkCoordinates_eq shape fits, fits.length, fits.proofLayers,
    count, omitted, front, back,
    collapse_perfect hasher _ _ run (Nat.le_of_lt Nat.lt_two_pow_self),
    checkedAdd_of_lt (by omega)]
  simp only [okOr, bind, Except.bind, headD_cons]
  rw [if_neg (by rw [length_append, width]; omega),
    (foldProof_eq ..).resolve_right fun deep => by omega, root]
  simp

/-! ## The client's loop -/

/-- What arrives from a peer. Messages that are no answer are skipped. -/
inductive Message (Hash : Type) where
  | hashes (coordinates : Coordinates Hash) (hashes : List Hash)
  | hashReject (coordinates : Coordinates Hash)
  | other

/-- What a peer sends between the last of these requests and the next one, or until it
closes or falls silent. -/
abbrev Peer (Hash : Type) := List (Coordinates Hash) → List (Message Hash)

/-- Read up to the answer; returns what has arrived behind it. -/
def readV2HashesResponse [DecidableEq Hash] (hasher : Hasher Hash)
    (expected : Coordinates Hash) (fileLength pieceLength : Nat) :
    List (Message Hash) → Except ExchangeError (List Hash × List (Message Hash))
  | [] => .error .peerClosed
  | .hashes coordinates hashes :: rest =>
      if coordinates ≠ expected then .error .mismatchedResponse
      else do
        validateV2HashesResponse hasher expected fileLength pieceLength hashes
        .ok (hashes, rest)
  | .hashReject coordinates :: rest =>
      if coordinates = expected then .error .requestRejected
      else readV2HashesResponse hasher expected fileLength pieceLength rest
  | .other :: rest => readV2HashesResponse hasher expected fileLength pieceLength rest

/-- The requests that were sent, and what came of them. -/
structure Transfer (Hash : Type) (ε : Type) where
  sent : List (Coordinates Hash)
  outcome : Except ε (List Hash)

theorem length_of_requestAt {requirement : V2PieceLayerRequirement Hash pieceLength}
    {shape : Nat × Nat × Nat} {cursor : Nat}
    (issued : requestAt requirement shape cursor = .ok request) : 0 < request.length := by
  obtain ⟨exponent, length, _⟩ := v2HashRequestLength_eq (requirement.hashCount - cursor)
  obtain ⟨found, computed, issued⟩ := bind_eq_ok.mp issued
  obtain rfl := Except.ok.inj (length.symm.trans computed)
  obtain ⟨index, _, issued⟩ := bind_eq_ok.mp issued
  split_ifs at issued
  cases issued
  exact Nat.pow_pos (by decide)

/-- A cursor stays at a multiple of the largest length until everything is taken. -/
theorem next_cursor {base height cursor exponent : Nat}
    {requirement : V2PieceLayerRequirement Hash pieceLength}
    (multiple : cursor % maxMetadataHashRequestLength = 0) (more : cursor < requirement.hashCount)
    (fits : FitsTree base height request exponent)
    (covers : requirement.hashCount - cursor ≤ 2 ^ exponent ∨ exponent = 9)
    (whole : ¬min (requirement.hashCount - cursor) request.length < request.length) :
    cursor + min (requirement.hashCount - cursor) request.length = requirement.hashCount ∨
      (cursor + min (requirement.hashCount - cursor) request.length) %
        maxMetadataHashRequestLength = 0 := by
  have length := fits.length
  obtain all | rfl := covers
  · omega
  · right
    rw [maxMetadataHashRequestLength] at multiple ⊢
    omega

/-- What a peer that has the file answers. -/
def answer (hasher : Hasher Hash) (leaves : List Hash) (request : Coordinates Hash) :
    Message Hash :=
  match hashesForV2Request (merkleLayers hasher leaves) leaves.length request.baseLayer
    request.index request.length request.proofLayers with
  | some hashes => .hashes request hashes
  | none => .hashReject request

/-- A message that the client skips while it waits for an answer. -/
def Skipped (request : Coordinates Hash) : Message Hash → Prop
  | .other => True
  | .hashReject coordinates => coordinates ≠ request
  | .hashes _ _ => False

/-- A peer that has the file and answers every request, after other messages perhaps. -/
def Honest (hasher : Hasher Hash) (leaves : List Hash) (peer : Peer Hash) : Prop :=
  ∀ earlier request, ∃ noise, peer (earlier ++ [request]) = noise ++ [answer hasher leaves request] ∧
    ∀ message ∈ noise, Skipped request message

/-- A peer that sends nothing but its answers. -/
def servingPeer (hasher : Hasher Hash) (leaves : List Hash) : Peer Hash := fun requests =>
  (requests.getLast?.map (answer hasher leaves)).toList

theorem servingPeer_honest (hasher : Hasher Hash) (leaves : List Hash) :
    Honest hasher leaves (servingPeer hasher leaves) := by
  intro earlier request
  exact ⟨[], by simp [servingPeer], by simp⟩

theorem readV2HashesResponse_skip [DecidableEq Hash] (hasher : Hasher Hash)
    {expected : Coordinates Hash} (fileLength pieceLength : Nat) {noise : List (Message Hash)}
    (rest : List (Message Hash))
    (skipped : ∀ message ∈ noise, Skipped expected message) :
    readV2HashesResponse hasher expected fileLength pieceLength (noise ++ rest) =
      readV2HashesResponse hasher expected fileLength pieceLength rest := by
  induction noise with
  | nil => rfl
  | cons message noise ih =>
    obtain ⟨here, others⟩ := forall_mem_cons.mp skipped
    rw [cons_append]
    cases message with
    | hashes coordinates hashes => exact absurd here id
    | hashReject coordinates =>
      rw [readV2HashesResponse, if_neg here]
      exact ih others
    | other => exact ih others

section Client
variable [DecidableEq Hash] {pieceLength : Nat}
variable (hasher : Hasher Hash) (peer : Peer Hash)
variable (requirement : V2PieceLayerRequirement Hash pieceLength)

/-- The loop of `fetch_v2_piece_layer`, from a cursor on. Every round moves the cursor,
so the number of hashes is fuel enough. -/
def fetchLoop (shape : Nat × Nat × Nat) :
    Nat → Nat → List Hash → List (Coordinates Hash) → List (Message Hash) →
      Transfer Hash (Stop ExchangeError)
  | 0, cursor, layer, sent, _ =>
      ⟨sent, if cursor < requirement.hashCount then .error .exhausted else .ok layer⟩
  | fuel + 1, cursor, layer, sent, pending =>
      if cursor < requirement.hashCount then
        match requestAt requirement shape cursor with
        | .error problem => ⟨sent, .error (.failed problem)⟩
        | .ok request =>
            match readV2HashesResponse hasher request requirement.fileLength pieceLength
              (pending ++ peer (sent ++ [request])) with
            | .error problem => ⟨sent ++ [request], .error (.failed problem)⟩
            | .ok (hashes, pending) =>
                let taken := min (requirement.hashCount - cursor) request.length
                let layer := layer ++ hashes.take taken
                if taken < request.length then ⟨sent ++ [request], .ok layer⟩
                else fetchLoop shape fuel (cursor + taken) layer (sent ++ [request]) pending
      else ⟨sent, .ok layer⟩

theorem fetchLoop_enough (shape : Nat × Nat × Nat) {fuel : Nat} (cursor : Nat) (layer : List Hash)
    (sent : List (Coordinates Hash)) (pending : List (Message Hash))
    (enough : requirement.hashCount ≤ cursor + fuel) :
    (fetchLoop hasher peer requirement shape fuel cursor layer sent pending).outcome ≠
      .error .exhausted := by
  induction fuel generalizing cursor layer sent pending with
  | zero =>
    simp only [fetchLoop]
    rw [if_neg (by omega)]
    simp
  | succ fuel ih =>
    rw [fetchLoop]
    split
    next =>
      split
      · simp
      · next request issued =>
        have positive := length_of_requestAt issued
        split
        · simp
        · dsimp only
          split_ifs
          · simp
          · exact ih _ _ _ _ (by omega)
    next => simp

/-- `fetch_v2_piece_layer` up to its last check. -/
def collectLayer : Transfer Hash ExchangeError :=
  match v2PieceLayerShape requirement with
  | .error problem => ⟨[], .error problem⟩
  | .ok shape =>
      if requirement.hashCount * 32 > Bencode.maxAllocation then ⟨[], .error .allocationFailed⟩
      else
        let transfer := fetchLoop hasher peer requirement shape requirement.hashCount 0 [] [] []
        ⟨transfer.sent, complete transfer.outcome
          (fetchLoop_enough hasher peer requirement shape 0 [] [] [] (by omega))⟩

/-- The piece layer of a file from a peer. The collected hashes must hash to the root
of the file. -/
def fetchV2PieceLayer : Transfer Hash ExchangeError :=
  let transfer := collectLayer hasher peer requirement
  ⟨transfer.sent, do
    let layer ← transfer.outcome
    if layer.length ≠ requirement.hashCount ∨ merkleRoot hasher layer ≠ requirement.piecesRoot then
      .error .rootMismatch
    else .ok layer⟩

section Runs
variable {base height : Nat}
variable (shape : TreeShape pieceLength requirement.fileLength requirement.hashCount base height)
include shape

/-- Whatever the peer does, every request fits the tree. -/
theorem fetchLoop_requests {fuel : Nat} (cursor : Nat) (layer : List Hash)
    (sent : List (Coordinates Hash)) (pending : List (Message Hash))
    (multiple : cursor = requirement.hashCount ∨ cursor % maxMetadataHashRequestLength = 0)
    (known : ∀ request ∈ sent, request.piecesRoot = requirement.piecesRoot ∧
      ∃ exponent, FitsTree base height request exponent) :
    ∀ request ∈ (fetchLoop hasher peer requirement
        (base, height - (base + 1), 2 ^ (height - base)) fuel cursor layer sent pending).sent,
      request.piecesRoot = requirement.piecesRoot ∧
        ∃ exponent, FitsTree base height request exponent := by
  induction fuel generalizing cursor layer sent pending with
  | zero => exact known
  | succ fuel ih =>
    rw [fetchLoop]
    split
    next more =>
      obtain ⟨issued, exponent, chosen, root, _, fits, covers⟩ :=
        requestAt_fits shape more (by omega)
      rw [chosen]
      dsimp only
      have listed := forall_mem_append.mpr
        ⟨known, forall_mem_singleton.mpr ⟨root, exponent, fits⟩⟩
      split
      · exact listed
      · split_ifs with short
        · exact listed
        · exact ih _ _ _ _ (next_cursor (by omega) more fits covers short) listed
    next => exact known

theorem collectLayer_eq : collectLayer hasher peer requirement =
    ⟨(fetchLoop hasher peer requirement (base, height - (base + 1), 2 ^ (height - base))
        requirement.hashCount 0 [] [] []).sent,
      complete (fetchLoop hasher peer requirement (base, height - (base + 1), 2 ^ (height - base))
          requirement.hashCount 0 [] [] []).outcome
        (fetchLoop_enough hasher peer requirement _ 0 [] [] [] (by omega))⟩ := by
  have few : requirement.hashCount ≤ 16000000 := shape.few
  have allocated : ¬requirement.hashCount * 32 > Bencode.maxAllocation := by
    unfold Bencode.maxAllocation
    omega
  simp only [collectLayer, v2PieceLayerShape_eq shape, if_neg allocated]

variable (leaves : List Hash)
variable (sized : leaves.length = divCeil requirement.fileLength v2BlockSize)
variable (rooted : requirement.piecesRoot = merkleRoot hasher leaves)
variable (honest : Honest hasher leaves peer)
include sized rooted honest

/-- With a serving peer the loop takes the base layer in order. -/
theorem fetchLoop_honest {fuel : Nat} (cursor : Nat) (sent : List (Coordinates Hash))
    (enough : requirement.hashCount ≤ cursor + fuel) (within : cursor ≤ requirement.hashCount)
    (multiple : cursor = requirement.hashCount ∨ cursor % maxMetadataHashRequestLength = 0) :
    (fetchLoop hasher peer requirement (base, height - (base + 1), 2 ^ (height - base)) fuel cursor
        ((level hasher.hashPair base (padLeaves hasher leaves)).take cursor) sent []).outcome =
      .ok ((level hasher.hashPair base (padLeaves hasher leaves)).take requirement.hashCount) := by
  induction fuel generalizing cursor sent with
  | zero =>
    obtain rfl : cursor = requirement.hashCount := by omega
    simp [fetchLoop]
  | succ fuel ih =>
    rw [fetchLoop]
    by_cases more : cursor < requirement.hashCount
    · rw [if_pos more]
      obtain ⟨request, exponent, chosen, root, index, fits, covers⟩ :=
        requestAt_fits shape more (by omega)
      obtain ⟨hashes, answered, accepted, run⟩ := honest_answer shape fits sized (root.trans rooted)
      have length := fits.length
      obtain ⟨noise, arrives, skipped⟩ := honest sent request
      have response : readV2HashesResponse hasher request requirement.fileLength pieceLength
          (peer (sent ++ [request])) = .ok (hashes, []) := by
        rw [arrives, readV2HashesResponse_skip hasher _ _ _ skipped, answer, answered,
          readV2HashesResponse, if_neg (by simp), accepted]
        rfl
      rw [chosen]
      dsimp only
      rw [nil_append, response]
      dsimp only
      have next : (level hasher.hashPair base (padLeaves hasher leaves)).take cursor ++
          hashes.take (min (requirement.hashCount - cursor) request.length) =
            (level hasher.hashPair base (padLeaves hasher leaves)).take
              (cursor + min (requirement.hashCount - cursor) request.length) := by
        have prefixes := congrArg
          (List.take (min (requirement.hashCount - cursor) request.length)) run
        rw [take_take, take_take, ← length, Nat.min_eq_left (Nat.min_le_right _ _)]
          at prefixes
        rw [prefixes, index, ← take_add]
      rw [next]
      split_ifs with short
      · dsimp only
        congr 2
        omega
      · exact ih _ _ (by
          have positive : 0 < 2 ^ exponent := Nat.pow_pos (by decide)
          omega) (by omega) (next_cursor (by omega) more fits covers short)
    · obtain rfl : cursor = requirement.hashCount := by omega
      rw [if_neg more]

theorem collectLayer_honest : (collectLayer hasher peer requirement).outcome =
    .ok ((level hasher.hashPair base (padLeaves hasher leaves)).take requirement.hashCount) := by
  rw [collectLayer_eq hasher peer requirement shape, complete_eq_ok]
  exact fetchLoop_honest hasher peer requirement shape leaves sized rooted honest 0 []
    (by omega) (Nat.zero_le _) (Or.inr rfl)

end Runs

end Client

/-- The hash exchange of a layered file. Whatever a peer does, every request of the
client is within the serving side's bounds, and the serving side's answer from the
file's layers passes the client's check. From a peer that answers so, the client
takes the first nodes of the base layer, in order, as many as the file has pieces.
With a pairing function without collisions no other answer passes. -/
theorem hash_exchange_complete_and_sound [DecidableEq Hash] (hasher : Hasher Hash)
    (pieceLength : Nat) (power : pieceLength.isPowerOfTwo) (large : v2BlockSize ≤ pieceLength)
    (requirement : V2PieceLayerRequirement Hash pieceLength) (leaves : List Hash)
    (sized : leaves.length = divCeil requirement.fileLength v2BlockSize)
    (rooted : requirement.piecesRoot = merkleRoot hasher leaves) :
    (∀ peer, ∀ request ∈ (fetchV2PieceLayer hasher peer requirement).sent,
      (hashRequestBounds leaves.length request.baseLayer request.index request.length
        request.proofLayers).isSome ∧
      ∃ hashes, hashesForV2Request (merkleLayers hasher leaves) leaves.length request.baseLayer
          request.index request.length request.proofLayers = some hashes ∧
        validateV2HashesResponse hasher request requirement.fileLength pieceLength hashes =
          .ok ()) ∧
    (∀ peer, Honest hasher leaves peer → ∃ base layer, pieceLength = v2BlockSize * 2 ^ base ∧
      (merkleLayers hasher leaves)[base]? = some layer ∧ requirement.hashCount ≤ layer.length ∧
      (collectLayer hasher peer requirement).outcome = .ok (layer.take requirement.hashCount)) ∧
    (Function.Injective2 hasher.hashPair → ∀ coordinates fileLength pieceLength first second,
      validateV2HashesResponse hasher coordinates fileLength pieceLength first = .ok () →
      validateV2HashesResponse hasher coordinates fileLength pieceLength second = .ok () →
      first = second) := by
  obtain ⟨base, height, shape⟩ :=
    exists_treeShape power large requirement.layered requirement.counted
  refine ⟨?_, ?_, fun injective => accepted_unique hasher injective⟩
  · intro peer request member
    rw [fetchV2PieceLayer, collectLayer_eq hasher peer requirement shape] at member
    obtain ⟨root, exponent, fits⟩ := fetchLoop_requests hasher peer requirement shape 0 [] [] []
      (Or.inr rfl) (List.forall_mem_nil _) request member
    obtain ⟨hashes, answered, accepted, _⟩ :=
      honest_answer shape fits sized (root.trans rooted)
    rw [sized, hashRequestBounds_eq shape fits]
    exact ⟨rfl, hashes, sized ▸ answered, accepted⟩
  · intro peer honest
    refine ⟨base, _, shape.blocks,
      getElem?_merkleLayers shape hasher sized shape.below.le, ?_,
      collectLayer_honest hasher peer requirement shape leaves sized rooted honest⟩
    rw [length_level_padLeaves shape hasher sized shape.below.le]
    exact shape.covered

/-- A tree over numbers: pairs of numbers are numbers again, without collisions. -/
def pairingHasher : Hasher Nat := ⟨0, List.length, Nat.pair⟩

/-- A file of three blocks in pieces of one block. -/
def sampleRequirement : V2PieceLayerRequirement Nat v2BlockSize where
  piecesRoot := merkleRoot pairingHasher [5, 7, 11]
  fileLength := 40000
  hashCount := 3
  layered := by decide
  counted := by decide

theorem hash_exchange_complete_and_sound_sample : Function.Injective2 pairingHasher.hashPair ∧
    ∃ layer, (merkleLayers pairingHasher [5, 7, 11])[0]? = some layer ∧
      (collectLayer pairingHasher (servingPeer pairingHasher [5, 7, 11]) sampleRequirement).outcome =
        .ok (layer.take 3) := by
  obtain ⟨_, collected, _⟩ := hash_exchange_complete_and_sound pairingHasher v2BlockSize
    ⟨14, rfl⟩ (by decide) sampleRequirement [5, 7, 11] (by decide) rfl
  obtain ⟨base, layer, blocks, placed, _, outcome⟩ :=
    collected (servingPeer pairingHasher [5, 7, 11]) (servingPeer_honest _ _)
  obtain rfl : base = 0 := by
    have single : v2BlockSize * 2 ^ base = v2BlockSize * 1 := by rw [← blocks, Nat.mul_one]
    simpa using Nat.eq_of_mul_eq_mul_left (by decide : 0 < v2BlockSize) single
  exact ⟨fun _ _ _ _ same => Nat.pair_eq_pair.mp same, layer, placed, outcome⟩

end TorrentNG.HashExchange
