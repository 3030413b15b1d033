import TorrentNG.ReceivedBlocks

/-!
# How much a picker has left

`bytes_left` of `rt-piece-picker`: the lengths of the pieces that are wanted and enabled,
less the received blocks of the pieces in progress. The sum of the lengths is a plain 64-bit
sum, which wraps around in a release build; the subtractions are clamped at zero. As long as
all pieces together are shorter than `2 ^ 64` bytes neither happens, and the result is the
number of bytes that are still missing.

The pieces in progress are visited in the order of a hash table. Clamped subtractions give
the same in any order.
-/

namespace TorrentNG.Picker

open Finset MachineArithmetic PieceState Tables

/-- The bytes of the received blocks. -/
def PieceState.receivedBytes (state : PieceState) : Nat :=
  ((state.received.zipIdx.filter fun (received, _) => received).map fun (_, blockIdx) =>
    min (state.pieceLength - blockIdx * maxBlockSize) maxBlockSize).foldl saturatingAdd 0

namespace PiecePicker

variable (picker : PiecePicker)

def isComplete : Bool := decide (picker.outstandingWanted = 0)

def bytesLeft : Nat :=
  let left := ((picker.wanted.zipIdx.filter fun (wanted, piece) =>
    wanted && flag picker.enabled piece).map fun (_, piece) => picker.pieceLengthFor piece).sum
  picker.inProgress.entries.foldl (fun left ⟨piece, state⟩ =>
    if piece < picker.pieceCount ∧ flag picker.wanted piece = true ∧
        flag picker.enabled piece = true then left - state.receivedBytes
    else left) (left % 2 ^ 64)

/-- The length of the received blocks of a piece. -/
def receivedLength (piece : Nat) : Nat :=
  ∑ block ∈ Finset.range (nBlocks (picker.pieceLengthFor piece)) with
    picker.isBlockReceived piece (block * maxBlockSize) = true,
    (requestOf piece (picker.pieceLengthFor piece) block).length

/-- The pieces that are wanted and enabled. -/
def remaining : Finset Nat :=
  {piece ∈ Finset.range picker.pieceCount | picker.eligible piece = true}

/-- The bytes of all pieces. -/
def totalLength : Nat :=
  ∑ piece ∈ Finset.range picker.pieceCount, picker.pieceLengthFor piece

end PiecePicker

/-! ## Sums over flags -/

/-- A sum over the positions of the set flags. -/
theorem sum_flagged (flags : List Bool) (accepted : Nat → Bool) (value : Nat → Nat) (start : Nat) :
    (((flags.zipIdx start).filter fun entry => entry.1 && accepted entry.2).map fun entry =>
        value entry.2).sum =
      ∑ index ∈ range flags.length,
        if flag flags index && accepted (index + start) then value (index + start) else 0 := by
  induction flags generalizing start with
  | nil => rfl
  | cons first rest ih =>
    have later : ∀ index, flag (first :: rest) (index + 1) = flag rest index := fun _ => rfl
    have shifted : ∀ index, index + 1 + start = index + (start + 1) := fun index => by omega
    rw [List.zipIdx_cons, List.length_cons, Finset.sum_range_succ']
    simp only [later, shifted]
    rw [← ih (start + 1), List.filter_cons, Nat.zero_add]
    show _ = _ + if first && accepted start then value start else 0
    split
    · exact Nat.add_comm _ _
    · rfl

/-- The blocks of a piece, one after another, up to its end. -/
theorem sum_blocks (length count : Nat) :
    ∑ block ∈ range count, min (length - block * maxBlockSize) maxBlockSize =
      min length (count * maxBlockSize) := by
  induction count with
  | zero => simp
  | succ count ih =>
    rw [sum_range_succ, ih, Nat.succ_mul]
    omega

/-- All blocks of a piece are as long as the piece. -/
theorem sum_all_blocks (length : Nat) :
    ∑ block ∈ range (nBlocks length), min (length - block * maxBlockSize) maxBlockSize =
      length := by
  rw [sum_blocks]
  exact Nat.min_eq_left (le_divCeil_mul length (by decide))

/-! ## The received blocks of a piece -/

/-- The blocks of a state that were received. -/
theorem receivedBytes_eq {length : Nat} {state : PieceState} (shaped : Shaped length state)
    (bounded : length < 2 ^ 64) :
    state.receivedBytes = ∑ block ∈ range (nBlocks length) with state.has block = true,
      min (length - block * maxBlockSize) maxBlockSize := by
  have collected := sum_flagged state.received (fun _ => true)
    (fun block => min (length - block * maxBlockSize) maxBlockSize) 0
  simp only [Bool.and_true, Nat.add_zero, shaped.received] at collected
  have part : ∑ block ∈ range (nBlocks length) with state.has block = true,
      min (length - block * maxBlockSize) maxBlockSize ≤ length :=
    (sum_le_sum_of_subset (filter_subset _ _)).trans (sum_all_blocks length).le
  rw [sum_filter] at part ⊢
  unfold receivedBytes
  rw [foldl_saturatingAdd _ 0 (by decide), shaped.pieceLength, Nat.zero_add, collected]
  exact Nat.min_eq_left (Nat.le_trans part (Nat.le_sub_one_of_lt bounded))

namespace PiecePicker

variable (picker : PiecePicker)

theorem isBlockReceived_eq (piece block : Nat) :
    picker.isBlockReceived piece (block * maxBlockSize) =
      ((picker.inProgress.lookup piece).map fun state => state.has block).getD false := by
  rw [isBlockReceived, Nat.mul_div_cancel block (by decide : 0 < maxBlockSize)]
  cases picker.inProgress.lookup piece with
  | none => rfl
  | some state => rfl

theorem receivedLength_le (piece : Nat) :
    picker.receivedLength piece ≤ picker.pieceLengthFor piece :=
  (sum_le_sum_of_subset (filter_subset _ _)).trans (sum_all_blocks _).le

variable {picker after : PiecePicker} {piece : Nat}

/-- A block that was not received makes a difference. -/
theorem receivedLength_lt {block : Nat} (inside : block < nBlocks (picker.pieceLengthFor piece))
    (missing : picker.isBlockReceived piece (block * maxBlockSize) = false) :
    picker.receivedLength piece < picker.pieceLengthFor piece := by
  have short : 0 < min (picker.pieceLengthFor piece - block * maxBlockSize) maxBlockSize := by
    have before := lt_nBlocks.mp inside
    have some : 0 < maxBlockSize := by decide
    omega
  refine Nat.lt_of_lt_of_eq ?_ (sum_all_blocks (picker.pieceLengthFor piece))
  refine sum_lt_sum_of_subset (filter_subset _ _) (mem_range.mpr inside) ?_
    short fun _ _ _ => Nat.zero_le _
  rw [mem_filter, missing]
  exact fun member => Bool.false_ne_true member.2

/-- The state of a piece holds the bytes received of it. -/
theorem receivedLength_eq (balanced : Balanced picker)
    (bounded : picker.pieceLengthFor piece < 2 ^ 64) : picker.receivedLength piece =
      ((picker.inProgress.lookup piece).map receivedBytes).getD 0 := by
  unfold receivedLength
  simp only [isBlockReceived_eq]
  match present : picker.inProgress.lookup piece with
  | none => simp
  | some state =>
    obtain ⟨_, held⟩ := balanced.filled.states piece state present
    exact (receivedBytes_eq held.toShaped bounded).symm

/-! ## The bytes that are left -/

theorem mem_remaining (flags : Flags picker) :
    piece ∈ picker.remaining ↔ picker.eligible piece = true := by
  rw [remaining, mem_filter, mem_range]
  exact and_iff_right_of_imp (lt_of_eligible flags)

/-- The lengths are added modulo `2 ^ 64`, and what was received is taken off. -/
theorem bytesLeft_eq (balanced : Balanced picker)
    (bounded : ∀ piece ∈ picker.remaining, picker.pieceLengthFor piece < 2 ^ 64) :
    picker.bytesLeft = (∑ piece ∈ picker.remaining, picker.pieceLengthFor piece) % 2 ^ 64 -
      ∑ piece ∈ picker.remaining, picker.receivedLength piece := by
  have lengths := sum_flagged picker.wanted (flag picker.enabled) picker.pieceLengthFor 0
  simp only [Nat.add_zero, balanced.wanted] at lengths
  rw [← sum_filter] at lengths
  have received : total (fun _ => receivedBytes) picker.inProgress =
      ∑ piece ∈ picker.remaining, picker.receivedLength piece := by
    rw [total_eq_sum _ fun piece state present =>
      (mem_remaining balanced.toFlags).mpr (balanced.filled.states piece state present).1]
    refine sum_congr rfl fun piece listed => ?_
    exact (receivedLength_eq balanced (bounded piece listed)).symm
  rw [← received, bytesLeft, total, ← foldl_sub, remaining]
  refine (List.foldl_ext _ (fun left entry => left - entry.2.receivedBytes) _ ?_).trans ?_
  · -- every piece in progress is wanted and enabled
    intro left entry listed
    have able := (balanced.filled.states entry.1 entry.2 (AList.mem_lookup_iff.mpr listed)).1
    exact if_pos ⟨lt_of_eligible balanced.toFlags able, Bool.and_eq_true_iff.mp able⟩
  · exact congrArg (fun left => List.foldl _ (left % 2 ^ 64) _) lengths

/-- Whatever was received of a piece, some block of it is missing. -/
theorem exists_block_missing (consistent : Consistent picker) (piece : Nat) :
    ∃ block, block < nBlocks (picker.pieceLengthFor piece) ∧
      picker.isBlockReceived piece (block * maxBlockSize) = false := by
  match present : picker.inProgress.lookup piece with
  | none =>
    refine ⟨0, nBlocks_pos.mpr (pieceLengthFor_pos consistent piece), ?_⟩
    rw [isBlockReceived_eq, present]
    rfl
  | some state =>
    obtain ⟨_, held⟩ := consistent.filled.states piece state present
    obtain ⟨block, unset⟩ := exists_missing (consistent.missing present)
    have inside : block < state.received.length := (List.getElem?_eq_some_iff.mp unset).1
    refine ⟨block, held.received ▸ inside, ?_⟩
    rw [isBlockReceived_eq, present, Option.map_some, Option.getD_some, has, unset]
    rfl

theorem remaining_eq_empty (flags : Flags picker) :
    picker.remaining = ∅ ↔ picker.isComplete = true := by
  rw [isComplete, decide_eq_true_iff, flags.tallied.exact, card_eq_zero]
  exact Iff.rfl

/-- The bytes that are missing of the wanted and enabled pieces. -/
def missingBytes (picker : PiecePicker) : Nat :=
  ∑ piece ∈ picker.remaining, (picker.pieceLengthFor piece - picker.receivedLength piece)

theorem missingBytes_eq_zero (consistent : Consistent picker) :
    picker.missingBytes = 0 ↔ picker.isComplete = true := by
  rw [← remaining_eq_empty consistent.toFlags, missingBytes, sum_eq_zero_iff,
    eq_empty_iff_forall_notMem]
  refine forall_congr' fun piece => ⟨fun none listed => ?_, fun none listed => absurd listed none⟩
  obtain ⟨block, inside, missing⟩ := exists_block_missing consistent piece
  have short := receivedLength_lt inside missing
  have nothing := none listed
  omega

/-- Nothing wraps around and nothing is clamped if all pieces fit in 64 bits together. -/
theorem bytesLeft_exact (balanced : Balanced picker) (bounded : picker.totalLength < 2 ^ 64) :
    picker.bytesLeft + ∑ piece ∈ picker.remaining, picker.receivedLength piece =
        ∑ piece ∈ picker.remaining, picker.pieceLengthFor piece ∧
      picker.bytesLeft = picker.missingBytes := by
  have part : ∑ piece ∈ picker.remaining, picker.pieceLengthFor piece ≤ picker.totalLength :=
    sum_le_sum_of_subset (filter_subset _ _)
  have each : ∀ piece ∈ picker.remaining, picker.pieceLengthFor piece < 2 ^ 64 := by
    intro piece listed
    have one := single_le_sum (fun piece _ => Nat.zero_le (picker.pieceLengthFor piece)) listed
    exact (one.trans part).trans_lt bounded
  have received : ∑ piece ∈ picker.remaining, picker.receivedLength piece ≤
      ∑ piece ∈ picker.remaining, picker.pieceLengthFor piece :=
    sum_le_sum fun piece _ => picker.receivedLength_le piece
  have left := bytesLeft_eq balanced each
  rw [Nat.mod_eq_of_lt (part.trans_lt bounded)] at left
  refine ⟨by omega, left.trans ?_⟩
  exact (sum_tsub_distrib _ fun piece _ => picker.receivedLength_le piece).symm

/-! ## Progress -/

/-- The pieces that are left were left before, and what was received of them stays. -/
structure Advances (before after : PiecePicker) : Prop where
  layout : SameLayout before after
  eligible : ∀ piece, after.eligible piece = true → before.eligible piece = true
  received : ∀ piece block, after.eligible piece = true →
    (before.view piece).Received block → (after.view piece).Received block

theorem isBlockReceived_iff (piece block : Nat) :
    picker.isBlockReceived piece (block * maxBlockSize) = true ↔
      (picker.view piece).Received block := by
  rw [isBlockReceived_eq, View.Received, view]
  cases picker.inProgress.lookup piece with
  | none => simp
  | some state => simp

theorem Advances.missingBytes_le {before : PiecePicker} (advances : Advances before after)
    (flags : Flags before) (flagsAfter : Flags after) :
    after.missingBytes ≤ before.missingBytes := by
  have fewer : after.remaining ⊆ before.remaining := by
    intro piece listed
    rw [mem_remaining flags]
    exact advances.eligible piece ((mem_remaining flagsAfter).mp listed)
  have each : ∀ piece ∈ after.remaining, after.pieceLengthFor piece - after.receivedLength piece ≤
      before.pieceLengthFor piece - before.receivedLength piece := by
    intro piece listed
    have able := (mem_remaining flagsAfter).mp listed
    have more : before.receivedLength piece ≤ after.receivedLength piece := by
      unfold receivedLength
      rw [advances.layout.pieceLengthFor]
      refine sum_le_sum_of_subset (monotone_filter_right _ fun block _ known => ?_)
      rw [isBlockReceived_iff] at known ⊢
      exact advances.received piece block able known
    rw [advances.layout.pieceLengthFor]
    exact Nat.sub_le_sub_left more _
  exact (sum_le_sum each).trans (sum_le_sum_of_subset fewer)

/-- A piece goes back into the table with everything that was received of it. -/
theorem advances_insert {inProgressBytes : Nat} {state : PieceState}
    (kept : ∀ block, (picker.view piece).Received block → state.has block = true) :
    Advances picker
      { picker with inProgressBytes, inProgress := picker.inProgress.insert piece state } := by
  refine ⟨⟨rfl, rfl, rfl⟩, fun _ able => able, fun other block _ received => ?_⟩
  rw [received_insert rfl]
  split
  next same => exact kept block (same ▸ received)
  next => exact received

/-- A piece that is no longer wanted leaves the table. -/
theorem advances_finished (flags : Flags picker) (inside : piece < picker.pieceCount)
    (layout : SameLayout picker after) (wanted : after.wanted = picker.wanted.set piece false)
    (enabled : after.enabled = picker.enabled)
    (table : after.inProgress = picker.inProgress.erase piece) : Advances picker after := by
  have able : ∀ other, after.eligible other = true →
      other ≠ piece ∧ picker.eligible other = true := by
    intro other able
    rw [eligible, wanted, enabled,
      flag_set picker.wanted piece other false (flags.wanted.symm ▸ inside)] at able
    split at able
    next => cases able
    next same => exact ⟨Ne.symm same, able⟩
  refine ⟨layout, fun other left => (able other left).2, fun other block left received => ?_⟩
  obtain ⟨found, present, has⟩ := received
  refine ⟨found, ?_, has⟩
  simp only [view, table] at present ⊢
  exact (AList.lookup_erase_ne (able other left).1).trans present

/-- The calls that only go forward. -/
def goesForward : Call → Bool
  | .pick _ | .pickEndgame _ _ | .blockReceived _ _ | .cancelRequest _ _ | .markHave _ => true
  | _ => false

theorem has_markReceived_of_has {state : PieceState} {block got : Nat}
    (has : state.has block = true) : (state.markReceived got).has block = true := by
  rw [has_iff] at has ⊢
  rw [markReceived, List.getElem?_set]
  split_ifs with same inside
  · rfl
  · exact absurd (List.getElem?_eq_some_iff.mp has).1 (same ▸ inside)
  · exact has

theorem step_advances (balanced : Balanced picker) {call : Call} (forward : goesForward call = true) :
    Advances picker (picker.step call).1 := by
  have moves := step_moves picker call
  generalize (picker.step call).1 = after, asked call (picker.step call).2 = request at moves ⊢
  cases moves with
  | ordered | counted => exact ⟨⟨rfl, rfl, rfl⟩, fun _ able => able, fun _ _ _ received => received⟩
  | @settled _ piece wanted rejected inside =>
    cases wanted with
    | true =>
      rw [rejected rfl] at forward
      cases forward
    | false =>
      obtain ⟨_, _, _, _, settled, _⟩ := settled_frame picker piece false
      rw [settled]
      exact advances_finished balanced.toFlags (inside balanced) ⟨rfl, rfl, rfl⟩ rfl rfl rfl
  | enabled | restored | reset => cases forward
  | opened _ opened | asked _ opened => exact advances_insert fun _ => opened.has_iff.mpr
  | repeated present | cancelled present =>
    exact advances_insert fun _ => (Opened.present _ present).has_iff.mpr
  | received present =>
    exact advances_insert fun _ received =>
      has_markReceived_of_has ((Opened.present _ present).has_iff.mpr received)

theorem pieceCount_le_totalLength (positive : ∀ piece, 0 < picker.pieceLengthFor piece) :
    picker.pieceCount ≤ picker.totalLength := by
  have each : ∑ _piece ∈ range picker.pieceCount, 1 ≤ picker.totalLength :=
    sum_le_sum fun piece _ => positive piece
  rwa [← card_eq_sum_ones, card_range] at each

theorem SameLayout.totalLength {before : PiecePicker} (same : SameLayout before after) :
    after.totalLength = before.totalLength := by
  rw [PiecePicker.totalLength, PiecePicker.totalLength, same.pieceCount]
  exact sum_congr rfl fun piece _ => same.pieceLengthFor piece

/-- After any history of calls, for positive piece lengths that add up to less than `2 ^ 64`:
the bytes left are those of the wanted and enabled pieces less what was received of them, with
no clamping; nothing is left exactly when the picker is complete; and the calls that go
forward never add to what is left. -/
theorem bytes_left_exact (pieceCount defaultPieceLength lastPieceLength : Nat)
    (defaultPositive : 0 < defaultPieceLength) (lastPositive : 0 < lastPieceLength)
    (bounded : (new pieceCount defaultPieceLength lastPieceLength).totalLength < 2 ^ 64)
    (calls : List Call) (picker : PiecePicker)
    (reached : (new pieceCount defaultPieceLength lastPieceLength).run calls = picker) :
    picker.bytesLeft =
        ∑ piece ∈ picker.remaining, (picker.pieceLengthFor piece - picker.receivedLength piece) ∧
      (∀ piece, picker.receivedLength piece ≤ picker.pieceLengthFor piece) ∧
      picker.bytesLeft + ∑ piece ∈ picker.remaining, picker.receivedLength piece =
        ∑ piece ∈ picker.remaining, picker.pieceLengthFor piece ∧
      (picker.bytesLeft = 0 ↔ picker.isComplete = true) ∧
      ∀ call, goesForward call = true → (picker.step call).1.bytesLeft ≤ picker.bytesLeft := by
  have positive : ∀ piece,
      0 < (new pieceCount defaultPieceLength lastPieceLength).pieceLengthFor piece := by
    intro piece
    unfold pieceLengthFor
    split
    · exact lastPositive
    · exact defaultPositive
  have pieces : pieceCount < 2 ^ 64 := (pieceCount_le_totalLength positive).trans_lt bounded
  have exact : ∀ calls, Consistent ((new pieceCount defaultPieceLength lastPieceLength).run calls) ∧
      ((new pieceCount defaultPieceLength lastPieceLength).run calls).totalLength < 2 ^ 64 := by
    intro calls
    have start := new_consistent pieces defaultPositive lastPositive
    refine ⟨run_consistent start calls, ?_⟩
    rwa [(run_layout _ calls).totalLength]
  subst reached
  obtain ⟨consistent, small⟩ := exact calls
  obtain ⟨sum, left⟩ := bytesLeft_exact consistent.toBalanced small
  refine ⟨left, receivedLength_le _, sum, ?_, ?_⟩
  · rw [left]
    exact missingBytes_eq_zero consistent
  · intro call forward
    obtain ⟨later, smaller⟩ := exact (calls ++ [call])
    rw [run_append] at later smaller
    obtain ⟨_, leftAfter⟩ := bytesLeft_exact later.toBalanced smaller
    refine leftAfter.le.trans (left ▸ ?_)
    exact (step_advances consistent.toBalanced forward).missingBytes_le
      consistent.toFlags later.toFlags

/-- A picker with one of two blocks received. -/
theorem bytes_left_of_half : ∃ picker,
    (new 1 32768 32768).run [.restorePartialPiece 0 [0]] = picker ∧ picker.bytesLeft = 16384 ∧
      ¬picker.isComplete = true ∧ (picker.blockReceived 0 16384).1.bytesLeft ≤ 16384 := by
  obtain ⟨_, _, _, complete, forward⟩ := bytes_left_exact 1 32768 32768 (by decide) (by decide)
    (by decide) [.restorePartialPiece 0 [0]] _ rfl
  have left : ((new 1 32768 32768).run [.restorePartialPiece 0 [0]]).bytesLeft = 16384 := by decide
  refine ⟨_, rfl, left, ?_, ?_⟩
  · rw [← complete, left]
    decide
  · exact left ▸ forward (.blockReceived 0 16384) rfl

/-! ### Sums that wrap around -/

variable (pieceCount : Nat)

theorem new_remaining (defaultPieceLength lastPieceLength : Nat) :
    (new pieceCount defaultPieceLength lastPieceLength).remaining = range pieceCount := by
  refine filter_true_of_mem fun piece listed => ?_
  have inside : piece < pieceCount := mem_range.mp listed
  simp only [eligible, new, flag_replicate, inside, decide_true, Bool.and_self]

theorem new_receivedLength (defaultPieceLength lastPieceLength piece : Nat) :
    (new pieceCount defaultPieceLength lastPieceLength).receivedLength piece = 0 := by
  refine sum_eq_zero fun block listed => ?_
  rw [mem_filter, isBlockReceived_iff] at listed
  obtain ⟨_, state, present, _⟩ := listed
  cases present

theorem new_pieceLengthFor (length piece : Nat) :
    (new pieceCount length length).pieceLengthFor piece = length := ite_self _

/-- A sum of equal values over the pieces of a new picker. -/
theorem new_sum (length value : Nat) {values : Nat → Nat}
    (same : ∀ piece, values piece = value) :
    ∑ piece ∈ (new pieceCount length length).remaining, values piece = pieceCount * value := by
  rw [new_remaining, sum_const_nat fun piece _ => same piece, card_range]

/-- Of a new picker everything is left, modulo `2 ^ 64`. -/
theorem new_bytesLeft {pieceCount length : Nat} (pieces : pieceCount < 2 ^ 64)
    (bounded : length < 2 ^ 64) :
    (new pieceCount length length).bytesLeft = pieceCount * length % 2 ^ 64 := by
  rw [bytesLeft_eq (new_balanced _ _ pieces) fun piece _ =>
    (new_pieceLengthFor pieceCount length piece).trans_lt bounded]
  rw [new_sum _ _ length (new_pieceLengthFor pieceCount length),
    new_sum _ _ 0 (new_receivedLength pieceCount length length), Nat.mul_zero, Nat.sub_zero]

/-- The lengths of the pieces of a new picker add up to more than 64 bits hold. -/
theorem bytes_left_wraps : ∃ picker, new (2 ^ 32 + 2) (2 ^ 32 - 1) (2 ^ 32 - 1) = picker ∧
    picker.bytesLeft = 2 ^ 32 - 2 ∧
      ∑ piece ∈ picker.remaining, (picker.pieceLengthFor piece - picker.receivedLength piece) =
        2 ^ 64 + 2 ^ 32 - 2 := by
  refine ⟨_, rfl, ?_, ?_⟩
  · rw [new_bytesLeft (by decide) (by decide)]
    decide
  · rw [new_sum _ _ (2 ^ 32 - 1)]
    · decide
    · intro piece
      rw [new_receivedLength, new_pieceLengthFor, Nat.sub_zero]

end PiecePicker

end TorrentNG.Picker
