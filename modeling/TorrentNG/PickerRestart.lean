import TorrentNG.PickChoices
import TorrentNG.PickerProgress

/-!
# A picker across a restart

What survives a restart of `rt-piece-picker`: the pieces that are complete, the pieces that are
disabled, and for each piece in progress the list of its received blocks. A new picker that
is given the three has the same blocks received and the same bytes left, and no requests
outstanding.

Restoring a piece checks the limits for pieces in progress again and refuses a piece that
would be complete. Neither happens here: the restored pieces were in progress together, each
with a block missing.
-/

namespace TorrentNG.Picker

open List MachineArithmetic Option PieceState Tables SortedSlices

/-- The received blocks. There are at most `2 ^ 18` of them, so the index fits in 32 bits. -/
def PieceState.receivedBlocks (state : PieceState) : List Nat :=
  state.received.zipIdx.filterMap fun (received, blockIdx) =>
    if received then some blockIdx else none

def PieceState.receivedBlocksLimited (state : PieceState) (maximum : Nat) : List Nat :=
  state.receivedBlocks.take maximum

namespace PiecePicker

variable (picker : PiecePicker)

def havePieces : List Bool := picker.wanted.map fun wanted => !wanted

def partialPiecesLimited (maxBlocksPerPiece : Nat) : List (Nat × List Nat) :=
  sortBy (compareOn Prod.fst) <| picker.inProgress.entries.filterMap fun ⟨piece, state⟩ =>
    let blocks := state.receivedBlocksLimited maxBlocksPerPiece
    if blocks.isEmpty then none else some (piece % 2 ^ 32, blocks)

def partialPieces : List (Nat × List Nat) :=
  picker.partialPiecesLimited (2 ^ 64 - 1)

/-- The calls that tell a new picker which pieces are complete or disabled. -/
def flagCalls : List Call :=
  ((List.range picker.pieceCount).filter (flag picker.havePieces)).map .markHave ++
    ((List.range picker.pieceCount).filter fun piece => !flag picker.enabled piece).map
      fun piece => .setPieceEnabled piece false

/-- The calls that restore the partial pieces, in order. -/
def restoreCalls (partials : List (Nat × List Nat)) : List Call :=
  partials.map fun (piece, blocks) => .restorePartialPiece piece blocks

/-- A new picker of the same shape that was told what survives a restart. -/
def restarted : PiecePicker :=
  (new picker.pieceCount picker.defaultPieceLength picker.lastPieceLength).run
    (picker.flagCalls ++ restoreCalls picker.partialPieces)

end PiecePicker

/-! ## The blocks of a piece -/

variable {state : PieceState}

theorem mem_receivedBlocks {block : Nat} :
    block ∈ state.receivedBlocks ↔ state.has block = true := by
  rw [receivedBlocks, mem_filterMap, PiecePicker.has_iff]
  constructor
  · rintro ⟨⟨received, blockIdx⟩, listed, chosen⟩
    rw [mk_mem_zipIdx_iff_getElem?] at listed
    cases received with
    | true =>
      obtain rfl := Option.some.inj chosen
      exact listed
    | false => cases chosen
  · intro present
    exact ⟨(true, block), mk_mem_zipIdx_iff_getElem?.mpr present, rfl⟩

/-- There are fewer blocks than the limit for a full list. -/
theorem receivedBlocksLimited_eq {length : Nat} (shaped : Shaped length state)
    (bounded : length < 2 ^ 64) :
    state.receivedBlocksLimited (2 ^ 64 - 1) = state.receivedBlocks := by
  have few : state.receivedBlocks.length ≤ state.received.zipIdx.length := length_filterMap_le _ _
  rw [length_zipIdx, shaped.received] at few
  have blocks : nBlocks length ≤ length :=
    (divCeil_le_iff (by decide)).mpr (Nat.le_mul_of_pos_right _ (by decide))
  exact take_of_length_le (by omega)

/-- The state of a piece with its requests forgotten. -/
def PieceState.cleared (state : PieceState) : PieceState :=
  { state with requested := List.replicate state.requested.length 0 }

theorem restoreBlocks_getElem (state : PieceState) (blocks : List Nat) (block : Nat) :
    (state.restoreBlocks blocks).received[block]? =
      state.received[block]?.map fun received => received || blocks.contains block := by
  induction blocks generalizing state with
  | nil => simp [restoreBlocks]
  | cons first rest ih =>
    refine (ih _).trans ?_
    rw [getElem?_set, contains_cons]
    by_cases same : first = block
    · subst same
      by_cases inside : first < state.received.length
      · simp [inside]
      · simp [inside]
    · have different : (block == first) = false := beq_false_of_ne (Ne.symm same)
      rw [if_neg same, different, Bool.false_or]

/-- Restoring the received blocks of a state gives the state without its requests. -/
theorem restoreBlocks_receivedBlocks {length : Nat} (shaped : Shaped length state) :
    (PieceState.new length).restoreBlocks state.receivedBlocks = state.cleared := by
  have restored := (new_shaped length).restoreBlocks state.receivedBlocks
  have received : ((PieceState.new length).restoreBlocks state.receivedBlocks).received =
      state.received := by
    refine ext_getElem? fun block => ?_
    rw [restoreBlocks_getElem, PieceState.new, getElem?_replicate]
    split
    next inside =>
      rw [← shaped.received] at inside
      rw [map_some, Bool.false_or, getElem?_eq_getElem inside, Option.some.injEq,
        Bool.eq_iff_iff, contains_iff_mem, mem_receivedBlocks, PiecePicker.has_iff,
        getElem?_eq_getElem inside, Option.some.injEq]
    next outside =>
      rw [← shaped.received] at outside
      rw [getElem?_eq_none (Nat.le_of_not_lt outside)]
      rfl
  have requested : ((PieceState.new length).restoreBlocks state.receivedBlocks).requested =
      List.replicate state.requested.length 0 := by
    rw [restoreBlocks_requested, shaped.requested]
    rfl
  have same := restored.pieceLength.trans shaped.pieceLength.symm
  generalize (PieceState.new length).restoreBlocks state.receivedBlocks = after at *
  obtain ⟨_, _, _⟩ := after
  cases same
  cases received
  cases requested
  rfl

namespace PiecePicker

/-! ## Flags -/

variable {piece : Nat} {picker old : PiecePicker} {done : List Nat}

/-- A picker with nothing in progress, whose flags were cleared for some of its pieces. -/
structure Unstarted (picker : PiecePicker) (complete disabled : List Nat) : Prop where
  wantedLength : picker.wanted.length = picker.pieceCount
  enabledLength : picker.enabled.length = picker.pieceCount
  wanted : ∀ piece, flag picker.wanted piece =
    (decide (piece < picker.pieceCount) && !complete.contains piece)
  enabled : ∀ piece, flag picker.enabled piece =
    (decide (piece < picker.pieceCount) && !disabled.contains piece)
  nothing : picker.inProgress = ∅

variable {count : Nat}

theorem flag_clear {flags : List Bool} {cleared : List Nat}
    (length : flags.length = count) (inside : piece < count)
    (before : ∀ other, flag flags other = (decide (other < count) && !cleared.contains other))
    (other : Nat) : flag (flags.set piece false) other =
      (decide (other < count) && !(cleared ++ [piece]).contains other) := by
  rw [flag_set flags piece other false (length.symm ▸ inside), before]
  by_cases same : piece = other
  · simp [same]
  · simp [same, Ne.symm same]

theorem Unstarted.markHave {complete disabled : List Nat}
    (unstarted : Unstarted picker complete disabled) (inside : piece < picker.pieceCount) :
    Unstarted (picker.markHave piece) (complete ++ [piece]) disabled := by
  obtain ⟨_, _, _, _, settled, _⟩ := settled_frame picker piece false
  rw [PiecePicker.markHave, if_pos inside, settled]
  refine ⟨by rw [length_set, unstarted.wantedLength], unstarted.enabledLength,
    flag_clear unstarted.wantedLength inside unstarted.wanted, unstarted.enabled, ?_⟩
  rw [unstarted.nothing]
  rfl

theorem Unstarted.disable {complete disabled : List Nat}
    (unstarted : Unstarted picker complete disabled) (inside : piece < picker.pieceCount) :
    Unstarted (picker.setPieceEnabled piece false) complete (disabled ++ [piece]) := by
  obtain ⟨outside, _⟩ | ⟨_, _, _, _, off, _⟩ := setPieceEnabled_cases picker piece false
  · exact absurd inside outside.not_gt
  rw [off]
  refine ⟨unstarted.wantedLength, by rw [length_set, unstarted.enabledLength],
    unstarted.wanted, flag_clear unstarted.enabledLength inside unstarted.enabled, ?_⟩
  rw [unstarted.nothing]
  rfl

/-- The same call for one piece after another, each of which adds its piece to a list. -/
theorem run_each (call : Nat → Call) (holds : PiecePicker → List Nat → Prop)
    (step : ∀ {picker : PiecePicker} {done : List Nat} {piece : Nat}, holds picker done →
      piece < picker.pieceCount → holds (picker.step (call piece)).1 (done ++ [piece]))
    (start : holds picker done) (pieces : List Nat)
    (inside : ∀ piece ∈ pieces, piece < picker.pieceCount) :
    holds (picker.run (pieces.map call)) (done ++ pieces) := by
  induction pieces generalizing picker done with
  | nil => rwa [append_nil]
  | cons piece rest ih =>
    rw [map_cons, run_cons, append_cons]
    refine ih (step start (inside piece mem_cons_self)) ?_
    intro other listed
    rw [(step_layout picker (call piece)).pieceCount]
    exact inside other (.tail _ listed)

theorem new_unstarted (pieceCount defaultPieceLength lastPieceLength : Nat) :
    Unstarted (new pieceCount defaultPieceLength lastPieceLength) [] [] := by
  have all : ∀ piece, flag (List.replicate pieceCount true) piece =
      (decide (piece < pieceCount) && !([] : List Nat).contains piece) := by
    intro piece
    rw [flag_replicate, contains_nil, Bool.not_false, Bool.and_true, Bool.true_and]
  exact ⟨length_replicate, length_replicate, all, all, rfl⟩

/-- A new picker that was told which pieces are complete or disabled. -/
def flagged : PiecePicker :=
  (new picker.pieceCount picker.defaultPieceLength picker.lastPieceLength).run picker.flagCalls

theorem flagged_layout (picker : PiecePicker) : SameLayout picker picker.flagged := by
  have layout := run_layout (new picker.pieceCount picker.defaultPieceLength
    picker.lastPieceLength) picker.flagCalls
  exact ⟨layout.pieceCount, layout.defaultPieceLength, layout.lastPieceLength⟩

theorem flagged_unstarted (picker : PiecePicker) : Unstarted picker.flagged
      ((List.range picker.pieceCount).filter (flag picker.havePieces))
      ((List.range picker.pieceCount).filter fun piece => !flag picker.enabled piece) := by
  have listed : ∀ test : Nat → Bool, ∀ piece ∈ (List.range picker.pieceCount).filter test,
      piece < picker.pieceCount :=
    fun test piece member => mem_range.mp (mem_filter.mp member).1
  have marked := run_each .markHave (fun after done => Unstarted after done [])
    Unstarted.markHave
    (new_unstarted picker.pieceCount picker.defaultPieceLength picker.lastPieceLength) _
    (listed (flag picker.havePieces))
  have disabled := run_each (fun piece => .setPieceEnabled piece false)
    (fun after done => Unstarted after _ done) Unstarted.disable marked
    ((List.range picker.pieceCount).filter fun piece => !flag picker.enabled piece)
    (fun piece member => (listed _ piece member).trans_eq
      (run_layout (new picker.pieceCount _ _) _).pieceCount.symm)
  rwa [← run_append] at disabled

theorem flag_outside {flags : List Bool} (length : flags.length = count)
    (outside : ¬piece < count) : flag flags piece = false := by
  rw [flag, getElem?_eq_none (length ▸ Nat.le_of_not_lt outside)]
  rfl

/-- The flags are those of the old picker. -/
theorem flagged_flags (flags : Flags picker) (piece : Nat) :
    flag picker.flagged.wanted piece = flag picker.wanted piece ∧
      flag picker.flagged.enabled piece = flag picker.enabled piece := by
  have unstarted := flagged_unstarted picker
  rw [unstarted.wanted, unstarted.enabled, (flagged_layout picker).pieceCount]
  by_cases inside : piece < picker.pieceCount
  · have complement : flag picker.havePieces piece = !flag picker.wanted piece := by
      have bound : piece < picker.wanted.length := flags.wanted.symm ▸ inside
      rw [flag, flag, havePieces, getElem?_map, getElem?_eq_getElem bound]
      rfl
    simp [inside, complement]
  · rw [flag_outside flags.wanted inside, flag_outside flags.enabled inside]
    simp [inside]

theorem flagged_balanced (flags : Flags picker) : Balanced picker.flagged :=
  run_balanced (new_balanced picker.defaultPieceLength picker.lastPieceLength
    flags.pieces) picker.flagCalls

/-! ## Partial pieces -/

/-- What becomes of a piece in progress: it is kept without its requests if a block of it was
received. -/
def survivor (piece : Nat) : Option PieceState :=
  (picker.inProgress.lookup piece).bind fun state =>
    if state.receivedBlocks.isEmpty then none else some state.cleared

theorem survivor_eq_some {kept : PieceState} :
    picker.survivor piece = some kept ↔ ∃ state, picker.inProgress.lookup piece = some state ∧
      state.receivedBlocks.isEmpty = false ∧ state.cleared = kept := by
  rw [survivor, bind_eq_some_iff]
  refine exists_congr fun state => and_congr_right fun _ => ?_
  cases state.receivedBlocks.isEmpty with
  | true => simp
  | false => simp

/-- The entry of a piece in the list of partial pieces. -/
def partialEntry (piece : Nat) : Option (Nat × List Nat) :=
  (picker.survivor piece).map fun state => (piece, state.receivedBlocks)

/-- The partial pieces are listed in ascending order, for at most `2 ^ 32` pieces. -/
theorem partialPieces_eq (balanced : Balanced picker) (few : picker.pieceCount ≤ 2 ^ 32)
    (bounded : ∀ piece, picker.pieceLengthFor piece < 2 ^ 64) :
    picker.partialPieces = (List.range picker.pieceCount).filterMap picker.partialEntry := by
  have inside : ∀ piece state, picker.inProgress.lookup piece = some state →
      piece ∈ List.range picker.pieceCount := fun piece state present =>
    mem_range.mpr (lt_of_eligible balanced.toFlags (balanced.filled.states piece state present).1)
  refine sortBy_eq_of_perm ((filterMap_entries_perm (fun piece state =>
    let blocks := state.receivedBlocksLimited (2 ^ 64 - 1)
    if blocks.isEmpty then none else some (piece % 2 ^ 32, blocks)) nodup_range inside).trans
      (List.Perm.of_eq ?_)) ?_
  · refine filterMap_congr fun piece listed => ?_
    unfold partialEntry survivor
    cases present : picker.inProgress.lookup piece with
    | none => rfl
    | some state =>
      have shaped := (balanced.filled.states piece state present).2.toShaped
      have small : piece < 2 ^ 32 := Nat.lt_of_lt_of_le (mem_range.mp listed) few
      rw [bind_some, bind_some]
      dsimp only
      rw [receivedBlocksLimited_eq shaped (bounded piece), Nat.mod_eq_of_lt small]
      split
      · rfl
      · rfl
  · refine pairwise_lt_range.filterMap _ ?_
    intro first second before one listed other found
    have number : ∀ {piece : Nat} {entry : Nat × List Nat},
        picker.partialEntry piece = some entry → entry.1 = piece := by
      intro piece entry chosen
      obtain ⟨state, _, rfl⟩ := map_eq_some_iff.mp chosen
      rfl
    rw [compareOn, number listed, number found]
    exact Nat.compare_eq_lt.mpr before

/-! ## Restoring -/

/-- A picker that is being restored from an old one, as far as the given pieces. -/
structure Restoring (old : PiecePicker) (done : List Nat) (picker : PiecePicker) : Prop where
  balanced : Balanced picker
  layout : SameLayout old picker
  wanted : ∀ piece, flag picker.wanted piece = flag old.wanted piece
  enabled : ∀ piece, flag picker.enabled piece = flag old.enabled piece
  table : ∀ piece, picker.inProgress.lookup piece = if piece ∈ done then old.survivor piece else none

theorem flagged_restoring (flags : Flags picker) : Restoring picker [] picker.flagged := by
  refine ⟨flagged_balanced flags, flagged_layout picker, fun piece => (flagged_flags flags piece).1,
    fun piece => (flagged_flags flags piece).2, fun piece => ?_⟩
  rw [(flagged_unstarted picker).nothing]
  rfl

/-- The memory accounted for the pieces of a table. -/
theorem stateBytes_eq {eligible : Nat → Bool} {length : Nat → Nat} {table : Table Nat PieceState}
    {bytes : Nat} (filled : Filled eligible length table bytes) :
    bytes = total (fun piece _ => pieceStateMemoryBytes (length piece)) table := by
  rw [filled.exact, stateBytes, total, total]
  refine congrArg List.sum (map_congr_left fun entry listed => ?_)
  have held := (filled.states entry.1 entry.2 (AList.mem_lookup_iff.mpr listed)).2
  rw [held.pieceLength]

/-- A piece of the old picker that was not restored yet can be admitted. -/
theorem Restoring.room (restoring : Restoring old done picker) (balanced : Balanced old)
    (present : old.inProgress.lookup piece = some state) (fresh : piece ∉ done) :
    picker.inProgress.lookup piece = none ∧
      picker.canAdmitPieceState (picker.pieceLengthFor piece) = true := by
  have absent : picker.inProgress.lookup piece = none :=
    (restoring.table piece).trans (if_neg fresh)
  have inside : ∀ other, ((picker.inProgress.insert piece state).lookup other).isSome = true →
      (old.inProgress.lookup other).isSome = true := by
    intro other found
    by_cases same : other = piece
    · rw [same, present]
      rfl
    · rw [AList.lookup_insert_ne same, restoring.table] at found
      split at found
      · obtain ⟨kept, chosen⟩ := isSome_iff_exists.mp found
        obtain ⟨before, stored, _⟩ := survivor_eq_some.mp chosen
        rw [stored]
        rfl
      · cases found
  have count := total_mono (fun _ => 1) inside
  have memory := total_mono (fun piece => pieceStateMemoryBytes (old.pieceLengthFor piece)) inside
  rw [total_insert_fresh _ absent, ← size_eq_total, ← size_eq_total] at count
  rw [total_insert_fresh _ absent, ← stateBytes_eq balanced.filled] at memory
  have lengths : picker.pieceLengthFor = old.pieceLengthFor :=
    funext restoring.layout.pieceLengthFor
  have bytes := stateBytes_eq restoring.balanced.filled
  rw [lengths] at bytes
  rw [← bytes] at memory
  refine ⟨absent, ?_⟩
  have limit := memory.trans balanced.filled.bounded
  have small : maxInProgressPieceStateBytes < 2 ^ 64 := by decide
  rw [canAdmitPieceState, lengths, checkedAdd_of_lt (limit.trans_lt small)]
  simp only [Bool.and_eq_true, decide_eq_true_eq]
  exact ⟨count.trans balanced.filled.few, limit⟩

/-- A piece with a received block is not empty. -/
theorem length_pos_of_received {length : Nat} (shaped : Shaped length state)
    (listed : state.receivedBlocks.isEmpty = false) : 0 < length := by
  refine Nat.pos_of_ne_zero ?_
  rintro rfl
  have nothing : state.received = [] := eq_nil_of_length_eq_zero shaped.received
  rw [receivedBlocks, nothing] at listed
  cases listed

/-- A partial piece is restored as it was. -/
theorem Restoring.restore (restoring : Restoring old done picker) (balanced : Balanced old)
    (present : old.inProgress.lookup piece = some state)
    (listed : state.receivedBlocks.isEmpty = false) (fresh : piece ∉ done) :
    Restoring old (done ++ [piece]) (picker.restorePartialPiece piece state.receivedBlocks) := by
  obtain ⟨able, held⟩ := balanced.filled.states piece state present
  obtain ⟨absent, room⟩ := restoring.room balanced present fresh
  obtain ⟨wanted, enabled⟩ := Bool.and_eq_true_iff.mp able
  have inside := lt_of_eligible balanced.toFlags able
  have restored := restoreBlocks_receivedBlocks held.toShaped
  have incomplete : state.cleared.isComplete = false :=
    held.missing (length_pos_of_received held.toShaped listed)
  rw [← restored, ← restoring.layout.pieceLengthFor] at incomplete
  have same : picker.eligible piece = true := by
    rw [eligible, restoring.wanted, restoring.enabled, wanted, enabled]
    rfl
  have step := restorePartialPiece_accepted same
    (restoring.layout.pieceCount.symm ▸ inside) listed absent room incomplete
  rw [restoring.layout.pieceLengthFor, restored] at step
  have kept : Balanced (picker.restorePartialPiece piece state.receivedBlocks) :=
    step_balanced restoring.balanced (.restorePartialPiece piece state.receivedBlocks)
  rw [step] at kept ⊢
  refine ⟨kept, ⟨restoring.layout.pieceCount, restoring.layout.defaultPieceLength,
    restoring.layout.lastPieceLength⟩, restoring.wanted, restoring.enabled, fun other => ?_⟩
  by_cases same : other = piece
  · subst same
    rw [AList.lookup_insert, if_pos (mem_append_right _ mem_cons_self)]
    exact (survivor_eq_some.mpr ⟨state, present, listed, rfl⟩).symm
  · rw [AList.lookup_insert_ne same, restoring.table]
    simp [same]

/-- The pieces are restored one after another. -/
theorem Restoring.run (restoring : Restoring old done picker) (balanced : Balanced old)
    (pieces : List Nat) (distinct : pieces.Nodup) (fresh : ∀ piece ∈ pieces, piece ∉ done) :
    Restoring old (done ++ pieces) (picker.run (restoreCalls (pieces.filterMap old.partialEntry))) := by
  induction pieces generalizing picker done with
  | nil => rwa [append_nil]
  | cons piece rest ih =>
    obtain ⟨apart, others⟩ := nodup_cons.mp distinct
    have later : ∀ other ∈ rest, other ∉ done ++ [piece] := by
      intro other listed before
      rcases mem_append.mp before with earlier | here
      · exact fresh other (.tail _ listed) earlier
      · exact apart (mem_singleton.mp here ▸ listed)
    rw [append_cons]
    cases kept : old.survivor piece with
    | none =>
      have entry : old.partialEntry piece = none := map_eq_none_iff.mpr kept
      rw [filterMap_cons_none entry]
      -- a piece without a received block is left out
      refine ih { restoring with table := fun other => ?_ } others later
      rw [restoring.table]
      by_cases same : other = piece
      · simp [same, kept]
      · simp [same]
    | some after =>
      obtain ⟨state, present, listed, rfl⟩ := survivor_eq_some.mp kept
      have entry : old.partialEntry piece = some (piece, state.receivedBlocks) :=
        map_eq_some_iff.mpr ⟨_, kept, rfl⟩
      rw [filterMap_cons_some entry]
      have restored := restoring.restore balanced present listed (fresh piece mem_cons_self)
      exact ih restored others later

/-- The restarted picker holds the pieces that survive. -/
theorem restarted_restoring (balanced : Balanced picker) (few : picker.pieceCount ≤ 2 ^ 32)
    (bounded : ∀ piece, picker.pieceLengthFor piece < 2 ^ 64) :
    Restoring picker (List.range picker.pieceCount) picker.restarted := by
  have restored := (flagged_restoring balanced.toFlags).run balanced (List.range picker.pieceCount)
    nodup_range fun _ _ => not_mem_nil
  rw [← partialPieces_eq balanced few bounded, nil_append, flagged, ← run_append] at restored
  exact restored

section

variable (balanced : Balanced picker)
  (restoring : Restoring picker (List.range picker.pieceCount) picker.restarted)

include balanced restoring

variable (piece : Nat)

theorem restarted_lookup :
    picker.restarted.inProgress.lookup piece = picker.survivor piece := by
  rw [restoring.table]
  split
  next => rfl
  next outside =>
    cases kept : picker.survivor piece with
    | none => rfl
    | some after =>
      obtain ⟨state, present, _⟩ := survivor_eq_some.mp kept
      have able := (balanced.filled.states piece state present).1
      exact absurd (mem_range.mpr (lt_of_eligible balanced.toFlags able)) outside

/-- What survives a restart survives the next one. -/
theorem restarted_survivor :
    picker.restarted.survivor piece = picker.survivor piece := by
  rw [survivor, restarted_lookup balanced restoring]
  cases kept : picker.survivor piece with
  | none => rfl
  | some after =>
    obtain ⟨state, present, listed, rfl⟩ := survivor_eq_some.mp kept
    have same : state.cleared.cleared = state.cleared := by
      rw [cleared, cleared, length_replicate]
    have blocks : state.cleared.receivedBlocks = state.receivedBlocks := rfl
    rw [bind_some, blocks, listed, if_neg Bool.false_ne_true, same]

theorem restarted_received (block : Nat) :
    (picker.restarted.view piece).Received block ↔ (picker.view piece).Received block := by
  simp only [View.Received, view, restarted_lookup balanced restoring]
  constructor
  · rintro ⟨kept, chosen, has⟩
    obtain ⟨state, present, _, rfl⟩ := survivor_eq_some.mp chosen
    exact ⟨state, present, has⟩
  · rintro ⟨state, present, has⟩
    refine ⟨state.cleared, survivor_eq_some.mpr ⟨state, present, ?_, rfl⟩, has⟩
    exact isEmpty_eq_false_iff_exists_mem.mpr ⟨block, mem_receivedBlocks.mpr has⟩

end

/-- The bytes that are left depend on the flags and on what was received. -/
theorem bytesLeft_congr {before after : PiecePicker} (balanced : Balanced before)
    (balancedAfter : Balanced after) (layout : SameLayout before after)
    (bounded : ∀ piece, before.pieceLengthFor piece < 2 ^ 64)
    (eligible : ∀ piece, after.eligible piece = before.eligible piece)
    (received : ∀ piece block, (after.view piece).Received block ↔ (before.view piece).Received block) :
    after.bytesLeft = before.bytesLeft := by
  have lengths : after.pieceLengthFor = before.pieceLengthFor := funext layout.pieceLengthFor
  have pieces : after.remaining = before.remaining := by
    rw [remaining, remaining, layout.pieceCount, funext eligible]
  have known : after.receivedLength = before.receivedLength := by
    funext piece
    have same : ∀ block, after.isBlockReceived piece (block * maxBlockSize) =
        before.isBlockReceived piece (block * maxBlockSize) := by
      intro block
      rw [Bool.eq_iff_iff, isBlockReceived_iff, isBlockReceived_iff, received]
    unfold receivedLength
    simp only [same, lengths]
  rw [bytesLeft_eq balanced fun piece _ => bounded piece,
    bytesLeft_eq balancedAfter fun piece _ => lengths ▸ bounded piece, pieces, lengths, known]

/-- A restart after any history of calls, for at most `2 ^ 32` pieces whose lengths fit in
32 bits: the partial pieces and the bytes left are the same, and no request is outstanding. -/
theorem restart_keeps_progress (pieceCount defaultPieceLength lastPieceLength : Nat)
    (few : pieceCount ≤ 2 ^ 32) (defaultBounded : defaultPieceLength < 2 ^ 32)
    (lastBounded : lastPieceLength < 2 ^ 32) (calls : List Call) (picker : PiecePicker)
    (reached : (new pieceCount defaultPieceLength lastPieceLength).run calls = picker) :
    picker.restarted.partialPieces = picker.partialPieces ∧
      picker.restarted.bytesLeft = picker.bytesLeft ∧
      ∀ piece state, picker.restarted.inProgress.lookup piece = some state →
        ∀ requests ∈ state.requested, requests = 0 := by
  have pieces : pieceCount < 2 ^ 64 := Nat.lt_of_le_of_lt few (by decide)
  have balanced : Balanced picker :=
    reached ▸ run_balanced (new_balanced defaultPieceLength lastPieceLength pieces) calls
  have layout : SameLayout (new pieceCount defaultPieceLength lastPieceLength) picker :=
    reached ▸ run_layout _ calls
  have small : picker.pieceCount ≤ 2 ^ 32 := layout.pieceCount.trans_le few
  have bounded : ∀ piece, picker.pieceLengthFor piece < 2 ^ 64 := by
    intro piece
    rw [layout.pieceLengthFor, pieceLengthFor]
    split
    · exact lastBounded.trans (by decide)
    · exact defaultBounded.trans (by decide)
  have restoring := restarted_restoring balanced small bounded
  refine ⟨?_, ?_, ?_⟩
  · rw [partialPieces_eq balanced small bounded, partialPieces_eq restoring.balanced
      (restoring.layout.pieceCount.trans_le small) fun piece =>
        (restoring.layout.pieceLengthFor piece).trans_lt (bounded piece),
      restoring.layout.pieceCount]
    refine List.filterMap_congr fun piece _ => ?_
    rw [partialEntry, partialEntry, restarted_survivor balanced restoring]
  · refine bytesLeft_congr balanced restoring.balanced restoring.layout bounded ?_
      (restarted_received balanced restoring)
    intro piece
    rw [eligible, eligible, restoring.wanted, restoring.enabled]
  · intro piece state present requests listed
    rw [restarted_lookup balanced restoring] at present
    obtain ⟨_, _, _, rfl⟩ := survivor_eq_some.mp present
    exact List.eq_of_mem_replicate listed

/-- One block of two was received and the other is requested. -/
theorem restart_of_half : ∃ picker,
    (new 1 32768 32768).run [.restorePartialPiece 0 [0], .pickFromSeed] = picker ∧
      picker.inProgress.lookup 0 = some ⟨32768, [0, 1], [true, false]⟩ ∧
      picker.restarted.partialPieces = [(0, [0])] ∧ picker.restarted.bytesLeft = 16384 := by
  obtain ⟨partials, left, _⟩ := restart_keeps_progress 1 32768 32768 (by decide) (by decide)
    (by decide) [.restorePartialPiece 0 [0], .pickFromSeed] _ rfl
  exact ⟨_, rfl, by decide, partials.trans (by decide), left.trans (by decide)⟩

/-! ### More pieces than 32 bits count -/

/-- The first piece is complete, and one block of the last piece is on disk. -/
def beyond (count : Nat) : PiecePicker :=
  (new (count + 1) 32768 32768).run [.markHave 0, .restorePartialPiece count [0]]

theorem beyond_state (positive : 0 < count) (bounded : count + 1 < 2 ^ 64) :
    Flags (beyond count) ∧ flag (beyond count).wanted 0 = false ∧
      (beyond count).inProgress = AList.insert count half ∅ := by
  have start := new_balanced 32768 32768 bounded
  have reached : beyond count =
      ((new (count + 1) 32768 32768).markHave 0).restorePartialPiece count [0] := rfl
  have flags : Flags (beyond count) := (run_balanced start _).toFlags
  have balanced : Balanced ((new (count + 1) 32768 32768).markHave 0) := step_balanced start (.markHave 0)
  have layout := step_layout (new (count + 1) 32768 32768) (.markHave 0)
  have unstarted := (new_unstarted (count + 1) 32768 32768).markHave (Nat.succ_pos count)
  change SameLayout _ ((new (count + 1) 32768 32768).markHave 0) at layout
  rw [reached] at flags ⊢
  generalize (new (count + 1) 32768 32768).markHave 0 = picker at *
  have pieces : picker.pieceCount = count + 1 := layout.pieceCount
  have length : picker.pieceLengthFor count = 32768 :=
    (layout.pieceLengthFor count).trans (new_pieceLengthFor (count + 1) 32768 count)
  have able : picker.eligible count = true := by
    rw [eligible, unstarted.wanted, unstarted.enabled, pieces]
    simp [positive.ne']
  have bytes : picker.inProgressBytes = 0 := by
    rw [balanced.filled.exact, unstarted.nothing]
    rfl
  have room : picker.canAdmitPieceState (picker.pieceLengthFor count) = true := by
    rw [length, canAdmitPieceState, bytes, unstarted.nothing]
    decide
  have restored := @restorePartialPiece_accepted picker count [0] able
    (pieces ▸ Nat.lt_succ_self count) rfl (by rw [unstarted.nothing]; rfl) room
    (by rw [length]; decide)
  refine ⟨flags, ?_, ?_⟩
  · rw [restored]
    refine (unstarted.wanted 0).trans ?_
    simp
  · rw [restored, length, unstarted.nothing]
    rfl

/-- The list for a table with one piece. -/
theorem partialPiecesLimited_single {limit : Nat}
    (table : picker.inProgress = AList.insert piece state ∅)
    (listed : (state.receivedBlocksLimited limit).isEmpty = false) :
    picker.partialPiecesLimited limit = [(piece % 2 ^ 32, state.receivedBlocksLimited limit)] := by
  have entries : picker.inProgress.entries = [⟨piece, state⟩] := by
    rw [table]
    rfl
  rw [partialPiecesLimited, entries, filterMap_cons]
  dsimp only
  rw [listed, if_neg Bool.false_ne_true]
  rfl

theorem beyond_restarted (positive : 0 < count) (bounded : count + 1 < 2 ^ 64)
    (wraps : count % 2 ^ 32 = 0) :
    (beyond count).partialPieces = [(0, [0])] ∧ (beyond count).restarted.partialPieces = [] := by
  obtain ⟨flags, complete, table⟩ := beyond_state positive bounded
  have shaped : Shaped 32768 half := ⟨rfl, rfl, rfl⟩
  have blocks : half.receivedBlocksLimited (2 ^ 64 - 1) = [0] :=
    (receivedBlocksLimited_eq shaped (by decide)).trans rfl
  have partials : (beyond count).partialPieces = [(0, [0])] := by
    rw [partialPieces, partialPiecesLimited_single table (by rw [blocks]; rfl), blocks, wraps]
  have refused : (beyond count).restarted = (beyond count).flagged := by
    have unwanted := (flagged_flags flags 0).1.trans complete
    rw [restarted, partials, run_append]
    show (beyond count).flagged.restorePartialPiece 0 [0] = _
    rw [restorePartialPiece, if_pos (.inr (.inr (.inl unwanted)))]
  refine ⟨partials, ?_⟩
  rw [refused, partialPieces, partialPiecesLimited, (flagged_unstarted _).nothing]
  rfl

/-- The number of the last piece wraps around to that of the first, which is complete. -/
theorem restart_loses_piece :
    (beyond (2 ^ 32)).partialPieces = [(0, [0])] ∧ (beyond (2 ^ 32)).restarted.partialPieces = [] :=
  beyond_restarted (by decide) (by decide) (by decide)

end PiecePicker

end TorrentNG.Picker
