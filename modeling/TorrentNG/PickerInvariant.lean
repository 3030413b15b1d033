import TorrentNG.PiecePicker

/-!
# What every history of the picker keeps

The counters and the derived structures of a picker agree with its flags and its pieces in
progress after any calls with any arguments. `Flags` is about the flags of the pieces,
`Filled` about the pieces in progress; each call is described by what it does to the
two, and the whole history follows by induction.
-/

namespace TorrentNG.Picker

open Availability Finset MachineArithmetic Option Tables

theorem flag_set (flags : List Bool) (piece other : Nat) (value : Bool)
    (inside : piece < flags.length) :
    flag (flags.set piece value) other = if piece = other then value else flag flags other :=
  getD_set inside value false other

theorem flag_replicate (count piece : Nat) (value : Bool) :
    flag (List.replicate count value) piece = (value && decide (piece < count)) := by
  rw [flag, List.getElem?_replicate]
  split
  next inside => simp [inside]
  next outside => simp [outside]

/-! ## Pieces in progress -/

/-- The state of a piece has one slot for each of its blocks. -/
structure Shaped (length : Nat) (state : PieceState) : Prop where
  pieceLength : state.pieceLength = length
  requested : state.requested.length = nBlocks length
  received : state.received.length = nBlocks length

/-- The state of a piece in progress: if the piece has blocks, one of them is missing. -/
structure Held (length : Nat) (state : PieceState) : Prop extends Shaped length state where
  missing : 0 < length → state.isComplete = false

/-- The memory accounted for all pieces in progress. -/
def stateBytes (table : Table Nat PieceState) : Nat :=
  total (fun _ state => pieceStateMemoryBytes state.pieceLength) table

/-- The pieces in progress, where `eligible` says which pieces may be and `length` how long
they are, with the bytes accounted for them. -/
structure Filled (eligible : Nat → Bool) (length : Nat → Nat) (table : Table Nat PieceState)
    (bytes : Nat) : Prop where
  states : ∀ piece state, table.lookup piece = some state →
    eligible piece = true ∧ Held (length piece) state
  exact : bytes = stateBytes table
  bounded : bytes ≤ maxInProgressPieceStateBytes
  few : size table ≤ maxInProgressPieces

theorem new_shaped (length : Nat) : Shaped length (PieceState.new length) :=
  ⟨rfl, List.length_replicate, List.length_replicate⟩

variable {length : Nat}

theorem lt_nBlocks {block : Nat} : block < nBlocks length ↔ block * maxBlockSize < length :=
  lt_divCeil_iff (by decide)

theorem nBlocks_pos : 0 < nBlocks length ↔ 0 < length := by
  rw [lt_nBlocks, Nat.zero_mul]

theorem new_held (length : Nat) : Held length (PieceState.new length) := by
  refine ⟨new_shaped length, fun positive => ?_⟩
  obtain ⟨count, blocks⟩ := Nat.exists_eq_succ_of_ne_zero (nBlocks_pos.mpr positive).ne'
  have first : (PieceState.new length).received = false :: List.replicate count false := by
    rw [← List.replicate_succ, ← Nat.succ_eq_add_one, ← blocks]
    rfl
  rw [PieceState.isComplete, first]
  rfl

variable {state : PieceState}

theorem Held.markRequested (held : Held length state) (blockIdx : Nat) :
    Held length (state.markRequested blockIdx) :=
  ⟨⟨held.pieceLength, by rw [PieceState.markRequested, List.length_modify, held.requested],
    held.received⟩, held.missing⟩

theorem Shaped.markReceived (shaped : Shaped length state) (blockIdx : Nat) :
    Shaped length (state.markReceived blockIdx) :=
  ⟨shaped.pieceLength, by rw [PieceState.markReceived, List.length_set, shaped.requested],
    by rw [PieceState.markReceived, List.length_set, shaped.received]⟩

theorem Shaped.restoreBlocks (shaped : Shaped length state)
    (receivedBlocks : List Nat) : Shaped length (state.restoreBlocks receivedBlocks) :=
  List.foldlRecOn receivedBlocks _ shaped fun _ shaped _ _ =>
    ⟨shaped.pieceLength, shaped.requested, by rw [List.length_set, shaped.received]⟩

section Filled

variable {eligible : Nat → Bool} {length : Nat → Nat} {table : Table Nat PieceState} {bytes : Nat}
  {piece : Nat}

section

variable (filled : Filled eligible length table bytes)

include filled

theorem Filled.replace {old new : PieceState} (present : table.lookup piece = some old)
    (held : Held (length piece) new) : Filled eligible length (table.insert piece new) bytes := by
  obtain ⟨able, before⟩ := filled.states piece old present
  refine ⟨?_, ?_, filled.bounded, ?_⟩
  · intro other state found
    rcases lookup_insert_eq_some.mp found with ⟨rfl, rfl⟩ | ⟨_, found⟩
    · exact ⟨able, held⟩
    · exact filled.states other state found
  · rw [filled.exact]
    refine (total_replace _ present ?_).symm
    rw [held.pieceLength, before.pieceLength]
  · rw [size_replace present]
    exact filled.few

theorem Filled.insert {new : PieceState} (absent : table.lookup piece = none)
    (able : eligible piece = true) (held : Held (length piece) new)
    (room : size table < maxInProgressPieces)
    (memory : bytes + pieceStateMemoryBytes (length piece) ≤ maxInProgressPieceStateBytes) :
    Filled eligible length (table.insert piece new)
      (bytes + pieceStateMemoryBytes (length piece)) := by
  refine ⟨?_, ?_, memory, ?_⟩
  · intro other state found
    rcases lookup_insert_eq_some.mp found with ⟨rfl, rfl⟩ | ⟨_, found⟩
    · exact ⟨able, held⟩
    · exact filled.states other state found
  · rw [filled.exact, stateBytes, stateBytes, total_insert_fresh _ absent, held.pieceLength]
  · rw [size_insert_fresh absent]
    exact room

/-- A piece leaves the table, and need not be eligible any more. -/
theorem Filled.erase (present : table.lookup piece = some state) {after : Nat → Bool}
    (others : ∀ other, other ≠ piece → eligible other = true → after other = true) :
    Filled after length (table.erase piece) (bytes - pieceStateMemoryBytes state.pieceLength) := by
  refine ⟨?_, ?_, le_trans (Nat.sub_le _ _) filled.bounded,
    le_trans (size_erase_le table piece) filled.few⟩
  · intro other found present
    obtain ⟨different, present⟩ := lookup_erase_eq_some.mp present
    obtain ⟨able, held⟩ := filled.states other found present
    exact ⟨others other different able, held⟩
  · have erased := total_erase (fun _ state => pieceStateMemoryBytes state.pieceLength) present
    rw [filled.exact, stateBytes, stateBytes, ← erased, Nat.add_sub_cancel]

theorem Filled.relax {after : Nat → Bool}
    (kept : ∀ piece, (table.lookup piece).isSome = true → eligible piece = true →
      after piece = true) : Filled after length table bytes := by
  refine ⟨?_, filled.exact, filled.bounded, filled.few⟩
  intro piece state present
  obtain ⟨able, held⟩ := filled.states piece state present
  exact ⟨kept piece (by rw [present]; rfl) able, held⟩

end

end Filled

/-! ## Flags -/

/-- The number of eligible pieces, and the retired flags of the others. -/
structure Tallied (eligible : Nat → Bool) (pieceCount outstanding : Nat) (retired : List Bool) :
    Prop where
  flags : retired.length = pieceCount
  exact : outstanding = {piece ∈ Finset.range pieceCount | eligible piece = true}.card
  complement : ∀ piece, piece < pieceCount → flag retired piece = !eligible piece

section Tallied

variable {before after : Nat → Bool} {pieceCount outstanding piece : Nat} {retired : List Bool}
  (inside : piece < pieceCount) (others : ∀ other, other ≠ piece → after other = before other)

include inside others

/-- One more piece is eligible. -/
theorem card_eligible (was : before piece = false) (now : after piece = true) :
    {other ∈ range pieceCount | after other = true}.card =
      {other ∈ range pieceCount | before other = true}.card + 1 := by
  have grown : ({other ∈ range pieceCount | after other = true} : Finset Nat) =
      insert piece {other ∈ range pieceCount | before other = true} := by
    ext other
    rw [mem_insert, mem_filter, mem_filter, mem_range]
    by_cases same : other = piece
    · subst same
      simp only [inside, now, and_self, true_or]
    · rw [others other same, or_iff_right same]
  rw [grown, card_insert_of_notMem]
  rw [mem_filter, was]
  exact fun member => Bool.false_ne_true member.2

variable (tallied : Tallied before pieceCount outstanding retired)

include tallied

/-- Setting the retired flag of the one piece that changed. -/
theorem Tallied.complement_set (other : Nat) (within : other < pieceCount) :
    flag (retired.set piece !(after piece)) other = !after other := by
  rw [flag_set retired piece other _ (tallied.flags ▸ inside)]
  split
  next same => rw [same]
  next same => rw [tallied.complement other within, others other (Ne.symm same)]

/-- A piece becomes eligible. -/
theorem Tallied.reinstate (limit : pieceCount < 2 ^ 64) (was : before piece = false)
    (now : after piece = true) :
    Tallied after pieceCount (saturatingAdd outstanding 1) (retired.set piece false) := by
  have grown := card_eligible inside others was now
  have few := card_filter_le (range pieceCount) fun other => after other = true
  rw [card_range, grown, ← tallied.exact] at few
  refine ⟨by rw [List.length_set, tallied.flags], ?_, ?_⟩
  · rw [grown, ← tallied.exact, saturatingAdd_of_lt (by omega)]
  · have flagged := tallied.complement_set inside others
    rwa [now] at flagged

/-- A piece stops being eligible. -/
theorem Tallied.retire (was : before piece = true) (now : after piece = false) :
    Tallied after pieceCount (outstanding - 1) (retired.set piece true) := by
  have shrunk := card_eligible inside (fun other apart => (others other apart).symm) now was
  refine ⟨by rw [List.length_set, tallied.flags], ?_, ?_⟩
  · rw [tallied.exact, shrunk, Nat.add_sub_cancel]
  · have flagged := tallied.complement_set inside others
    rwa [now] at flagged

end Tallied

namespace PiecePicker

/-- A piece that is both wanted and enabled. -/
def eligible (picker : PiecePicker) (piece : Nat) : Bool :=
  flag picker.wanted piece && flag picker.enabled piece

/-- One flag of each kind for each piece, and the counter and the retired flags derived from
them. -/
structure Flags (picker : PiecePicker) : Prop where
  pieces : picker.pieceCount < 2 ^ 64
  wanted : picker.wanted.length = picker.pieceCount
  enabled : picker.enabled.length = picker.pieceCount
  tallied : Tallied picker.eligible picker.pieceCount picker.outstandingWanted
    picker.availability.retired

/-- The invariant of a picker of any piece lengths: its flags, and its pieces in progress. -/
structure Balanced (picker : PiecePicker) : Prop extends Flags picker where
  filled : Filled picker.eligible picker.pieceLengthFor picker.inProgress picker.inProgressBytes

/-- The invariant of a picker of positive piece lengths. -/
structure Consistent (picker : PiecePicker) : Prop extends Balanced picker where
  defaultLength : 0 < picker.defaultPieceLength
  lastLength : 0 < picker.lastPieceLength

theorem new_balanced {pieceCount : Nat} (defaultPieceLength lastPieceLength : Nat)
    (pieces : pieceCount < 2 ^ 64) :
    Balanced (new pieceCount defaultPieceLength lastPieceLength) := by
  have able : ∀ piece, piece < pieceCount →
      (new pieceCount defaultPieceLength lastPieceLength).eligible piece = true := by
    intro piece inside
    simp only [eligible, new, flag_replicate, inside, decide_true, Bool.and_self]
  refine ⟨⟨pieces, List.length_replicate, List.length_replicate,
    ⟨List.length_replicate, ?_, ?_⟩⟩, ⟨nofun, rfl, Nat.zero_le _, Nat.zero_le _⟩⟩
  · refine ((congrArg Finset.card (filter_true_of_mem ?_)).trans (card_range _)).symm
    exact fun piece inside => able piece (mem_range.mp inside)
  · intro piece inside
    have shown : (Availability.new pieceCount).retired[piece]? = some false := by
      rw [Availability.new, List.getElem?_replicate]
      exact if_pos inside
    rw [able piece inside, flag, new, shown]
    rfl

variable {picker before : PiecePicker} {piece : Nat}

theorem pieceLengthFor_pos (consistent : Consistent picker) (piece : Nat) :
    0 < picker.pieceLengthFor piece := by
  unfold pieceLengthFor
  split
  · exact consistent.lastLength
  · exact consistent.defaultLength

/-- Without empty pieces, every piece in progress lacks a block. -/
theorem Consistent.missing (consistent : Consistent picker)
    (present : picker.inProgress.lookup piece = some state) : state.isComplete = false :=
  (consistent.filled.states piece state present).2.missing (pieceLengthFor_pos consistent piece)

theorem new_consistent {pieceCount defaultPieceLength lastPieceLength : Nat}
    (pieces : pieceCount < 2 ^ 64) (defaultPositive : 0 < defaultPieceLength)
    (lastPositive : 0 < lastPieceLength) :
    Consistent (new pieceCount defaultPieceLength lastPieceLength) :=
  ⟨new_balanced defaultPieceLength lastPieceLength pieces, defaultPositive, lastPositive⟩

/-! ## Calls that change the flags of one piece -/

/-- What a change of flags does to the availability: at most one piece is retired or
reinstated. -/
inductive Adjusted (before : Availability) : Availability → Prop
  | unchanged : Adjusted before before
  | retired (piece : Nat) : Adjusted before (before.retire piece)
  | reinstated (piece : Nat) : Adjusted before (before.reinstate piece)

variable (picker piece)

/-- The counter and the retired flag follow a change of one piece; nothing else changes. -/
theorem adjustOutstanding_spec (oldWanted oldEnabled newWanted newEnabled : Bool) :
    ∃ outstandingWanted availability, Adjusted picker.availability availability ∧
      picker.adjustOutstanding piece oldWanted oldEnabled newWanted newEnabled =
        { picker with outstandingWanted, availability } ∧
      ∀ before, Tallied before picker.pieceCount picker.outstandingWanted
          picker.availability.retired → picker.pieceCount < 2 ^ 64 → piece < picker.pieceCount →
        (∀ other, other ≠ piece → picker.eligible other = before other) →
        (oldWanted && oldEnabled) = before piece →
        (newWanted && newEnabled) = picker.eligible piece →
        Tallied picker.eligible picker.pieceCount outstandingWanted availability.retired := by
  unfold adjustOutstanding
  match oldWanted && oldEnabled, newWanted && newEnabled with
  | false, true =>
    refine ⟨_, _, .reinstated piece, rfl, fun before tallied limit inside others was now => ?_⟩
    rw [reinstate_retired]
    exact tallied.reinstate inside others limit was.symm now.symm
  | true, false =>
    refine ⟨_, _, .retired piece, rfl, fun before tallied _ inside others was now => ?_⟩
    rw [retire_retired]
    exact tallied.retire inside others was.symm now.symm
  | true, true | false, false =>
    refine ⟨_, _, .unchanged, rfl, fun before tallied _ _ others was now => ?_⟩
    have same : picker.eligible = before := by
      funext other
      by_cases here : other = piece
      · rw [here, ← was, ← now]
      · exact others other here
    rwa [same]

variable (wanted : Bool)

theorem setWanted_spec :
    ∃ outstandingWanted availability, Adjusted picker.availability availability ∧
      picker.setWanted piece wanted =
        { picker with wanted := picker.wanted.set piece wanted, outstandingWanted, availability } ∧
      (Flags picker → piece < picker.pieceCount → Flags (picker.setWanted piece wanted)) := by
  obtain ⟨outstandingWanted, availability, adjusted, same, tallied⟩ := adjustOutstanding_spec
    { picker with wanted := picker.wanted.set piece wanted } piece (flag picker.wanted piece)
    (flag picker.enabled piece) wanted (flag picker.enabled piece)
  refine ⟨outstandingWanted, availability, adjusted, same, fun flags inside => ?_⟩
  have set := fun other => flag_set picker.wanted piece other wanted (flags.wanted.symm ▸ inside)
  rw [setWanted, same]
  refine ⟨flags.pieces, by rw [List.length_set, flags.wanted], flags.enabled,
    tallied _ flags.tallied flags.pieces inside (fun other different => ?_) rfl ?_⟩
  · simp only [eligible, set, if_neg (Ne.symm different)]
  · simp only [eligible, set, if_true]

theorem removeInProgress_frame :
    ∃ inProgressBytes, picker.removeInProgress piece =
      { picker with inProgressBytes, inProgress := picker.inProgress.erase piece } := by
  unfold removeInProgress
  split
  next absent => exact ⟨_, by rw [erase_of_lookup_none absent]⟩
  next => exact ⟨_, rfl⟩

variable {picker piece}

/-- Once a piece has left the table, only the other pieces need to be eligible. -/
theorem removeInProgress_balanced {before : Nat → Bool} (flags : Flags picker)
    (filled : Filled before picker.pieceLengthFor picker.inProgress picker.inProgressBytes)
    (others : ∀ other, other ≠ piece → picker.eligible other = before other) :
    Balanced (picker.removeInProgress piece) := by
  unfold removeInProgress
  split
  next absent =>
    refine ⟨flags, filled.relax ?_⟩
    intro other present able
    rw [others other, able]
    rintro rfl
    rw [absent] at present
    cases present
  next state present =>
    refine ⟨{ flags with }, filled.erase present ?_⟩
    intro other different able
    rw [← able]
    exact others other different

/-! ## Calls that change the pieces in progress -/

/-- A change of the table alone. -/
theorem Balanced.withTable (balanced : Balanced picker) {inProgress : Table Nat PieceState}
    {inProgressBytes : Nat}
    (filled : Filled picker.eligible picker.pieceLengthFor inProgress inProgressBytes) :
    Balanced { picker with inProgress, inProgressBytes } :=
  { balanced with filled }

/-- A partial piece that passes every check is put into the table. -/
theorem restorePartialPiece_accepted {blocks : List Nat} (able : picker.eligible piece = true)
    (inside : piece < picker.pieceCount) (listed : blocks.isEmpty = false)
    (absent : picker.inProgress.lookup piece = none)
    (room : picker.canAdmitPieceState (picker.pieceLengthFor piece) = true)
    (missing : ((PieceState.new (picker.pieceLengthFor piece)).restoreBlocks blocks).isComplete =
      false) :
    picker.restorePartialPiece piece blocks =
      { picker with
        inProgressBytes := saturatingAdd picker.inProgressBytes
          (pieceStateMemoryBytes (picker.pieceLengthFor piece))
        inProgress := picker.inProgress.insert piece
          ((PieceState.new (picker.pieceLengthFor piece)).restoreBlocks blocks) } := by
  obtain ⟨wanted, enabled⟩ := Bool.and_eq_true_iff.mp able
  unfold restorePartialPiece
  rw [if_neg]
  · dsimp only
    rw [missing, if_neg Bool.false_ne_true]
  · rw [wanted, enabled, listed, absent, room]
    simp [inside]

/-- The state from which a block of a piece is picked, with the bytes accounted once it is
in the table: the one in progress, or a new one if there is room. -/
inductive Opened (picker : PiecePicker) (piece : Nat) : PieceState → Nat → Prop
  | present (state : PieceState) (found : picker.inProgress.lookup piece = some state) :
      Opened picker piece state picker.inProgressBytes
  | fresh (absent : picker.inProgress.lookup piece = none)
      (room : picker.canAdmitPieceState (picker.pieceLengthFor piece) = true) :
      Opened picker piece (PieceState.new (picker.pieceLengthFor piece))
        (saturatingAdd picker.inProgressBytes (pieceStateMemoryBytes (picker.pieceLengthFor piece)))

/-- An opened piece goes back into the table with any state of its shape. -/
theorem Opened.balanced (balanced : Balanced picker) (able : picker.eligible piece = true)
    {inProgressBytes : Nat} (opened : Opened picker piece state inProgressBytes) {after : PieceState}
    (kept : Held (picker.pieceLengthFor piece) state → Held (picker.pieceLengthFor piece) after) :
    Balanced { picker with inProgressBytes, inProgress := picker.inProgress.insert piece after } := by
  cases opened with
  | present _ found =>
    obtain ⟨_, held⟩ := balanced.filled.states piece state found
    exact balanced.withTable (balanced.filled.replace found (kept held))
  | fresh absent room =>
    obtain ⟨few, memory⟩ := (Bool.and_eq_true _ _).mp room
    split at memory
    · cases memory
    next next added =>
      obtain ⟨rfl, bounded⟩ := checkedAdd_eq_some.mp added
      rw [saturatingAdd_of_lt bounded]
      refine balanced.withTable (balanced.filled.insert absent able (kept ?_)
        (of_decide_eq_true few) (of_decide_eq_true memory))
      exact new_held _

theorem rarestMatching_accepts {availability : Availability} {predicate : Nat → Bool}
    (found : availability.rarestMatching predicate = some piece) : predicate piece = true := by
  rw [rarestMatching, BucketQueue.firstMatching_eq_find] at found
  exact List.find?_some found

theorem eligible_of_requestable (requestable : picker.pieceIsRequestable piece = true) :
    picker.eligible piece = true := by
  simp only [pieceIsRequestable, Bool.and_eq_true] at requestable
  rw [eligible, requestable.1.1.2, requestable.1.2]
  rfl

theorem lt_of_eligible (flags : Flags picker) (able : picker.eligible piece = true) :
    piece < picker.pieceCount := by
  by_contra outside
  have unwanted : flag picker.wanted piece = false := by
    rw [flag, List.getElem?_eq_none (flags.wanted ▸ Nat.le_of_not_lt outside)]
    rfl
  rw [eligible, unwanted] at able
  cases able

theorem resetOutstandingRequests_balanced (balanced : Balanced picker) :
    Balanced picker.resetOutstandingRequests := by
  refine balanced.withTable ⟨?_, ?_, balanced.filled.bounded, ?_⟩
  · intro piece state found
    rw [lookup_mapValues] at found
    obtain ⟨old, present, rfl⟩ := map_eq_some_iff.mp found
    obtain ⟨able, held⟩ := balanced.filled.states piece old present
    exact ⟨able, ⟨⟨held.pieceLength, by rw [List.length_replicate, held.requested],
      held.received⟩, held.missing⟩⟩
  · rw [balanced.filled.exact, stateBytes, stateBytes, total_mapValues]
    exact fun _ _ => rfl
  · rw [size_mapValues]
    exact balanced.filled.few

/-! ## What a call can do -/

section

variable (picker piece)

theorem settled_frame :
    ∃ outstandingWanted availability inProgressBytes, Adjusted picker.availability availability ∧
      (picker.setWanted piece wanted).removeInProgress piece =
        { picker with
          wanted := picker.wanted.set piece wanted, outstandingWanted, availability
          inProgressBytes, inProgress := picker.inProgress.erase piece } ∧
      (Balanced picker → piece < picker.pieceCount →
        Balanced ((picker.setWanted piece wanted).removeInProgress piece)) := by
  obtain ⟨outstandingWanted, availability, adjusted, set, flags⟩ :=
    setWanted_spec picker piece wanted
  obtain ⟨inProgressBytes, removed⟩ := removeInProgress_frame (picker.setWanted piece wanted) piece
  rw [set] at removed flags ⊢
  refine ⟨outstandingWanted, availability, inProgressBytes, adjusted, removed, ?_⟩
  intro balanced inside
  refine removeInProgress_balanced (flags balanced.toFlags inside) balanced.filled ?_
  intro other different
  simp only [eligible, flag_set picker.wanted piece other _ (balanced.wanted.symm ▸ inside),
    if_neg (Ne.symm different)]

theorem setPieceEnabled_cases (enabled : Bool) :
    picker.pieceCount ≤ piece ∧ picker.setPieceEnabled piece enabled = picker ∨
      ∃ outstandingWanted availability inProgressBytes, Adjusted picker.availability availability ∧
        picker.setPieceEnabled piece enabled =
          { picker with
            enabled := picker.enabled.set piece enabled, outstandingWanted, availability
            inProgressBytes
            inProgress := if enabled then picker.inProgress else picker.inProgress.erase piece } ∧
        (Balanced picker → Balanced (picker.setPieceEnabled piece enabled)) := by
  unfold setPieceEnabled
  split
  next inside =>
    let changed := { picker with enabled := picker.enabled.set piece enabled }
    obtain ⟨outstandingWanted, availability, adjusted, same, tallied⟩ := adjustOutstanding_spec
      changed piece (flag picker.wanted piece) (flag picker.enabled piece) (flag picker.wanted piece)
      enabled
    have set := fun balanced : Balanced picker => fun other =>
      flag_set picker.enabled piece other enabled (balanced.enabled.symm ▸ inside)
    have others : Balanced picker → ∀ other, other ≠ piece →
        changed.eligible other = picker.eligible other := by
      intro balanced other different
      simp only [changed, eligible, set balanced, if_neg (Ne.symm different)]
    have now : Balanced picker → (flag picker.wanted piece && enabled) = changed.eligible piece := by
      intro balanced
      simp only [changed, eligible, set balanced, if_true]
    have flags : Balanced picker → Flags { changed with outstandingWanted, availability } :=
      fun balanced => ⟨balanced.pieces, balanced.wanted, by rw [List.length_set, balanced.enabled],
        tallied _ balanced.tallied balanced.pieces inside (others balanced) rfl (now balanced)⟩
    dsimp only
    rw [same]
    refine .inr ⟨outstandingWanted, availability, ?_⟩
    cases enabled with
    | true =>
      refine ⟨_, adjusted, rfl, fun balanced => ⟨flags balanced, balanced.filled.relax ?_⟩⟩
      intro other _ able
      by_cases same : other = piece
      · subst same
        have wanted : flag picker.wanted other = true := (Bool.and_eq_true _ _ ▸ able).1
        exact (now balanced).symm.trans (by rw [wanted, Bool.and_true])
      · exact (others balanced other same).trans able
    | false =>
      obtain ⟨inProgressBytes, removed⟩ := removeInProgress_frame
        { changed with outstandingWanted, availability } piece
      exact ⟨inProgressBytes, adjusted, removed, fun balanced =>
        removeInProgress_balanced (flags balanced) balanced.filled (others balanced)⟩
  next outside => exact .inl ⟨Nat.le_of_not_lt outside, rfl⟩

theorem setWanted_withTable (inProgress : Table Nat PieceState) (inProgressBytes : Nat) :
    setWanted { picker with inProgress, inProgressBytes } piece wanted =
      { picker.setWanted piece wanted with inProgress, inProgressBytes } := by
  unfold setWanted adjustOutstanding
  dsimp only
  split
  · rfl
  · split
    · rfl
    · rfl

/-- The last block of a piece does to the picker what `mark_have` does. -/
theorem blockReceived_cases (begin : Nat) :
    picker.blockReceived piece begin = (picker, false) ∨
      ∃ state, picker.inProgress.lookup piece = some state ∧
        ((state.markReceived (begin / maxBlockSize)).isComplete = true ∧
            picker.blockReceived piece begin =
              ((picker.setWanted piece false).removeInProgress piece, true) ∨
          (state.markReceived (begin / maxBlockSize)).isComplete = false ∧
            picker.blockReceived piece begin =
              ({ picker with
                  inProgress :=
                    picker.inProgress.insert piece (state.markReceived (begin / maxBlockSize)) },
                false)) := by
  unfold blockReceived
  dsimp only
  split
  next => exact .inl rfl
  next state present =>
    refine .inr ⟨state, present, ?_⟩
    split
    next complete =>
      obtain ⟨_, _, _, set, _⟩ := setWanted_spec picker piece false
      refine .inl ⟨complete, ?_⟩
      rw [removeInProgress, AList.lookup_insert]
      dsimp only
      rw [erase_insert_self, setWanted_withTable, set, removeInProgress]
      simp only [present]
      rfl
    next missing => exact .inr ⟨Bool.eq_false_of_not_eq_true missing, rfl⟩

/-- A call that counts what peers have. -/
def announces : Call → Bool
  | .addHave _ | .removeHave _ | .addBitfield _ | .removeBitfield _ => true
  | _ => false

/-- The request that a pick or a pick from a seed returns. -/
def asked : Call → Reply → Option BlockRequest
  | .pick _, .block answer | .pickFromSeed, .block answer => answer
  | _, _ => none

/-- Everything a call can do to a picker, with the request that a pick returns. -/
inductive Moves (picker : PiecePicker) : Call → PiecePicker → Option BlockRequest → Prop
  /-- The call is refused, or it sets the order in which pieces are tried. -/
  | ordered {call : Call} (priority : List Bool) (sequential : Bool) (sequentialStartPiece : Nat) :
      Moves picker call { picker with priority, sequential, sequentialStartPiece } none
  | counted {call : Call} {availability : Availability} (announced : announces call = true)
      (same : availability.retired = picker.availability.retired) :
      Moves picker call { picker with availability } none
  /-- A piece is complete, or rejected. -/
  | settled {call : Call} {piece : Nat} {wanted : Bool}
      (rejected : wanted = true → call = .rejectPiece piece)
      (inside : Balanced picker → piece < picker.pieceCount) :
      Moves picker call ((picker.setWanted piece wanted).removeInProgress piece) none
  | enabled (piece : Nat) (enabled : Bool) :
      Moves picker (.setPieceEnabled piece enabled) (picker.setPieceEnabled piece enabled) none
  | restored {piece : Nat} {blocks : List Nat} {inProgressBytes : Nat}
      (able : picker.eligible piece = true) (absent : picker.inProgress.lookup piece = none)
      (opened : Opened picker piece (PieceState.new (picker.pieceLengthFor piece)) inProgressBytes)
      (missing : ((PieceState.new (picker.pieceLengthFor piece)).restoreBlocks blocks).isComplete =
        false) :
      Moves picker (.restorePartialPiece piece blocks) { picker with
        inProgressBytes
        inProgress := picker.inProgress.insert piece
          ((PieceState.new (picker.pieceLengthFor piece)).restoreBlocks blocks) } none
  /-- A pick finds no block to ask for in a piece that it has opened. -/
  | opened {call : Call} {piece inProgressBytes : Nat} {state : PieceState}
      (able : picker.eligible piece = true) (opened : Opened picker piece state inProgressBytes)
      (full : state.nextUnrequested = none) :
      Moves picker call
        { picker with inProgressBytes, inProgress := picker.inProgress.insert piece state } none
  | asked {call : Call} {piece inProgressBytes block : Nat} {state : PieceState}
      (able : picker.eligible piece = true) (opened : Opened picker piece state inProgressBytes)
      (free : state.nextUnrequested = some block) :
      Moves picker call
        { picker with
          inProgressBytes, inProgress := picker.inProgress.insert piece (state.markRequested block) }
        (some ((state.markRequested block).blockRequestFor piece block))
  /-- An endgame pick repeats a request. -/
  | repeated {call : Call} {piece block : Nat} {state : PieceState} {already : List BlockRequest}
      (present : picker.inProgress.lookup piece = some state)
      (found : state.nextRequestedNotReceived already piece = some block) :
      Moves picker call
        { picker with inProgress := picker.inProgress.insert piece (state.markRequested block) } none
  | received {piece begin : Nat} {state : PieceState}
      (present : picker.inProgress.lookup piece = some state)
      (missing : (state.markReceived (begin / maxBlockSize)).isComplete = false) :
      Moves picker (.blockReceived piece begin) { picker with
        inProgress := picker.inProgress.insert piece (state.markReceived (begin / maxBlockSize)) } none
  | cancelled {piece begin : Nat} {state : PieceState}
      (present : picker.inProgress.lookup piece = some state) :
      Moves picker (.cancelRequest piece begin) { picker with
        inProgress := picker.inProgress.insert piece
          { state with requested := state.requested.modify (begin / maxBlockSize) (· - 1) } } none
  | reset : Moves picker .resetOutstandingRequests picker.resetOutstandingRequests none

variable {call : Call} {after : PiecePicker} {request : Option BlockRequest}

theorem pickBlockFrom_moves (requestable : picker.pieceIsRequestable piece = true) :
    Moves picker call (picker.pickBlockFrom piece).1 (picker.pickBlockFrom piece).2 := by
  have able := eligible_of_requestable requestable
  unfold pickBlockFrom
  split
  next => exact .ordered _ _ _
  next =>
    match found : picker.inProgress.lookup piece with
    | some state =>
      simp only [isNone_some, Bool.false_and, Bool.false_eq_true, if_false, getD_some]
      cases next : state.nextUnrequested with
      | none => exact .opened able (.present state found) next
      | some blockIdx => exact .asked able (.present state found) next
    | none =>
      match room : picker.canAdmitPieceState (picker.pieceLengthFor piece) with
      | false =>
        simp only [room, isNone_none, Bool.not_false, Bool.and_true, if_true]
        exact .ordered _ _ _
      | true =>
        simp only [room, isNone_none, Bool.not_true, Bool.and_false, Bool.false_eq_true, if_false,
          if_true, getD_none]
        cases next : (PieceState.new (picker.pieceLengthFor piece)).nextUnrequested with
        | none => exact .opened able (.fresh found room) next
        | some blockIdx => exact .asked able (.fresh found room) next

/-- Whatever the order, `pick` asks for a block of a requestable piece, or for nothing. -/
theorem pick_moves (peerHas : Nat → Bool) :
    Moves picker call (picker.pick peerHas).1 (picker.pick peerHas).2 := by
  unfold pick
  split
  next => exact .ordered _ _ _
  next =>
    split
    next piece found =>
      have accepted := List.find?_some found
      simp only [Bool.and_eq_true] at accepted
      exact pickBlockFrom_moves _ _ accepted.1.2
    next =>
      split
      next =>
        split
        next piece found =>
          have accepted := List.find?_some found
          exact pickBlockFrom_moves _ _ (Bool.and_eq_true _ _ ▸ accepted).1
        next => exact .ordered _ _ _
      next =>
        split
        next piece found =>
          have accepted := rarestMatching_accepts found
          exact pickBlockFrom_moves _ _ (Bool.and_eq_true _ _ ▸ accepted).1
        next => exact .ordered _ _ _

theorem pickFromSeed_moves : Moves picker call picker.pickFromSeed.1 picker.pickFromSeed.2 := by
  unfold pickFromSeed
  split
  next piece found =>
    have accepted := List.find?_some found
    exact pickBlockFrom_moves _ _ (Bool.and_eq_true _ _ ▸ accepted).2
  next =>
    split
    next =>
      split
      next piece found => exact pickBlockFrom_moves _ _ (List.find?_some found)
      next => exact .ordered _ _ _
    next =>
      split
      next piece found => exact pickBlockFrom_moves _ _ (List.find?_some found)
      next => exact .ordered _ _ _

theorem pickEndgame_moves (peerHas : Nat → Bool) (already : List BlockRequest) :
    Moves picker call (picker.pickEndgame peerHas already).1 none := by
  unfold pickEndgame
  split
  next => exact .ordered _ _ _
  next =>
    split
    next => exact .ordered _ _ _
    next piece _ =>
      split
      next => exact .ordered _ _ _
      next state present =>
        split
        next => exact .ordered _ _ _
        next blockIdx found => exact .repeated present found

theorem blockReceived_moves (begin : Nat) :
    Moves picker (.blockReceived piece begin) (picker.blockReceived piece begin).1 none := by
  rcases blockReceived_cases picker piece begin with
    nothing | ⟨state, present, ⟨_, finished⟩ | ⟨missing, received⟩⟩
  · rw [nothing]
    exact .ordered _ _ _
  · rw [finished]
    refine .settled nofun fun balanced => ?_
    exact lt_of_eligible balanced.toFlags (balanced.filled.states piece state present).1
  · rw [received]
    exact .received present missing

theorem restorePartialPiece_moves (blocks : List Nat) :
    Moves picker (.restorePartialPiece piece blocks) (picker.restorePartialPiece piece blocks) none := by
  unfold restorePartialPiece
  split
  next => exact .ordered _ _ _
  next accepted =>
    simp only [not_or, Bool.not_eq_false, Bool.not_eq_true] at accepted
    obtain ⟨_, _, wanted, enabled, absent, room⟩ := accepted
    rw [← Bool.not_eq_true, not_isSome_iff_eq_none] at absent
    dsimp only
    split
    next => exact .ordered _ _ _
    next missing =>
      refine .restored ?_ absent (.fresh absent room) (Bool.eq_false_of_not_eq_true missing)
      rw [eligible, wanted, enabled]
      rfl

theorem step_moves (call : Call) :
    Moves picker call (picker.step call).1 (asked call (picker.step call).2) := by
  cases call with
  | markHave piece =>
    show Moves picker _ (picker.markHave piece) none
    unfold markHave
    split
    next inside => exact .settled nofun fun _ => inside
    next => exact .ordered _ _ _
  | rejectPiece piece =>
    show Moves picker _ (picker.rejectPiece piece) none
    unfold rejectPiece
    split
    next inside => exact .settled (fun _ => rfl) fun _ => inside
    next => exact .ordered _ _ _
  | setPriorityMask priority =>
    show Moves picker _ (picker.setPriorityMask priority) none
    unfold setPriorityMask
    split <;> exact .ordered _ _ _
  | cancelRequest piece begin =>
    show Moves picker _ (picker.cancelRequest piece begin) none
    unfold cancelRequest
    split
    next => exact .ordered _ _ _
    next present => exact .cancelled present
  | setPieceEnabled piece enabled => exact .enabled piece enabled
  | restorePartialPiece piece blocks => exact restorePartialPiece_moves picker piece blocks
  | pick peerHas => exact pick_moves picker peerHas
  | pickFromSeed => exact pickFromSeed_moves picker
  | pickEndgame peerHas already => exact pickEndgame_moves picker peerHas already
  | blockReceived piece begin => exact blockReceived_moves picker piece begin
  | resetOutstandingRequests => exact .reset
  | setPriority | setSequential | setSequentialFromPiece => exact .ordered _ _ _
  | addHave | removeHave => exact .counted rfl (recount_retired _ _ _)
  | addBitfield | removeBitfield => exact .counted rfl (overBitfield_recount_retired _ _ _)

variable {picker}

theorem Moves.balanced (moves : Moves picker call after request) (balanced : Balanced picker) :
    Balanced after := by
  have able : ∀ {piece : Nat} {state : PieceState}, picker.inProgress.lookup piece = some state →
      picker.eligible piece = true := fun present => (balanced.filled.states _ _ present).1
  cases moves with
  | ordered => exact { balanced with }
  | counted _ same => exact { balanced with tallied := same ▸ balanced.tallied }
  | @settled _ piece wanted _ inside =>
    obtain ⟨_, _, _, _, _, kept⟩ := settled_frame picker piece wanted
    exact kept balanced (inside balanced)
  | enabled piece enabled =>
    obtain ⟨_, same⟩ | ⟨_, _, _, _, _, kept⟩ := setPieceEnabled_cases picker piece enabled
    · rwa [same]
    · exact kept balanced
  | restored able _ opened missing =>
    exact opened.balanced balanced able fun _ => ⟨(new_shaped _).restoreBlocks _, fun _ => missing⟩
  | opened able opened => exact opened.balanced balanced able id
  | asked able opened => exact opened.balanced balanced able fun held => held.markRequested _
  | repeated present =>
    exact Opened.balanced balanced (able present) (.present _ present) fun held => held.markRequested _
  | received present missing =>
    exact Opened.balanced balanced (able present) (.present _ present) fun held =>
      ⟨held.toShaped.markReceived _, fun _ => missing⟩
  | cancelled present =>
    exact Opened.balanced balanced (able present) (.present _ present) fun held =>
      ⟨⟨held.pieceLength, by rw [List.length_modify, held.requested], held.received⟩, held.missing⟩
  | reset => exact resetOutstandingRequests_balanced balanced

end

/-- Every call keeps the invariant. -/
theorem step_balanced (balanced : Balanced picker) (call : Call) : Balanced (picker.step call).1 :=
  (step_moves picker call).balanced balanced

theorem run_balanced (balanced : Balanced picker) (calls : List Call) : Balanced (picker.run calls) :=
  List.foldlRecOn calls _ balanced fun _ balanced call _ => step_balanced balanced call

/-! ## The layout of the pieces -/

/-- The piece count and the piece lengths never change. -/
structure SameLayout (before after : PiecePicker) : Prop where
  pieceCount : after.pieceCount = before.pieceCount
  defaultPieceLength : after.defaultPieceLength = before.defaultPieceLength
  lastPieceLength : after.lastPieceLength = before.lastPieceLength

theorem SameLayout.refl (picker : PiecePicker) : SameLayout picker picker := ⟨rfl, rfl, rfl⟩

theorem SameLayout.trans {first second third : PiecePicker} (one : SameLayout first second)
    (other : SameLayout second third) : SameLayout first third :=
  ⟨other.pieceCount.trans one.pieceCount, other.defaultPieceLength.trans one.defaultPieceLength,
    other.lastPieceLength.trans one.lastPieceLength⟩

theorem SameLayout.pieceLengthFor {after : PiecePicker} (same : SameLayout before after)
    (piece : Nat) : after.pieceLengthFor piece = before.pieceLengthFor piece := by
  rw [PiecePicker.pieceLengthFor, PiecePicker.pieceLengthFor, same.pieceCount,
    same.defaultPieceLength, same.lastPieceLength]

/-- What a call does that announces nothing: the layout stays, and the availability is at most
adjusted. -/
structure Passes (before after : PiecePicker) : Prop where
  layout : SameLayout before after
  adjusted : Adjusted before.availability after.availability

theorem step_passes (picker : PiecePicker) {call : Call} (aside : announces call = false) :
    Passes picker (picker.step call).1 := by
  have moves := step_moves picker call
  generalize (picker.step call).1 = after, asked call (picker.step call).2 = request at moves ⊢
  cases moves with
  | counted announced => exact absurd (aside.symm.trans announced) Bool.false_ne_true
  | @settled _ piece wanted =>
    obtain ⟨_, _, _, adjusted, same, _⟩ := settled_frame picker piece wanted
    rw [same]
    exact ⟨⟨rfl, rfl, rfl⟩, adjusted⟩
  | enabled piece enabled =>
    obtain ⟨_, same⟩ | ⟨_, _, _, adjusted, same, _⟩ := setPieceEnabled_cases picker piece enabled
    · rw [same]
      exact ⟨.refl picker, .unchanged⟩
    · rw [same]
      exact ⟨⟨rfl, rfl, rfl⟩, adjusted⟩
  | ordered | restored | opened | asked | repeated | received | cancelled | reset =>
    exact ⟨⟨rfl, rfl, rfl⟩, .unchanged⟩

/-- No call changes the number or the lengths of the pieces. -/
theorem step_layout (picker : PiecePicker) (call : Call) : SameLayout picker (picker.step call).1 := by
  cases aside : announces call with
  | false => exact (step_passes picker aside).layout
  | true =>
    cases call with
    | addHave | removeHave | addBitfield | removeBitfield => exact ⟨rfl, rfl, rfl⟩
    | _ => cases aside

theorem run_layout (picker : PiecePicker) (calls : List Call) :
    SameLayout picker (picker.run calls) :=
  List.foldlRecOn calls _ (SameLayout.refl picker) fun _ same call _ =>
    same.trans (step_layout _ call)

/-- Every call keeps the invariant of a picker with positive lengths as well. -/
theorem step_consistent (consistent : Consistent picker) (call : Call) :
    Consistent (picker.step call).1 := by
  have layout := step_layout picker call
  refine ⟨step_balanced consistent.toBalanced call, ?_, ?_⟩
  · rw [layout.defaultPieceLength]
    exact consistent.defaultLength
  · rw [layout.lastPieceLength]
    exact consistent.lastLength

theorem run_consistent (consistent : Consistent picker) (calls : List Call) :
    Consistent (picker.run calls) :=
  List.foldlRecOn calls _ consistent fun _ consistent call _ => step_consistent consistent call

/-- A state that is not complete has a block that was not received. -/
theorem exists_missing (missing : state.isComplete = false) :
    ∃ block : Nat, state.received[block]? = some false := by
  rw [PieceState.isComplete, List.all_eq_false] at missing
  obtain ⟨received, member, unset⟩ := missing
  obtain ⟨block, found⟩ := List.mem_iff_getElem?.mp member
  exact ⟨block, found.trans (congrArg some (Bool.eq_false_of_not_eq_true unset))⟩

/-- From a new picker with positive piece lengths, any history of calls leaves the counter
of outstanding pieces, the retired flags, the pieces in progress and the bytes accounted
for them in agreement. The piece count is a `usize`. -/
theorem picker_invariant (pieceCount defaultPieceLength lastPieceLength : Nat)
    (pieces : pieceCount < 2 ^ 64) (defaultPositive : 0 < defaultPieceLength)
    (lastPositive : 0 < lastPieceLength) (calls : List Call) (picker : PiecePicker)
    (reached : (new pieceCount defaultPieceLength lastPieceLength).run calls = picker) :
    picker.outstandingWanted = {piece ∈ Finset.range picker.pieceCount |
        flag picker.wanted piece = true ∧ flag picker.enabled piece = true}.card ∧
    (∀ piece, piece < picker.pieceCount → (picker.availability.isRetired piece = true ↔
        ¬(flag picker.wanted piece = true ∧ flag picker.enabled piece = true))) ∧
    (∀ piece state, picker.inProgress.lookup piece = some state →
      (flag picker.wanted piece = true ∧ flag picker.enabled piece = true) ∧
      state.requested.length = divCeil (picker.pieceLengthFor piece) (16 * 1024) ∧
      state.received.length = divCeil (picker.pieceLengthFor piece) (16 * 1024) ∧
      ∃ block : Nat, state.received[block]? = some false) ∧
    picker.inProgressBytes =
      total (fun _ state => pieceStateMemoryBytes state.pieceLength) picker.inProgress ∧
    picker.inProgressBytes ≤ 64 * 1024 * 1024 ∧
    size picker.inProgress ≤ 16384 := by
  have consistent := run_consistent (new_consistent pieces defaultPositive lastPositive) calls
  rw [reached] at consistent
  have tallied := consistent.tallied
  have filled := consistent.filled
  have able : ∀ piece, picker.eligible piece = true ↔
      flag picker.wanted piece = true ∧ flag picker.enabled piece = true := fun piece => by
    rw [eligible, Bool.and_eq_true]
  refine ⟨?_, ?_, ?_, filled.exact, filled.bounded, filled.few⟩
  · simpa only [able] using tallied.exact
  · intro piece inside
    have hidden : picker.availability.isRetired piece = !picker.eligible piece :=
      tallied.complement piece inside
    rw [← able, hidden, Bool.not_eq_true', Bool.not_eq_true]
  · intro piece state present
    obtain ⟨open_, held⟩ := filled.states piece state present
    exact ⟨(able piece).mp open_, held.requested, held.received,
      exists_missing (consistent.missing present)⟩

/-- Three pieces, the last one short: one block of the first is requested, the second is
complete and the third is disabled. -/
def threePieces : PiecePicker :=
  (new 3 32768 100).run [.pickFromSeed, .markHave 1, .setPieceEnabled 2 false]

theorem threePieces_invariant :
    threePieces.outstandingWanted = 1 ∧ size threePieces.inProgress = 1 ∧
      threePieces.inProgressBytes =
        total (fun _ state => pieceStateMemoryBytes state.pieceLength) threePieces.inProgress :=
  ⟨by decide, by decide, (picker_invariant 3 32768 100 (by decide) (by decide) (by decide)
    [.pickFromSeed, .markHave 1, .setPieceEnabled 2 false] threePieces rfl).2.2.2.1⟩

end PiecePicker

end TorrentNG.Picker
