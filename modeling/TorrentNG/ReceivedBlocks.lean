import TorrentNG.BlockSelection

/-!
# Which blocks the calls of a picker receive

A picker marks blocks as received in two calls only, `block_received` and
`restore_partial_piece`; every other call leaves a received block received or forgets its
piece.
-/

namespace TorrentNG.Picker.PiecePicker

open MachineArithmetic Tables

/-- A call that marks blocks as received. -/
def marksReceived : Call → Bool
  | .blockReceived _ _ | .restorePartialPiece _ _ => true
  | _ => false

variable {picker after : PiecePicker} {piece other block : Nat} {state : PieceState}

/-- The state in the table holds what was received of a piece. -/
theorem Opened.has_iff {inProgressBytes : Nat} (opened : Opened picker piece state inProgressBytes) :
    state.has block = true ↔ (picker.view piece).Received block := by
  cases opened with
  | present _ found =>
    constructor
    · exact fun has => ⟨state, found, has⟩
    · rintro ⟨other, stored, has⟩
      obtain rfl := Option.mem_unique found stored
      exact has
  | fresh absent room =>
    rw [has_new]
    refine iff_of_false Bool.false_ne_true ?_
    rintro ⟨_, stored, _⟩
    cases absent.symm.trans stored

theorem received_insert (table : after.inProgress = picker.inProgress.insert other state) :
    (after.view piece).Received block ↔
      if piece = other then state.has block = true else (picker.view piece).Received block := by
  simp only [View.Received, view, table]
  split
  next same =>
    rw [same, AList.lookup_insert]
    simp
  next different => rw [AList.lookup_insert_ne different]

/-- Requests do not change what was received. -/
theorem received_insert_opened {old new : PieceState} {inProgressBytes : Nat}
    (opened : Opened picker other old inProgressBytes)
    (table : after.inProgress = picker.inProgress.insert other new)
    (same : new.received = old.received) :
    (after.view piece).Received block ↔ (picker.view piece).Received block := by
  rw [received_insert table, PieceState.has, same]
  split
  next here => exact here ▸ opened.has_iff
  next => exact Iff.rfl

theorem received_of_erase (table : after.inProgress = picker.inProgress.erase other)
    (received : (after.view piece).Received block) :
    piece ≠ other ∧ (picker.view piece).Received block := by
  obtain ⟨found, present, has⟩ := received
  simp only [view, table] at present
  obtain ⟨different, present⟩ := lookup_erase_eq_some.mp present
  exact ⟨different, found, present, has⟩

theorem inProgress_settled (picker : PiecePicker) (piece : Nat) (wanted : Bool) :
    ((picker.setWanted piece wanted).removeInProgress piece).inProgress =
      picker.inProgress.erase piece := by
  obtain ⟨_, _, _, _, settled, _⟩ := settled_frame picker piece wanted
  rw [settled]

theorem lt_of_received (consistent : Consistent picker)
    (received : (picker.view piece).Received block) : piece < picker.pieceCount := by
  obtain ⟨state, present, _⟩ := received
  exact lt_of_eligible consistent.toFlags (consistent.filled.states piece state present).1

theorem rejectPiece_received (consistent : Consistent picker)
    (received : ((picker.rejectPiece other).view piece).Received block) :
    piece ≠ other ∧ (picker.view piece).Received block := by
  unfold PiecePicker.rejectPiece at received
  split at received
  next => exact received_of_erase (inProgress_settled picker other true) received
  next outside =>
    refine ⟨?_, received⟩
    rintro rfl
    exact outside (lt_of_received consistent received)

theorem rejectAll_received (consistent : Consistent picker) {pieces : List Nat}
    (received : ((pieces.foldl PiecePicker.rejectPiece picker).view piece).Received block) :
    piece ∉ pieces ∧ (picker.view piece).Received block := by
  induction pieces generalizing picker with
  | nil => exact ⟨List.not_mem_nil, received⟩
  | cons first rest ih =>
    obtain ⟨apart, before⟩ := ih (step_consistent consistent (.rejectPiece first)) received
    obtain ⟨different, earlier⟩ := rejectPiece_received consistent before
    exact ⟨List.not_mem_cons_of_ne_of_not_mem different apart, earlier⟩

theorem cancelRequest_received {begin : Nat} :
    ((picker.cancelRequest other begin).view piece).Received block ↔
      (picker.view piece).Received block := by
  unfold cancelRequest
  split
  next => exact Iff.rfl
  next state present => exact received_insert_opened (.present state present) rfl rfl

theorem setPieceEnabled_received {enabled : Bool}
    (received : ((picker.setPieceEnabled other enabled).view piece).Received block) :
    (picker.view piece).Received block := by
  obtain ⟨_, same⟩ | ⟨_, _, _, _, same, _⟩ := setPieceEnabled_cases picker other enabled
  · rwa [same] at received
  · rw [same] at received
    cases enabled with
    | true => exact received
    | false => exact (received_of_erase rfl received).2

/-- Only two calls of the picker mark blocks as received. -/
theorem step_received {call : Call} (aside : marksReceived call = false)
    (received : ((picker.step call).1.view piece).Received block) :
    (picker.view piece).Received block := by
  have moves := step_moves picker call
  generalize (picker.step call).1 = after, asked call (picker.step call).2 = request at moves received
  cases moves with
  | ordered | counted => exact received
  | settled => exact (received_of_erase (inProgress_settled picker _ _) received).2
  | enabled other enabled => exact setPieceEnabled_received received
  | opened _ opened | asked _ opened =>
    refine Iff.mp ?_ received
    exact received_insert_opened opened rfl rfl
  | repeated present | cancelled present =>
    refine Iff.mp ?_ received
    exact received_insert_opened (.present _ present) rfl rfl
  | received | restored => cases aside
  | reset =>
    obtain ⟨found, present, has⟩ := received
    simp only [view, resetOutstandingRequests, lookup_mapValues] at present
    obtain ⟨state, stored, rfl⟩ := Option.map_eq_some_iff.mp present
    exact ⟨state, stored, has⟩

theorem has_iff : state.has block = true ↔ state.received[block]? = some true := by
  rw [PieceState.has, Option.getD_eq_iff]
  simp

theorem has_of_markReceived {got : Nat} (has : (state.markReceived got).has block = true) :
    block = got ∨ state.has block = true := by
  by_cases same : block = got
  · exact .inl same
  · refine .inr ?_
    rwa [PieceState.has, PieceState.markReceived, List.getElem?_set_ne (Ne.symm same)] at has

/-- A received block is the only one that is new; a piece that it completes is no longer in
progress. -/
theorem blockReceived_received {begin : Nat}
    (received : ((picker.blockReceived other begin).1.view piece).Received block) :
    ((picker.view piece).Received block ∨ piece = other ∧ block = begin / maxBlockSize) ∧
      ((picker.blockReceived other begin).2 = true → piece ≠ other) := by
  rcases blockReceived_cases picker other begin with
    nothing | ⟨state, present, ⟨_, finished⟩ | ⟨_, kept⟩⟩
  · rw [nothing] at received ⊢
    exact ⟨.inl received, nofun⟩
  · rw [finished] at received ⊢
    obtain ⟨different, before⟩ := received_of_erase (inProgress_settled picker other false) received
    exact ⟨.inl before, fun _ => different⟩
  · rw [kept] at received ⊢
    refine ⟨?_, nofun⟩
    rw [received_insert rfl] at received
    split_ifs at received with same
    · subst same
      rcases has_of_markReceived received with new | old
      · exact .inr ⟨rfl, new⟩
      · exact .inl ⟨state, present, old⟩
    · exact .inl received

theorem restorePartialPiece_received {blocks : List Nat} (different : piece ≠ other)
    (received : ((picker.restorePartialPiece other blocks).view piece).Received block) :
    (picker.view piece).Received block := by
  unfold PiecePicker.restorePartialPiece at received
  split at received
  next => exact received
  next =>
    dsimp only at received
    split at received
    next => exact received
    next =>
      rw [received_insert rfl, if_neg different] at received
      exact received

end TorrentNG.Picker.PiecePicker
