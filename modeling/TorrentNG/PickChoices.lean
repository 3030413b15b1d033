import TorrentNG.BlockSelection

/-!
# Which blocks a picker can offer

`pick` and `pick_endgame` of `rt-piece-picker`, seen from the caller: when is there nothing
to request, and when may a block be requested a second time. Both calls choose a piece by
their order first and look at its blocks afterwards. A piece that was not started has all its
blocks left; `pick` can only use it if there is room for its state, and `pick_endgame` does
not look at it at all.
-/

namespace TorrentNG.Picker

open Availability BucketQueue List MachineArithmetic Tables Option

/-! ## Blocks that nobody was asked for -/

/-- No block is left to request exactly when each slot is requested or received. -/
theorem nextUnrequested_eq_none {state : PieceState} : state.nextUnrequested = none ↔
      ∀ block : Nat, ¬(state.requested[block]? = some 0 ∧ state.received[block]? = some false) := by
  rw [PieceState.nextUnrequested, findIdx?_eq_none_iff]
  constructor
  · rintro busy block ⟨requests, received⟩
    have slot : (state.requested.zip state.received)[block]? = some (0, false) :=
      getElem?_zip_eq_some.mpr ⟨requests, received⟩
    exact absurd (busy _ (mem_of_getElem? slot)) (by decide)
  · rintro taken ⟨requests, received⟩ member
    obtain ⟨block, slot⟩ := mem_iff_getElem?.mp member
    obtain ⟨stored, flagged⟩ := getElem?_zip_eq_some.mp slot
    rw [Bool.and_eq_false_iff, beq_eq_false_iff_ne, Bool.not_eq_false']
    by_contra free
    rw [not_or, not_not, Bool.not_eq_true] at free
    obtain ⟨rfl, rfl⟩ := free
    exact taken block ⟨stored, flagged⟩

/-- A new piece has a block to request unless it is empty. -/
theorem nextUnrequested_new (length : Nat) :
    (PieceState.new length).nextUnrequested = none ↔ length = 0 := by
  rw [nextUnrequested_eq_none]
  constructor
  · intro taken
    by_contra positive
    have first := nBlocks_pos.mpr (Nat.pos_of_ne_zero positive)
    exact taken 0 ⟨getElem?_replicate_of_lt first, getElem?_replicate_of_lt first⟩
  · rintro rfl block ⟨requests, _⟩
    cases requests

namespace PiecePicker

variable (picker : PiecePicker)

/-- A block that is neither requested nor received. In a piece that was never started these
are all its blocks. -/
def Fresh (piece block : Nat) : Prop :=
  match picker.inProgress.lookup piece with
  | some state => state.requested[block]? = some 0 ∧ state.received[block]? = some false
  | none => block < nBlocks (picker.pieceLengthFor piece)

/-- A block that could be requested from a peer. -/
structure Requestable (picker : PiecePicker) (peerHas : Nat → Bool) (piece block : Nat) : Prop where
  wanted : flag picker.wanted piece = true
  enabled : flag picker.enabled piece = true
  owned : peerHas piece = true
  available : picker.sequential = true ∨ flag picker.priority piece = true ∨
    0 < picker.availability.count piece
  admitted : (picker.inProgress.lookup piece).isSome = true ∨
    picker.canAdmitPieceState (picker.pieceLengthFor piece) = true
  fresh : picker.Fresh piece block

/-- The piece that the order of `pick` puts first. -/
def choice (peerHas : Nat → Bool) : Option Nat :=
  match (List.range picker.pieceCount).find? fun piece =>
      flag picker.priority piece && picker.pieceIsRequestable piece && peerHas piece with
  | some piece => some piece
  | none =>
      if picker.sequential then
        picker.sequence.find? fun piece => picker.pieceIsRequestable piece && peerHas piece
      else picker.rarestRequestablePiece peerHas

/-- A piece in progress, or one with blocks for whose state there is room. -/
def Opens (piece : Nat) : Prop :=
  (picker.inProgress.lookup piece).isSome = true ∨
    picker.canAdmitPieceState (picker.pieceLengthFor piece) = true ∧ 0 < picker.pieceLengthFor piece

variable (picker : PiecePicker) (peerHas : Nat → Bool)

theorem pick_eq_choice
    (outstanding : picker.outstandingWanted ≠ 0) :
    picker.pick peerHas =
      match picker.choice peerHas with
      | some piece => picker.pickBlockFrom piece
      | none => (picker, none) := by
  unfold pick choice
  rw [if_neg outstanding]
  cases (List.range picker.pieceCount).find? fun piece =>
      flag picker.priority piece && picker.pieceIsRequestable piece && peerHas piece with
  | some piece => rfl
  | none =>
    dsimp only
    split
    · rfl
    · rfl

/-- Without priorities, the sequence is the order. -/
theorem choice_in_sequence {picker : PiecePicker}
    (unmarked : ∀ piece, flag picker.priority piece = false)
    (sequential : picker.sequential = true) : picker.choice peerHas =
      picker.sequence.find? fun piece => picker.pieceIsRequestable piece && peerHas piece := by
  have first : (List.range picker.pieceCount).find? (fun piece =>
      flag picker.priority piece && picker.pieceIsRequestable piece && peerHas piece) = none := by
    rw [find?_eq_none]
    intro piece _
    rw [unmarked piece, Bool.false_and, Bool.false_and]
    exact Bool.false_ne_true
  rw [choice, first]
  exact if_pos sequential

/-- A requestable piece yields a block exactly when it can be opened. -/
theorem pickBlockFrom_eq_none {picker : PiecePicker} {piece : Nat}
    (requestable : picker.pieceIsRequestable piece = true) :
    (picker.pickBlockFrom piece).2 = none ↔ ¬picker.Opens piece := by
  simp only [pieceIsRequestable, Bool.and_eq_true, decide_eq_true_eq] at requestable
  obtain ⟨⟨⟨inside, _⟩, _⟩, free⟩ := requestable
  unfold pickBlockFrom Opens
  rw [if_neg (Nat.not_le.mpr inside)]
  cases found : picker.inProgress.lookup piece with
  | some state =>
    rw [found] at free
    obtain ⟨block, next⟩ := isSome_iff_exists.mp free
    simp [next]
  | none =>
    cases room : picker.canAdmitPieceState (picker.pieceLengthFor piece) with
    | false => simp [room]
    | true =>
      have empty := nextUnrequested_new (picker.pieceLengthFor piece)
      cases next : (PieceState.new (picker.pieceLengthFor piece)).nextUnrequested with
      | none =>
        have closed : ¬0 < picker.pieceLengthFor piece := Nat.not_lt.mpr (empty.mp next).le
        simp [room, next, closed]
      | some block =>
        have positive : picker.pieceLengthFor piece ≠ 0 := by
          intro zero
          rw [empty.mpr zero] at next
          cases next
        simp [room, next, Nat.pos_of_ne_zero positive]

/-! ## The availability of a picker -/

theorem Adjusted.counts {before after : Availability} (adjusted : Adjusted before after) :
    after.counts = before.counts := by
  cases adjusted with
  | unchanged => rfl
  | retired piece =>
    unfold retire
    split <;> rfl
  | reinstated piece =>
    unfold reinstate
    split <;> rfl

/-- A call changes the availability by calls of its own. -/
theorem step_availability (call : Call) :
    ∃ changes : List Availability.Call, (picker.step call).1.availability =
      changes.foldl apply picker.availability := by
  cases aside : announces call with
  | false =>
    have adjusted := (step_passes picker aside).adjusted
    generalize (picker.step call).1.availability = after at adjusted
    cases adjusted with
    | unchanged => exact ⟨[], rfl⟩
    | retired piece => exact ⟨[.retire piece], rfl⟩
    | reinstated piece => exact ⟨[.reinstate piece], rfl⟩
  | true =>
    cases call with
    | addHave piece => exact ⟨[.addHave piece], rfl⟩
    | removeHave piece => exact ⟨[.removeHave piece], rfl⟩
    | addBitfield bitfield => exact ⟨[.addBitfield bitfield], rfl⟩
    | removeBitfield bitfield => exact ⟨[.removeBitfield bitfield], rfl⟩
    | _ => cases aside

/-- What every history of a picker of at most `2 ^ 32` pieces keeps. -/
structure Offering (picker : PiecePicker) : Prop where
  few : picker.pieceCount ≤ 2 ^ 32
  balanced : Balanced picker
  available : Availability.Sound picker.pieceCount picker.availability

theorem new_offering (pieceCount defaultPieceLength lastPieceLength : Nat)
    (few : pieceCount ≤ 2 ^ 32) : Offering (new pieceCount defaultPieceLength lastPieceLength) :=
  ⟨few, new_balanced _ _ (Nat.lt_of_le_of_lt few (by decide)), new_sound pieceCount⟩

variable {picker : PiecePicker} {peerHas : Nat → Bool} {piece : Nat}

theorem Offering.step (offering : Offering picker) (call : Call) :
    Offering (picker.step call).1 := by
  have layout := step_layout picker call
  obtain ⟨changes, changed⟩ := step_availability picker call
  refine ⟨layout.pieceCount.trans_le offering.few, step_balanced offering.balanced call, ?_⟩
  rw [changed, layout.pieceCount]
  exact List.foldlRecOn changes _ offering.available fun _ sound change _ =>
    apply_sound offering.few sound change

theorem Offering.run (offering : Offering picker) (calls : List Call) :
    Offering (picker.run calls) :=
  List.foldlRecOn calls _ offering fun _ offering call _ => offering.step call

/-! ## When there is nothing to pick -/

/-- A piece that could be asked for next: a block of it is left, or it was not started. Whether
there is room for its state plays no part. -/
structure Candidate (picker : PiecePicker) (peerHas : Nat → Bool) (piece : Nat) : Prop where
  wanted : flag picker.wanted piece = true
  enabled : flag picker.enabled piece = true
  owned : peerHas piece = true
  available : picker.sequential = true ∨ flag picker.priority piece = true ∨
    0 < picker.availability.count piece
  left : picker.inProgress.lookup piece = none ∨ ∃ block, picker.Fresh piece block

/-- How far a piece is from the start of the sequence, which goes round. -/
def distance (piece : Nat) : Nat :=
  let start := min picker.sequentialStartPiece (picker.pieceCount - 1)
  if start ≤ piece then piece - start else piece + picker.pieceCount - start

/-- By the distance in the sequence, or else by how many peers have the pieces and then by their
number. -/
def Earlier (first second : Nat) : Prop :=
  if picker.sequential then picker.distance first < picker.distance second
  else rank picker.availability.count first < rank picker.availability.count second

/-- The pieces with priority come first, by their number, and the others follow in their order. -/
def Precedes (first second : Nat) : Prop :=
  if flag picker.priority second then flag picker.priority first = true ∧ first < second
  else flag picker.priority first = true ∨ picker.Earlier first second

/-- The candidate that precedes all others. -/
structure First (picker : PiecePicker) (peerHas : Nat → Bool) (piece : Nat) : Prop where
  candidate : picker.Candidate peerHas piece
  least : ∀ other, picker.Candidate peerHas other → other = piece ∨ picker.Precedes piece other

theorem mem_sequence : piece ∈ picker.sequence ↔ piece < picker.pieceCount := by
  rw [sequence, mem_append, mem_range'_1, mem_range]
  omega

theorem sequence_sorted : picker.sequence.Pairwise fun first second =>
    picker.distance first < picker.distance second := by
  simp only [sequence, pairwise_append, distance]
  refine ⟨(pairwise_lt_range' ..).imp_of_mem ?_, pairwise_lt_range.imp_of_mem ?_, ?_⟩
  · intro first second firstIn secondIn less
    rw [mem_range'_1] at firstIn secondIn
    rw [if_pos firstIn.1, if_pos secondIn.1]
    omega
  · intro first second firstIn secondIn less
    rw [mem_range] at firstIn secondIn
    rw [if_neg (Nat.not_le.mpr firstIn), if_neg (Nat.not_le.mpr secondIn)]
    omega
  · intro first firstIn second secondIn
    rw [mem_range'_1] at firstIn
    rw [mem_range] at secondIn
    rw [if_pos firstIn.1, if_neg (Nat.not_le.mpr secondIn)]
    omega

/-- A piece is requestable if it is wanted and enabled and a block of it is left, or all are. -/
theorem Offering.requestable_iff (offering : Offering picker) :
    picker.pieceIsRequestable piece = true ↔ flag picker.wanted piece = true ∧
      flag picker.enabled piece = true ∧
      (picker.inProgress.lookup piece = none ∨ ∃ block, picker.Fresh piece block) := by
  rw [pieceIsRequestable, Bool.and_eq_true, Bool.and_eq_true, Bool.and_eq_true,
    decide_eq_true_iff, and_assoc, and_assoc, and_iff_right_of_imp]
  · refine and_congr_right fun _ => and_congr_right fun _ => ?_
    unfold Fresh
    cases picker.inProgress.lookup piece with
    | none => exact iff_of_true rfl (.inl rfl)
    | some state =>
      rw [isSome_iff_ne_none, ne_eq, nextUnrequested_eq_none, Classical.not_forall_not]
      exact (or_iff_right (Option.some_ne_none state)).symm
  · intro able
    exact lt_of_eligible offering.balanced.toFlags (Bool.and_eq_true_iff.mpr ⟨able.1, able.2.1⟩)

/-- The candidates are the requestable pieces of the peer that the order comes to. -/
theorem Offering.candidate_iff (offering : Offering picker) : picker.Candidate peerHas piece ↔
      (picker.pieceIsRequestable piece && peerHas piece) = true ∧ (picker.sequential = true ∨
        flag picker.priority piece = true ∨ 0 < picker.availability.count piece) := by
  rw [Bool.and_eq_true, offering.requestable_iff]
  constructor
  · rintro ⟨wanted, enabled, owned, available, left⟩
    exact ⟨⟨⟨wanted, enabled, left⟩, owned⟩, available⟩
  · rintro ⟨⟨⟨wanted, enabled, left⟩, owned⟩, available⟩
    exact ⟨wanted, enabled, owned, available, left⟩

theorem Offering.requestable (offering : Offering picker)
    (candidate : picker.Candidate peerHas piece) : picker.pieceIsRequestable piece = true :=
  offering.requestable_iff.mpr ⟨candidate.wanted, candidate.enabled, candidate.left⟩

/-- The pieces without priority as `pick` goes through them. -/
def order : List Nat :=
  if picker.sequential then picker.sequence else walk picker.availability.buckets

theorem Offering.order_sorted (offering : Offering picker) :
    picker.order.Pairwise picker.Earlier := by
  unfold order Earlier
  split_ifs
  · exact picker.sequence_sorted
  · exact walk_sorted_by offering.available.exact.placed picker.availability.count_eq_level

theorem find?_order :
    (if picker.sequential then
        picker.sequence.find? fun piece => picker.pieceIsRequestable piece && peerHas piece
      else picker.rarestRequestablePiece peerHas) =
      picker.order.find? fun piece => picker.pieceIsRequestable piece && peerHas piece := by
  unfold order
  split_ifs
  · rfl
  · exact firstMatching_eq_find ..

/-- The order finds the first candidate if there is one. -/
theorem Offering.choice_spec (offering : Offering picker) (peerHas : Nat → Bool) :
    match picker.choice peerHas with
    | some piece => picker.First peerHas piece
    | none => ∀ piece, ¬picker.Candidate peerHas piece := by
  have inside {piece} (accepted : (picker.pieceIsRequestable piece && peerHas piece) = true) :
      piece < picker.pieceCount ∧ picker.availability.isRetired piece = false := by
    have able := eligible_of_requestable (Bool.and_eq_true_iff.mp accepted).1
    have below := lt_of_eligible offering.balanced.toFlags able
    exact ⟨below, (offering.balanced.tallied.complement piece below).trans (by rw [able]; rfl)⟩
  have marked (piece) : picker.Candidate peerHas piece ∧ flag picker.priority piece = true ↔
      piece ∈ List.range picker.pieceCount ∧ (flag picker.priority piece &&
        picker.pieceIsRequestable piece && peerHas piece) = true := by
    rw [offering.candidate_iff, mem_range, Bool.and_assoc, Bool.and_eq_true (flag _ _)]
    constructor
    · rintro ⟨⟨accepted, _⟩, first⟩
      exact ⟨(inside accepted).1, first, accepted⟩
    · rintro ⟨_, first, accepted⟩
      exact ⟨⟨accepted, .inr (.inl first)⟩, first⟩
  have byPriority := find?_first pairwise_lt_range marked
  have placed := offering.available.exact.placed
  unfold choice
  cases found : (List.range picker.pieceCount).find? fun piece =>
      flag picker.priority piece && picker.pieceIsRequestable piece && peerHas piece with
  | some piece =>
    rw [found] at byPriority
    obtain ⟨⟨candidate, first⟩, least⟩ := byPriority
    refine ⟨candidate, fun other rival => ?_⟩
    rw [Precedes]
    split_ifs with also
    · exact (least other ⟨rival, also⟩).imp_right fun later => ⟨first, later⟩
    · exact .inr (.inl first)
  | none =>
    rw [found] at byPriority
    have unmarked {piece} (candidate : picker.Candidate peerHas piece) :
        ¬flag picker.priority piece = true := fun first => byPriority piece ⟨candidate, first⟩
    have sought (piece) : picker.Candidate peerHas piece ↔ piece ∈ picker.order ∧
        (picker.pieceIsRequestable piece && peerHas piece) = true := by
      unfold order
      constructor
      · intro candidate
        obtain ⟨accepted, available⟩ := offering.candidate_iff.mp candidate
        refine ⟨?_, accepted⟩
        split_ifs with sequential
        · exact mem_sequence.mpr (inside accepted).1
        · exact (mem_walk placed).mpr (level_pos.mpr ⟨(inside accepted).2,
            (available.resolve_left sequential).resolve_left (unmarked candidate)⟩)
      · rintro ⟨member, accepted⟩
        refine offering.candidate_iff.mpr ⟨accepted, ?_⟩
        split_ifs at member with sequential
        · exact .inl sequential
        · exact .inr (.inr (level_pos.mp ((mem_walk placed).mp member)).2)
    have inOrder := find?_first offering.order_sorted sought
    dsimp only
    rw [find?_order]
    cases next : picker.order.find? fun piece => picker.pieceIsRequestable piece && peerHas piece with
    | none =>
      rw [next] at inOrder
      exact inOrder
    | some piece =>
      rw [next] at inOrder
      refine ⟨inOrder.1, fun other rival => (inOrder.2 other rival).imp_right fun earlier => ?_⟩
      rw [Precedes, if_neg (unmarked rival)]
      exact .inr earlier

theorem Precedes.asymm {first second : Nat} (before : picker.Precedes first second) :
    ¬picker.Precedes second first := by
  unfold Precedes Earlier at before ⊢
  grind

theorem Offering.choice_eq_some (offering : Offering picker) :
    picker.choice peerHas = some piece ↔ picker.First peerHas piece := by
  have chosen := offering.choice_spec peerHas
  cases found : picker.choice peerHas with
  | none =>
    rw [found] at chosen
    exact iff_of_false nofun fun first => chosen piece first.candidate
  | some other =>
    rw [found] at chosen
    refine ⟨fun same => Option.some.inj same ▸ chosen, fun first => congrArg some ?_⟩
    by_contra different
    exact ((chosen.least piece first.candidate).resolve_left (Ne.symm different)).asymm
      ((first.least other chosen.candidate).resolve_left different)

/-- A candidate that can be opened has a requestable block. -/
theorem Candidate.requestable (candidate : picker.Candidate peerHas piece)
    (opens : picker.Opens piece) : ∃ block, picker.Requestable peerHas piece block := by
  obtain ⟨wanted, enabled, owned, available, left⟩ := candidate
  have fresh : ∃ block, picker.Fresh piece block := by
    refine left.elim (fun absent => ?_) id
    rw [Opens, absent] at opens
    refine ⟨0, ?_⟩
    rw [Fresh, absent]
    exact nBlocks_pos.mpr (opens.resolve_left nofun).2
  obtain ⟨block, fresh⟩ := fresh
  exact ⟨block, wanted, enabled, owned, available, opens.imp id And.left, fresh⟩

/-- `pick` finds nothing when there is no candidate, or when the candidate that comes first
cannot be opened. -/
theorem Offering.pick_eq_none (offering : Offering picker) : (picker.pick peerHas).2 = none ↔
      ∀ piece, picker.choice peerHas = some piece → ¬picker.Opens piece := by
  have chosen := offering.choice_spec peerHas
  by_cases finished : picker.outstandingWanted = 0
  · have nothing : picker.pick peerHas = (picker, none) := if_pos finished
    rw [nothing]
    refine iff_of_true rfl fun piece found => ?_
    rw [found] at chosen
    have able := eligible_of_requestable (offering.requestable chosen.candidate)
    have counted := offering.balanced.tallied.exact
    rw [finished, eq_comm, Finset.card_eq_zero, Finset.filter_eq_empty_iff] at counted
    exact absurd able
      (counted (Finset.mem_range.mpr (lt_of_eligible offering.balanced.toFlags able)))
  · rw [picker.pick_eq_choice peerHas finished]
    cases found : picker.choice peerHas with
    | none => exact iff_of_true rfl nofun
    | some piece =>
      rw [found] at chosen
      rw [pickBlockFrom_eq_none (offering.requestable chosen.candidate)]
      constructor
      · rintro closed other same
        rwa [← Option.some.inj same]
      · exact fun closed => closed piece rfl

/-- For a picker of at most `2 ^ 32` pieces after any history of calls: `pick` finds nothing
exactly when no block can be requested, if and only if the candidate that precedes all others is
in progress, or has blocks and there is room for its state, whenever there is a block to request. -/
theorem pick_none_iff (pieceCount defaultPieceLength lastPieceLength : Nat)
    (few : pieceCount ≤ 2 ^ 32) (calls : List Call) (peerHas : Nat → Bool) (picker : PiecePicker)
    (reached : (new pieceCount defaultPieceLength lastPieceLength).run calls = picker) :
    ((picker.pick peerHas).2 = none ↔ ¬∃ piece block, picker.Requestable peerHas piece block) ↔
      ((∃ piece block, picker.Requestable peerHas piece block) →
        ∃ piece, picker.First peerHas piece ∧ picker.Opens piece) := by
  have offering : Offering picker :=
    reached ▸ (new_offering pieceCount defaultPieceLength lastPieceLength few).run calls
  rw [offering.pick_eq_none]
  simp only [offering.choice_eq_some]
  constructor
  · intro exact some
    by_contra closed
    refine exact.mp (fun piece first opens => ?_) some
    exact closed ⟨piece, first, opens⟩
  · intro opened
    constructor
    · intro closed some
      obtain ⟨piece, first, opens⟩ := opened some
      exact closed piece first opens
    · intro none piece first opens
      obtain ⟨block, requestable⟩ := first.candidate.requestable opens
      exact none ⟨piece, block, requestable⟩

/-- Of three pieces the second has priority, and one of its two blocks is requested. -/
theorem pick_of_priority :
    let picker := (new 3 20000 100).run [.setPriority [1], .pick fun _ => true]
    (picker.pick fun _ => true).2 = none ↔
      ¬∃ piece block, picker.Requestable (fun _ => true) piece block := by
  refine (pick_none_iff 3 20000 100 (by decide) [.setPriority [1], .pick fun _ => true]
    (fun _ => true) _ rfl).mpr fun _ => ⟨1, ⟨?_, fun other rival => ?_⟩, .inl (by decide)⟩
  · exact ⟨by decide, by decide, rfl, .inr (.inl (by decide)), .inr ⟨1, rfl, rfl⟩⟩
  · match other with
    | 0 => exact .inr (.inl (by decide))
    | 1 => exact .inl rfl
    | 2 => exact .inr (.inl (by decide))
    | more + 3 => cases rival.wanted

/-! ### A full table -/

/-- The first of two blocks is on disk. -/
def half : PieceState := ⟨32768, [0, 0], [true, false]⟩

variable (count : Nat)

/-- A picker with one piece more than can be in progress, of which some are. -/
def crowded (table : Table Nat PieceState) : PiecePicker :=
  { new (maxInProgressPieces + 1) 32768 32768 with
    inProgress := table, inProgressBytes := 62 * count }

theorem crowded_length (piece : Nat) (table : Table Nat PieceState) :
    (crowded count table).pieceLengthFor piece = 32768 := by
  unfold pieceLengthFor
  split <;> rfl

theorem crowded_flags (table : Table Nat PieceState)
    (inside : piece ≤ maxInProgressPieces) : flag (crowded count table).wanted piece = true ∧
      flag (crowded count table).enabled piece = true := by
  have marked : flag (List.replicate (maxInProgressPieces + 1) true) piece = true := by
    rw [flag_replicate, Bool.true_and, decide_eq_true (Nat.lt_succ_of_le inside)]
  exact ⟨marked, marked⟩

variable {table : Table Nat PieceState}

theorem crowded_admits {count : Nat} (sized : size table = count) :
    (crowded count table).canAdmitPieceState 32768 = true ↔ count < maxInProgressPieces := by
  have memory : pieceStateMemoryBytes 32768 = 62 := by decide
  unfold canAdmitPieceState
  simp only [crowded, memory, sized, Bool.and_eq_true, decide_eq_true_eq, and_iff_left_iff_imp]
  intro room
  unfold maxInProgressPieces at room
  rw [checkedAdd_of_lt (by omega)]
  refine decide_eq_true ?_
  unfold maxInProgressPieceStateBytes
  omega

/-- Restoring a block of the next piece. -/
theorem crowded_restore {count : Nat} (sized : size table = count)
    (absent : table.lookup count = none) (room : count < maxInProgressPieces) :
    (crowded count table).restorePartialPiece count [0] =
      crowded (count + 1) (table.insert count half) := by
  have memory : pieceStateMemoryBytes 32768 = 62 := by decide
  have few := room
  unfold maxInProgressPieces at few
  have able : (crowded count table).eligible count = true :=
    Bool.and_eq_true_iff.mpr (crowded_flags count table room.le)
  rw [restorePartialPiece_accepted able (Nat.lt_succ_of_lt room) rfl absent]
  · simp only [crowded_length, memory]
    simp only [crowded, saturatingAdd_of_lt (show 62 * count + 62 < 2 ^ 64 by omega), Nat.mul_succ]
    rfl
  · rw [crowded_length]
    exact (crowded_admits sized).mpr room
  · rw [crowded_length]
    decide

/-- Restoring a block of each of the first pieces. -/
theorem crowded_restored (room : count ≤ maxInProgressPieces) :
    ∃ table, (crowded 0 ∅).run ((List.range count).map fun piece => .restorePartialPiece piece [0]) =
        crowded count table ∧
      size table = count ∧ ∀ piece, table.lookup piece = if piece < count then some half else none := by
  induction count with
  | zero => exact ⟨∅, rfl, rfl, fun _ => rfl⟩
  | succ count ih =>
    obtain ⟨table, reached, sized, stored⟩ := ih (Nat.le_of_succ_le room)
    have absent : table.lookup count = none := by
      rw [stored, if_neg (Nat.lt_irrefl count)]
    refine ⟨table.insert count half, ?_, ?_, ?_⟩
    · rw [range_succ, map_append, run_append, reached]
      exact crowded_restore sized absent room
    · rw [size_insert_fresh absent, sized]
    · intro piece
      by_cases same : piece = count
      · subst same
        rw [AList.lookup_insert, if_pos (Nat.lt_succ_self piece)]
      · have shifted : piece < count + 1 ↔ piece < count := by omega
        rw [AList.lookup_insert_ne same, stored]
        simp only [shifted]

/-- A block of every piece but the last is restored; the sequence starts at the last. -/
def fullHistory : List Call :=
  ((List.range maxInProgressPieces).map fun piece => .restorePartialPiece piece [0]) ++
    [.setSequential true, .setSequentialFromPiece maxInProgressPieces]

/-- The picker after this history. -/
def full (table : Table Nat PieceState) : PiecePicker :=
  { crowded maxInProgressPieces table with
    sequential := true, sequentialStartPiece := maxInProgressPieces }

theorem full_sequence (table : Table Nat PieceState) :
    (full table).sequence = maxInProgressPieces :: List.range maxInProgressPieces := by
  have start : min (full table).sequentialStartPiece ((full table).pieceCount - 1) =
      maxInProgressPieces := Nat.min_self _
  have count : (full table).pieceCount - maxInProgressPieces = 1 :=
    Nat.add_sub_cancel_left maxInProgressPieces 1
  rw [sequence, start, count, range'_one, singleton_append]

/-- The order puts the last piece first, which is not in progress. -/
theorem full_choice (absent : table.lookup maxInProgressPieces = none) :
    (full table).choice (fun _ => true) = some maxInProgressPieces := by
  obtain ⟨wanted, enabled⟩ := crowded_flags maxInProgressPieces table (Nat.le_refl _)
  have requestable : (full table).pieceIsRequestable maxInProgressPieces = true := by
    unfold pieceIsRequestable
    rw [show flag (full table).wanted maxInProgressPieces = true from wanted,
      show flag (full table).enabled maxInProgressPieces = true from enabled,
      show (full table).inProgress = table from rfl, absent]
    simp only [Bool.and_true]
    exact decide_eq_true (Nat.lt_succ_self _)
  have unmarked : ∀ piece, flag (full table).priority piece = false := by
    intro piece
    exact (flag_replicate (maxInProgressPieces + 1) piece false).trans (Bool.false_and _)
  refine (choice_in_sequence _ unmarked rfl).trans ?_
  rw [full_sequence]
  exact find?_cons_of_pos (by rw [requestable, Bool.and_self])

/-- There is no room for the piece the sequence starts at, and `pick` gives up, although the
second block of every other piece could be requested. -/
theorem full_table_hides_blocks : ∃ picker,
    (new (maxInProgressPieces + 1) 32768 32768).run fullHistory = picker ∧
      (picker.pick fun _ => true).2 = none ∧ picker.Requestable (fun _ => true) 0 1 := by
  obtain ⟨table, reached, sized, stored⟩ := crowded_restored maxInProgressPieces (Nat.le_refl _)
  have absent : table.lookup maxInProgressPieces = none := by
    rw [stored, if_neg (Nat.lt_irrefl _)]
  have start : new (maxInProgressPieces + 1) 32768 32768 = crowded 0 ∅ := rfl
  have final : (new (maxInProgressPieces + 1) 32768 32768).run fullHistory = full table := by
    rw [start, fullHistory, run_append, reached]
    simp only [run, List.foldl_cons, List.foldl_nil, step, setSequential, setSequentialFromPiece,
      full]
    rw [show (crowded maxInProgressPieces table).pieceCount - 1 = maxInProgressPieces from rfl,
      Nat.min_self]
  have offering := (new_offering (maxInProgressPieces + 1) 32768 32768 (by decide)).run fullHistory
  rw [final] at offering
  refine ⟨_, final, offering.pick_eq_none.mpr ?_, ?_⟩
  · intro piece chosen
    rw [full_choice absent] at chosen
    obtain rfl := Option.some.inj chosen
    rintro (started | ⟨room, _⟩)
    · rw [show (full table).inProgress = table from rfl, absent] at started
      cases started
    · have length : (full table).pieceLengthFor maxInProgressPieces = 32768 :=
        crowded_length maxInProgressPieces maxInProgressPieces table
      rw [length] at room
      exact absurd ((crowded_admits sized).mp room) (Nat.lt_irrefl _)
  · obtain ⟨wanted, enabled⟩ := crowded_flags maxInProgressPieces table (Nat.zero_le _)
    have started : (full table).inProgress.lookup 0 = some half :=
      (stored 0).trans (if_pos (by decide))
    refine ⟨wanted, enabled, rfl, .inl rfl, .inl ?_, ?_⟩
    · rw [started]
      rfl
    · unfold Fresh
      rw [started]
      exact ⟨rfl, rfl⟩

/-! ## Repeated requests at the end -/

theorem flag_eq_true {flags : List Bool} : flag flags piece = true ↔ flags[piece]? = some true := by
  unfold flag
  cases flags[piece]? with
  | none => simp
  | some value => simp

/-- In the endgame no piece in progress has a block left to request. Pieces that were not
started are not looked at. -/
theorem nextUnrequested_of_endgame (active : picker.endgameActive = true)
    (able : picker.eligible piece = true) {state : PieceState}
    (started : picker.inProgress.lookup piece = some state) : state.nextUnrequested = none := by
  obtain ⟨wanted, enabled⟩ := (Bool.and_eq_true _ _).mp able
  unfold endgameActive at active
  split_ifs at active
  have listed : ((true, true), piece) ∈ (picker.wanted.zip picker.enabled).zipIdx :=
    mem_zipIdx_iff_getElem?.mpr
      (getElem?_zip_eq_some.mpr ⟨flag_eq_true.mp wanted, flag_eq_true.mp enabled⟩)
  have checked := all_eq_true.mp active _ (mem_filter.mpr ⟨listed, rfl⟩)
  dsimp only at checked
  rw [started, bind_some] at checked
  exact isNone_iff_eq_none.mp checked

/-- The piece of a repeated request is wanted, enabled and owned by the peer. -/
theorem nextEndgamePiece_some {already : List BlockRequest}
    (found : picker.nextEndgamePiece peerHas already = some piece) :
    picker.eligible piece = true ∧ peerHas piece = true := by
  unfold nextEndgamePiece at found
  dsimp only at found
  split at found
  next first =>
    have accepted := find?_some first
    obtain rfl := Option.some.inj found
    simp only [Bool.and_eq_true] at accepted
    exact ⟨Bool.and_eq_true_iff.mpr ⟨accepted.2.1.1.1.2, accepted.2.1.1.2⟩, accepted.2.1.2⟩
  next =>
    split_ifs at found
    · have accepted := find?_some found
      simp only [Bool.and_eq_true] at accepted
      exact ⟨Bool.and_eq_true_iff.mpr ⟨accepted.1.1.1.1.2, accepted.1.1.1.2⟩, accepted.1.1.2⟩
    · have accepted := rarestMatching_accepts found
      simp only [Bool.and_eq_true] at accepted
      exact ⟨Bool.and_eq_true_iff.mpr ⟨accepted.2.1.1.1.2, accepted.2.1.1.2⟩, accepted.2.1.2⟩

/-- What a repeated request comes from. -/
theorem pickEndgame_some {already : List BlockRequest} {request : BlockRequest}
    (picked : (picker.pickEndgame peerHas already).2 = some request) :
    picker.endgameActive = true ∧ ∃ piece state block,
      picker.eligible piece = true ∧ peerHas piece = true ∧
        picker.inProgress.lookup piece = some state ∧
        state.nextRequestedNotReceived already piece = some block ∧
        request = state.blockRequestFor piece block := by
  unfold pickEndgame at picked
  split_ifs at picked with inactive
  refine ⟨by simpa using inactive, ?_⟩
  split at picked
  next => cases picked
  next piece chosen =>
    obtain ⟨able, owned⟩ := nextEndgamePiece_some chosen
    split at picked
    next => cases picked
    next state started =>
      split at picked
      next => cases picked
      next block next =>
        exact ⟨piece, state, block, able, owned, started, next, (Option.some.inj picked).symm⟩

/-- A repeated request, for a picker of at most `2 ^ 32` pieces after any history of calls, is
for a block that is requested and not received, of a piece that the peer has, and not one of
the excluded blocks. At that time no wanted and enabled piece has a block left to request
exactly when each of them that is not empty was started. -/
theorem endgame_exact (pieceCount defaultPieceLength lastPieceLength : Nat)
    (few : pieceCount ≤ 2 ^ 32) (calls : List Call) (peerHas : Nat → Bool)
    (already : List BlockRequest) (picker : PiecePicker)
    (reached : (new pieceCount defaultPieceLength lastPieceLength).run calls = picker)
    (request : BlockRequest) (picked : (picker.pickEndgame peerHas already).2 = some request) :
    (∃ state block requests, picker.inProgress.lookup request.piece = some state ∧
      request = requestOf request.piece (picker.pieceLengthFor request.piece) block ∧
      state.requested[block]? = some requests ∧ requests ≠ 0 ∧
      state.received[block]? = some false ∧ peerHas request.piece = true ∧ request ∉ already) ∧
    ((∀ piece, flag picker.wanted piece = true → flag picker.enabled piece = true →
        ∀ block, ¬picker.Fresh piece block) ↔
      ∀ piece, flag picker.wanted piece = true → flag picker.enabled piece = true →
        0 < picker.pieceLengthFor piece → (picker.inProgress.lookup piece).isSome = true) := by
  have offering : Offering picker :=
    reached ▸ (new_offering pieceCount defaultPieceLength lastPieceLength few).run calls
  obtain ⟨active, piece, state, block, able, owned, started, next, rfl⟩ := pickEndgame_some picked
  have inside := lt_of_eligible offering.balanced.toFlags able
  have number : (state.blockRequestFor piece block).piece = piece :=
    Nat.mod_eq_of_lt (Nat.lt_of_lt_of_le inside offering.few)
  constructor
  · obtain ⟨⟨requests, stored, asked⟩, missing, fresh⟩ := nextRequestedNotReceived_some next
    have held := (offering.balanced.filled.states piece state started).2
    rw [number]
    refine ⟨state, block, requests, started, ?_, stored, asked, missing, owned, fresh⟩
    rw [PieceState.blockRequestFor_eq, held.pieceLength]
  · constructor
    · intro none other wanted enabled positive
      by_contra unstarted
      rw [Option.not_isSome_iff_eq_none] at unstarted
      refine none other wanted enabled 0 ?_
      unfold Fresh
      rw [unstarted]
      exact nBlocks_pos.mpr positive
    · intro all other wanted enabled slot fresh
      have eligible : picker.eligible other = true := Bool.and_eq_true_iff.mpr ⟨wanted, enabled⟩
      unfold Fresh at fresh
      split at fresh
      next begun stored =>
        have taken := nextUnrequested_of_endgame active eligible stored
        exact nextUnrequested_eq_none.mp taken slot fresh
      next absent =>
        have positive := nBlocks_pos.mp (Nat.zero_lt_of_lt fresh)
        have present := all other wanted enabled positive
        rw [absent] at present
        cases present

/-- The only block of the first of two pieces is requested, the second piece was not started. -/
def oneOfTwo : PiecePicker := (new 2 100 100).run [.setPriority [0], .pick fun _ => true]

/-- A repeated request, although a whole piece was never asked for. -/
theorem endgame_before_last_piece :
    (oneOfTwo.pickEndgame (fun _ => true) []).2 = some ⟨0, 0, 100⟩ ∧
      flag oneOfTwo.wanted 1 = true ∧ flag oneOfTwo.enabled 1 = true ∧ oneOfTwo.Fresh 1 0 := by
  refine ⟨by decide, by decide, by decide, ?_⟩
  show 0 < nBlocks 100
  decide

/-- All three blocks of two pieces are requested. -/
def allRequested : PiecePicker :=
  (new 2 20000 100).run (.setPriority [0, 1] :: List.replicate 3 (.pick fun _ => true))

/-- A peer that was asked for the first block may be asked for the second one. -/
theorem endgame_after_first_block :
    (⟨0, 16384, 3616⟩ : BlockRequest) ∉ [⟨0, 0, 16384⟩] ∧
      ∀ piece, flag allRequested.wanted piece = true → flag allRequested.enabled piece = true →
        ∀ block, ¬allRequested.Fresh piece block := by
  obtain ⟨⟨_, _, _, _, _, _, _, _, _, excluded⟩, complete⟩ := endgame_exact 2 20000 100 (by decide)
    (.setPriority [0, 1] :: List.replicate 3 (.pick fun _ => true)) (fun _ => true)
    [⟨0, 0, 16384⟩] allRequested rfl ⟨0, 16384, 3616⟩ (by decide +kernel)
  refine ⟨excluded, complete.mpr fun piece wanted _ _ => ?_⟩
  match piece with
  | 0 => decide
  | 1 => decide
  | more + 2 => cases wanted

end PiecePicker

end TorrentNG.Picker
