import TorrentNG.PickerInvariant
import TorrentNG.PieceRequests

/-!
# The blocks a picker asks for

A picker over a piece map, followed through any history of calls, seen from one piece. In
an interval in which no request for the piece is taken back, a block goes from untouched to
requested or received once and stays there, so no block is asked for twice; the requests
are blocks of the piece that the piece map accepts.

`Effect` lists everything a call can do to the piece in such an interval, and each step of
the picker is one of them. The results about whole intervals are inductions over effects.
-/

namespace TorrentNG.Picker

open List MachineArithmetic PieceState Pieces Tables AList

/-! ## Blocks of a piece -/

/-- The request for a block of a piece of the given length. -/
def requestOf (piece length block : Nat) : BlockRequest where
  piece := piece % 2 ^ 32
  begin := block * maxBlockSize
  length := min (length - block * maxBlockSize) maxBlockSize

namespace PieceState

variable (state : PieceState) (block : Nat)

/-- How often a block is requested. -/
def requests : Nat := state.requested[block]?.getD 0

/-- Whether a block was received. -/
def has : Bool := state.received[block]?.getD false

/-- A block that was requested or received. -/
def Taken : Prop :=
  state.requests block ≠ 0 ∨ state.has block = true

theorem blockRequestFor_eq (piece block : Nat) :
    state.blockRequestFor piece block = requestOf piece state.pieceLength block := rfl

variable (other : Nat)

theorem has_markRequested :
    (state.markRequested block).has other = state.has other := rfl

variable {state : PieceState} {block : Nat}

theorem requests_markRequested (inside : block < state.requested.length) :
    (state.markRequested block).requests other =
      if block = other then min (state.requests other + 1) (2 ^ 16 - 1) else state.requests other := by
  rw [requests, markRequested, getElem?_modify]
  by_cases same : block = other
  · subst same
    simp [requests, getElem?_eq_getElem inside]
  · rw [if_neg same, requests]
    simp [same]

theorem requests_markReceived (inside : block < state.requested.length) :
    (state.markReceived block).requests other = if block = other then 0 else state.requests other :=
  getD_set inside 0 0 other

theorem has_markReceived (inside : block < state.received.length) :
    (state.markReceived block).has other = (decide (block = other) || state.has other) := by
  rw [has, markReceived]
  by_cases same : block = other
  · subst same
    simp [inside]
  · simp [same, has]

end PieceState

variable {block : Nat} {length : Nat}

theorem requestOf_injective {piece : Nat} : Function.Injective (requestOf piece length) := by
  intro first second same
  have begins : first * maxBlockSize = second * maxBlockSize := congrArg BlockRequest.begin same
  exact Nat.eq_of_mul_eq_mul_right (by decide) begins

variable {state : PieceState}

theorem taken_iff {flags : Nat × Bool}
    (found : (state.requested.zip state.received)[block]? = some flags) :
    state.Taken block ↔ ¬(flags.1 == 0 && !flags.2) = true := by
  rw [getElem?_zip_eq_some] at found
  rw [Taken, requests, has, found.1, found.2]
  simp [imp_iff_not_or]

/-- The first block that is neither requested nor received. -/
theorem nextUnrequested_some (shaped : Shaped length state)
    (found : state.nextUnrequested = some block) : block < nBlocks length ∧ ¬state.Taken block := by
  obtain ⟨inside, free, _⟩ := findIdx?_eq_some_iff_getElem.mp found
  have taken := taken_iff (getElem?_eq_getElem inside)
  rw [length_zip, shaped.requested, shaped.received, Nat.min_self] at inside
  exact ⟨inside, fun busy => taken.mp busy free⟩

/-- When every block is requested or received, none is left to request. -/
theorem nextUnrequested_none (shaped : Shaped length state)
    (found : state.nextUnrequested = none) (inside : block < nBlocks length) :
    state.Taken block := by
  have both : block < (state.requested.zip state.received).length := by
    rw [length_zip, shaped.requested, shaped.received, Nat.min_self]
    exact inside
  have busy := findIdx?_eq_none_iff.mp found _ (getElem_mem both)
  exact (taken_iff (getElem?_eq_getElem both)).mpr (Bool.not_eq_true _ ▸ busy)

variable {other : Nat}

section Taken

variable {length : Nat} {state : PieceState} (shaped : Shaped length state)

include shaped

theorem lt_of_taken (taken : state.Taken block) : block < nBlocks length := by
  by_contra outside
  have beyond := Nat.le_of_not_lt outside
  rw [Taken, requests, has, getElem?_eq_none (shaped.requested ▸ beyond),
    getElem?_eq_none (shaped.received ▸ beyond)] at taken
  simp at taken

theorem taken_markRequested (inside : block < nBlocks length) :
    (state.markRequested block).Taken other ↔ block = other ∨ state.Taken other := by
  rw [Taken, has_markRequested, requests_markRequested other (shaped.requested ▸ inside), Taken]
  split
  next same => exact iff_of_true (.inl (by omega)) (.inl same)
  next same => rw [or_iff_right same]

/-- A block outside the piece changes nothing. -/
theorem taken_markReceived :
    (state.markReceived block).Taken other ↔ block = other ∧ block < nBlocks length ∨ state.Taken other := by
  by_cases inside : block < nBlocks length
  · rw [Taken, has_markReceived other (shaped.received ▸ inside),
      requests_markReceived other (shaped.requested ▸ inside), Taken]
    by_cases same : block = other
    · simp [same, same ▸ inside]
    · simp [same]
  · have outside := Nat.le_of_not_lt inside
    have requested := set_eq_of_length_le (a := 0) (shaped.requested ▸ outside)
    have received := set_eq_of_length_le (a := true) (shaped.received ▸ outside)
    rw [markReceived, requested, received]
    simp [inside]

end Taken

/-! ## What a call does to one piece -/

/-- A piece as the picker sees it: whether it is wanted, and its state if in progress. -/
structure View where
  wanted : Bool
  state : Option PieceState

/-- A piece as it is after a call that takes no request back, with the request that a pick
returned for it. -/
inductive Effect (piece length : Nat) : View → View → Option BlockRequest → Prop
  | unchanged (view : View) : Effect piece length view view none
  /-- A pick asks for a free block, of the state in progress or of a new one. -/
  | requested (before : Option PieceState) (state : PieceState) (block : Nat)
      (opened : before.getD (PieceState.new length) = state)
      (free : state.nextUnrequested = some block) :
      Effect piece length ⟨true, before⟩ ⟨true, some (state.markRequested block)⟩
        (some (requestOf piece length block))
  /-- An endgame pick repeats a request. -/
  | repeated (wanted : Bool) (state : PieceState) (block : Nat) (taken : state.Taken block) :
      Effect piece length ⟨wanted, some state⟩ ⟨wanted, some (state.markRequested block)⟩ none
  | received (wanted : Bool) (state : PieceState) (block : Nat) :
      Effect piece length ⟨wanted, some state⟩ ⟨wanted, some (state.markReceived block)⟩ none
  | restored (wanted : Bool) (blocks : List Nat) :
      Effect piece length ⟨wanted, none⟩
        ⟨wanted, some ((PieceState.new length).restoreBlocks blocks)⟩ none
  /-- The piece is complete. -/
  | finished (view : View) : Effect piece length view ⟨false, none⟩ none

namespace View

/-- A state has the shape of its piece. -/
def Shaped (length : Nat) (view : View) : Prop :=
  ∀ state, view.state = some state → Picker.Shaped length state

/-- A block that cannot be asked for: it was requested or received, or its piece is done. -/
def Taken (view : View) (block : Nat) : Prop :=
  view.wanted = false ∨ ∃ state, view.state = some state ∧ state.Taken block

/-- A block that was received for a piece in progress. -/
def Received (view : View) (block : Nat) : Prop :=
  ∃ state, view.state = some state ∧ state.has block = true

end View

section Effects

variable {piece length : Nat} {before after : View} {request : Option BlockRequest}

theorem has_new (length block : Nat) : (PieceState.new length).has block = false := by
  rw [has, PieceState.new, getElem?_replicate]
  split <;> rfl

theorem not_taken_new (length block : Nat) : ¬(PieceState.new length).Taken block := by
  rw [Taken, has_new, requests, PieceState.new, getElem?_replicate]
  split <;> simp

theorem opened_shaped {before : Option PieceState}
    (shaped : ∀ stored, before = some stored → Shaped length stored)
    (opened : before.getD (PieceState.new length) = state) : Shaped length state := by
  subst opened
  cases before with
  | none => exact new_shaped length
  | some stored => exact shaped stored rfl

/-- A taken block of the state that is opened was taken before. -/
theorem opened_taken {before : Option PieceState}
    (opened : before.getD (PieceState.new length) = state) (taken : state.Taken block) :
    before = some state := by
  subst opened
  cases before with
  | none => exact absurd taken (not_taken_new length block)
  | some stored => rfl

theorem restoreBlocks_requested (blocks : List Nat) :
    (state.restoreBlocks blocks).requested = state.requested := by
  exact List.foldlRecOn (motive := fun other : PieceState => other.requested = state.requested) blocks _ rfl
    fun _ same _ _ => same

/-- A piece that is done is not wanted again. -/
theorem Effect.unwanted (effect : Effect piece length before after request)
    (done : before.wanted = false) : after.wanted = false := by
  cases effect with
  | requested => cases done
  | unchanged | repeated | received | restored => exact done
  | finished => rfl

/-- Once taken, a block stays taken. -/
theorem Effect.taken (effect : Effect piece length before after request)
    (shaped : before.Shaped length) (taken : before.Taken block) : after.Taken block := by
  rcases taken with done | ⟨state, found, taken⟩
  · exact .inl (effect.unwanted done)
  cases effect with
  | unchanged => exact .inr ⟨state, found, taken⟩
  | finished => exact .inl rfl
  | requested old opened asked fresh free =>
    obtain rfl : old = some state := found
    obtain rfl : state = opened := fresh
    have kept := shaped state rfl
    obtain ⟨inside, _⟩ := nextUnrequested_some kept free
    exact .inr ⟨_, rfl, (taken_markRequested kept inside).mpr (.inr taken)⟩
  | repeated wanted old asked busy =>
    obtain rfl := Option.some.inj found
    have kept := shaped old rfl
    exact .inr ⟨_, rfl, (taken_markRequested kept (lt_of_taken kept busy)).mpr (.inr taken)⟩
  | received wanted old got =>
    obtain rfl := Option.some.inj found
    have kept := shaped old rfl
    exact .inr ⟨_, rfl, (taken_markReceived kept).mpr (.inr taken)⟩
  | restored => cases found

/-- A pick asks for a block of the piece that was free, takes it, and receives nothing. -/
theorem Effect.asks {asked : BlockRequest} (effect : Effect piece length before after (some asked))
    (shaped : before.Shaped length) :
    ∃ block, block < nBlocks length ∧ asked = requestOf piece length block ∧
      ¬before.Taken block ∧ after.Taken block ∧ ∀ other, after.Received other → before.Received other := by
  cases effect with
  | requested old opened block fresh free =>
    have kept := opened_shaped shaped fresh
    obtain ⟨inside, untaken⟩ := nextUnrequested_some kept free
    refine ⟨block, inside, rfl, ?_, .inr ⟨_, rfl, (taken_markRequested kept inside).mpr (.inl rfl)⟩, ?_⟩
    · rintro (done | ⟨state, found, taken⟩)
      · cases done
      · obtain rfl : old = some state := found
        obtain rfl : state = opened := fresh
        exact untaken taken
    · rintro other ⟨state, found, has⟩
      obtain rfl := Option.some.inj found
      exact ⟨opened, opened_taken fresh (.inr has), has⟩

/-- How a block becomes taken: a pick asks for it, it is received, or its piece is done. -/
theorem Effect.takes (effect : Effect piece length before after request)
    (shaped : before.Shaped length) (taken : after.Taken block) :
    before.Taken block ∨ request = some (requestOf piece length block) ∨ after.Received block ∨
      after.wanted = false := by
  rcases taken with done | ⟨state, found, taken⟩
  · exact .inr (.inr (.inr done))
  cases effect with
  | unchanged => exact .inl (.inr ⟨state, found, taken⟩)
  | finished => exact .inr (.inr (.inr rfl))
  | requested old opened asked fresh free =>
    obtain rfl := Option.some.inj found
    have kept := opened_shaped shaped fresh
    obtain ⟨inside, _⟩ := nextUnrequested_some kept free
    rcases (taken_markRequested kept inside).mp taken with rfl | already
    · exact .inr (.inl rfl)
    · exact .inl (.inr ⟨opened, opened_taken fresh already, already⟩)
  | repeated wanted old asked busy =>
    obtain rfl := Option.some.inj found
    have kept := shaped old rfl
    rcases (taken_markRequested kept (lt_of_taken kept busy)).mp taken with rfl | already
    · exact .inl (.inr ⟨old, rfl, busy⟩)
    · exact .inl (.inr ⟨old, rfl, already⟩)
  | received wanted old got =>
    obtain rfl := Option.some.inj found
    have kept := shaped old rfl
    rcases (taken_markReceived kept).mp taken with ⟨rfl, inside⟩ | already
    · refine .inr (.inr (.inl ⟨_, rfl, ?_⟩))
      rw [has_markReceived got (kept.received ▸ inside)]
      simp
    · exact .inl (.inr ⟨old, rfl, already⟩)
  | restored wanted blocks =>
    obtain rfl := Option.some.inj found
    refine .inr (.inr (.inl ⟨_, rfl, ?_⟩))
    rcases taken with requested | received
    · rw [requests, restoreBlocks_requested] at requested
      exact absurd (.inl requested) (not_taken_new length block)
    · exact received

end Effects

namespace PiecePicker

/-! ## Every step is an effect -/

/-- A piece as the picker sees it. -/
def view (picker : PiecePicker) (piece : Nat) : View where
  wanted := flag picker.wanted piece
  state := picker.inProgress.lookup piece

/-- A call that takes no request for a piece back. -/
def Undisturbed (piece : Nat) : Call → Prop
  | .cancelRequest other _ => other ≠ piece
  | .resetOutstandingRequests => False
  | .rejectPiece other => other ≠ piece
  | .setPieceEnabled other enabled => other = piece → enabled = true
  | _ => True

/-- The request that a pick or a pick from a seed returned for a piece. -/
def pickedFor (piece : Nat) : Call → Reply → Option BlockRequest
  | .pick _, .block answer | .pickFromSeed, .block answer =>
      answer.bind fun request => if request.piece = piece then some request else none
  | _, _ => none

/-- What a step does to the layout and to one piece. -/
structure StepEffect (piece : Nat) (before after : PiecePicker) (request : Option BlockRequest) :
    Prop where
  layout : SameLayout before after
  effect : Effect piece (before.pieceLengthFor piece) (before.view piece) (after.view piece) request

variable {piece : Nat} {picker : PiecePicker}

theorem StepEffect.unchanged {before after : PiecePicker} (layout : SameLayout before after)
    (same : after.view piece = before.view piece) : StepEffect piece before after none := by
  refine ⟨layout, ?_⟩
  rw [same]
  exact .unchanged _

/-- Setting whether another piece is wanted, and dropping its state, or finishing this one. -/
theorem setWanted_effect (consistent : Consistent picker)
    (inside : other < picker.pieceCount) {wanted : Bool} (apart : other = piece → wanted = false) :
    StepEffect piece picker ((picker.setWanted other wanted).removeInProgress other) none := by
  obtain ⟨_, _, _, _, settled, _⟩ := settled_frame picker other wanted
  rw [settled]
  have flags := flag_set picker.wanted other piece wanted (consistent.wanted.symm ▸ inside)
  by_cases same : other = piece
  · subst same
    rw [if_pos rfl, apart rfl] at flags
    refine ⟨⟨rfl, rfl, rfl⟩, ?_⟩
    rw [view, view, apart rfl, flags, lookup_erase]
    exact .finished _
  · rw [if_neg same] at flags
    refine .unchanged ⟨rfl, rfl, rfl⟩ ?_
    rw [view, view, flags, lookup_erase_ne (Ne.symm same)]

theorem setPieceEnabled_effect (picker : PiecePicker) {enabled : Bool}
    (kept : other = piece → enabled = true) :
    StepEffect piece picker (picker.setPieceEnabled other enabled) none := by
  obtain ⟨_, same⟩ | ⟨_, _, _, _, same, _⟩ := setPieceEnabled_cases picker other enabled
  · rw [same]
    exact .unchanged (SameLayout.refl _) rfl
  · rw [same]
    cases enabled with
    | true => exact .unchanged ⟨rfl, rfl, rfl⟩ rfl
    | false =>
      have different : other ≠ piece := fun same => Bool.false_ne_true (kept same)
      refine .unchanged ⟨rfl, rfl, rfl⟩ ?_
      rw [view, view, if_neg Bool.false_ne_true, lookup_erase_ne (Ne.symm different)]

section

variable {state : PieceState} {exclude : List BlockRequest}
  (found : state.nextRequestedNotReceived exclude piece = some block)

include found

/-- A repeated request is for a block that is requested, not received and not excluded. -/
theorem nextRequestedNotReceived_some :
    (∃ requests, state.requested[block]? = some requests ∧ requests ≠ 0) ∧
      state.received[block]? = some false ∧ state.blockRequestFor piece block ∉ exclude := by
  obtain ⟨⟨⟨requests, received⟩, index⟩, member, answered⟩ := exists_of_findSome?_eq_some found
  dsimp only at answered
  split_ifs at answered with free excluded
  obtain rfl := Option.some.inj answered
  have stored := mem_zipIdx_iff_getElem?.mp member
  rw [getElem?_zip_eq_some] at stored
  rw [not_or, Bool.not_eq_true] at free
  refine ⟨⟨requests, stored.1, free.1⟩, stored.2.trans (congrArg some free.2), ?_⟩
  exact fun listed => excluded (contains_iff_mem.mpr listed)

theorem nextRequestedNotReceived_taken : state.Taken block := by
  obtain ⟨⟨requests, stored, asked⟩, _⟩ := nextRequestedNotReceived_some found
  refine .inl ?_
  rwa [PieceState.requests, stored]

end

/-- A state goes into the table: that of another piece, or one with an effect. -/
theorem StepEffect.stored {inProgressBytes : Nat}
    (here : other = piece → Effect piece (picker.pieceLengthFor piece) (picker.view piece)
      ⟨flag picker.wanted piece, some state⟩ none) :
    StepEffect piece picker
      { picker with inProgressBytes, inProgress := picker.inProgress.insert other state } none := by
  by_cases same : other = piece
  · subst same
    refine ⟨⟨rfl, rfl, rfl⟩, ?_⟩
    rw [view, view, lookup_insert]
    exact here rfl
  · refine .unchanged ⟨rfl, rfl, rfl⟩ ?_
    rw [view, view, lookup_insert_ne (Ne.symm same)]

/-- Asking for a block, by a call that reports what it asked for. -/
theorem asked_effect (consistent : Consistent picker) (few : picker.pieceCount ≤ 2 ^ 32)
    {inProgressBytes : Nat} (able : picker.eligible other = true)
    (opened : Opened picker other state inProgressBytes)
    (free : state.nextUnrequested = some block) :
    StepEffect piece picker
      { picker with
        inProgressBytes, inProgress := picker.inProgress.insert other (state.markRequested block) }
      (if other % 2 ^ 32 = piece then some (requestOf other state.pieceLength block) else none) := by
  have inside := lt_of_eligible consistent.toFlags able
  rw [Nat.mod_eq_of_lt (Nat.lt_of_lt_of_le inside few)]
  by_cases same : other = piece
  · subst same
    have wanted : flag picker.wanted other = true := (Bool.and_eq_true _ _ ▸ able).1
    rw [if_pos rfl]
    refine ⟨⟨rfl, rfl, rfl⟩, ?_⟩
    rw [view, view, lookup_insert, wanted]
    cases opened with
    | present _ found =>
      rw [found, (consistent.filled.states other state found).2.pieceLength]
      exact .requested _ _ block rfl free
    | fresh absent room =>
      rw [absent]
      exact .requested none _ block rfl free
  · rw [if_neg same]
    exact .stored fun here => absurd here same

theorem pickedFor_eq (piece : Nat) (call : Call) (reply : Reply) :
    pickedFor piece call reply = (asked call reply).bind fun request =>
      if request.piece = piece then some request else none := by
  cases call <;> cases reply <;> rfl

/-- Every call that takes no request for the piece back has one of the effects. -/
theorem step_effect (consistent : Consistent picker) (few : picker.pieceCount ≤ 2 ^ 32)
    {call : Call} (undisturbed : Undisturbed piece call) :
    StepEffect piece picker (picker.step call).1 (pickedFor piece call (picker.step call).2) := by
  rw [pickedFor_eq]
  have moves := step_moves picker call
  generalize (picker.step call).1 = after, asked call (picker.step call).2 = request at moves ⊢
  cases moves with
  | ordered | counted => exact .unchanged ⟨rfl, rfl, rfl⟩ rfl
  | settled rejected inside =>
    refine setWanted_effect consistent (inside consistent.toBalanced) fun same => ?_
    by_contra wanted
    rw [rejected (Bool.eq_true_of_not_eq_false wanted)] at undisturbed
    exact undisturbed same
  | enabled other enabled => exact setPieceEnabled_effect picker undisturbed
  | restored _ absent =>
    refine .stored fun same => ?_
    subst same
    rw [view, absent]
    exact .restored _ _
  | @opened _ other _ _ _ opened full =>
    refine .stored fun same => ?_
    subst same
    cases opened with
    | present _ found =>
      rw [view, found]
      exact .unchanged _
    | fresh absent room =>
      -- a piece of positive length has a first block to ask for
      have first := nBlocks_pos.mpr (pieceLengthFor_pos consistent other)
      exact absurd (nextUnrequested_none (new_shaped _) full first) (not_taken_new _ 0)
  | asked able opened free => exact asked_effect consistent few able opened free
  | repeated present found =>
    refine .stored fun same => ?_
    subst same
    rw [view, present]
    exact .repeated _ _ _ (nextRequestedNotReceived_taken found)
  | received present =>
    refine .stored fun same => ?_
    subst same
    rw [view, present]
    exact .received _ _ _
  | cancelled => exact .stored fun same => absurd same undisturbed
  | reset => exact undisturbed.elim

/-! ## Intervals -/

/-- The requests for a piece that the picks of a run of calls returned, in order. -/
def picks (piece : Nat) (picker : PiecePicker) : List Call → List BlockRequest
  | [] => []
  | call :: rest =>
      (pickedFor piece call (picker.step call).2).toList ++ picks piece (picker.step call).1 rest

/-- No call of the run receives a block of the piece that was neither requested nor received
before. -/
def AskedOnly (piece : Nat) (picker : PiecePicker) : List Call → Prop
  | [] => True
  | call :: rest =>
      (∀ block, ((picker.step call).1.view piece).Received block → (picker.view piece).Taken block) ∧
        AskedOnly piece (picker.step call).1 rest

/-- A piece in progress of which no block is left to ask for. -/
def Exhausted (picker : PiecePicker) (piece : Nat) : Prop :=
  ∃ state, picker.inProgress.lookup piece = some state ∧ state.nextUnrequested = none

/-- A piece of which no block was requested or received. -/
def Untouched (picker : PiecePicker) (piece : Nat) : Prop :=
  ∀ block, ¬(picker.view piece).Taken block

/-- What holds at every moment of an interval of a picker over `count` pieces. -/
structure Running (piece count length : Nat) (picker : PiecePicker) : Prop where
  consistent : Consistent picker
  pieces : picker.pieceCount = count
  few : count ≤ 2 ^ 32
  length : picker.pieceLengthFor piece = length

variable {count : Nat}

theorem Running.shaped (running : Running piece count length picker) :
    (picker.view piece).Shaped length := by
  intro state found
  have stored := (running.consistent.filled.states piece state found).2
  rw [running.length] at stored
  exact stored.toShaped

theorem Running.run (running : Running piece count length picker)
    (calls : List Call) : Running piece count length (picker.run calls) := by
  have layout := run_layout picker calls
  exact ⟨run_consistent running.consistent calls, layout.pieceCount.trans running.pieces, running.few,
    (layout.pieceLengthFor piece).trans running.length⟩

theorem Running.step (running : Running piece count length picker)
    {call : Call} {rest : List Call} (undisturbed : ∀ made ∈ call :: rest, Undisturbed piece made) :
    Running piece count length (picker.step call).1 ∧
      Effect piece length (picker.view piece) ((picker.step call).1.view piece)
        (pickedFor piece call (picker.step call).2) ∧ ∀ made ∈ rest, Undisturbed piece made := by
  obtain ⟨first, others⟩ := forall_mem_cons.mp undisturbed
  obtain ⟨_, effect⟩ := step_effect running.consistent (running.pieces ▸ running.few) first
  rw [running.length] at effect
  exact ⟨running.run [call], effect, others⟩

section Interval

variable {count length : Nat} {calls : List Call}

theorem run_cons (picker : PiecePicker) (call : Call) (rest : List Call) :
    picker.run (call :: rest) = (picker.step call).1.run rest := rfl

theorem run_append (picker : PiecePicker) (first later : List Call) :
    picker.run (first ++ later) = (picker.run first).run later := foldl_append

section

variable (running : Running piece count length picker)
  (undisturbed : ∀ call ∈ calls, Undisturbed piece call)

include running undisturbed

/-- What every effect keeps is kept through an interval. -/
theorem view_run {kept : View → Prop}
    (keeps : ∀ {before after request}, Effect piece length before after request →
      before.Shaped length → kept before → kept after) (start : kept (picker.view piece)) :
    kept ((picker.run calls).view piece) := by
  induction calls generalizing picker with
  | nil => exact start
  | cons call rest ih =>
    obtain ⟨next, effect, others⟩ := running.step undisturbed
    exact ih next others (keeps effect running.shaped start)

/-- Blocks stay taken through an interval. -/
theorem taken_run {block : Nat} (taken : (picker.view piece).Taken block) :
    ((picker.run calls).view piece).Taken block :=
  view_run running undisturbed Effect.taken taken

/-- The requests of an interval are for different blocks that were free at its start and are
taken at its end. -/
theorem picks_spec :
    ∃ blocks : List Nat, picks piece picker calls = blocks.map (requestOf piece length) ∧
      blocks.Nodup ∧ ∀ block ∈ blocks, block < nBlocks length ∧
        ¬(picker.view piece).Taken block ∧ ((picker.run calls).view piece).Taken block := by
  induction calls generalizing picker with
  | nil => exact ⟨[], rfl, nodup_nil, nofun⟩
  | cons call rest ih =>
    obtain ⟨next, effect, others⟩ := running.step undisturbed
    obtain ⟨blocks, later, distinct, facts⟩ := ih next others
    rw [picks, run_cons, later]
    have before : ∀ block ∈ blocks, ¬(picker.view piece).Taken block := fun block member taken =>
      (facts block member).2.1 (effect.taken running.shaped taken)
    cases asked : pickedFor piece call (picker.step call).2 with
    | none =>
      exact ⟨blocks, rfl, distinct, fun block member =>
        ⟨(facts block member).1, before block member, (facts block member).2.2⟩⟩
    | some request =>
      rw [asked] at effect
      obtain ⟨block, inside, rfl, free, taken, _⟩ := effect.asks running.shaped
      refine ⟨block :: blocks, rfl, nodup_cons.mpr ⟨?_, distinct⟩, ?_⟩
      · intro member
        exact (facts block member).2.1 taken
      · rw [forall_mem_cons]
        exact ⟨⟨inside, free, taken_run next others taken⟩, fun other member =>
          ⟨(facts other member).1, before other member, (facts other member).2.2⟩⟩

/-- When nothing is received unasked, every block that becomes taken was asked for. -/
theorem asked_of_taken (wanted : ((picker.run calls).view piece).wanted = true)
    (askedOnly : AskedOnly piece picker calls)
    (taken : ((picker.run calls).view piece).Taken block) :
    (picker.view piece).Taken block ∨ requestOf piece length block ∈ picks piece picker calls := by
  induction calls generalizing picker with
  | nil => exact .inl taken
  | cons call rest ih =>
    obtain ⟨next, effect, others⟩ := running.step undisturbed
    obtain ⟨here, later⟩ := askedOnly
    rw [picks, mem_append]
    rcases ih next others wanted later taken with before | asked
    · rcases effect.takes running.shaped before with already | asked | received | done
      · exact .inl already
      · refine .inr (.inl ?_)
        rw [asked]
        exact mem_singleton.mpr rfl
      · exact .inl (here block received)
      · have unwanted := view_run next others (fun effect _ => effect.unwanted) done
        rw [run_cons, unwanted] at wanted
        cases wanted
    · exact .inr (.inr asked)

/-- When every block that is taken at the end was asked for, nothing was received unasked. -/
theorem askedOnly_of_asked (asked : ∀ block, ((picker.run calls).view piece).Taken block →
      (picker.view piece).Taken block ∨ requestOf piece length block ∈ picks piece picker calls) :
    AskedOnly piece picker calls := by
  induction calls generalizing picker with
  | nil => trivial
  | cons call rest ih =>
    obtain ⟨next, effect, others⟩ := running.step undisturbed
    obtain ⟨blocks, later, _, facts⟩ := picks_spec next others
    constructor
    · intro block received
      obtain ⟨state, found, has⟩ := received
      have taken : ((picker.step call).1.view piece).Taken block := .inr ⟨state, found, .inr has⟩
      rcases asked block (taken_run next others taken) with before | member
      · exact before
      · rcases mem_append.mp member with here | there
        · rw [Option.mem_toList] at here
          rw [here] at effect
          obtain ⟨_, _, _, _, _, nothing⟩ := effect.asks running.shaped
          obtain ⟨old, stored, had⟩ := nothing block ⟨state, found, has⟩
          exact .inr ⟨old, stored, .inr had⟩
        · rw [later, mem_map] at there
          obtain ⟨other, listed, same⟩ := there
          obtain rfl := requestOf_injective same
          exact absurd taken (facts other listed).2.1
    · apply ih next others
      intro block taken
      rcases asked block taken with before | member
      · exact .inl (effect.taken running.shaped before)
      · rcases mem_append.mp member with here | there
        · rw [Option.mem_toList] at here
          rw [here] at effect
          obtain ⟨other, _, same, _, after, _⟩ := effect.asks running.shaped
          obtain rfl := requestOf_injective same
          exact .inl after
        · exact .inr there

end

/-! ## Tiling -/

/-- The requests cover the bytes of a piece, and no others. -/
def Covers (length : Nat) (requests : List BlockRequest) : Prop :=
  ∀ offset, offset < length ↔
    ∃ request ∈ requests, request.begin ≤ offset ∧ offset < request.begin + request.length

/-- Blocks of a piece cover it exactly when none is left out. -/
theorem covers_iff {blocks : List Nat} : Covers length (blocks.map (requestOf piece length)) ↔
      ∀ block, block < nBlocks length → block ∈ blocks := by
  have member : ∀ offset, (∃ request ∈ blocks.map (requestOf piece length),
      request.begin ≤ offset ∧ offset < request.begin + request.length) ↔
      offset < length ∧ offset / maxBlockSize ∈ blocks := by
    intro offset
    constructor
    · rintro ⟨_, requested, starts, ends⟩
      obtain ⟨block, listed, rfl⟩ := mem_map.mp requested
      simp only [requestOf, maxBlockSize] at starts ends
      have index : offset / maxBlockSize = block := by
        simp only [maxBlockSize]
        omega
      rw [index]
      exact ⟨by omega, listed⟩
    · rintro ⟨bounded, listed⟩
      refine ⟨_, mem_map_of_mem listed, ?_⟩
      simp only [requestOf, maxBlockSize]
      omega
  constructor
  · intro covers block bounded
    rw [lt_nBlocks] at bounded
    have listed := ((member _).mp ((covers _).mp bounded)).2
    rwa [Nat.mul_div_cancel _ (by decide)] at listed
  · intro complete offset
    rw [member offset, iff_self_and]
    intro bounded
    apply complete
    rw [lt_nBlocks]
    exact Nat.lt_of_le_of_lt (Nat.div_mul_le_self offset maxBlockSize) bounded

/-- At the end of an interval that exhausts a piece, the blocks asked for in it cover the
piece exactly when the piece was untouched at its start and nothing came in unasked. -/
theorem covers_of_exhausted (running : Running piece count length picker)
    (undisturbed : ∀ call ∈ calls, Undisturbed piece call)
    (exhausted : Exhausted (picker.run calls) piece) : Covers length (picks piece picker calls) ↔
      Untouched picker piece ∧ AskedOnly piece picker calls := by
  obtain ⟨blocks, asked, _, facts⟩ := picks_spec running undisturbed
  obtain ⟨state, stored, full⟩ := exhausted
  have finally_ := running.run calls
  have shaped := finally_.shaped state stored
  have wanted : ((picker.run calls).view piece).wanted = true := by
    have able := (finally_.consistent.filled.states piece state stored).1
    exact (Bool.and_eq_true _ _ ▸ able).1
  -- the blocks that are taken at the end are those of the piece
  have taken : ∀ block, ((picker.run calls).view piece).Taken block ↔ block < nBlocks length := by
    intro block
    constructor
    · rintro (done | ⟨other, found, busy⟩)
      · rw [wanted] at done
        cases done
      · exact lt_of_taken (finally_.shaped other found) busy
    · exact fun inside => .inr ⟨state, stored, nextUnrequested_none shaped full inside⟩
  rw [asked, covers_iff]
  constructor
  · intro complete
    refine ⟨?_, askedOnly_of_asked running undisturbed ?_⟩
    · intro block before
      have inside := (taken block).mp (taken_run running undisturbed before)
      exact (facts block (complete block inside)).2.1 before
    · intro block after
      rw [asked]
      exact .inr (mem_map_of_mem (complete block ((taken block).mp after)))
  · rintro ⟨untouched, askedOnly⟩ block inside
    rcases asked_of_taken running undisturbed wanted askedOnly ((taken block).mpr inside) with
      before | member
    · exact absurd before (untouched block)
    · rw [asked] at member
      exact (mem_map_of_injective requestOf_injective).mp member

end Interval

/-! ## Pickers over a piece map -/

/-- The picker of a torrent: as many pieces as the map has, the last one perhaps shorter. -/
def ofPieceMap (map : PieceMap) : PiecePicker :=
  let lastPieceLength :=
    if map.totalLength % map.pieceLength = 0 then map.pieceLength
    else map.totalLength % map.pieceLength
  new map.pieceCount map.pieceLength lastPieceLength

theorem ofPieceMap_length {map : PieceMap} (inside : piece < map.pieceCount) :
    (ofPieceMap map).pieceLengthFor piece = map.pieceEnd piece - piece * map.pieceLength := by
  have split := Nat.div_add_mod map.totalLength map.pieceLength
  have count := map.pieceCount_eq
  rw [divCeil] at count
  rw [Nat.mul_comm] at split
  unfold PiecePicker.pieceLengthFor
  by_cases last : piece + 1 = map.pieceCount
  · have here : piece + 1 = (ofPieceMap map).pieceCount := last
    rw [if_pos here, PieceMap.pieceEnd]
    simp only [ofPieceMap, new]
    by_cases whole : map.totalLength % map.pieceLength = 0
    · rw [if_pos whole] at count ⊢
      have reached : (piece + 1) * map.pieceLength = map.totalLength := by
        rw [last, ← count, Nat.add_zero]
        omega
      rw [reached, Nat.min_self, ← reached, Nat.succ_mul]
      omega
    · rw [if_neg whole] at count ⊢
      have index : piece = map.totalLength / map.pieceLength := by omega
      have rounded := Nat.mod_lt map.totalLength map.positive
      rw [Nat.succ_mul, index]
      omega
  · have here : ¬piece + 1 = (ofPieceMap map).pieceCount := last
    have following := (map.piece_start (piece + 1) (by omega)).1
    rw [if_neg here, PieceMap.pieceEnd]
    simp only [ofPieceMap, new]
    rw [Nat.succ_mul] at following ⊢
    omega

theorem ofPieceMap_consistent (map : PieceMap) : Consistent (ofPieceMap map) := by
  refine new_consistent (lt_trans map.pieceCount_lt (by decide)) map.positive ?_
  split
  · exact map.positive
  next ragged => exact Nat.pos_of_ne_zero ragged

/-- A received block completes its piece exactly when it is the last one missing. -/
theorem blockReceived_completes (consistent : Consistent picker) (piece begin : Nat) :
    (picker.blockReceived piece begin).2 = true ↔
      ∃ state, picker.inProgress.lookup piece = some state ∧
        ∀ block : Nat, state.received[block]? = some false ↔ block = begin / maxBlockSize := by
  unfold blockReceived
  split
  next absent => simp [absent]
  next state present =>
    have missing := consistent.missing present
    have completes : (state.markReceived (begin / maxBlockSize)).isComplete = true ↔
        ∀ block : Nat, state.received[block]? = some false ↔ block = begin / maxBlockSize := by
      generalize begin / maxBlockSize = last
      rw [isComplete, markReceived, all_eq_true]
      constructor
      · intro complete
        have only : ∀ block, state.received[block]? = some false → block = last := by
          intro block unset
          by_contra different
          have kept : (state.received.set last true)[block]? = some false := by
            rw [getElem?_set_ne (Ne.symm different), unset]
          exact Bool.false_ne_true (complete false (mem_of_getElem? kept))
        obtain ⟨block, unset⟩ := exists_missing missing
        intro other
        refine ⟨only other, ?_⟩
        rintro rfl
        rwa [only block unset] at unset
      · intro exact received member
        obtain ⟨block, found⟩ := mem_iff_getElem?.mp member
        rw [getElem?_set] at found
        split_ifs at found with same inside
        · exact (Option.some.inj found).symm
        · cases received with
          | true => rfl
          | false => exact absurd ((exact block).mp found).symm same
    simp only [present, Option.some.injEq, exists_eq_left', ← completes]
    split
    next complete => simp [complete]
    next incomplete => simp [incomplete]

/-- One file of two blocks, in one piece. -/
def twoBlocks : PieceMap where
  pieceLength := 32768
  totalLength := 32768
  pieceCount := 1
  files := [⟨0, PieceMap.samplePath, 0, 32768⟩]
  paddingFileIndices := []
  positive := by decide
  pieceFits := by decide
  spans := rfl
  content := by decide
  distinct := by decide
  counted := rfl
  padding := ⟨[], rfl, by decide⟩

/-- After both blocks were requested and the first request was cancelled, the first block is
asked for again. The piece is then exhausted and nothing was ever received, but the interval
since the cancellation asked for one block only. -/
theorem exhausted_not_tiled :
    ∃ start, start = (ofPieceMap twoBlocks).run [.pickFromSeed, .pickFromSeed, .cancelRequest 0 0] ∧
      (∃ state, (start.run [.pickFromSeed]).inProgress.lookup 0 = some state ∧
        state.nextUnrequested = none ∧ state.received = [false, false]) ∧
      twoBlocks.pieceLen 0 = .ok 32768 ∧
      picks 0 start [.pickFromSeed] = [⟨0, 0, 16384⟩] ∧
      ¬Covers 32768 (picks 0 start [.pickFromSeed]) := by
  have asked : picks 0 ((ofPieceMap twoBlocks).run
      [.pickFromSeed, .pickFromSeed, .cancelRequest 0 0]) [.pickFromSeed] = [⟨0, 0, 16384⟩] := by
    decide
  refine ⟨_, rfl, ⟨⟨32768, [1, 1], [false, false]⟩, by decide, by decide, rfl⟩, rfl, asked, ?_⟩
  intro covers
  obtain ⟨request, member, _, ends⟩ := (covers 16384).mp (by decide)
  obtain rfl := List.mem_singleton.mp member
  exact absurd ends (by decide)

theorem picks_append (piece : Nat) (picker : PiecePicker) (first later : List Call) :
    picks piece picker (first ++ later) =
      picks piece picker first ++ picks piece (picker.run first) later := by
  induction first generalizing picker with
  | nil => rfl
  | cons call rest ih =>
    rw [cons_append, picks, picks, ih, append_assoc, run_cons]

/-- Nothing more is asked for once a piece is exhausted. -/
theorem picks_of_exhausted
    (running : Running piece count length picker) {calls : List Call}
    (undisturbed : ∀ call ∈ calls, Undisturbed piece call) (exhausted : Exhausted picker piece) :
    picks piece picker calls = [] := by
  obtain ⟨blocks, asked, _, facts⟩ := picks_spec running undisturbed
  obtain ⟨state, stored, full⟩ := exhausted
  have nothing : blocks = [] := by
    rw [eq_nil_iff_forall_not_mem]
    intro block member
    obtain ⟨inside, free, _⟩ := facts block member
    exact free (.inr ⟨state, stored,
      nextUnrequested_none (running.shaped state stored) full inside⟩)
  rw [asked, nothing, map_nil]

/-- A picker over a piece map, after any history, in an interval that takes no request for a
piece back: the blocks asked for are different and do not overlap, and the map accepts each
of them. Once the piece is exhausted, they tile it exactly when the piece was untouched at
the start of the interval and no block of it was received unasked. A received block
completes its piece exactly when it is the last one missing. -/
theorem block_selection (map : PieceMap) (history first later : List Call) (piece length : Nat)
    (measured : map.pieceLen piece = .ok length)
    (undisturbed : ∀ call ∈ first ++ later, Undisturbed piece call) (start : PiecePicker)
    (reached : (ofPieceMap map).run history = start) :
    (picks piece start (first ++ later)).Pairwise (fun one other => one ≠ other ∧
      (one.begin + one.length ≤ other.begin ∨ other.begin + other.length ≤ one.begin)) ∧
    (∀ request ∈ picks piece start (first ++ later), ∃ regions,
      map.validateRequest request.piece request.begin request.length = .ok regions) ∧
    (Exhausted (start.run first) piece →
      (Covers length (picks piece start (first ++ later)) ↔
        Untouched start piece ∧ AskedOnly piece start first)) ∧
    ∀ begin, (start.blockReceived piece begin).2 = true ↔
      ∃ state, start.inProgress.lookup piece = some state ∧
        ∀ block : Nat, state.received[block]? = some false ↔ block = begin / maxBlockSize := by
  have inside : piece < map.pieceCount := by
    by_contra outside
    rw [PieceMap.pieceLen, if_pos (Nat.le_of_not_lt outside)] at measured
    cases measured
  have initially : Running piece map.pieceCount (map.pieceEnd piece - piece * map.pieceLength)
      (ofPieceMap map) :=
    ⟨ofPieceMap_consistent map, rfl, Nat.le_of_lt map.pieceCount_lt, ofPieceMap_length inside⟩
  have running := initially.run history
  rw [reached] at running
  rw [map.pieceLen_eq piece inside] at measured
  obtain rfl := Except.ok.inj measured
  obtain ⟨firstCalls, laterCalls⟩ := List.forall_mem_append.mp undisturbed
  obtain ⟨blocks, asked, distinct, facts⟩ := picks_spec running undisturbed
  refine ⟨?_, ?_, ?_, blockReceived_completes running.consistent piece⟩
  · rw [asked, List.pairwise_map]
    refine distinct.imp ?_
    intro one other different
    refine ⟨fun same => different (requestOf_injective same), ?_⟩
    simp only [requestOf, maxBlockSize]
    omega
  · rw [asked, List.forall_mem_map]
    intro block member
    have within := (facts block member).1
    have number : piece % 2 ^ 32 = piece := Nat.mod_eq_of_lt (lt_trans inside map.pieceCount_lt)
    rw [lt_nBlocks] at within
    refine ⟨_, map.validateRequest_eq_ok.mpr ⟨?_, rfl⟩⟩
    simp only [requestOf, number, maxRequestSize, maxBlockSize] at within ⊢
    omega
  · intro exhausted
    rw [picks_append, picks_of_exhausted (running.run first) laterCalls exhausted,
      List.append_nil]
    exact covers_of_exhausted running firstCalls exhausted

/-- Both blocks of the piece, asked for without interruption. -/
theorem twoBlocks_selection :
    picks 0 (ofPieceMap twoBlocks) [.pickFromSeed, .pickFromSeed] =
        [⟨0, 0, 16384⟩, ⟨0, 16384, 16384⟩] ∧
      (Covers 32768 (picks 0 (ofPieceMap twoBlocks) ([.pickFromSeed, .pickFromSeed] ++ [])) ↔
        Untouched (ofPieceMap twoBlocks) 0 ∧
          AskedOnly 0 (ofPieceMap twoBlocks) [.pickFromSeed, .pickFromSeed]) := by
  have calls : ∀ call ∈ [Call.pickFromSeed, .pickFromSeed] ++ [], Undisturbed 0 call := by
    simp [Undisturbed]
  exact ⟨by decide +kernel, (block_selection twoBlocks [] [.pickFromSeed, .pickFromSeed] [] 0 32768
    rfl calls (ofPieceMap twoBlocks) rfl).2.2.1 ⟨⟨32768, [1, 1], [false, false]⟩, by decide, by decide⟩⟩

end PiecePicker

end TorrentNG.Picker
