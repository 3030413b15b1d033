import TorrentNG.Fastresume
import TorrentNG.PieceRanges
import TorrentNG.Tables

/-!
# Resume records of files that changed

`apply_file_hints` of `rt-fastresume/src/state.rs`: the hints about the files of a torrent,
their size, time and inode, are compared with those of the record. The pieces of every file
whose hints changed are no longer trusted. The files are turned into ranges of pieces by
the piece map, the ranges are merged, and a bisection over them decides which records of
partial pieces are dropped.
-/

namespace TorrentNG.Fastresume

open Finset MachineArithmetic Pieces Ranges SortedSlices Tables

/-- The hints by file; the first hint of a file counts. -/
def hintsByFile (hints : List FileHint) : Table Nat FileHint :=
  hints.foldl (fun table hint =>
    if (table.lookup hint.fileIndex).isSome then table else table.insert hint.fileIndex hint) ∅

/-- The comparison of `apply_file_hints`. -/
def hintChanged : Option FileHint → Option FileHint → Bool
  | some old, some new =>
      old.size != new.size || old.mtimeSecs != new.mtimeSecs || old.inode != new.inode
  | _, _ => true

/-- The files whose hints changed, in increasing order. -/
def changedFileIndices (oldHints newHints : List FileHint) : List Nat :=
  let oldByFile := hintsByFile oldHints
  let newByFile := hintsByFile newHints
  let fileIndices := dedup (sortBy compare (oldByFile.keys ++ newByFile.keys))
  fileIndices.filter fun fileIndex =>
    hintChanged (oldByFile.lookup fileIndex) (newByFile.lookup fileIndex)

/-- Pairs in the order of `sort_unstable`. -/
def comparePieceRanges (left right : Nat × Nat) : Ordering :=
  compareLex (compareOn Prod.fst) (compareOn Prod.snd) left right

def mergePieceRanges (ranges : List (Nat × Nat)) : List (Nat × Nat) :=
  merge (sortBy comparePieceRanges ranges)

def pieceInRanges (ranges : List (Nat × Nat)) (piece : Nat) : Bool :=
  searchBy (locate piece) ranges

namespace FastresumeState

variable (state : FastresumeState)

/-- Downgrade the valid pieces of the ranges and drop their partial records. The counter is
a saturating `u32`. -/
def invalidatePieceRanges (ranges : List (Nat × Nat)) :
    FastresumeState × Nat :=
  let (pieces, count) := downgrade (points ranges) state.pieces 0
  ({ state with
      pieces
      partialPieces := state.partialPieces.filter fun record => !pieceInRanges ranges record.piece },
    min count (2 ^ 32 - 1))

def distrustPieceRanges (ranges : List (Nat × Nat)) :
    FastresumeState × Nat :=
  state.invalidatePieceRanges (mergePieceRanges ranges)

/-- `unwrap_or_default` of the ranges of some files. -/
def rangesOrNone (found : Except PieceMapError (List (Nat × Nat))) : List (Nat × Nat) :=
  match found with
  | .ok ranges => ranges
  | .error _ => []

def applyFileHints (newHints : List FileHint) (pieceMap : PieceMap) :
    FastresumeState × Nat :=
  let changed := changedFileIndices state.fileHints newHints
  let ranges := mergePieceRanges (rangesOrNone (pieceMap.pieceRangesForFileIndices changed))
  let (state, invalidated) := state.invalidatePieceRanges ranges
  ({ state with fileHints := newHints }, invalidated)

end FastresumeState

/-! ## Which files changed -/

theorem lookup_hintsByFile (hints : List FileHint) (fileIndex : Nat) :
    (hintsByFile hints).lookup fileIndex = hints.find? fun hint => hint.fileIndex == fileIndex := by
  have general : ∀ (hints : List FileHint) (table : Table Nat FileHint),
      (hints.foldl (fun table hint =>
        if (table.lookup hint.fileIndex).isSome then table
        else table.insert hint.fileIndex hint) table).lookup fileIndex =
      (table.lookup fileIndex).or (hints.find? fun hint => hint.fileIndex == fileIndex) := by
    intro hints
    induction hints with
    | nil => exact fun table => Option.or_none.symm
    | cons hint rest ih =>
      intro table
      rw [List.foldl_cons, ih, List.find?_cons]
      by_cases same : hint.fileIndex = fileIndex
      · subst same
        cases present : table.lookup hint.fileIndex with
        | none => simp [AList.lookup_insert]
        | some earlier => simp [present]
      · rw [beq_false_of_ne same]
        congr 1
        split
        · rfl
        · exact AList.lookup_insert_ne (Ne.symm same)
  exact general hints ∅

/-- The first hints of a file differ in size, time or inode, or there is one on one side only. -/
def Changed (oldHints newHints : List FileHint) (fileIndex : Nat) : Prop :=
  match oldHints.find? fun hint => hint.fileIndex == fileIndex,
    newHints.find? fun hint => hint.fileIndex == fileIndex with
  | none, none => False
  | some old, some new => old.size ≠ new.size ∨ old.mtimeSecs ≠ new.mtimeSecs ∨ old.inode ≠ new.inode
  | _, _ => True

theorem mem_changedFileIndices (oldHints newHints : List FileHint) (fileIndex : Nat) :
    fileIndex ∈ changedFileIndices oldHints newHints ↔ Changed oldHints newHints fileIndex := by
  have keys : ∀ hints, fileIndex ∈ (hintsByFile hints).keys ↔
      (hints.find? fun hint => hint.fileIndex == fileIndex).isSome = true := by
    intro hints
    rw [← lookup_hintsByFile, AList.lookup_isSome]
    rfl
  simp only [changedFileIndices, List.mem_filter, mem_dedup, (sortBy_perm compare _).mem_iff,
    List.mem_append, keys, lookup_hintsByFile, Changed]
  cases oldHints.find? fun hint => hint.fileIndex == fileIndex with
  | none =>
    cases newHints.find? fun hint => hint.fileIndex == fileIndex with
    | none => simp
    | some new => simp [hintChanged]
  | some old =>
    cases newHints.find? fun hint => hint.fileIndex == fileIndex with
    | none => simp [hintChanged]
    | some new => simp [hintChanged, or_assoc]

theorem changedFileIndices_sorted (oldHints newHints : List FileHint) :
    (changedFileIndices oldHints newHints).Pairwise (· ≤ ·) :=
  ((sort_sorted _).sublist (dedup_sublist _)).sublist List.filter_sublist

/-! ## What is invalidated -/

namespace FastresumeState

/-- The loop changes the listed pieces that are valid, and no others. -/
theorem downgrade_getElem (listed : List Nat) (pieces : List PieceState) (count piece : Nat) :
    (downgrade listed pieces count).1[piece]? =
      if pieces[piece]? = some .valid ∧ piece ∈ listed then some .unknown else pieces[piece]? := by
  induction listed generalizing pieces count with
  | nil => simp [downgrade]
  | cons first rest ih =>
    rw [downgrade]
    by_cases valid : pieces[first]? = some .valid
    · obtain ⟨inside, _⟩ := List.getElem?_eq_some_iff.mp valid
      rw [if_pos valid, ih]
      by_cases same : piece = first
      · subst same
        simp [List.getElem?_set_self inside, valid]
      · simp [List.getElem?_set_ne (Ne.symm same), same]
    · rw [if_neg valid, ih]
      by_cases same : piece = first
      · subst same
        simp [valid]
      · simp [same]

/-- The loop counts the pieces that it changes. -/
theorem downgrade_count (listed : List Nat) (pieces : List PieceState) (count : Nat) :
    (downgrade listed pieces count).2 = count + ((range pieces.length).filter fun piece =>
        pieces[piece]? = some .valid ∧ piece ∈ listed).card := by
  induction listed generalizing pieces count with
  | nil => simp [downgrade]
  | cons first rest ih =>
    rw [downgrade]
    split_ifs with valid
    · obtain ⟨inside, _⟩ := List.getElem?_eq_some_iff.mp valid
      -- the first piece is counted here and is not valid for the rest
      have fresh : first ∉ (range (pieces.set first .unknown).length).filter fun piece =>
          (pieces.set first .unknown)[piece]? = some .valid ∧ piece ∈ rest := by
        rw [mem_filter, List.getElem?_set_self inside]
        simp
      have split : ((range pieces.length).filter fun piece =>
          pieces[piece]? = some .valid ∧ piece ∈ first :: rest) =
          insert first ((range (pieces.set first .unknown).length).filter fun piece =>
            (pieces.set first .unknown)[piece]? = some .valid ∧ piece ∈ rest) := by
        ext piece
        by_cases same : piece = first
        · subst same
          rw [mem_filter, mem_range]
          exact iff_of_true ⟨inside, valid, List.mem_cons_self⟩ (mem_insert_self _ _)
        · simp [same, List.getElem?_set_ne (Ne.symm same)]
      rw [ih, split, card_insert_of_notMem fresh]
      omega
    · rw [ih]
      congr 2
      ext piece
      by_cases same : piece = first
      · subst same
        simp [valid]
      · simp [same]

end FastresumeState

instance : Std.TransCmp comparePieceRanges :=
  inferInstanceAs (Std.TransCmp (compareLex (compareOn Prod.fst) (compareOn Prod.snd)))

variable (ranges : List (Nat × Nat))

theorem ordered_sortBy :
    Ordered (sortBy comparePieceRanges ranges) := by
  apply (sortBy_sorted comparePieceRanges ranges).imp
  intro left right before
  rw [comparePieceRanges, compareLex, Ordering.isLE_then_iff_and] at before
  exact Nat.isLE_compare.mp before.1

theorem covers_mergePieceRanges (piece : Nat) :
    Covers (mergePieceRanges ranges) piece ↔ Covers ranges piece := by
  rw [mergePieceRanges, (merge_spec (ordered_sortBy ranges)).1]
  exact covers_congr (sortBy_perm _ _)

theorem pieceInRanges_iff (piece : Nat) :
    pieceInRanges (mergePieceRanges ranges) piece = true ↔ Covers ranges piece := by
  rw [pieceInRanges, ← covers_mergePieceRanges]
  exact searchBy_locate (merge_spec (ordered_sortBy ranges)).2

/-- A piece with a byte of a changed file that is not padding. -/
def Touched (map : PieceMap) (oldHints newHints : List FileHint) (piece : Nat) : Prop :=
  ∃ file ∈ map.files, file.fileIndex ∉ map.paddingFileIndices ∧
    Changed oldHints newHints file.fileIndex ∧ map.Holds piece file

theorem fileIsPadding_eq_false (map : PieceMap) (fileIndex : Nat) :
    map.fileIsPadding fileIndex = false ↔ fileIndex ∉ map.paddingFileIndices := by
  obtain ⟨given, stored, _⟩ := map.padding
  have sorted : map.paddingFileIndices.Pairwise (· ≤ ·) := by
    rw [← stored]
    exact (sort_sorted given).sublist (dedup_sublist _)
  rw [← binarySearch_iff sorted, PieceMap.fileIsPadding, Bool.not_eq_true]

theorem lt_pieceCount_of_touched {map : PieceMap} {oldHints newHints : List FileHint} {piece : Nat}
    (touched : Touched map oldHints newHints piece) : piece < map.pieceCount := by
  obtain ⟨file, member, _, _, position, _, stop, rfl⟩ := touched
  have ends := map.file_end_le file member
  have whole := le_divCeil_mul map.totalLength map.positive
  rw [map.pieceCount_eq] at whole
  rw [Nat.div_lt_iff_lt_mul map.positive]
  omega

/-- The ranges that `apply_file_hints` computes cover the pieces with a byte of a changed file. -/
theorem covers_changed {map : PieceMap} {oldHints newHints : List FileHint} {piece : Nat} :
    Covers (FastresumeState.rangesOrNone
      (map.pieceRangesForFileIndices (changedFileIndices oldHints newHints))) piece ↔
      Touched map oldHints newHints piece := by
  obtain ⟨ranges, found, covers⟩ := map.collectRanges_eq
    (changedFileIndices_sorted oldHints newHints) fun _ member => member
  rw [PieceMap.pieceRangesForFileIndices, found, FastresumeState.rangesOrNone, covers]
  simp only [Touched, mem_changedFileIndices, fileIsPadding_eq_false]
  apply exists_congr
  intro file
  exact and_congr_right fun _ => and_left_comm

namespace FastresumeState

/-- The chosen pieces are distrusted and no others: the valid ones become unknown, and the
partial records of all of them are dropped. -/
structure Distrusts (chosen : Nat → Prop) (before after : FastresumeState) : Prop where
  lowered : ∀ piece, before.pieces[piece]? = some .valid → chosen piece →
    after.pieces[piece]? = some .unknown
  others : ∀ piece : Nat, ¬(before.pieces[piece]? = some .valid ∧ chosen piece) →
    after.pieces[piece]? = before.pieces[piece]?
  dropped : ∃ keep : PartialPieceState → Bool,
    (∀ record, keep record = true ↔ ¬chosen record.piece) ∧
      after.partialPieces = before.partialPieces.filter keep

/-- The number of pieces whose state differs. -/
def changedPieces (before after : FastresumeState) : Nat :=
  ((Finset.range before.pieces.length).filter fun piece =>
    after.pieces[piece]? ≠ before.pieces[piece]?).card

theorem downgraded_distrusts {chosen : Nat → Prop} {state after : FastresumeState}
    {listed : List Nat} {keep : PartialPieceState → Bool}
    (lists : ∀ piece, piece ∈ listed ↔ chosen piece)
    (keeps : ∀ record, keep record = true ↔ ¬chosen record.piece)
    (pieces : after.pieces = (downgrade listed state.pieces 0).1)
    (partials : after.partialPieces = state.partialPieces.filter keep) :
    Distrusts chosen state after ∧
      (downgrade listed state.pieces 0).2 = changedPieces state after := by
  have found : ∀ piece : Nat, after.pieces[piece]? =
      if state.pieces[piece]? = some .valid ∧ piece ∈ listed then some .unknown
      else state.pieces[piece]? := by
    intro piece
    rw [pieces, downgrade_getElem]
  refine ⟨⟨?_, ?_, keep, keeps, partials⟩, ?_⟩
  · intro piece valid member
    rw [found, if_pos ⟨valid, (lists piece).mpr member⟩]
  · intro piece other
    rw [found, if_neg fun both => other ⟨both.1, (lists piece).mp both.2⟩]
  · rw [downgrade_count, Nat.zero_add, changedPieces]
    congr 1
    ext piece
    rw [mem_filter, mem_filter, found]
    split
    next both => simp [both.1, both.2]
    next neither => simp [neither]

theorem changedPieces_le {chosen : Nat → Prop} {before after : FastresumeState} {bound : Nat}
    (distrusts : Distrusts chosen before after) (below : ∀ piece, chosen piece → piece < bound) :
    changedPieces before after ≤ bound := by
  rw [changedPieces, ← card_range bound]
  apply card_le_card
  intro piece member
  by_contra outside
  have unchosen : ¬chosen piece := fun taken => outside (mem_range.mpr (below piece taken))
  exact (mem_filter.mp member).2 (distrusts.others piece fun both => unchosen both.2)

/-- The saturating count is exact: no piece has the largest number, since the ranges are open. -/
theorem distrustPieceRanges_distrusts (state : FastresumeState) {ranges : List (Nat × Nat)}
    (small : ∀ piece, Covers ranges piece → piece < 2 ^ 32 - 1) :
    Distrusts (Covers ranges) state (state.distrustPieceRanges ranges).1 ∧
      (state.distrustPieceRanges ranges).2 =
        changedPieces state (state.distrustPieceRanges ranges).1 := by
  have lists : ∀ piece, piece ∈ points (mergePieceRanges ranges) ↔ Covers ranges piece := by
    intro piece
    rw [mem_points, covers_mergePieceRanges]
  have keeps : ∀ record : PartialPieceState,
      (!pieceInRanges (mergePieceRanges ranges) record.piece) = true ↔
        ¬Covers ranges record.piece := by
    intro record
    rw [Bool.not_eq_true', ← Bool.not_eq_true, pieceInRanges_iff]
  obtain ⟨distrusts, counted⟩ := downgraded_distrusts lists keeps
    (rfl : (state.distrustPieceRanges ranges).1.pieces = _) rfl
  refine ⟨distrusts, Eq.trans ?_ counted⟩
  exact Nat.min_eq_left (counted ▸ changedPieces_le distrusts small)

/-- New hints change exactly the valid pieces with a byte of a changed file that is not
padding: these become unknown. The partial records of the pieces with such a byte are
dropped, everything else but the hints stays, and the count is that of the pieces changed. -/
theorem apply_file_hints_exact (map : PieceMap) (state : FastresumeState) (newHints : List FileHint) :
    ∃ after count, state.applyFileHints newHints map = (after, count) ∧
      (∀ piece, state.pieces[piece]? = some .valid → Touched map state.fileHints newHints piece →
        after.pieces[piece]? = some .unknown) ∧
      (∀ piece : Nat,
        ¬(state.pieces[piece]? = some .valid ∧ Touched map state.fileHints newHints piece) →
        after.pieces[piece]? = state.pieces[piece]?) ∧
      (∃ keep : PartialPieceState → Bool,
        (∀ record, keep record = true ↔ ¬Touched map state.fileHints newHints record.piece) ∧
          after.partialPieces = state.partialPieces.filter keep) ∧
      count = ((Finset.range state.pieces.length).filter fun piece =>
        after.pieces[piece]? ≠ state.pieces[piece]?).card ∧
      after = { state with
        pieces := after.pieces, partialPieces := after.partialPieces, fileHints := newHints } := by
  have covers : Covers (rangesOrNone (map.pieceRangesForFileIndices
      (changedFileIndices state.fileHints newHints))) = Touched map state.fileHints newHints :=
    funext fun piece => propext covers_changed
  obtain ⟨distrusts, counted⟩ := distrustPieceRanges_distrusts state (by
      intro piece touched
      rw [covers] at touched
      have inside := lt_pieceCount_of_touched touched
      have fits := map.pieceCount_lt
      omega)
  rw [covers] at distrusts
  exact ⟨_, _, rfl, distrusts.lowered, distrusts.others, distrusts.dropped, counted, rfl⟩

/-- Ranges of pieces in any order, overlapping, empty or inverted, distrust the pieces of the
ranges; the watermark of an unclean shutdown distrusts the dirty pieces, once. -/
theorem distrust_exact (state : FastresumeState) :
    (∀ given : List (UInt32 × UInt32),
      let ranges := given.map fun range => (range.1.toNat, range.2.toNat)
      ∃ after count, state.distrustPieceRanges ranges = (after, count) ∧
        Distrusts (Covers ranges) state after ∧ count = changedPieces state after) ∧
    (state.cleanShutdown = false → state.durability.dirtyPiecesSinceBarrier ≠ [] →
      ∃ after downgraded, state.applyUncleanShutdownWatermark = (some downgraded, after) ∧
        Distrusts (· ∈ state.durability.dirtyPiecesSinceBarrier) state after ∧
        after.applyUncleanShutdownWatermark = (some 0, after)) := by
  constructor
  · intro given ranges
    refine ⟨_, _, rfl, distrustPieceRanges_distrusts state ?_⟩
    rintro piece ⟨range, member, covers⟩
    obtain ⟨bounds, _, rfl⟩ := List.mem_map.mp member
    have below := bounds.2.toNat_lt
    omega
  · intro unclean listed
    have sorted := (sort_sorted state.durability.dirtyPiecesSinceBarrier).sublist (dedup_sublist _)
    have same : ∀ piece, piece ∈ dedup (sortBy compare state.durability.dirtyPiecesSinceBarrier) ↔
        piece ∈ state.durability.dirtyPiecesSinceBarrier := by
      intro piece
      rw [mem_dedup, (sortBy_perm compare _).mem_iff]
    rw [applyUncleanShutdownWatermark, if_neg (by simp [unclean]), if_neg (by simpa using listed)]
    refine ⟨_, _, rfl, (downgraded_distrusts same ?_ rfl rfl).1, rfl⟩
    intro record
    rw [Bool.not_eq_true', ← Bool.not_eq_true, binarySearch_iff sorted, same]

end FastresumeState

end TorrentNG.Fastresume
