import TorrentNG.TorrentParse
import TorrentNG.V2PieceMap

/-!
# The files of a v2 torrent

`walk_file_tree` flattens the tree of a v2 torrent. It keeps a logical end, and every file
starts at the next piece boundary behind it; an empty file has an offset but takes no space.
The engine builds the v2 piece map from the list. Whatever tree is accepted, the list is laid
out as the map requires it, each piece belongs to one file, and the map finds it.
-/

namespace TorrentNG.Metainfo

open AlignedLayout Bencode Fallible List MachineArithmetic Pieces V2PieceMap SafePath Utf8

/-- The engine's spans for the v2 map. -/
def v2FileSpan (file : TorrentFileV2) : V2FileSpan :=
  ⟨file.index, file.path, file.pieceOffset, file.length, file.pad⟩

def v2FileSpans (files : List TorrentFileV2) : List V2FileSpan := files.map v2FileSpan

def buildV2PieceMap (pieceLength : Nat) (files : List TorrentFileV2) :
    Except PieceMapError V2PieceMap :=
  V2PieceMap.new pieceLength (v2FileSpans files)

theorem alignPieceOffset_eq_ok {offset pieceLength aligned : Nat} (positive : 0 < pieceLength)
    (found : alignPieceOffset offset pieceLength = .ok aligned) :
    aligned = alignUp pieceLength offset := by
  have division := Nat.div_add_mod offset pieceLength
  have remainder := Nat.mod_lt offset positive
  unfold alignPieceOffset at found
  rw [alignUp, divCeil, Nat.mul_comm]
  split_ifs at found with exact
  · obtain rfl := Except.ok.inj found
    rw [if_pos exact, Nat.add_zero]
    omega
  · obtain ⟨sum, _⟩ := checkedAdd_eq_some.mp (okOr_eq_ok.mp found)
    rw [if_neg exact, Nat.mul_add, Nat.mul_one]
    omega

/-- Files at piece boundaries, each behind the one before it, up to a logical end. -/
structure Placed (pieceLength : Nat) (files : List TorrentFileV2) (stop : Nat) : Prop where
  positive : 0 < pieceLength
  aligned : Aligned TorrentFileV2.pieceOffset TorrentFileV2.length pieceLength files 0 stop
  sorted : files.Pairwise fun left right => left.pieceOffset ≤ right.pieceOffset
  bounded : stop < 2 ^ 64

namespace Placed
variable {pieceLength : Nat} {files : List TorrentFileV2} {stop : Nat}
variable (placed : Placed pieceLength files stop)
include placed

/-- Files in order of their offsets stay in order. -/
theorem table_eq : occupied (v2FileSpans files) =
    (v2FileSpans files).filter fun file => decide (file.length > 0) := by
  have ordered : (v2FileSpans files).Pairwise fun left right =>
      (compare left.pieceOffset right.pieceOffset).isLE = true :=
    pairwise_map.mpr (placed.sorted.imp Nat.isLE_compare.mpr)
  rw [occupied, SortedSlices.sortBy, ordered.insertionSort_eq]

theorem checkV2Spans_eq :
    checkV2Spans pieceLength (occupied (v2FileSpans files)) 0 0 = .ok stop := by
  rw [placed.table_eq]
  refine checkV2Spans_aligned placed.positive _ placed.bounded ?_
  rw [aligned_filter]
  exact (aligned_map 0).mpr placed.aligned

variable {map : V2PieceMap}

theorem logicalLength_eq (built : buildV2PieceMap pieceLength files = .ok map) :
    map.logicalLength = stop := by
  obtain ⟨table, sameLength⟩ := new_files built
  have spans := map.spans
  rw [table, sameLength, placed.checkV2Spans_eq] at spans
  exact (Except.ok.inj spans).symm

theorem pieceCount_eq (built : buildV2PieceMap pieceLength files = .ok map) :
    map.pieceCount = divCeil stop pieceLength := by
  rw [← map.pieceCount_eq.1, placed.logicalLength_eq built, (new_files built).2]

/-- The map is built when the sizes fit in 32 bits. -/
theorem buildV2PieceMap_iff : (∃ map, buildV2PieceMap pieceLength files = .ok map) ↔
    pieceLength < 2 ^ 32 ∧ divCeil stop pieceLength < 2 ^ 32 := by
  constructor
  · rintro ⟨map, built⟩
    rw [← placed.pieceCount_eq built, ← (new_files built).2]
    exact ⟨map.pieceFits, map.pieceCount_eq.2⟩
  · rintro ⟨pieceFits, countFits⟩
    exact new_succeeds placed.positive pieceFits placed.checkV2Spans_eq countFits

variable {file : TorrentFileV2}

theorem end_le (member : file ∈ files) (content : 0 < file.length) :
    file.pieceOffset + file.length ≤ stop :=
  (aligned_inside placed.aligned placed.positive member content).2

/-- A piece below the end starts in a file. -/
theorem owner_exists (piece : Nat) (inside : piece * pieceLength < stop) :
    ∃ file ∈ files, file.pieceOffset ≤ piece * pieceLength ∧
      piece * pieceLength < file.pieceOffset + file.length := by
  obtain ⟨front, file, back, rfl, low, high, _⟩ :=
    aligned_split placed.aligned placed.positive piece (Nat.zero_le _) inside
  exact ⟨file, by simp, low, high⟩

/-- The map answers for a piece with the file it starts in. -/
theorem pieceToFile_eq (built : buildV2PieceMap pieceLength files = .ok map)
    {piece : Nat} (member : file ∈ files) (low : file.pieceOffset ≤ piece * pieceLength)
    (high : piece * pieceLength < file.pieceOffset + file.length) :
    map.pieceToFile piece = .ok
      { fileIndex := file.index, path := file.path
        fileOffset := piece * pieceLength - file.pieceOffset
        length := min (file.pieceOffset + file.length - piece * pieceLength) pieceLength
        pad := file.pad } := by
  have positive := placed.positive
  have bounded := placed.bounded
  have ends := placed.end_le member (by omega)
  have inside : piece < map.pieceCount := by
    rw [placed.pieceCount_eq built, lt_divCeil_iff positive]
    omega
  obtain ⟨front, item, back, split, _, _, fronts, backs⟩ :=
    aligned_split placed.aligned positive piece (Nat.zero_le _) (by omega)
  -- the file is the one the layout splits at: those before it end at the piece, those behind
  -- it start at the next one
  have here : file = item := by
    rw [split, mem_append, mem_cons] at member
    obtain before | same | behind := member
    · have ended := fronts file before (by omega)
      omega
    · exact same
    · have started := backs file behind (by omega)
      rw [Nat.succ_mul] at started
      omega
  subst here
  obtain ⟨table, sameLength⟩ := new_files built
  have content : decide ((v2FileSpan file).length > 0) = true :=
    decide_eq_true (show 0 < file.length by omega)
  have listed : map.files = (v2FileSpans front).filter (fun span => decide (span.length > 0)) ++
        v2FileSpan file :: (v2FileSpans back).filter (fun span => decide (span.length > 0)) := by
    rw [table, placed.table_eq, split]
    simp only [v2FileSpans, map_append, map_cons, filter_append, filter_cons, if_pos content]
  have found := map.pieceToFile_eq piece _ _ (v2FileSpan file) listed inside
  rw [sameLength] at found
  refine found ?_ ?_ low high ?_
  · dsimp only [v2FileSpan]
    omega
  · intro span member
    obtain ⟨spanned, nonEmpty⟩ := mem_filter.mp member
    obtain ⟨other, inFront, rfl⟩ := mem_map.mp spanned
    exact Nat.le_of_add_right_le (fronts other inFront (of_decide_eq_true nonEmpty))
  · intro span member
    obtain ⟨spanned, nonEmpty⟩ := mem_filter.mp member
    obtain ⟨other, inBack, rfl⟩ := mem_map.mp spanned
    have started := backs other inBack (of_decide_eq_true nonEmpty)
    rw [Nat.succ_mul] at started
    dsimp only [v2FileSpan]
    omega

end Placed

/-! ## The walk over the tree -/

/-- What the walk keeps: the files so far are placed up to the logical end and numbered in
their order, and none starts behind the next boundary. -/
structure TreeLayout (pieceLength : Nat) (state : TreeState) : Prop where
  placed : Placed pieceLength state.out state.pieceOffset
  indexes : state.out.map TorrentFileV2.index = List.range state.out.length
  before : ∀ file ∈ state.out, file.pieceOffset ≤ alignUp pieceLength state.pieceOffset

variable {pieceLength : Nat}

theorem treeLayout_start (positive : 0 < pieceLength) : TreeLayout pieceLength {} :=
  ⟨⟨positive, rfl, List.Pairwise.nil, by decide⟩, rfl, by simp⟩

/-- Appending a file at the next boundary. -/
theorem TreeLayout.append {state after : TreeState} (layout : TreeLayout pieceLength state)
    (listed : after.out = state.out ++ [file]) (numbered : file.index = state.out.length)
    (starts : file.pieceOffset = alignUp pieceLength state.pieceOffset)
    (ends : 0 < file.length ∧ file.pieceOffset + file.length = after.pieceOffset ∧
        after.pieceOffset < 2 ^ 64 ∨
      file.length = 0 ∧ state.pieceOffset = after.pieceOffset) : TreeLayout pieceLength after := by
  have positive := layout.placed.positive
  have single : Aligned TorrentFileV2.pieceOffset TorrentFileV2.length pieceLength [file]
      state.pieceOffset after.pieceOffset := by
    rw [Aligned]
    obtain ⟨content, ended, _⟩ | ⟨empty, same⟩ := ends
    · rw [if_neg (by omega)]
      exact ⟨starts, ended⟩
    · rw [if_pos empty]
      exact same
  have later : alignUp pieceLength state.pieceOffset ≤ alignUp pieceLength after.pieceOffset := by
    obtain ⟨_, ended, _⟩ | ⟨_, same⟩ := ends
    · have behind := le_alignUp positive after.pieceOffset
      omega
    · rw [same]
  refine ⟨⟨positive, ?_, ?_, ?_⟩, ?_, ?_⟩
  · rw [listed]
    exact (aligned_append _).mpr ⟨_, layout.placed.aligned, single⟩
  · rw [listed, pairwise_append]
    refine ⟨layout.placed.sorted, pairwise_singleton _ _, fun other member added same => ?_⟩
    rw [mem_singleton.mp same, starts]
    exact layout.before other member
  · have bounded := layout.placed.bounded
    omega
  · rw [listed, map_append, layout.indexes, length_append, length_singleton,
      range_succ, map_singleton, numbered]
  · intro other member
    rw [listed, mem_append, mem_singleton] at member
    obtain earlier | rfl := member
    · exact (layout.before other earlier).trans later
    · exact starts.le.trans later

theorem walkLeaf_layout {pairs : Pairs} {leaf : BValue} {path : List Text}
    {state after : TreeState} (layout : TreeLayout pieceLength state)
    (walked : walkLeaf pieceLength pairs leaf path state = .ok after) :
    TreeLayout pieceLength after := by
  unfold walkLeaf at walked
  split_ifs at walked
  obtain ⟨length, _, walked⟩ := bind_eq_ok.mp walked
  obtain ⟨piecesRoot, _, walked⟩ := bind_eq_ok.mp walked
  obtain ⟨budget, _, walked⟩ := bind_eq_ok.mp walked
  obtain ⟨safePath, _, walked⟩ := bind_eq_ok.mp walked
  obtain ⟨filePieceOffset, rounded, walked⟩ := bind_eq_ok.mp walked
  obtain ⟨offset, _, walked⟩ := bind_eq_ok.mp walked
  have starts := alignPieceOffset_eq_ok layout.placed.positive rounded
  split_ifs at walked with content
  · obtain ⟨pieceOffset, ended, walked⟩ := bind_eq_ok.mp walked
    obtain rfl := Except.ok.inj walked
    exact layout.append rfl rfl starts
      (Or.inl ⟨content, checkedAdd_eq_some.mp (okOr_eq_ok.mp ended)⟩)
  · obtain ⟨pieceOffset, ended, walked⟩ := bind_eq_ok.mp walked
    obtain rfl := Except.ok.inj walked
    exact layout.append rfl rfl starts
      (Or.inr ⟨Nat.eq_zero_of_not_pos content, Except.ok.inj ended⟩)

mutual

theorem walkFileTree_layout {node : BValue} (path : List Text)
    (state : TreeState) {after : TreeState} (layout : TreeLayout pieceLength state)
    (walked : walkFileTree pieceLength node path state = .ok after) :
    TreeLayout pieceLength after := by
  cases node with
  | dict pairs =>
    obtain ⟨_, _, walked⟩ := bind_eq_ok.mp walked
    split at walked
    · next leaf _ => exact walkLeaf_layout layout walked
    · exact walkEntries_layout layout walked
  | bytes | int | list =>
    obtain ⟨_, _, walked⟩ := bind_eq_ok.mp walked
    cases walked

theorem walkEntries_layout {pairs : Pairs}
    {path : List Text} {state after : TreeState} (layout : TreeLayout pieceLength state)
    (walked : walkEntries pieceLength pairs path state = .ok after) :
    TreeLayout pieceLength after := by
  cases pairs with
  | nil =>
    obtain rfl := Except.ok.inj walked
    exact layout
  | cons entry rest =>
    obtain ⟨key, child⟩ := entry
    rw [walkEntries] at walked
    split_ifs at walked
    · exact walkEntries_layout layout walked
    · obtain ⟨component, _, walked⟩ := bind_eq_ok.mp walked
      obtain ⟨between, inner, walked⟩ := bind_eq_ok.mp walked
      have middle := walkFileTree_layout _ state layout inner
      exact walkEntries_layout middle walked

end

/-- The files of an accepted v2 view are placed, up to some logical end. -/
structure V2Checked (view : TorrentMetaV2) (stop : Nat) : Prop where
  pieceFits : view.pieceLength < 2 ^ 32
  placed : Placed view.pieceLength view.files stop
  indexes : view.files.map TorrentFileV2.index = List.range view.files.length

theorem parseTorrent_v2Checked {σ : Type} {environment : Environment} {reserve : Reservation σ}
    {raw : Bytes} {budget : σ} {torrent : TorrentMeta} {view : TorrentMetaV2}
    (parsed : parseTorrentWithAllocationReservation environment reserve raw budget = .ok torrent)
    (viewed : torrent.v2View = some view) : ∃ stop, V2Checked view stop := by
  obtain ⟨_, _, _, positive, small, _, views⟩ := parseTorrent_views parsed
  obtain ⟨_, _, _, _, parsed, rfl⟩ := views view viewed
  obtain ⟨listed, treeParsed, parsed⟩ := bind_eq_ok.mp parsed
  obtain ⟨_, _, parsed⟩ := bind_eq_ok.mp parsed
  obtain ⟨_, _, parsed⟩ := bind_eq_ok.mp parsed
  obtain ⟨rfl, _⟩ := Prod.mk.inj (Except.ok.inj parsed)
  obtain ⟨tree, _, treeParsed⟩ := bind_eq_ok.mp treeParsed
  obtain ⟨state, walked, treeParsed⟩ := bind_eq_ok.mp treeParsed
  split_ifs at treeParsed
  obtain rfl := Except.ok.inj treeParsed
  have layout := walkFileTree_layout [] {} (treeLayout_start positive) walked
  exact ⟨state.pieceOffset, small, layout.placed, layout.indexes⟩

/-- The pieces that hold bytes of a file. -/
def TorrentFileV2.InRange (file : TorrentFileV2) (pieceLength piece : Nat) : Prop :=
  file.pieceOffset / pieceLength ≤ piece ∧
    piece < divCeil (file.pieceOffset + file.length) pieceLength

/-- These are the pieces that start in the file. -/
theorem Placed.inRange_iff {files : List TorrentFileV2} {stop : Nat}
    (placed : Placed pieceLength files stop) (member : file ∈ files) (content : 0 < file.length)
    (piece : Nat) : file.InRange pieceLength piece ↔ file.pieceOffset ≤ piece * pieceLength ∧
      piece * pieceLength < file.pieceOffset + file.length := by
  have positive := placed.positive
  have boundary := aligned_multiple placed.aligned member content
  refine and_congr ?_ ?_
  · rw [Nat.div_le_iff_le_mul_add_pred positive]
    obtain ⟨unit, multiple⟩ := boundary
    rw [multiple, Nat.mul_comm piece]
    constructor
    · intro below
      refine Nat.mul_le_mul_left _ (Nat.le_of_lt_succ ?_)
      refine Nat.lt_of_mul_lt_mul_left (a := pieceLength) ?_
      rw [Nat.mul_succ]
      omega
    · omega
  · exact lt_divCeil_iff positive

/-- The files of an accepted v2 or hybrid torrent make a v2 map, unless one of them ends behind
the last 32-bit piece. The map finds every byte of a file with content in the piece it lies in.
The pieces of different files are disjoint and are together all pieces of the map, and a block
is served exactly when it has between 1 and 16384 bytes within the region of its piece. -/
theorem v2_files_mapped (environment : Environment) (raw : Bytes) (torrent : TorrentMeta)
    (view : TorrentMetaV2) (parsed : parseTorrent environment raw = .ok torrent)
    (viewed : torrent.v2View = some view)
    (few : ∀ file ∈ view.files, 0 < file.length →
      divCeil (file.pieceOffset + file.length) view.pieceLength < 2 ^ 32) :
    ∃ map, buildV2PieceMap view.pieceLength view.files = .ok map ∧
      (∀ file ∈ view.files, ∀ byte, byte < file.length → ∃ region,
        map.pieceToFile ((file.pieceOffset + byte) / view.pieceLength) = .ok region ∧
          region.fileIndex = file.index ∧ region.path = file.path ∧ region.pad = file.pad ∧
          region.fileOffset ≤ byte ∧ byte < region.fileOffset + region.length) ∧
      (∀ file ∈ view.files, 0 < file.length → ∀ piece,
        (∃ region, map.pieceToFile piece = .ok region ∧ region.fileIndex = file.index) ↔
          file.InRange view.pieceLength piece) ∧
      (view.files.Pairwise fun left right => 0 < left.length → 0 < right.length → ∀ piece,
        ¬(left.InRange view.pieceLength piece ∧ right.InRange view.pieceLength piece)) ∧
      (∀ piece, piece < map.pieceCount ↔
        ∃ file ∈ view.files, 0 < file.length ∧ file.InRange view.pieceLength piece) ∧
      ∀ piece begin length, (∃ part, map.validateRequest piece begin length = .ok part) ↔
        1 ≤ length ∧ length ≤ 16384 ∧
          ∃ region, map.pieceToFile piece = .ok region ∧ begin + length ≤ region.length := by
  obtain ⟨stop, checked⟩ := parseTorrent_v2Checked parsed viewed
  have placed := checked.placed
  have positive := placed.positive
  have counted : divCeil stop view.pieceLength < 2 ^ 32 := by
    obtain rfl | ⟨file, member, content, rfl⟩ := aligned_stop placed.aligned
    · rw [show divCeil 0 view.pieceLength = 0 from (divCeil_eq_iff positive).mpr (by omega)]
      decide
    · exact few file member content
  obtain ⟨map, built⟩ := placed.buildV2PieceMap_iff.mpr ⟨checked.pieceFits, counted⟩
  refine ⟨map, built, ?_, ?_, ?_, ?_, map.validateRequest_ok_iff⟩
  · intro file member byte inside
    have ranged := (placed.inRange_iff member (by omega)
      ((file.pieceOffset + byte) / view.pieceLength)).mp ?_
    · refine ⟨_, placed.pieceToFile_eq built member ranged.1 ranged.2, rfl, rfl, rfl, ?_⟩
      have lower := Nat.div_mul_le_self (file.pieceOffset + byte) view.pieceLength
      have upper := Nat.lt_div_mul_add positive (a := file.pieceOffset + byte)
      dsimp only
      omega
    · refine ⟨Nat.div_le_div_right (Nat.le_add_right _ _), ?_⟩
      have covered := le_divCeil_mul (file.pieceOffset + file.length) positive
      rw [Nat.div_lt_iff_lt_mul positive]
      omega
  · intro file member content piece
    rw [placed.inRange_iff member content]
    constructor
    · rintro ⟨region, answered, named⟩
      have inside := map.piece_lt_of_region piece region answered
      rw [placed.pieceCount_eq built, lt_divCeil_iff positive] at inside
      obtain ⟨owner, owned, low, high⟩ := placed.owner_exists piece inside
      rw [placed.pieceToFile_eq built owned low high] at answered
      obtain rfl := Except.ok.inj answered
      have distinct : (view.files.map TorrentFileV2.index).Nodup := by
        rw [checked.indexes]
        exact List.nodup_range
      obtain rfl := List.inj_on_of_nodup_map distinct owned member named
      exact ⟨low, high⟩
    · rintro ⟨low, high⟩
      exact ⟨_, placed.pieceToFile_eq built member low high, rfl⟩
  · refine (aligned_apart placed.aligned positive).imp ?_
    rintro left right apart leftContent rightContent piece ⟨⟨_, before⟩, ⟨after, _⟩⟩
    have behind := apart leftContent rightContent
    have next := Nat.div_le_div_right (c := view.pieceLength) behind
    rw [alignUp, Nat.mul_div_cancel _ positive] at next
    omega
  · intro piece
    rw [placed.pieceCount_eq built, lt_divCeil_iff positive]
    constructor
    · intro inside
      obtain ⟨file, member, low, high⟩ := placed.owner_exists piece inside
      have content : 0 < file.length := by omega
      exact ⟨file, member, content, (placed.inRange_iff member content piece).mpr ⟨low, high⟩⟩
    · rintro ⟨file, member, content, ranged⟩
      have ends := placed.end_le member content
      have starts := (placed.inRange_iff member content piece).mp ranged
      omega

/-- Two files of five and seven bytes, each in a piece of its own. -/
def sampleV2Torrent : Bytes :=
  ascii ("d4:infod9:file treed1:ad0:d6:lengthi5e11:pieces root32:" ++
    "aaaaaaaaaaaaaaaaaaaaaaaaaaaaaaaaee1:bd0:d6:lengthi7e11:pieces root32:" ++
    "bbbbbbbbbbbbbbbbbbbbbbbbbbbbbbbbeee12:meta versioni2e4:name1:t" ++
    "12:piece lengthi16384eee")

theorem sampleV2Torrent_mapped : ∃ torrent view map,
    parseTorrent sampleEnvironment sampleV2Torrent = .ok torrent ∧ torrent.v2View = some view ∧
      buildV2PieceMap view.pieceLength view.files = .ok map ∧
        ∀ piece, piece < map.pieceCount ↔
          ∃ file ∈ view.files, 0 < file.length ∧ file.InRange view.pieceLength piece := by
  have viewable : ((parseTorrent sampleEnvironment sampleV2Torrent).toOption.bind
      TorrentMeta.v2View).any (fun view => decide (∀ file ∈ view.files, 0 < file.length →
        divCeil (file.pieceOffset + file.length) view.pieceLength < 2 ^ 32)) = true := by
    decide +kernel
  cases found : (parseTorrent sampleEnvironment sampleV2Torrent).toOption.bind
      TorrentMeta.v2View with
  | none => simp [found] at viewable
  | some view =>
    rw [found] at viewable
    obtain ⟨torrent, kept, viewed⟩ := Option.bind_eq_some_iff.mp found
    cases parsed : parseTorrent sampleEnvironment sampleV2Torrent with
    | error problem => simp [parsed, Except.toOption] at kept
    | ok accepted =>
      obtain rfl : accepted = torrent := by simpa [parsed, Except.toOption] using kept
      obtain ⟨map, built, _, _, _, covered, _⟩ := v2_files_mapped sampleEnvironment sampleV2Torrent
        accepted view parsed viewed (of_decide_eq_true viewable)
      exact ⟨accepted, view, map, rfl, viewed, built, covered⟩

end TorrentNG.Metainfo
