import TorrentNG.FileTree

/-!
# The two views of a hybrid torrent

A hybrid torrent describes its payload twice: as a v1 stream in which explicit
padding files align the payload, and as v2 files at implicit piece boundaries.
`validate_hybrid_file_layout` walks both lists once. The engine then builds a piece
map from each, and either map may serve the other's peers, so they must cut the
payload in the same way.

The checks are first turned into facts about the two lists. A piece is then located
in the list of v2 files, and both maps are shown to answer with the file found
there.
-/

namespace TorrentNG.Metainfo

open AlignedLayout Fallible List MachineArithmetic Pieces PieceMap SafePath Utf8

/-- The v1 files that hold content of the torrent. -/
def payloadFiles (files : List TorrentFileV1) : List TorrentFileV1 :=
  files.filter fun file => !file.pad

/-- What the loop over the v2 files has checked, from an index and a logical end on. -/
structure V2Layout (pieceLength : Nat) (files : List TorrentFileV2) (index start stop : Nat) :
    Prop where
  indexes : files.map TorrentFileV2.index = List.range' index files.length
  payload : ∀ file ∈ files, file.pad = false
  aligned : Aligned TorrentFileV2.pieceOffset TorrentFileV2.length pieceLength files start stop
  sorted : files.Pairwise fun left right => left.pieceOffset ≤ right.pieceOffset
  behind : ∀ file ∈ files, alignUp pieceLength start ≤ file.pieceOffset
  bounded : stop < 2 ^ 64

/-- One accepted file: its place, and the logical end behind it. -/
theorem checkV2File_eq_ok {pieceLength : Nat} (positive : 0 < pieceLength) {file : TorrentFileV2}
    {index stream start next logicalEnd : Nat}
    (checked : checkV2File pieceLength file index stream start = .ok (next, logicalEnd)) :
    file.index = index ∧ file.pad = false ∧ file.pieceOffset = alignUp pieceLength start ∧
      (0 < file.length ∧ file.pieceOffset + file.length = logicalEnd ∧ logicalEnd < 2 ^ 64 ∨
        file.length = 0 ∧ start = logicalEnd) := by
  rw [checkV2File] at checked
  split_ifs at checked with misnumbered padded misplaced content
  all_goals
    obtain ⟨expected, rounded, checked⟩ := bind_eq_ok.mp checked
    split_ifs at checked with unaligned
    obtain ⟨_, _, checked⟩ := bind_eq_ok.mp checked
    refine ⟨not_ne_iff.mp misnumbered, by simpa using padded,
      (not_ne_iff.mp unaligned).trans (alignPieceOffset_eq_ok positive rounded), ?_⟩
  · obtain ⟨_, ended, checked⟩ := bind_eq_ok.mp checked
    cases checked
    exact Or.inl ⟨content, checkedAdd_eq_some.mp (okOr_eq_ok.mp ended)⟩
  · cases checked
    exact Or.inr ⟨by omega, rfl⟩

theorem checkV2Layout_eq_ok {pieceLength : Nat} (positive : 0 < pieceLength)
    {files : List TorrentFileV2} (index stream start : Nat) {stop : Nat} (small : start < 2 ^ 64)
    (checked : checkV2Layout pieceLength files index stream start = .ok stop) :
    V2Layout pieceLength files index start stop := by
  induction files generalizing index stream start with
  | nil =>
    obtain rfl := Except.ok.inj checked
    exact ⟨rfl, by simp, rfl, List.Pairwise.nil, by simp, small⟩
  | cons file rest ih =>
    rw [checkV2Layout, bind_eq_ok] at checked
    obtain ⟨⟨next, logicalEnd⟩, first, checked⟩ := checked
    obtain ⟨numbered, payload, placed, ended⟩ := checkV2File_eq_ok positive first
    have tail := ih _ _ _ (by omega) checked
    have later : ∀ other ∈ rest, file.pieceOffset ≤ other.pieceOffset := by
      intro other member
      have behind := tail.behind other member
      obtain ⟨_, rfl, _⟩ | ⟨_, rfl⟩ := ended
      · have reached := le_alignUp positive (file.pieceOffset + file.length)
        omega
      · omega
    refine ⟨?_, forall_mem_cons.mpr ⟨payload, tail.payload⟩, ?_,
      pairwise_cons.mpr ⟨later, tail.sorted⟩, ?_, tail.bounded⟩
    · rw [map_cons, tail.indexes, length_cons, List.range'_succ, numbered]
    · rw [Aligned]
      obtain ⟨content, rfl, _⟩ | ⟨empty, rfl⟩ := ended
      · rw [if_neg (by omega)]
        exact ⟨placed, tail.aligned⟩
      · rw [if_pos empty]
        exact tail.aligned
    · exact forall_mem_cons.mpr
        ⟨placed.ge, fun other member => placed.ge.trans (later other member)⟩

/-- A v1 payload file and its v2 counterpart, as far as the layout goes. -/
def Paired (pair : TorrentFileV1 × TorrentFileV2) : Prop :=
  pair.1.length = pair.2.length ∧ (0 < pair.1.length → pair.1.offset = pair.2.pieceOffset)

theorem checkPayload_paired {name : Text} {isMultifile : Bool} {rooted : Option Bool}
    {file : TorrentFileV1} {other : TorrentFileV2} {layout : Bool}
    (checked : checkPayload name isMultifile rooted file other = .ok layout) :
    Paired (file, other) := by
  unfold checkPayload at checked
  split_ifs at checked with different unaligned
  · obtain ⟨_, _, checked⟩ := bind_eq_ok.mp checked
    split_ifs at checked
  · refine ⟨not_ne_iff.mp different, fun content => ?_⟩
    by_contra apart
    exact unaligned ⟨content, apart⟩

/-- What the loop over the v1 files has checked, from an index and a stream offset on. -/
structure V1Layout (files : List TorrentFileV1) (others : List TorrentFileV2)
    (index start stop : Nat) : Prop where
  listed : Listed files index start
  ends : start + spanLength (fileSpans files) = stop
  matched : (payloadFiles files).length = others.length
  paired : ∀ pair ∈ (payloadFiles files).zip others, Paired pair

theorem checkV1Layout_eq_ok {name : Text} {isMultifile : Bool} {files : List TorrentFileV1}
    (others : List TorrentFileV2) (index start payload : Nat) {stop total : Nat} (rooted : Option Bool)
    (small : start < 2 ^ 64)
    (checked : checkV1Layout name isMultifile files others index start payload rooted =
      .ok (stop, total)) :
    V1Layout files others index start stop ∧ total ≤ payload + spanLength (fileSpans files) := by
  induction files generalizing others index start payload rooted with
  | nil =>
    cases others with
    | nil =>
      cases checked
      exact ⟨⟨⟨rfl, trivial, small⟩, rfl, rfl, by simp [payloadFiles]⟩, Nat.le_add_right _ _⟩
    | cons other others => cases checked
  | cons file rest ih =>
    have sums : spanLength (fileSpans (file :: rest)) =
        file.length + spanLength (fileSpans rest) := rfl
    rw [checkV1Layout] at checked
    split_ifs at checked with misnumbered misplaced padded
    · obtain ⟨next, added, checked⟩ := bind_eq_ok.mp checked
      obtain ⟨rfl, fits⟩ := checkedAdd_eq_some.mp (okOr_eq_ok.mp added)
      obtain ⟨tail, below⟩ := ih _ _ _ _ _ fits checked
      have dropped : payloadFiles (file :: rest) = payloadFiles rest := by
        simp [payloadFiles, padded]
      have ends := tail.ends
      refine ⟨⟨Listed.cons (not_ne_iff.mp misnumbered) (not_ne_iff.mp misplaced) tail.listed,
        by omega, ?_, ?_⟩, by omega⟩
      · rw [dropped, tail.matched]
      · rw [dropped]
        exact tail.paired
    · obtain ⟨next, added, checked⟩ := bind_eq_ok.mp checked
      obtain ⟨rfl, fits⟩ := checkedAdd_eq_some.mp (okOr_eq_ok.mp added)
      cases others with
      | nil => cases checked
      | cons other others =>
        obtain ⟨layout, compared, checked⟩ := bind_eq_ok.mp checked
        obtain ⟨sum, counted, checked⟩ := bind_eq_ok.mp checked
        obtain ⟨rfl, _⟩ := checkedAdd_eq_some.mp (okOr_eq_ok.mp counted)
        obtain ⟨tail, below⟩ := ih _ _ _ _ _ fits checked
        have kept : payloadFiles (file :: rest) = file :: payloadFiles rest := by
          simp [payloadFiles, padded]
        have ends := tail.ends
        refine ⟨⟨Listed.cons (not_ne_iff.mp misnumbered) (not_ne_iff.mp misplaced) tail.listed,
          by omega, ?_, ?_⟩, by omega⟩
        · rw [kept, length_cons, length_cons, tail.matched]
        · rw [kept, zip_cons_cons]
          exact forall_mem_cons.mpr ⟨checkPayload_paired compared, tail.paired⟩

/-- What an accepted pair of views has in common. -/
structure HybridLayout (v1 : TorrentMetaV1) (v2 : TorrentMetaV2) (logicalEnd : Nat) : Prop where
  positive : 0 < v1.pieceLength
  samePieces : v1.pieceLength = v2.pieceLength
  v2Layout : V2Layout v1.pieceLength v2.files 0 0 logicalEnd
  v1Layout : V1Layout v1.files v2.files 0 0 (spanLength (fileSpans v1.files))
  content : 0 < spanLength (fileSpans v1.files)
  ends : spanLength (fileSpans v1.files) = logicalEnd ∨
    spanLength (fileSpans v1.files) = alignUp v1.pieceLength logicalEnd

theorem validateHybridFileLayout_eq_ok {v1 : TorrentMetaV1} {v2 : TorrentMetaV2}
    (accepted : validateHybridFileLayout v1 v2 = .ok ()) :
    ∃ logicalEnd, HybridLayout v1 v2 logicalEnd := by
  unfold validateHybridFileLayout at accepted
  split_ifs at accepted with lengths names
  rw [not_or] at lengths
  have positive : 0 < v1.pieceLength := Nat.pos_of_ne_zero lengths.1
  obtain ⟨_, _, accepted⟩ := bind_eq_ok.mp accepted
  obtain ⟨_, _, accepted⟩ := bind_eq_ok.mp accepted
  obtain ⟨logicalEnd, walkedV2, accepted⟩ := bind_eq_ok.mp accepted
  obtain ⟨⟨stream, payload⟩, walkedV1, accepted⟩ := bind_eq_ok.mp accepted
  dsimp only at accepted
  split_ifs at accepted with empty
  obtain ⟨aligned, rounded, accepted⟩ := bind_eq_ok.mp accepted
  split_ifs at accepted with apart
  obtain ⟨layout, below⟩ := checkV1Layout_eq_ok _ _ _ _ _ (by decide) walkedV1
  have total : spanLength (fileSpans v1.files) = stream := by
    rw [← layout.ends, Nat.zero_add]
  have end_eq := alignPieceOffset_eq_ok positive rounded
  refine ⟨logicalEnd, positive, not_ne_iff.mp lengths.2,
    checkV2Layout_eq_ok positive _ _ _ (by decide) walkedV2, total ▸ layout, by omega, ?_⟩
  rw [total, ← end_eq]
  by_contra neither
  exact apart (not_or.mp neither)

variable {v1 : TorrentMetaV1} {v2 : TorrentMetaV2} {logicalEnd piece : Nat} {file : TorrentFileV1}
  {other : TorrentFileV2}

/-- The payload files of both views, in order. -/
def HybridLayout.pairs (v1 : TorrentMetaV1) (v2 : TorrentMetaV2) : List (TorrentFileV1 × TorrentFileV2) :=
  (payloadFiles v1.files).zip v2.files

/-- Which payload file a piece belongs to, by the v2 offsets. -/
structure Owner (v1 : TorrentMetaV1) (v2 : TorrentMetaV2) (piece : Nat) (file : TorrentFileV1)
    (other : TorrentFileV2) : Prop where
  member : (file, other) ∈ HybridLayout.pairs v1 v2
  low : other.pieceOffset ≤ piece * v1.pieceLength
  high : piece * v1.pieceLength < other.pieceOffset + other.length
  split : ∃ front back, HybridLayout.pairs v1 v2 = front ++ (file, other) :: back ∧
    (∀ pair ∈ front, 0 < pair.2.length →
      pair.2.pieceOffset + pair.2.length ≤ piece * v1.pieceLength) ∧
    ∀ pair ∈ back, 0 < pair.2.length → (piece + 1) * v1.pieceLength ≤ pair.2.pieceOffset

/-- A pair with content behind the start of the piece and before its end is the owner. -/
theorem Owner.unique (owner : Owner v1 v2 piece file other) {found : TorrentFileV1}
    {counterpart : TorrentFileV2} (member : (found, counterpart) ∈ HybridLayout.pairs v1 v2)
    (early : counterpart.pieceOffset < piece * v1.pieceLength + v1.pieceLength)
    (late : piece * v1.pieceLength < counterpart.pieceOffset + counterpart.length)
    (content : 0 < counterpart.length) : found = file ∧ counterpart = other := by
  obtain ⟨front, back, split, fronts, backs⟩ := owner.split
  rw [split, mem_append, mem_cons] at member
  obtain before | same | behind := member
  · exact absurd late (fronts _ before content).not_gt
  · exact Prod.mk.inj same
  · exact absurd early (Nat.succ_mul piece _ ▸ backs _ behind content).not_gt

/-- Dropping the padding regions leaves the overlaps with payload files. -/
theorem payload_overlaps {map : PieceMap} (start stop : Nat) {files : List TorrentFileV1}
    (marked : ∀ file ∈ files, map.fileIsPadding file.index = file.pad) :
    ((fileSpans files).filterMap (map.overlap start stop)).filter (fun region => !region.pad) =
      (fileSpans (payloadFiles files)).filterMap (map.overlap start stop) := by
  simp only [fileSpans, payloadFiles, filterMap_map, filter_filterMap, filterMap_filter]
  refine filterMap_congr ?_
  intro file member
  have mark := marked file member
  simp only [Function.comp_apply, overlap]
  split_ifs with shared payload
  · simp [Option.filter, regionOf, mark, payload]
  · simp [Option.filter, regionOf, mark, payload]
  · rfl
  · rfl

/-- The region of the owner in the v1 map, as a region of the piece. -/
def ownedRegion (pieceLength piece : Nat) (file : TorrentFileV1) (other : TorrentFileV2) :
    FileRegion where
  fileIndex := file.index
  path := file.path
  fileOffset := piece * pieceLength - other.pieceOffset
  pieceOffset := 0
  length := min (other.pieceOffset + other.length - piece * pieceLength) pieceLength
  pad := false

/-- The same region in the v2 map. -/
def ownedV2Region (pieceLength piece : Nat) (other : TorrentFileV2) : V2PieceRegion where
  fileIndex := other.index
  path := other.path
  fileOffset := piece * pieceLength - other.pieceOffset
  length := min (other.pieceOffset + other.length - piece * pieceLength) pieceLength
  pad := false

/-- The v1 map places a byte of a file at an offset of a piece. -/
def LocatesV1 (map : PieceMap) (fileIndex byte piece offset : Nat) : Prop :=
  ∃ regions, map.pieceToFileRegions piece = .ok regions ∧
    ∃ region ∈ regions, region.pad = false ∧ region.fileIndex = fileIndex ∧
      region.fileOffset ≤ byte ∧ byte < region.fileOffset + region.length ∧
      offset = region.pieceOffset + (byte - region.fileOffset)

/-- The v2 map places a byte of a file at an offset of a piece. -/
def LocatesV2 (map : V2PieceMap) (fileIndex byte piece offset : Nat) : Prop :=
  ∃ region, map.pieceToFile piece = .ok region ∧ region.fileIndex = fileIndex ∧
    region.fileOffset ≤ byte ∧ byte < region.fileOffset + region.length ∧
    offset = byte - region.fileOffset

/-- A byte lies in the owned part of a piece, at an offset of it. -/
def OwnsByte (v1 : TorrentMetaV1) (v2 : TorrentMetaV2) (file : TorrentFileV1)
    (other : TorrentFileV2) (byte piece offset : Nat) : Prop :=
  Owner v1 v2 piece file other ∧ other.pieceOffset + byte = piece * v1.pieceLength + offset ∧
    offset < v1.pieceLength

namespace HybridLayout
variable (layout : HybridLayout v1 v2 logicalEnd)
include layout

theorem pairs_v1 : (pairs v1 v2).map Prod.fst = payloadFiles v1.files :=
  map_fst_zip layout.v1Layout.matched.le

theorem pairs_v2 : (pairs v1 v2).map Prod.snd = v2.files := map_snd_zip layout.v1Layout.matched.ge

/-- Both views have the same number of pieces. -/
theorem divCeil_eq : divCeil (spanLength (fileSpans v1.files)) v1.pieceLength =
    divCeil logicalEnd v1.pieceLength := by
  obtain same | rounded := layout.ends
  · rw [same]
  · rw [rounded, divCeil_alignUp layout.positive]

theorem logicalEnd_le : logicalEnd ≤ spanLength (fileSpans v1.files) := by
  have rounded := le_alignUp layout.positive logicalEnd
  have ends := layout.ends
  omega

theorem buildPieceMap_iff : (∃ map, buildPieceMap v1.pieceLength v1.files = .ok map) ↔
    v1.pieceLength < 2 ^ 32 ∧ divCeil (spanLength (fileSpans v1.files)) v1.pieceLength < 2 ^ 32 := by
  constructor
  · rintro ⟨map, built⟩
    obtain ⟨files, pieceLength, _⟩ := newWithPadding_files built
    rw [← files, ← pieceLength, map.spanLength_eq, map.pieceCount_eq]
    exact ⟨map.pieceFits, map.pieceCount_lt⟩
  · rintro ⟨pieceFits, countFits⟩
    obtain ⟨map, built, _⟩ := layout.v1Layout.listed.buildPieceMap_succeeds layout.positive
      pieceFits layout.content countFits
    exact ⟨map, built⟩

theorem placed : Placed v2.pieceLength v2.files logicalEnd :=
  ⟨layout.samePieces ▸ layout.positive, layout.samePieces ▸ layout.v2Layout.aligned,
    layout.v2Layout.sorted, layout.v2Layout.bounded⟩

theorem buildV2PieceMap_iff : (∃ map, buildV2PieceMap v2.pieceLength v2.files = .ok map) ↔
    v1.pieceLength < 2 ^ 32 ∧ divCeil (spanLength (fileSpans v1.files)) v1.pieceLength < 2 ^ 32 := by
  rw [layout.divCeil_eq, layout.samePieces]
  exact layout.placed.buildV2PieceMap_iff

theorem owner_exists (piece : Nat) (inside : piece < divCeil logicalEnd v1.pieceLength) :
    ∃ file other, Owner v1 v2 piece file other := by
  have aligned := layout.v2Layout.aligned
  rw [← layout.pairs_v2, aligned_map] at aligned
  obtain ⟨front, ⟨file, other⟩, back, split, low, high, fronts, backs⟩ :=
    aligned_split aligned layout.positive piece (Nat.zero_le _)
      ((lt_divCeil_iff layout.positive).mp inside)
  exact ⟨file, other, by rw [split]; simp, low, high, front, back, split, fronts, backs⟩

theorem paired (member : (file, other) ∈ pairs v1 v2) :
    file.length = other.length ∧ (0 < file.length → file.offset = other.pieceOffset) :=
  layout.v1Layout.paired _ member

theorem end_le (member : (file, other) ∈ pairs v1 v2) (content : 0 < other.length) :
    other.pieceOffset + other.length ≤ logicalEnd :=
  (aligned_inside layout.v2Layout.aligned layout.positive (of_mem_zip member).2 content).2

/-- Payload files apart from a piece have no region in it. -/
theorem overlaps_nil (map : PieceMap) (start stop : Nat) {selected : List (TorrentFileV1 × TorrentFileV2)}
    (members : ∀ pair ∈ selected, pair ∈ pairs v1 v2)
    (apart : ∀ pair ∈ selected, 0 < pair.2.length →
      pair.2.pieceOffset + pair.2.length ≤ start ∨ stop ≤ pair.2.pieceOffset) :
    (fileSpans (selected.map Prod.fst)).filterMap (map.overlap start stop) = [] := by
  rw [filterMap_eq_nil_iff]
  intro span member
  rw [fileSpans, map_map] at member
  obtain ⟨pair, inside, rfl⟩ := mem_map.mp member
  obtain ⟨lengths, offsets⟩ := layout.paired (members pair inside)
  refine if_neg ?_
  dsimp only [Function.comp_apply]
  intro shared
  have content : 0 < pair.1.length := by omega
  have clear := apart pair inside (lengths ▸ content)
  rw [offsets content, lengths] at shared
  omega

section
variable {map : PieceMap} (built : buildPieceMap v1.pieceLength v1.files = .ok map)
include built

theorem pieceCount_v1 : map.pieceCount = divCeil logicalEnd v1.pieceLength := by
  obtain ⟨files, pieceLength, _⟩ := newWithPadding_files built
  rw [← layout.divCeil_eq, ← map.pieceCount_eq, ← map.spanLength_eq, files, pieceLength]

theorem fileIsPadding_eq : ∀ file ∈ v1.files, map.fileIsPadding file.index = file.pad := by
  intro file member
  rw [Bool.eq_iff_iff, fileIsPadding_iff built]
  constructor
  · intro listed
    obtain ⟨padding, inFiles, found⟩ := mem_filterMap.mp listed
    split_ifs at found with padded
    rwa [← inj_on_of_nodup_map layout.v1Layout.listed.indexes_nodup inFiles member
      (Option.some.inj found)]
  · intro padded
    exact mem_filterMap.mpr ⟨file, member, if_pos padded⟩

/-- The payload of a piece in the v1 map is the region of its owner. -/
theorem payload_regions (inside : piece < map.pieceCount) (owner : Owner v1 v2 piece file other) :
    (map.regions piece).filter (fun region => !region.pad) =
      [ownedRegion v1.pieceLength piece file other] := by
  obtain ⟨files, pieceLength, _⟩ := newWithPadding_files built
  obtain ⟨front, back, split, fronts, backs⟩ := owner.split
  have ends : map.pieceEnd piece =
      min ((piece + 1) * v1.pieceLength) (spanLength (fileSpans v1.files)) := by
    rw [pieceEnd, ← map.spanLength_eq, files, pieceLength]
  have payload : fileSpans (payloadFiles v1.files) = fileSpans (front.map Prod.fst) ++
      ⟨file.index, file.path, file.offset, file.length⟩ :: fileSpans (back.map Prod.fst) := by
    rw [← layout.pairs_v1, split]
    simp [fileSpans]
  have before := layout.overlaps_nil map (piece * v1.pieceLength) (map.pieceEnd piece)
    (fun pair member => by rw [split]; exact mem_append_left _ member)
    (fun pair member content => Or.inl (fronts pair member content))
  have after := layout.overlaps_nil map (piece * v1.pieceLength) (map.pieceEnd piece)
    (fun pair member => by rw [split]; simp [member])
    (fun pair member content => Or.inr ((ends.trans_le (Nat.min_le_left _ _)).trans
      (backs pair member content)))
  have shared : map.overlap (piece * v1.pieceLength) (map.pieceEnd piece)
      ⟨file.index, file.path, file.offset, file.length⟩ =
        some (ownedRegion v1.pieceLength piece file other) := by
    have mark : map.fileIsPadding file.index = false := by
      have payload := mem_filter.mp (of_mem_zip owner.member).1
      rw [layout.fileIsPadding_eq built file payload.1]
      simpa using payload.2
    obtain ⟨lengths, offsets⟩ := layout.paired owner.member
    have low := owner.low
    have high := owner.high
    have bounded := layout.end_le owner.member
    have covered := layout.logicalEnd_le
    have positive := layout.positive
    rw [Nat.succ_mul] at ends
    rw [overlap]
    dsimp only
    rw [if_pos (by omega), Option.some.injEq]
    simp only [regionOf, ownedRegion, mark, FileRegion.mk.injEq, and_true, true_and]
    omega
  rw [map.regions_eq piece inside, files, pieceLength,
    payload_overlaps _ _ (layout.fileIsPadding_eq built), payload, filterMap_append,
    before, nil_append, filterMap_cons, after, shared]

end

section
variable {mapV2 : V2PieceMap}
  (builtV2 : buildV2PieceMap v2.pieceLength v2.files = .ok mapV2)
include builtV2

theorem pieceCount_v2 : mapV2.pieceCount = divCeil logicalEnd v1.pieceLength := by
  rw [layout.samePieces]
  exact layout.placed.pieceCount_eq builtV2

/-- The v2 map answers with the owner's region as well. -/
theorem pieceToFile_owner (owner : Owner v1 v2 piece file other) :
    mapV2.pieceToFile piece = .ok (ownedV2Region v1.pieceLength piece other) := by
  have member := (of_mem_zip owner.member).2
  have low := owner.low
  have high := owner.high
  rw [layout.samePieces] at low high
  rw [layout.placed.pieceToFile_eq builtV2 member low high, layout.v2Layout.payload other member,
    layout.samePieces]
  rfl

end

theorem owner_lt (owner : Owner v1 v2 piece file other) :
    piece < divCeil logicalEnd v1.pieceLength := by
  have low := owner.low
  have high := owner.high
  have ends := layout.end_le owner.member (by omega)
  exact (lt_divCeil_iff layout.positive).mpr (by omega)

section Bytes
variable (member : (file, other) ∈ pairs v1 v2)
variable {byte : Nat} (inside : byte < file.length) (piece offset : Nat)
include member inside

theorem ownsByte_iff : OwnsByte v1 v2 file other byte piece offset ↔
    piece = (other.pieceOffset + byte) / v1.pieceLength ∧
      offset = (other.pieceOffset + byte) % v1.pieceLength := by
  have positive := layout.positive
  obtain ⟨lengths, _⟩ := layout.paired member
  have ends := layout.end_le member (by omega)
  constructor
  · rintro ⟨_, position, small⟩
    rw [eq_comm, @eq_comm _ offset, Nat.div_mod_unique positive, Nat.mul_comm]
    omega
  · rintro ⟨quotient, remainder⟩
    have position := Nat.div_add_mod (other.pieceOffset + byte) v1.pieceLength
    have small := Nat.mod_lt (other.pieceOffset + byte) positive
    rw [← quotient, ← remainder, Nat.mul_comm] at position
    rw [← remainder] at small
    obtain ⟨_, _, owner⟩ := layout.owner_exists piece ((lt_divCeil_iff positive).mpr (by omega))
    obtain ⟨rfl, rfl⟩ := owner.unique member (by omega) (by omega) (by omega)
    exact ⟨owner, by omega, small⟩

theorem locatesV1_iff {map : PieceMap} (built : buildPieceMap v1.pieceLength v1.files = .ok map) :
    LocatesV1 map file.index byte piece offset ↔ OwnsByte v1 v2 file other byte piece offset := by
  obtain ⟨lengths, offsets⟩ := layout.paired member
  constructor
  · rintro ⟨regions, answered, region, listed, payload, index, low, high, rfl⟩
    have counted := map.piece_lt_of_regions answered
    obtain ⟨owned, counterpart, owner⟩ :=
      layout.owner_exists piece (layout.pieceCount_v1 built ▸ counted)
    have only := layout.payload_regions built counted owner
    rw [PieceMap.regions, answered] at only
    have chosen : region ∈ regions.filter fun region => !region.pad :=
      mem_filter.mpr ⟨listed, by simp [payload]⟩
    obtain rfl : region = ownedRegion v1.pieceLength piece owned counterpart :=
      mem_singleton.mp (only ▸ chosen)
    obtain rfl : owned = file := inj_on_of_nodup_map layout.v1Layout.listed.indexes_nodup
      (mem_filter.mp (of_mem_zip owner.member).1).1
      (mem_filter.mp (of_mem_zip member).1).1 index
    obtain ⟨sameLength, sameOffset⟩ := layout.paired owner.member
    have positive := layout.positive
    have ownerLow := owner.low
    have ownerHigh := owner.high
    obtain ⟨-, rfl⟩ := owner.unique member (by omega) (by omega) (by omega)
    simp only [ownedRegion] at low high ⊢
    exact ⟨owner, by omega, by omega⟩
  · rintro ⟨owner, position, small⟩
    have ownerLow := owner.low
    have counted : piece < map.pieceCount := by
      rw [layout.pieceCount_v1 built]
      exact layout.owner_lt owner
    have only := layout.payload_regions built counted owner
    have chosen : ownedRegion v1.pieceLength piece file other ∈
        (map.regions piece).filter fun region => !region.pad := by
      rw [only]
      exact mem_singleton.mpr rfl
    refine ⟨map.regions piece, map.regions_answered piece counted, _,
      (mem_filter.mp chosen).1, rfl, rfl, ?_⟩
    simp only [ownedRegion]
    omega

theorem locatesV2_iff {mapV2 : V2PieceMap}
    (builtV2 : buildV2PieceMap v2.pieceLength v2.files = .ok mapV2) :
    LocatesV2 mapV2 other.index byte piece offset ↔
      OwnsByte v1 v2 file other byte piece offset := by
  obtain ⟨lengths, _⟩ := layout.paired member
  constructor
  · rintro ⟨region, answered, index, low, high, rfl⟩
    have counted := mapV2.piece_lt_of_region piece region answered
    obtain ⟨owned, counterpart, owner⟩ :=
      layout.owner_exists piece (layout.pieceCount_v2 builtV2 ▸ counted)
    rw [layout.pieceToFile_owner builtV2 owner] at answered
    obtain rfl := Except.ok.inj answered
    obtain rfl : counterpart = other := inj_on_of_nodup_map
      (layout.v2Layout.indexes ▸ nodup_range') (of_mem_zip owner.member).2
      (of_mem_zip member).2 index
    have positive := layout.positive
    have ownerLow := owner.low
    have ownerHigh := owner.high
    obtain ⟨rfl, -⟩ := owner.unique member (by omega) (by omega) (by omega)
    simp only [ownedV2Region] at low high ⊢
    exact ⟨owner, by omega, by omega⟩
  · rintro ⟨owner, position, small⟩
    have ownerLow := owner.low
    refine ⟨_, layout.pieceToFile_owner builtV2 owner, rfl, ?_⟩
    simp only [ownedV2Region]
    omega

end Bytes

end HybridLayout

/-- The two views of an accepted hybrid torrent describe one payload. Each v1 payload
file has a v2 counterpart, in order. Both maps exist when the sizes fit in 32 bits,
and then they have the same pieces; apart from padding, a piece of the v1 map is the
one region the v2 map gives for it, of the counterpart file. So both maps place every
byte of a payload file in the same piece at the same offset. -/
theorem hybrid_views_agree (v1 : TorrentMetaV1) (v2 : TorrentMetaV2)
    (accepted : validateHybridFileLayout v1 v2 = .ok ()) :
    (payloadFiles v1.files).length = v2.files.length ∧
    ((∃ map, buildPieceMap v1.pieceLength v1.files = .ok map) ↔ v1.pieceLength < 2 ^ 32 ∧
      divCeil (v1.files.map TorrentFileV1.length).sum v1.pieceLength < 2 ^ 32) ∧
    ((∃ mapV2, buildV2PieceMap v2.pieceLength v2.files = .ok mapV2) ↔ v1.pieceLength < 2 ^ 32 ∧
      divCeil (v1.files.map TorrentFileV1.length).sum v1.pieceLength < 2 ^ 32) ∧
    ∀ map mapV2, buildPieceMap v1.pieceLength v1.files = .ok map →
      buildV2PieceMap v2.pieceLength v2.files = .ok mapV2 →
      map.pieceCount = mapV2.pieceCount ∧
      (∀ piece, piece < map.pieceCount → ∃ regions region file other,
        map.pieceToFileRegions piece = .ok regions ∧ mapV2.pieceToFile piece = .ok region ∧
        (file, other) ∈ (payloadFiles v1.files).zip v2.files ∧
        region.fileIndex = other.index ∧ region.path = other.path ∧
        regions.filter (fun found => !found.pad) =
          [⟨file.index, file.path, region.fileOffset, 0, region.length, false⟩]) ∧
      ∀ file other byte, (file, other) ∈ (payloadFiles v1.files).zip v2.files →
        byte < file.length → ∀ piece offset,
          (LocatesV1 map file.index byte piece offset ↔
            piece = (other.pieceOffset + byte) / v1.pieceLength ∧
              offset = (other.pieceOffset + byte) % v1.pieceLength) ∧
          (LocatesV2 mapV2 other.index byte piece offset ↔
            piece = (other.pieceOffset + byte) / v1.pieceLength ∧
              offset = (other.pieceOffset + byte) % v1.pieceLength) := by
  obtain ⟨logicalEnd, layout⟩ := validateHybridFileLayout_eq_ok accepted
  have total : (v1.files.map TorrentFileV1.length).sum = spanLength (fileSpans v1.files) := by
    rw [spanLength, fileSpans, List.map_map]
    rfl
  rw [total]
  refine ⟨layout.v1Layout.matched, layout.buildPieceMap_iff, layout.buildV2PieceMap_iff, ?_⟩
  intro map mapV2 built builtV2
  have counts : map.pieceCount = mapV2.pieceCount :=
    (layout.pieceCount_v1 built).trans (layout.pieceCount_v2 builtV2).symm
  refine ⟨counts, ?_, ?_⟩
  · intro piece inside
    obtain ⟨file, other, owner⟩ :=
      layout.owner_exists piece (layout.pieceCount_v1 built ▸ inside)
    exact ⟨_, _, file, other, map.regions_answered piece inside,
      layout.pieceToFile_owner builtV2 owner, owner.member, rfl, rfl,
      layout.payload_regions built inside owner⟩
  · intro file other byte member inside piece offset
    have bytes := layout.ownsByte_iff member inside piece offset
    exact ⟨(layout.locatesV1_iff member inside piece offset built).trans bytes,
      (layout.locatesV2_iff member inside piece offset builtV2).trans bytes⟩

/-- Two files of three and five bytes in pieces of four, one byte of padding between
them in the v1 view. -/
def sampleHeader : Header where
  announce := none
  announceList := []
  webseeds := []
  comment := none
  createdBy := none
  creationDate := none
  name := ['t']
  pieceLength := 4
  isPrivate := false

def sampleV1 : TorrentMetaV1 :=
  makeV1 sampleHeader (zeros 20) []
    [⟨0, 3, .sample, 0, false⟩,
      ⟨1, 1, ⟨[['p']], by decide, by decide, by decide⟩, 3, true⟩,
      ⟨2, 5, ⟨[['b']], by decide, by decide, by decide⟩, 4, false⟩] []

def sampleV2 : TorrentMetaV2 :=
  makeV2 sampleHeader (zeros 32)
    [⟨0, 3, .sample, 0, 0, none, false⟩,
      ⟨1, 5, ⟨[['b']], by decide, by decide, by decide⟩, 3, 4, none, false⟩] [] []

theorem hybrid_views_agree_sample : validateHybridFileLayout sampleV1 sampleV2 = .ok () ∧
    (∃ map, buildPieceMap sampleV1.pieceLength sampleV1.files = .ok map) ∧
    ∃ mapV2, buildV2PieceMap sampleV2.pieceLength sampleV2.files = .ok mapV2 := by
  have accepted : validateHybridFileLayout sampleV1 sampleV2 = .ok () := by
    decide +kernel
  obtain ⟨_, exists_v1, exists_v2, _⟩ := hybrid_views_agree sampleV1 sampleV2 accepted
  exact ⟨accepted, exists_v1.mpr (by decide), exists_v2.mpr (by decide)⟩

end TorrentNG.Metainfo
