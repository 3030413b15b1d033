import TorrentNG.Metainfo
import TorrentNG.PieceMap
import TorrentNG.SparseReads

/-!
# Rechecking pieces and files

`PieceVerifier` and `V2FileVerifier` of `rt-storage/src/verify.rs`. A piece is read in
chunks of at most one mebibyte, region after region, and hashed with SHA-1 while the next
chunk is read; padding regions are zeros and are not read. A v2 file is read in blocks of
16 KiB, whose hashes go into a Merkle accumulator.

SHA-1 is computed in steps, of which only the composition is used. A panic of the source,
an index out of range or a lost buffer, is `none`; the main result says that there is none
and that the verdicts are exact.
-/

namespace TorrentNG.Recheck

open Chunks Fallible List MachineArithmetic MerkleHash MerkleAccumulator Metainfo Pieces PieceMap
open SafePath SparseFiles Storage

/-- Why something could not be verified; the source keeps the message. -/
inductive MissingReason where
  | pieceMap (error : PieceMapError)
  /-- no hash for piece -/
  | noHash (piece : Nat)
  /-- piece region offset overflow -/
  | offsetOverflow
  | storage (error : StorageError)
deriving DecidableEq

inductive VerifyResult where
  | valid
  | invalid
  | missing (fileIndex : Nat) (reason : MissingReason)
deriving DecidableEq

structure V2FileHash where
  fileIndex : Nat
  path : SafeRelPath
  length : Nat
  piecesRoot : Option (Digest 32)
  fits : length < 2 ^ 64

/-- SHA-1 in steps: updates compose by concatenation. -/
structure Sha1 (environment : Environment) where
  State : Type
  new : State
  update : State → Bytes → State
  finalize : State → Digest 20
  composes : ∀ parts : List Bytes,
    finalize (parts.foldl update new) = environment.sha1 parts.flatten

def verifyReadChunkBytes : Nat := 1024 * 1024

/-- A planned read: the index of its region, the offset in the file and the length. -/
structure ReadChunk where
  regionIndex : Nat
  fileOffset : Nat
  len : Nat

/-- The reads of one region from an offset on. Every read has a byte, so the length of
the region is fuel enough. -/
def planRegion (regionIndex : Nat) (region : FileRegion) :
    Nat → Nat → Except VerifyResult (List ReadChunk)
  | 0, _ => .ok []
  | fuel + 1, regionOffset =>
      if regionOffset < region.length then
        let len := min (region.length - regionOffset) verifyReadChunkBytes
        match checkedAdd region.fileOffset regionOffset with
        | none => .error (.missing region.fileIndex .offsetOverflow)
        | some fileOffset => do
            let rest ← planRegion regionIndex region fuel (regionOffset + len)
            .ok (⟨regionIndex, fileOffset, len⟩ :: rest)
      else .ok []

/-- The reads of the regions, which are numbered from an index on. -/
def planRegions : Nat → List FileRegion → Except VerifyResult (List ReadChunk)
  | _, [] => .ok []
  | regionIndex, region :: rest => do
      let chunks ← planRegion regionIndex region region.length 0
      let others ← planRegions (regionIndex + 1) rest
      .ok (chunks ++ others)

variable (files : FileSystem)

def readRegionChunk (region : FileRegion) (fileOffset len : Nat) :
    Except StorageError Bytes :=
  if region.pad then .ok (List.replicate len 0)
  else readSparseRange files region.path fileOffset len

/-- The read of a chunk, with the verdict on its failure. -/
def readChunk (regions : List FileRegion) (chunk : ReadChunk) :
    Option (Except VerifyResult Bytes) :=
  match regions[chunk.regionIndex]? with
  | none => none
  | some region =>
      some ((readRegionChunk files region chunk.fileOffset chunk.len).mapError fun error =>
        .missing region.fileIndex (.storage error))

variable {regions : List FileRegion}

section Pieces
variable {environment : Environment} (sha : Sha1 environment) (files : FileSystem)

/-- The loop over the chunks: hash the buffered chunk while the next one is read. -/
def pipeline (regions : List FileRegion) :
    List ReadChunk → Option Bytes → sha.State → Option (Except VerifyResult sha.State)
  | [], _, hasher => some (.ok hasher)
  | _ :: rest, pending, hasher =>
      match pending with
      | none => none
      | some data =>
          match rest with
          | [] => some (.ok (sha.update hasher data))
          | next :: _ =>
              match readChunk files regions next with
              | none => none
              | some (.error verdict) => some (.error verdict)
              | some (.ok prefetched) =>
                  pipeline regions rest (some prefetched) (sha.update hasher data)

/-- The first chunk is read before the loop. -/
def hashChunks (regions : List FileRegion) (chunks : List ReadChunk) :
    Option (Except VerifyResult sha.State) :=
  match chunks with
  | [] => pipeline sha files regions [] none sha.new
  | first :: _ =>
      match readChunk files regions first with
      | none => none
      | some (.error verdict) => some (.error verdict)
      | some (.ok data) => pipeline sha files regions chunks (some data) sha.new

def verifyPiece (map : PieceMap) (expectedHashes : List (Digest 20)) (piece : Nat) :
    Option VerifyResult :=
  match map.pieceToFileRegions piece with
  | .error problem => some (.missing 0 (.pieceMap problem))
  | .ok regions =>
      match expectedHashes[piece]? with
      | none => some (.missing 0 (.noHash piece))
      | some expected =>
          match planRegions 0 regions with
          | .error verdict => some verdict
          | .ok chunks =>
              match hashChunks sha files regions chunks with
              | none => none
              | some (.error verdict) => some verdict
              | some (.ok hasher) =>
                  some (if sha.finalize hasher = expected then .valid else .invalid)

/-! ## The pipeline reads the chunks in turn -/

/-- With the buffer filled, the loop hashes it and what the rest of the reads deliver. -/
theorem pipeline_eq {read : ReadChunk → Except VerifyResult Bytes}
    (first : ReadChunk) {rest : List ReadChunk} (data : Bytes) (hasher : sha.State)
    (known : ∀ chunk ∈ rest, readChunk files regions chunk = some (read chunk)) :
    pipeline sha files regions (first :: rest) (some data) hasher =
      some ((rest.mapM read).map fun parts => parts.foldl sha.update (sha.update hasher data)) := by
  induction rest generalizing first data hasher with
  | nil => rfl
  | cons next rest ih =>
    obtain ⟨here, others⟩ := forall_mem_cons.mp known
    rw [pipeline]
    simp only [here, mapM_cons, bind, Except.bind]
    cases fetched : read next with
    | error verdict => rfl
    | ok prefetched =>
      dsimp only
      rw [ih next prefetched (sha.update hasher data) others]
      cases rest.mapM read <;> rfl

theorem hashChunks_eq
    {read : ReadChunk → Except VerifyResult Bytes} {chunks : List ReadChunk}
    (known : ∀ chunk ∈ chunks, readChunk files regions chunk = some (read chunk)) :
    hashChunks sha files regions chunks =
      some ((chunks.mapM read).map fun parts => parts.foldl sha.update sha.new) := by
  cases chunks with
  | nil => rfl
  | cons first rest =>
    obtain ⟨here, others⟩ := forall_mem_cons.mp known
    rw [hashChunks]
    simp only [here, mapM_cons, bind, Except.bind]
    cases fetched : read first with
    | error verdict => rfl
    | ok data =>
      dsimp only
      rw [pipeline_eq sha files first data sha.new others]
      cases rest.mapM read <;> rfl

end Pieces

/-! ## The chunks of a plan make up the piece -/

/-- The reads succeed exactly under a condition, and what they deliver is the content. -/
structure Delivers (read : ReadChunk → Except VerifyResult Bytes) (chunks : List ReadChunk)
    (condition : Prop) (content : Bytes) : Prop where
  succeeds : condition → ∃ parts, chunks.mapM read = .ok parts
  delivered : ∀ parts, chunks.mapM read = .ok parts → condition ∧ parts.flatten = content

namespace Delivers
variable {read : ReadChunk → Except VerifyResult Bytes}

theorem nil : Delivers read [] True [] := by
  refine ⟨fun _ => ⟨[], rfl⟩, fun parts computed => ⟨trivial, ?_⟩⟩
  obtain rfl := Except.ok.inj computed
  rfl

variable {content : Bytes}

theorem append {front back : List ReadChunk} {first second : Prop} {rest : Bytes}
    (fronts : Delivers read front first content) (backs : Delivers read back second rest) :
    Delivers read (front ++ back) (first ∧ second) (content ++ rest) := by
  refine ⟨fun condition => ?_, fun parts computed => ?_⟩
  · obtain ⟨frontParts, computedFront⟩ := fronts.succeeds condition.1
    obtain ⟨backParts, computedBack⟩ := backs.succeeds condition.2
    exact ⟨_, mapM_append_eq_ok.mpr ⟨frontParts, backParts, computedFront, computedBack, rfl⟩⟩
  · obtain ⟨frontParts, backParts, computedFront, computedBack, rfl⟩ :=
      mapM_append_eq_ok.mp computed
    obtain ⟨firstHolds, frontContent⟩ := fronts.delivered _ computedFront
    obtain ⟨secondHolds, backContent⟩ := backs.delivered _ computedBack
    exact ⟨⟨firstHolds, secondHolds⟩, by rw [flatten_append, frontContent, backContent]⟩

theorem single {chunk : ReadChunk} {condition : Prop}
    (exact : ∀ data, read chunk = .ok data ↔ condition ∧ data = content) :
    Delivers read [chunk] condition content := by
  refine ⟨fun condition => ?_, fun parts computed => ?_⟩
  · exact ⟨[content], mapM_cons_eq_ok.mpr
      ⟨content, [], (exact content).mpr ⟨condition, rfl⟩, rfl, rfl⟩⟩
  · obtain ⟨data, others, fetched, none, rfl⟩ := mapM_cons_eq_ok.mp computed
    obtain rfl := Except.ok.inj none
    obtain ⟨holds, rfl⟩ := (exact data).mp fetched
    exact ⟨holds, by simp⟩

theorem congr {chunks : List ReadChunk} {condition other : Prop}
    (delivers : Delivers read chunks condition content) (same : condition ↔ other) :
    Delivers read chunks other content :=
  ⟨fun holds => delivers.succeeds (same.mpr holds), fun parts computed =>
    ⟨same.mp (delivers.delivered parts computed).1, (delivers.delivered parts computed).2⟩⟩

end Delivers

section Plans
variable (files : FileSystem) (region : FileRegion)

/-- The file of the region, unless it is padding, has every byte before a position. -/
def ReachesTo (stop : Nat) : Prop :=
  region.pad = false → ∃ file, files region.path = some file ∧ stop ≤ file.content.length

/-- The bytes of a region: those of its file, or zeros for padding. -/
def regionBytes (offset length : Nat) : Bytes :=
  if region.pad then List.replicate length 0
  else ((files region.path).map fun file => file.slice offset length).getD []

theorem regionBytes_append (offset first second : Nat) :
    regionBytes files region offset first ++ regionBytes files region (offset + first) second =
      regionBytes files region offset (first + second) := by
  unfold regionBytes
  split_ifs
  · rw [replicate_append_replicate]
  · cases files region.path with
    | none => rfl
    | some file => exact file.slice_append offset first second

variable {region : FileRegion}

theorem ReachesTo.mono {files : FileSystem} {stop other : Nat}
    (reaches : ReachesTo files region stop) (before : other ≤ stop) :
    ReachesTo files region other := by
  intro real
  obtain ⟨file, stored, long⟩ := reaches real
  exact ⟨file, stored, before.trans long⟩

theorem readRegionChunk_eq_ok {offset len : Nat} (some : 0 < len) {data : Bytes} :
    readRegionChunk files region offset len = .ok data ↔
      ReachesTo files region (offset + len) ∧ data = regionBytes files region offset len := by
  unfold readRegionChunk ReachesTo regionBytes
  by_cases padding : region.pad = true
  · simp [padding, eq_comm]
  · have real : region.pad = false := by simpa using padding
    rw [if_neg padding, readSparseRange_eq_ok some, if_neg padding]
    constructor
    · rintro ⟨file, stored, inside, rfl⟩
      exact ⟨fun _ => ⟨file, stored, inside⟩, by simp [stored]⟩
    · rintro ⟨reaches, rfl⟩
      obtain ⟨file, stored, inside⟩ := reaches real
      exact ⟨file, stored, inside, by simp [stored]⟩

variable (read : ReadChunk → Except VerifyResult Bytes)

/-- Behind the end of a region there is nothing to read. -/
theorem delivers_behind {offset : Nat} (behind : region.length ≤ offset) : Delivers read []
      (offset < region.length → ReachesTo files region (region.fileOffset + region.length))
      (regionBytes files region (region.fileOffset + offset) (region.length - offset)) := by
  have empty : regionBytes files region (region.fileOffset + offset) (region.length - offset) =
      [] := by
    rw [Nat.sub_eq_zero_of_le behind, regionBytes]
    split_ifs
    · rfl
    · cases files region.path <;> simp [SparseFile.slice]
  rw [empty]
  exact Delivers.nil.congr ⟨fun _ inside => by omega, fun _ => trivial⟩

/-- The reads of one region, from an offset on. -/
theorem planRegion_delivers (regionIndex : Nat)
    (reads : ∀ chunk, chunk.regionIndex = regionIndex → ∀ data, read chunk = .ok data ↔
      readRegionChunk files region chunk.fileOffset chunk.len = .ok data)
    (fits : region.fileOffset + region.length < 2 ^ 64) (fuel offset : Nat)
    (ordered : offset ≤ region.length) (enough : region.length ≤ offset + fuel) :
    ∃ chunks, planRegion regionIndex region fuel offset = .ok chunks ∧
      (∀ chunk ∈ chunks, chunk.regionIndex = regionIndex) ∧ Delivers read chunks
        (offset < region.length → ReachesTo files region (region.fileOffset + region.length))
        (regionBytes files region (region.fileOffset + offset) (region.length - offset)) := by
  induction fuel generalizing offset with
  | zero => exact ⟨[], rfl, by simp, delivers_behind files read (by omega)⟩
  | succ fuel ih =>
    rw [planRegion]
    split
    next more =>
      rw [checkedAdd_of_lt (by omega)]
      dsimp only
      have size : 0 < verifyReadChunkBytes := by decide
      generalize step : min (region.length - offset) verifyReadChunkBytes = len
      have positive : 0 < len := by omega
      obtain ⟨rest, planned, indexed, delivers⟩ := ih (offset + len)
        (by omega) (by omega)
      have whole := (Delivers.single fun data =>
        (reads ⟨regionIndex, region.fileOffset + offset, len⟩ rfl data).trans
          (readRegionChunk_eq_ok files positive)).append delivers
      dsimp only at whole
      rw [← Nat.add_assoc, regionBytes_append,
        show len + (region.length - (offset + len)) = region.length - offset by omega] at whole
      refine ⟨⟨regionIndex, region.fileOffset + offset, len⟩ :: rest, ?_, ?_, whole.congr ?_⟩
      · rw [planned]
        rfl
      · simpa using indexed
      · constructor
        · rintro ⟨here, further⟩ _
          by_cases last : offset + len < region.length
          · exact further last
          · exact here.mono (by omega)
        · intro reaches
          exact ⟨(reaches more).mono (by omega), fun _ => reaches more⟩
    next => exact ⟨[], rfl, by simp, delivers_behind files read (by omega)⟩

/-- The reads of all regions succeed when their files reach the end of them, and deliver
the bytes of the regions. -/
theorem planRegions_delivers (regionIndex : Nat)
    (reads : ∀ index region, regions[index]? = some region → ∀ chunk : ReadChunk,
      chunk.regionIndex = regionIndex + index → ∀ data, read chunk = .ok data ↔
        readRegionChunk files region chunk.fileOffset chunk.len = .ok data)
    (fit : ∀ region ∈ regions, 0 < region.length ∧ region.fileOffset + region.length < 2 ^ 64) :
    ∃ chunks, planRegions regionIndex regions = .ok chunks ∧
      (∀ chunk ∈ chunks, ∃ index region, regions[index]? = some region ∧
        chunk.regionIndex = regionIndex + index) ∧ Delivers read chunks
        (∀ region ∈ regions, ReachesTo files region (region.fileOffset + region.length))
        (regions.flatMap fun region =>
          regionBytes files region region.fileOffset region.length) := by
  induction regions generalizing regionIndex with
  | nil => exact ⟨[], rfl, by simp, Delivers.nil.congr (by simp)⟩
  | cons region rest ih =>
    obtain ⟨⟨positive, fits⟩, others⟩ := forall_mem_cons.mp fit
    obtain ⟨chunks, planned, indexed, delivers⟩ := planRegion_delivers files read regionIndex
      (fun chunk placed => reads 0 region rfl chunk placed) fits region.length 0 (Nat.zero_le _)
      (by omega)
    obtain ⟨remaining, plannedRest, indexedRest, deliversRest⟩ :=
      ih (regionIndex + 1) (fun index other found chunk placed =>
        reads (index + 1) other found chunk (by omega)) others
    refine ⟨chunks ++ remaining, ?_, ?_, ?_⟩
    · rw [planRegions, planned, bind_eq_ok]
      exact ⟨chunks, rfl, bind_eq_ok.mpr ⟨remaining, plannedRest, rfl⟩⟩
    · intro chunk member
      rcases mem_append.mp member with here | later
      · exact ⟨0, region, rfl, indexed chunk here⟩
      · obtain ⟨index, other, found, placed⟩ := indexedRest chunk later
        exact ⟨index + 1, other, found, by omega⟩
    · rw [flatMap_cons]
      refine (delivers.append deliversRest).congr ?_
      rw [forall_mem_cons]
      exact and_congr_left fun _ => ⟨fun reaches => reaches positive, fun reaches _ => reaches⟩

end Plans

/-- The bytes of a piece on disk. -/
def pieceBytes (regions : List FileRegion) : Bytes :=
  regions.flatMap fun region => regionBytes files region region.fileOffset region.length

/-- A failed read is not a verdict that the piece is valid. -/
theorem readChunk_ne_valid {files : FileSystem} {chunk : ReadChunk}
    {verdict : VerifyResult}
    (failed : (readChunk files regions chunk).getD (.ok []) = .error verdict) :
    verdict ≠ .valid := by
  unfold readChunk at failed
  split at failed
  · cases failed
  · next region _ =>
    cases fetched : readRegionChunk files region chunk.fileOffset chunk.len with
    | error problem =>
      rw [fetched] at failed
      cases failed
      simp
    | ok data =>
      rw [fetched] at failed
      cases failed

/-- A piece is valid exactly when its files are long enough and its hash is expected. -/
theorem verifyPiece_eq {environment : Environment} (sha : Sha1 environment) (files : FileSystem)
    {map : PieceMap} {expectedHashes : List (Digest 20)} {piece : Nat}
    (inside : piece < map.pieceCount) (listed : expectedHashes.length = map.pieceCount) :
    ∃ verdict, verifyPiece sha files map expectedHashes piece = some verdict ∧ (verdict = .valid ↔
        (∀ region ∈ map.regions piece, ReachesTo files region (region.fileOffset + region.length)) ∧
        some (environment.sha1 (pieceBytes files (map.regions piece))) = expectedHashes[piece]?) := by
  have expected : expectedHashes[piece]? = some expectedHashes[piece] :=
    List.getElem?_eq_getElem (by omega)
  let read := fun chunk => (readChunk files (map.regions piece) chunk).getD (.ok [])
  have known : ∀ index region, (map.regions piece)[index]? = some region → ∀ chunk : ReadChunk,
      chunk.regionIndex = index → readChunk files (map.regions piece) chunk = some (read chunk) := by
    intro index region found chunk placed
    simp [read, readChunk, placed, found]
  obtain ⟨chunks, planned, indexed, delivers⟩ := planRegions_delivers files read 0 (by
      intro index region found chunk placed data
      rw [Nat.zero_add] at placed
      have fetched := known index region found chunk placed
      rw [readChunk, placed, found] at fetched
      rw [← Option.some.inj fetched, mapError_eq_ok]) (map.regions_fit piece inside)
  have hashed := hashChunks_eq sha files (by
    intro chunk member
    obtain ⟨index, region, found, placed⟩ := indexed chunk member
    exact known index region found chunk (by omega))
  rw [verifyPiece, map.regions_answered piece inside]
  simp only [expected, planned, hashed]
  cases outcome : chunks.mapM read with
  | error verdict =>
    have failed : verdict ≠ .valid := by
      obtain ⟨chunk, _, fetched⟩ := mapM_eq_error outcome
      exact readChunk_ne_valid fetched
    refine ⟨verdict, rfl, ⟨fun valid => absurd valid failed, fun ⟨reaches, _⟩ => ?_⟩⟩
    obtain ⟨parts, computed⟩ := delivers.succeeds reaches
    rw [outcome] at computed
    cases computed
  | ok parts =>
    obtain ⟨reaches, content⟩ := delivers.delivered parts outcome
    have digest := sha.composes parts
    rw [content] at digest
    refine ⟨_, rfl, ?_⟩
    rw [digest]
    split_ifs with same
    · exact ⟨fun _ => ⟨reaches, congrArg some same⟩, fun _ => rfl⟩
    · exact ⟨nofun, fun right => absurd (Option.some.inj right.2) same⟩

/-! ## Files -/

def leafSize : Nat := 16 * 1024

section Files
variable (hasher : Hasher (Digest 32)) (files : FileSystem)

/-- The loop of `file_root` from an offset on. Every leaf has a byte, so the length of
the file is fuel enough. -/
def leafLoop (file : V2FileHash) : Nat → Nat → MerkleAccumulator (Digest 32) →
    Option (Except StorageError (MerkleAccumulator (Digest 32)))
  | 0, _, accumulator => some (.ok accumulator)
  | fuel + 1, offset, accumulator =>
      if offset < file.length then
        let len := min (file.length - offset) leafSize
        match readSparseRange files file.path offset len with
        | .error problem => some (.error problem)
        | .ok data => do
            let accumulator ← accumulator.push hasher (hasher.blockHash data)
            leafLoop file fuel (offset + len) accumulator
      else some (.ok accumulator)

/-- The root of a file. An empty file is opened, and has one empty leaf. -/
def fileRoot (file : V2FileHash) : Option (Except StorageError (Digest 32)) :=
  if file.length = 0 then
    match readOwned files file.path 0 0 with
    | .error problem => some (.error problem)
    | .ok _ => do
        let accumulator ← MerkleAccumulator.new.push hasher (hasher.blockHash [])
        let root ← accumulator.finish hasher
        some (.ok root)
  else
    match leafLoop hasher files file file.length 0 .new with
    | none => none
    | some (.error problem) => some (.error problem)
    | some (.ok accumulator) => do
        let root ← accumulator.finish hasher
        some (.ok root)

def verifyFile (file : V2FileHash) : Option VerifyResult := do
  match ← fileRoot hasher files file with
  | .error problem => some (.missing file.fileIndex (.storage problem))
  | .ok actual =>
      if file.piecesRoot.isNone ∧ file.length = 0 then some .valid
      else if some actual = file.piecesRoot then some .valid
      else some .invalid

variable {stored : SparseFile} {file : V2FileHash}

/-- The first leaf of a part of a file, and the part behind it. -/
theorem leafHashes_slice {offset length : Nat} (some : 0 < length)
    (inside : offset + length ≤ stored.content.length) :
    leafHashes hasher (stored.slice offset length) =
      hasher.blockHash (stored.slice offset (min length leafSize)) ::
        leafHashes hasher (stored.slice (offset + min length leafSize)
          (length - min length leafSize)) := by
  have size : v2BlockSize = leafSize := rfl
  have nonempty : stored.slice offset length ≠ [] :=
    ne_nil_of_length_pos (by rwa [stored.length_slice inside])
  rw [leafHashes, chunks_step (by decide) nonempty, map_cons, size]
  congr 1
  · rw [SparseFile.slice, take_take, Nat.min_comm]
    rfl
  · rw [leafHashes, size]
    congr 2
    rw [SparseFile.slice, SparseFile.slice, drop_take, drop_drop]
    rcases Nat.le_total length leafSize with short | long
    · rw [Nat.min_eq_left short, Nat.sub_eq_zero_of_le short, Nat.sub_self]
      simp
    · rw [Nat.min_eq_right long]

/-- The loop adds the hashes of the rest of a file that is long enough, and fails on a file that
is missing or short. -/
theorem leafLoop_spec (fuel offset : Nat) (leaves : List (Digest 32))
    (accumulator : MerkleAccumulator (Digest 32))
    (pushed : pushAll hasher leaves = some accumulator)
    (ordered : offset ≤ file.length) (enough : file.length ≤ offset + fuel)
    (few : leaves.length + (file.length - offset) < 2 ^ 64) :
    (∀ stored, files file.path = some stored → file.length ≤ stored.content.length →
      leafLoop hasher files file fuel offset accumulator = (pushAll hasher
          (leaves ++ leafHashes hasher (stored.slice offset (file.length - offset)))).map .ok) ∧
    ((∀ stored, files file.path = some stored → stored.content.length < file.length) →
      offset < file.length →
      ∃ problem, leafLoop hasher files file fuel offset accumulator = some (.error problem)) := by
  induction fuel generalizing offset leaves accumulator with
  | zero =>
    obtain rfl : offset = file.length := by omega
    refine ⟨fun stored _ _ => ?_, fun _ more => absurd more (Nat.lt_irrefl _)⟩
    simp [leafLoop, SparseFile.slice, leafHashes, pushed]
  | succ fuel ih =>
    rw [leafLoop]
    by_cases more : offset < file.length
    · have size : 0 < leafSize := by decide
      rw [if_pos more]
      dsimp only
      generalize step : min (file.length - offset) leafSize = len
      cases read : readSparseRange files file.path offset len with
      | error problem =>
        refine ⟨fun stored found long => ?_, fun _ _ => ⟨problem, rfl⟩⟩
        rw [readSparseRange_eq found (by omega) (by omega)] at read
        cases read
      | ok data =>
        obtain ⟨stored, found, inside, rfl⟩ := (readSparseRange_eq_ok (by omega)).mp read
        have room : (leaves ++ [hasher.blockHash (stored.slice offset len)]).length =
          leaves.length + 1 := length_append
        obtain ⟨next, pushedNext, _⟩ := pushAll_holds hasher
          (leaves ++ [hasher.blockHash (stored.slice offset len)]) (by omega)
        have grown : accumulator.push hasher (hasher.blockHash (stored.slice offset len)) =
            some next := by
          rw [pushAll] at pushed pushedNext
          rw [foldlM_append, pushed] at pushedNext
          simpa using pushedNext
        obtain ⟨pushes, fails⟩ :=
          ih (offset + len) _ next pushedNext (by omega) (by omega) (by omega)
        simp only [grown]
        refine ⟨fun other same long => ?_, fun short _ => ?_⟩
        · obtain rfl := Option.mem_unique found same
          rw [leafHashes_slice hasher (by omega) (by omega), step]
          have rest := pushes stored found long
          rw [append_assoc, singleton_append, ← Nat.sub_sub] at rest
          exact rest
        · have bounded := short stored found
          exact fails short (by omega)
    · obtain rfl : offset = file.length := by omega
      refine ⟨fun stored _ _ => ?_, fun _ further => absurd further more⟩
      simp [SparseFile.slice, leafHashes, pushed]

/-- The root of a file that is long enough. -/
theorem fileRoot_eq (nonempty : 0 < file.length) (found : files file.path = some stored)
    (long : file.length ≤ stored.content.length) : fileRoot hasher files file =
      some (.ok (merkleRoot hasher (leafHashes hasher (stored.content.take file.length)))) := by
  have fits := file.fits
  have read := (leafLoop_spec hasher files file.length 0 [] .new rfl (Nat.zero_le _) (by omega)
    (by simpa using fits)).1 stored found long
  rw [nil_append, Nat.sub_zero, SparseFile.slice, drop_zero] at read
  have count : (leafHashes hasher (stored.content.take file.length)).length ≤ 2 ^ 63 := by
    rw [length_leafHashes, divCeil_le_iff (by decide), length_take, Nat.min_eq_left long]
    exact fits.le.trans (by decide)
  obtain ⟨accumulator, pushed, _⟩ := pushAll_holds hasher
    (leafHashes hasher (stored.content.take file.length)) (by omega)
  have root := rootOf_eq hasher count
  rw [rootOf, pushed, Option.bind_some] at root
  rw [fileRoot, if_neg (by omega), read, pushed]
  simp only [Option.map_some, root]
  rfl

/-- A file that is not empty is valid exactly when it is long enough and has the root. -/
theorem verifyFile_eq (nonempty : 0 < file.length) :
    ∃ verdict, verifyFile hasher files file = some verdict ∧
      (verdict = .valid ↔ ∃ stored, files file.path = some stored ∧
        file.length ≤ stored.content.length ∧
        some (merkleRoot hasher (leafHashes hasher (stored.content.take file.length))) =
          file.piecesRoot) := by
  by_cases reached : ∃ stored, files file.path = some stored ∧ file.length ≤ stored.content.length
  · obtain ⟨stored, found, long⟩ := reached
    rw [verifyFile, fileRoot_eq hasher files nonempty found long]
    simp only [bind, Option.bind]
    rw [if_neg (by omega)]
    split_ifs with same
    · exact ⟨.valid, rfl, fun _ => ⟨stored, found, long, same⟩, fun _ => rfl⟩
    · refine ⟨.invalid, rfl, nofun, ?_⟩
      rintro ⟨other, foundOther, _, sameOther⟩
      obtain rfl := Option.mem_unique found foundOther
      exact absurd sameOther same
  · have short : ∀ stored, files file.path = some stored →
        stored.content.length < file.length := fun stored found =>
      Nat.lt_of_not_le fun long => reached ⟨stored, found, long⟩
    obtain ⟨problem, failed⟩ := (leafLoop_spec hasher files file.length 0 [] .new rfl
      (Nat.zero_le _) (by omega) (by simpa using file.fits)).2 short nonempty
    refine ⟨.missing file.fileIndex (.storage problem), ?_, nofun, ?_⟩
    · rw [verifyFile, fileRoot, if_neg (by omega), failed]
      rfl
    · rintro ⟨stored, found, long, _⟩
      exact absurd ⟨stored, found, long⟩ reached

end Files

/-- Verdicts of a recheck are exact, whatever holes the files have. A piece of a torrent is
valid exactly when every file it has bytes of, padding apart, reaches the end of its
region and the SHA-1 of the piece is the expected one. A v2 file with content is valid
exactly when it is at least as long as stated and the Merkle root of its stated part is
its root. -/
theorem recheck_verdicts_exact (environment : Environment) (sha : Sha1 environment)
    (files : FileSystem) :
    (∀ (map : PieceMap) (expectedHashes : List (Digest 20)) (piece : Nat),
      expectedHashes.length = map.pieceCount → piece < map.pieceCount →
      ∃ regions verdict, map.pieceToFileRegions piece = .ok regions ∧
        verifyPiece sha files map expectedHashes piece = some verdict ∧
        (verdict = .valid ↔
          (∀ region ∈ regions, region.pad = false → ∃ file, files region.path = some file ∧
            region.fileOffset + region.length ≤ file.content.length) ∧
          some (environment.sha1 (pieceBytes files regions)) = expectedHashes[piece]?)) ∧
    ∀ file : V2FileHash, 0 < file.length →
      ∃ verdict, verifyFile environment.hasher files file = some verdict ∧
        (verdict = .valid ↔ ∃ stored, files file.path = some stored ∧
          file.length ≤ stored.content.length ∧
          some (merkleRoot environment.hasher
            (leafHashes environment.hasher (stored.content.take file.length))) =
              file.piecesRoot) := by
  refine ⟨fun map expectedHashes piece listed inside => ?_,
    fun file nonempty => verifyFile_eq environment.hasher files nonempty⟩
  obtain ⟨verdict, verified, exact⟩ :=
    verifyPiece_eq sha files inside listed
  exact ⟨map.regions piece, verdict, map.regions_answered piece inside, verified, exact⟩

/-- SHA-1 that keeps all its input to the end. -/
def bufferedSha1 (environment : Environment) : Sha1 environment where
  State := Bytes
  new := []
  update := (· ++ ·)
  finalize := environment.sha1
  composes := by
    intro parts
    congr 1
    rw [← List.nil_append parts.flatten]
    generalize ([] : Bytes) = buffered
    induction parts generalizing buffered with
    | nil => simp
    | cons part parts ih =>
      rw [List.foldl_cons, ih, List.flatten_cons, List.append_assoc]

/-- A stand-in for the hash functions: the first bytes of the content. -/
def leadingBytes : Environment where
  sha1 := leading 20
  sha256 := leading 32
  estimateProjection _ _ _ _ := 0

/-- Six bytes with a hole of two. -/
def holedFile : SparseFile where
  content := [1, 2, 3, 0, 0, 6]
  isData position := position < 3 || 5 ≤ position
  covers := by
    intro position hole
    obtain ⟨low, high⟩ : 3 ≤ position ∧ position < 5 := by simpa using hole
    interval_cases position <;> rfl
  addressable := by decide
  seeksData := true
  seeksHole := true

def holedFiles : FileSystem := fun _ => some holedFile

def holedHash : V2FileHash where
  fileIndex := 0
  path := samplePath
  length := 5
  piecesRoot := some (merkleRoot leadingBytes.hasher (leafHashes leadingBytes.hasher [1, 2, 3, 0, 0]))
  fits := by decide

/-- The second piece has the last byte of the padding and three bytes of the last file. -/
theorem recheck_verdicts_exact_holed :
    verifyFile leadingBytes.hasher holedFiles holedHash = some .valid ∧
      ∃ map, newWithPadding 4 sampleFiles [1] = .ok map ∧
        verifyPiece (bufferedSha1 leadingBytes) holedFiles map
          (List.replicate map.pieceCount (leadingBytes.sha1 [0, 1, 2, 3])) 1 = some .valid := by
  obtain ⟨pieces, v2Files⟩ :=
    recheck_verdicts_exact leadingBytes (bufferedSha1 leadingBytes) holedFiles
  refine ⟨?_, ?_⟩
  · obtain ⟨verdict, verified, exact⟩ := v2Files holedHash (by decide)
    rw [verified, exact.mpr ⟨holedFile, rfl, by decide, rfl⟩]
  · obtain ⟨map, built, three, found⟩ : ∃ map, newWithPadding 4 sampleFiles [1] = .ok map ∧
        map.pieceCount = 3 ∧ map.pieceToFileRegions 1 =
          .ok [⟨1, samplePath, 1, 0, 1, true⟩, ⟨2, samplePath, 0, 1, 3, false⟩] := ⟨_, rfl, rfl, rfl⟩
    obtain ⟨regions, verdict, answered, verified, exact⟩ := pieces map
      (List.replicate map.pieceCount (leadingBytes.sha1 [0, 1, 2, 3])) 1 List.length_replicate
      (by omega)
    obtain rfl := Except.ok.inj (found.symm.trans answered)
    refine ⟨map, built, ?_⟩
    rw [verified, exact.mpr ⟨?_, ?_⟩]
    · rw [List.forall_mem_cons, List.forall_mem_singleton]
      exact ⟨nofun, fun _ => ⟨holedFile, rfl, by decide⟩⟩
    · rw [List.getElem?_replicate, if_pos (by omega)]
      decide

end TorrentNG.Recheck
