import TorrentNG.InfoSpan
import TorrentNG.MerkleHash
import TorrentNG.SafePath

/-!
# Metainfo fields of `rt-metainfo`

The types a parsed torrent is made of, the limits of the parser and the readers of
single fields: strings, integers, tracker tiers, web seeds and piece hashes. Every
reader reports the field it reads in its error.

SHA-1 and SHA-256 enter only as functions, and the estimate of the memory a parsed
torrent takes, which depends on the layout of Rust types, only as a number.
-/

namespace TorrentNG.Metainfo

open Bencode Fallible List MachineArithmetic SafePath Utf8

variable (size : Nat)

/-- A hash of `size` bytes, `[u8; size]`. -/
abbrev Digest := { bytes : Bytes // bytes.length = size }

/-- What the parser takes from outside: the two hash functions, and the projected
allocation of a torrent given its root and `info` dictionaries and its kind. -/
structure Environment where
  sha1 : Bytes → Digest 20
  sha256 : Bytes → Digest 32
  estimateProjection : BValue → BValue → Bool → Bool → Nat

/-- `[0u8; size]`. -/
def zeros : Digest size := ⟨List.replicate size 0, List.length_replicate⟩

/-- The first bytes of the content, padded with zeros. -/
def leading (content : Bytes) : Digest size :=
  ⟨(content ++ List.replicate size 0).take size, by simp⟩

/-- The Merkle primitives over SHA-256: a block is hashed as it is, a pair as the
concatenation of its hashes. -/
def Environment.hasher (environment : Environment) : MerkleHash.Hasher (Digest 32) where
  zero := zeros 32
  blockHash := environment.sha256
  hashPair left right := environment.sha256 (left.val ++ right.val)

inductive MetainfoError where
  | bencode (error : BencodeError)
  | missingField (field : String)
  | invalidFieldType (field : String)
  | invalidIntegerValue (field : String) (value : Int64)
  | integerOverflow (field : String)
  | limitExceeded (field : String) (limit : Nat)
  | invalidPiecesLength (length : Nat)
  | invalidPieceCount (expected actual : Nat)
  | zeroTotalLength
  | invalidPieceLength (length : Nat)
  | invalidPieceLayer (problem : String)
  | invalidPieceLayerCount (expected actual : Nat)
  | pieceLayerRootMismatch
  | invalidPath (error : PathError)
  | conflictingFilePaths (path : Text)
  | inconsistentHybridLayout (problem : String)
  | invalidUtf8 (field : String)
  | zeroLengthName
  | unsupportedMetaVersion (version : Int64)
  /-- Not an error of the source: the span scanner faulted. -/
  | spanFault
deriving DecidableEq

/-- What the functions of the parser return. -/
abbrev Parsed := Except MetainfoError

def maxTorrentBytes : Nat := 64 * 1024 * 1024
def maxConvenienceMetainfoAllocationBytes : Nat := 512 * 1024 * 1024
def maxFiles : Nat := 100000
def maxPathComponents : Nat := 64
def maxTotalFilePathComponents : Nat := 500000
def maxTotalFilePathBytes : Nat := 16 * 1024 * 1024
def maxTrackerUrls : Nat := 4096
def maxTrackerTiers : Nat := 256
def maxTrackerUrlBytes : Nat := 8192
def maxTrackerUrlTotalBytes : Nat := 4 * 1024 * 1024
def maxWebseedUrls : Nat := 4096
def maxWebseedUrlBytes : Nat := 8192
def maxPieces : Nat := 16000000
def maxNameBytes : Nat := 4096
def maxPathComponentBytes : Nat := 4096
def maxMetadataTextBytes : Nat := 256 * 1024

/-- One file of a v1 torrent; `pad` marks a BEP 47 padding file. -/
structure TorrentFileV1 where
  index : Nat
  length : Nat
  path : SafeRelPath
  offset : Nat
  pad : Bool
deriving DecidableEq

/-- One file of a v2 torrent. -/
structure TorrentFileV2 where
  index : Nat
  length : Nat
  path : SafeRelPath
  offset : Nat
  pieceOffset : Nat
  piecesRoot : Option (Digest 32)
  pad : Bool
deriving DecidableEq

/-- The fields that do not depend on the kind of the torrent. -/
structure Header where
  announce : Option Text
  announceList : List (List Text)
  webseeds : List Text
  comment : Option Text
  createdBy : Option Text
  creationDate : Option Int64
  name : Text
  pieceLength : Nat
  isPrivate : Bool

structure TorrentMetaV1 extends Header where
  infoHash : Digest 20
  pieces : List (Digest 20)
  files : List TorrentFileV1
  raw : Bytes

/-- Piece layers are keyed by the root of their file. -/
structure TorrentMetaV2 extends Header where
  infoHashV2 : Digest 32
  files : List TorrentFileV2
  pieceLayers : List (Digest 32 × List (Digest 32))
  raw : Bytes

inductive TorrentMeta where
  | v1 (view : TorrentMetaV1)
  | v2 (view : TorrentMetaV2)
  | hybrid (v1 : TorrentMetaV1) (v2 : TorrentMetaV2)

section Getters
variable (dict : BValue) (key : Bytes) (field : String)

def getBytes : Parsed Bytes :=
  match dict.get key with
  | some (.bytes content) => .ok content
  | some _ => .error (.invalidFieldType field)
  | none => .error (.missingField field)

def getString (maxBytes : Nat) : Parsed Text := do
  let content ← getBytes dict key field
  if content.length > maxBytes then .error (.limitExceeded "name bytes" maxBytes)
  else okOr (Utf8.decode content) (.invalidUtf8 field)

def getInt : Parsed Int64 :=
  match dict.get key with
  | some (.int number) => .ok number
  | some _ => .error (.invalidFieldType field)
  | none => .error (.missingField field)

def getNonnegativeU64 : Parsed Nat := do
  let value ← getInt dict key field
  if value.toInt < 0 then .error (.invalidIntegerValue field value) else .ok value.toInt.toNat

def getPositiveU64 : Parsed Nat := do
  let value ← getNonnegativeU64 dict key field
  if value = 0 then .error (.invalidPieceLength value) else .ok value

end Getters

def addOffset (offset length : Nat) (field : String) : Parsed Nat :=
  okOr (checkedAdd offset length) (.integerOverflow field)

/-- BEP 47: the letter `p` among the flags of `attr` marks a padding file. -/
def isPadAttr (dict : BValue) : Bool :=
  match dict.get (ascii "attr") with
  | some (.bytes flags) => flags.contains 112
  | _ => false

variable (content : Bytes)

/-- Text that is valid UTF-8 and not blank. -/
def visibleText : Option Text :=
  ((Utf8.decode content).map trim).filter fun text => !text.isEmpty

variable (root : BValue)

def parseAnnounce : Parsed (Option Text) :=
  match root.get (ascii "announce") with
  | none => .ok none
  | some value =>
      match value.asBytes with
      | none => .error (.invalidFieldType "announce")
      | some content =>
          if content.length > maxTrackerUrlBytes then
            .error (.limitExceeded "tracker url bytes" maxTrackerUrlBytes)
          else .ok (visibleText content)

def parseOptionalString (key : Bytes) :
    Parsed (Option Text) :=
  match (root.get key).bind BValue.asBytes with
  | none => .ok none
  | some content =>
      if content.length > maxMetadataTextBytes then
        .error (.limitExceeded "metadata text bytes" maxMetadataTextBytes)
      else .ok (visibleText content)

/-- The loop over the URLs of one tier, with the counts over all tiers so far. -/
def parseTier : List BValue → Nat → Nat → Parsed (List Text × Nat × Nat)
  | [], total, totalBytes => .ok ([], total, totalBytes)
  | entry :: rest, total, totalBytes =>
      match entry.asBytes.bind visibleText with
      | none => parseTier rest total totalBytes
      | some url =>
          if byteLength url > maxTrackerUrlBytes then
            .error (.limitExceeded "tracker url bytes" maxTrackerUrlBytes)
          else if saturatingAdd total 1 > maxTrackerUrls then
            .error (.limitExceeded "tracker urls" maxTrackerUrls)
          else if saturatingAdd totalBytes (byteLength url) > maxTrackerUrlTotalBytes then
            .error (.limitExceeded "tracker url total bytes" maxTrackerUrlTotalBytes)
          else do
            let (urls, counts) ← parseTier rest (saturatingAdd total 1)
              (saturatingAdd totalBytes (byteLength url))
            .ok (url :: urls, counts)

/-- The loop over the tiers; entries that are not lists and empty tiers are left out. -/
def parseTiers : List BValue → Nat → Nat → Parsed (List (List Text))
  | [], _, _ => .ok []
  | .list entries :: rest, total, totalBytes => do
      let (urls, total, totalBytes) ← parseTier entries total totalBytes
      let tiers ← parseTiers rest total totalBytes
      .ok (if urls.isEmpty then tiers else urls :: tiers)
  | _ :: rest, total, totalBytes => parseTiers rest total totalBytes

def parseAnnounceList (initialTrackerCount initialTrackerBytes : Nat) :
    Parsed (List (List Text)) :=
  match root.get (ascii "announce-list") with
  | some (.list tiers) =>
      if tiers.length > maxTrackerTiers then
        .error (.limitExceeded "tracker tiers" maxTrackerTiers)
      else parseTiers tiers initialTrackerCount initialTrackerBytes
  | _ => .ok []

def pushWebseedBytes (out : List Text) :
    Parsed (List Text) :=
  match visibleText content with
  | none => .ok out
  | some url =>
      if byteLength url > maxWebseedUrlBytes then
        .error (.limitExceeded "webseed url bytes" maxWebseedUrlBytes)
      else if out.contains url then .ok out
      else if out.length ≥ maxWebseedUrls then
        .error (.limitExceeded "webseed urls" maxWebseedUrls)
      else .ok (out ++ [url])

def parseWebseedEntries : List BValue → List Text → Parsed (List Text)
  | [], out => .ok out
  | .bytes content :: rest, out => do
      let out ← pushWebseedBytes content out
      parseWebseedEntries rest out
  | _ :: rest, out => parseWebseedEntries rest out

def parseWebseeds : Parsed (List Text) :=
  match root.get (ascii "url-list") with
  | some (.bytes content) => pushWebseedBytes content []
  | some (.list entries) => parseWebseedEntries entries []
  | _ => .ok []

/-- `as_chunks`: the first `count` hashes of a byte string. -/
def splitDigests (size : Nat) : Nat → Bytes → List (Digest size)
  | 0, _ => []
  | count + 1, content =>
      if full : (content.take size).length = size then
        ⟨content.take size, full⟩ :: splitDigests size count (content.drop size)
      else []

def parsePieceHashes (info : BValue) : Parsed (List (Digest 20)) := do
  let content ← getBytes info (ascii "pieces") "pieces"
  if content.length % 20 ≠ 0 then .error (.invalidPiecesLength content.length)
  else if content.length / 20 > maxPieces then .error (.limitExceeded "pieces" maxPieces)
  else .ok (splitDigests 20 (content.length / 20) content)

/-- What is retained of all file paths so far. -/
structure FilePathBudget where
  totalComponents : Nat := 0
  totalBytes : Nat := 0

def FilePathBudget.reserve (budget : FilePathBudget) (components : List Text) :
    Parsed FilePathBudget :=
  let totalComponents := saturatingAdd budget.totalComponents components.length
  if totalComponents > maxTotalFilePathComponents then
    .error (.limitExceeded "total file path components" maxTotalFilePathComponents)
  else
    let pathBytes := (components.map byteLength).foldl saturatingAdd (components.length - 1)
    let totalBytes := saturatingAdd budget.totalBytes pathBytes
    if totalBytes > maxTotalFilePathBytes then
      .error (.limitExceeded "aggregate file path bytes" maxTotalFilePathBytes)
    else .ok { totalComponents, totalBytes }

def validateFilePathCollisions (paths : List SafeRelPath) : Parsed Unit :=
  (validateUniqueFilePaths paths).mapError fun error =>
    match error with
    | .conflictingPaths path => .conflictingFilePaths path
    | error => .invalidPath error

theorem length_splitDigests {size count : Nat}
    (enough : count * size ≤ content.length) :
    (splitDigests size count content).length = count := by
  induction count generalizing content with
  | zero => rfl
  | succ count ih =>
    rw [Nat.succ_mul] at enough
    have full : (content.take size).length = size := by
      rw [length_take]
      omega
    rw [splitDigests, dif_pos full, length_cons, ih]
    rw [length_drop]
    omega

/-- Cutting the concatenation of digests gives the digests back. -/
theorem splitDigests_flatMap (digests : List (Digest size)) :
    splitDigests size digests.length (digests.flatMap Subtype.val) = digests := by
  induction digests with
  | nil => rfl
  | cons digest rest ih =>
    have front : (digest.val ++ rest.flatMap Subtype.val).take size = digest.val :=
      take_left' digest.property
    have back : (digest.val ++ rest.flatMap Subtype.val).drop size = rest.flatMap Subtype.val :=
      drop_left' digest.property
    rw [length_cons, flatMap_cons, splitDigests,
      dif_pos (by rw [front]; exact digest.property), back, ih]
    congr 1
    exact Subtype.ext front

theorem length_flatMap_digests (digests : List (Digest size)) :
    (digests.flatMap Subtype.val).length = digests.length * size := by
  induction digests with
  | nil => simp
  | cons digest rest ih =>
    rw [flatMap_cons, length_append, ih, digest.property, length_cons, Nat.succ_mul, Nat.add_comm]

/-- Cutting a whole number of digests loses nothing. -/
theorem flatMap_splitDigests {size count : Nat}
    (whole : content.length = count * size) :
    (splitDigests size count content).flatMap Subtype.val = content := by
  induction count generalizing content with
  | zero =>
    rw [Nat.zero_mul] at whole
    rw [splitDigests, flatMap_nil, eq_nil_of_length_eq_zero whole]
  | succ count ih =>
    rw [Nat.succ_mul] at whole
    have full : (content.take size).length = size := by
      rw [length_take]
      omega
    have rest : (content.drop size).length = count * size := by
      rw [length_drop]
      omega
    rw [splitDigests, dif_pos full, flatMap_cons, ih _ rest, take_append_drop]

theorem getPositiveU64_bounds {dict : BValue} {key : Bytes} {field : String} {value : Nat}
    (read : getPositiveU64 dict key field = .ok value) : 0 < value ∧ value < 2 ^ 63 := by
  obtain ⟨number, nonnegative, accepted⟩ := bind_eq_ok.mp read
  split_ifs at accepted with zero
  obtain rfl := Except.ok.inj accepted
  obtain ⟨integer, _, accepted⟩ := bind_eq_ok.mp nonnegative
  split_ifs at accepted with negative
  obtain rfl := Except.ok.inj accepted
  have high := Int64.toInt_lt integer
  omega

end TorrentNG.Metainfo
