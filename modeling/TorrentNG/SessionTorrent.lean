import Mathlib.Data.List.Basic

/-!
# The torrents of a session

The records of a session: a torrent with a running task is a `TorrentEntry`, one without is
kept as a `DormantTorrent`. The second has every field of the first but `finalizing`, which
only a running task has a use for. A text is the list of its UTF-8 bytes; sharing (`Arc`) is
not modelled, since shared texts are never changed.
-/

namespace TorrentNG.Session

/-- A text, as its UTF-8 bytes. -/
abbrev Str := List UInt8

inductive TorrentState where
  | stopped
  | metadataPending
  | checking
  | seeding
  | downloading
  | paused
  | queued
  | error
  deriving DecidableEq

/-- The in-memory identity of a torrent, a random UUID. -/
structure TorrentHandle where
  uuid : BitVec 128
  deriving DecidableEq

structure TransferStats where
  uploaded : Nat
  downloaded : Nat
  deriving DecidableEq

structure DormantTorrent where
  handle : TorrentHandle
  infoHash : Str
  name : Str
  savePath : Str
  totalLength : Nat
  amountLeft : Nat
  state : TorrentState
  stats : TransferStats
  addedAt : Nat
  completedAt : Option Nat
  category : Option Str
  tags : List Str
  errorMessage : Option Str
  trackerMessage : Option Str
  deriving DecidableEq

/-- An active torrent has the fields of a dormant one, and whether it is being finalized. -/
structure TorrentEntry extends DormantTorrent where
  finalizing : Bool
  deriving DecidableEq

/-- `TorrentEntry::new`, given the random handle and the time. -/
def TorrentEntry.new (handle : TorrentHandle) (now : Nat) (infoHash name savePath : Str) :
    TorrentEntry where
  handle
  infoHash
  name
  savePath
  totalLength := 0
  amountLeft := 0
  state := .stopped
  stats := ⟨0, 0⟩
  addedAt := now
  completedAt := none
  category := none
  tags := []
  errorMessage := none
  trackerMessage := none
  finalizing := false

def TorrentEntry.intoDormant (entry : TorrentEntry) : DormantTorrent := entry.toDormantTorrent

/-- A dormant torrent has no task, so nothing is being held. -/
def DormantTorrent.toEntry (torrent : DormantTorrent) : TorrentEntry :=
  { torrent with finalizing := false }

/-- An entry comes back from its dormant form up to `finalizing`. -/
theorem TorrentEntry.toEntry_intoDormant (entry : TorrentEntry) :
    entry.intoDormant.toEntry = { entry with finalizing := false } := rfl

/-- What the registry keeps of a torrent. -/
inductive RegistryRecord where
  | active (entry : TorrentEntry)
  | dormant (torrent : DormantTorrent)
  deriving DecidableEq

namespace RegistryRecord

def infoHash : RegistryRecord → Str
  | active entry => entry.infoHash
  | dormant torrent => torrent.infoHash

def handle : RegistryRecord → TorrentHandle
  | active entry => entry.handle
  | dormant torrent => torrent.handle

variable (infoHash : Str)

def withInfoHash : RegistryRecord → RegistryRecord
  | active entry => active { entry with infoHash }
  | dormant torrent => dormant { torrent with infoHash }

def toEntry : RegistryRecord → TorrentEntry
  | active entry => entry
  | dormant torrent => torrent.toEntry

def category : RegistryRecord → Option Str
  | active entry => entry.category
  | dormant torrent => torrent.category

def setCategory (category : Option Str) : RegistryRecord → RegistryRecord
  | active entry => active { entry with category }
  | dormant torrent => dormant { torrent with category }

def tags : RegistryRecord → List Str
  | active entry => entry.tags
  | dormant torrent => torrent.tags

def setTags (tags : List Str) : RegistryRecord → RegistryRecord
  | active entry => active { entry with tags }
  | dormant torrent => dormant { torrent with tags }

def isActive : RegistryRecord → Bool
  | active _ => true
  | dormant _ => false

def isDormant : RegistryRecord → Bool
  | active _ => false
  | dormant _ => true

@[simp] theorem infoHash_withInfoHash (record : RegistryRecord) :
    (record.withInfoHash infoHash).infoHash = infoHash := by
  cases record <;> rfl

@[simp] theorem handle_withInfoHash (record : RegistryRecord) :
    (record.withInfoHash infoHash).handle = record.handle := by
  cases record <;> rfl

end RegistryRecord

end TorrentNG.Session
