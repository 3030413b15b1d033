import Mathlib.Data.Finset.Card
import TorrentNG.BarrierHistory
import TorrentNG.Metainfo
import TorrentNG.ResumeContainer

/-!
# Resume records over the life of a torrent

A torrent task completes pieces and saves resume records. Every save first runs a
barrier over the payload files; its outcome decides what the record says and whether
the list of dirty pieces starts afresh. The history of a task is the sequence of its
completions and saves, with any outcome of every barrier.

Seen from outside a history is one of writes and barriers. The main result says which
records can be trusted after a host crash: those of a failed barrier are the ones that
can be wrong, because they keep the default claim to be synced while an earlier save
without a barrier has emptied the list. The pieces that a stored record marks as valid
are the completed ones in any case.
-/

namespace TorrentNG.CrashSafety

open BarrierHistory Fallible Fastresume FastresumeState List MachineArithmetic Metainfo Utf8

/-! ## The dirty-piece tracker -/

def maxRuntimeDirtyPieces : Nat := 65536

/-- The set of dirty pieces; once it has grown too large it is dropped. -/
structure DirtyPieceTracker where
  pieces : List Nat
  overflowed : Bool
  distinct : pieces.Nodup
  few : pieces.length ≤ maxRuntimeDirtyPieces
  dropped : overflowed = true → pieces = []

namespace DirtyPieceTracker

def empty : DirtyPieceTracker := ⟨[], false, by simp, by simp, by simp⟩

def insert (tracker : DirtyPieceTracker) (piece : Nat) : DirtyPieceTracker :=
  if known : tracker.overflowed = true ∨ piece ∈ tracker.pieces then tracker
  else if full : tracker.pieces.length ≥ maxRuntimeDirtyPieces then
    ⟨[], true, by simp, by simp, by simp⟩
  else
    ⟨piece :: tracker.pieces, tracker.overflowed,
      List.nodup_cons.mpr ⟨fun member => known (Or.inr member), tracker.distinct⟩,
      by simp only [List.length_cons]; omega, fun overflowed => absurd (Or.inl overflowed) known⟩

/-- The tracker stands for the pieces completed since it was emptied. -/
structure Represents (tracker : DirtyPieceTracker) (items : List Nat) : Prop where
  overflowed : tracker.overflowed = true ↔ maxRuntimeDirtyPieces < items.toFinset.card
  pieces : tracker.overflowed = false → tracker.pieces.toFinset = items.toFinset

theorem represents_empty : empty.Represents [] := ⟨by simp [empty], fun _ => rfl⟩

theorem Represents.insert {tracker : DirtyPieceTracker} {items : List Nat}
    (represents : tracker.Represents items) (piece : Nat) :
    (tracker.insert piece).Represents (items ++ [piece]) := by
  have grown : (items ++ [piece]).toFinset = Insert.insert piece items.toFinset := by
    ext other
    simp
  have monotone : items.toFinset.card ≤ (items ++ [piece]).toFinset.card := by
    rw [grown]
    exact Finset.card_le_card (Finset.subset_insert _ _)
  rw [DirtyPieceTracker.insert]
  split_ifs with known full
  · rcases known with overflowed | member
    · have many := represents.overflowed.mp overflowed
      exact ⟨⟨fun _ => by omega, fun _ => overflowed⟩,
        fun fits => absurd (overflowed.symm.trans fits) (by simp)⟩
    · have fits : tracker.overflowed = false := by
        by_contra other
        have dropped := tracker.dropped (by simpa using other)
        rw [dropped] at member
        cases member
      have same : (items ++ [piece]).toFinset = items.toFinset := by
        rw [grown, ← represents.pieces fits, Finset.insert_eq_of_mem (by simpa using member)]
      exact ⟨by rw [same]; exact represents.overflowed, fun _ => by
        rw [same]; exact represents.pieces fits⟩
  all_goals
    obtain ⟨inside, fresh⟩ := not_or.mp known
    have fits : tracker.overflowed = false := by simpa using inside
    have card : (items ++ [piece]).toFinset.card = tracker.pieces.length + 1 := by
      rw [grown, ← represents.pieces fits, Finset.card_insert_of_notMem (by simpa using fresh),
        toFinset_card_of_nodup tracker.distinct]
  · exact ⟨⟨fun _ => by omega, fun _ => rfl⟩, fun impossible => by cases impossible⟩
  · refine ⟨⟨fun overflowed => absurd overflowed inside, fun many => by omega⟩, fun _ => ?_⟩
    rw [grown, ← represents.pieces fits, toFinset_cons]

end DirtyPieceTracker

/-! ## Tasks and saves -/

/-- What a task keeps of its torrent. The parser bounds the number of pieces, so the
casts of piece numbers to `u32` lose nothing. -/
structure Torrent where
  infoHash : List UInt8
  pieceCount : Nat
  few : pieceCount ≤ maxPieces

/-- The part of a task that saves read or change; `haves` is the picker's view. -/
structure TorrentTask where
  torrent : Torrent
  haves : List Bool
  dirtyPiecesSinceBarrier : DirtyPieceTracker
  fsyncUnsupported : Bool

inductive BarrierOutcome where
  | synced
  | skippedFast
  | unsupported
  | failed
deriving DecidableEq

inductive DurabilityMode where
  | fast
  | checkpoint
  | strict
deriving DecidableEq

/-- What `sync_all_open_files` returns. -/
inductive SyncResult where
  | ok
  | operationUnsupported
  | otherError
deriving DecidableEq

/-- What a save takes from outside: the arguments and counters, the picker's partial
pieces, the pieces being assembled in memory and those of them that were flushed, the
identity of the run, the hints collected from the files and the clock. -/
structure SaveContext where
  fullVerify : Bool
  uploaded : Nat
  downloaded : Nat
  partialPieces : List (Nat × List Nat)
  assemblies : List Nat
  durableAssemblies : List Nat
  bootId : Option Text
  runId : Nat
  lastDataWriteUnix : Nat
  fileHints : List FileHint
  nowUnix : Nat

namespace TorrentTask

/-- A task without pieces. -/
def new (torrent : Torrent) : TorrentTask :=
  ⟨torrent, List.replicate torrent.pieceCount false, .empty, false⟩

variable (task : TorrentTask)

def havePiece (piece : Nat) : Bool := task.haves[piece]?.getD false

/-- A verified piece: the picker has it and it is dirty. -/
def completePiece (piece : Nat) : TorrentTask :=
  { task with
    haves := task.haves.set piece true
    dirtyPiecesSinceBarrier := task.dirtyPiecesSinceBarrier.insert piece }

/-- Flush the payload; an unsupported operation is remembered. -/
def runBarrier (force : Bool) (mode : DurabilityMode) (sync : SyncResult) :
    BarrierOutcome × TorrentTask :=
  if task.fsyncUnsupported then (.unsupported, task)
  else if !force && mode = .fast then (.skippedFast, task)
  else
    match sync with
    | .ok => (.synced, task)
    | .operationUnsupported => (.unsupported, { task with fsyncUnsupported := true })
    | .otherError => (.failed, task)

variable (context : SaveContext)

/-- The record before the barrier. -/
def snapshot : FastresumeState :=
  let state := newEmpty task.torrent.infoHash task.torrent.pieceCount .requireVerification
  let state := { state with
    pieces := state.pieces.mapIdx fun piece _ =>
      if task.havePiece piece then .valid else .unknown
    partialPieces := (context.partialPieces.filter fun entry =>
      !context.assemblies.contains entry.1 || context.durableAssemblies.contains entry.1).map
        fun entry => ⟨entry.1, entry.2⟩
    uploadedBytes := context.uploaded
    downloadedBytes := context.downloaded }
  if task.dirtyPiecesSinceBarrier.overflowed then state
  else state.setDirtyPiecesSinceBarrier task.dirtyPiecesSinceBarrier.pieces

/-- What the outcome of the barrier makes of the record and of the tracker. -/
def settle (state : FastresumeState) :
    BarrierOutcome → FastresumeState × TorrentTask
  | .synced =>
      (state.completeDurabilityBarrier, { task with dirtyPiecesSinceBarrier := .empty })
  | .skippedFast | .unsupported =>
      (state.completeDurabilityBarrier.markSavedWithoutDataSync,
        { task with dirtyPiecesSinceBarrier := .empty })
  | .failed => ({ state with cleanShutdown := false }, task)

/-- A save, given the outcome of its barrier. -/
def saveAfterBarrier (barrier : BarrierOutcome) :
    FastresumeState × TorrentTask :=
  let (state, task) := task.settle (task.snapshot context) barrier
  ({ state with
      durability := { state.durability with
        bootId := context.bootId
        savedByRunId := context.runId
        lastDataWriteUnix := context.lastDataWriteUnix }
      fileHints := context.fileHints
      lastFullVerify := if context.fullVerify then context.nowUnix else state.lastFullVerify }, task)

def saveFastresumeWith (forceSync : Bool)
    (mode : DurabilityMode) (sync : SyncResult) : FastresumeState × TorrentTask :=
  let (barrier, task) := task.runBarrier forceSync mode sync
  task.saveAfterBarrier context barrier

end TorrentTask

open TorrentTask

/-! ## Histories -/

/-- A step of a task; `stored` says whether the record of a save reached the store. -/
inductive Step where
  | complete (piece : Nat)
  | save (context : SaveContext) (barrier : BarrierOutcome) (stored : Bool)

/-- The task after a step and the record it persisted. -/
def TorrentTask.step (task : TorrentTask) : Step → TorrentTask × Option FastresumeState
  | .complete piece => (task.completePiece piece, none)
  | .save context barrier stored =>
      let (state, task) := task.saveAfterBarrier context barrier
      (task, if stored then some state else none)

def TorrentTask.run (task : TorrentTask) (history : List Step) : TorrentTask :=
  history.foldl (fun task step => (task.step step).1) task

/-- A step as a write or a barrier: a save that did not sync and yet empties the tracker
forgets. -/
def Step.event : Step → Event Nat
  | .complete piece => .write piece
  | .save _ .synced _ => .sync
  | .save _ .skippedFast _ => .forget
  | .save _ .unsupported _ => .forget
  | .save _ .failed _ => .fail

def trace (history : List Step) : List (Event Nat) := history.map Step.event

/-- What a task knows of its history: the pieces it has, and in its tracker those it
completed since the tracker was emptied. -/
structure Follows (torrent : Torrent) (task : TorrentTask) (events : List (Event Nat)) :
    Prop where
  same : task.torrent = torrent
  width : task.haves.length = torrent.pieceCount
  haves : ∀ piece, task.havePiece piece = true ↔
    piece < torrent.pieceCount ∧ .write piece ∈ events
  tracker : task.dirtyPiecesSinceBarrier.Represents (tracked events)

theorem follows_new (torrent : Torrent) : Follows torrent (.new torrent) [] := by
  refine ⟨rfl, length_replicate, fun piece => ?_, DirtyPieceTracker.represents_empty⟩
  simp only [havePiece, TorrentTask.new, getElem?_replicate]
  split_ifs <;> simp

variable {torrent : Torrent} {task : TorrentTask} {events : List (Event Nat)}
  (follows : Follows torrent task events)

namespace Follows

include follows

theorem complete (piece : Nat) :
    Follows torrent (task.completePiece piece) (events ++ [.write piece]) := by
  refine ⟨follows.same, (length_set ..).trans follows.width, fun other => ?_, ?_⟩
  · have earlier := follows.haves other
    simp only [havePiece, completePiece] at earlier ⊢
    by_cases same : other = piece
    · subst same
      rw [getElem?_set_self', ← follows.width]
      by_cases inside : other < task.haves.length
      · simp [inside]
      · simp [inside]
    · rw [getElem?_set_ne (Ne.symm same), earlier]
      simp [same]
  · rw [tracked_append]
    exact follows.tracker.insert piece

/-- A save leaves the pieces alone; its barrier empties the tracker, or does not. -/
theorem save (context : SaveContext) (barrier : BarrierOutcome) (stored : Bool) :
    Follows torrent (task.saveAfterBarrier context barrier).2
      (events ++ [(Step.save context barrier stored).event]) := by
  have unwritten : ∀ piece, .write piece ≠ (Step.save context barrier stored).event := by
    intro piece
    cases barrier <;> simp [Step.event]
  have kept : (task.saveAfterBarrier context barrier).2.torrent = task.torrent ∧
      (task.saveAfterBarrier context barrier).2.haves = task.haves := by
    cases barrier <;> exact ⟨rfl, rfl⟩
  refine ⟨kept.1.trans follows.same, by rw [kept.2, follows.width], fun piece => ?_, ?_⟩
  · rw [havePiece, kept.2, ← havePiece, follows.haves piece, mem_append, mem_singleton]
    simp [unwritten piece]
  · rw [tracked_append]
    cases barrier with
    | synced | skippedFast | unsupported => exact DirtyPieceTracker.represents_empty
    | failed => exact follows.tracker

theorem step (step : Step) : Follows torrent (task.step step).1 (events ++ [step.event]) := by
  cases step with
  | complete piece => exact follows.complete piece
  | save context barrier stored => exact follows.save context barrier stored

end Follows

theorem follows_run (torrent : Torrent) (history : List Step) :
    Follows torrent ((TorrentTask.new torrent).run history) (trace history) := by
  induction history using List.reverseRecOn with
  | nil => exact follows_new torrent
  | append_singleton history step ih =>
    rw [TorrentTask.run, foldl_append, trace, map_append]
    exact ih.step step

/-! ## What a record says -/

/-- The record of a failed barrier claims to be synced. -/
theorem saved_failed_synced (task : TorrentTask) (context : SaveContext) :
    (task.saveAfterBarrier context .failed).1.durability.synced = true := by
  rw [saveAfterBarrier, snapshot]
  split_ifs <;> rfl

section Records
variable (context : SaveContext)
include follows

theorem snapshot_pieces {piece : Nat} : (task.snapshot context).pieces[piece]? = some .valid ↔
      piece < torrent.pieceCount ∧ .write piece ∈ events := by
  have pieces : (task.snapshot context).pieces =
      (List.replicate task.torrent.pieceCount PieceState.unknown).mapIdx fun piece _ =>
        if task.havePiece piece then .valid else .unknown := by
    rw [snapshot]
    split_ifs <;> rfl
  rw [pieces, getElem?_mapIdx, getElem?_replicate, ← follows.haves, follows.same]
  have inside := (follows.haves piece).mp
  by_cases owned : task.havePiece piece = true
  · simp [owned, (inside owned).1]
  · simp [owned]

/-- Every record marks the completed pieces as valid. -/
theorem saved_marksValid (barrier : BarrierOutcome) (piece : Nat) :
    (task.saveAfterBarrier context barrier).1.MarksValid piece ↔
      piece < torrent.pieceCount ∧ .write piece ∈ events := by
  rw [← snapshot_pieces follows context]
  cases barrier <;> rfl

/-- Every record passes its own check. -/
theorem saved_validates (barrier : BarrierOutcome) :
    (task.saveAfterBarrier context barrier).1.validate torrent.infoHash torrent.pieceCount =
      .ok () := by
  have version : (task.saveAfterBarrier context barrier).1.version = fastresumeVersion ∧
      (task.saveAfterBarrier context barrier).1.infoHash = hexEncode task.torrent.infoHash ∧
      (task.saveAfterBarrier context barrier).1.pieces = (task.snapshot context).pieces := by
    rw [saveAfterBarrier, snapshot]
    cases barrier <;> split_ifs <;> exact ⟨rfl, rfl, rfl⟩
  have width : (task.snapshot context).pieces.length = torrent.pieceCount := by
    rw [← follows.same, snapshot]
    split_ifs <;> simp [newEmpty, setDirtyPiecesSinceBarrier]
  have small : torrent.pieceCount < 2 ^ 32 := torrent.few.trans_lt (by decide)
  simpa [validate, version, follows.same, width] using small

/-- The record of a failed barrier lists the tracked pieces unless there are too many. -/
theorem saved_failed_dirty (piece : Nat) :
    piece ∈ (task.saveAfterBarrier context .failed).1.durability.dirtyPiecesSinceBarrier ↔
      (tracked events).toFinset.card ≤ maxRuntimeDirtyPieces ∧ piece ∈ tracked events ∧
        piece < torrent.pieceCount := by
  have kept : (task.saveAfterBarrier context .failed).1.durability.dirtyPiecesSinceBarrier =
      (task.snapshot context).durability.dirtyPiecesSinceBarrier := rfl
  have limit := follows.tracker.overflowed
  rw [kept, snapshot]
  split_ifs with overflowed
  · have many := limit.mp overflowed
    simp only [newEmpty, not_mem_nil, false_iff]
    omega
  · have fits : task.dirtyPiecesSinceBarrier.overflowed = false := by simpa using overflowed
    have few : (tracked events).toFinset.card ≤ maxRuntimeDirtyPieces :=
      Nat.not_lt.mp fun many => overflowed (limit.mpr many)
    have same : piece ∈ task.dirtyPiecesSinceBarrier.pieces ↔ piece ∈ tracked events := by
      rw [← mem_toFinset, follows.tracker.pieces fits, mem_toFinset]
    simp only [setDirtyPiecesSinceBarrier, mem_filter, SortedSlices.mem_dedup,
      (SortedSlices.sortBy_perm compare _).mem_iff, same]
    simp [few, newEmpty, follows.same]

end Records

/-! ## Which records are covered -/

/-- The tracker has dropped its pieces. -/
def Overflowed (events : List (Event Nat)) : Prop :=
  maxRuntimeDirtyPieces < (tracked events).toFinset.card

/-- A record that claims to be synced marks as valid what it lists and what a barrier
has covered. -/
def RecordCovers (events : List (Event Nat)) (record : FastresumeState) : Prop :=
  record.durability.synced = true → ∀ piece, record.MarksValid piece →
    piece ∉ record.durability.dirtyPiecesSinceBarrier → Covered events piece

/-- A record of an earlier run that is trusted after a host crash, under the watermark
policy, marks as valid what a barrier has covered, once its watermark was applied. -/
def RecoveryCovers (events : List (Event Nat)) (record : FastresumeState) : Prop :=
  ∀ input downgraded state, input.previousRun.mayBeHostCrash = true →
    input.stateSavedThisRun = false → input.policy = .watermark →
    input.stateSynced = record.durability.synced → decideRecovery input = .trust →
    record.applyUncleanShutdownWatermark = (some downgraded, state) →
    ∀ piece, state.MarksValid piece → Covered events piece

/-- Nothing is forgotten, and nothing is missing because the tracker overflowed. -/
def Accounted (torrent : Torrent) (events : List (Event Nat)) : Prop :=
  ∀ piece < torrent.pieceCount, ¬Forgotten events piece ∧
    (Overflowed events → piece ∈ tracked events → Covered events piece)

/-- Nothing is forgotten when there is something to list. -/
def ListsAll (torrent : Torrent) (events : List (Event Nat)) : Prop :=
  ¬Overflowed events → (∃ piece < torrent.pieceCount, piece ∈ tracked events) →
    ∀ piece < torrent.pieceCount, ¬Forgotten events piece

section Saves
variable (context : SaveContext) (stored : Bool)
include follows

theorem recordCovers_iff (barrier : BarrierOutcome) :
    RecordCovers (events ++ [(Step.save context barrier stored).event])
        (task.saveAfterBarrier context barrier).1 ↔
      (barrier = .failed → Accounted torrent events) := by
  have marks := saved_marksValid follows context barrier
  simp only [RecordCovers, marks, covered_append]
  cases barrier with
  | synced => simp +contextual [Step.event]
  | skippedFast | unsupported =>
    simp [saveAfterBarrier, settle, markSavedWithoutDataSync]
  | failed =>
    simp only [saved_failed_synced, saved_failed_dirty follows context, Step.event, reduceCtorEq, false_and,
      or_false, forall_const, Accounted, Overflowed]
    constructor
    · intro covers piece inside
      refine ⟨fun forgotten => ?_, fun overflowed remembered => ?_⟩
      · obtain ⟨written, uncovered, unlisted⟩ := (forgotten_iff events).mp forgotten
        exact uncovered (covers piece ⟨inside, written⟩ fun listed => unlisted listed.2.1)
      · exact covers piece ⟨inside, written_of_tracked events remembered⟩
          fun listed => absurd listed.1 (Nat.not_le.mpr overflowed)
    · rintro accounted piece ⟨inside, written⟩ unlisted
      obtain ⟨remembered, limited⟩ := accounted piece inside
      by_contra uncovered
      by_cases member : piece ∈ tracked events
      · refine unlisted ⟨Nat.not_lt.mp fun overflowed => uncovered (limited overflowed member),
          member, inside⟩
      · exact remembered ((forgotten_iff events).mpr ⟨written, uncovered, member⟩)

theorem recoveryCovers_iff (barrier : BarrierOutcome) :
    RecoveryCovers (events ++ [(Step.save context barrier stored).event])
        (task.saveAfterBarrier context barrier).1 ↔
      (barrier = .failed → ListsAll torrent events) := by
  have marks := saved_marksValid follows context barrier
  have applied := applyUncleanShutdownWatermark_valid (task.saveAfterBarrier context barrier).1
  cases barrier with
  | synced =>
    simp only [reduceCtorEq, false_implies, iff_true]
    intro input downgraded state _ _ _ _ _ used piece valid
    rw [covered_append]
    exact Or.inr ⟨rfl, ((marks piece).mp ((applied state downgraded piece used).2.mp valid).1).2⟩
  | skippedFast | unsupported =>
    simp only [reduceCtorEq, false_implies, iff_true]
    intro input _ _ crashed earlier _ same trusted
    have unsynced : input.stateSynced = false := by
      rw [same]
      simp [saveAfterBarrier, settle, markSavedWithoutDataSync]
    simp [decideRecovery, crashed, earlier, unsynced] at trusted
  | failed =>
    have flagged := saved_failed_synced task context
    have unclean : (task.saveAfterBarrier context .failed).1.cleanShutdown = false := rfl
    have dirty := saved_failed_dirty follows context
    simp only [forall_const, covered_append, Step.event, reduceCtorEq, false_and, or_false,
      RecoveryCovers, ListsAll, Overflowed]
    constructor
    · rintro covers fits ⟨first, insideFirst, memberFirst⟩ piece inside forgotten
      obtain ⟨written, uncovered, unlisted⟩ := (forgotten_iff events).mp forgotten
      have listed := (dirty first).mpr ⟨Nat.not_lt.mp fits, memberFirst, insideFirst⟩
      obtain ⟨downgraded, state, used⟩ := exists_applyUncleanShutdownWatermark
        (ne_nil_of_mem listed)
      refine uncovered (covers (.watermark true) downgraded state rfl rfl rfl flagged.symm rfl used
        piece ((applied state downgraded piece used).2.mpr ⟨(marks piece).mpr ⟨inside, written⟩,
          Or.inr fun member => unlisted ((dirty piece).mp member).2.1⟩))
    · intro lists input downgraded state _ _ _ _ _ used piece valid
      obtain ⟨usable, after⟩ := applied state downgraded piece used
      obtain ⟨marked, kept⟩ := after.mp valid
      obtain ⟨inside, written⟩ := (marks piece).mp marked
      simp only [unclean, Bool.false_eq_true, false_or] at usable kept
      obtain ⟨first, listed⟩ := exists_mem_of_ne_nil _ usable
      obtain ⟨few, member, insideFirst⟩ := (dirty first).mp listed
      by_contra uncovered
      refine lists (Nat.not_lt.mpr few) ⟨first, insideFirst, member⟩ piece inside
        ((forgotten_iff events).mpr ⟨written, uncovered, fun remembered => ?_⟩)
      exact kept ((dirty piece).mpr ⟨few, remembered, inside⟩)

end Saves

/-- The records that a task persists over a history: the history up to each of them, with
its save, and the record. -/
def Persists (torrent : Torrent) (history prior : List Step) (record : FastresumeState) : Prop :=
  ∃ before step after, history = before ++ step :: after ∧ prior = before ++ [step] ∧
    (((TorrentTask.new torrent).run before).step step).2 = some record

/-- All persisted records are right exactly when those of failed barriers are. -/
theorem forall_persists_iff (torrent : Torrent) (history : List Step)
    {Right : List (Event Nat) → FastresumeState → Prop} {Condition : List (Event Nat) → Prop}
    (right_iff : ∀ {task events}, Follows torrent task events → ∀ context stored barrier,
      Right (events ++ [(Step.save context barrier stored).event])
        (task.saveAfterBarrier context barrier).1 ↔ (barrier = .failed → Condition events)) :
    (∀ prior record, Persists torrent history prior record → Right (trace prior) record) ↔
      ∀ before context after, history = before ++ .save context .failed true :: after →
        Condition (trace before) := by
  have extended : ∀ before (step : Step), trace (before ++ [step]) = trace before ++ [step.event] :=
    fun before step => map_append
  constructor
  · intro right before context after split
    refine (right_iff (follows_run torrent before) context true .failed).mp ?_ rfl
    rw [← extended]
    exact right _ _ ⟨before, _, after, split, rfl, rfl⟩
  · rintro condition prior record ⟨before, step, after, split, rfl, persisted⟩
    cases step with
    | complete piece => cases persisted
    | save context barrier stored =>
      cases stored with
      | false => cases persisted
      | true =>
        obtain rfl := Option.some.inj persisted
        rw [extended]
        refine (right_iff (follows_run torrent before) context true barrier).mpr ?_
        rintro rfl
        exact condition before context after split

/-- Crash safety of resume records. Over any history, all persisted records that claim
to be synced mark only listed and covered pieces exactly when no failed barrier finds
a piece that is forgotten, or an overflowed tracker with uncovered pieces. After a
host crash an overflow does no harm: then all trusted records are right exactly when
no failed barrier finds forgotten pieces while it has others to list. -/
theorem resume_records_covered_iff (torrent : Torrent) (history : List Step) :
    ((∀ prior record, Persists torrent history prior record →
        RecordCovers (trace prior) record) ↔
      ∀ before context after, history = before ++ .save context .failed true :: after →
        Accounted torrent (trace before)) ∧
    ((∀ prior record, Persists torrent history prior record →
        RecoveryCovers (trace prior) record) ↔
      ∀ before context after, history = before ++ .save context .failed true :: after →
        ListsAll torrent (trace before)) := by
  constructor
  · exact forall_persists_iff torrent history recordCovers_iff
  · exact forall_persists_iff torrent history recoveryCovers_iff

/-- A record passes its own check, and marks exactly the completed pieces as valid. -/
def RecordExact (torrent : Torrent) (events : List (Event Nat)) (record : FastresumeState) : Prop :=
  record.validate torrent.infoHash torrent.pieceCount = .ok () ∧
    ∀ piece, record.MarksValid piece ↔ piece < torrent.pieceCount ∧ .write piece ∈ events

section

variable {torrent : Torrent} {history prior : List Step} {record : FastresumeState}

theorem RecordExact.readBack {events : List (Event Nat)}
    (correct : RecordExact torrent events record) :
    RecordExact torrent events { record with pieces := record.pieces.map PieceState.readBack } := by
  refine ⟨?_, fun piece => Iff.trans ?_ (correct.2 piece)⟩
  · have valid := correct.1
    rw [validate] at valid ⊢
    rw [length_map]
    exact valid
  · rw [MarksValid, MarksValid, getElem?_map]
    cases record.pieces[piece]? with
    | none => rfl
    | some state => cases state <;> decide

theorem recordExact_of_persists (persisted : Persists torrent history prior record) :
    RecordExact torrent (trace prior) record := by
  refine (@forall_persists_iff torrent history (RecordExact torrent) (fun _ => True) ?_).mpr
    (fun _ _ _ _ => trivial) prior record persisted
  intro task events follows context stored barrier
  refine iff_of_true ⟨saved_validates follows context barrier, fun piece => ?_⟩ fun _ => trivial
  rw [saved_marksValid follows context, mem_append]
  cases barrier <;> simp [Step.event]

/-- Whatever became of the barriers, every record that was stored is read back as one that says
what was completed before it. -/
theorem stored_records_exact (json : HeaderJson) (persisted : Persists torrent history prior record)
    (limits : record.WithinLimits)
    (readBack : json.parse (json.toVec record.header) = .ok record.header) (bytes : List UInt8)
    (encoded : encodeContainer json record = .ok bytes) :
    ∃ loaded, decodeContainer json bytes = .ok loaded ∧ RecordExact torrent (trace prior) loaded := by
  obtain ⟨_, counted, encoded⟩ := bind_eq_ok.mp encoded
  obtain ⟨_, measured, encoded⟩ := bind_eq_ok.mp encoded
  obtain ⟨rfl, _⟩ := toU32_eq_some.mp (okOr_eq_ok.mp counted)
  obtain ⟨rfl, short⟩ := toU32_eq_some.mp (okOr_eq_ok.mp measured)
  cases encoded
  exact ⟨_, decodeContainer_encoded json limits readBack short,
    (recordExact_of_persists persisted).readBack⟩

end

def twoPieces : Torrent := ⟨[], 2, by decide⟩

def quietContext : SaveContext := ⟨false, 0, 0, [], [], [], none, 0, 0, [], 0⟩

/-- A piece is completed and saved in `fast` mode, then another; the forced barrier of
the next save fails. -/
def skippedThenFailed : List Step :=
  [.complete 0, .save quietContext .skippedFast true, .complete 1,
    .save quietContext .failed true]

/-- The record of the second save, as the calls of a task in `fast` mode make it. -/
def failedRecord : FastresumeState :=
  let task := ((TorrentTask.new twoPieces).completePiece 0)
  let (_, task) := task.saveFastresumeWith quietContext false .fast .ok
  ((task.completePiece 1).saveFastresumeWith quietContext true .fast .otherError).1

/-- That record claims to be synced and lists only the second piece. It is trusted after
a host crash, and the first piece stays valid though no barrier of the history has
succeeded. -/
theorem skipped_then_failed_trusted :
    Persists twoPieces skippedThenFailed skippedThenFailed failedRecord ∧
    failedRecord.durability.synced = true ∧ failedRecord.MarksValid 0 ∧
    failedRecord.durability.dirtyPiecesSinceBarrier = [1] ∧
    decideRecovery (.watermark failedRecord.durability.synced) = .trust ∧
    failedRecord.applyUncleanShutdownWatermark.1 = some 1 ∧
    failedRecord.applyUncleanShutdownWatermark.2.MarksValid 0 ∧
    .sync ∉ trace skippedThenFailed ∧ ¬Covered (trace skippedThenFailed) 0 := by
  have unsynced : .sync ∉ trace skippedThenFailed := by decide
  refine ⟨⟨[.complete 0, .save quietContext .skippedFast true, .complete 1], _, [], rfl, rfl, rfl⟩,
    by decide, by decide, by decide, by decide, by decide, by decide, unsynced, ?_⟩
  rintro ⟨before, after, split, _⟩
  exact unsynced (by rw [split]; simp)

theorem failed_record_read_back :
    ∃ loaded, decodeContainer
        (onlyHeader failedRecord.header (headerText "RequireVerification" "1"))
        ([0x52, 0x54, 0x46, 0x32, 1, 0x62, 1, 0, 0] ++ headerText "RequireVerification" "1" ++
          [2, 0, 0, 0, 0xc0]) = .ok loaded ∧
      RecordExact twoPieces (trace skippedThenFailed) loaded :=
  @stored_records_exact twoPieces skippedThenFailed skippedThenFailed failedRecord _
    ⟨[.complete 0, .save quietContext .skippedFast true, .complete 1], _, [], rfl, rfl, rfl⟩
    ⟨by decide, by decide, by decide, by decide, by decide⟩ (onlyHeader_reads _ _) _
    (by decide +kernel)

end TorrentNG.CrashSafety
