import TorrentNG.PartialData
import TorrentNG.PeerTransfer
import TorrentNG.PickChoices

/-!
# The counts of a swarm

The picker counts, for each piece, the active peers that have it. The counts are changed
piece by piece when a peer announces what it has, and taken back on each of the ways in which
a peer leaves. `Counted` says that they are exact. The counts are clamped at `2 ^ 32 - 1`, so
there must never be `2 ^ 32` active peers.
-/

namespace TorrentNG

namespace Picker.PiecePicker

/-- Calls that announce nothing leave the counts alone. -/
theorem run_counts (picker : PiecePicker) {calls : List Call}
    (silent : ∀ call ∈ calls, announces call = false) :
    (picker.run calls).availability.counts = picker.availability.counts := by
  induction calls generalizing picker with
  | nil => rfl
  | cons call rest ih =>
    rw [run_cons, ih _ fun other listed => silent other (.tail _ listed)]
    exact (step_passes picker (silent call List.mem_cons_self)).adjusted.counts

end Picker.PiecePicker

namespace Transfer

open Download List MachineArithmetic Metainfo Picker PieceBitmap PiecePicker Pieces Tables
open TransferTask

/-! ## Announcements -/

theorem PieceBitmap.len_set (bitmap : PieceBitmap) (index : Nat) (value : Bool) :
    (bitmap.set index value).len = bitmap.len := length_set

theorem PieceBitmap.hasPiece_outside {bitmap : PieceBitmap} {piece : Nat}
    (outside : bitmap.len ≤ piece) : bitmap.hasPiece piece = false := by
  rw [hasPiece, getElem?_eq_none outside]
  rfl

/-- Every announcement becomes a bitmap with a flag for each piece. -/
theorem Announcement.len_pieces (announced : Announcement) (pieceCount : Nat) :
    (announced.pieces pieceCount).len = pieceCount := by
  cases announced with
  | haveAll | haveNone => exact length_replicate
  | bitfield bits =>
    refine List.foldlRecOn (motive := fun bitmap : PieceBitmap => bitmap.len = pieceCount) bits.zipIdx
      _ length_replicate ?_
    intro bitmap kept entry _
    refine List.foldlRecOn (motive := fun bitmap : PieceBitmap => bitmap.len = pieceCount) _ _ kept ?_
    intro bitmap kept bit _
    split
    · rwa [len_set]
    · exact kept

/-- How the count of a piece follows one peer. -/
def recounted (old new : Bool) (count : Nat) : Nat :=
  match old, new with
  | false, true => min (count + 1) (2 ^ 32 - 1)
  | true, false => count - 1
  | _, _ => count

/-- One round of `reconcile_peer_availability`. -/
def follow (old new : Bool) (availability : Availability) (piece : Nat) : Availability :=
  match old, new with
  | false, true => availability.addHave piece
  | true, false => availability.removeHave piece
  | _, _ => availability

section

variable (availability : Availability)

include availability

theorem follow_spec (old new : Bool) (piece : Nat) :
    (follow old new availability piece).counts.length = availability.counts.length ∧
      ∀ other, piece < availability.counts.length →
        (follow old new availability piece).count other =
          if piece = other then recounted old new (availability.count other)
          else availability.count other := by
  cases old <;> cases new
  · exact ⟨rfl, fun _ _ => (ite_self _).symm⟩
  · exact ⟨Availability.recount_length .., Availability.recount_count _ _ _⟩
  · exact ⟨Availability.recount_length .., Availability.recount_count _ _ _⟩
  · exact ⟨rfl, fun _ _ => (ite_self _).symm⟩

/-- After some rounds the counts of the pieces so far follow the peer. -/
theorem foldl_follow (old new : PieceBitmap) {rounds : Nat}
    (inside : rounds ≤ availability.counts.length) :
    let after := (List.range rounds).foldl (fun availability piece =>
      follow (old.hasPiece piece) (new.hasPiece piece) availability piece) availability
    after.counts.length = availability.counts.length ∧ ∀ piece, after.count piece =
      if piece < rounds then
        recounted (old.hasPiece piece) (new.hasPiece piece) (availability.count piece)
      else availability.count piece := by
  induction rounds with
  | zero => exact ⟨rfl, fun _ => rfl⟩
  | succ rounds ih =>
    obtain ⟨length, counts⟩ := ih (Nat.le_of_succ_le inside)
    rw [range_succ, foldl_append]
    refine ⟨(follow_spec ..).1.trans length, fun piece => ?_⟩
    refine ((follow_spec ..).2 piece (length ▸ inside)).trans ?_
    rw [counts piece]
    rcases Nat.lt_trichotomy piece rounds with before | rfl | behind
    · rw [if_neg before.ne', if_pos before, if_pos (before.trans (Nat.lt_succ_self _))]
    · rw [if_pos rfl, if_neg (Nat.lt_irrefl _), if_pos (Nat.lt_succ_self _)]
    · rw [if_neg behind.ne, if_neg behind.not_gt, if_neg (Nat.not_lt.mpr behind)]

theorem reconcilePeerAvailability_count (old new : PieceBitmap) :
    (reconcilePeerAvailability availability old new).counts.length = availability.counts.length ∧
      ∀ piece, piece < availability.counts.length →
        (reconcilePeerAvailability availability old new).count piece =
          recounted (old.hasPiece piece) (new.hasPiece piece) (availability.count piece) := by
  obtain ⟨length, counts⟩ := foldl_follow availability old new le_rfl
  exact ⟨length, fun piece inside => (counts piece).trans (if_pos inside)⟩

/-- A peer that leaves has nothing any more. -/
theorem removePeerAvailability_eq (peerHas : PieceBitmap) :
    removePeerAvailability availability peerHas =
      reconcilePeerAvailability availability peerHas ⟨[]⟩ := by
  unfold removePeerAvailability reconcilePeerAvailability
  congr 1
  funext availability piece
  have nothing : hasPiece ⟨[]⟩ piece = false := rfl
  cases peerHas.hasPiece piece <;> rfl

end

/-! ## The peers that have a piece -/

section Owners

variable {Address Id : Type} [DecidableEq Address]

/-- The number of peers that have a piece. -/
def owners (peers : Table Address (PeerHandle Id)) (piece : Nat) : Nat :=
  (values peers).countP fun handle => handle.peerHas.hasPiece piece

variable {peers : Table Address (PeerHandle Id)} {peer : Address} {handle : PeerHandle Id}

omit [DecidableEq Address] in
theorem owners_le_size (peers : Table Address (PeerHandle Id)) (piece : Nat) :
    owners peers piece ≤ size peers := by
  rw [← length_values]
  exact countP_le_length

theorem owners_erase (present : peers.lookup peer = some handle) (piece : Nat) :
    owners peers piece = owners (peers.erase peer) piece + (handle.peerHas.hasPiece piece).toNat := by
  rw [owners, (values_perm_erase present).countP_eq, countP_cons, owners]
  cases handle.peerHas.hasPiece piece <;> rfl

theorem owners_insert (handle : PeerHandle Id) (piece : Nat) :
    owners (peers.insert peer handle) piece =
      owners (peers.erase peer) piece + (handle.peerHas.hasPiece piece).toNat := by
  rw [owners, values_insert, countP_cons, owners]
  cases handle.peerHas.hasPiece piece <;> rfl

end Owners

/-! ## Exact counts -/

section Exact

variable {Address Id : Type} [DecidableEq Address]

/-- The bitmaps have a flag for each piece, and every count is the number of peers. -/
structure Counted (task : TransferTask Address Id) : Prop where
  pieces : task.download.pieces.length = task.picker.pieceCount
  counts : task.picker.availability.counts.length = task.picker.pieceCount
  bitmaps : ∀ peer handle, task.activePeers.lookup peer = some handle →
    handle.peerHas.len = task.picker.pieceCount
  few : size task.activePeers < 2 ^ 32
  exact : ∀ piece, task.picker.availability.count piece = owners task.activePeers piece

/-- The picker and the download go on without an announcement. -/
structure Silent (before after : DownloadTask) : Prop where
  pieces : after.pieces = before.pieces
  pieceCount : after.picker.pieceCount = before.picker.pieceCount
  counts : after.picker.availability.counts = before.picker.availability.counts

variable {task : TransferTask Address Id} {peer : Address} {handle : PeerHandle Id}

/-- The count follows one peer while the others stay. -/
theorem recounted_exact (old : Bool) {new : Bool} {others : Nat} (room : others + new.toNat < 2 ^ 32) :
    recounted old new (others + old.toNat) = others + new.toNat := by
  cases old <;> cases new
  · rfl
  · rw [recounted]
    simp only [Bool.toNat_true] at room
    rw [Bool.toNat_false, Bool.toNat_true]
    omega
  · rfl
  · rfl

variable (counted : Counted task)

include counted

theorem Counted.silent {download : DownloadTask} (silent : Silent task.download download) :
    Counted { task with download } := by
  have count : ∀ piece, download.picker.availability.count piece =
      task.picker.availability.count piece := by
    intro piece
    rw [Availability.count, silent.counts]
    rfl
  refine ⟨?_, ?_, ?_, counted.few, fun piece => (count piece).trans (counted.exact piece)⟩
  · exact (congrArg List.length silent.pieces).trans (counted.pieces.trans silent.pieceCount.symm)
  · exact (congrArg List.length silent.counts).trans (counted.counts.trans silent.pieceCount.symm)
  · exact fun peer handle present =>
      (counted.bitmaps peer handle present).trans silent.pieceCount.symm

theorem Counted.bitmaps_insert {after : PeerHandle Id}
    (len : after.peerHas.len = task.picker.pieceCount) (other : Address) (found : PeerHandle Id)
    (stored : (task.activePeers.insert peer after).lookup other = some found) :
    found.peerHas.len = task.picker.pieceCount := by
  rcases lookup_insert_eq_some.mp stored with ⟨_, rfl⟩ | ⟨_, stored⟩
  · exact len
  · exact counted.bitmaps other found stored

/-- A peer changes in something else than what it has. -/
theorem Counted.withPeer (present : task.activePeers.lookup peer = some handle)
    {after : PeerHandle Id} (same : after.peerHas = handle.peerHas) :
    Counted (task.withPeer peer after) := by
  refine ⟨counted.pieces, counted.counts, ?_, ?_, fun piece => ?_⟩
  · apply counted.bitmaps_insert
    rw [same]
    exact counted.bitmaps peer handle present
  · exact (size_replace present after).trans_lt counted.few
  · rw [show (task.withPeer peer after).picker = task.picker from rfl, counted.exact]
    show _ = owners (task.activePeers.insert peer after) piece
    rw [owners_insert, same, ← owners_erase present]

theorem Counted.outside {piece : Nat} (outside : task.picker.pieceCount ≤ piece) :
    owners task.activePeers piece = 0 := by
  rw [← counted.exact, Availability.count, getElem?_eq_none (counted.counts.trans_le outside)]
  rfl

section

variable (present : task.activePeers.lookup peer = some handle) {pieces : PieceBitmap}
  {availability : Availability}
  (length : availability.counts.length = task.picker.availability.counts.length)
  (follows : ∀ piece, piece < task.picker.availability.counts.length →
    availability.count piece = recounted (handle.peerHas.hasPiece piece) (pieces.hasPiece piece)
      (task.picker.availability.count piece))

include present length follows

/-- The counts follow what one peer has while the others stay. -/
theorem Counted.recount (len : pieces.len ≤ task.picker.pieceCount) (piece : Nat) :
    availability.count piece =
      owners (task.activePeers.erase peer) piece + (pieces.hasPiece piece).toNat := by
  by_cases inside : piece < task.picker.pieceCount
  · have few := (size_replace present { handle with peerHas := pieces }).trans_lt counted.few
    have within := (owners_le_size _ piece).trans_lt few
    rw [owners_insert] at within
    rw [follows piece (counted.counts.symm ▸ inside), counted.exact, owners_erase present]
    exact recounted_exact _ within
  · have outside := Nat.le_of_not_lt inside
    have nothing : pieces.hasPiece piece = false := hasPiece_outside (len.trans outside)
    have none := counted.outside outside
    rw [owners_erase present] at none
    rw [nothing, Availability.count,
      getElem?_eq_none ((length.trans counted.counts).trans_le outside)]
    show 0 = owners (task.activePeers.erase peer) piece + 0
    omega

/-- What a peer has is replaced. -/
theorem Counted.follow (len : pieces.len = task.picker.pieceCount) :
    Counted ((task.withPicker { task.picker with availability }).withPeer peer
      { handle with peerHas := pieces }) := by
  refine ⟨counted.pieces, length.trans counted.counts, counted.bitmaps_insert len,
    (size_replace present _).trans_lt counted.few, fun piece => ?_⟩
  refine (counted.recount present length follows len.le piece).trans ?_
  exact (owners_insert { handle with peerHas := pieces } piece).symm

end

/-- A peer leaves. -/
theorem Counted.leave (present : task.activePeers.lookup peer = some handle) :
    Counted ((task.withPicker { task.picker with
      availability := removePeerAvailability task.picker.availability handle.peerHas }).withoutPeer
        peer) := by
  obtain ⟨length, follows⟩ :=
    reconcilePeerAvailability_count task.picker.availability handle.peerHas ⟨[]⟩
  rw [← removePeerAvailability_eq] at length follows
  refine ⟨counted.pieces, length.trans counted.counts, ?_, ?_, ?_⟩
  · intro other found stored
    exact counted.bitmaps other found (lookup_erase_eq_some.mp stored).2
  · exact (size_erase_le task.activePeers peer).trans_lt counted.few
  · exact counted.recount present length follows (Nat.zero_le _)

/-- A new peer has nothing. -/
theorem Counted.register (absent : task.activePeers.lookup peer = none)
    (room : size task.activePeers + 1 < 2 ^ 32) (id : Id) :
    Counted (task.registerPeer peer id) := by
  have nothing : ∀ piece, (PieceBitmap.new task.download.pieces.length).hasPiece piece = false := by
    intro piece
    exact (flag_replicate task.download.pieces.length piece false).trans (Bool.false_and _)
  refine ⟨counted.pieces, counted.counts, ?_, ?_, fun piece => ?_⟩
  · exact counted.bitmaps_insert (length_replicate.trans counted.pieces)
  · exact (size_insert_fresh absent _).trans_lt room
  · refine (counted.exact piece).trans (Eq.symm ?_)
    refine (owners_insert _ piece).trans ?_
    rw [erase_of_lookup_none absent, nothing]
    rfl

end Exact

/-! ## Silent operations -/

theorem works_silent (calls : List Call) {before after : DownloadTask}
    (works : DownloadTask.Works calls before after)
    (silent : ∀ call ∈ calls, announces call = false) : Silent before after := by
  refine ⟨works.pieces, ?_, ?_⟩
  · rw [works.picker]
    exact (run_layout before.picker calls).pieceCount
  · rw [works.picker]
    exact run_counts before.picker silent

theorem rejections_silent {pieces : List Nat} :
    ∀ call ∈ DownloadTask.rejections pieces, announces call = false := by
  intro call listed
  obtain ⟨piece, _, rfl⟩ := mem_map.mp listed
  rfl

theorem blockCalls_silent {picker : PiecePicker} {block : BlockEvent} {calls : List Call}
    (handled : DownloadTask.BlockCalls picker block calls) :
    ∀ call ∈ calls, announces call = false := by
  cases handled with
  | ignored => exact nofun
  | cancelled => exact forall_mem_singleton.mpr rfl
  | rejected evicted | received evicted =>
    exact forall_mem_append.mpr ⟨rejections_silent, forall_mem_singleton.mpr rfl⟩
  | refused evicted =>
    exact forall_mem_append.mpr
      ⟨rejections_silent, forall_mem_cons.mpr ⟨rfl, forall_mem_singleton.mpr rfl⟩⟩

theorem announces_of_quiet {call : Call} (quiet : isQuiet call = true) : announces call = false := by
  cases call with
  | addHave | removeHave | addBitfield | removeBitfield => cases quiet
  | _ => rfl

variable (download : DownloadTask)

theorem step_silent (event : Download.Event)
    (quiet : isQuietEvent event = true) : Silent download (download.step event) := by
  cases event with
  | handleBlock block outside =>
    obtain ⟨calls, handled, works⟩ := (download.handleBlock_spec block outside).1
    exact works_silent calls works (blockCalls_silent handled)
  | enforcePieceAssemblyBudget currentPiece =>
    obtain ⟨evicted, works⟩ := download.enforcePieceAssemblyBudget_works currentPiece
    exact works_silent _ works rejections_silent
  | clearPieceAssemblies =>
    obtain ⟨pieces, works⟩ := download.clearPieceAssemblies_works
    exact works_silent _ works rejections_silent
  | restorePartialPiece piece blocks =>
    obtain ⟨_, restored, _⟩ := download.restorePartialPiece_cases piece blocks
    show Silent download (download.restorePartialPiece piece blocks)
    rw [restored]
    exact works_silent [.restorePartialPiece piece blocks] ⟨rfl, rfl, rfl⟩
      (forall_mem_singleton.mpr rfl)
  | invalidatePiece piece =>
    exact works_silent [.rejectPiece piece] ⟨rfl, rfl, rfl⟩ (forall_mem_singleton.mpr rfl)
  | pickerCall call other =>
    exact works_silent [call] ⟨rfl, rfl, rfl⟩
      (forall_mem_singleton.mpr (announces_of_quiet quiet))

theorem cancelRequests_silent (requests : List BlockRequest) :
    Silent download { download with picker := cancelRequests download.picker requests } := by
  refine works_silent (requests.map fun request => .cancelRequest request.piece request.begin)
    ⟨?_, rfl, rfl⟩ fun call listed => ?_
  · rw [PiecePicker.run, foldl_map]
    rfl
  · obtain ⟨request, _, rfl⟩ := mem_map.mp listed
    rfl

theorem pickFor_run {Id : Type} {picker after : PiecePicker} {handle : PeerHandle Id}
    {answer : Option BlockRequest} (picked : pickFor picker handle = (after, answer)) :
    ∃ calls, (∀ call ∈ calls, announces call = false) ∧ after = picker.run calls := by
  unfold pickFor at picked
  split at picked
  next first request asked =>
    obtain ⟨rfl, _⟩ := Prod.ext_iff.mp picked
    refine ⟨[.pick handle.peerHas.hasPiece], forall_mem_singleton.mpr rfl, ?_⟩
    exact (congrArg Prod.fst asked).symm
  next first asked =>
    have one : first = (picker.pick handle.peerHas.hasPiece).1 := (congrArg Prod.fst asked).symm
    refine ⟨[.pick handle.peerHas.hasPiece, .pickEndgame handle.peerHas.hasPiece handle.requested],
      forall_mem_cons.mpr ⟨rfl, forall_mem_singleton.mpr rfl⟩, ?_⟩
    rw [one] at picked
    exact (congrArg Prod.fst picked).symm

/-- Filling up the requests of a peer is a list of silent calls. -/
theorem refillLoop_silent {Id : Type} (accepts : Nat → Bool)
    (rounds : Nat) (tokens : Option Nat) (picker : PiecePicker) (handle : PeerHandle Id)
    (start : Silent download { download with picker }) :
    Silent download { download with
        picker := (refillLoop accepts rounds tokens picker handle).1 } ∧
      (refillLoop accepts rounds tokens picker handle).2.peerHas = handle.peerHas := by
  have later : ∀ {picker after : PiecePicker} {calls : List Call},
      Silent download { download with picker } → (∀ call ∈ calls, announces call = false) →
        after = picker.run calls → Silent download { download with picker := after } := by
    rintro picker after calls before silent rfl
    obtain ⟨_, pieceCount, counts⟩ :=
      @works_silent calls { download with picker } { download with picker := picker.run calls }
        ⟨rfl, rfl, rfl⟩ silent
    exact ⟨rfl, pieceCount.trans before.pieceCount, counts.trans before.counts⟩
  fun_induction refillLoop accepts rounds tokens picker handle with
  | case1 | case2 => exact ⟨start, rfl⟩
  | case3 rounds tokens picker handle some after picked =>
    obtain ⟨calls, silent, reached⟩ := pickFor_run picked
    exact ⟨later start silent reached, rfl⟩
  | case4 rounds tokens picker handle some after request picked refused =>
    obtain ⟨calls, silent, reached⟩ := pickFor_run picked
    refine ⟨?_, rfl⟩
    exact @later _ _ [.cancelRequest request.piece request.begin] (later start silent reached)
      (forall_mem_singleton.mpr rfl) rfl
  | case5 rounds tokens picker handle some after request picked sent ih =>
    obtain ⟨calls, silent, reached⟩ := pickFor_run picked
    exact ih (later start silent reached)

/-- One more piece of a peer, which may be one that does not exist. -/
theorem addHave_recounted {availability : Availability} {bitmap : PieceBitmap} {count piece other : Nat}
    (len : bitmap.len = count) (length : availability.counts.length = count)
    (missing : bitmap.hasPiece piece = false) (inside : other < availability.counts.length) :
    (availability.addHave piece).count other =
      recounted (bitmap.hasPiece other) ((bitmap.set piece true).hasPiece other)
        (availability.count other) := by
  by_cases exists_ : piece < count
  · have set : (bitmap.set piece true).hasPiece other =
        if piece = other then true else bitmap.hasPiece other :=
      flag_set bitmap.bits piece other true (exists_.trans_eq len.symm)
    rw [set]
    refine (Availability.recount_count _ _ _ other (length.symm ▸ exists_)).trans ?_
    by_cases same : piece = other
    · subst same
      rw [if_pos rfl, if_pos rfl, missing]
      rfl
    · rw [if_neg same, if_neg same]
      cases bitmap.hasPiece other <;> rfl
  · have beyond := Nat.le_of_not_lt exists_
    have unset : bitmap.set piece true = bitmap :=
      congrArg PieceBitmap.mk (set_eq_of_length_le (len.trans_le beyond))
    have uncounted : availability.addHave piece = availability := by
      unfold Availability.addHave Availability.recount
      rw [getElem?_eq_none (length.trans_le beyond)]
    rw [unset, uncounted]
    cases bitmap.hasPiece other <;> rfl

/-! ## Every event keeps the counts exact -/

section Events

variable {Address Id : Type} [DecidableEq Address] {task : TransferTask Address Id}

/-- The peers of a list leave one after another. -/
theorem foldl_removePeerAvailability_count (handles : List (PeerHandle Id))
    (availability : Availability) :
    (handles.foldl (fun availability handle => removePeerAvailability availability handle.peerHas)
        availability).counts.length = availability.counts.length ∧
      ∀ piece, piece < availability.counts.length →
        (handles.foldl (fun availability handle => removePeerAvailability availability handle.peerHas)
            availability).count piece =
          availability.count piece - handles.countP fun handle => handle.peerHas.hasPiece piece := by
  induction handles generalizing availability with
  | nil => exact ⟨rfl, fun piece _ => rfl⟩
  | cons handle rest ih =>
    obtain ⟨length, follows⟩ := reconcilePeerAvailability_count availability handle.peerHas ⟨[]⟩
    rw [← removePeerAvailability_eq] at length follows
    obtain ⟨size, counts⟩ := ih (removePeerAvailability availability handle.peerHas)
    refine ⟨size.trans length, fun piece inside => ?_⟩
    rw [foldl_cons, counts piece (length.symm ▸ inside), follows piece inside, countP_cons]
    show recounted (handle.peerHas.hasPiece piece) false (availability.count piece) - _ = _
    cases handle.peerHas.hasPiece piece with
    | false => rfl
    | true =>
      show availability.count piece - 1 - _ = _
      rw [Nat.sub_sub, Nat.add_comm]
      rfl

section

variable (counted : Counted task)

include counted

variable (peer : Address)

theorem Counted.refill (supply : Supply) :
    Counted (task.refillPeerRequests peer supply) := by
  unfold refillPeerRequests
  split
  next => exact counted
  next handle present =>
    split
    next => exact counted
    next =>
      obtain ⟨silent, same⟩ := refillLoop_silent task.download supply.accepts
        (memoryAwareRequestPipeline task.download.pieceAssemblyBytes
          task.download.pieceAssemblySoftCapBytes - handle.outstanding) supply.downloadTokens task.picker
        handle ⟨rfl, rfl, rfl⟩
      exact (counted.silent silent).withPeer present same

theorem Counted.handleActive {peer : Address} {handle : PeerHandle Id}
    (present : task.activePeers.lookup peer = some handle) (supply : Supply) (event : PeerEvent) :
    Counted (task.handleActive peer handle supply event) := by
  cases event with
  | bitfield announced =>
    obtain ⟨length, follows⟩ := reconcilePeerAvailability_count task.picker.availability
      handle.peerHas (announced.pieces task.picker.pieceCount)
    exact (counted.follow present length follows (announced.len_pieces _)).refill peer supply
  | havePiece piece =>
    unfold TransferTask.handleActive
    dsimp only
    split
    next => exact counted.refill peer supply
    next missing =>
      have len := counted.bitmaps peer handle present
      refine (counted.follow present (Availability.recount_length _ piece _) (fun other inside => ?_)
        ((len_set _ _ _).trans len)).refill peer supply
      exact addHave_recounted len counted.counts (Bool.eq_false_of_not_eq_true missing) inside
  | unchoked =>
    exact (counted.withPeer present (by rfl)).refill peer supply
  | choked outstanding =>
    exact (counted.withPeer present (by rfl)).silent (cancelRequests_silent task.download _)
  | piece block outside =>
    refine Counted.refill ?_ peer supply
    exact (counted.withPeer present (by rfl)).silent
      (step_silent task.download (.handleBlock block outside) rfl)
  | requestRejected rejected =>
    refine Counted.refill ?_ peer supply
    exact (counted.withPeer present (by rfl)).silent (cancelRequests_silent task.download [rejected])
  | disconnected outstanding =>
    exact (counted.leave present).silent (cancelRequests_silent _ _)
  | requestTimedOut timedOut =>
    refine Counted.refill ?_ peer supply
    exact (counted.withPeer present (by rfl)).silent (cancelRequests_silent task.download timedOut)

theorem Counted.evictPeer : Counted (task.evictPeer peer) := by
  unfold TransferTask.evictPeer
  split
  next => exact counted
  next handle present => exact (counted.leave present).silent (cancelRequests_silent _ _)

theorem Counted.shutdownPeers : Counted task.shutdownPeers := by
  obtain ⟨length, counts⟩ :=
    foldl_removePeerAvailability_count (values task.activePeers) task.picker.availability
  let download : DownloadTask := { task.download with
    picker := { task.picker with
      availability := (values task.activePeers).foldl
        (fun availability (handle : PeerHandle Id) =>
          removePeerAvailability availability handle.peerHas)
        task.picker.availability }.resetOutstandingRequests }
  have left : Counted (⟨download, ∅⟩ : TransferTask Address Id) := by
    refine ⟨counted.pieces, length.trans counted.counts, nofun, Nat.two_pow_pos 32, fun piece => ?_⟩
    by_cases inside : piece < task.picker.availability.counts.length
    · refine (counts piece inside).trans ?_
      rw [counted.exact]
      exact Nat.sub_self _
    · exact congrArg (Option.getD · 0)
        (getElem?_eq_none (length.trans_le (Nat.le_of_not_lt inside)))
  obtain ⟨pieces, works⟩ := download.clearPieceAssemblies_works
  exact left.silent (works_silent _ works rejections_silent)

theorem Counted.connectPeer (id : Id) (admission : Admission)
    (few : size (task.connectPeer peer id admission).activePeers < 2 ^ 32) :
    Counted (task.connectPeer peer id admission) := by
  unfold TransferTask.connectPeer at few ⊢
  split
  next => exact counted
  next admitted =>
    rw [if_neg admitted] at few
    simp only [not_or, Nat.not_le, Option.not_isSome_iff_eq_none] at admitted
    obtain ⟨_, _, absent, _⟩ := admitted
    split
    next granted =>
      rw [if_pos granted] at few
      exact counted.register absent ((size_insert_fresh absent _).symm.trans_lt few) id
    next =>
      have gone : (task.registerPeer peer id).withoutPeer peer = task := by
        show TransferTask.mk task.download ((task.activePeers.insert peer _).erase peer) = task
        rw [erase_insert_self, erase_of_lookup_none absent]
      rw [gone]
      exact counted

end

variable [DecidableEq Id]

theorem Counted.step (counted : Counted task) (event : Event Address Id)
    (few : size (task.step event).activePeers < 2 ^ 32) : Counted (task.step event) := by
  cases event with
  | connectPeer peer id admission => exact counted.connectPeer peer id admission few
  | peerEvent peer id event supply =>
    show Counted (task.handlePeerEvent peer id event supply)
    unfold handlePeerEvent
    split
    next => exact counted
    next handle present =>
      split
      next => exact counted.handleActive present supply event
      next => exact counted
  | refillPeerRequests peer supply => exact counted.refill peer supply
  | evictPeer peer => exact counted.evictPeer peer
  | shutdownPeers => exact counted.shutdownPeers
  | download event quiet => exact counted.silent (step_silent task.download event quiet)

theorem Counted.run (counted : Counted task) (events : List (Event Address Id))
    (few : ∀ history, history <+: events → size (task.run history).activePeers < 2 ^ 32) :
    Counted (task.run events) := by
  induction events generalizing task with
  | nil => exact counted
  | cons event rest ih =>
    have first : size (task.step event).activePeers < 2 ^ 32 :=
      few [event] (cons_prefix_cons.mpr ⟨rfl, nil_prefix⟩)
    refine ih (counted.step event first) fun history begins => ?_
    exact few (event :: history) (cons_prefix_cons.mpr ⟨rfl, begins⟩)

omit [DecidableEq Id] in
theorem new_counted {pieceMap : PieceMap} {pieces : List (Digest 20)}
    (hashed : pieces.length = pieceMap.pieceCount) (softCap : Nat) :
    Counted (TransferTask.new (DownloadTask.new pieceMap pieces hashed softCap) :
      TransferTask Address Id) := by
  refine ⟨hashed, length_replicate, nofun, Nat.two_pow_pos 32, fun piece => ?_⟩
  exact (congrArg (Option.getD · 0) getElem?_replicate).trans (by split <;> rfl)

/-- As long as there are never `2 ^ 32` active peers, the picker counts for every piece the
active peers that have it. -/
theorem swarm_availability_exact (pieceMap : PieceMap) (pieces : List (Digest 20))
    (hashed : pieces.length = pieceMap.pieceCount) (softCap : Nat)
    {start : TransferTask Address Id}
    (new : start = TransferTask.new (DownloadTask.new pieceMap pieces hashed softCap))
    (events : List (Event Address Id))
    (few : ∀ history, history <+: events → size (start.run history).activePeers < 2 ^ 32)
    (piece : Nat) :
    (start.run events).picker.availability.count piece = owners (start.run events).activePeers piece := by
  subst new
  exact ((new_counted hashed softCap).run events few).exact piece

end Events

/-! ## A swarm that is too large -/

/-- The limits on the number of peers and on memory let a peer in. -/
def admitted (peerCapacity : Nat) : Admission := ⟨true, peerCapacity, true, true⟩

def unlimited : Supply := ⟨none, fun _ => true⟩

/-- A task of one piece. -/
def onePiece : DownloadTask :=
  .new twoBlocks [zeros 20] rfl 65536

/-- Two peers announce the piece, and the first one leaves. -/
def twoPeers : List (Event Nat Unit) :=
  [.connectPeer 0 () (admitted 2), .connectPeer 1 () (admitted 2),
    .peerEvent 0 () (.bitfield .haveAll) unlimited, .peerEvent 1 () (.havePiece 0) unlimited,
    .evictPeer 0]

theorem availability_of_two_peers :
    ((TransferTask.new onePiece).run twoPeers).picker.availability.count 0 =
      owners ((TransferTask.new onePiece).run twoPeers).activePeers 0 ∧
    owners ((TransferTask.new onePiece).run twoPeers).activePeers 0 = 1 := by
  have few : ∀ history ∈ twoPeers.inits,
      size ((TransferTask.new onePiece).run history).activePeers < 2 ^ 32 := by decide
  refine ⟨swarm_availability_exact twoBlocks _ rfl 65536 rfl twoPeers ?_ 0, by decide⟩
  exact fun history begins => few history ((List.mem_inits history twoPeers).mpr begins)

/-- One peer after another connects and announces the piece. -/
def crowd (peers : Nat) : List (Event Nat Unit) :=
  (List.range peers).flatMap fun peer =>
    [.connectPeer peer () (admitted (2 ^ 32)), .peerEvent peer () (.havePiece 0) unlimited]

/-- What a task of one piece looks like with a crowd. -/
structure Crowded (peers : Nat) (task : TransferTask Nat Unit) : Prop where
  pieces : task.download.pieces.length = 1
  counts : task.picker.availability.counts = [min peers (2 ^ 32 - 1)]
  owners : owners task.activePeers 0 = peers
  size : size task.activePeers = peers
  fresh : ∀ peer, peers ≤ peer → task.activePeers.lookup peer = none

/-- A new peer announces the only piece. It still chokes us, so nothing is requested from it. -/
theorem crowd_step {task : TransferTask Nat Unit} {peer : Nat} {admission : Admission}
    (pieces : task.download.pieces.length = 1) (absent : task.activePeers.lookup peer = none)
    (allowed : admission = admitted admission.peerCapacity)
    (room : size task.activePeers < admission.peerCapacity) (supply : Supply) :
    (task.step (.connectPeer peer () admission)).step (.peerEvent peer () (.havePiece 0) supply) =
      (task.withPicker { task.picker with
          availability := task.picker.availability.addHave 0 }).withPeer peer
        { id := (), peerHas := ⟨[true]⟩, choked := true, outstanding := 0, requested := [] } := by
  have connected : task.connectPeer peer () admission = task.registerPeer peer () := by
    unfold connectPeer
    rw [allowed, absent]
    simp [admitted, room]
  have registered : (task.registerPeer peer ()).activePeers.lookup peer =
      some { id := (), peerHas := ⟨[false]⟩, choked := true, outstanding := 0, requested := [] } := by
    refine (AList.lookup_insert _).trans ?_
    rw [pieces]
    rfl
  show (task.connectPeer peer () admission).handlePeerEvent peer () (.havePiece 0) supply = _
  rw [connected, handlePeerEvent, registered]
  show refillPeerRequests _ peer supply = _
  unfold refillPeerRequests
  rw [show (withPeer _ peer _).activePeers.lookup peer = _ from AList.lookup_insert _]
  show TransferTask.mk _ ((task.activePeers.insert peer _).insert peer _) = _
  rw [AList.insert_insert]
  rfl

theorem Crowded.succ {peers : Nat} {task : TransferTask Nat Unit} (crowded : Crowded peers task)
    {admission : Admission} (allowed : admission = admitted admission.peerCapacity)
    (room : peers < admission.peerCapacity) :
    Crowded (peers + 1) ((task.step (.connectPeer peers () admission)).step
      (.peerEvent peers () (.havePiece 0) unlimited)) := by
  have absent := crowded.fresh peers (Nat.le_refl peers)
  rw [crowd_step crowded.pieces absent allowed (crowded.size.trans_lt room) unlimited]
  refine ⟨crowded.pieces, ?_, ?_, ?_, fun peer beyond => ?_⟩
  · have one := crowded.counts
    show (task.picker.availability.addHave 0).counts = _
    unfold Availability.addHave Availability.recount
    rw [one]
    have counted : min (min peers (2 ^ 32 - 1) + 1) (2 ^ 32 - 1) = min (peers + 1) (2 ^ 32 - 1) := by
      omega
    rw [← counted]
    simp only [getElem?_cons_zero]
    split
    · rfl
    · rfl
  · show Transfer.owners (task.activePeers.insert peers _) 0 = peers + 1
    rw [owners_insert, erase_of_lookup_none absent, crowded.owners]
    rfl
  · exact (size_insert_fresh absent _).trans (congrArg (· + 1) crowded.size)
  · exact (AList.lookup_insert_ne (Nat.ne_of_gt beyond)).trans
      (crowded.fresh peer (Nat.le_of_succ_le beyond))

theorem crowd_run {peers : Nat} (within : peers ≤ 2 ^ 32) :
    Crowded peers ((TransferTask.new onePiece).run (crowd peers)) := by
  induction peers with
  | zero => exact ⟨rfl, rfl, rfl, rfl, fun _ _ => rfl⟩
  | succ peers ih =>
    rw [crowd, range_succ, flatMap_append, TransferTask.run, foldl_append]
    exact (ih (Nat.le_of_succ_le within)).succ rfl within

/-- With `2 ^ 32` peers that have the piece, one of them is not counted. -/
theorem last_peer_uncounted :
    ∃ task : TransferTask Nat Unit,
      task = (TransferTask.new onePiece).run (crowd (2 ^ 32)) ∧
      owners task.activePeers 0 = 2 ^ 32 ∧ task.picker.availability.count 0 = 2 ^ 32 - 1 := by
  have crowded := crowd_run (Nat.le_refl _)
  refine ⟨_, rfl, crowded.owners, ?_⟩
  rw [Availability.count, crowded.counts]
  rfl

end Transfer

end TorrentNG
