import TorrentNG.SnapshotCache

/-!
# Incremental synchronization of the qBittorrent facade

A client polls for the main data and gives the response id of the previous answer, which stands
for the revision of the registry that the answer was computed at. The facade answers with
nothing if that revision is current, with the changes since if the log has them, and otherwise
with all torrents of a recent snapshot. It takes its locks one after another, so that the
registry may change between the steps of a poll.

Response ids are positive, because clients take zero for the lack of one: revision 0 has the
response id of revision 1. A client that is answered at revision 0 is therefore not told of the
first change.
-/

namespace TorrentNG.Api.Qbit

open ChangeLog MachineArithmetic Session Tables Option
open SessionRegistry (Historic Passed Event unstamped)

/-! ## The handler -/

/-- The rows of this facade are the entries. -/
def entryRows : RowKind TorrentEntry where
  ofEntry := id
  infoHash := (·.infoHash)
  infoHash_ofEntry := fun _ => rfl

def qbitRegistryRid (revision : Nat) : Int := max ((min revision i64Max : Nat) : Int) 1

/-- An answer, with the revision that it is computed at. -/
structure SyncMaindataResponse where
  revision : Nat
  fullUpdate : Bool
  torrents : List TorrentEntry
  torrentsRemoved : List Str

def SyncMaindataResponse.rid (response : SyncMaindataResponse) : Int :=
  qbitRegistryRid response.revision

/-- How far a poll has come. -/
inductive Poll where
  | idle
  | seekingDelta (requestedRevision : Nat)
  | seekingSnapshot
  | answering (response : SyncMaindataResponse)

/-- The first lock of a poll: compare the response id with the revision. -/
def compareRevision (registry : SessionRegistry) (rid : Option Int) : Poll :=
  let currentRevision := registry.revision
  let requestedRevision := (rid.filter fun rid => decide (0 < rid)).map Int.toNat
  let unchangedEmptyRegistry :=
    (rid.any fun rid => decide (0 < rid ∧ rid = qbitRegistryRid currentRevision)) &&
      currentRevision == 0
  if requestedRevision == some currentRevision || unchangedEmptyRegistry then
    .answering
      { revision := currentRevision, fullUpdate := false, torrents := [], torrentsRemoved := [] }
  else
    match requestedRevision.filter fun requested => decide (requested ≤ currentRevision) with
    | some requested => .seekingDelta requested
    | none => .seekingSnapshot

/-- The second lock: the last change of each hash since the requested revision. -/
def delta (order : IterationOrder Str) (registry : SessionRegistry) (requestedRevision : Nat) :
    Option SyncMaindataResponse :=
  (registry.changesSince requestedRevision).map fun changes =>
    let (changed, removed) := settle (changes.map unstamped)
    { revision := registry.revision
      fullUpdate := false
      torrents := (order.arrange changed).filterMap registry.get
      torrentsRemoved := ((order.arrange removed).filter fun infoHash =>
        (registry.get infoHash).isNone).insertionSort (· ≤ ·) }

def fullUpdate (snapshot : TorrentSnapshot TorrentEntry) : SyncMaindataResponse where
  revision := snapshot.revision
  fullUpdate := true
  torrents := snapshot.rows
  torrentsRemoved := []

/-! ## Clients -/

/-- What a client keeps of the last answer. -/
structure Answered where
  revision : Nat
  rid : Int
deriving DecidableEq

structure Client where
  torrents : Table Str TorrentEntry
  answered : Option Answered

/-- Replace the map on a full update; otherwise upsert and delete. -/
def updated (torrents : Table Str TorrentEntry) (response : SyncMaindataResponse) :
    Table Str TorrentEntry :=
  if response.fullUpdate then insertAll entryRows.infoHash ∅ response.torrents
  else eraseAll (insertAll entryRows.infoHash torrents response.torrents) response.torrentsRemoved

def Client.receive (client : Client) (response : SyncMaindataResponse) : Client where
  torrents := updated client.torrents response
  answered := some { revision := response.revision, rid := response.rid }

/-! ## Polls among changes -/

structure SyncState where
  server : AppState TorrentEntry
  poll : Poll
  client : Client

/-- What can happen next. A poll that is begun advances lock by lock until it is answered, or
fails on the way; other requests may use the shared snapshots. -/
inductive Action where
  | change (event : Event)
  | poll
  | advance (order : IterationOrder Str) (now : Nat)
  | fail
  | list (order : IterationOrder Str) (now : Nat)

def start : SyncState where
  server := { registry := .new, torrentSnapshotCache := [] }
  poll := .idle
  client := { torrents := ∅, answered := none }

/-- The next step of a poll. -/
def advance (order : IterationOrder Str) (now : Nat) (state : SyncState) : SyncState :=
  match state.poll with
  | .idle => state
  | .seekingDelta requestedRevision =>
    match delta order state.server.registry requestedRevision with
    | some response => { state with poll := .answering response }
    | none => { state with poll := .seekingSnapshot }
  | .seekingSnapshot =>
    match state.server.torrentSnapshot entryRows order now none with
    | (.ok snapshot, server) => { state with server, poll := .answering (fullUpdate snapshot) }
    | (.error _, server) => { state with server, poll := .idle }
  | .answering response =>
    { state with poll := .idle, client := state.client.receive response }

def step (state : SyncState) : Action → Except Fault SyncState
  | .change event => do
    let registry ← state.server.registry.step event
    return { state with server := { state.server with registry } }
  | .poll =>
    match state.poll with
    | .idle =>
      return { state with
        poll := compareRevision state.server.registry (state.client.answered.map (·.rid)) }
    | _ => return state
  | .advance order now => return advance order now state
  | .fail => return { state with poll := .idle }
  | .list order now =>
    return { state with server := (state.server.torrentSnapshot entryRows order now none).2 }

/-- The number of changes that an action makes. -/
def mutations (state : SyncState) : Action → Nat
  | .change event => state.server.registry.mutations event
  | _ => 0

/-- Torrents have distinct handles, and a client that was answered at revision 0 does not poll
after the first change. -/
def Steady (state : SyncState) : Action → Prop
  | .change event => state.server.registry.Proper event
  | .poll => ∀ answered ∈ state.client.answered, answered.revision = 0 →
    state.server.registry.revision = 0
  | _ => True

/-! ## Convergence -/

abbrev registryOf (state : SyncState) : SessionRegistry := state.server.registry

variable {events : List Action} {used : Nat} {state next : SyncState}
  {registry : SessionRegistry} {torrents : Table Str TorrentEntry} {response : SyncMaindataResponse}

/-- What a poll that has come this far is good for. -/
def Promises (visited : SessionRegistry → Prop) (torrents : Table Str TorrentEntry) : Poll → Prop
  | .idle => True
  | .seekingDelta requestedRevision => Current entryRows visited torrents requestedRevision
  | .seekingSnapshot => True
  | .answering response => Current entryRows visited (updated torrents response) response.revision

theorem Promises.mono {visited more : SessionRegistry → Prop} {poll : Poll}
    (grows : ∀ past, visited past → more past) (promises : Promises visited torrents poll) :
    Promises more torrents poll := by
  cases poll with
  | idle | seekingSnapshot => trivial
  | seekingDelta | answering => exact Current.mono promises grows

theorem qbitRegistryRid_eq {revision : Nat} (few : revision < 2 ^ 63) :
    qbitRegistryRid revision = if revision = 0 then 1 else (revision : Int) := by
  have bounded : min revision i64Max = revision := by
    rw [i64Max]
    omega
  rw [qbitRegistryRid, bounded]
  split
  next zero =>
    rw [zero]
    rfl
  next => omega

section Steps

variable {visited : SessionRegistry → Prop}

theorem promises_compareRevision {answered : Answered}
    (historic : Historic visited registry used) (few : used < 2 ^ 63)
    (given : answered.rid = qbitRegistryRid answered.revision)
    (current : Current entryRows visited torrents answered.revision)
    (told : answered.revision = 0 → registry.revision = 0) :
    Promises visited torrents (compareRevision registry (some answered.rid)) := by
  have bounded := current.revision_le historic
  rw [historic.revision] at bounded
  rw [qbitRegistryRid_eq (by omega)] at given
  -- An answer without changes leaves the torrents as they are.
  have nothing : ∀ {torrents}, Current entryRows visited torrents registry.revision →
      Promises visited torrents (.answering
        { revision := registry.revision, fullUpdate := false, torrents := [],
          torrentsRemoved := [] }) := fun current => current
  by_cases zero : answered.revision = 0
  · have empty := told zero
    rw [if_pos zero] at given
    rw [zero, ← empty] at current
    have unchanged : compareRevision registry (some answered.rid) = .answering
        { revision := registry.revision, fullUpdate := false, torrents := [],
          torrentsRemoved := [] } := by
      rw [compareRevision, empty, given]
      rfl
    rw [unchanged]
    exact nothing current
  · rw [if_neg zero] at given
    have positive : (0 : Int) < answered.rid := by omega
    have requested : answered.rid.toNat = answered.revision := by omega
    have nonempty : (registry.revision == 0) = false := by
      rw [beq_eq_false_iff_ne, historic.revision]
      omega
    simp only [compareRevision, filter_some, positive, decide_true, if_true, map_some,
      requested, nonempty, Bool.and_false, Bool.or_false]
    by_cases same : answered.revision = registry.revision
    · rw [same, if_pos (beq_self_eq_true _)]
      rw [same] at current
      exact nothing current
    · rw [if_neg fun equal => same (Option.some.inj (eq_of_beq equal)), historic.revision,
        decide_eq_true bounded, if_pos rfl]
      exact current

theorem settles_delta (order : IterationOrder Str) (changes : List RegistryChange) :
    Settles entryRows registry changes
      ((order.arrange (settle (changes.map unstamped)).1).filterMap registry.get)
      (((order.arrange (settle (changes.map unstamped)).2).filter fun infoHash =>
        (registry.get infoHash).isNone).insertionSort (· ≤ ·)) where
  mem_rows := by
    intro row
    rw [List.mem_filterMap]
    refine exists_congr fun infoHash => ?_
    rw [(order.perm _).mem_iff]
    simp only [entryRows, map_id_fun, id_eq]
  mem_removed := by
    intro infoHash
    rw [List.mem_insertionSort, List.mem_filter, (order.perm _).mem_iff, isNone_iff_eq_none]

theorem promises_delta {requestedRevision : Nat} (historic : Historic visited registry used)
    (few : used < 2 ^ 63)
    (current : Current entryRows visited torrents requestedRevision) {order : IterationOrder Str}
    (given : delta order registry requestedRevision = some response) :
    Promises visited torrents (.answering response) := by
  obtain ⟨changes, answer, rfl⟩ := map_eq_some_iff.mp given
  obtain ⟨past, here, rfl, holds⟩ := current
  exact ⟨registry, historic.current, rfl,
    (settles_delta order changes).holds historic (by omega) here answer holds⟩

theorem promises_fullUpdate {past : SessionRegistry} {snapshot : TorrentSnapshot TorrentEntry}
    (here : visited past) (coherent : past.Coherent) (shows : snapshot.Shows entryRows past) :
    Promises visited torrents (.answering (fullUpdate snapshot)) := by
  refine ⟨past, here, shows.revision.symm, ?_⟩
  have rows : updated torrents (fullUpdate snapshot) =
      insertAll entryRows.infoHash ∅ (past.projection.map entryRows.ofEntry) := by
    rw [← shows.listed]
    rfl
  rw [rows]
  exact holds_projection coherent

/-- The invariant of a run, given what the registry has passed through. -/
structure Kept (visited : SessionRegistry → Prop) (next : SyncState) : Prop where
  cacheShows : CacheShows entryRows visited next.server.torrentSnapshotCache
  answered : ∀ answered ∈ next.client.answered, answered.rid = qbitRegistryRid answered.revision ∧
    Current entryRows visited next.client.torrents answered.revision
  promises : Promises visited next.client.torrents next.poll

theorem Kept.mono {more : SessionRegistry → Prop} (grows : ∀ past, visited past → more past)
    (kept : Kept visited state) : Kept more state where
  cacheShows := kept.cacheShows.mono grows
  answered given inside := ⟨(kept.answered given inside).1,
    (kept.answered given inside).2.mono grows⟩
  promises := kept.promises.mono grows

theorem advance_kept (historic : Historic visited state.server.registry used) (few : used < 2 ^ 63)
    (kept : Kept visited state) (order : IterationOrder Str) (now : Nat) :
    state.server.registry.Leads [] (advance order now state).server.registry ∧
      Kept visited (advance order now state) := by
  obtain ⟨cacheShows, answered, promises⟩ := id kept
  have stays := historic.stays
  rw [advance]
  split
  next => exact ⟨stays, kept⟩
  next requestedRevision phase =>
    rw [phase] at promises
    split
    next response given =>
      exact ⟨stays, cacheShows, answered, promises_delta historic few promises given⟩
    next => exact ⟨stays, cacheShows, answered, trivial⟩
  next =>
    obtain ⟨snapshot, server, past, served, here, shows, cacheShowsNext, leads⟩ :=
      AppState.torrentSnapshot_spec historic (by omega) cacheShows order now
    simp only [served]
    exact ⟨leads, cacheShowsNext, answered, promises_fullUpdate here (historic.coherent here) shows⟩
  next response phase =>
    rw [phase] at promises
    refine ⟨stays, cacheShows, fun answered inside => ?_, trivial⟩
    obtain rfl := Option.some.inj inside
    exact ⟨rfl, promises⟩

theorem step_kept {action : Action} (historic : Historic visited state.server.registry used)
    (few : used + mutations state action < 2 ^ 63) (steady : Steady state action)
    (kept : Kept visited state) : ∃ next journal, step state action = .ok next ∧
      state.server.registry.Leads journal next.server.registry ∧
      journal.length = mutations state action ∧ Kept visited next := by
  obtain ⟨cacheShows, answered, promises⟩ := id kept
  have stays := historic.stays
  cases action with
  | change event =>
    obtain ⟨registry, journal, changed, leads, count⟩ := SessionRegistry.step_leads
      (historic.coherent historic.current) (historic.valid historic.current) steady
      (by rw [historic.revision]; simp only [mutations] at few; omega)
    refine ⟨{ state with server := { state.server with registry } }, journal, ?_, leads, count,
      cacheShows, answered, promises⟩
    simp only [step, changed]
    rfl
  | poll =>
    rw [step]
    split
    next =>
      refine ⟨_, [], rfl, stays, rfl, cacheShows, answered, ?_⟩
      cases given : state.client.answered with
      | none => trivial
      | some last =>
        obtain ⟨rid, current⟩ := answered last given
        exact promises_compareRevision historic few rid current (steady last given)
    next => exact ⟨_, [], rfl, stays, rfl, kept⟩
  | advance order now =>
    obtain ⟨leads, kept⟩ := advance_kept historic few kept order now
    exact ⟨_, [], rfl, leads, rfl, kept⟩
  | fail => exact ⟨_, [], rfl, stays, rfl, cacheShows, answered, trivial⟩
  | list order now =>
    obtain ⟨snapshot, server, past, served, here, shows, cacheShowsNext, leads⟩ :=
      AppState.torrentSnapshot_spec historic (by omega) cacheShows order now
    refine ⟨{ state with server }, [], ?_, leads, rfl, cacheShowsNext, answered, promises⟩
    simp only [step, served]
    rfl

end Steps

/-- After the run, clients hold the entries of the registry as of the revision of their last
answer: one that the registry has had, whenever that was. -/
def Converges (actions : List Action) : Prop :=
  ∃ final, Runs.run step start actions = .ok final ∧
    ∀ answered ∈ final.client.answered,
      (∃ past, Runs.Visited step start actions past ∧
        past.server.registry.revision = answered.revision) ∧
      ∀ past, Runs.Visited step start actions past →
        past.server.registry.revision = answered.revision →
        Holds entryRows final.client.torrents past.server.registry

/-- Clients converge in every run in which torrents have distinct handles and no client polls with
the response id of revision 0 after the first change. -/
theorem sync_converges (actions : List Action) (steady : Runs.Along step Steady start actions)
    (few : Runs.spent step mutations start actions < 2 ^ 63) : Converges actions := by
  have fresh : registryOf start = .new := rfl
  obtain ⟨final, ran, historic, kept⟩ := Historic.run Kept fresh Kept.mono
    (fun _ => ⟨nofun, nofun, trivial⟩) step_kept steady few
  refine ⟨final, ran, fun answered inside => ?_⟩
  obtain ⟨_, current⟩ := kept.answered answered inside
  obtain ⟨_, ⟨past, visited, rfl⟩, same, _⟩ := id current
  refine ⟨⟨past, visited, same⟩, fun other otherVisited otherSame => ?_⟩
  exact current.holds historic ⟨other, otherVisited, rfl⟩ otherSame

/-! ## The first change -/

/-- A poll that is answered at once or with a snapshot. -/
def polled : List Action := [.poll, .advance asStored 0, .advance asStored 0]

/-- A client polls, a torrent is added and the client polls again. -/
def firstChange : List Action :=
  polled ++ [.change (.add (.new ⟨1⟩ 0 [0x61] [] []))] ++ polled

/-- Whether the registry and a client have a torrent, and the last answer of the client. -/
def observed (actions : List Action) (infoHash : Str) :
    Except Fault (Bool × Bool × Nat × Option Answered) := do
  let state ← Runs.run step start actions
  return ((state.server.registry.view infoHash).isSome,
    (state.client.torrents.lookup infoHash).isSome, state.server.registry.revision,
    state.client.answered)

theorem observed_firstChange :
    observed firstChange [0x61] = .ok (true, false, 1, some { revision := 1, rid := 1 }) := by
  decide +kernel

/-- A client that is answered at revision 0 misses the first torrent, and its next answer claims
to be of revision 1. -/
theorem first_change_is_missed :
    ∃ final, Runs.run step start firstChange = .ok final ∧
      final.client.answered = some { revision := final.server.registry.revision, rid := 1 } ∧
      ¬Holds entryRows final.client.torrents final.server.registry := by
  have seen := observed_firstChange
  rw [observed, Fallible.bind_eq_ok] at seen
  obtain ⟨final, ran, shown⟩ := seen
  have shown := Except.ok.inj shown
  simp only [Prod.mk.injEq] at shown
  obtain ⟨registered, missing, revision, answered⟩ := shown
  refine ⟨final, ran, by rw [answered, revision], fun holds => ?_⟩
  rw [holds, Option.isSome_map, registered] at missing
  exact nomatch missing

/-- A torrent is added before the first poll and another one between two polls. -/
def laterChange : List Action :=
  [.change (.add (.new ⟨1⟩ 0 [0x61] [] []))] ++ polled ++
    [.change (.add (.new ⟨2⟩ 0 [0x62] [] []))] ++ polled

instance (state : SyncState) (action : Action) : Decidable (Steady state action) :=
  match action with
  | .change event => inferInstanceAs (Decidable (_ ∧ _))
  | .poll =>
    match answered : state.client.answered with
    | none => isTrue (by simp [Steady, answered])
    | some given => decidable_of_iff (given.revision = 0 → state.server.registry.revision = 0)
        (by simp [Steady, answered])
  | .advance _ _ | .fail | .list _ _ => isTrue trivial

theorem laterChange_converges : Converges laterChange :=
  sync_converges laterChange (by decide +kernel) (by decide +kernel)

end TorrentNG.Api.Qbit
