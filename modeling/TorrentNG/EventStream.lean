import TorrentNG.SnapshotCache

/-!
# The event stream of the native facade

A client opens a stream of events, each with the revision that it brings the client to. The
stream starts with a snapshot in chunks, unless the client names a revision that it has, and
goes on with deltas. A stream that falls behind starts over with a snapshot.

All chunks of a snapshot carry the revision of the whole snapshot. A client that loses its
connection between two chunks and names that revision is taken to have all rows. A stream that
starts over between two chunks sends another snapshot, which the client cannot tell from the
rest of the first. Away from these two, clients hold the summaries of the registry at the
revision of each delta and each completed snapshot.
-/

namespace TorrentNG.Api.Native

open ChangeLog List MachineArithmetic Session Tables
open SessionRegistry (Historic Passed Event unstamped)

/-! ## Summaries -/

/-- Counters that an `i64` cannot hold are cut off. -/
def torrentngI64 (value : Nat) : Nat := if value ≤ i64Max then value else i64Max

/-- The ratio is kept as a numerator and a denominator; its rounding to a double is left out. -/
structure TorrentSummary where
  infoHash : Str
  name : Str
  state : TorrentState
  totalLength : Nat
  downloaded : Nat
  amountLeft : Nat
  uploaded : Nat
  ratio : Nat × Nat
  savePath : Str
  category : Option Str
  tags : List Str
  addedAt : Nat
  completedAt : Option Nat
  numPeers : Nat
  numSeeds : Nat
  trackerMessage : Option Str
  finalizing : Bool
deriving DecidableEq

def ratio (stats : TransferStats) : Nat × Nat :=
  if stats.downloaded = 0 then (0, 1) else (stats.uploaded, stats.downloaded)

def torrentSummary (entry : TorrentEntry) : TorrentSummary where
  infoHash := entry.infoHash
  name := entry.name
  state := entry.state
  totalLength := torrentngI64 entry.totalLength
  downloaded := torrentngI64 entry.stats.downloaded
  amountLeft := torrentngI64 entry.amountLeft
  uploaded := torrentngI64 entry.stats.uploaded
  ratio := ratio entry.stats
  savePath := entry.savePath
  category := entry.category
  tags := entry.tags
  addedAt := torrentngI64 entry.addedAt
  completedAt := entry.completedAt.map torrentngI64
  numPeers := 0
  numSeeds := 0
  trackerMessage := entry.trackerMessage
  finalizing := entry.finalizing

structure TorrentSnapshotItem where
  summary : TorrentSummary
  amountLeft : Nat
  nameSortKey : Str
deriving DecidableEq

def summaryRows : RowKind TorrentSummary where
  ofEntry := torrentSummary
  infoHash := (·.infoHash)
  infoHash_ofEntry := fun _ => rfl

def itemRows : RowKind TorrentSnapshotItem where
  ofEntry entry :=
    { summary := torrentSummary entry
      amountLeft := entry.amountLeft
      nameSortKey := entry.name.map toAsciiLowercase }
  infoHash := (·.summary.infoHash)
  infoHash_ofEntry := fun _ => rfl

/-! ## Streams -/

def sseInitialBatchDefault : Nat := 500

def sseInitialBatchMax : Nat := 1000

def sseDeltaMaxEntries : Nat := 1000

structure EventStreamState where
  registryRevision : Option Nat
  seq : Nat
  initialSnapshot : Option (TorrentSnapshot TorrentSnapshotItem)
  initialSnapshotOffset : Nat
  initialBatchSize : Nat

/-- The stream of a request with these parameters. -/
def EventStreamState.new (lastKnownRevision batchSize : Option Nat) : EventStreamState where
  registryRevision := lastKnownRevision
  seq := 0
  initialSnapshot := none
  initialSnapshotOffset := 0
  initialBatchSize := max 1 (min (batchSize.getD sseInitialBatchDefault) sseInitialBatchMax)

structure TorrentDelta where
  torrents : List TorrentSummary
  removed : List Str
  snapshot : Bool
  snapshotComplete : Bool

def TorrentDelta.nothing : TorrentDelta where
  torrents := []
  removed := []
  snapshot := false
  snapshotComplete := false

/-- The rows from one position up to another. -/
def range {Row : Type} (rows : List Row) (start stop : Nat) : List Row :=
  (rows.take stop).drop start

variable (stream : EventStreamState)

/-- The next chunk of a snapshot. -/
def chunk (snapshot : TorrentSnapshot TorrentSnapshotItem) :
    TorrentDelta × EventStreamState :=
  let start := stream.initialSnapshotOffset
  let stop := min (start + stream.initialBatchSize) snapshot.rows.length
  let torrents := (range snapshot.rows start stop).map (·.summary)
  let snapshotComplete := stop == snapshot.rows.length
  ({ torrents, removed := [], snapshot := true, snapshotComplete },
    { stream with
      initialSnapshotOffset := stop
      initialSnapshot := if snapshotComplete then none else some snapshot })

/-- The changes since a revision, settled under the lock of the registry. -/
def settledDelta (registry : SessionRegistry) (changes : List RegistryChange) : TorrentDelta :=
  let (changed, removed) := settle (changes.map unstamped)
  { torrents := (changed.insertionSort (· ≤ ·)).filterMap fun infoHash =>
      (registry.get infoHash).map torrentSummary
    removed := (removed.insertionSort (· ≤ ·)).filter fun infoHash =>
      (registry.get infoHash).isNone
    snapshot := false
    snapshotComplete := false }

/-- One turn of the loop in `torrent_delta_for_stream`: a delta if the loop ends with it. -/
def turn (order : IterationOrder Str) (now : Nat) (server : AppState TorrentSnapshotItem)
    (stream : EventStreamState) :
    Option TorrentDelta × EventStreamState × AppState TorrentSnapshotItem :=
  match stream.initialSnapshot with
  | some snapshot =>
    let (delta, stream) := chunk stream snapshot
    (some delta, stream, server)
  | none =>
    match stream.registryRevision with
    | none =>
      match server.torrentSnapshot itemRows order now none with
      | (.error _, server) => (some .nothing, stream, server)
      | (.ok snapshot, server) =>
        (none,
          { stream with
            registryRevision := some snapshot.revision
            initialSnapshot := some snapshot
            initialSnapshotOffset := 0 },
          server)
    | some lastRevision =>
      match server.registry.changesSince lastRevision with
      | none => (none, { stream with registryRevision := none }, server)
      | some changes =>
        if sseDeltaMaxEntries < changes.length then
          (none, { stream with registryRevision := none }, server)
        else if changes.isEmpty then (some .nothing, stream, server)
        else
          (some (settledDelta server.registry changes),
            { stream with registryRevision := some server.registry.revision }, server)

structure StreamEvent where
  seq : Nat
  cursor : Nat
  snapshot : Bool
  snapshotComplete : Bool
  torrents : List TorrentSummary
  removed : List Str
deriving DecidableEq

def TorrentDelta.isEvent (delta : TorrentDelta) : Bool :=
  delta.snapshot || !delta.torrents.isEmpty || !delta.removed.isEmpty

/-- The event of a delta, and the stream after it. -/
def emit (delta : TorrentDelta) : StreamEvent × EventStreamState :=
  let stream := { stream with seq := min (stream.seq + 1) (2 ^ 64 - 1) }
  ({ seq := stream.seq
     cursor := stream.registryRevision.getD 0
     snapshot := delta.snapshot
     snapshotComplete := delta.snapshotComplete
     torrents := delta.torrents
     removed := delta.removed }, stream)

/-- What a stream does when it is polled after too long a time. -/
def resync : EventStreamState :=
  { stream with registryRevision := none, initialSnapshot := none, initialSnapshotOffset := 0 }

/-! ## Clients -/

/-- A client with its rows, the last event it received, and whether it clears its rows at the
next snapshot event. -/
structure Client where
  summaries : Table Str TorrentSummary
  received : Option StreamEvent
  clears : Bool

def upserted (summaries : Table Str TorrentSummary) (torrents : List TorrentSummary) :
    Table Str TorrentSummary :=
  insertAll summaryRows.infoHash summaries torrents

def Client.receive (client : Client) (event : StreamEvent) : Client where
  summaries :=
    if event.snapshot then upserted (if client.clears then ∅ else client.summaries) event.torrents
    else eraseAll (upserted client.summaries event.torrents) event.removed
  received := some event
  clears := !event.snapshot || event.snapshotComplete

/-! ## Streams among changes -/

/-- A server, a stream that may be in the middle of a poll, and a client that gets the events of
the stream as long as they are linked. -/
structure System where
  server : AppState TorrentSnapshotItem
  stream : EventStreamState
  polling : Bool
  linked : Bool
  client : Client

/-- What can happen next. Other requests may use the shared snapshots at any time. -/
inductive Action where
  | change (event : Event)
  | connect (batchSize : Option Nat)
  | poll (slow : Bool)
  | turn (order : IterationOrder Str) (now : Nat)
  | disconnect
  | list (order : IterationOrder Str) (now : Nat)

def start : System where
  server := { registry := .new, torrentSnapshotCache := [] }
  stream := .new none none
  polling := false
  linked := false
  client := { summaries := ∅, received := none, clears := true }

variable (system : System)

/-- Hand an event to the client, if it is still there. -/
def deliver (event : StreamEvent) : System :=
  if system.linked then { system with client := system.client.receive event } else system

def takeTurn (order : IterationOrder Str) (now : Nat) (system : System) : System :=
  if system.polling then
    match turn order now system.server system.stream with
    | (none, stream, server) => { system with stream, server }
    | (some delta, stream, server) =>
      if delta.isEvent then
        let (event, stream) := emit stream delta
        deliver { system with stream, server, polling := false } event
      else { system with stream, server, polling := false }
  else system

def step (system : System) : Action → Except Fault System
  | .change event => do
    let registry ← system.server.registry.step event
    return { system with server := { system.server with registry } }
  | .connect batchSize =>
    return { system with
      stream := .new (system.client.received.map (·.cursor)) batchSize
      polling := false
      linked := true
      client := { system.client with clears := true } }
  | .poll slow =>
    if system.polling then return system
    else if slow then return { system with stream := resync system.stream, polling := true }
    else return { system with polling := true }
  | .turn order now => return takeTurn order now system
  | .disconnect => return { system with linked := false }
  | .list order now =>
    return { system with server := (system.server.torrentSnapshot itemRows order now none).2 }

/-- The number of changes that an action makes. -/
def mutations (system : System) : Action → Nat
  | .change event => system.server.registry.mutations event
  | _ => 0

/-- The event brings the client to its cursor: a delta, or the last chunk of a snapshot. -/
def StreamEvent.settles (event : StreamEvent) : Bool := !event.snapshot || event.snapshotComplete

/-- Torrents have distinct handles and none is demoted while it is being finalized; clients do
not reconnect and streams do not start over in the middle of a snapshot. -/
def Steady : Action → Prop
  | .change event => system.server.registry.Proper event
  | .connect _ => ∀ event ∈ system.client.received, event.settles
  | .poll slow => slow → system.linked → system.stream.initialSnapshot.isNone
  | _ => True

/-! ## Convergence -/

abbrev registryOf : SessionRegistry := system.server.registry

variable {actions : List Action} {used : Nat} {system next : System} {registry : SessionRegistry}
  {visited more : SessionRegistry → Prop} {summaries : Table Str TorrentSummary}
  {stream : EventStreamState} {client : Client}
  {snapshot : TorrentSnapshot TorrentSnapshotItem}

/-- The client has the rows that the stream has sent of a snapshot. -/
structure Partial (visited : SessionRegistry → Prop) (stream : EventStreamState) (client : Client)
    (snapshot : TorrentSnapshot TorrentSnapshotItem) : Prop where
  shows : ∃ past, visited past ∧ snapshot.Shows itemRows past
  revision : stream.registryRevision = some snapshot.revision
  within : stream.initialSnapshotOffset ≤ snapshot.rows.length
  rows : (if client.clears then ∅ else client.summaries) =
    upserted ∅ ((snapshot.rows.take stream.initialSnapshotOffset).map (·.summary))

/-- What a client that is linked to a stream has: the rows sent of a snapshot, or all rows of
the revision that the stream goes on from. -/
def InStep (visited : SessionRegistry → Prop) (stream : EventStreamState) (client : Client) :
    Prop :=
  match stream.initialSnapshot with
  | some snapshot => Partial visited stream client snapshot
  | none => client.clears = true ∧
    ∀ revision ∈ stream.registryRevision, Current summaryRows visited client.summaries revision

/-- The cursor of a client is a revision that the registry has passed through, and a client that
has settled has the rows of that revision. -/
def Settled (visited : SessionRegistry → Prop) (client : Client) : Prop :=
  ∀ event ∈ client.received, (∃ past, visited past ∧ past.revision = event.cursor) ∧
    (event.settles → Current summaryRows visited client.summaries event.cursor)

section

variable (grows : ∀ past, visited past → more past)

include grows

theorem InStep.mono (inStep : InStep visited stream client) : InStep more stream client := by
  rw [InStep] at inStep ⊢
  split at inStep
  next snapshot _ =>
    obtain ⟨⟨past, here, shows⟩, revision, within, rows⟩ := inStep
    exact ⟨⟨past, grows past here, shows⟩, revision, within, rows⟩
  next => exact ⟨inStep.1, fun revision known => (inStep.2 revision known).mono grows⟩

theorem Settled.mono (settled : Settled visited client) : Settled more client := by
  intro event received
  obtain ⟨⟨past, here, same⟩, current⟩ := settled event received
  exact ⟨⟨past, grows past here, same⟩, fun settles => (current settles).mono grows⟩

end

/-! ### One turn -/

theorem upserted_append (first second : List TorrentSummary) :
    upserted (upserted summaries first) second = upserted summaries (first ++ second) :=
  foldl_append.symm

theorem take_append_range {Row : Type} (rows : List Row) {first last : Nat} (ordered : first ≤ last) :
    rows.take first ++ range rows first last = rows.take last := by
  have split := take_append_drop first (rows.take last)
  rw [take_take, Nat.min_eq_left ordered] at split
  exact split

/-- All rows of a snapshot are the summaries of the registry that it shows. -/
theorem current_of_shows {past : SessionRegistry} (here : visited past) (coherent : past.Coherent)
    (shows : snapshot.Shows itemRows past) :
    Current summaryRows visited (upserted ∅ (snapshot.rows.map (·.summary))) snapshot.revision := by
  refine ⟨past, here, shows.revision.symm, ?_⟩
  have rows : snapshot.rows.map (·.summary) = past.projection.map summaryRows.ofEntry := by
    rw [shows.listed, map_map]
    rfl
  rw [upserted, rows]
  exact holds_projection coherent

/-- What a linked client has after a poll that ends with a delta. -/
def Client.handed (client : Client) (stream : EventStreamState) (delta : TorrentDelta) : Client :=
  if delta.isEvent then client.receive (emit stream delta).1 else client

theorem InStep.emit (inStep : InStep visited stream client) (delta : TorrentDelta) :
    InStep visited (emit stream delta).2 client := by
  have same : (Native.emit stream delta).2.initialSnapshot = stream.initialSnapshot := rfl
  rw [InStep, same]
  rw [InStep] at inStep
  split at inStep
  next => exact { inStep with }
  next => exact inStep

/-- A chunk gives the client the next rows, and the last one makes them whole. -/
theorem chunk_spec (historic : Historic visited registry used)
    (sent : Partial visited stream client snapshot) :
    let after := client.handed (chunk stream snapshot).2 (chunk stream snapshot).1
    InStep visited (chunk stream snapshot).2 after ∧ Settled visited after := by
  intro after
  obtain ⟨⟨past, here, shows⟩, revision, within, rows⟩ := sent
  let stop := min (stream.initialSnapshotOffset + stream.initialBatchSize) snapshot.rows.length
  have ordered : stream.initialSnapshotOffset ≤ stop := by omega
  have summaries : after.summaries = upserted ∅ ((snapshot.rows.take stop).map (·.summary)) := by
    rw [← take_append_range snapshot.rows ordered, map_append, ← upserted_append, ← rows]
    rfl
  have cursor : ∀ event ∈ after.received, event.cursor = snapshot.revision := by
    intro event received
    obtain rfl := Option.some.inj received
    have known : (chunk stream snapshot).2.registryRevision = some snapshot.revision := revision
    simp only [Native.emit, known, Option.getD_some]
  by_cases complete : stop = snapshot.rows.length
  · rw [complete, take_length] at summaries
    have current := current_of_shows here (historic.coherent here) shows
    rw [← summaries] at current
    have finished : (chunk stream snapshot).2.initialSnapshot = none := if_pos (beq_iff_eq.mpr complete)
    refine ⟨?_, fun event received => ?_⟩
    · rw [InStep, finished]
      refine ⟨beq_iff_eq.mpr complete, fun known same => ?_⟩
      rw [← Option.mem_unique revision same]
      exact current
    · rw [cursor event received]
      exact ⟨current.known, fun _ => current⟩
  · have unfinished : (chunk stream snapshot).2.initialSnapshot = some snapshot :=
      if_neg fun equal => complete (eq_of_beq equal)
    have keeps : after.clears = false := beq_eq_false_iff_ne.mpr complete
    refine ⟨?_, fun event received => ⟨?_, fun settles => ?_⟩⟩
    · rw [InStep, unfinished]
      refine ⟨⟨past, here, shows⟩, revision, Nat.min_le_right _ _, ?_⟩
      rw [keeps, summaries]
      rfl
    · rw [cursor event received]
      exact ⟨past, here, shows.revision.symm⟩
    · obtain rfl := Option.some.inj received
      exact absurd (eq_of_beq settles) complete

theorem settles_settledDelta (changes : List RegistryChange) :
    Settles summaryRows registry changes (settledDelta registry changes).torrents
      (settledDelta registry changes).removed where
  mem_rows := by
    intro row
    simp only [settledDelta, mem_filterMap, mem_insertionSort]
    rfl
  mem_removed := by
    intro infoHash
    simp only [settledDelta, mem_filter, mem_insertionSort, Option.isNone_iff_eq_none]

/-- A delta brings the client to the present revision. -/
theorem delta_spec {changes : List RegistryChange} {lastRevision : Nat}
    (historic : Historic visited registry used) (few : used < 2 ^ 64)
    (current : Current summaryRows visited client.summaries lastRevision) (clears : client.clears = true)
    (settled : Settled visited client)
    (answer : registry.changesSince lastRevision = some changes) (stream : EventStreamState)
    (known : stream.registryRevision = some registry.revision) :
    let after := client.handed stream (settledDelta registry changes)
    after.clears = true ∧ Current summaryRows visited after.summaries registry.revision ∧
      Settled visited after := by
  obtain ⟨past, here, rfl, holds⟩ := current
  have applied : Current summaryRows visited (eraseAll (upserted client.summaries
      (settledDelta registry changes).torrents) (settledDelta registry changes).removed)
      registry.revision :=
    ⟨registry, historic.current, rfl,
      (settles_settledDelta changes).holds historic few here answer holds⟩
  rw [Client.handed]
  cases event : (settledDelta registry changes).isEvent with
  | true =>
    refine ⟨rfl, applied, fun event received => ?_⟩
    obtain rfl := Option.some.inj received
    simp only [Native.emit, known, Option.getD_some]
    exact ⟨applied.known, fun _ => applied⟩
  | false =>
    -- Without a row and a removal there is no event, and the client has all rows already.
    have nothing : (settledDelta registry changes).torrents = [] ∧
        (settledDelta registry changes).removed = [] := by
      have parts := event
      simp only [TorrentDelta.isEvent, Bool.or_eq_false_iff, Bool.not_eq_false',
        List.isEmpty_iff] at parts
      exact ⟨parts.1.2, parts.2⟩
    rw [nothing.1, nothing.2] at applied
    exact ⟨clears, applied, settled⟩

/-- What a turn leaves a linked client with. -/
def Outcome (visited : SessionRegistry → Prop) (client : Client) :
    Option TorrentDelta → EventStreamState → Prop
  | none, stream => InStep visited stream client ∧ Settled visited client
  | some delta, stream =>
    InStep visited stream (client.handed stream delta) ∧
      Settled visited (client.handed stream delta)

/-- A turn leaves the server coherent, and it keeps a client in step. -/
theorem turn_spec {server : AppState TorrentSnapshotItem}
    (historic : Historic visited server.registry used) (few : used < 2 ^ 64)
    (cacheShows : CacheShows itemRows visited server.torrentSnapshotCache)
    (settled : Settled visited client) (order : IterationOrder Str) (now : Nat) :
    (InStep visited stream client → Outcome visited client (turn order now server stream).1
      (turn order now server stream).2.1) ∧
    CacheShows itemRows visited (turn order now server stream).2.2.torrentSnapshotCache ∧
      server.registry.Leads [] (turn order now server stream).2.2.registry := by
  have stays := And.intro cacheShows historic.stays
  rw [turn]
  cases sending : stream.initialSnapshot with
  | some snapshot =>
    refine ⟨fun inStep => ?_, stays⟩
    rw [InStep, sending] at inStep
    exact chunk_spec historic inStep
  | none =>
    -- A stream without a revision starts over; the client clears its rows then.
    have behind : InStep visited stream client → Outcome visited client none
        { stream with registryRevision := none, initialSnapshot := none } := by
      intro inStep
      rw [InStep, sending] at inStep
      exact ⟨⟨inStep.1, nofun⟩, settled⟩
    cases known : stream.registryRevision with
    | none =>
      obtain ⟨snapshot, after, past, served, here, shows, cacheShowsAfter, leads⟩ :=
        AppState.torrentSnapshot_spec historic few cacheShows order now
      simp only [served]
      refine ⟨fun inStep => ?_, cacheShowsAfter, leads⟩
      rw [InStep, sending] at inStep
      refine ⟨⟨⟨past, here, shows⟩, rfl, Nat.zero_le _, ?_⟩, settled⟩
      rw [inStep.1]
      rfl
    | some lastRevision =>
      cases changed : server.registry.changesSince lastRevision with
      | none =>
        simp only [changed]
        exact ⟨behind, stays⟩
      | some changes =>
        simp only [changed]
        split
        next => exact ⟨behind, stays⟩
        next =>
          split
          next => exact ⟨fun inStep => ⟨inStep, settled⟩, stays⟩
          next =>
            refine ⟨fun inStep => ?_, stays⟩
            rw [InStep, sending] at inStep
            obtain ⟨clears, current⟩ := inStep
            obtain ⟨clearsNow, currentNow, settledNow⟩ := delta_spec historic few
              (current lastRevision known) clears settled changed { stream with
                registryRevision := some server.registry.revision, initialSnapshot := none } rfl
            refine ⟨⟨clearsNow, fun revision same => ?_⟩, settledNow⟩
            rw [← Option.some.inj same]
            exact currentNow

/-! ### Whole runs -/

/-- The invariant of a run, given what the registry has passed through. -/
structure Kept (visited : SessionRegistry → Prop) (next : System) : Prop where
  cacheShows : CacheShows itemRows visited next.server.torrentSnapshotCache
  settled : Settled visited next.client
  inStep : next.linked → InStep visited next.stream next.client

theorem Kept.mono (grows : ∀ past, visited past → more past) (kept : Kept visited system) :
    Kept more system where
  cacheShows := kept.cacheShows.mono grows
  settled := kept.settled.mono grows
  inStep linked := (kept.inStep linked).mono grows

theorem takeTurn_spec (historic : Historic visited system.server.registry used)
    (few : used < 2 ^ 64) (kept : Kept visited system) (order : IterationOrder Str) (now : Nat) :
    system.server.registry.Leads [] (takeTurn order now system).server.registry ∧
      Kept visited (takeTurn order now system) := by
  cases polling : system.polling with
  | false =>
    have same : takeTurn order now system = system := by
      rw [takeTurn, polling]
      rfl
    rw [same]
    exact ⟨historic.stays, kept⟩
  | true =>
    obtain ⟨cacheShows, settled, inStep⟩ := kept
    obtain ⟨outcome, cacheShowsNext, leads⟩ := turn_spec historic few cacheShows settled order now
    replace outcome := fun linked => outcome (inStep linked)
    rw [takeTurn, if_pos polling]
    generalize turn order now system.server system.stream = result at cacheShowsNext leads outcome ⊢
    obtain ⟨given, stream, server⟩ := result
    cases given with
    | none => exact ⟨leads, cacheShowsNext, settled, fun linked => (outcome linked).1⟩
    | some delta =>
      cases isEvent : delta.isEvent with
      | false =>
        have handed : system.client.handed stream delta = system.client := by
          rw [Client.handed, isEvent]
          rfl
        simp only [isEvent]
        refine ⟨leads, cacheShowsNext, settled, fun linked => ?_⟩
        have inStepNext := (outcome linked).1
        rw [handed] at inStepNext
        exact inStepNext
      | true =>
        have handed : system.client.handed stream delta =
            system.client.receive (emit stream delta).1 := by
          rw [Client.handed, isEvent]
          rfl
        simp only [isEvent, if_true, deliver]
        cases linked : system.linked with
        | false => exact ⟨leads, cacheShowsNext, settled, nofun⟩
        | true =>
          obtain ⟨inStepNext, settledNext⟩ := outcome linked
          rw [handed] at inStepNext settledNext
          exact ⟨leads, cacheShowsNext, settledNext, fun _ => inStepNext.emit delta⟩

theorem step_kept {action : Action} (historic : Historic visited system.server.registry used)
    (few : used + mutations system action < 2 ^ 64) (steady : Steady system action)
    (kept : Kept visited system) : ∃ next journal, step system action = .ok next ∧
      system.server.registry.Leads journal next.server.registry ∧
      journal.length = mutations system action ∧ Kept visited next := by
  obtain ⟨cacheShows, settled, inStep⟩ := id kept
  have stays := historic.stays
  cases action with
  | change event =>
    obtain ⟨registry, journal, changed, leads, count⟩ := SessionRegistry.step_leads
      (historic.coherent historic.current) (historic.valid historic.current) steady
      (by rw [historic.revision]; exact few)
    refine ⟨{ system with server := { system.server with registry } }, journal, ?_, leads, count,
      cacheShows, settled, inStep⟩
    simp only [step, changed]
    rfl
  | connect batchSize =>
    refine ⟨_, [], rfl, stays, rfl, cacheShows, settled, fun _ => ⟨rfl, ?_⟩⟩
    intro revision known
    obtain ⟨event, received, rfl⟩ := Option.map_eq_some_iff.mp known
    exact (settled event received).2 (steady event received)
  | poll slow =>
    rw [step]
    split
    next => exact ⟨_, [], rfl, stays, rfl, kept⟩
    next =>
      split
      next slow =>
        refine ⟨_, [], rfl, stays, rfl, cacheShows, settled, fun linked => ?_⟩
        have whole := inStep linked
        rw [InStep, Option.isNone_iff_eq_none.mp (steady slow linked)] at whole
        exact ⟨whole.1, nofun⟩
      next => exact ⟨_, [], rfl, stays, rfl, cacheShows, settled, inStep⟩
  | turn order now =>
    obtain ⟨leads, kept⟩ := takeTurn_spec historic few kept order now
    exact ⟨_, [], rfl, leads, rfl, kept⟩
  | disconnect =>
    exact ⟨_, [], rfl, stays, rfl, cacheShows, settled, nofun⟩
  | list order now =>
    obtain ⟨snapshot, server, past, served, here, shows, cacheShowsNext, leads⟩ :=
      AppState.torrentSnapshot_spec historic few cacheShows order now
    refine ⟨{ system with server }, [], ?_, leads, rfl, cacheShowsNext, settled, inStep⟩
    simp only [step, served]
    rfl

/-- After the run, clients hold the summaries of the registry at the revision of each delta and
of each completed snapshot. No cursor that they have is ahead of the registry. -/
def Converges (actions : List Action) : Prop :=
  ∃ final, Runs.run step start actions = .ok final ∧
    ∀ event ∈ final.client.received, event.cursor ≤ final.server.registry.revision ∧
      (∃ past, Runs.Visited step start actions past ∧
        past.server.registry.revision = event.cursor) ∧
      (event.settles → ∀ past, Runs.Visited step start actions past →
        past.server.registry.revision = event.cursor →
        Holds summaryRows final.client.summaries past.server.registry)

/-- Clients converge in every run in which torrents have distinct handles, none is demoted while
it is being finalized, and no reconnection and no fresh start falls between two chunks. -/
theorem stream_converges (actions : List Action) (steady : Runs.Along step Steady start actions)
    (few : Runs.spent step mutations start actions < 2 ^ 64) : Converges actions := by
  have fresh : registryOf start = .new := rfl
  obtain ⟨final, ran, historic, kept⟩ := Historic.run Kept fresh Kept.mono
    (fun _ => ⟨nofun, nofun, nofun⟩) step_kept steady few
  refine ⟨final, ran, fun event received => ?_⟩
  obtain ⟨⟨_, ⟨known, knownVisited, rfl⟩, cursor⟩, settled⟩ := kept.settled event received
  obtain ⟨_, _, _, _, _, leads, _⟩ := historic.leads _ ⟨known, knownVisited, rfl⟩
  refine ⟨?_, ⟨known, knownVisited, cursor⟩, fun settles other otherVisited otherSame => ?_⟩
  · rw [leads.revision, cursor]
    exact Nat.le_add_right _ _
  exact (settled settles).holds historic ⟨other, otherVisited, rfl⟩ otherSame

/-! ## Interrupted snapshots -/

def added (uuid : BitVec 128) (infoHash : Str) : Action :=
  .change (.add (.new ⟨uuid⟩ 0 infoHash [] []))

/-- A poll that goes round the loop as often as it takes to start a stream. -/
def polled (slow : Bool) (now : Nat) : List Action :=
  [.poll slow, .turn asStored now, .turn asStored now]

/-- Two torrents are sent one by one; the client reconnects after the first, and is sent a third
one that is added then. -/
def reconnected : List Action :=
  [added 1 [0x61], added 2 [0x62], .connect (some 1)] ++ polled false 0 ++
    [.connect none, added 3 [0x63]] ++ polled false 0

/-- Two torrents are sent one by one; the first is removed, and the stream starts over. -/
def restarted : List Action :=
  [added 1 [0x61], added 2 [0x62], .connect (some 1)] ++ polled false 0 ++
    [.change (.remove [0x61])] ++ polled true 20000

/-- The last event of a client, the present revision, and whether the registry and the client
have a torrent. -/
def observed (actions : List Action) (infoHash : Str) :
    Except Fault (Option (Bool × Nat) × Nat × Bool × Bool) := do
  let system ← Runs.run step start actions
  return (system.client.received.map fun event => (event.settles, event.cursor),
    system.server.registry.revision, (system.server.registry.view infoHash).isSome,
    (system.client.summaries.lookup infoHash).isSome)

/-- What the client has after some actions is not what the registry has at the same revision. -/
def Diverges (actions : List Action) : Prop :=
  ∃ final event, Runs.run step start actions = .ok final ∧ final.client.received = some event ∧
    event.settles = true ∧ event.cursor = final.server.registry.revision ∧
    ¬Holds summaryRows final.client.summaries final.server.registry

theorem diverges_of_observed {infoHash : Str} {registered : Bool}
    (seen : observed actions infoHash = .ok (some (true, revision), revision, registered, !registered)) :
    Diverges actions := by
  rw [observed, Fallible.bind_eq_ok] at seen
  obtain ⟨final, ran, shown⟩ := seen
  have shown := Except.ok.inj shown
  simp only [Prod.mk.injEq] at shown
  obtain ⟨last, present, there, here⟩ := shown
  obtain ⟨event, received, facts⟩ := Option.map_eq_some_iff.mp last
  obtain ⟨settles, cursor⟩ := Prod.mk.inj facts
  refine ⟨final, event, ran, received, settles, cursor.trans present.symm, fun holds => ?_⟩
  rw [holds, Option.isSome_map, there] at here
  cases registered <;> exact nomatch here

/-- A connection with a cursor ahead of an empty registry. -/
def ahead : EventStreamState := .new (some 1) none

/-- A client that reconnects in the middle of a snapshot misses the rest of it; a client whose
stream starts over keeps rows that are gone; and a stream that is opened with a cursor ahead of
the registry says nothing at all. -/
theorem interrupted_snapshots_diverge :
    Diverges reconnected ∧ Diverges restarted ∧
      (turn asStored 0 start.server ahead).1 = some TorrentDelta.nothing ∧
      TorrentDelta.nothing.isEvent = false := by
  have missing : observed reconnected [0x62] = .ok (some (true, 3), 3, true, !true) := by
    decide +kernel
  have stale : observed restarted [0x61] = .ok (some (true, 3), 3, false, !false) := by
    decide +kernel
  exact ⟨diverges_of_observed missing, diverges_of_observed stale, rfl, rfl⟩

/-- Two torrents are sent one by one, and then what is added. -/
def uninterrupted : List Action :=
  [added 1 [0x61], added 2 [0x62], .connect (some 1)] ++ polled false 0 ++ polled false 0 ++
    [added 3 [0x63]] ++ polled false 0

instance (system : System) (action : Action) : Decidable (Steady system action) :=
  match action with
  | .change event => inferInstanceAs (Decidable (_ ∧ _))
  | .connect _ =>
    match received : system.client.received with
    | none => isTrue (by simp [Steady, received])
    | some event => decidable_of_iff (event.settles = true) (by simp [Steady, received])
  | .poll slow => inferInstanceAs
      (Decidable (slow = true → system.linked = true → system.stream.initialSnapshot.isNone = true))
  | .turn _ _ | .disconnect | .list _ _ => isTrue trivial

theorem uninterrupted_converges : Converges uninterrupted :=
  stream_converges uninterrupted (by decide +kernel) (by decide +kernel)

end TorrentNG.Api.Native
