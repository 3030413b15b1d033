import TorrentNG.Fastresume
import TorrentNG.ReplacedFile

/-!
# The run marker

A start of the daemon reads the marker that the run before it has left, says how that run has
ended, and replaces the marker by its own. Heartbeats and a graceful end replace it again. The
marker that is read is a graceful one only if the last run to replace it has ended gracefully.

This need not be the run before the start. If a start cannot write its marker, then that of an
earlier run stays, and the next start takes it for the marker of the run that has failed to write
one. Runs that do write their markers are never taken for a graceful one.

Of the marker's JSON only the length is used: a marker that is too long is not read.
-/

namespace TorrentNG.RunMarkers

open ReplacedFile Utf8
open Fastresume (PreviousRun)

def runMarkerVersion : Nat := 1

def maxRunMarkerBytes : Nat := 4096

def bootTimeToleranceSecs : Nat := 15

structure RunMarker where
  version : Nat
  bootId : Option Text
  pid : Nat
  runId : Nat
  startedUnix : Nat
  heartbeatUnix : Nat
  graceful : Bool
deriving DecidableEq

inductive MarkerRead where
  | absent
  | present (marker : RunMarker)
  | corrupt
deriving DecidableEq

structure PreviousRunAssessment where
  verdict : PreviousRun
  crashReferenceUnix : Option Nat
  previousBootId : Option Text
  currentBootId : Option Text
  previousPid : Option Nat
  previousRunId : Option Nat
deriving DecidableEq

/-- What the platform and the encoding of markers give. -/
structure Platform where
  parseBootTime : Text → Option Nat
  jsonLength : RunMarker → Nat

variable (platform : Platform)

/-! ## Reading and writing the marker -/

def bootChanged (previous current : Option Text) : Option Bool :=
  match previous, current with
  | some previous, some current =>
    match platform.parseBootTime previous, platform.parseBootTime current with
    | some before, some now => some (bootTimeToleranceSecs < max before now - min before now)
    | _, _ => some (previous != current)
  | _, _ => none

def assessPreviousRun (read : MarkerRead) (currentBootId : Option Text) : PreviousRunAssessment :=
  match read with
  | .absent =>
    { verdict := .noRecord
      crashReferenceUnix := none
      previousBootId := none
      currentBootId
      previousPid := none
      previousRunId := none }
  | .corrupt =>
    { verdict := .uncleanUnknownCause
      crashReferenceUnix := none
      previousBootId := none
      currentBootId
      previousPid := none
      previousRunId := none }
  | .present marker =>
    if marker.graceful then
      { verdict := .clean
        crashReferenceUnix := none
        previousBootId := marker.bootId
        currentBootId
        previousPid := some marker.pid
        previousRunId := some marker.runId }
    else
      { verdict :=
          match bootChanged platform marker.bootId currentBootId with
          | some true => .hostCrash
          | some false => .processCrash
          | none => .uncleanUnknownCause
        crashReferenceUnix := some (max marker.heartbeatUnix marker.startedUnix)
        previousBootId := marker.bootId
        currentBootId
        previousPid := some marker.pid
        previousRunId := some marker.runId }

/-- The marker file, which is there or not. -/
abbrev MarkerFile := File (Option RunMarker)

variable (file : MarkerFile)

/-- Reading can fail for reasons of its own, also where there is no file. -/
def readMarker (readable : Bool) : MarkerRead :=
  if readable = false then .corrupt
  else
    match file.current with
    | none => .absent
    | some marker =>
      if maxRunMarkerBytes < platform.jsonLength marker then .corrupt
      else if marker.version = runMarkerVersion then .present marker
      else .corrupt

/-! ## Runs -/

/-- A call during a run, with how far its write comes. -/
inductive Call where
  | heartbeat (nowUnix : Nat) (written : Replacement)
  | endRunGracefully (nowUnix : Nat) (written : Replacement)
deriving DecidableEq

def Call.isEnd : Call → Bool
  | .heartbeat .. => false
  | .endRunGracefully .. => true

/-- A run, as far as it comes: a crash ends it anywhere, also within a write. If the host crashes
with it, then what was not synced may be lost. -/
structure Run where
  bootId : Option Text
  pid : Nat
  runId : Nat
  startedUnix : Nat
  readable : Bool
  begun : Replacement
  calls : List Call
  hostCrash : Option Nat
deriving DecidableEq

variable (run : Run)

def Run.callsEnd : Bool := run.calls.any Call.isEnd

/-- The marker of a running daemon, and the file. There is no marker if the start could not write
it. -/
structure Running where
  live : Option RunMarker
  file : MarkerFile

def beginMarker : RunMarker where
  version := runMarkerVersion
  bootId := run.bootId
  pid := run.pid
  runId := run.runId
  startedUnix := run.startedUnix
  heartbeatUnix := run.startedUnix
  graceful := false

def start : PreviousRunAssessment × Running :=
  (assessPreviousRun platform (readMarker platform file run.readable) run.bootId,
    { live := if run.begun = .synced then some (beginMarker run) else none
      file := file.replace (some (beginMarker run)) run.begun })

def call (running : Running) (event : Call) : Running :=
  match running.live with
  | none => running
  | some marker =>
    match event with
    | .heartbeat nowUnix written =>
      let marker := { marker with heartbeatUnix := max nowUnix marker.heartbeatUnix }
      { live := some marker, file := running.file.replace (some marker) written }
    | .endRunGracefully nowUnix written =>
      let marker :=
        { marker with heartbeatUnix := max nowUnix marker.heartbeatUnix, graceful := true }
      { live := some marker, file := running.file.replace (some marker) written }

/-- The file after the run. -/
def afterRun : MarkerFile :=
  let file := (run.calls.foldl call (start platform file run).2).file
  match run.hostCrash with
  | none => file
  | some kept => file.survive kept

/-- What each start says of the run before it. -/
def assessments (file : MarkerFile) : List Run → List PreviousRunAssessment
  | [] => []
  | run :: runs => (start platform file run).1 :: assessments (afterRun platform file run) runs

/-- A directory without a marker. -/
def noMarker : MarkerFile := { current := none, older := [] }

/-! ## What a marker says -/

/-- The marker is not a graceful one, unless a graceful end was called. -/
def Honest (ended : Bool) (content : Option RunMarker) : Prop :=
  ∀ marker ∈ content, marker.graceful = true → ended = true

variable {platform}

theorem graceful_of_clean {file : MarkerFile} {run : Run}
    (clean : (start platform file run).1.verdict = .clean) :
    ∃ marker, file.current = some marker ∧ marker.graceful = true := by
  simp only [start, readMarker] at clean
  split at clean
  · exact nomatch clean
  cases content : file.current with
  | none =>
    rw [content] at clean
    exact nomatch clean
  | some marker =>
    refine ⟨marker, rfl, ?_⟩
    rw [content] at clean
    simp only at clean
    split at clean
    · exact nomatch clean
    split at clean
    · rw [assessPreviousRun] at clean
      cases graceful : marker.graceful with
      | true => rfl
      | false =>
        rw [graceful, if_neg Bool.false_ne_true] at clean
        cases changed : bootChanged platform marker.bootId run.bootId with
        | none =>
          rw [changed] at clean
          exact nomatch clean
        | some changes =>
          rw [changed] at clean
          cases changes <;> exact nomatch clean
    · exact nomatch clean

/-- A call writes a graceful marker only if it is a graceful end, or comes after one. -/
theorem honest_call {running : Running} {ended : Bool} (live : Honest ended running.live)
    (file : running.file.Every (Honest ended)) (event : Call) :
    Honest (ended || event.isEnd) (call running event).live ∧
      (call running event).file.Every (Honest (ended || event.isEnd)) := by
  have weaker : ∀ {content}, Honest ended content → Honest (ended || event.isEnd) content :=
    fun honest marker inside graceful => by rw [honest marker inside graceful, Bool.true_or]
  have kept := file.mono fun content => weaker
  rw [call]
  cases marked : running.live with
  | none => exact ⟨weaker live, kept⟩
  | some marker =>
    cases event with
    | heartbeat nowUnix written =>
      have honest : Honest (ended || false)
          (some { marker with heartbeatUnix := max nowUnix marker.heartbeatUnix }) := by
        intro other same graceful
        obtain rfl := Option.some.inj same
        exact weaker live marker marked graceful
      exact ⟨honest, kept.replace honest written⟩
    | endRunGracefully nowUnix written =>
      have honest : ∀ content, Honest (ended || true) content := fun _ _ _ _ => Bool.or_true ended
      exact ⟨honest _, kept.replace (honest _) written⟩

/-- The markers of a run that has written its first one are graceful only if it calls a graceful
end. -/
theorem honest_afterRun {run : Run} (begun : run.begun = .synced) :
    (afterRun platform file run).Every (Honest run.callsEnd) := by
  have fresh : Honest false (some (beginMarker run)) := by
    intro marker same graceful
    obtain rfl := Option.some.inj same
    exact nomatch graceful
  have live : Honest false (start platform file run).2.live := by
    rw [start]
    simp only [if_pos begun]
    exact fresh
  have written : (start platform file run).2.file.Every (Honest false) := by
    simp only [start, begun]
    exact File.every_synced fresh
  have called : ∀ (calls : List Call) (running : Running) (ended : Bool),
      Honest ended running.live → running.file.Every (Honest ended) →
      (calls.foldl call running).file.Every (Honest (ended || calls.any Call.isEnd)) := by
    intro calls
    induction calls with
    | nil =>
      intro running ended _ file
      rw [List.any_nil, Bool.or_false]
      exact file
    | cons event events ih =>
      intro running ended live file
      obtain ⟨liveNext, fileNext⟩ := honest_call live file event
      rw [List.foldl_cons, List.any_cons, ← Bool.or_assoc]
      exact ih (call running event) _ liveNext fileNext
  have whole := called run.calls (start platform file run).2 false live written
  rw [afterRun]
  cases run.hostCrash with
  | none => exact whole
  | some kept => exact whole.survive kept

/-! ## Clean starts -/

/-- A start that says the run before it was clean is preceded by a run, and this run has called a
graceful end if it has written its marker at all. -/
theorem clean_follows_graceful_end (platform : Platform) (runs : List Run) (index : Nat)
    (assessment : PreviousRunAssessment)
    (started : (assessments platform noMarker runs)[index]? = some assessment)
    (clean : assessment.verdict = .clean) :
    ∃ previous run, index = previous + 1 ∧ runs[previous]? = some run ∧
      (run.begun = .synced → run.callsEnd = true) := by
  have general : ∀ (runs : List Run) (file : MarkerFile) (index : Nat),
      (assessments platform file runs)[index + 1]? = some assessment →
      ∃ run, runs[index]? = some run ∧ (run.begun = .synced → run.callsEnd = true) := by
    intro runs
    induction runs with
    | nil => exact nofun
    | cons run rest ih =>
      intro file index found
      cases index with
      | succ index => exact ih (afterRun platform file run) index found
      | zero =>
        refine ⟨run, rfl, fun begun => ?_⟩
        cases rest with
        | nil => exact nomatch found
        | cons next others =>
          obtain rfl := Option.some.inj found
          obtain ⟨marker, current, graceful⟩ := graceful_of_clean clean
          exact (honest_afterRun file begun).current marker current graceful
  cases index with
  | succ previous =>
    obtain ⟨run, found, called⟩ := general runs noMarker previous started
    exact ⟨previous, run, rfl, found, called⟩
  | zero =>
    cases runs with
    | nil => exact nomatch started
    | cons run rest =>
      obtain rfl := Option.some.inj started
      obtain ⟨marker, current, _⟩ := graceful_of_clean clean
      exact nomatch current

/-! ## A start that cannot write its marker -/

def samplePlatform : Platform where
  parseBootTime := fun _ => none
  jsonLength := fun _ => 200

/-- A run of a process that ends with nothing lost. -/
def sampleRun (runId : Nat) (begun : Replacement) (calls : List Call) : Run where
  bootId := some "boot".toList
  pid := runId
  runId
  startedUnix := 1000 * runId
  readable := true
  begun
  calls
  hostCrash := none

/-- The first run ends gracefully, the second cannot write its marker and crashes. -/
def markerNotWritten : List Run :=
  [sampleRun 1 .synced [.heartbeat 1500 .synced, .endRunGracefully 1600 .synced],
    sampleRun 2 .failed [], sampleRun 3 .synced []]

/-- The third start says that the run before it was clean, but this run has crashed. -/
theorem stale_marker_is_clean :
    (assessments samplePlatform noMarker markerNotWritten)[2]?.map
        PreviousRunAssessment.verdict = some .clean ∧
      (markerNotWritten[1]?.map Run.callsEnd) = some false := by
  decide

theorem graceful_end_is_clean :
    ∃ assessment,
      (assessments samplePlatform noMarker markerNotWritten)[1]? = some assessment ∧
        assessment.verdict = .clean ∧
        ∃ previous run, 1 = previous + 1 ∧ markerNotWritten[previous]? = some run ∧
          (run.begun = .synced → run.callsEnd = true) :=
  ⟨_, rfl, rfl, clean_follows_graceful_end samplePlatform markerNotWritten 1 _ rfl rfl⟩

end TorrentNG.RunMarkers
