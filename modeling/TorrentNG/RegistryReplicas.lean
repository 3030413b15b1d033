import TorrentNG.RegistryChanges
import TorrentNG.Runs

/-!
# Replicas of the session registry

Clients keep a copy of the registry, one row for each torrent. They get all rows of some
revision at once, or the rows that changed since the revision they hold. Both facades settle
the changes in the same way: the last change of a hash tells whether its row is sent or its
removal. A client that holds the rows of a state which the registry has passed through then
holds the rows of the current one.
-/

namespace TorrentNG.Session.SessionRegistry

open ChangeLog List

variable {registry next past : SessionRegistry} {journal : List (Str × Bool)}
  {visited : SessionRegistry → Prop} {used : Nat}

/-- Every state that the registry has passed through leads to the present one, and its revision
tells which entries it had. -/
structure Historic (visited : SessionRegistry → Prop) (registry : SessionRegistry) (used : Nat) :
    Prop where
  current : visited registry
  leads : ∀ past, visited past → ∃ before journal, past.Coherent ∧ past.CachesValid ∧
    past.Journalled before ∧ past.Leads journal registry ∧ before.length + journal.length = used
  same : ∀ first second, visited first → visited second → first.revision = second.revision →
    first.view = second.view

namespace Historic

section

variable (historic : Historic visited registry used)

include historic

theorem coherent (here : visited past) : past.Coherent := by
  obtain ⟨_, _, coherent, _⟩ := historic.leads past here
  exact coherent

theorem valid (here : visited past) : past.CachesValid := by
  obtain ⟨_, _, _, valid, _⟩ := historic.leads past here
  exact valid

theorem stays : registry.Leads [] registry :=
  .refl (historic.coherent historic.current) (historic.valid historic.current)

theorem revision : registry.revision = used := by
  obtain ⟨before, journal, _, _, journalled, leads, count⟩ :=
    historic.leads registry historic.current
  rw [leads.revision, journalled.revision, count]

end

/-- States of one revision, of which one leads to the other, have the same entries. -/
theorem view_of_leads (leads : past.Leads journal registry)
    (equal : past.revision = registry.revision) : past.view = registry.view := by
  have none : journal = [] := by
    have counted := leads.revision
    exact eq_nil_of_length_eq_zero (by omega)
  subst none
  funext infoHash
  exact (leads.follows.unlisted nofun).symm

/-- One more step of the registry. -/
theorem step {more : SessionRegistry → Prop} (historic : Historic visited registry used)
    (leads : registry.Leads journal next) (here : more next)
    (either : ∀ past, more past → visited past ∨ past = next) :
    Historic more next (used + journal.length) := by
  have known : ∀ past, more past → ∃ before between, past.Coherent ∧ past.CachesValid ∧
      past.Journalled before ∧ past.Leads between next ∧
      before.length + between.length = used + journal.length := by
    intro past member
    rcases either past member with early | rfl
    · obtain ⟨before, between, coherent, valid, journalled, leadsHere, count⟩ :=
        historic.leads past early
      refine ⟨before, between ++ journal, coherent, valid, journalled, leadsHere.trans leads, ?_⟩
      rw [length_append, ← Nat.add_assoc, count]
    · obtain ⟨before, between, _, _, journalled, leadsHere, count⟩ :=
        historic.leads registry historic.current
      refine ⟨before ++ between ++ journal, [], leads.coherent, leads.valid,
        leads.journalled _ (leadsHere.journalled _ journalled), .refl leads.coherent leads.valid, ?_⟩
      rw [length_append, length_append, count]
      rfl
  refine ⟨here, known, fun first second member alsoMember equal => ?_⟩
  rcases either first member with early | rfl
  · rcases either second alsoMember with alsoEarly | rfl
    · exact historic.same first second early alsoEarly equal
    · obtain ⟨_, _, _, _, _, leadsOn, _⟩ := known first member
      exact view_of_leads leadsOn equal
  · obtain ⟨_, _, _, _, _, leadsOn, _⟩ := known second alsoMember
    exact (view_of_leads leadsOn equal.symm).symm

end Historic

/-! ## The registry of a running system -/

section Passed

open Runs

universe u v
variable {σ : Type} {α : Type v} {ε : Type u} {system : σ → α → Except ε σ}
  {registryOf : σ → SessionRegistry} {start state after : σ} {events : List α} {event : α}

/-- The registries that a run of a system passes through. -/
def Passed (system : σ → α → Except ε σ) (registryOf : σ → SessionRegistry) (start : σ)
    (events : List α) (registry : SessionRegistry) : Prop :=
  ∃ state, Visited system start events state ∧ registryOf state = registry

theorem Passed.later (passed : Passed system registryOf start events registry) (event : α) :
    Passed system registryOf start (events ++ [event]) registry := by
  obtain ⟨state, visited, same⟩ := passed
  exact ⟨state, visited.later event, same⟩

theorem Historic.initial (fresh : registryOf start = new) :
    Historic (Passed system registryOf start []) (registryOf start) 0 := by
  have only : ∀ past, Passed system registryOf start [] past → past = new := by
    rintro past ⟨state, ⟨earlier, leading, ran⟩, rfl⟩
    obtain rfl := prefix_nil.mp leading
    rw [← Except.ok.inj ran, fresh]
  have here : Passed system registryOf start [] (registryOf start) := ⟨start, .here rfl, rfl⟩
  rw [fresh] at here ⊢
  refine ⟨here, fun past passed => ?_, fun first second passed alsoPassed _ => ?_⟩
  · rw [only past passed]
    exact ⟨[], [], new_coherent, new_cachesValid, new_journalled,
      .refl new_coherent new_cachesValid, rfl⟩
  · rw [only first passed, only second alsoPassed]

theorem Historic.advance (ran : Runs.run system start events = .ok state)
    (stepped : system state event = .ok after)
    (historic : Historic (Passed system registryOf start events) (registryOf state) used)
    (leads : (registryOf state).Leads journal (registryOf after)) :
    Historic (Passed system registryOf start (events ++ [event])) (registryOf after)
      (used + journal.length) := by
  refine historic.step leads ⟨after, .here ((run_snoc ran event).trans stepped), rfl⟩ ?_
  rintro past ⟨state, visited, rfl⟩
  rcases visited_snoc ran stepped visited with early | rfl
  · exact .inl ⟨state, early, rfl⟩
  · exact .inr rfl

/-- The invariant rule. What is kept may depend on the registries that the run has passed through,
and each step leads the registry on by as many changes as it costs. -/
theorem Historic.run (Kept : (SessionRegistry → Prop) → σ → Prop) {condition : σ → α → Prop}
    {weight : σ → α → Nat} {bound : Nat} (fresh : registryOf start = new)
    (mono : ∀ {visited more state}, (∀ past, visited past → more past) → Kept visited state →
      Kept more state)
    (initial : ∀ visited, Kept visited start)
    (kept : ∀ {visited used state event}, Historic visited (registryOf state) used →
      used + weight state event < bound → condition state event → Kept visited state →
      ∃ next journal, system state event = .ok next ∧
        (registryOf state).Leads journal (registryOf next) ∧
        journal.length = weight state event ∧ Kept visited next)
    (along : Along system condition start events)
    (few : spent system weight start events < bound) :
    ∃ final, Runs.run system start events = .ok final ∧
      Historic (Passed system registryOf start events) (registryOf final)
        (spent system weight start events) ∧
      Kept (Passed system registryOf start events) final := by
  let Inv (earlier : List α) (used : Nat) (state : σ) : Prop :=
    Historic (Passed system registryOf start earlier) (registryOf state) used ∧
      Kept (Passed system registryOf start earlier) state
  have begins : Inv [] 0 start := ⟨.initial fresh, initial _⟩
  refine run_invariant begins ?_ along few
  rintro earlier used state event ran ⟨historic, holds⟩ allowed room
  obtain ⟨next, journal, stepped, leads, count, holdsNext⟩ := kept historic room allowed holds
  rw [← count]
  exact ⟨next, stepped, .advance ran stepped historic leads,
    mono (fun past here => here.later event) holdsNext⟩

end Passed

end TorrentNG.Session.SessionRegistry

namespace TorrentNG.Api

open ChangeLog Session Tables
open SessionRegistry (Historic unstamped changesSince_leads get_eq_view)

/-- What a facade shows of an entry, under the hash of the entry. -/
structure RowKind (Row : Type) where
  ofEntry : TorrentEntry → Row
  infoHash : Row → Str
  infoHash_ofEntry : ∀ entry, infoHash (ofEntry entry) = entry.infoHash

variable {Row : Type} {kind : RowKind Row} {registry past : SessionRegistry}
  {visited : SessionRegistry → Prop} {used : Nat} {replica : Table Str Row}

/-- The replica has the row of every registered entry and no other row. -/
def Holds (kind : RowKind Row) (replica : Table Str Row) (registry : SessionRegistry) : Prop :=
  ∀ infoHash, replica.lookup infoHash = (registry.view infoHash).map kind.ofEntry

theorem Holds.of_view (holds : Holds kind replica past) (same : past.view = registry.view) :
    Holds kind replica registry := by
  intro infoHash
  rw [holds infoHash, same]

/-- The replica is that of a state with the revision, which the registry has passed through. -/
def Current (kind : RowKind Row) (visited : SessionRegistry → Prop) (replica : Table Str Row)
    (revision : Nat) : Prop :=
  ∃ past, visited past ∧ past.revision = revision ∧ Holds kind replica past

section Current

variable {revision : Nat} (current : Current kind visited replica revision)

include current

theorem Current.known : ∃ past, visited past ∧ past.revision = revision := by
  obtain ⟨past, here, same, _⟩ := current
  exact ⟨past, here, same⟩

theorem Current.mono {more : SessionRegistry → Prop} (grows : ∀ past, visited past → more past) :
    Current kind more replica revision := by
  obtain ⟨past, here, same, holds⟩ := current
  exact ⟨past, grows past here, same, holds⟩

theorem Current.revision_le (historic : Historic visited registry used) :
    revision ≤ registry.revision := by
  obtain ⟨past, here, rfl, _⟩ := current
  obtain ⟨_, _, _, _, _, leads, _⟩ := historic.leads past here
  rw [leads.revision]
  exact Nat.le_add_right _ _

/-- The revision tells which rows there are. -/
theorem Current.holds (historic : Historic visited registry used) (here : visited past)
    (same : past.revision = revision) : Holds kind replica past := by
  obtain ⟨other, there, alsoSame, holds⟩ := current
  exact holds.of_view (historic.same other past there here (alsoSame.trans same.symm))

end Current

theorem keyed (coherent : registry.Coherent) {infoHash : Str} {row : Row}
    (shown : (registry.view infoHash).map kind.ofEntry = some row) : kind.infoHash row = infoHash := by
  obtain ⟨entry, found, rfl⟩ := Option.map_eq_some_iff.mp shown
  rw [kind.infoHash_ofEntry, coherent.infoHash_of_view found]

/-- All rows of a state, put into an empty replica. -/
theorem holds_projection (coherent : registry.Coherent) :
    Holds kind (insertAll kind.infoHash ∅ (registry.projection.map kind.ofEntry)) registry := by
  have projects := coherent.projects_projection
  intro infoHash
  cases shown : registry.view infoHash with
  | none =>
    refine lookup_insertAll_of_unlisted ?_ ∅
    rintro row inside rfl
    obtain ⟨entry, listed, rfl⟩ := List.mem_map.mp inside
    rw [kind.infoHash_ofEntry, ((projects.mem entry).mp listed).1] at shown
    exact nomatch shown
  | some entry =>
    have named := coherent.infoHash_of_view shown
    subst named
    rw [Option.map_some, ← kind.infoHash_ofEntry entry]
    have listed := (projects.mem entry).mpr ⟨shown, trivial⟩
    refine lookup_insertAll_of_mem (List.mem_map_of_mem listed) ?_ ∅
    intro other inside same
    obtain ⟨otherEntry, otherListed, rfl⟩ := List.mem_map.mp inside
    rw [kind.infoHash_ofEntry, kind.infoHash_ofEntry] at same
    have otherShown := ((projects.mem otherEntry).mp otherListed).1
    rw [same, shown] at otherShown
    rw [Option.some.inj otherShown]

/-- The rows that a delta sends are those of the hashes whose last change is no removal, and it
names the hashes whose last change is one. -/
structure Settles (kind : RowKind Row) (registry : SessionRegistry) (changes : List RegistryChange)
    (rows : List Row) (removed : List Str) : Prop where
  mem_rows : ∀ row, row ∈ rows ↔ ∃ infoHash ∈ (settle (changes.map unstamped)).1,
    (registry.get infoHash).map kind.ofEntry = some row
  mem_removed : ∀ infoHash, infoHash ∈ removed ↔
    infoHash ∈ (settle (changes.map unstamped)).2 ∧ registry.get infoHash = none

/-- A delta turns a replica of a state into one of the present state. -/
theorem Settles.holds {changes : List RegistryChange} {rows : List Row} {removed : List Str}
    (settles : Settles kind registry changes rows removed)
    (historic : Historic visited registry used) (few : used < 2 ^ 64) (here : visited past)
    (answer : registry.changesSince past.revision = some changes)
    (holds : Holds kind replica past) :
    Holds kind (eraseAll (insertAll kind.infoHash replica rows) removed) registry := by
  obtain ⟨before, journal, _, _, journalled, leads, count⟩ := historic.leads past here
  have listed := changesSince_leads journalled leads (by omega) answer
  -- The log names hashes in the canonical form, in which they are looked up as they are.
  have found : ∀ {infoHash isRemoved}, lastChange infoHash journal = some isRemoved →
      registry.get infoHash = registry.view infoHash := by
    intro infoHash isRemoved last
    rw [get_eq_view, leads.canonical _ (mem_of_lastChange last)]
  intro infoHash
  refine (leads.follows.map kind.ofEntry).replicates (keyed leads.coherent) holds ?_ ?_ infoHash
  · intro row
    rw [settles.mem_rows, listed]
    refine exists_congr fun named => ?_
    rw [(mem_settle journal named).1]
    refine and_congr_right fun last => ?_
    rw [found last]
  · intro named
    rw [settles.mem_removed, listed, (mem_settle journal named).2]
    refine and_iff_left_of_imp fun last => ?_
    rw [found last]
    exact (leads.follows.last last).mp rfl

end TorrentNG.Api
