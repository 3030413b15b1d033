import TorrentNG.PlanRuns

/-!
# Storage moves

A move is executed, interrupted, cancelled, cut off and resumed any number of times. At
every moment its content is in one of two places. Until the destination is published the
source holds it. From then on the destination does, and the source is deleted only after
the checkpoint of the publishing step is durable. The two kinds of plan differ in what is
renamed to the destination: the source itself, or the staged copy of it.

The rollback of a plan deletes the staging path. A move whose source has the name of the
staging path of its destination is therefore lost with the first step that fails, and the
results here are about all other moves.
-/

namespace TorrentNG.Plan

open Interruptible Interruptible.Program List Metainfo Utf8 Function MachineArithmetic

/-- What a plan moves, and how it publishes it: step `publish` renames `carrier` to the
destination. -/
structure Move where
  sha1 : Bytes → Digest 20
  original : Node
  source : Path
  destination : Path
  carrier : Path
  publish : Nat
  /-- The check of the plan that the original has passed when it is published. -/
  verified : Prop
  moves : source ≠ destination
  apart : stagingPath destination ≠ source
  carried : carrier = source ∨ carrier = stagingPath destination

variable {move : Move} {world : World} {plan : StoragePlan} {bytes : Nat}

namespace Move

abbrev staging (move : Move) : Path := stagingPath move.destination

theorem staging_ne_destination (move : Move) : move.staging ≠ move.destination := stagingPath_ne _

theorem carrier_ne_destination (move : Move) : move.carrier ≠ move.destination := by
  rcases move.carried with same | same
  · rw [same]
    exact move.moves
  · rw [same]
    exact move.staging_ne_destination

/-- The verification does not mistake this content for the original. -/
def Honest (move : Move) (node : Node) : Prop :=
  Verifies move.sha1 move.original node → node = move.original

/-- Nothing has been published. -/
structure Kept (move : Move) (world : World) : Prop where
  source : world.files move.source = some move.original
  unpublished : move.publish ∉ world.persisted
  carrier : ∀ node, world.files move.carrier = some node → move.Honest node
  destination : ∀ node, world.files move.destination = some node → move.Honest node
  finished : ∀ index ∈ world.finished, index < move.publish

/-- The destination is published. What was renamed to it is gone, and the source is still
there unless that is what was renamed or the checkpoint is durable. -/
structure Published (move : Move) (world : World) : Prop where
  destination : world.files move.destination = some move.original
  verified : move.verified
  carrier : world.files move.carrier = none
  source : move.carrier = move.source ∨ world.files move.source = some move.original ∨
    move.publish ∈ world.persisted
  finished : ∀ index ∈ world.finished, index ≤ move.publish + 1

structure Invariant (move : Move) (world : World) : Prop where
  safe : move.Kept world ∨ move.Published world
  begun : world.begun.Pairwise (· < ·)
  finished : world.finished.Pairwise (· ≤ ·)

/-- The outside may leave anything behind that cannot be mistaken for the original. -/
def guard (move : Move) : Guard World Answer where
  invariant := move.Invariant
  allowed
    | .leaves node => move.Honest node
    | _ => True

/-- The steps begun in this run come before the given one. -/
def Before (index : Nat) (world : World) : Prop := ∀ earlier ∈ world.begun, earlier < index

/-! ## The records of a run -/

variable {index : Nat}

theorem pairwise_concat {relation : Nat → Nat → Prop} {indexes : List Nat}
    (sorted : indexes.Pairwise relation) (last : ∀ earlier ∈ indexes, relation earlier index) :
    (indexes ++ [index]).Pairwise relation :=
  pairwise_append.mpr ⟨sorted, pairwise_singleton _ _,
    fun earlier member => forall_mem_singleton.mpr (last earlier member)⟩

theorem Invariant.begin (kept : move.Invariant world) (early : Before index world) :
    move.Invariant (world.begin index) where
  safe := kept.safe.imp (fun known => { known with }) fun known => { known with }
  begun := pairwise_concat kept.begun early
  finished := kept.finished

theorem Before.begin (early : Before index world) : Before (index + 1) (world.begin index) := by
  have later := Nat.lt_succ_self index
  refine forall_mem_append.mpr ⟨?_, forall_mem_singleton.mpr later⟩
  exact fun earlier known => (early earlier known).trans later

theorem mem_persist {other : Nat} :
    other ∈ (world.persist index).persisted ↔ other = index ∨ other ∈ world.persisted := by
  simp only [World.persist]
  split_ifs with known
  · exact (or_iff_right_of_imp fun same => same ▸ known).symm
  · exact mem_orderedInsert (· ≤ ·)

theorem Kept.finish (kept : move.Kept world) (early : index < move.publish) :
    move.Kept (world.finish index) where
  __ := kept
  finished := forall_mem_append.mpr ⟨kept.finished, forall_mem_singleton.mpr early⟩

theorem Published.finish (published : move.Published world) (early : index ≤ move.publish + 1) :
    move.Published (world.finish index) where
  __ := published
  finished := forall_mem_append.mpr ⟨published.finished, forall_mem_singleton.mpr early⟩

theorem Kept.persist (kept : move.Kept world) (other : index ≠ move.publish) :
    move.Kept (world.persist index) := by
  refine { kept with unpublished := ?_ }
  rw [mem_persist]
  rintro (same | known)
  · exact other same.symm
  · exact kept.unpublished known

theorem Published.persist (published : move.Published world) (index : Nat) :
    move.Published (world.persist index) := by
  refine { published with source := published.source.imp_right (Or.imp_right fun known => ?_) }
  exact mem_persist.mpr (Or.inr known)

theorem Invariant.persist (kept : move.Invariant world) (other : index ≠ move.publish) :
    move.Invariant (world.persist index) :=
  ⟨kept.safe.imp (·.persist other) (·.persist index), kept.begun, kept.finished⟩

/-! ## Losing what is expendable -/

theorem honest_original (move : Move) : move.Honest move.original := fun _ => rfl

/-- The staging path may hold anything as long as nothing is published from it. -/
theorem Kept.set_staging (kept : move.Kept world) {entry : Option Node}
    (honest : ∀ node, entry = some node → move.Honest node) :
    move.Kept (world.set move.staging entry) := by
  have source := set_files_of_ne move.apart.symm world entry
  have destination := set_files_of_ne move.staging_ne_destination.symm world entry
  refine ⟨source.trans kept.source, kept.unpublished, ?_, ?_, kept.finished⟩
  · intro node held
    rcases move.carried with same | same
    · rw [same] at held
      obtain rfl := Option.some.inj ((source.trans kept.source).symm.trans held)
      exact move.honest_original
    · rw [same] at held
      exact honest node ((set_files_self world move.staging entry).symm.trans held)
  · intro node held
    exact kept.destination node (destination.symm.trans held)

theorem expendable_staging (move : Move) : Expendable move.guard (fun _ => True) move.staging := by
  intro world entry occupied honest kept _
  refine ⟨⟨?_, kept.begun, kept.finished⟩, trivial⟩
  rcases kept.safe with known | published
  · exact Or.inl (known.set_staging honest)
  · right
    rcases move.carried with same | same
    · have source := set_files_of_ne move.apart.symm world entry
      have destination := set_files_of_ne move.staging_ne_destination.symm world entry
      refine ⟨destination.trans published.destination, published.verified, ?_, Or.inl same,
        published.finished⟩
      rw [same]
      exact source.trans (same ▸ published.carrier)
    · have gone := published.carrier
      rw [same] at gone
      exact absurd gone occupied

/-- Rolling a move back takes away the staging path and nothing else. -/
theorem rollback_triple (move : Move)
    (rolls : plan.rollbackSteps = [⟨.safeDeleteIfPresent, some move.staging, none, bytes⟩]) :
    Triple move.guard (fun _ => True) (rollbackPlan move.sha1 plan) (fun _ _ => True) := by
  apply rollbackPlan_triple
  rw [rolls]
  intro step member
  rw [mem_singleton.mp member]
  exact call_triple.bind fun _ => secureDelete_triple move.expendable_staging true

/-! ## Publishing -/

/-- What the carrier holds is the original if it passes the check of the rename. -/
def Carries (move : Move) (bytes : Nat) (world : World) : Prop :=
  ∀ node, world.files move.carrier = some node → LengthMatches bytes (some node) →
    node = move.original ∧ move.verified

/-- Published just now: everything else is as it was before. -/
structure Fresh (move : Move) (world : World) : Prop where
  published : move.Published world
  unpersisted : move.publish ∉ world.persisted
  source : move.carrier ≠ move.source → world.files move.source = some move.original
  finished : ∀ index ∈ world.finished, index < move.publish

theorem move_files_carrier (move : Move) (world : World) :
    (world.move move.carrier move.destination).files move.carrier = none := by
  simp only [World.move]
  rw [set_files_of_ne move.carrier_ne_destination, set_files_self]

/-- A path that is neither end of a rename keeps what it holds. -/
theorem move_files_of_ne {source destination path : Path} (first : path ≠ source)
    (second : path ≠ destination) (world : World) :
    (world.move source destination).files path = world.files path := by
  simp only [World.move]
  rw [set_files_of_ne second, set_files_of_ne first]

theorem Kept.publish (kept : move.Kept world)
    (holds : world.files move.carrier = some move.original) (verified : move.verified) :
    move.Fresh (world.move move.carrier move.destination) := by
  have source : move.carrier ≠ move.source →
      (world.move move.carrier move.destination).files move.source = some move.original := by
    intro other
    rw [move_files_of_ne other.symm move.moves]
    exact kept.source
  refine ⟨⟨?_, verified, move.move_files_carrier world, ?_, ?_⟩, kept.unpublished, source,
    kept.finished⟩
  · exact (update_self ..).trans holds
  · by_cases same : move.carrier = move.source
    · exact Or.inl same
    · exact Or.inr (Or.inl (source same))
  · exact fun index member => (kept.finished index member).le.trans (Nat.le_succ _)

/-- Renaming back undoes the publication. -/
theorem Fresh.restore (fresh : move.Fresh world) :
    move.Kept (world.move move.destination move.carrier) := by
  have carrier : (world.move move.destination move.carrier).files move.carrier =
      some move.original := (update_self ..).trans fresh.published.destination
  refine ⟨?_, fresh.unpersisted, ?_, ?_, fresh.finished⟩
  · by_cases same : move.carrier = move.source
    · rw [← same]
      exact carrier
    · rw [move_files_of_ne move.moves (Ne.symm same)]
      exact fresh.source same
  · intro node held
    rw [← Option.mem_unique carrier held]
    exact move.honest_original
  · intro node held
    simp only [World.move] at held
    rw [set_files_of_ne move.carrier_ne_destination.symm, set_files_self] at held
    cases held

/-- The publishing step. -/
theorem publish_triple (move : Move) (bytes : Nat) : Triple move.guard
      (fun world => move.Kept world ∧ move.Carries bytes world ∧ Before (move.publish + 1) world)
      (executeStep move.sha1 (renameStep move.carrier move.destination bytes))
      (fun _ world => move.Fresh world ∧ Before (move.publish + 1) world) := by
  refine call_triple.bind fun _ => secureRename_triple ?_ ?_
  · rintro world node kept ⟨known, carries, early⟩ held _ length
    obtain ⟨rfl, verified⟩ := carries node held length
    have fresh := known.publish held verified
    exact ⟨⟨Or.inr fresh.published, kept.begun, kept.finished⟩, fresh, early⟩
  · rintro world kept ⟨fresh, _⟩
    exact ⟨Or.inl fresh.restore, kept.begun, kept.finished⟩

theorem Fresh.finish (fresh : move.Fresh world) (kept : move.Invariant world) :
    move.Invariant (world.finish move.publish) ∧ move.Published (world.finish move.publish) := by
  have published := fresh.published.finish (Nat.le_succ move.publish)
  have sorted := pairwise_concat kept.finished
    fun index member => (fresh.finished index member).le
  exact ⟨⟨Or.inr published, kept.begun, sorted⟩, published⟩

theorem Published.persisting (published : move.Published world) (kept : move.Invariant world)
    (index : Nat) : move.Invariant (world.persist index) ∧ move.Published (world.persist index) :=
  ⟨⟨Or.inr (published.persist index), kept.begun, kept.finished⟩, published.persist index⟩

end Move

/-! ## Moves within one file system -/

section Rename

/-- The plan that renames the source. -/
structure Move.Renames (move : Move) (plan : StoragePlan) (bytes : Nat) : Prop where
  carrier : move.carrier = move.source
  publish : move.publish = 0
  verified : LengthMatches bytes (some move.original) → move.verified
  steps : plan.steps = [renameStep move.source move.destination bytes]
  rollbackSteps :
    plan.rollbackSteps = [⟨.safeDeleteIfPresent, some move.staging, none, bytes⟩]

/-- The rename counts as done exactly when the destination is published. -/
theorem Move.Renames.shows (renames : move.Renames plan bytes) (kept : move.Invariant world) :
    Shows move.guard plan
      (fun index step => stepIsApplied move.sha1 plan index step
        (decide (index ∈ world.persisted))) world
      (fun _ => move.Published world) (fun _ => ¬move.Published world) where
  each := by
    intro index step placed
    rw [renames.steps] at placed
    obtain ⟨rfl, rfl⟩ : index = 0 ∧ step = renameStep move.source move.destination bytes := by
      cases index with
      | zero => exact ⟨rfl, (Option.some.inj placed).symm⟩
      | succ index => simp at placed
    apply (renameIsApplied_triple move.sha1 plan 0 move.source move.destination bytes _).leave
    rintro applied now _ ⟨shown, rfl⟩
    refine ⟨?_, rfl⟩
    cases applied with
    | false =>
      intro published
      rw [published.destination] at shown
      cases shown
    | true =>
      obtain ⟨gone, node, held, checkpointed | ⟨_, _, ⟨_, impossible, _⟩, _⟩⟩ := shown
      · rcases kept.safe with known | published
        · exact absurd (of_decide_eq_true checkpointed) (renames.publish ▸ known.unpublished)
        · exact published
      · exact absurd rfl impossible
  copies := by
    intro index step next placed following
    rw [renames.steps] at following
    simp at following

variable (renames : move.Renames plan bytes) (kept : move.Invariant world)
  (first : world.begun = []) {progress : Progress}
  (settled : progress.Settled plan world.persisted (fun _ => move.Published world)
      (fun _ => ¬move.Published world))

include renames kept first settled

/-- The one step of the plan: skipped if the destination is published, else executed. -/
theorem Move.Renames.step : Triple move.guard (· = world)
      (runStep checkpointStep (executeStep move.sha1) (rollbackPlan move.sha1) plan
        progress.inferred (progress.completed, {})
        (renameStep move.source move.destination bytes, 0))
      (fun state now => state.1 = insert 0 progress.completed ∧ move.Published now) := by
  have rollsBack := move.rollback_triple renames.rollbackSteps
  by_cases known : 0 ∈ progress.completed
  · have published := settled.done 0 known
    apply runStep_skip rollsBack known
    · rintro _ now _ rfl
      exact published
    · rintro now kept rfl
      exact published.persisting kept 0
  · have listed : (renameStep move.source move.destination bytes, 0) ∈ plan.steps.zipIdx := by
      rw [renames.steps]
      exact mem_cons_self
    have unpublished := ((settled.examined _ listed).resolve_left known).1
    have holds := kept.safe.resolve_right unpublished
    have carries : move.Carries bytes world := by
      intro node held length
      rw [renames.carrier] at held
      obtain rfl := Option.mem_unique holds.source held
      exact ⟨rfl, renames.verified length⟩
    have early : Before 0 world := by simp [Before, first]
    have publishes := move.publish_triple bytes
    rw [renames.carrier, renames.publish] at publishes
    refine runStep_execute rollsBack move.Published known ?_ publishes ?_ ?_ _ _
    · rintro now kept rfl
      exact ⟨kept.begin early, { holds with }, carries, early.begin⟩
    · rintro now kept ⟨fresh, _⟩
      rw [← renames.publish]
      exact fresh.finish kept
    · exact fun now kept published => published.persisting kept 0

end Rename

/-! ## Moves between file systems -/

/-- The plan that copies the source to the staging path, publishes the copy and deletes the
source. -/
structure Move.Copies (move : Move) (plan : StoragePlan) (bytes : Nat) : Prop where
  carrier : move.carrier = move.staging
  publish : move.publish = 1
  verified : Verifies move.sha1 move.original move.original → move.verified
  /-- An empty file is not mistaken for the original, unless it is. -/
  blank : ∀ node, move.Honest (blank node)
  steps : plan.steps = [copyStep move.source move.carrier bytes,
    renameStep move.carrier move.destination bytes, deleteStep move.source bytes]
  rollbackSteps :
    plan.rollbackSteps = [⟨.safeDeleteIfPresent, some move.staging, none, bytes⟩]

/-- The staging path holds a verified copy. -/
structure Move.Staged (move : Move) (world : World) : Prop extends move.Kept world where
  staged : world.files move.carrier = some move.original
  verified : move.verified

theorem Move.Staged.persist (staged : move.Staged world) {index : Nat}
    (other : index ≠ move.publish) : move.Staged (world.persist index) :=
  ⟨staged.toKept.persist other, staged.staged, staged.verified⟩

/-- What it means for a step of the plan to be done. -/
def Move.CopyDone (move : Move) (world : World) : Nat → Prop
  | 0 => move.Staged world ∨ move.Published world
  | _ => move.Published world

def Move.CopyUndone (move : Move) (world : World) : Nat → Prop
  | 1 => ¬move.Published world
  | _ => True

namespace Move.Copies

section

variable (copies : move.Copies plan bytes)

include copies

theorem carrier_ne_source : move.carrier ≠ move.source := by
  rw [copies.carrier]
  exact move.apart

/-- A copy that verifies is the original. -/
theorem staged (kept : move.Kept world) {original copy : Node}
    (source : world.files move.source = some original) (held : world.files move.carrier = some copy)
    (verified : Verifies move.sha1 original copy) : move.Staged world := by
  obtain rfl := Option.mem_unique kept.source source
  obtain rfl := kept.carrier copy held verified
  exact ⟨kept, held, copies.verified verified⟩

/-- A destination that verifies against the source is published. -/
theorem published (kept : move.Kept world) {original copy : Node}
    (gone : world.files move.carrier = none) (source : world.files move.source = some original)
    (held : world.files move.destination = some copy)
    (verified : Verifies move.sha1 original copy) : move.Published world := by
  obtain rfl := Option.mem_unique kept.source source
  obtain rfl := kept.destination copy held verified
  exact ⟨held, copies.verified verified, gone, Or.inr (Or.inl kept.source),
    fun index member => (kept.finished index member).le.trans (Nat.le_succ _)⟩

/-- The file system shows of each step whether it is done. -/
theorem shows (kept : move.Invariant world) :
    Shows move.guard plan
      (fun index step => stepIsApplied move.sha1 plan index step
        (decide (index ∈ world.persisted))) world
      (move.CopyDone world) (move.CopyUndone world) where
  each := by
    intro index step placed
    rw [copies.steps] at placed
    match index, placed with
    | 0, placed =>
      obtain rfl := Option.some.inj placed
      apply (copyIsApplied_triple move.sha1 move.source move.carrier).leave
      rintro applied now _ ⟨shown, rfl⟩
      refine ⟨?_, rfl⟩
      cases applied with
      | false => trivial
      | true =>
        obtain ⟨original, copy, source, held, verified⟩ := shown
        rcases kept.safe with known | published
        · exact Or.inl (copies.staged known source held verified)
        · exact Or.inr published
    | 1, placed =>
      obtain rfl := Option.some.inj placed
      apply (renameIsApplied_triple move.sha1 plan 1 move.carrier move.destination bytes _).leave
      rintro applied now _ ⟨shown, rfl⟩
      refine ⟨?_, rfl⟩
      cases applied with
      | false =>
        intro published
        rw [published.destination] at shown
        cases shown
      | true =>
        rcases kept.safe with known | published
        · obtain ⟨gone, node, held, checkpointed | ⟨path, original, follows, source, verified⟩⟩ :=
            shown
          · exact absurd (of_decide_eq_true checkpointed) (copies.publish ▸ known.unpublished)
          · obtain ⟨previous, _, before, path_eq⟩ := follows
            rw [copies.steps] at before
            obtain rfl := Option.some.inj before
            obtain rfl := Option.some.inj path_eq
            exact copies.published known gone source held verified
        · exact published
    | 2, placed =>
      obtain rfl := Option.some.inj placed
      apply (deleteIsApplied_triple move.source _).leave
      rintro applied now _ ⟨gone, rfl⟩
      refine ⟨?_, rfl⟩
      cases applied with
      | false => trivial
      | true =>
        rcases kept.safe with known | published
        · have source := known.source
          rw [gone rfl] at source
          cases source
        · exact published
    | index + 3, placed => simp at placed
  copies := by
    intro index step next placed following action _ done
    rw [copies.steps] at placed
    match index, placed with
    | 0, _ => exact Or.inr done
    | 1, placed =>
      obtain rfl := Option.some.inj placed
      cases action
    | 2, placed =>
      obtain rfl := Option.some.inj placed
      cases action
    | index + 3, placed => simp at placed

end

/-- What the first step leaves: a staged copy, unless the destination was published before. -/
structure Prepared (move : Move) (progress : Progress) (now : World) : Prop where
  published : 1 ∈ progress.completed → move.Published now
  confirmed : 1 ∈ progress.completed → 1 ∉ progress.inferred → 1 ∈ now.persisted
  staged : 1 ∉ progress.completed → move.Staged now
  early : Before 1 now

theorem Prepared.persist {progress : Progress} {now : World}
    (prepared : Prepared move progress now) {index : Nat} (other : index ≠ move.publish) :
    Prepared move progress (now.persist index) where
  published member := (prepared.published member).persist index
  confirmed member fresh := mem_persist.mpr (Or.inr (prepared.confirmed member fresh))
  staged missing := (prepared.staged missing).persist other
  early := prepared.early

section Running

variable {progress : Progress} (copies : move.Copies plan bytes)
  (settled : progress.Settled plan world.persisted (move.CopyDone world) (move.CopyUndone world))

include copies settled

/-- The rename is not taken as done without being so, and not overlooked either. -/
theorem completed_one_iff : 1 ∈ progress.completed ↔ move.Published world := by
  constructor
  · exact settled.done 1
  · intro published
    have listed : (renameStep move.carrier move.destination bytes, 1) ∈ plan.steps.zipIdx := by
      rw [copies.steps]
      exact mem_cons_of_mem _ mem_cons_self
    by_contra missing
    exact ((settled.examined _ listed).resolve_left missing).1 published

/-- The copy is not overlooked when the rename has published it. -/
theorem completed_zero (published : move.Published world) : 0 ∈ progress.completed := by
  have listed : (copyStep move.source move.carrier bytes, 0) ∈ plan.steps.zipIdx := by
    rw [copies.steps]
    exact mem_cons_self
  by_contra missing
  have alone := ((settled.examined _ listed).resolve_left missing).2
  have next := (completed_one_iff copies settled).mpr published
  simp [precedesCompleted, copies.steps, next, copyStep, renameStep] at alone

omit settled in
theorem copy_triple : Triple move.guard (fun now => move.Kept now ∧ Before 1 now)
      (executeStep move.sha1 (copyStep move.source move.carrier bytes))
      (fun _ now => move.Staged now ∧ Before 1 now) := by
  have failing := move.expendable_staging
  rw [← copies.carrier] at failing
  have writable : ∀ now entry, (∀ node, entry = some node → move.Honest node) →
      move.Invariant now → move.Kept now ∧ Before 1 now →
        move.Invariant (now.set move.carrier entry) ∧
          move.Kept (now.set move.carrier entry) ∧ Before 1 (now.set move.carrier entry) := by
    rintro now entry honest kept ⟨known, early⟩
    rw [copies.carrier]
    have still := known.set_staging honest
    exact ⟨⟨Or.inl still, kept.begun, kept.finished⟩, still, early⟩
  refine call_triple.bind fun _ => (secureCopy_triple move.sha1 ?_ ?_ failing bytes).leave ?_
  · exact fun now node _ => writable now _ (by rintro _ ⟨⟩; exact copies.blank node)
  · exact fun now entry _ => writable now entry
  · rintro _ now _ ⟨⟨original, copy, source, held, verified⟩, known, early⟩
    exact ⟨copies.staged known source held verified, early⟩

/-- The first step: the copy. -/
theorem first_step (kept : move.Invariant world) (first : world.begun = [])
    (execution : StoragePlanExecution) : Triple move.guard (· = world)
      (runStep checkpointStep (executeStep move.sha1) (rollbackPlan move.sha1) plan
        progress.inferred (progress.completed, execution)
        (copyStep move.source move.carrier bytes, 0))
      (fun state now => state.1 = insert 0 progress.completed ∧ Prepared move progress now) := by
  have rollsBack := move.rollback_triple copies.rollbackSteps
  have other : 0 ≠ move.publish := by simp [copies.publish]
  have early : ∀ index, Before index world := by simp [Before, first]
  by_cases known : 0 ∈ progress.completed
  · have prepared : Prepared move progress world :=
      ⟨settled.done 1, settled.confirmed 1, fun missing =>
        (settled.done 0 known).resolve_right fun published =>
          missing ((completed_one_iff copies settled).mpr published), early 1⟩
    apply runStep_skip rollsBack known
    · rintro _ now _ rfl
      exact prepared
    · rintro now kept rfl
      exact ⟨kept.persist other, prepared.persist other⟩
  · have unpublished : ¬move.Published world :=
      fun published => known (completed_zero copies settled published)
    have missing : 1 ∉ progress.completed :=
      fun member => unpublished ((completed_one_iff copies settled).mp member)
    have holds := kept.safe.resolve_right unpublished
    refine runStep_execute rollsBack (fun now => move.Staged now ∧ Before 1 now) known ?_
      copies.copy_triple ?_ ?_ _ _
    · rintro now kept rfl
      exact ⟨kept.begin (early 0), { holds with }, (early 0).begin⟩
    · rintro now kept ⟨staged, early⟩
      have finished := staged.finish (show 0 < move.publish by simp [copies.publish])
      have sorted := pairwise_concat kept.finished fun index member =>
        Nat.le_of_lt_succ (copies.publish ▸ staged.finished index member)
      exact ⟨⟨Or.inl finished, kept.begun, sorted⟩,
        ⟨finished, staged.staged, staged.verified⟩, early⟩
    · rintro now kept ⟨staged, early⟩
      exact ⟨kept.persist other, fun member => absurd member missing,
        fun member => absurd member missing, fun _ => staged.persist other, early⟩

/-- What the second step leaves: the published destination with its durable checkpoint. -/
structure Durable (move : Move) (now : World) : Prop extends move.Published now where
  persisted : 1 ∈ now.persisted
  early : Before 2 now

omit settled in
/-- The second step: the publication. -/
theorem second_step {completed : Finset Nat}
    (same : completed = insert 0 progress.completed) (execution : StoragePlanExecution) :
    Triple move.guard (Prepared move progress)
      (runStep checkpointStep (executeStep move.sha1) (rollbackPlan move.sha1) plan
        progress.inferred (completed, execution)
        (renameStep move.carrier move.destination bytes, 1))
      (fun state now => state.1 = insert 1 completed ∧ Durable move now) := by
  have rollsBack := move.rollback_triple copies.rollbackSteps
  have later : ∀ {now}, Before 1 now → Before 2 now :=
    fun early index member => (early index member).trans (Nat.lt_succ_self 1)
  by_cases known : 1 ∈ completed
  · have before : 1 ∈ progress.completed := by simpa [same] using known
    apply runStep_skip rollsBack known
    · intro guessed now _ prepared
      exact ⟨prepared.published before, prepared.confirmed before guessed, later prepared.early⟩
    · intro now kept prepared
      obtain ⟨keeps, published⟩ := (prepared.published before).persisting kept 1
      exact ⟨keeps, published, mem_persist.mpr (Or.inl rfl), later prepared.early⟩
  · have missing : 1 ∉ progress.completed := fun member => known (by simp [same, member])
    have publishes := move.publish_triple bytes
    rw [copies.publish] at publishes
    refine runStep_execute rollsBack (fun now => move.Published now ∧ Before 2 now) known ?_
      publishes ?_ ?_ _ _
    · intro now kept prepared
      have staged := prepared.staged missing
      refine ⟨kept.begin prepared.early, { staged with }, ?_, prepared.early.begin⟩
      intro node held _
      exact ⟨Option.mem_unique held staged.staged, staged.verified⟩
    · rintro now kept ⟨fresh, early⟩
      have finished := fresh.finish kept
      rw [copies.publish] at finished
      exact ⟨finished.1, finished.2, early⟩
    · rintro now kept ⟨published, early⟩
      obtain ⟨keeps, still⟩ := published.persisting kept 1
      exact ⟨keeps, still, mem_persist.mpr (Or.inl rfl), early⟩

omit settled in
/-- The third step: the source is deleted. -/
theorem third_step (completed : Finset Nat) (execution : StoragePlanExecution) :
    Triple move.guard (Durable move)
      (runStep checkpointStep (executeStep move.sha1) (rollbackPlan move.sha1) plan
        progress.inferred (completed, execution) (deleteStep move.source bytes, 2))
      (fun state now => state.1 = insert 2 completed ∧ move.Published now) := by
  have rollsBack := move.rollback_triple copies.rollbackSteps
  by_cases known : 2 ∈ completed
  · apply runStep_skip rollsBack known
    · exact fun _ now _ durable => durable.toPublished
    · exact fun now kept durable => durable.toPublished.persisting kept 2
  · have expendable : Expendable move.guard
        (fun now => move.Published now ∧ 1 ∈ now.persisted) move.source := by
      rintro now entry _ _ kept ⟨published, persisted⟩
      have still : move.Published (now.set move.source entry) :=
        ⟨(set_files_of_ne move.moves.symm now entry).trans published.destination,
          published.verified,
          (set_files_of_ne copies.carrier_ne_source now entry).trans published.carrier,
          Or.inr (Or.inr (copies.publish.symm ▸ persisted)), published.finished⟩
      exact ⟨⟨Or.inr still, kept.begun, kept.finished⟩, still, persisted⟩
    refine runStep_execute rollsBack move.Published known ?_
      (call_triple.bind fun _ => secureDelete_triple expendable false) ?_ ?_ _ _
    · intro now kept durable
      exact ⟨kept.begin durable.early, { durable with }, durable.persisted⟩
    · rintro now kept ⟨published, _⟩
      have last : 2 ≤ move.publish + 1 := by simp [copies.publish]
      have sorted := pairwise_concat kept.finished fun index member =>
        copies.publish ▸ published.finished index member
      exact ⟨⟨Or.inr (published.finish last), kept.begun, sorted⟩, published.finish last⟩
    · exact fun now kept published => published.persisting kept 2

end Running
end Move.Copies

/-! ## Every story of a move -/

/-- An attempt keeps the invariant, and has published if it returns and is not a dry run. -/
def Move.Publishes (move : Move) (plan : StoragePlan) : Prop :=
  Triple move.guard (fun _ => True) (executeStoragePlan move.sha1 plan)
    (fun _ now => plan.dryRun = false → move.Published now)

/-- An attempt begins a record of its own and then resumes from what is durable. -/
theorem Move.publishes (resumes : ∀ world, move.Invariant world → world.begun = [] →
      Triple move.guard (· = world)
        (executeStoragePlanWithExecutor checkpointStep (executeStep move.sha1)
          (rollbackPlan move.sha1) (fun index step => stepIsApplied move.sha1 plan index step
            (decide (index ∈ world.persisted))) plan world.persisted)
        (fun _ now => plan.dryRun = false → move.Published now)) : move.Publishes plan := by
  have restarts : Triple move.guard (fun _ => True) (change World.restart : Run Unit)
      (fun _ now => now.begun = []) := by
    apply Triple.change
    intro world kept _
    exact ⟨⟨kept.safe.imp (fun known => { known with }) fun known => { known with },
      List.Pairwise.nil, kept.finished⟩, rfl⟩
  refine restarts.bind fun _ => Triple.look.bind fun seen => ?_
  apply Triple.at_world
  rintro world kept ⟨rfl, first⟩
  exact resumes _ kept first

theorem Move.Renames.publishes (renames : move.Renames plan bytes) : move.Publishes plan :=
  Move.publishes fun _ kept first =>
    executeStoragePlanWithExecutor_triple (move.rollback_triple renames.rollbackSteps)
      (renames.shows kept) fun _ _ settled => by
        have one := renames.step kept first settled
        rw [renames.steps]
        exact one.bind fun _ => .ret _ fun _ _ holds => holds.2

theorem Move.Copies.publishes (copies : move.Copies plan bytes) : move.Publishes plan :=
  Move.publishes fun _ kept first =>
    executeStoragePlanWithExecutor_triple (move.rollback_triple copies.rollbackSteps)
      (copies.shows kept) fun _ _ settled => by
        have one := first_step copies settled kept first {}
        rw [copies.steps]
        refine one.bind fun afterFirst => .given fun same => ?_
        refine (second_step copies same _).bind fun afterSecond => .given fun _ => ?_
        refine (third_step copies _ _).bind fun _ => .given fun _ => ?_
        exact .ret _ fun _ _ published => published

/-! ## Which moves are safe -/

/-- The check that a plan makes before the source may go: the content of a copy, the length
of what is renamed. -/
def PassesVerification (sha1 : Bytes → Digest 20) (plan : StoragePlan)
    (original copy : Node) : Prop :=
  match plan.steps.head? with
  | none => False
  | some step =>
      if step.action = .copyVerifyRename then Verifies sha1 original copy
      else LengthMatches step.bytes (some copy)

/-- At every moment the content is at the source, or a copy that has passed the verification
is at the destination. The steps of a run come in order, and so do those executed to their
end over all runs. A run that returns has moved the content. -/
structure NeverLoses (sha1 : Bytes → Digest 20) (plan : StoragePlan)
    (req : MovePlanRequest) (original : Node)
    (run : Execution World Answer StorageError StoragePlanExecution) : Prop where
  safe : ∀ world ∈ run.world :: run.passed, world.files req.source = some original ∨
    (world.files req.destination = some original ∧
      PassesVerification sha1 plan original original)
  begun : ∀ world ∈ run.world :: run.passed, world.begun.Pairwise (· < ·)
  finished : ∀ world ∈ run.world :: run.passed, world.finished.Pairwise (· ≤ ·)
  moved : ∀ execution, run.ending = .returned execution →
    run.world.files req.destination = some original

/-- The contents that a story meets beside the original: what was there before, what the
outside leaves behind, and a file that has just been created. -/
inductive Met (files : FileSystem) (destination : Path) (runs : List (List Answer)) :
    Node → Prop where
  | staged {node : Node} (held : files (stagingPath destination) = some node) :
      Met files destination runs node
  | found {node : Node} (held : files destination = some node) : Met files destination runs node
  | left {node : Node} {answers : List Answer} (answered : answers ∈ runs)
      (leaves : Answer.leaves node ∈ answers) : Met files destination runs node
  | created : Met files destination runs (.file [])

/-- A plan is safe if no story of it loses anything, on any file system with the source and
as long as no content collides with the original. -/
def MoveIsSafe (sha1 : Bytes → Digest 20) (plan : StoragePlan) (req : MovePlanRequest) :
    Prop :=
  ∀ (files : FileSystem) (original : Node) (runs : List (List Answer)),
    files req.source = some original →
    (∀ node, Met files req.destination runs node →
      NoCollision sha1 (fileContents original) (fileContents node)) →
    ∀ run ∈ story (executeStoragePlan sha1 plan) (World.start files) runs,
      NeverLoses sha1 plan req original run

section Safety

variable {sha1 : Bytes → Digest 20} {req : MovePlanRequest}

/-- A plan that may not be applied does nothing. -/
theorem moveIsSafe_of_not_canApply (blocked : plan.canApply = false) :
    MoveIsSafe sha1 plan req := by
  intro files original runs there _
  let guard : Guard World Answer :=
    ⟨fun world => world.files req.source = some original ∧ world.begun.Pairwise (· < ·) ∧
      world.finished.Pairwise (· ≤ ·), fun _ => True⟩
  have restarts : Triple guard (fun _ => True) (change World.restart : Run Unit)
      (fun _ _ => True) :=
    Triple.change _ fun world kept _ => ⟨⟨kept.1, List.Pairwise.nil, kept.2.2⟩, trivial⟩
  have refuses : Triple guard (fun _ => True) (executeStoragePlan sha1 plan)
      (fun _ _ => False) := by
    refine restarts.bind fun _ => Triple.look.bind fun _ => (Triple.ofExcept _).bind fun _ =>
      .given fun applies => ?_
    simp [ensurePlanCanApply, blocked] at applies
  intro run member
  have fulfils := story_fulfils refuses (.start files) (fun _ _ _ _ => trivial)
    ⟨there, List.Pairwise.nil, List.Pairwise.nil⟩ run member
  have kept : ∀ world ∈ run.world :: run.passed, guard.invariant world :=
    forall_mem_cons.mpr ⟨fulfils.world, fulfils.passed⟩
  exact ⟨fun world passed => Or.inl (kept world passed).1,
    fun world passed => (kept world passed).2.1, fun world passed => (kept world passed).2.2,
    fun execution returned => (fulfils.returned execution returned).elim⟩

/-- A move is safe if its attempts keep the invariant and publish what they return. -/
theorem moveIsSafe_of_attempt (move : Node → Move)
    (sources : ∀ original, (move original).sha1 = sha1 ∧ (move original).original = original ∧
      (move original).source = req.source ∧ (move original).destination = req.destination ∧
      ((move original).verified → PassesVerification sha1 plan original original))
    (attempts : ∀ original, (move original).Honest (.file []) → (move original).Publishes plan)
    (applied : plan.dryRun = false) : MoveIsSafe sha1 plan req := by
  intro files original runs there distinct
  obtain ⟨rfl, content, source, destination, passes⟩ := sources original
  have honest : ∀ node, Met files req.destination runs node → (move original).Honest node := by
    intro node met verified
    rw [content] at verified
    rw [content]
    exact verified.eq (distinct node met)
  have kept : (move original).Kept (.start files) := by
    refine ⟨?_, not_mem_nil, ?_, ?_, fun _ impossible => absurd impossible not_mem_nil⟩
    · rw [source, content]
      exact there
    · intro node held
      rcases (move original).carried with same | same
      · rw [same, source] at held
        obtain rfl := Option.mem_unique there held
        have own := (move original).honest_original
        rwa [content] at own
      · rw [same, destination] at held
        exact honest node (.staged held)
    · intro node held
      rw [destination] at held
      exact honest node (.found held)
  have allowed : ∀ answers ∈ runs, ∀ answer ∈ answers,
      (move original).guard.allowed answer := by
    intro answers listed answer member
    cases answer with
    | leaves node => exact honest node (.left listed member)
    | proceeds => trivial
    | fails error => trivial
  intro run member
  have fulfils := story_fulfils (attempts original (honest _ .created)) (.start files)
    allowed ⟨Or.inl kept, List.Pairwise.nil, List.Pairwise.nil⟩ run member
  have invariant : ∀ world ∈ run.world :: run.passed, (move original).Invariant world :=
    forall_mem_cons.mpr ⟨fulfils.world, fulfils.passed⟩
  refine ⟨?_, fun world passed => (invariant world passed).begun,
    fun world passed => (invariant world passed).finished, ?_⟩
  · intro world passed
    rw [← source, ← destination]
    rcases (invariant world passed).safe with known | published
    · exact Or.inl (known.source.trans (congrArg some content))
    · exact Or.inr ⟨published.destination.trans (congrArg some content), passes published.verified⟩
  · intro execution returned
    have published := fulfils.returned execution returned applied
    rw [← destination]
    exact published.destination.trans (congrArg some content)

theorem Move.honest_blank {move : Move} (created : move.Honest (.file [])) (node : Node) :
    move.Honest (blank node) := by
  cases node with
  | directory children =>
    -- an empty directory verifies against nothing but itself
    exact fun verified => verified.eq fun _ _ _ impossible => absurd impossible not_mem_nil
  | file content => exact created
  | symlink target => exact created
  | special => exact created

/-- The moves that are safe, both kinds of plan. -/
theorem moveIsSafe_of_apart (disk : Disk) (atomicRenameSupported : Bool)
    (moves : req.source ≠ req.destination) (apart : stagingPath req.destination ≠ req.source)
    (applied : req.dryRun = false) :
    MoveIsSafe sha1 (planMoveWithRenameSupport disk req atomicRenameSupported) req := by
  have rolls := planMove_rollbackSteps disk req atomicRenameSupported
  generalize planned : planMoveWithRenameSupport disk req atomicRenameSupported = plan at rolls ⊢
  have dry : plan.dryRun = false := planned ▸ applied
  cases device : (sameFilesystem disk req.source req.destination).getD false with
  | true =>
    have steps := planMove_steps_of_same disk req atomicRenameSupported device
    rw [planned] at steps
    let move (original : Node) : Move :=
      ⟨sha1, original, req.source, req.destination, req.source, 0,
        PassesVerification sha1 plan original original, moves, apart, Or.inl rfl⟩
    apply moveIsSafe_of_attempt move (fun original => ⟨rfl, rfl, rfl, rfl, id⟩) _ dry
    intro original _
    have renames : (move original).Renames plan req.bytes := by
      refine ⟨rfl, rfl, ?_, steps, rolls⟩
      intro length
      simpa [move, PassesVerification, steps, renameStep] using length
    exact renames.publishes
  | false =>
    have steps := planMove_steps_of_other disk req atomicRenameSupported device
    rw [planned] at steps
    let move (original : Node) : Move :=
      ⟨sha1, original, req.source, req.destination, stagingPath req.destination, 1,
        PassesVerification sha1 plan original original, moves, apart, Or.inr rfl⟩
    apply moveIsSafe_of_attempt move (fun original => ⟨rfl, rfl, rfl, rfl, id⟩) _ dry
    intro original created
    have copies : (move original).Copies plan req.bytes := by
      refine ⟨rfl, rfl, ?_, Move.honest_blank created, steps, rolls⟩
      intro verified
      simpa [move, PassesVerification, steps, copyStep] using verified
    exact copies.publishes

/-! ## The moves that are not -/

/-- A file at the path, and nothing anywhere else. -/
def onlyAt (path : Path) (content : Bytes) : FileSystem :=
  fun other => if other = path then some (.file content) else none

theorem eq_of_onlyAt {path other : Path} {node : Node} (held : onlyAt path [] other = some node) :
    node = .file [] :=
  (Option.some.inj (Option.ite_none_right_eq_some.mp held).2).symm

variable {destination : Path}

/-- Where there is nothing but an empty file, nothing collides with it. -/
theorem noCollision_onlyAt {path : Path} {answers : List Answer}
    (quiet : ∀ node, .leaves node ∉ answers) {node : Node}
    (met : Met (onlyAt path []) destination [answers] node) :
    NoCollision sha1 (fileContents (.file [])) (fileContents node) := by
  have empty : node = .file [] := by
    cases met with
    | staged held => exact eq_of_onlyAt held
    | found held => exact eq_of_onlyAt held
    | left answered leaves =>
      rw [mem_singleton.mp answered] at leaves
      exact absurd leaves (quiet node)
    | created => rfl
  rw [empty]
  intro content member other found _
  rw [mem_singleton.mp member, mem_singleton.mp found]

/-- The plan may be applied. -/
structure Applies (plan : StoragePlan) : Prop where
  canApply : plan.canApply = true
  issues : plan.issues = []

theorem applies_of_canApply {disk : Disk} {atomicRenameSupported : Bool}
    (applies : (planMoveWithRenameSupport disk req atomicRenameSupported).canApply = true) :
    Applies (planMoveWithRenameSupport disk req atomicRenameSupported) :=
  ⟨applies, isEmpty_iff.mp applies⟩

/-- A dry run returns without having moved anything. -/
theorem not_moveIsSafe_of_dryRun (applies : Applies plan) (dry : plan.dryRun = true)
    (moves : req.source ≠ req.destination) : ¬MoveIsSafe sha1 plan req := by
  intro safe
  have returns : executeStoragePlan sha1 plan [] (.start (onlyAt req.source [])) =
      ⟨.returned {}, [], [.start (onlyAt req.source [])],
        World.start (onlyAt req.source [])⟩ := by
    simp [executeStoragePlan, executeStoragePlanWithExecutor, andThen, change, look,
      ensurePlanCanApply, applies.canApply, applies.issues, dry, Program.ofExcept, World.start,
      World.restart]
  have run := safe (onlyAt req.source []) (.file []) [[]] (if_pos rfl)
    (fun _ => noCollision_onlyAt fun _ => not_mem_nil) _ mem_cons_self
  rw [returns] at run
  have nothing : onlyAt req.source [] req.destination = none := if_neg moves.symm
  exact absurd (nothing.symm.trans (run.moved {} rfl)) (by simp)

/-- A run that takes away the source has lost its content. -/
theorem not_moveIsSafe_of_loses {answers : List Answer} (quiet : ∀ node, .leaves node ∉ answers)
    (moves : req.source ≠ req.destination) (lost : (executeStoragePlan sha1 plan answers
      (.start (onlyAt req.source []))).world.files =
        Function.update (onlyAt req.source []) req.source none) : ¬MoveIsSafe sha1 plan req := by
  intro safe
  have run := safe (onlyAt req.source []) (.file []) [answers] (if_pos rfl)
    (fun _ => noCollision_onlyAt quiet) _ mem_cons_self
  have last := run.safe _ mem_cons_self
  rw [lost, update_self, update_of_ne moves.symm, onlyAt, if_neg moves.symm] at last
  simp at last

/-- The first step fails, and everything else goes well. -/
def failedFirstStep : List Answer :=
  List.replicate 4 .proceeds ++ .fails .cancelled :: List.replicate 6 .proceeds

/-- The run is cancelled at its first checkpoint, and everything else goes well. -/
def cancelledCheckpoint : List Answer :=
  List.replicate 16 .proceeds ++ .fails .cancelled :: List.replicate 6 .proceeds

section

variable {source : Path} (content : Bytes) (applies : Applies plan)
  (dry : plan.dryRun = false) (moves : source ≠ destination)
  (rolls : plan.rollbackSteps = [⟨.safeDeleteIfPresent, some source, none, bytes⟩])
  (sha1 : Bytes → Digest 20)

include applies dry moves rolls

-- What a run on a file system with one file goes through.
attribute [local simp] andThen change look World.restart World.start Program.ofExcept recover
  validateCheckpoints inferLoop inferRound inferStep cancellable checkControl stepIsApplied
  renameIsApplied requiredPath Fallible.okOr precedesCompleted renameStep runStep executeStep
  List.replicate rollbackPlan secureDelete removeEntry removePieces mapError removable walkTree
  World.set Program.fail

/-- A rename that fails is rolled back by deleting its own source. -/
theorem failed_rename_loses (steps : plan.steps = [renameStep source destination bytes]) :
    (executeStoragePlan sha1 plan failedFirstStep (.start (onlyAt source content))).world.files =
        Function.update (onlyAt source content) source none := by
  have held : onlyAt source content source = some (.file content) := if_pos rfl
  have absent : onlyAt source content destination = none := if_neg moves.symm
  simp only [failedFirstStep, executeStoragePlan, executeStoragePlanWithExecutor,
    ensurePlanCanApply, applies.canApply, applies.issues, dry, steps]
  -- Nothing is taken as done, so the step is begun; it fails and is rolled back.
  simp [World.begin, held, absent, steps, rolls]

/-- A copy onto its own source is taken as done, and cancelling it deletes the source. -/
theorem cancelled_copy_loses (steps : plan.steps = [copyStep source source bytes,
      renameStep source destination bytes, deleteStep source bytes]) :
    (executeStoragePlan sha1 plan cancelledCheckpoint
      (.start (onlyAt source content))).world.files =
        Function.update (onlyAt source content) source none := by
  have held : onlyAt source content source = some (.file content) := if_pos rfl
  have absent : onlyAt source content destination = none := if_neg moves.symm
  have verified : verifyContent sha1 source source 0 (.file content) (.file content) = .ok () :=
    if_pos rfl
  simp only [cancelledCheckpoint, executeStoragePlan, executeStoragePlanWithExecutor,
    ensurePlanCanApply, applies.canApply, applies.issues, dry, steps]
  -- The file verifies against itself, so the copy is inferred and gets a checkpoint.
  simp [held, absent, verified, steps, rolls, copyIsApplied, deleteIsApplied, reconcileContent,
    verifyContentWithControl, entryType, Progress.infer, copyStep, deleteStep, checkpointStep,
    cancellationCanRollback, PlannedStorageAction.isDestructive,
    StorageErrors.StorageError.isCancellation, rollbackCancelledProgress]

end

end Safety

/-- A move loses nothing, and a run of it that returns has moved the content, exactly when
it is not a dry run and its source is not the staging path of its destination. -/
theorem move_never_loses_data_iff (sha1 : Bytes → Digest 20) (disk : Disk)
    (req : MovePlanRequest) (atomicRenameSupported : Bool) :
    MoveIsSafe sha1 (planMoveWithRenameSupport disk req atomicRenameSupported) req ↔
      ((planMoveWithRenameSupport disk req atomicRenameSupported).canApply = true →
        req.dryRun = false ∧ stagingPath req.destination ≠ req.source) := by
  constructor
  · intro safe canApply
    have moves := source_ne_destination disk req atomicRenameSupported canApply
    have applies := applies_of_canApply canApply
    cases dry : req.dryRun with
    | true => exact absurd safe (not_moveIsSafe_of_dryRun applies dry moves)
    | false =>
      refine ⟨rfl, fun same => ?_⟩
      have rolls := planMove_rollbackSteps disk req atomicRenameSupported
      rw [same] at rolls
      cases device : (sameFilesystem disk req.source req.destination).getD false with
      | true =>
        have steps := planMove_steps_of_same disk req atomicRenameSupported device
        exact not_moveIsSafe_of_loses (by simp [failedFirstStep]) moves
          (failed_rename_loses [] applies dry moves rolls sha1 steps) safe
      | false =>
        have steps := planMove_steps_of_other disk req atomicRenameSupported device
        rw [same] at steps
        exact not_moveIsSafe_of_loses (by simp [cancelledCheckpoint]) moves
          (cancelled_copy_loses [] applies dry moves rolls sha1 steps) safe
  · intro condition
    cases applies : (planMoveWithRenameSupport disk req atomicRenameSupported).canApply with
    | false => exact moveIsSafe_of_not_canApply applies
    | true =>
      obtain ⟨dry, apart⟩ := condition applies
      exact moveIsSafe_of_apart disk atomicRenameSupported
        (source_ne_destination disk req atomicRenameSupported applies) apart dry

/-- A staged copy that was left behind is moved to the place it was staged for. -/
def leftoverMove : MovePlanRequest where
  source := stagingPath [.rootDir, .normal (ascii "payload")]
  destination := [.rootDir, .normal (ascii "payload")]
  bytes := 3
  availableBytes := none
  dryRun := false

/-- A stand-in for the hash. -/
def leftoverHash : Bytes → Digest 20 := leading 20

def leftoverDisk : Disk := ⟨fun path => path == leftoverMove.source, fun _ => some 0⟩

/-- The plan may be applied, its first step fails, and the content is nowhere. -/
theorem leftover_move_is_lost :
    (planMoveWithRenameSupport leftoverDisk leftoverMove true).canApply = true ∧
      leftoverMove.dryRun = false ∧
      onlyAt leftoverMove.source [1, 2, 3] leftoverMove.source = some (.file [1, 2, 3]) ∧
      ∃ run ∈ story (executeStoragePlan leftoverHash
          (planMoveWithRenameSupport leftoverDisk leftoverMove true))
          (World.start (onlyAt leftoverMove.source [1, 2, 3])) [failedFirstStep],
        run.world.files leftoverMove.source = none ∧
          run.world.files leftoverMove.destination = none := by
  have moves : leftoverMove.destination ≠ leftoverMove.source := (stagingPath_ne _).symm
  have capacity : leftoverMove.availableBytes = none := rfl
  have canApply : (planMoveWithRenameSupport leftoverDisk leftoverMove true).canApply = true := by
    simp [planMoveWithRenameSupport, commonIssues, leftoverDisk, moves, capacity]
  have lost := failed_rename_loses [1, 2, 3] (applies_of_canApply canApply) rfl moves.symm
    (planMove_rollbackSteps leftoverDisk leftoverMove true) leftoverHash
    (planMove_steps_of_same leftoverDisk leftoverMove true rfl)
  refine ⟨canApply, rfl, if_pos rfl, _, List.mem_cons_self, ?_⟩
  rw [lost, Function.update_self, Function.update_of_ne moves, onlyAt, if_neg moves]
  exact ⟨rfl, rfl⟩

end TorrentNG.Plan
