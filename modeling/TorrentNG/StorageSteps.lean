import TorrentNG.SecureFs

/-!
# What the steps of a plan do

One triple for each operation of `SecureFs`. An operation that only reads returns with the
condition it began with and with what it has seen. An operation that writes or removes a
path is given a condition that survives any content at that path, since a failure or a
crash may leave any content there.
-/

namespace TorrentNG.Plan

open Fallible Interruptible Interruptible.Program List MachineArithmetic Metainfo

variable {guard : Guard World Answer} {before : World → Prop} {α : Type}

/-! ## Verification -/

mutual
/-- The contents of the files of a tree. -/
def fileContents : Node → List Bytes
  | .file content => [content]
  | .directory children => childContents children
  | .symlink _ => []
  | .special => []

def childContents : List (Name × Node) → List Bytes
  | [] => []
  | (_, child) :: rest => fileContents child ++ childContents rest
end

/-- No file of the two trees has the hash of another one with a different content. -/
def NoCollision (sha1 : Bytes → Digest 20) (original copy : List Bytes) : Prop :=
  ∀ content ∈ original, ∀ other ∈ copy, sha1 content = sha1 other → other = content

section Verification

variable {sha1 : Bytes → Digest 20}

mutual
/-- Trees that verify against each other are the same, unless two files collide. -/
theorem eq_of_verifyContent {sourcePath destinationPath : Path} {depth : Nat} :
    ∀ source destination : Node, NoCollision sha1 (fileContents source) (fileContents destination) →
      verifyContent sha1 sourcePath destinationPath depth source destination = .ok () →
      destination = source
  | .symlink _, _, _, verified => by
    rw [verifyContent] at verified
    cases verified
  | .special, destination, _, verified => by
    rw [verifyContent, bind_eq_ok] at verified
    obtain ⟨_, _, impossible⟩ := verified
    cases impossible
  | .file content, .file other, distinct, verified => by
    rw [verifyContent, bind_eq_ok] at verified
    obtain ⟨_, _, verified⟩ := verified
    by_cases same : sha1 content = sha1 other
    · rw [distinct content mem_cons_self other mem_cons_self same]
    · rw [if_neg same] at verified
      cases verified
  | .directory children, .directory others, distinct, verified => by
    rw [verifyContent, bind_eq_ok] at verified
    obtain ⟨_, _, verified⟩ := verified
    rw [bind_eq_ok] at verified
    obtain ⟨_, _, verified⟩ := verified
    by_cases names : children.map Prod.fst = others.map Prod.fst
    · rw [if_neg (not_not_intro names)] at verified
      rw [eq_of_verifyChildren children others names distinct verified]
    · rw [if_pos names] at verified
      cases verified
  | .file _, .directory _, _, verified | .file _, .symlink _, _, verified
  | .file _, .special, _, verified | .directory _, .file _, _, verified
  | .directory _, .symlink _, _, verified | .directory _, .special, _, verified => by
    simp [verifyContent, bind_eq_ok] at verified

theorem eq_of_verifyChildren {sourcePath destinationPath : Path} {depth : Nat} :
    ∀ children others : List (Name × Node), children.map Prod.fst = others.map Prod.fst →
      NoCollision sha1 (childContents children) (childContents others) →
      verifyChildren sha1 sourcePath destinationPath depth children others = .ok () →
      others = children
  | [], others, names, _, _ => map_eq_nil_iff.mp names.symm
  | child :: rest, [], names, _, _ => by cases names
  | (name, child) :: rest, (otherName, other) :: others, names, distinct, verified => by
    rw [verifyChildren, bind_eq_ok] at verified
    obtain ⟨_, first, later⟩ := verified
    simp only [map_cons, List.cons.injEq] at names
    have head := eq_of_verifyContent child other
      (fun content member copy found => distinct content (mem_append_left _ member) copy
        (mem_append_left _ found)) first
    have tail := eq_of_verifyChildren rest others names.2
      (fun content member copy found => distinct content (mem_append_right _ member) copy
        (mem_append_right _ found)) later
    rw [head, tail, names.1]
end

/-- The verification finds the second content to be a copy of the first. -/
def Verifies (sha1 : Bytes → Digest 20) (source destination : Node) : Prop :=
  ∃ sourcePath destinationPath,
    verifyContent sha1 sourcePath destinationPath 0 source destination = .ok ()

theorem Verifies.eq {source destination : Node} (verified : Verifies sha1 source destination)
    (distinct : NoCollision sha1 (fileContents source) (fileContents destination)) :
    destination = source := by
  obtain ⟨sourcePath, destinationPath, verified⟩ := verified
  exact eq_of_verifyContent source destination distinct verified

end Verification

/-! ## Reading -/

theorem call_triple : Triple guard before call (fun _ => before) :=
  (Triple.ask _).leave fun _ _ _ holds => holds.2

theorem mapError_triple {program : Run α} {after : α → World → Prop}
    (replace : StorageError → StorageError) (triple : Triple guard before program after) :
    Triple guard before (mapError program replace) after :=
  triple.recover fun _ => .fail _

variable (path : Path)

theorem entryState_triple : Triple guard before (entryState path)
      (fun entry world => world.files path = entry ∧ before world) := by
  refine call_triple.bind fun _ => Triple.look.bind fun seen => ?_
  apply Triple.ret
  rintro world _ ⟨rfl, known⟩
  exact ⟨rfl, known⟩

theorem entryType_triple : Triple guard before (entryType path)
      (fun node world => world.files path = some node ∧ before world) := by
  refine (entryState_triple path).bind fun entry => ?_
  apply (Triple.ofExcept _).leave
  rintro node world _ ⟨found, held, known⟩
  rw [okOr_eq_ok] at found
  exact ⟨held.trans found, known⟩

theorem ensureDestinationAvailable_triple :
    Triple guard before (ensureDestinationAvailable path)
      (fun _ world => world.files path = none ∧ before world) := by
  refine (entryState_triple path).bind fun entry => ?_
  cases entry with
  | none => exact .ret _ fun _ _ holds => holds
  | some node => exact .fail _

/-- The content at a path has the length the plan expects, if it expects any. -/
def LengthMatches (expected : Nat) (entry : Option Node) : Prop :=
  expected = unknownLength ∨
    ∃ path node, entry = some node ∧ contentLen path 0 node = .ok expected

variable (expected : Nat)

theorem verifyExpectedLength_triple (path : Path) :
    Triple guard before (verifyExpectedLength expected path)
      (fun _ world => LengthMatches expected (world.files path) ∧ before world) := by
  simp only [verifyExpectedLength]
  split
  next unknown => exact Triple.ret _ fun _ _ known => ⟨Or.inl unknown, known⟩
  next =>
    refine call_triple.bind fun _ => (entryType_triple path).bind fun node =>
      (Triple.ofExcept _).bind fun actual => ?_
    by_cases same : actual = expected
    · rw [if_neg (not_not_intro same)]
      apply Triple.ret
      rintro world _ ⟨measured, found, known⟩
      rw [same] at measured
      exact ⟨Or.inr ⟨path, node, found, measured⟩, known⟩
    · rw [if_pos same]
      exact Triple.fail _

theorem verifyExpectedLength_silent (path : Path) :
    (verifyExpectedLength expected path).Silent := by
  simp only [verifyExpectedLength]
  have looks : (entryType path).Silent :=
    ((Silent.ask _).bind fun _ => Silent.look.bind fun _ => Silent.ret _).bind
      fun _ => Silent.ofExcept _
  split_ifs
  · exact Silent.ret _
  · refine (Silent.ask _).bind fun _ => looks.bind fun _ => (Silent.ofExcept _).bind fun _ => ?_
    split_ifs
    · exact Silent.fail _
    · exact Silent.ret _

/-- What is at the destination verifies against what is at the source. -/
def Copied (sha1 : Bytes → Digest 20) (source destination : Path) (world : World) : Prop :=
  ∃ original copy, world.files source = some original ∧ world.files destination = some copy ∧
    Verifies sha1 original copy

variable (sha1 : Bytes → Digest 20) (source : Path) (destination : Path)

theorem verifyContentWithControl_triple
    :
    Triple guard before (verifyContentWithControl sha1 source destination)
      (fun _ world => Copied sha1 source destination world ∧ before world) := by
  refine call_triple.bind fun _ => (entryType_triple source).bind fun original =>
    (entryType_triple destination).bind fun copy => ?_
  apply (Triple.ofExcept _).leave
  rintro _ world _ ⟨verified, foundCopy, foundOriginal, known⟩
  exact ⟨⟨original, copy, foundOriginal, foundCopy, source, destination, verified⟩, known⟩

/-! ## Writing and removing -/

/-- The condition and the invariant survive the loss of what the path holds: anything the
outside may leave there instead, and nothing at all. -/
def Expendable (guard : Guard World Answer) (before : World → Prop) (path : Path) : Prop :=
  ∀ world entry, world.files path ≠ none →
    (∀ node, entry = some node → guard.allowed (.leaves node)) →
    guard.invariant world → before world →
      guard.invariant (world.set path entry) ∧ before (world.set path entry)

theorem set_files_self (world : World) (path : Path) (entry : Option Node) :
    (world.set path entry).files path = entry := Function.update_self ..

theorem set_files_of_ne {path other : Path} (apart : other ≠ path) (world : World)
    (entry : Option Node) : (world.set path entry).files other = world.files other :=
  Function.update_of_ne apart ..

section

variable {path : Path} (free : Expendable guard before path)

include free

theorem leavePieces_triple :
    Triple guard (fun world => world.files path ≠ none ∧ before world) (leavePieces path)
      (fun _ world => world.files path ≠ none ∧ before world) := by
  apply Triple.changes
  rintro answer made allowed chosen world kept ⟨occupied, known⟩
  cases answer with
  | leaves content =>
    cases chosen
    have left := free world (some content) occupied (by rintro _ ⟨⟩; exact allowed) kept known
    refine ⟨left.1, ?_, left.2⟩
    rw [set_files_self]
    exact Option.some_ne_none content
  | proceeds => cases chosen
  | fails error => cases chosen

theorem removePieces_triple (node : Node) :
    Triple guard (fun world => world.files path ≠ none ∧ before world) (removePieces path node)
      (fun _ world => world.files path ≠ none ∧ before world) := by
  cases node with
  | directory children => exact leavePieces_triple free
  | file | symlink | special => exact .ret _ fun _ _ known => known

theorem removeEntry_triple (missingOk : Bool) :
    Triple guard before (removeEntry path missingOk) (fun _ => before) := by
  refine call_triple.bind fun _ => (entryState_triple path).bind fun entry => ?_
  cases entry with
  | none =>
    cases missingOk with
    | true => exact .ret _ fun _ _ holds => holds.2
    | false => exact .fail _
  | some node =>
    have gone : Triple guard (fun world => world.files path ≠ none ∧ before world)
        (change (·.set path none) : Run Unit) (fun _ => before) :=
      .change _ fun world kept known =>
        free world none known.1 nofun kept known.2
    refine (removePieces_triple free node).bind_enter
      (fun world _ holds => ⟨by rw [holds.1]; exact Option.some_ne_none node, holds.2⟩)
      fun removed => (mapError_triple _ ?_).bind fun _ => gone.bind fun _ =>
        mapError_triple _ call_triple
    exact call_triple.bind fun _ => (Triple.ofExcept _).leave fun _ _ _ holds => holds.2

theorem secureDelete_triple (missingOk : Bool) :
    Triple guard before (secureDelete path missingOk) (fun _ => before) :=
  call_triple.bind fun _ => removeEntry_triple free missingOk

end

/-- A copy that returns was verified. Whatever happens, the destination is all it writes. -/
theorem secureCopy_triple {source destination : Path}
    (creates : ∀ world node, world.files destination = none → guard.invariant world →
      before world → guard.invariant (world.set destination (some (blank node))) ∧
        before (world.set destination (some (blank node))))
    (free : Expendable guard before destination)
    (failing : Expendable guard (fun _ => True) destination) (expectedBytes : Nat) :
    Triple guard before (secureCopy sha1 source destination expectedBytes)
      (fun _ world => Copied sha1 source destination world ∧ before world) := by
  have created : ∀ node, Triple guard
      (fun world => world.files destination = none ∧ before world)
      (change (·.set destination (some (blank node))) : Run Unit)
      (fun _ world => world.files destination ≠ none ∧ before world) := by
    intro node
    apply Triple.change
    rintro world kept ⟨absent, known⟩
    obtain ⟨keeps, follows⟩ := creates world node absent kept known
    refine ⟨keeps, ?_, follows⟩
    rw [set_files_self]
    exact Option.some_ne_none _
  refine call_triple.bind fun _ => call_triple.bind fun _ =>
    (ensureDestinationAvailable_triple destination).bind fun _ => call_triple.bind fun _ =>
    (entryType_triple source).bind fun node => (Triple.ofExcept _).bind fun _ =>
    (ensureDestinationAvailable_triple destination).bind fun _ =>
    (Triple.ofExcept _).bind fun _ => call_triple.bind fun _ => ?_
  refine (created node).bind_enter (fun _ _ holds => ⟨holds.2.1, holds.2.2.2.2.2⟩) fun _ => ?_
  refine Triple.bind (Triple.recover ?_ fun error => ?_) fun _ => call_triple
  · refine (leavePieces_triple free).bind fun _ => call_triple.bind fun _ =>
      (Triple.ofExcept _).bind fun _ => (verifyExpectedLength_triple _ _).bind fun _ => ?_
    apply (verifyContentWithControl_triple sha1 source destination).leave
    rintro _ world _ ⟨verified, _, _, _, known⟩
    exact ⟨verified, known⟩
  · exact (mapError_triple _ (removeEntry_triple failing true)).bind fun _ =>
      (mapError_triple _ call_triple).bind fun _ => Triple.fail error

/-- A rename that returns has moved a content of the expected length. One that fails after
moving has either moved it back or left it at the destination. -/
theorem secureRename_triple {source destination : Path} {expectedBytes : Nat} {moved : World → Prop}
    (moves : ∀ world node, guard.invariant world → before world →
      world.files source = some node → world.files destination = none →
      LengthMatches expectedBytes (some node) →
      guard.invariant (world.move source destination) ∧ moved (world.move source destination))
    (returns : ∀ world, guard.invariant world → moved world →
      guard.invariant (world.move destination source)) :
    Triple guard before (secureRename source destination expectedBytes) (fun _ => moved) := by
  refine call_triple.bind fun _ => call_triple.bind fun _ =>
    (ensureDestinationAvailable_triple destination).bind fun _ =>
    (entryType_triple source).bind fun node => (Triple.ofExcept _).bind fun _ =>
    (verifyExpectedLength_triple expectedBytes source).bind fun _ =>
    call_triple.bind fun _ => call_triple.bind fun _ => ?_
  have made : Triple guard (fun world => before world ∧ world.files source = some node ∧
      world.files destination = none ∧ LengthMatches expectedBytes (some node))
      (change (·.move source destination) : Run Unit) (fun _ => moved) :=
    Triple.change _ fun world kept ⟨known, found, absent, length⟩ =>
      moves world node kept known found absent length
  refine made.bind_enter ?_ fun _ => ?_
  · rintro world _ ⟨length, _, found, absent, known⟩
    exact ⟨known, found, absent, found ▸ length⟩
  have returned : Triple guard moved (change (·.move destination source) : Run Unit)
      (fun _ _ => True) :=
    Triple.change _ fun world kept known => ⟨returns world kept known, trivial⟩
  have restored : Triple guard moved
      (recover (do call; change (·.move destination source); return true)
        fun _ => return false : Run Bool) (fun _ _ => True) :=
    Triple.recover (call_triple.bind fun _ => returned.bind
      fun _ => Triple.ret _ fun _ _ _ => trivial) fun _ => Triple.ret _ fun _ _ _ => trivial
  refine (mapError_triple _ call_triple).bind fun _ => (mapError_triple _ call_triple).bind
    fun _ => Triple.recover_silent
      ((verifyExpectedLength_triple _ _).leave fun _ _ _ holds => holds.2)
      (verifyExpectedLength_silent _ _) fun error => restored.bind fun given => ?_
  cases given with
  | true =>
    exact (mapError_triple _ (call_triple.bind fun _ => call_triple)).bind fun _ =>
      Triple.fail _
  | false => exact Triple.fail _

/-- Rolling a plan back keeps the invariant if each of its rollback steps does. -/
theorem rollbackPlan_triple {plan : StoragePlan}
    (each : ∀ step ∈ plan.rollbackSteps,
      Triple guard (fun _ => True) (executeStep sha1 step) (fun _ _ => True)) :
    Triple guard (fun _ => True) (rollbackPlan sha1 plan) (fun _ _ => True) := by
  refine (Triple.foldlM (fun rest _ _ => rest ⊆ plan.rollbackSteps) ?_ _ _).weaken
    (fun _ _ _ => List.Subset.refl _) fun _ _ _ _ => trivial
  intro step rest state
  apply Triple.at_world
  intro _ _ listed
  have executed := each step (listed mem_cons_self)
  have others := subset_of_cons_subset listed
  exact .recover (executed.bind_enter (fun _ _ _ => trivial)
    fun _ => .ret _ fun _ _ _ => others) fun _ => .ret _ fun _ _ _ => others

/-! ## Recognising a step as applied -/

theorem reconcileContent_triple :
    Triple guard before (reconcileContent sha1 source destination)
      (fun _ world => Copied sha1 source destination world ∧ before world) :=
  mapError_triple _ (verifyContentWithControl_triple sha1 source destination)

theorem verifyCheckpointedLength_triple (step : String) :
    Triple guard before (verifyCheckpointedLength path expected step) (fun _ => before) := by
  simp only [verifyCheckpointedLength]
  split_ifs
  · exact Triple.ret _ fun _ _ known => known
  · refine call_triple.bind fun _ => (entryType_triple path).bind fun node =>
      (Triple.ofExcept _).bind fun actual => ?_
    split_ifs
    · exact Triple.fail _
    · exact Triple.ret _ fun _ _ holds => holds.2.2

/-- A copy is seen to be done when it verifies against its source, and not to be done when
there is nothing at its destination. -/
theorem copyIsApplied_triple :
    Triple guard before (copyIsApplied sha1 source destination)
      (fun applied world => (if applied then Copied sha1 source destination world
        else world.files destination = none) ∧ before world) := by
  refine (entryState_triple destination).bind fun destinationEntry => ?_
  cases destinationEntry with
  | none => exact .ret _ fun _ _ holds => holds
  | some copy =>
    refine (entryState_triple source).bind fun sourceEntry => ?_
    cases sourceEntry with
    | none => exact .fail _
    | some original =>
      refine (reconcileContent_triple sha1 source destination).bind fun _ => ?_
      exact .ret _ fun _ _ holds => ⟨holds.1, holds.2.2.2⟩

theorem deleteIsApplied_triple (checkpointed : Bool) :
    Triple guard before (deleteIsApplied source checkpointed)
      (fun applied world => (applied = true → world.files source = none) ∧ before world) := by
  refine (entryState_triple source).bind fun entry => ?_
  cases entry with
  | none =>
    cases checkpointed with
    | true | false => exact .ret _ fun _ _ holds => ⟨fun _ => holds.1, holds.2⟩
  | some node =>
    cases checkpointed with
    | true => exact .fail _
    | false =>
      exact .ret _ fun _ _ holds => ⟨fun impossible => (by cases impossible), holds.2⟩

variable (plan : StoragePlan) (index : Nat)

/-- The step before this one has the given source. -/
def FollowsSource (previousSource : Path) : Prop :=
  ∃ previous, index ≠ 0 ∧ plan.steps[index - 1]? = some previous ∧
    previous.source = some previousSource

theorem publishedCopy_triple (source : Path) :
    Triple guard before (publishedCopy plan index source)
      (fun found world => (∀ previousSource, found = some previousSource →
        FollowsSource plan index previousSource) ∧ before world) := by
  simp only [publishedCopy]
  by_cases first : index = 0
  · rw [if_pos first]
    exact Triple.ret _ fun _ _ known => ⟨nofun, known⟩
  · rw [if_neg first]
    cases placed : plan.steps[index - 1]? with
    | none => exact Triple.ret _ fun _ _ known => ⟨nofun, known⟩
    | some previous =>
      refine (Triple.ofExcept _).bind fun previousSource => ?_
      split_ifs
      · exact Triple.ret _ fun _ _ known => ⟨nofun, known.2⟩
      · refine (entryState_triple previousSource).bind fun entry => ?_
        cases entry with
        | none => exact Triple.ret _ fun _ _ holds => ⟨nofun, holds.2.2⟩
        | some original =>
          apply Triple.ret
          rintro world _ ⟨_, required, known⟩
          rw [requiredPath, okOr_eq_ok] at required
          refine ⟨?_, known⟩
          rintro _ ⟨⟩
          exact ⟨previous, first, placed, required⟩

/-- What shows a rename to be done: its source is gone and there is something at its
destination, and either the step has a checkpoint or the copy it publishes verifies against
the source of the copy. -/
def RenameShown (sha1 : Bytes → Digest 20) (plan : StoragePlan) (index : Nat)
    (source destination : Path) (checkpointed : Bool) (world : World) : Prop :=
  world.files source = none ∧ ∃ node, world.files destination = some node ∧
    (checkpointed = true ∨ ∃ previousSource original,
      FollowsSource plan index previousSource ∧ world.files previousSource = some original ∧
        Verifies sha1 original node)

theorem renameIsApplied_triple
    (source destination : Path) (bytes : Nat) (checkpointed : Bool) :
    Triple guard before
      (renameIsApplied sha1 plan index source destination bytes checkpointed)
      (fun applied world =>
        (if applied then RenameShown sha1 plan index source destination checkpointed world
        else world.files destination = none) ∧ before world) := by
  refine (entryState_triple source).bind fun sourceEntry =>
    (entryState_triple destination).bind fun destinationEntry => ?_
  cases destinationEntry with
  | none =>
    cases sourceEntry with
    | none | some _ =>
      cases checkpointed with
      | true => exact .fail _
      | false => exact .ret _ fun _ _ holds => ⟨holds.1, holds.2.2⟩
  | some node =>
    cases sourceEntry with
    | some _ => exact .fail _
    | none =>
      cases checkpointed with
      | true =>
        by_cases link : node.isSymlink
        · simp only [link]
          exact .fail _
        · simp only [link]
          refine (verifyCheckpointedLength_triple _ _ _).bind fun _ => .ret _ ?_
          rintro world _ ⟨found, gone, known⟩
          exact ⟨⟨gone, node, found, Or.inl rfl⟩, known⟩
      | false =>
        refine (publishedCopy_triple plan index source).bind fun found => ?_
        cases found with
        | none => exact .fail _
        | some previousSource =>
          refine (reconcileContent_triple sha1 previousSource destination).bind fun _ =>
            .ret _ ?_
          rintro world _ ⟨⟨original, copy, intact, there, verified⟩, published, found, gone, known⟩
          obtain rfl : node = copy := Option.mem_unique found there
          exact ⟨⟨gone, node, found, Or.inr ⟨previousSource, original,
            published previousSource rfl, intact, verified⟩⟩, known⟩

end TorrentNG.Plan
