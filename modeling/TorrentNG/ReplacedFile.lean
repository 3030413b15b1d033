import Mathlib.Data.List.Basic

/-!
# A file that is replaced as a whole

New content is written to a file of its own, which is synced and then renamed over the old one;
at last the directory is synced. A replacement can stop before the rename, in which case the old
content stays, or before the directory is synced, in which case the new content is there but a
crash of the host may bring an older one back.
-/

namespace ReplacedFile

universe u
variable {α : Type u}

/-- How far a replacement has come. -/
inductive Replacement where
  | failed
  | renamed
  | synced
deriving DecidableEq

/-- The content that is read, and the older ones that a crash of the host can bring back. -/
structure File (α : Type u) where
  current : α
  older : List α

namespace File

def replace (file : File α) (content : α) : Replacement → File α
  | .failed => file
  | .renamed => { current := content, older := file.current :: file.older }
  | .synced => { current := content, older := [] }

/-- The host crashes, and one of the contents that were not yet replaced for good is there. -/
def survive (file : File α) (kept : Nat) : File α where
  current := (file.current :: file.older)[kept]?.getD file.current
  older := []

/-- Whatever content is read next, it has the property. -/
structure Every (property : α → Prop) (file : File α) : Prop where
  current : property file.current
  older : ∀ content ∈ file.older, property content

variable {property : α → Prop} {file : File α} {content : α}

theorem Every.replace (every : Every property file) (holds : property content)
    (replacement : Replacement) : Every property (file.replace content replacement) := by
  cases replacement with
  | failed => exact every
  | renamed => exact ⟨holds, List.forall_mem_cons.mpr ⟨every.current, every.older⟩⟩
  | synced => exact ⟨holds, nofun⟩

theorem every_synced (holds : property content) : Every property (file.replace content .synced) :=
  ⟨holds, nofun⟩

theorem Every.survive (every : Every property file) (kept : Nat) :
    Every property (file.survive kept) := by
  refine ⟨?_, nofun⟩
  rw [File.survive]
  cases found : (file.current :: file.older)[kept]? with
  | none => exact every.current
  | some content =>
    exact List.forall_mem_cons.mpr ⟨every.current, every.older⟩ content (List.mem_of_getElem? found)

theorem Every.mono {weaker : α → Prop} (every : Every property file)
    (implies : ∀ content, property content → weaker content) : Every weaker file :=
  ⟨implies _ every.current, fun content inside => implies _ (every.older content inside)⟩

end File

end ReplacedFile
