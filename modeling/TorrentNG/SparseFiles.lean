import Mathlib.Algebra.Ring.Nat
import Mathlib.Data.List.Basic

/-!
# Files with holes

A file has a content and a set of positions that hold data. Everything outside the set
reads as zero; a zero inside it may well be stored. `lseek` finds the next data or the
next hole from a position on, where the end of the file counts as a hole. A file system
may not support either question.

A byte range is described by the extents of data inside it: they come in order, and what
lies between them is a hole. Reading the extents and filling the gaps with zeros gives
the range.
-/

namespace SparseFiles

open List

/-- What `lseek` answers: a position, `ENXIO` where there is none, or `EINVAL` where the
question is not supported. -/
inductive SeekAnswer where
  | found (position : Nat)
  | enxio
  | einval
deriving DecidableEq

/-- A file with holes. Positions are those of a signed 64-bit offset. -/
structure SparseFile where
  content : List UInt8
  isData : Nat → Bool
  covers : ∀ position, isData position = false → content.getD position 0 = 0
  addressable : content.length < 2 ^ 63
  seeksData : Bool
  seeksHole : Bool

variable (file : SparseFile)

/-- A part of the file's content. -/
def SparseFile.slice (offset length : Nat) : List UInt8 :=
  (file.content.drop offset).take length

/-- No data from a position up to another. -/
def SparseFile.Hole (start stop : Nat) : Prop :=
  ∀ position, start ≤ position → position < stop → file.isData position = false

/-- `lseek(SEEK_DATA)`. -/
def SparseFile.seekData (position : Nat) : SeekAnswer :=
  if !file.seeksData then .einval
  else
    match (List.range' position (file.content.length - position)).find? file.isData with
    | some found => .found found
    | none => .enxio

/-- `lseek(SEEK_HOLE)`. -/
def SparseFile.seekHole (position : Nat) : SeekAnswer :=
  if !file.seeksHole then .einval
  else if position ≥ file.content.length then .enxio
  else
    .found (((List.range' position (file.content.length - position)).find?
      fun candidate => !file.isData candidate).getD file.content.length)

namespace SparseFile
variable (file : SparseFile)

theorem length_slice {offset length : Nat} (inside : offset + length ≤ file.content.length) :
    (file.slice offset length).length = length := by
  rw [slice, length_take, length_drop]
  omega

theorem slice_append (offset first second : Nat) :
    file.slice offset first ++ file.slice (offset + first) second =
      file.slice offset (first + second) := by
  rw [slice, slice, slice, take_add, drop_drop]

/-- A hole reads as zeros. -/
theorem slice_hole {start stop : Nat} (inside : stop ≤ file.content.length) (ordered : start ≤ stop)
    (hole : file.Hole start stop) :
    file.slice start (stop - start) = List.replicate (stop - start) 0 := by
  rw [eq_replicate_iff]
  refine ⟨file.length_slice (by omega), fun byte member => ?_⟩
  obtain ⟨index, bound, rfl⟩ := getElem_of_mem member
  have short : index < stop - start := by
    rwa [file.length_slice (by omega)] at bound
  have zero := file.covers (start + index) (hole _ (by omega) (by omega))
  rw [getD_eq_getElem?_getD, getElem?_eq_getElem (by omega)] at zero
  simpa [slice] using zero

variable {position : Nat}

theorem seekData_found {found : Nat} (answer : file.seekData position = .found found) :
    position ≤ found ∧ found < file.content.length ∧ file.isData found = true ∧
      file.Hole position found := by
  unfold seekData at answer
  split_ifs at answer
  split at answer
  · next candidate search =>
    obtain rfl := SeekAnswer.found.inj answer
    obtain ⟨data, member, first⟩ := find?_range'_eq_some.mp search
    obtain ⟨low, high⟩ := mem_range'_1.mp member
    refine ⟨low, by omega, data, fun other after before => ?_⟩
    simpa using first other after before
  · cases answer

theorem seekData_enxio (answer : file.seekData position = .enxio) :
    file.Hole position file.content.length := by
  unfold seekData at answer
  split_ifs at answer
  split at answer
  · cases answer
  · next search =>
    intro other after before
    have absent := find?_eq_none.mp search other (mem_range'_1.mpr (by omega))
    simpa using absent

/-- Behind data the next hole is further on. -/
theorem seekHole_of_data (inside : position < file.content.length)
    (data : file.isData position = true) : file.seekHole position = .einval ∨
      ∃ found, file.seekHole position = .found found ∧ position < found := by
  unfold seekHole
  split_ifs with unsupported outside
  · exact Or.inl rfl
  · omega
  · refine Or.inr ⟨_, rfl, ?_⟩
    cases search : (List.range' position (file.content.length - position)).find?
        fun candidate => !file.isData candidate with
    | none => exact inside
    | some found =>
      obtain ⟨hole, member, _⟩ := find?_range'_eq_some.mp search
      obtain ⟨low, _⟩ := mem_range'_1.mp member
      refine Nat.lt_of_le_of_ne low ?_
      rintro rfl
      simp [data] at hole

end SparseFile

end SparseFiles
