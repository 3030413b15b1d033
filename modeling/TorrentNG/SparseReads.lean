import TorrentNG.MerkleHash
import TorrentNG.SafePath
import TorrentNG.SparseFiles
import TorrentNG.StorageErrors

/-!
# Reading sparse files

The reads of a recheck in `rt-storage`: `data_extents` and `seek_data_extents` of
`scheduler.rs` find the data in a byte range, and `read_sparse_range` of `verify.rs` reads
it and fills the rest of the range with zeros. Where there is no data at all the range is
read as it is.

Files are named by their path below the storage root. A file that is there can be read,
and no queue is full: errors other than a missing or a short file do not occur. Counters,
caches and hints to the page cache are left out.
-/

namespace TorrentNG.Storage

open Fallible MachineArithmetic MerkleHash SafePath SparseFiles List

abbrev FileSystem := SafeRelPath → Option SparseFile

abbrev StorageError := StorageErrors.StorageError SafeRelPath String

def rangeOverflow (path : SafeRelPath) : StorageError := .io path "file range overflows u64"

/-- `ENXIO`: a seek for a hole found the file to end before its data. -/
def seekFailed (path : SafeRelPath) : StorageError :=
  .io path "No such device or address (os error 6)"

structure DataExtent where
  offset : Nat
  len : Nat
deriving DecidableEq

variable (files : FileSystem)

/-- `get_or_open` for reading. -/
def openFile (path : SafeRelPath) : Except StorageError SparseFile :=
  okOr (files path) (.fileNotFound path)

/-- The loop of `seek_data_extents` from a cursor on, and whether it gave up and answers
with the whole range. Every round moves the cursor, so the length of the range is fuel
enough. -/
def seekLoop (file : SparseFile) (path : SafeRelPath) (offset len stop : Nat) :
    Nat → Nat → List DataExtent → Except StorageError (List DataExtent × Bool)
  | 0, _, extents => .ok (extents, false)
  | fuel + 1, cursor, extents =>
      if cursor < stop then
        match file.seekData (min cursor i64Max) with
        | .enxio => .ok (extents, false)
        | .einval => .ok ([⟨offset, len⟩], true)
        | .found position =>
            let data := max position cursor
            if data ≥ stop then .ok (extents, false)
            else
              match file.seekHole (min data i64Max) with
              | .enxio => .error (seekFailed path)
              | .einval => .ok ([⟨offset, len⟩], true)
              | .found hole =>
                  let extentEnd := min hole stop
                  let extents :=
                    if extentEnd > data then extents ++ [⟨data, extentEnd - data⟩] else extents
                  seekLoop file path offset len stop fuel
                    (max extentEnd (saturatingAdd data 1)) extents
      else .ok (extents, false)

def seekDataExtents (file : SparseFile) (path : SafeRelPath) (offset len : Nat) :
    Except StorageError (List DataExtent × Bool) := do
  let stop ← okOr (checkedAdd offset len) (rangeOverflow path)
  if len = 0 then .ok ([], false)
  else seekLoop file path offset len stop len offset []

def dataExtents (path : SafeRelPath) (offset len : Nat) :
    Except StorageError (List DataExtent) :=
  if len = 0 then .ok []
  else do
    let requestedEnd ← okOr (checkedAdd offset len) (rangeOverflow path)
    let file ← openFile files path
    let fileLen := file.content.length
    if offset ≥ fileLen ∨ requestedEnd > fileLen then
      .error (.shortIo path len (fileLen - offset))
    else do
      let (extents, _) ← seekDataExtents file path offset len
      .ok extents

/-- An exact read: all of the range or an error. -/
def readOwned (path : SafeRelPath) (offset len : Nat) :
    Except StorageError Bytes := do
  let stop ← okOr (checkedAdd offset len) (rangeOverflow path)
  let file ← openFile files path
  if len = 0 ∨ stop ≤ file.content.length then .ok (file.slice offset len)
  else .error (.shortIo path len 0)

/-- The loop of `read_sparse_range` over the extents, and what it appends at last. -/
def fillExtents (files : FileSystem) (path : SafeRelPath) (rangeEnd : Nat) :
    List DataExtent → Nat → Bytes → Except StorageError Bytes
  | [], cursor, out =>
      .ok (if cursor < rangeEnd then resize out (out.length + (rangeEnd - cursor)) 0 else out)
  | extent :: rest, cursor, out =>
      let out :=
        if extent.offset > cursor then resize out (out.length + (extent.offset - cursor)) 0 else out
      let extentEnd := min (saturatingAdd extent.offset extent.len) rangeEnd
      if extentEnd > extent.offset then do
        let data ← readOwned files path extent.offset (extentEnd - extent.offset)
        fillExtents files path rangeEnd rest extentEnd (out ++ data)
      else fillExtents files path rangeEnd rest cursor out

def readSparseRange (path : SafeRelPath) (offset len : Nat) :
    Except StorageError Bytes := do
  let extents ← dataExtents files path offset len
  if extents.isEmpty then readOwned files path offset len
  else fillExtents files path (saturatingAdd offset len) extents offset []

/-! ## The extents describe the range -/

/-- The extents lie in the range in order, with holes before, between and behind them. -/
def Describes (file : SparseFile) : List DataExtent → Nat → Nat → Prop
  | [], cursor, stop => file.Hole cursor stop
  | extent :: rest, cursor, stop =>
      cursor ≤ extent.offset ∧ file.Hole cursor extent.offset ∧ 0 < extent.len ∧
        extent.offset + extent.len ≤ stop ∧
        Describes file rest (extent.offset + extent.len) stop

section Extents
variable (file : SparseFile) (path : SafeRelPath) (offset len stop : Nat)

/-- The loop adds extents that describe the rest of the range, or gives up. -/
theorem seekLoop_describes (inside : stop ≤ file.content.length) (fuel cursor : Nat)
    (extents : List DataExtent) (ordered : cursor ≤ stop) (enough : stop ≤ cursor + fuel) :
    seekLoop file path offset len stop fuel cursor extents = .ok ([⟨offset, len⟩], true) ∨
      ∃ found, seekLoop file path offset len stop fuel cursor extents =
          .ok (extents ++ found, false) ∧ Describes file found cursor stop := by
  have limit := file.addressable
  have finished : ∀ position, stop ≤ position → file.Hole position stop :=
    fun position behind other after before => by omega
  induction fuel generalizing cursor extents with
  | zero => exact Or.inr ⟨[], by simp [seekLoop], finished cursor (by omega)⟩
  | succ fuel ih =>
    rw [seekLoop]
    by_cases more : cursor < stop
    · have exact : min cursor i64Max = cursor := by
        simp only [i64Max]
        omega
      rw [if_pos more, exact]
      cases sought : file.seekData cursor with
      | einval => exact Or.inl rfl
      | enxio =>
        refine Or.inr ⟨[], by simp, fun position after before => ?_⟩
        exact file.seekData_enxio sought position after (by omega)
      | found position =>
        obtain ⟨reached, within, data, hole⟩ := file.seekData_found sought
        have ahead : max position cursor = position := by omega
        dsimp only
        rw [ahead]
        split_ifs with beyond
        · refine Or.inr ⟨[], by simp, fun other after before => hole other after (by omega)⟩
        · have exactData : min position i64Max = position := by
            simp only [i64Max]
            omega
          rw [exactData]
          obtain unsupported | ⟨next, answered, further⟩ := file.seekHole_of_data within data
          · rw [unsupported]
            exact Or.inl rfl
          · rw [answered]
            dsimp only
            have longer : min next stop > position := by omega
            have step : max (min next stop) (saturatingAdd position 1) = min next stop := by
              rw [saturatingAdd_of_lt (by omega)]
              omega
            rw [if_pos longer, step]
            obtain gaveUp | ⟨found, result, describes⟩ := ih (min next stop)
              (extents ++ [⟨position, min next stop - position⟩]) (by omega) (by omega)
            · exact Or.inl gaveUp
            · have ends : position + (min next stop - position) = min next stop := by omega
              refine Or.inr ⟨⟨position, min next stop - position⟩ :: found, ?_, ?_⟩
              · rw [result, append_assoc]
                rfl
              · refine ⟨reached, hole, ?_, ?_, ?_⟩
                · dsimp only
                  omega
                · dsimp only
                  omega
                · dsimp only
                  rwa [ends]
    · rw [if_neg more]
      exact Or.inr ⟨[], by simp, finished cursor (by omega)⟩

/-- The whole range is described by the extents found and by itself. -/
theorem seekDataExtents_describes (some : 0 < len) (inside : offset + len ≤ file.content.length) :
    ∃ extents fallback, seekDataExtents file path offset len = .ok (extents, fallback) ∧
      Describes file extents offset (offset + len) := by
  have limit := file.addressable
  rw [seekDataExtents, checkedAdd_of_lt (by omega)]
  simp only [okOr, bind, Except.bind]
  rw [if_neg (by omega)]
  obtain whole | ⟨found, result, describes⟩ :=
    seekLoop_describes file path offset len (offset + len) inside len offset [] (by omega) (by omega)
  · refine ⟨_, _, whole, Nat.le_refl _, fun position after before => ?_, some, Nat.le_refl _,
      fun position after before => ?_⟩
    · exact absurd before (Nat.not_lt.mpr after)
    · exact absurd before (Nat.not_lt.mpr after)
  · exact ⟨_, _, result, by simpa using describes⟩

end Extents

/-! ## Reads are exact -/

theorem resize_grow {α : Type} (items : List α) (count : Nat) (value : α) :
    resize items (items.length + count) value = items ++ List.replicate count value := by
  rw [resize, take_of_length_le (Nat.le_add_right _ _), Nat.add_sub_cancel_left]

/-- Zeros are appended where a hole lies ahead. -/
theorem fill_hole {file : SparseFile} {cursor next : Nat} (inside : next ≤ file.content.length)
    (ordered : cursor ≤ next) (hole : file.Hole cursor next) (out : Bytes) :
    (if next > cursor then resize out (out.length + (next - cursor)) 0 else out) =
      out ++ file.slice cursor (next - cursor) := by
  rw [file.slice_hole inside ordered hole]
  split_ifs with gap
  · exact resize_grow out _ 0
  · rw [Nat.sub_eq_zero_of_le (Nat.not_lt.mp gap)]
    simp

section Reads
variable {files : FileSystem} {path : SafeRelPath} {file : SparseFile}
variable (stored : files path = some file)
include stored

theorem readOwned_eq {offset len : Nat} (inside : offset + len ≤ file.content.length) :
    readOwned files path offset len = .ok (file.slice offset len) := by
  have limit := file.addressable
  rw [readOwned, checkedAdd_of_lt (by omega)]
  simp only [okOr, bind, Except.bind, openFile, stored]
  rw [if_pos (Or.inr inside)]

/-- Reading the extents and filling the gaps gives the range. -/
theorem fillExtents_eq {stop : Nat} (inside : stop ≤ file.content.length)
    {extents : List DataExtent} (cursor : Nat) (out : Bytes) (ordered : cursor ≤ stop)
    (describes : Describes file extents cursor stop) :
    fillExtents files path stop extents cursor out =
      .ok (out ++ file.slice cursor (stop - cursor)) := by
  have limit := file.addressable
  induction extents generalizing cursor out with
  | nil =>
    rw [fillExtents, fill_hole inside ordered describes]
  | cons extent rest ih =>
    obtain ⟨after, hole, some, fits, remaining⟩ := describes
    have ends : min (saturatingAdd extent.offset extent.len) stop = extent.offset + extent.len := by
      rw [saturatingAdd_of_lt (by omega)]
      omega
    have whole : file.slice cursor (extent.offset - cursor) ++
        (file.slice extent.offset extent.len ++
          file.slice (extent.offset + extent.len) (stop - (extent.offset + extent.len))) =
        file.slice cursor (stop - cursor) := by
      rw [file.slice_append]
      have joined := file.slice_append cursor (extent.offset - cursor) (stop - extent.offset)
      rw [Nat.add_sub_cancel' after] at joined
      rw [show extent.len + (stop - (extent.offset + extent.len)) = stop - extent.offset by omega,
        joined]
      congr 1
      omega
    rw [fillExtents, fill_hole (by omega) after hole, ends, if_pos (by omega),
      Nat.add_sub_cancel_left, readOwned_eq stored (by omega), bind_eq_ok]
    refine ⟨_, rfl, ?_⟩
    rw [ih _ _ (by omega) remaining, append_assoc, append_assoc, whole]

theorem readSparseRange_eq {offset len : Nat} (some : 0 < len)
    (inside : offset + len ≤ file.content.length) :
    readSparseRange files path offset len = .ok (file.slice offset len) := by
  have limit := file.addressable
  obtain ⟨extents, fallback, found, describes⟩ :=
    seekDataExtents_describes file path offset len some inside
  have listed : dataExtents files path offset len = .ok extents := by
    rw [dataExtents, if_neg (by omega), checkedAdd_of_lt (by omega)]
    simp only [okOr, bind, Except.bind, openFile, stored]
    rw [if_neg (by omega), found]
  rw [readSparseRange, listed, saturatingAdd_of_lt (by omega)]
  simp only [bind, Except.bind]
  split_ifs with empty
  · exact readOwned_eq stored inside
  · rw [fillExtents_eq stored inside offset [] (by omega) describes, nil_append,
      Nat.add_sub_cancel_left]

end Reads

/-- A sparse read succeeds exactly on files that reach the end of the range. -/
theorem readSparseRange_eq_ok {files : FileSystem} {path : SafeRelPath} {offset len : Nat}
    (some : 0 < len) {data : Bytes} : readSparseRange files path offset len = .ok data ↔
      ∃ file, files path = Option.some file ∧ offset + len ≤ file.content.length ∧
        data = file.slice offset len := by
  constructor
  · intro read
    obtain ⟨extents, listed, _⟩ := bind_eq_ok.mp read
    rw [dataExtents, if_neg (by omega)] at listed
    obtain ⟨stop, added, listed⟩ := bind_eq_ok.mp listed
    obtain ⟨rfl, _⟩ := checkedAdd_eq_some.mp (okOr_eq_ok.mp added)
    obtain ⟨file, opened, listed⟩ := bind_eq_ok.mp listed
    have stored : files path = Option.some file := okOr_eq_ok.mp opened
    dsimp only at listed
    split_ifs at listed with short
    have inside : offset + len ≤ file.content.length := by omega
    rw [readSparseRange_eq stored some inside] at read
    exact ⟨file, stored, inside, (Except.ok.inj read).symm⟩
  · rintro ⟨file, stored, inside, rfl⟩
    exact readSparseRange_eq stored some inside

end TorrentNG.Storage
