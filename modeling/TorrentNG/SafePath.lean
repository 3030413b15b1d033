import TorrentNG.Fallible
import TorrentNG.MachineArithmetic
import TorrentNG.SortedSlices
import TorrentNG.Utf8

/-!
# Safe relative paths of `rt-path`

Torrent path components are validated one by one, and a path is built only from
components that pass. A set of file paths is usable when no path equals another or
lies inside another taken as a directory; the source sorts the paths and compares
neighbours. The build modelled here is not a Windows one: components compare as
they are written, without the ordinal case folding of that system.
-/

namespace TorrentNG.SafePath

open Fallible MachineArithmetic SortedSlices Utf8 List

inductive PathError where
  | absolutePath (component : Text)
  | parentTraversal (component : Text)
  | emptyComponent
  | nulByte
  | windowsReservedName (component : Text)
  | conflictingPaths (path : Text)
  | illegalCharacter (character : Char)
  | componentTooLong (length max : Nat)
  | tooManyComponents (count max : Nat)
  | pathTooLong (length max : Nat)
  | emptyPath
deriving Repr, DecidableEq

def maxComponentBytes : Nat := 4096

def maxComponents : Nat := 256

def maxPathBytes : Nat := maxComponentBytes * maxComponents + maxComponents - 1

/-- Names reserved with or without an extension, in any case. -/
def windowsReserved : List Text :=
  ["CON", "PRN", "AUX", "NUL", "COM1", "COM2", "COM3", "COM4", "COM5", "COM6", "COM7", "COM8",
    "COM9", "COM¹", "COM²", "COM³", "CONIN$", "CONOUT$", "LPT1", "LPT2", "LPT3", "LPT4", "LPT5",
    "LPT6", "LPT7", "LPT8", "LPT9", "LPT¹", "LPT²", "LPT³"].map String.toList

/-- `eq_ignore_ascii_case`. -/
def eqIgnoreAsciiCase (left right : Text) : Bool :=
  left.map Char.toLower == right.map Char.toLower

variable (character : Char)

/-- A space or a dot, which the system drops at the end of a name. -/
def isTrailing : Bool := character == ' ' || character == '.'

/-- A character that no name may hold on Windows. -/
def isWindowsInvalid : Bool :=
  ['<', '>', ':', '"', '|', '?', '*'].contains character ||
    (1 ≤ character.toNat && character.toNat ≤ 0x1f)

variable (name : Text)

/-- The part of a name before its first dot, without trailing spaces. -/
def windowsStem : Text :=
  ((name.takeWhile (· ≠ '.')).reverse.dropWhile isTrailing).reverse

/-- The checks of `validate_component` that only `check_windows_reserved` asks for. -/
def validateWindowsName : Except PathError Unit :=
  if name.head? = some ' ' then .error (.illegalCharacter ' ')
  else if (name.getLast?).any isTrailing then
    .error (.illegalCharacter (name.getLast?.getD ' '))
  else
    match name.find? isWindowsInvalid with
    | some character => .error (.illegalCharacter character)
    | none =>
        if windowsReserved.any (eqIgnoreAsciiCase · (windowsStem name)) then
          .error (.windowsReservedName name)
        else .ok ()

/-- `s.len() >= 2 && s.as_bytes()[1] == b':'`: a colon is the second byte only behind a
character of one byte. -/
def colonIsSecondByte : Bool :=
  match name with
  | first :: second :: _ => first.utf8Size == 1 && second == ':'
  | _ => false

/-- A separator of any platform. -/
def isSeparator : Bool := character == '/' || character == Char.ofNat 92

/-- The checks of `validate_component` that every platform asks for. -/
def validatePlainComponent : Except PathError Unit :=
  if name = [] then .error .emptyComponent
  else if byteLength name > maxComponentBytes then
    .error (.componentTooLong (byteLength name) maxComponentBytes)
  else if name.contains (Char.ofNat 0) then .error .nulByte
  else if name = ['.', '.'] then .error (.parentTraversal name)
  else if name = ['.'] then .error (.illegalCharacter '.')
  else
    match name.find? isSeparator with
    | some separator => .error (.illegalCharacter separator)
    | none => if colonIsSecondByte name then .error (.absolutePath name) else .ok ()

def validateComponent (checkWindowsReserved : Bool) : Except PathError Unit := do
  validatePlainComponent name
  if checkWindowsReserved then validateWindowsName name else .ok ()

/-- The loop of `from_components`, with the bytes of the path so far. -/
def checkComponents (checkWindowsReserved : Bool) :
    List Text → Bool → Nat → Except PathError Unit
  | [], _, _ => .ok ()
  | name :: rest, isFirst, pathBytes => do
      let _ ← validateComponent name checkWindowsReserved
      let withName := saturatingAdd pathBytes (byteLength name)
      let pathBytes := if isFirst then withName else saturatingAdd withName 1
      if pathBytes > maxPathBytes then .error (.pathTooLong pathBytes maxPathBytes)
      else checkComponents checkWindowsReserved rest false pathBytes

/-- Every component of an accepted path has passed the checks of all platforms. -/
theorem checkComponents_safe {checkWindowsReserved : Bool} {names : List Text} (isFirst : Bool)
    (pathBytes : Nat)
    (checked : checkComponents checkWindowsReserved names isFirst pathBytes = .ok ()) :
    ∀ name ∈ names, validatePlainComponent name = .ok () := by
  induction names generalizing isFirst pathBytes with
  | nil => simp
  | cons first rest ih =>
    rw [checkComponents, bind_eq_ok] at checked
    obtain ⟨_, valid, checked⟩ := checked
    obtain ⟨_, plain, _⟩ := bind_eq_ok.mp valid
    intro name member
    obtain rfl | later := mem_cons.mp member
    · exact plain
    · dsimp only at checked
      split_ifs at checked
      all_goals exact ih _ _ checked name later

/-- A validated path. Only validated components can be put together. -/
structure SafeRelPath where
  components : List Text
  nonempty : components ≠ []
  few : components.length ≤ maxComponents
  safe : ∀ name ∈ components, validatePlainComponent name = .ok ()
deriving DecidableEq

/-- The path `a`. -/
def SafeRelPath.sample : SafeRelPath := ⟨[['a']], by decide, by decide, by decide⟩

def SafeRelPath.fromComponents (components : List Text) (checkWindowsReserved : Bool) :
    Except PathError SafeRelPath :=
  if empty : components = [] then .error .emptyPath
  else if many : components.length > maxComponents then
    .error (.tooManyComponents components.length maxComponents)
  else
    match checked : checkComponents checkWindowsReserved components true 0 with
    | .error problem => .error problem
    | .ok _ => .ok ⟨components, empty, Nat.not_lt.mp many,
        checkComponents_safe true 0 checked⟩

/-- Parse a single-component name. -/
def SafeRelPath.fromName (checkWindowsReserved : Bool) :
    Except PathError SafeRelPath := fromComponents [name] checkWindowsReserved

/-- The components joined by slashes. -/
def SafeRelPath.asDisplay (path : SafeRelPath) : Text := ['/'].intercalate path.components

/-- Component by component, then by length; a component by its characters. -/
abbrev compareComponents : List Text → List Text → Ordering :=
  List.compareLex (List.compareLex compare)

/-- `ComparablePath::compare`. -/
def comparePaths (left right : SafeRelPath) : Ordering :=
  compareComponents left.components right.components

/-- One path is a directory on the way to the other. -/
def SafeRelPath.isDirectoryPrefixOf (path other : SafeRelPath) : Bool :=
  path.components.length < other.components.length &&
    path.components.isPrefixOf other.components

def validateUniqueFilePaths (paths : List SafeRelPath) : Except PathError Unit :=
  match (neighbours (sortBy comparePaths paths)).find? fun pair =>
      (comparePaths pair.1 pair.2).isEq || pair.1.isDirectoryPrefixOf pair.2 with
  | some (_, current) => .error (.conflictingPaths current.asDisplay)
  | none => .ok ()

/-- Two files cannot coexist: the paths are equal, or one is a directory of the other. -/
def Conflict (left right : SafeRelPath) : Prop :=
  left.components <+: right.components ∨ right.components <+: left.components

theorem Conflict.symm {left right : SafeRelPath} (clash : Conflict left right) :
    Conflict right left := Or.symm clash

/-- The neighbour check of the source, in terms of components. -/
theorem neighbour_clash_iff (previous current : SafeRelPath) :
    ((comparePaths previous current).isEq || previous.isDirectoryPrefixOf current) = true ↔
      previous.components <+: current.components := by
  rw [Bool.or_eq_true, Ordering.isEq_iff_eq_eq, comparePaths, Std.LawfulEqCmp.compare_eq_iff_eq,
    SafeRelPath.isDirectoryPrefixOf, Bool.and_eq_true, decide_eq_true_eq, isPrefixOf_iff_prefix]
  constructor
  · rintro (same | ⟨_, extension⟩)
    · exact same ▸ prefix_rfl
    · exact extension
  · intro extension
    obtain shorter | same := Nat.lt_or_eq_of_le extension.length_le
    · exact Or.inr ⟨shorter, extension⟩
    · exact Or.inl (extension.eq_of_length same)

instance : Std.TransCmp comparePaths where
  eq_swap {left right} :=
    (Std.OrientedCmp.eq_swap : compareComponents left.components right.components = _)
  isLE_trans {first second third} lower upper := by
    have below : (compareComponents first.components second.components).isLE = true := lower
    have above : (compareComponents second.components third.components).isLE = true := upper
    have ordered := Std.TransCmp.isLE_trans below above
    exact ordered

theorem SafeRelPath.eq_of_components {left right : SafeRelPath}
    (same : left.components = right.components) : left = right := by
  cases left
  cases right
  cases same
  rfl

instance : Std.LawfulEqCmp comparePaths where
  compare_self {path} :=
    (Std.ReflCmp.compare_self : compareComponents path.components path.components = .eq)
  eq_of_compare equal := SafeRelPath.eq_of_components (Std.LawfulEqCmp.eq_of_compare equal)

/-- Comparing neighbours of the sorted paths finds a conflict wherever there is one. -/
theorem validateUniqueFilePaths_eq_ok {paths : List SafeRelPath} :
    validateUniqueFilePaths paths = .ok () ↔
      paths.Pairwise fun left right => ¬Conflict left right := by
  have sorted := sortBy_sorted comparePaths paths
  refine Iff.trans ?_ ((sortBy_perm comparePaths paths).pairwise_iff
    fun clear clash => clear clash.symm)
  have checked : validateUniqueFilePaths paths = .ok () ↔
      ∀ pair ∈ neighbours (sortBy comparePaths paths),
        ¬pair.1.components <+: pair.2.components := by
    unfold validateUniqueFilePaths
    simp only [← neighbour_clash_iff]
    rw [← find?_eq_none]
    cases (neighbours (sortBy comparePaths paths)).find? _ with
    | none => simp
    | some pair => simp
  rw [checked]
  constructor
  · intro separate
    have ahead := pairwise_of_neighbours _
      (fun left right : SafeRelPath => left.components <+: right.components) sorted
      (fun first middle last lower upper extension =>
        prefix_of_between _ _ lower upper extension) separate
    refine ahead.imp₂ ?_ sorted
    intro left right clear ordered clash
    obtain forward | backward := clash
    · exact clear forward
    · have reversed : (compareComponents right.components left.components).isLE = true :=
        isLE_of_prefix _ _ backward
      have equal : compareComponents left.components right.components = .eq :=
        Std.OrientedCmp.isLE_antisymm ordered reversed
      exact clear (Std.LawfulEqCmp.eq_of_compare equal ▸ prefix_rfl)
  · intro clear pair member extension
    exact pairwise_neighbours clear pair member (Or.inl extension)

/-- Paths are accepted exactly when no two of them are equal and none is a directory of another.
Their order does not matter, not even for the path that is reported. -/
theorem unique_file_paths_iff (paths : List SafeRelPath) :
    (validateUniqueFilePaths paths = .ok () ↔
      paths.Nodup ∧ ∀ left ∈ paths, ∀ right ∈ paths,
        ¬(left.components <+: right.components ∧ left.components ≠ right.components)) ∧
    ∀ others, others.Perm paths →
      validateUniqueFilePaths others = validateUniqueFilePaths paths := by
  have symmetric : Std.Symm fun left right => ¬Conflict left right :=
    ⟨fun _ _ clear clash => clear clash.symm⟩
  refine ⟨validateUniqueFilePaths_eq_ok.trans ⟨?_, ?_⟩, ?_⟩
  · intro clear
    constructor
    · refine clear.imp fun {left right} apart same => ?_
      subst same
      exact apart (.inl List.prefix_rfl)
    · rintro left first right second ⟨extension, differ⟩
      have different : left ≠ right := fun same => differ (congrArg _ same)
      exact clear.forall first second different (.inl extension)
  · rintro ⟨distinct, separate⟩
    refine distinct.imp_of_mem fun {left right} first second differ clash => ?_
    have apart : left.components ≠ right.components := fun same =>
      differ (SafeRelPath.eq_of_components same)
    rcases clash with forward | backward
    · exact separate left first right second ⟨forward, apart⟩
    · exact separate right second left first ⟨backward, apart.symm⟩
  · intro others permuted
    rw [validateUniqueFilePaths, sortBy_congr comparePaths permuted, validateUniqueFilePaths]

end TorrentNG.SafePath
