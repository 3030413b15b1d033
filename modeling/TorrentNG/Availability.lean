import TorrentNG.BucketQueue

/-!
# Piece availability of `rt-piece-picker`

How many peers have each piece, with the pieces kept in buckets by that count so that the
rarest ones come first. Pieces that are no longer wanted are retired: they leave the
buckets and keep their count. The buckets hold piece numbers cast to 32 bits, so they are
exact for every history of calls as long as there are at most `2 ^ 32` pieces.
-/

namespace TorrentNG

open BucketQueue List

/-- Reading a list of which one entry was set. -/
theorem getD_set {α : Type} {entries : List α} {index : Nat} (inside : index < entries.length)
    (value default : α) (other : Nat) :
    (entries.set index value)[other]?.getD default =
      if index = other then value else entries[other]?.getD default := by
  rw [getElem?_set]
  by_cases same : index = other
  · subst same
    simp only [if_true, if_pos inside, Option.getD_some]
  · simp only [if_neg same]

structure Availability where
  counts : List Nat
  buckets : List (Finset Nat)
  retired : List Bool
deriving DecidableEq

namespace Availability

def new (pieceCount : Nat) : Availability where
  counts := List.replicate pieceCount 0
  buckets := []
  retired := List.replicate pieceCount false

variable (availability : Availability)

def pieceCount : Nat := availability.counts.length

variable (piece : Nat)

def count : Nat := availability.counts[piece]?.getD 0

def isRetired : Bool :=
  availability.retired[piece]?.getD false

/-- `piece as u32`. -/
def asU32 : Nat := piece % 2 ^ 32

/-- Change the count of a piece, and its bucket with it when the piece is not retired. -/
def recount (change : Nat → Nat) (availability : Availability) (piece : Nat) : Availability :=
  match availability.counts[piece]? with
  | none => availability
  | some old =>
      let new := change old
      let counts := availability.counts.set piece new
      if new ≠ old ∧ availability.isRetired piece = false then
        let buckets := bucketRemove availability.buckets old (asU32 piece)
        { availability with counts, buckets := bucketInsert buckets new (asU32 piece) }
      else { availability with counts }

/-- One more peer has the piece; the count stays within 32 bits. -/
def addHave : Availability → Nat → Availability := recount fun old => min (old + 1) (2 ^ 32 - 1)

/-- One peer fewer has the piece. -/
def removeHave : Availability → Nat → Availability := recount fun old => old - 1

/-- Apply a change to each piece of a bitfield, most significant bit first. The inner loop
ends at the first piece that does not exist. -/
def overBitfield (change : Availability → Nat → Availability) (availability : Availability)
    (bitfield : List UInt8) : Availability :=
  bitfield.zipIdx.foldl (fun availability (byte, byteIdx) =>
    ((List.range 8).takeWhile fun bit => byteIdx * 8 + bit < availability.counts.length).foldl
      (fun availability bit =>
        if byte &&& (0x80 >>> UInt8.ofNat bit) ≠ 0 then change availability (byteIdx * 8 + bit)
        else availability)
      availability)
    availability

def addBitfield : Availability → List UInt8 → Availability := overBitfield addHave

def removeBitfield : Availability → List UInt8 → Availability := overBitfield removeHave

/-- The wanted pieces that some peer has, rarest first. -/
def rarestFirst (want : List Bool) : List Nat :=
  ((availability.buckets.drop 1).flatMap fun items => items.sort).filter fun piece =>
    want[piece]?.getD false

/-- The rarest piece that a predicate accepts. -/
def rarestMatching (predicate : Nat → Bool) : Option Nat :=
  firstMatching availability.buckets predicate

/-- Take a piece out of the buckets, whatever its count. -/
def retire : Availability :=
  match availability.retired[piece]? with
  | none => availability
  | some true => availability
  | some false =>
      { availability with
        retired := availability.retired.set piece true
        buckets := bucketRemove availability.buckets (availability.count piece) (asU32 piece) }

/-- Put a retired piece back at its count. -/
def reinstate : Availability :=
  match availability.retired[piece]? with
  | none => availability
  | some false => availability
  | some true =>
      { availability with
        retired := availability.retired.set piece false
        buckets := bucketInsert availability.buckets (availability.count piece) (asU32 piece) }

/-- The calls that change an availability. -/
inductive Call where
  | addHave (piece : Nat)
  | removeHave (piece : Nat)
  | addBitfield (bitfield : List UInt8)
  | removeBitfield (bitfield : List UInt8)
  | retire (piece : Nat)
  | reinstate (piece : Nat)

def apply : Call → Availability
  | .addHave piece => availability.addHave piece
  | .removeHave piece => availability.removeHave piece
  | .addBitfield bitfield => availability.addBitfield bitfield
  | .removeBitfield bitfield => availability.removeBitfield bitfield
  | .retire piece => availability.retire piece
  | .reinstate piece => availability.reinstate piece

/-- A fresh availability after a history of calls. -/
def run (pieceCount : Nat) (calls : List Call) : Availability := calls.foldl apply (new pieceCount)

variable {availability : Availability} {piece : Nat}

/-- A property that one change keeps is kept by a whole bitfield of changes. -/
theorem overBitfield_preserves {change : Availability → Nat → Availability}
    {property : Availability → Prop}
    (preserved : ∀ availability piece, property availability → property (change availability piece))
    (bitfield : List UInt8) (holds : property availability) :
    property (overBitfield change availability bitfield) := by
  refine List.foldlRecOn _ _ holds ?_
  rintro availability holds ⟨byte, byteIdx⟩ _
  refine List.foldlRecOn _ _ holds ?_
  intro availability holds bit _
  split
  · exact preserved _ _ holds
  · exact holds

/-! ## What changes the retired flags -/

theorem set_of_getElem? {flags : List Bool} {flag : Bool} (found : flags[piece]? = some flag) :
    flags.set piece flag = flags := by
  obtain ⟨inside, rfl⟩ := List.getElem?_eq_some_iff.mp found
  exact set_getElem_self inside

variable (availability piece) (change : Nat → Nat)

theorem recount_retired : (recount change availability piece).retired = availability.retired := by
  unfold recount
  split
  · rfl
  · dsimp only
    split <;> rfl

theorem overBitfield_recount_retired (bitfield : List UInt8) :
    (overBitfield (recount change) availability bitfield).retired = availability.retired := by
  have kept : ∀ other piece, other.retired = availability.retired →
      (recount change other piece).retired = availability.retired := by
    intro other piece same
    rw [recount_retired, same]
  exact overBitfield_preserves kept bitfield rfl

theorem retire_retired :
    (availability.retire piece).retired = availability.retired.set piece true := by
  unfold retire
  split
  next outside => rw [set_eq_of_length_le (getElem?_eq_none_iff.mp outside)]
  next found => rw [set_of_getElem? found]
  next => rfl

theorem reinstate_retired :
    (availability.reinstate piece).retired = availability.retired.set piece false := by
  unfold reinstate
  split
  next outside => rw [set_eq_of_length_le (getElem?_eq_none_iff.mp outside)]
  next found => rw [set_of_getElem? found]
  next => rfl

/-! ## The buckets are exact -/

/-- Where a piece stands: its count, or nowhere once it is retired. -/
def level (piece : Nat) : Nat :=
  if availability.isRetired piece then 0 else availability.count piece

/-- What every history keeps: one flag for each count, and exact buckets. -/
structure Exact : Prop where
  flags : availability.retired.length = availability.counts.length
  placed : Placed availability.buckets availability.level

theorem recount_counts :
    (recount change availability piece).counts = availability.counts.modify piece change := by
  rw [modify_eq_set_getElem?, recount]
  split
  next outside => rw [outside]; rfl
  next old found =>
    rw [found]
    dsimp only
    split <;> rfl

theorem recount_length :
    (recount change availability piece).counts.length = availability.counts.length := by
  rw [recount_counts, length_modify]

/-- A change of one count. -/
theorem recount_count (other : Nat) (inside : piece < availability.counts.length) :
    (recount change availability piece).count other =
      if piece = other then change (availability.count other) else availability.count other := by
  rw [count, recount_counts, getElem?_modify, count]
  split
  next same =>
    subst same
    rw [getElem?_eq_getElem inside]
    rfl
  next => rw [id_map']

/-- What a change of one piece does: sizes stay, the other pieces stay where they are, and
the piece is moved from its old bucket to its new one, or keeps its place. -/
structure Moves (piece : Nat) (before after : Availability) : Prop where
  counts : after.counts.length = before.counts.length
  retired : after.retired.length = before.retired.length
  others : ∀ other, other ≠ piece → after.level other = before.level other
  buckets : after.buckets = before.buckets ∧ after.level piece = before.level piece ∨
    piece < before.counts.length ∧
      after.buckets = bucketInsert (bucketRemove before.buckets (before.level piece) (asU32 piece))
        (after.level piece) (asU32 piece)

theorem Moves.refl : Moves piece availability availability :=
  ⟨rfl, rfl, fun _ _ => rfl, .inl ⟨rfl, rfl⟩⟩

theorem recount_moves : Moves piece availability (recount change availability piece) := by
  unfold recount
  split
  · exact .refl ..
  next old found =>
    obtain ⟨inside, _⟩ := List.getElem?_eq_some_iff.mp found
    have counted : availability.count piece = old := by rw [count, found, Option.getD_some]
    have level : ∀ buckets other,
        level { availability with counts := availability.counts.set piece (change old), buckets } other
          = if availability.isRetired other then 0
            else if piece = other then change old else availability.count other := by
      intro buckets other
      simp only [Availability.level, isRetired, count]
      rw [getD_set inside]
      rfl
    dsimp only
    split
    next moving =>
      refine ⟨length_set, rfl, ?_, .inr ⟨inside, ?_⟩⟩
      · intro other different
        rw [level, if_neg (Ne.symm different), Availability.level]
      · rw [level, Availability.level, moving.2, if_neg Bool.false_ne_true, if_pos rfl, counted]
        rfl
    next staying =>
      refine ⟨length_set, rfl, ?_, .inl ⟨rfl, ?_⟩⟩
      · intro other different
        rw [level, if_neg (Ne.symm different), Availability.level]
      · rw [level, Availability.level, if_pos rfl, counted]
        by_cases hidden : availability.isRetired piece = true
        · rw [if_pos hidden, if_pos hidden]
        · have unchanged : change old = old := by
            by_contra changed
            exact staying ⟨changed, Bool.not_eq_true _ ▸ hidden⟩
          rw [unchanged]

section

variable (flags : availability.retired.length = availability.counts.length)

include flags

/-- Setting or clearing the mark of a piece moves it between its count and the front. -/
theorem setRetired_moves {flag : Bool} {buckets : List (Finset Nat)}
    (found : availability.retired[piece]? = some (!flag))
    (moved : buckets = bucketInsert (bucketRemove availability.buckets (availability.level piece)
      (asU32 piece)) (if flag then 0 else availability.count piece) (asU32 piece)) :
    Moves piece availability
      { availability with retired := availability.retired.set piece flag, buckets } := by
  obtain ⟨inside, _⟩ := List.getElem?_eq_some_iff.mp found
  have levels : ∀ other,
      level { availability with retired := availability.retired.set piece flag, buckets } other =
        if (if piece = other then flag else availability.isRetired other) then 0
        else availability.count other := by
    intro other
    rw [level, isRetired, getD_set inside]
    rfl
  refine ⟨rfl, length_set, ?_, .inr ⟨flags ▸ inside, ?_⟩⟩
  · intro other different
    rw [levels, if_neg (Ne.symm different), level]
  · rw [levels, if_pos rfl]
    exact moved

theorem retire_moves : Moves piece availability (availability.retire piece) := by
  unfold retire
  split
  · exact .refl ..
  · exact .refl ..
  next found =>
    apply setRetired_moves _ _ flags found
    rw [level, isRetired, found]
    rfl

theorem reinstate_moves : Moves piece availability (availability.reinstate piece) := by
  unfold reinstate
  split
  · exact .refl ..
  · exact .refl ..
  next found =>
    apply setRetired_moves _ _ flags found
    rw [level, isRetired, found]
    rfl

end

variable {availability piece}

theorem Moves.exact {before after : Availability} (moves : Moves piece before after)
    (fits : before.counts.length ≤ 2 ^ 32) (exact : Exact before) : Exact after := by
  refine ⟨by rw [moves.retired, moves.counts, exact.flags], ?_⟩
  rcases moves.buckets with ⟨same, stays⟩ | ⟨inside, moved⟩
  · have level : after.level = before.level := by
      funext other
      by_cases this : other = piece
      · rw [this, stays]
      · exact moves.others other this
    rw [same, level]
    exact exact.placed
  · have number : asU32 piece = piece := Nat.mod_eq_of_lt (Nat.lt_of_lt_of_le inside fits)
    rw [moved, number]
    exact exact.placed.move piece moves.others

/-- What a history of calls keeps on `size` pieces. -/
structure Sound (size : Nat) (availability : Availability) : Prop where
  size : availability.counts.length = size
  exact : Exact availability

variable {size : Nat}

theorem Moves.sound {before after : Availability} (fits : size ≤ 2 ^ 32)
    (moves : Moves piece before after) (sound : Sound size before) : Sound size after :=
  ⟨moves.counts.trans sound.size, moves.exact (sound.size ▸ fits) sound.exact⟩

theorem apply_sound (fits : size ≤ 2 ^ 32)
    (sound : Sound size availability) (call : Call) : Sound size (availability.apply call) := by
  have recounts : ∀ change availability piece, Sound size availability →
      Sound size (recount change availability piece) := fun change availability piece sound =>
    (recount_moves availability piece change).sound fits sound
  cases call with
  | addHave piece | removeHave piece => exact recounts _ _ piece sound
  | addBitfield bitfield | removeBitfield bitfield =>
    exact overBitfield_preserves (recounts _) bitfield sound
  | retire piece => exact (retire_moves availability piece sound.exact.flags).sound fits sound
  | reinstate piece => exact (reinstate_moves availability piece sound.exact.flags).sound fits sound

theorem new_sound (size : Nat) : Sound size (new size) := by
  refine ⟨length_replicate, ⟨?_, ?_⟩⟩
  · simp only [new, length_replicate]
  · intro piece place
    have uncounted : (new size).count piece = 0 := by
      rw [count, new, getElem?_replicate]
      split <;> rfl
    rw [level, uncounted, ite_self]
    refine iff_of_false (Finset.notMem_empty piece) ?_
    rintro ⟨rfl, positive⟩
    exact absurd positive (Nat.lt_irrefl 0)

theorem run_sound (fits : size ≤ 2 ^ 32) (calls : List Call) :
    Sound size (run size calls) :=
  List.foldlRecOn calls _ (new_sound size) fun _ sound call _ => apply_sound fits sound call

theorem level_pos :
    0 < availability.level piece ↔ availability.isRetired piece = false ∧ 0 < availability.count piece := by
  unfold level
  cases availability.isRetired piece with
  | true => simp
  | false => simp

/-- A piece in the buckets stands at its count. -/
theorem count_eq_level (piece : Nat)
    (shown : 0 < availability.level piece) : availability.count piece = availability.level piece := by
  rw [level, (level_pos.mp shown).1]
  rfl

/-- The pieces with a positive count are among the existing ones. -/
theorem lt_of_count_pos
    (counted : 0 < availability.count piece) : piece < availability.counts.length := by
  by_contra outside
  rw [count, getElem?_eq_none (Nat.le_of_not_lt outside)] at counted
  exact absurd counted (Nat.lt_irrefl 0)

/-- The first peer that has a piece puts its 32-bit number on the first level. -/
theorem addHave_new (inside : piece < size) : (new size).addHave piece =
      { new size with
        counts := (new size).counts.set piece 1
        buckets := bucketInsert [] 1 (asU32 piece) } := by
  have stored : (new size).counts[piece]? = some 0 := by
    rw [new, getElem?_replicate, if_pos inside]
  have shown : (new size).isRetired piece = false := by
    rw [isRetired, new, getElem?_replicate]
    split <;> rfl
  rw [addHave, recount, stored]
  dsimp only
  rw [if_pos ⟨by decide, shown⟩]
  rfl

/-- A number that wraps around credits the peer to another piece. -/
theorem addHave_wraps (inside : piece < size) (wraps : asU32 piece ≠ piece) :
    asU32 piece ∈ bucket ((new size).addHave piece).buckets 1 ∧
      ((new size).addHave piece).count (asU32 piece) = 0 := by
  have length : (new size).counts.length = size := length_replicate
  have other := getD_set (length.symm ▸ inside) 1 0 (asU32 piece)
  rw [if_neg (Ne.symm wraps), new, getElem?_replicate] at other
  rw [addHave_new inside]
  refine ⟨?_, ?_⟩
  · exact (mem_bucketInsert _).mpr (.inl ⟨rfl, rfl, Nat.one_pos⟩)
  · refine other.trans ?_
    split <;> rfl

/-- With more than `2 ^ 32` pieces the buckets are not exact: the peer that has the first
piece beyond is credited to piece zero. -/
theorem not_exact_beyond_u32 :
    ¬∀ size calls piece place,
      piece ∈ bucket (run size calls).buckets place ↔
        (run size calls).isRetired piece = false ∧ place = (run size calls).count piece ∧ 0 < place := by
  intro exact
  have refuted : ∀ size piece, piece < size → asU32 piece ≠ piece → False := by
    intro size piece inside wraps
    obtain ⟨listed, uncounted⟩ := addHave_wraps inside wraps
    obtain ⟨_, counted, _⟩ := (exact size [.addHave piece] (asU32 piece) 1).mp listed
    exact absurd (counted.trans uncounted) Nat.one_ne_zero
  exact refuted (2 ^ 32 + 1) (2 ^ 32) (by decide) (by decide)

/-- For up to `2 ^ 32` pieces and any history of calls: the buckets are exact, so the bucket
walk chooses what a linear scan for the least count and number would, and lists the wanted
pieces in that order. -/
theorem rarest_first_exact (size : Nat) (fits : size ≤ 2 ^ 32) (calls : List Call) :
    (∀ piece place, piece ∈ bucket (run size calls).buckets place ↔
      (run size calls).isRetired piece = false ∧ place = (run size calls).count piece ∧ 0 < place) ∧
    (∀ predicate, (run size calls).rarestMatching predicate =
      ((List.range size).filter fun piece =>
          !(run size calls).isRetired piece && decide (0 < (run size calls).count piece) &&
            predicate piece).argmin fun piece => toLex ((run size calls).count piece, piece)) ∧
    ∀ want : List Bool,
      ((run size calls).rarestFirst want).Pairwise (fun first second =>
        toLex ((run size calls).count first, first) < toLex ((run size calls).count second, second)) ∧
      ∀ piece, piece ∈ (run size calls).rarestFirst want ↔
        want[piece]?.getD false = true ∧ (run size calls).isRetired piece = false ∧
          0 < (run size calls).count piece := by
  obtain ⟨length, _, placed⟩ := run_sound fits calls
  generalize run size calls = availability at length placed
  have agrees := availability.count_eq_level
  refine ⟨?_, ?_, ?_⟩
  · intro piece place
    rw [placed piece place]
    constructor
    · rintro ⟨rfl, positive⟩
      exact ⟨(level_pos.mp positive).1, (agrees piece positive).symm, positive⟩
    · rintro ⟨shown, rfl, positive⟩
      refine ⟨?_, positive⟩
      rw [level, shown]
      rfl
  · intro predicate
    apply firstMatching_eq_argmin placed agrees
    intro piece
    rw [List.mem_filter, List.mem_range, Bool.and_eq_true, Bool.and_eq_true, level_pos]
    constructor
    · rintro ⟨_, ⟨shown, counted⟩, accepted⟩
      exact ⟨⟨by simpa using shown, of_decide_eq_true counted⟩, accepted⟩
    · rintro ⟨⟨shown, counted⟩, accepted⟩
      exact ⟨length ▸ lt_of_count_pos counted, ⟨by simpa using shown, decide_eq_true counted⟩, accepted⟩
  · intro want
    refine ⟨(walk_sorted_by placed agrees).filter _, ?_⟩
    intro piece
    rw [rarestFirst, List.mem_filter, ← walk, mem_walk placed, level_pos, and_comm]

/-- Two peers, one of which has both pieces. -/
theorem rarest_of_two :
    (run 2 [.addBitfield [0xC0], .addHave 0]).rarestMatching (fun _ => true) = some 1 :=
  ((rarest_first_exact 2 (by decide) [.addBitfield [0xC0], .addHave 0]).2.1 _).trans (by decide)

end Availability

end TorrentNG
