import Mathlib.Data.List.Dedup
import Mathlib.Data.List.Induction

/-!
# Histories of writes and barriers

Items are written one after another. A barrier makes every earlier write durable, or
fails. Between barriers someone remembers what was written since the last one, and
starts afresh when a barrier is over. A barrier may also be passed over: nothing
became durable, and yet the memory starts afresh.

An item is covered when some barrier came after it. What was written and is neither
covered nor remembered is forgotten, and the definition says how that comes about:
the item was written, a barrier was passed over, and since then the item was not
written again and no barrier succeeded. Histories grow at their end, so each notion
has one rule for a history with one more event.
-/

namespace BarrierHistory

open List

universe u
variable {α : Type u}

inductive Event (α : Type u) where
  | write (item : α)
  /-- Every earlier write is durable. -/
  | sync
  /-- Nothing became durable; the memory starts afresh all the same. -/
  | forget
  /-- Nothing became durable. -/
  | fail
deriving DecidableEq

variable (history : List (Event α))

/-- The item was written before a successful barrier. -/
def Covered (item : α) : Prop :=
  ∃ before after, history = before ++ .sync :: after ∧ .write item ∈ before

/-- What is remembered after one more event. -/
def track (items : List α) : Event α → List α
  | .write item => items ++ [item]
  | .sync => []
  | .forget => []
  | .fail => items

/-- The items written since the memory last started afresh. -/
def tracked : List α := history.foldl track []

/-- The item was written and not covered when a barrier was passed over, and neither
written again nor covered since. -/
def Forgotten (item : α) : Prop :=
  ∃ before after, history = before ++ .forget :: after ∧ .write item ∈ before ∧
    ¬Covered before item ∧ .sync ∉ after ∧ .write item ∉ after

/-- An event of a longer history is its last event or one of the shorter history. -/
theorem split_append_singleton (before after : List (Event α)) (last event : Event α) :
    history ++ [last] = before ++ event :: after ↔ (history = before ∧ last = event ∧ after = []) ∨
        ∃ rest, history = before ++ event :: rest ∧ after = rest ++ [last] := by
  constructor
  · intro same
    induction after using List.reverseRecOn with
    | nil =>
      obtain ⟨front, back⟩ := append_inj' same rfl
      exact Or.inl ⟨front, head_eq_of_cons_eq back, rfl⟩
    | append_singleton rest final _ =>
      rw [← cons_append, ← append_assoc] at same
      obtain ⟨front, back⟩ := append_inj' same rfl
      exact Or.inr ⟨rest, front, by rw [back]⟩
  · rintro (⟨rfl, rfl, rfl⟩ | ⟨rest, rfl, rfl⟩)
    · rfl
    · simp

variable (history : List (Event α)) (event : Event α)

theorem covered_append (item : α) : Covered (history ++ [event]) item ↔
      Covered history item ∨ event = .sync ∧ .write item ∈ history := by
  simp only [Covered, split_append_singleton]
  constructor
  · rintro ⟨before, after, ⟨rfl, same, rfl⟩ | ⟨rest, split, rfl⟩, written⟩
    · exact Or.inr ⟨same, written⟩
    · exact Or.inl ⟨before, rest, split, written⟩
  · rintro (⟨before, rest, split, written⟩ | ⟨same, written⟩)
    · exact ⟨before, rest ++ [event], Or.inr ⟨rest, split, rfl⟩, written⟩
    · exact ⟨history, [], Or.inl ⟨rfl, same, rfl⟩, written⟩

theorem tracked_append :
    tracked (history ++ [event]) = track (tracked history) event := by
  rw [tracked, foldl_append]
  rfl

theorem forgotten_append (item : α) : Forgotten (history ++ [event]) item ↔
      (event = .forget ∧ .write item ∈ history ∧ ¬Covered history item) ∨
        Forgotten history item ∧ event ≠ .sync ∧ event ≠ .write item := by
  simp only [Forgotten, split_append_singleton]
  constructor
  · rintro ⟨before, after, ⟨rfl, same, rfl⟩ | ⟨rest, split, rfl⟩, written, uncovered, still, since⟩
    · exact Or.inl ⟨same, written, uncovered⟩
    · simp only [mem_append, mem_singleton, not_or] at still since
      exact Or.inr ⟨⟨before, rest, split, written, uncovered, still.1, since.1⟩,
        fun same => still.2 same.symm, fun same => since.2 same.symm⟩
  · rintro (⟨same, written, uncovered⟩ |
      ⟨⟨before, rest, split, written, uncovered, still, since⟩, unsynced, unwritten⟩)
    · exact ⟨history, [], Or.inl ⟨rfl, same, rfl⟩, written, uncovered, by simp, by simp⟩
    · refine ⟨before, rest ++ [event], Or.inr ⟨rest, split, rfl⟩, written, uncovered, ?_, ?_⟩
      · simp only [mem_append, mem_singleton, not_or]
        exact ⟨still, fun same => unsynced same.symm⟩
      · simp only [mem_append, mem_singleton, not_or]
        exact ⟨since, fun same => unwritten same.symm⟩

theorem written_of_tracked {item : α} (member : item ∈ tracked history) :
    .write item ∈ history := by
  induction history using List.reverseRecOn with
  | nil => cases member
  | append_singleton history event ih =>
    rw [tracked_append] at member
    rw [mem_append, mem_singleton]
    cases event with
    | write other =>
      rcases mem_append.mp member with earlier | last
      · exact Or.inl (ih earlier)
      · exact Or.inr (by rw [mem_singleton.mp last])
    | sync => cases member
    | forget => cases member
    | fail => exact Or.inl (ih member)

/-- What was written is covered, remembered or forgotten, and what is forgotten is
neither of the others. -/
theorem forgotten_iff {item : α} : Forgotten history item ↔
      .write item ∈ history ∧ ¬Covered history item ∧ item ∉ tracked history := by
  induction history using List.reverseRecOn with
  | nil =>
    simp only [not_mem_nil, false_and, iff_false]
    rintro ⟨before, after, empty, _⟩
    simp at empty
  | append_singleton history event ih =>
    rw [forgotten_append, covered_append, tracked_append, ih, mem_append, mem_singleton]
    cases event with
    | write other =>
      by_cases same : item = other
      · simp [track, same]
      · simp [track, same, Ne.symm same]
    | sync =>
      tauto
    | forget =>
      tauto
    | fail => simp [track]

end BarrierHistory
