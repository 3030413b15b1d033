import Mathlib.Data.List.Basic

/-!
# Reading along a sequence

A scanner moves a position through its input. `Reads input start text stop` says
that the elements between the two positions are `text` and that both positions are
inside the input. What a scanner consumes in several steps is the concatenation of
what it consumes in each, and a grammar rule is taken apart the same way.
-/

namespace Reading

open List

universe u
variable {α : Type u}

/-- `&input[start..stop]`, where that range is inside the input. -/
def slice (input : List α) (start stop : Nat) : List α := (input.drop start).take (stop - start)

/-- The range is inside the input and holds the text. -/
def Reads (input : List α) (start : Nat) (text : List α) (stop : Nat) : Prop :=
  start ≤ stop ∧ stop ≤ input.length ∧ slice input start stop = text

variable {input : List α} {start : Nat} {stop : Nat}

/-- The text stands between what precedes and what follows it. -/
theorem reads_iff_append {text : List α} : Reads input start text stop ↔
      ∃ before after, input = before ++ (text ++ after) ∧ before.length = start ∧
        start + text.length = stop := by
  constructor
  · rintro ⟨ordered, inside, rfl⟩
    refine ⟨input.take start, input.drop stop, ?_, ?_, ?_⟩
    · have rejoined := take_append_drop (stop - start) (input.drop start)
      rw [drop_drop, Nat.add_sub_cancel' ordered] at rejoined
      rw [slice, rejoined, take_append_drop]
    · rw [length_take]
      omega
    · rw [slice, length_take, length_drop]
      omega
  · rintro ⟨before, after, rfl, rfl, rfl⟩
    refine ⟨by omega, by simp, ?_⟩
    simp [slice]

/-- Consecutive texts are read one after the other. -/
theorem reads_append {front back : List α} :
    Reads input start (front ++ back) stop ↔
      ∃ middle, Reads input start front middle ∧ Reads input middle back stop := by
  simp only [reads_iff_append]
  constructor
  · rintro ⟨before, after, rfl, rfl, rfl⟩
    refine ⟨before.length + front.length, ⟨before, back ++ after, by simp, rfl, rfl⟩,
      ⟨before ++ front, after, by simp, by simp, ?_⟩⟩
    rw [length_append, Nat.add_assoc]
  · rintro ⟨middle, ⟨before, following, whole, rfl, rfl⟩, ⟨preceding, after, rfl, lengths, rfl⟩⟩
    have same : preceding ++ (back ++ after) = (before ++ front) ++ following := by
      rw [whole, append_assoc]
    obtain ⟨rfl, rfl⟩ := append_inj same (by rw [lengths, length_append])
    exact ⟨before, after, by simp, rfl, by rw [length_append, Nat.add_assoc]⟩

theorem reads_nil :
    Reads input start [] stop ↔ start = stop ∧ stop ≤ input.length := by
  constructor
  · rintro ⟨ordered, inside, empty⟩
    have lengths := congrArg List.length empty
    rw [slice, length_take, length_drop, length_nil] at lengths
    omega
  · rintro ⟨rfl, inside⟩
    exact ⟨Nat.le_refl _, inside, by simp [slice]⟩

variable {element : α}

/-- One element is read by looking it up. -/
theorem reads_singleton :
    Reads input start [element] stop ↔ input[start]? = some element ∧ start + 1 = stop := by
  rw [reads_iff_append]
  constructor
  · rintro ⟨before, after, rfl, rfl, rfl⟩
    simp
  · rintro ⟨found, rfl⟩
    obtain ⟨inside, rfl⟩ := List.getElem?_eq_some_iff.mp found
    refine ⟨input.take start, input.drop (start + 1), ?_, ?_, rfl⟩
    · rw [singleton_append, ← drop_eq_getElem_cons inside, take_append_drop]
    · rw [length_take]
      omega

/-- The first element of a text and the rest of it. -/
theorem reads_cons {text : List α} :
    Reads input start (element :: text) stop ↔
      input[start]? = some element ∧ Reads input (start + 1) text stop := by
  rw [← singleton_append, reads_append]
  simp only [reads_singleton]
  constructor
  · rintro ⟨_, ⟨found, rfl⟩, rest⟩
    exact ⟨found, rest⟩
  · rintro ⟨found, rest⟩
    exact ⟨start + 1, ⟨found, rfl⟩, rest⟩

variable {input text : List α} {start stop : Nat}

/-- A text with a first element has it at the start and moves on. -/
theorem Reads.head (read : Reads input start (element :: text) stop) :
    input[start]? = some element ∧ start < stop := by
  obtain ⟨found, rest⟩ := reads_cons.mp read
  exact ⟨found, rest.1⟩

/-- Reading everything from the first position reads the input itself. -/
theorem reads_whole (text : List α) : Reads input 0 text input.length ↔ text = input := by
  simp [Reads, slice, eq_comm]

theorem Reads.stop_eq (read : Reads input start text stop) : stop = start + text.length := by
  obtain ⟨_, _, _, _, stops⟩ := reads_iff_append.mp read
  exact stops.symm

theorem Reads.inside (read : Reads input start text stop) : stop ≤ input.length := read.2.1

/-- A search skips what comes before the first match. -/
theorem findIdx?_skip {stops : α → Bool} {front : List α} (rest : List α)
    (skipped : ∀ other ∈ front, stops other = false) (found : stops element = true) :
    (front ++ element :: rest).findIdx? stops = some front.length := by
  rw [findIdx?_append, findIdx?_eq_none_iff.mpr skipped, findIdx?_cons, if_pos found]
  exact congrArg some (Nat.zero_add _)

end Reading
