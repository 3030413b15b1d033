import Mathlib.Data.List.Induction

/-!
# Incremental decoding of a stream

A decoder looks at the front of a buffer and either takes an item off it, asks for more
input, or fails. A driver appends each chunk of a stream to what is left of the buffer and
decodes until the decoder asks for more or fails. When a decision, once made, does not
depend on what follows, the items and the failure depend on the stream alone and not on
how it was cut into chunks.
-/

namespace StreamDecoder

open List

universe u v w
variable {β : Type u} {ι : Type v} {ε : Type w}

/-- A decoder with its laws: a fresh buffer asks for input, asking leaves the buffer alone,
an item shortens it, and more input behind the buffer changes neither item nor failure. -/
structure Decoder (β : Type u) (ι : Type v) (ε : Type w) where
  decode : List β → Except ε (Option ι) × List β
  idle : decode [] = (.ok none, [])
  waits : ∀ buffer rest, decode buffer = (.ok none, rest) → rest = buffer
  shrinks : ∀ buffer item rest, decode buffer = (.ok (some item), rest) →
    rest.length < buffer.length
  item_stable : ∀ buffer item rest more, decode buffer = (.ok (some item), rest) →
    decode (buffer ++ more) = (.ok (some item), rest ++ more)
  failure_stable : ∀ buffer error rest more, decode buffer = (.error error, rest) →
    ∃ left, decode (buffer ++ more) = (.error error, left)

/-- How a run of the decoder ends. What a failure leaves in the buffer is never looked at. -/
inductive Ending (β : Type u) (ε : Type w) where
  | waiting (buffer : List β)
  | failed (error : ε)
deriving DecidableEq

/-- The items of a run and its end. -/
@[ext] structure Run (β : Type u) (ι : Type v) (ε : Type w) where
  items : List ι
  ending : Ending β ε
deriving DecidableEq

/-- Decode until more input is needed or an item cannot be decoded. -/
def drain (decoder : Decoder β ι ε) (buffer : List β) : Run β ι ε :=
  match step : decoder.decode buffer with
  | (.error error, _) => ⟨[], .failed error⟩
  | (.ok none, rest) => ⟨[], .waiting rest⟩
  | (.ok (some item), rest) =>
      have := decoder.shrinks buffer item rest step
      let run := drain decoder rest
      ⟨item :: run.items, run.ending⟩
termination_by buffer.length

/-- Append a chunk to the buffer and decode what it completes; a failure ends the stream. -/
def feed (decoder : Decoder β ι ε) (run : Run β ι ε) (chunk : List β) : Run β ι ε :=
  match run.ending with
  | .failed _ => run
  | .waiting buffer =>
      let next := drain decoder (buffer ++ chunk)
      ⟨run.items ++ next.items, next.ending⟩

/-- A whole stream, chunk by chunk, from an empty buffer. -/
def feedAll (decoder : Decoder β ι ε) (chunks : List (List β)) : Run β ι ε :=
  chunks.foldl (feed decoder) ⟨[], .waiting []⟩

variable (decoder : Decoder β ι ε)

theorem drain_eq (buffer : List β) :
    drain decoder buffer =
      match decoder.decode buffer with
      | (.error error, _) => ⟨[], .failed error⟩
      | (.ok none, rest) => ⟨[], .waiting rest⟩
      | (.ok (some item), rest) =>
          ⟨item :: (drain decoder rest).items, (drain decoder rest).ending⟩ := by
  rw [drain]
  split
  next step => rw [step]
  next step => rw [step]
  next step =>
    dsimp only
    rw [step]

variable {buffer rest : List β}

theorem drain_item {item : ι} (step : decoder.decode buffer = (.ok (some item), rest)) :
    drain decoder buffer = ⟨item :: (drain decoder rest).items, (drain decoder rest).ending⟩ := by
  rw [drain_eq, step]

theorem drain_failure {error : ε} (step : decoder.decode buffer = (.error error, rest)) :
    drain decoder buffer = ⟨[], .failed error⟩ := by
  rw [drain_eq, step]

theorem drain_waiting (step : decoder.decode buffer = (.ok none, rest)) :
    drain decoder buffer = ⟨[], .waiting buffer⟩ := by
  obtain rfl := decoder.waits buffer rest step
  rw [drain_eq, step]

/-- Draining a longer buffer continues where draining the shorter one stopped. -/
theorem drain_append (buffer more : List β) :
    drain decoder (buffer ++ more) = feed decoder (drain decoder buffer) more := by
  match step : decoder.decode buffer with
  | (.error error, rest) =>
    obtain ⟨left, failing⟩ := decoder.failure_stable buffer error rest more step
    rw [drain_failure decoder step, drain_failure decoder failing, feed]
  | (.ok none, rest) =>
    rw [drain_waiting decoder step, feed]
    rfl
  | (.ok (some item), rest) =>
    have shorter := decoder.shrinks buffer item rest step
    have longer := decoder.item_stable buffer item rest more step
    rw [drain_item decoder step, drain_item decoder longer, drain_append rest more]
    cases ending : (drain decoder rest).ending with
    | failed error => simp only [feed, ending]
    | waiting left => simp only [feed, ending, cons_append]
termination_by buffer.length

/-- Before the end of a stream of whole items, its first items are read and nothing fails. -/
theorem drain_prefix {more left : List β} {items : List ι}
    (whole : drain decoder (buffer ++ more) = ⟨items, .waiting left⟩) :
    (drain decoder buffer).items <+: items ∧
      ∃ rest, (drain decoder buffer).ending = .waiting rest := by
  rw [drain_append, feed] at whole
  split at whole
  next failed =>
    rw [whole] at failed
    cases failed
  next rest waits => exact ⟨⟨_, congrArg Run.items whole⟩, rest, waits⟩

/-- The run over a stream is the run over its concatenation. -/
theorem feedAll_eq_drain (chunks : List (List β)) :
    feedAll decoder chunks = drain decoder chunks.flatten := by
  induction chunks using List.reverseRecOn with
  | nil => exact (drain_waiting decoder decoder.idle).symm
  | append_singleton chunks chunk ih =>
    rw [feedAll, foldl_append, foldl_cons, foldl_nil, ← feedAll,
      ih, flatten_append, flatten_singleton, drain_append]

end StreamDecoder
