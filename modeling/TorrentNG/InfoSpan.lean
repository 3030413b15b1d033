import TorrentNG.BencodeCanonical

/-!
# The span of the `info` value

`decode_torrent_info_span` decodes a torrent and finds the bytes of its `info` value
with a second scanner that shares no code with the decoder: `find_info_span` walks
the top-level dictionary and `skip_value` skips the values. The scanner checks
little, so on arbitrary bytes it may run past the input; a range or a sum the source
cannot form is a fault here. On an accepted input no fault is reachable and the two
parsers agree.
-/

namespace TorrentNG.Bencode

open Decimal Decoder Fallible MachineArithmetic Reading List

/-- Why the scanner returns no position: it returns `None`, or it evaluates a range
outside its slice or a sum outside `usize`. -/
inductive Quit where
  | absent
  | fault
deriving Repr, DecidableEq

def memchr (needle : UInt8) (haystack : Bytes) : Option Nat :=
  haystack.findIdx? (· == needle)

variable (input : Bytes)

/-- The length prefix both loops read: the offset of the colon and the number. -/
def lengthPrefix (pos : Nat) : Except Quit (Nat × Nat) := do
  let colon ← okOr (memchr 58 (input.drop pos)) .absent
  let token := slice input pos (pos + colon)
  if Utf8.decode token = none then .error .absent
  else
    let length ← (parseUnsigned token).mapError fun _ => .absent
    .ok (colon, length)

mutual

def skipValue (input : Bytes) : Nat → Nat → Except (Stop Quit) Nat
  | 0, _ => .error .exhausted
  | fuel + 1, pos => do
      let byte ← lift (okOr input[pos]? .absent)
      if byte = 105 then
        .ok (pos + 1 + ((input.drop (pos + 1)).takeWhile (· ≠ 101)).length + 1)
      else if byte = 108 then skipItems input fuel (pos + 1)
      else if byte = 100 then skipPairs input fuel (pos + 1)
      else if isDigit byte then
        let (colon, length) ← lift (lengthPrefix input pos)
        lift (okOr (checkedAdd (pos + colon + 1) length) .fault)
      else .error (.failed .absent)

/-- The loop over list items, and the step past the closing marker. -/
def skipItems (input : Bytes) : Nat → Nat → Except (Stop Quit) Nat
  | 0, _ => .error .exhausted
  | fuel + 1, pos =>
      if pos < input.length ∧ input[pos]? ≠ some 101 then do
        let next ← skipValue input fuel pos
        skipItems input fuel next
      else .ok (pos + 1)

/-- The loop over keys and values, and the step past the closing marker. -/
def skipPairs (input : Bytes) : Nat → Nat → Except (Stop Quit) Nat
  | 0, _ => .error .exhausted
  | fuel + 1, pos =>
      if pos < input.length ∧ input[pos]? ≠ some 101 then do
        let valueStart ← skipValue input fuel pos
        let next ← skipValue input fuel valueStart
        skipPairs input fuel next
      else .ok (pos + 1)

end

/-- `b"info"`. -/
def infoKey : Bytes := [105, 110, 102, 111]

/-- The loop of `find_info_span` over the pairs of the top-level dictionary. -/
def findInfoPair (input : Bytes) : Nat → Nat → Except (Stop Quit) (Nat × Nat)
  | 0, _ => .error .exhausted
  | fuel + 1, pos =>
      if pos < input.length ∧ input[pos]? ≠ some 101 then do
        let (colon, keyLength) ← lift (lengthPrefix input pos)
        let valueStart ← lift (okOr (checkedAdd (pos + colon + 1) keyLength) .fault)
        if valueStart > input.length then .error (.failed .fault)
        else
          let key := slice input (pos + colon + 1) valueStart
          let next ← skipValue input fuel valueStart
          if key = infoKey then .ok (valueStart, next)
          else findInfoPair input fuel next
      else .error (.failed .absent)

/-- Every skip moves forward. Two steps for each byte that is left are enough. -/
theorem skip_settles (fuel : Nat) :
    (∀ pos, Settles (2 * (input.length - pos) + 2 ≤ fuel) (pos < ·) (skipValue input fuel pos)) ∧
    (∀ pos, Settles (2 * (input.length - pos) + 3 ≤ fuel) (pos < ·) (skipItems input fuel pos)) ∧
    (∀ pos, Settles (2 * (input.length - pos) + 3 ≤ fuel) (pos < ·) (skipPairs input fuel pos)) := by
  induction fuel with
  | zero =>
    exact ⟨fun _ => Nat.not_succ_le_zero _, fun _ => Nat.not_succ_le_zero _,
      fun _ => Nat.not_succ_le_zero _⟩
  | succ fuel ih =>
    obtain ⟨values, items, pairs⟩ := ih
    refine ⟨?_, ?_, ?_⟩
    · intro pos
      apply settles_lift_bind
      intro byte found
      have inside := (List.getElem?_eq_some_iff.mp (okOr_eq_ok.mp found)).1
      split_ifs
      · simp only [Settles]
        omega
      · exact (items _).mono (by omega) (by omega)
      · exact (pairs _).mono (by omega) (by omega)
      · apply settles_lift_bind
        rintro ⟨colon, length⟩ _
        apply settles_lift
        intro next added
        have stops := checkedAdd_eq_some.mp (okOr_eq_ok.mp added)
        omega
      · trivial
    · intro pos
      rw [skipItems]
      split_ifs with more
      · refine (values pos).bind (by omega) ?_
        intro next _ advanced
        exact (items next).mono (by omega) (by omega)
      · exact Nat.lt_succ_self pos
    · intro pos
      rw [skipPairs]
      split_ifs with more
      · refine (values pos).bind (by omega) ?_
        intro valueStart _ keyAdvanced
        refine (values valueStart).bind (by omega) ?_
        intro next _ advanced
        exact (pairs next).mono (by omega) (by omega)
      · exact Nat.lt_succ_self pos

theorem findInfoPair_enough {input : Bytes} {fuel pos : Nat}
    (enough : 2 * (input.length - pos) + 3 ≤ fuel) :
    findInfoPair input fuel pos ≠ .error .exhausted := by
  suffices settles : ∀ pos, Settles (2 * (input.length - pos) + 3 ≤ fuel) (fun _ => True)
      (findInfoPair input fuel pos) from (settles pos).ne_exhausted enough
  clear pos enough
  induction fuel with
  | zero => exact fun _ => Nat.not_succ_le_zero _
  | succ fuel ih =>
    intro pos
    rw [findInfoPair]
    split_ifs with more
    · apply settles_lift_bind
      rintro ⟨colon, keyLength⟩ _
      apply settles_lift_bind
      intro valueStart added
      have keyEnds := checkedAdd_eq_some.mp (okOr_eq_ok.mp added)
      split_ifs
      · trivial
      · refine ((skip_settles input fuel).1 _).bind (by omega) ?_
        intro next _ advanced
        split_ifs
        · trivial
        · exact (ih next).mono (by omega) fun _ => id
    · trivial

/-- The range of the `info` value in the top-level dictionary. -/
def findInfoSpan : Except Quit (Nat × Nat) :=
  if input[0]? ≠ some 100 then .error .absent
  else complete (findInfoPair input (2 * input.length + 3) 1) (findInfoPair_enough (by omega))

inductive InfoSpanError where
  | bencode (error : BencodeError)
  | fault
deriving Repr, DecidableEq

section Span
variable {σ : Type}

/-- `decode_torrent_info_span_with_allocation_reservation`. -/
def decodeTorrentInfoSpanWithAllocationReservation (input : Bytes)
    (reserve : Reservation σ) (budget : σ) :
    Except InfoSpanError ((BValue × Option (Nat × Nat)) × σ) := do
  let (value, budget) ← (Decoder.decodeWithAllocationReservation { input := input } reserve
    budget).mapError .bencode
  match findInfoSpan input with
  | .ok span => .ok ((value, some span), budget)
  | .error .absent => .ok ((value, none), budget)
  | .error .fault => .error .fault

end Span

def decodeTorrentInfoSpan :
    Except InfoSpanError (BValue × Option (Nat × Nat)) :=
  (decodeTorrentInfoSpanWithAllocationReservation input (fun _ budget => (true, budget)) ()).map
    Prod.fst

theorem lift_ok {α : Type} (value : α) : (lift (.ok value) : Except (Stop Quit) α) = .ok value := rfl

/-- Up to the closing marker of an integer there is no other `e`. -/
theorem takeWhile_integer (number : Int64) (after : Bytes) :
    (signedDigits number ++ 101 :: after).takeWhile (· ≠ 101) = signedDigits number := by
  rw [takeWhile_append_of_pos]
  · simp
  · intro byte member
    rw [decide_eq_true_eq]
    exact ne_of_mem_of_not_mem member (end_not_mem_signedDigits number)

variable {input content : Bytes} {pos stop : Nat} (size : input.length < 2 ^ 64)

include size

/-- The prefix of an encoded string is read as its length. -/
theorem lengthPrefix_string (read : Reads input pos (encodeString content) stop) :
    lengthPrefix input pos = .ok ((digits content.length).length, content.length) := by
  have inside := read.inside
  have allDigits := isDigit_of_mem_digits content.length
  obtain ⟨⟨after, suffix⟩, token, _, _, stops⟩ := reads_string read
  have noColon : ∀ byte ∈ digits content.length, (byte == 58) = false := by
    intro byte member
    rw [beq_eq_false_iff_ne]
    rintro rfl
    exact absurd (allDigits 58 member) (by decide)
  have found : memchr 58 (input.drop pos) = some (digits content.length).length := by
    rw [suffix]
    exact findIdx?_skip _ noColon rfl
  have ascii := decode_digits_ne_none allDigits
  rw [lengthPrefix, found, bind_eq_ok]
  refine ⟨_, rfl, ?_⟩
  rw [token, if_neg ascii, parseUnsigned_digits (by omega)]
  rfl

theorem skipValue_string (fuel : Nat) (read : Reads input pos (encodeString content) stop) :
    skipValue input (fuel + 1) pos = .ok stop := by
  obtain ⟨first, rest, shape, digit⟩ := encodeString_head content
  have found : input[pos]? = some first := by
    rw [shape] at read
    exact read.head.1
  have marker := ne_of_isDigit digit
  rw [skipValue, bind_eq_ok]
  refine ⟨first, lift_eq_ok.mpr (okOr_eq_ok.mpr found), ?_⟩
  rw [if_neg (marker 105 rfl), if_neg (marker 108 rfl), if_neg (marker 100 rfl), if_pos digit,
    lengthPrefix_string size read, bind_eq_ok]
  refine ⟨_, rfl, ?_⟩
  rw [lift_eq_ok, okOr_eq_ok]
  exact string_end (read.inside.trans_lt size) read

mutual

/-- Where a value stands encoded, the scanner skips exactly its encoding. -/
theorem skipValue_encode {value : BValue} {fuel pos stop : Nat}
    (enough : 2 * (input.length - pos) + 2 ≤ fuel)
    (read : Reads input pos (encode value) stop) : skipValue input fuel pos = .ok stop := by
  obtain ⟨fuel, rfl⟩ : ∃ left, fuel = left + 1 := ⟨fuel - 1, by omega⟩
  cases value with
  | bytes content => exact skipValue_string size fuel read
  | int number =>
    have opened := (reads_cons.mp read).1
    obtain ⟨⟨after, suffix⟩, stops⟩ := reads_int read
    rw [skipValue, opened, bind_eq_ok]
    refine ⟨105, rfl, ?_⟩
    rw [if_pos rfl, suffix, takeWhile_integer, stops]
  | list items =>
    rw [encode, reads_cons] at read
    obtain ⟨opened, read⟩ := read
    have inside := (List.getElem?_eq_some_iff.mp opened).1
    rw [skipValue, opened, bind_eq_ok]
    refine ⟨108, rfl, ?_⟩
    exact skipItems_encode (by omega) read
  | dict pairs =>
    rw [encode, reads_cons] at read
    obtain ⟨opened, read⟩ := read
    have inside := (List.getElem?_eq_some_iff.mp opened).1
    rw [skipValue, opened, bind_eq_ok]
    refine ⟨100, rfl, ?_⟩
    exact skipPairs_encode (by omega) read

theorem skipItems_encode {items : List BValue} {fuel pos stop : Nat}
    (enough : 2 * (input.length - pos) + 3 ≤ fuel)
    (read : Reads input pos (encodeItems items ++ [101]) stop) :
    skipItems input fuel pos = .ok stop := by
  obtain ⟨fuel, rfl⟩ : ∃ left, fuel = left + 1 := ⟨fuel - 1, by omega⟩
  cases items with
  | nil =>
    obtain ⟨closed, rfl⟩ := reads_singleton.mp read
    rw [skipItems, if_neg (by simp [closed])]
  | cons item rest =>
    rw [encodeItems, List.append_assoc, reads_append] at read
    obtain ⟨middle, itemRead, restRead⟩ := read
    obtain ⟨first, found, open_, advanced⟩ := encode_starts item itemRead
    have start := (List.getElem?_eq_some_iff.mp found).1
    rw [skipItems, if_pos ⟨start, by simpa [found] using open_⟩, bind_eq_ok]
    exact ⟨middle, skipValue_encode (by omega) itemRead, skipItems_encode (by omega) restRead⟩

theorem skipPairs_encode {pairs : Pairs} {fuel pos stop : Nat}
    (enough : 2 * (input.length - pos) + 3 ≤ fuel)
    (read : Reads input pos (encodePairs pairs ++ [101]) stop) :
    skipPairs input fuel pos = .ok stop := by
  obtain ⟨fuel, rfl⟩ : ∃ left, fuel = left + 2 := ⟨fuel - 2, by omega⟩
  match pairs with
  | [] =>
    obtain ⟨closed, rfl⟩ := reads_singleton.mp read
    rw [skipPairs, if_neg (by simp [closed])]
  | (key, value) :: rest =>
    rw [encodePairs, List.append_assoc, List.append_assoc, reads_append] at read
    obtain ⟨keyEnd, keyRead, read⟩ := read
    obtain ⟨middle, valueRead, restRead⟩ := reads_append.mp read
    obtain ⟨first, found, open_, keyAdvanced⟩ := encode_starts (.bytes key) keyRead
    have start := (List.getElem?_eq_some_iff.mp found).1
    have advanced := valueRead.1
    rw [skipPairs, if_pos ⟨start, by simpa [found] using open_⟩, bind_eq_ok]
    refine ⟨keyEnd, skipValue_string size fuel keyRead, ?_⟩
    rw [bind_eq_ok]
    exact ⟨middle, skipValue_encode (by omega) valueRead, skipPairs_encode (by omega) restRead⟩

end

/-- What a scanner must answer: the span of the value there is, or that none is there. -/
def SpanOf {ε : Type} (input : Bytes) (absent : ε) (outcome : Except ε (Nat × Nat)) :
    Option BValue → Prop
  | some info => ∃ start stop, outcome = .ok (start, stop) ∧ Reads input start (encode info) stop
  | none => outcome = .error absent

theorem findInfoPair_encode {pairs : Pairs} (fuel pos : Nat) {stop : Nat}
    (enough : 2 * (input.length - pos) + 3 ≤ fuel)
    (read : Reads input pos (encodePairs pairs ++ [101]) stop) :
    SpanOf input (.failed .absent) (findInfoPair input fuel pos)
      ((BValue.dict pairs).get infoKey) := by
  induction pairs generalizing fuel pos with
  | nil =>
    obtain ⟨fuel, rfl⟩ : ∃ left, fuel = left + 1 := ⟨fuel - 1, by omega⟩
    obtain ⟨closed, _⟩ := reads_singleton.mp read
    change findInfoPair input (fuel + 1) pos = _
    rw [findInfoPair, if_neg (by simp [closed])]
  | cons pair rest ih =>
    obtain ⟨fuel, rfl⟩ : ∃ left, fuel = left + 1 := ⟨fuel - 1, by omega⟩
    obtain ⟨key, value⟩ := pair
    rw [encodePairs, List.append_assoc, List.append_assoc, reads_append] at read
    obtain ⟨keyEnd, keyRead, read⟩ := read
    obtain ⟨middle, valueRead, restRead⟩ := reads_append.mp read
    obtain ⟨first, found, open_, keyAdvanced⟩ := encode_starts (.bytes key) keyRead
    have start := (List.getElem?_eq_some_iff.mp found).1
    have keyInside := keyRead.inside
    have advanced := valueRead.1
    obtain ⟨_, _, _, keySlice, _⟩ := reads_string keyRead
    have round : findInfoPair input (fuel + 1) pos =
        if key = infoKey then .ok (keyEnd, middle) else findInfoPair input fuel middle := by
      rw [findInfoPair, if_pos ⟨start, by simpa [found] using open_⟩,
        lengthPrefix_string size keyRead, lift_ok]
      change (lift (okOr (checkedAdd _ _) _) >>= _) = _
      rw [string_end (by omega) keyRead]
      change (if keyEnd > input.length then _ else (skipValue input fuel keyEnd >>= _)) = _
      rw [if_neg (by omega), skipValue_encode size (by omega) valueRead, keySlice]
      rfl
    rw [round]
    split
    next same =>
      have got : (BValue.dict ((key, value) :: rest)).get infoKey = some value := by
        simp [BValue.get, same]
      rw [got]
      exact ⟨keyEnd, middle, rfl, valueRead⟩
    next same =>
      have got : (BValue.dict ((key, value) :: rest)).get infoKey =
          (BValue.dict rest).get infoKey := by
        simp [BValue.get, same]
      rw [got]
      exact ih fuel middle (by omega) restRead

omit size

variable {value : BValue}

/-- On an encoding, the scanner answers for the value of the `info` key. -/
theorem findInfoSpan_encode (size : (encode value).length < 2 ^ 64) :
    SpanOf (encode value) Quit.absent (findInfoSpan (encode value)) (value.get infoKey) := by
  cases value with
  | bytes content =>
    obtain ⟨first, rest, shape, digit⟩ := encodeString_head content
    have notDict : (encode (.bytes content))[0]? ≠ some 100 := by
      rw [encode, shape]
      rintro same
      rw [getElem?_cons_zero, Option.some.injEq] at same
      rw [same] at digit
      exact absurd digit (by decide)
    exact if_pos notDict
  | int number => rfl
  | list items => rfl
  | dict pairs =>
    have whole := (reads_whole (encode (.dict pairs))).mpr rfl
    have found := findInfoPair_encode size (2 * (encode (.dict pairs)).length + 3) 1 (by omega)
      (reads_cons.mp whole).2
    generalize (BValue.dict pairs).get infoKey = answer at found ⊢
    cases answer with
    | some info =>
      obtain ⟨start, stop, scanned, read⟩ := found
      exact ⟨start, stop, (complete_eq_ok _).mpr scanned, read⟩
    | none => exact (complete_eq_error _).mpr found

/-- A dictionary has a value for a key that is among its keys, and only then. -/
theorem get_isSome_iff (value : BValue) (key : Bytes) :
    (value.get key).isSome = true ↔ ∃ pairs content, value = .dict pairs ∧ (key, content) ∈ pairs := by
  cases value with
  | dict pairs =>
    simp only [BValue.get, Option.isSome_map, find?_isSome, beq_iff_eq, Prod.exists]
    constructor
    · rintro ⟨found, content, member, rfl⟩
      exact ⟨pairs, content, rfl, member⟩
    · rintro ⟨_, content, same, member⟩
      cases same
      exact ⟨key, content, member, rfl⟩
  | bytes content => simp [BValue.get]
  | int number => simp [BValue.get]
  | list items => simp [BValue.get]

/-- The decoder and the scanner of an accepted torrent. -/
theorem decodeTorrentInfoSpan_eq_ok {span : Option (Nat × Nat)} :
    decodeTorrentInfoSpan input = .ok (value, span) ↔ decode input = .ok value ∧
        (findInfoSpan input = .error .absent ∧ span = none ∨
          ∃ range, findInfoSpan input = .ok range ∧ span = some range) := by
  unfold decodeTorrentInfoSpan decodeTorrentInfoSpanWithAllocationReservation decode Decoder.decode
  cases decodeWithAllocationReservation { input := input }
      (fun _ budget => (true, budget)) () with
  | error problem => simp [Except.map, Except.mapError, bind, Except.bind]
  | ok outcome =>
    obtain ⟨found, left⟩ := outcome
    cases findInfoSpan input with
    | ok range => simp [Except.map, Except.mapError, bind, Except.bind, eq_comm]
    | error quit =>
      cases quit <;> simp [Except.map, Except.mapError, bind, Except.bind, eq_comm]

/-- What is answered for an accepted input: the span of the value of the `info` key, or none where
there is no such value. -/
theorem span_cases (decoded : decode input = .ok value) :
    (∃ info start stop, value.get infoKey = some info ∧ Reads input start (encode info) stop ∧
        decodeTorrentInfoSpan input = .ok (value, some (start, stop))) ∨
      value.get infoKey = none ∧ decodeTorrentInfoSpan input = .ok (value, none) := by
  obtain ⟨rfl, size⟩ := decode_size decoded
  have answer := findInfoSpan_encode size
  cases got : value.get infoKey with
  | some info =>
    rw [got] at answer
    obtain ⟨start, stop, found, read⟩ := answer
    exact .inl ⟨info, start, stop, rfl, read,
      decodeTorrentInfoSpan_eq_ok.mpr ⟨decoded, .inr ⟨_, found, rfl⟩⟩⟩
  | none =>
    rw [got] at answer
    exact .inr ⟨rfl, decodeTorrentInfoSpan_eq_ok.mpr ⟨decoded, .inl ⟨answer, rfl⟩⟩⟩

/-- Every input the decoder accepts has a span outcome, and in it the scanner agrees
with the decoder: it finds a range exactly when the root is a dictionary with the key
`info`, and that range of the input is the encoding of the key's value. -/
theorem info_span_agrees (input : Bytes) :
    (∀ value, decode input = .ok value → ∃ span, decodeTorrentInfoSpan input = .ok (value, span)) ∧
    ∀ value span, decodeTorrentInfoSpan input = .ok (value, span) →
      decode input = .ok value ∧
      (span.isSome = true ↔
        ∃ pairs info, value = .dict pairs ∧ (infoKey, info) ∈ pairs) ∧
      ∀ start stop, span = some (start, stop) →
        start ≤ stop ∧ stop ≤ input.length ∧
          ∃ info, value.get infoKey = some info ∧ slice input start stop = encode info := by
  constructor
  · intro value decoded
    obtain ⟨_, start, stop, _, _, answered⟩ | ⟨_, answered⟩ := span_cases decoded
    · exact ⟨some (start, stop), answered⟩
    · exact ⟨none, answered⟩
  · intro value span accepted
    have decoded := (decodeTorrentInfoSpan_eq_ok.mp accepted).1
    rw [← get_isSome_iff]
    obtain ⟨info, first, last, got, read, answered⟩ | ⟨got, answered⟩ := span_cases decoded
    · cases Except.ok.inj (accepted.symm.trans answered)
      refine ⟨decoded, by simp [got], ?_⟩
      rintro start stop ⟨⟩
      exact ⟨read.1, read.2.1, info, got, read.2.2⟩
    · cases Except.ok.inj (accepted.symm.trans answered)
      exact ⟨decoded, by simp [got], nofun⟩

end TorrentNG.Bencode
