import TorrentNG.Bencode

/-!
# What each reader of the decoder accepts

One equivalence for each function of the decoder: it succeeds exactly where the
encoding of its result stands in the input. The recursive functions are described
one step at a time, so that the proofs about whole runs never unfold them.
-/

namespace TorrentNG.Bencode

open List MachineArithmetic Decimal Fallible Reading

namespace Decoder

variable (decoder : Decoder)

theorem peek_eq_ok (pos : Nat) (byte : UInt8) :
    decoder.peek pos = .ok byte ↔ decoder.input[pos]? = some byte :=
  okOr_eq_ok

theorem expect_eq_ok (expected : UInt8) (pos after : Nat) :
    decoder.expect expected pos = .ok after ↔ Reads decoder.input pos [expected] after := by
  rw [expect, bind_eq_ok, reads_singleton]
  simp only [peek_eq_ok]
  constructor
  · rintro ⟨byte, found, accepted⟩
    by_cases same : byte = expected
    · subst same
      simp only [ne_eq, not_true_eq_false, ↓reduceIte, Except.ok.injEq] at accepted
      exact ⟨found, accepted⟩
    · simp [same] at accepted
  · rintro ⟨found, rfl⟩
    exact ⟨expected, found, by simp⟩

/-- A token is scanned exactly when it stands in front of the stop byte, holds no
stop byte and no refused byte, and is not too long. -/
theorem scanToken_eq_ok (stop : UInt8) (tooLong : BencodeError)
    (refuse : UInt8 → Option (Nat → BencodeError)) (left pos result : Nat) :
    decoder.scanToken stop tooLong refuse left pos = .ok result ↔
      ∃ token, Reads decoder.input pos token result ∧ decoder.input[result]? = some stop ∧
        token.length ≤ left ∧ ∀ byte ∈ token, byte ≠ stop ∧ refuse byte = none := by
  induction left generalizing pos with
  | zero =>
    rw [scanToken, bind_eq_ok]
    simp only [peek_eq_ok]
    constructor
    · rintro ⟨byte, found, scanned⟩
      by_cases same : byte = stop
      · simp only [same, ↓reduceIte, Except.ok.injEq] at scanned
        subst scanned same
        have inside := (List.getElem?_eq_some_iff.mp found).1
        exact ⟨[], reads_nil.mpr ⟨rfl, inside.le⟩, found, by simp, by simp⟩
      · simp [same] at scanned
    · rintro ⟨token, read, stopped, short, _⟩
      obtain rfl : token = [] := length_eq_zero_iff.mp (by omega)
      obtain ⟨rfl, _⟩ := reads_nil.mp read
      exact ⟨stop, stopped, by simp⟩
  | succ left ih =>
    rw [scanToken, bind_eq_ok]
    simp only [peek_eq_ok]
    constructor
    · rintro ⟨byte, found, scanned⟩
      by_cases same : byte = stop
      · simp only [same, ↓reduceIte, Except.ok.injEq] at scanned
        subst scanned same
        have inside := (List.getElem?_eq_some_iff.mp found).1
        exact ⟨[], reads_nil.mpr ⟨rfl, inside.le⟩, found, by simp, by simp⟩
      · rw [if_neg same] at scanned
        cases refused : refuse byte with
        | some refusal => simp [refused] at scanned
        | none =>
          simp only [refused] at scanned
          split at scanned
          · cases scanned
          · obtain ⟨token, read, stopped, short, allowed⟩ := (ih (pos + 1)).mp scanned
            refine ⟨byte :: token, reads_cons.mpr ⟨found, read⟩, stopped, ?_, ?_⟩
            · simpa using short
            · simpa [same, refused] using allowed
    · rintro ⟨token, read, stopped, short, allowed⟩
      cases token with
      | nil =>
        obtain ⟨rfl, _⟩ := reads_nil.mp read
        exact ⟨stop, stopped, by simp⟩
      | cons byte token =>
        obtain ⟨found, rest⟩ := reads_cons.mp read
        obtain ⟨different, accepted⟩ := allowed byte (by simp)
        have inside := (List.getElem?_eq_some_iff.mp stopped).1
        have ordered := rest.1
        refine ⟨byte, found, ?_⟩
        rw [if_neg different]
        simp only [accepted]
        rw [if_neg (by omega)]
        refine (ih (pos + 1)).mpr ⟨token, rest, stopped, by simpa using short, ?_⟩
        intro other member
        exact allowed other (by simp [member])

/-- Digits are ASCII. -/
theorem decode_digits_ne_none {token : Bytes} (allDigits : ∀ byte ∈ token, isDigit byte = true) :
    Utf8.decode token ≠ none := by
  rw [Utf8.decode_ascii]
  · simp
  · intro byte member
    exact Nat.lt_of_le_of_lt (isDigit_iff.mp (allDigits byte member)).2 (by decide)

/-- The integer tokens that pass every check are the printed integers. -/
theorem integerOf_eq_ok (token : Bytes) (number : Int64) :
    integerOf token = .ok number ↔ token = signedDigits number := by
  constructor
  · intro accepted
    unfold integerOf at accepted
    split_ifs at accepted with _ minusZero plus zero longMinusZero
    refine (parseSigned_eq_ok_iff plus (fun long leading => zero ⟨long, leading⟩) ?_).mp
      (mapError_eq_ok.mp accepted)
    intro start
    by_cases long : 2 < token.length
    · exact longMinusZero ⟨long, start⟩
    · exact minusZero (by rw [← start, take_of_length_le (by omega)])
  · rintro rfl
    obtain ⟨plus, zero, minusZero⟩ := signedDigits_canonical number
    have ascii : Utf8.decode (signedDigits number) ≠ none := by
      rw [Utf8.decode_ascii]
      · simp
      · intro byte member
        obtain rfl | digit := mem_signedDigits member
        · decide
        · exact Nat.lt_of_le_of_lt (isDigit_iff.mp digit).2 (by decide)
    have short : signedDigits number ≠ [45, 48] := by
      intro same
      exact minusZero (by rw [same]; rfl)
    rw [integerOf, if_neg ascii, if_neg short, if_neg plus, if_neg (fun both => zero both.1 both.2),
      if_neg (fun both => minusZero both.2), (parseSigned_eq_ok_iff plus zero minusZero).mpr rfl]
    rfl

/-- The length tokens that pass every check are the canonical numerals below 2^64. -/
theorem lengthOf_eq_ok {token : Bytes} {length : Nat}
    (allDigits : ∀ byte ∈ token, isDigit byte = true) :
    lengthOf token = .ok length ↔ token = digits length ∧ length < 2 ^ 64 := by
  rw [lengthOf, if_neg (decode_digits_ne_none allDigits)]
  by_cases zero : 1 < token.length ∧ token.head? = some 48
  · rw [if_pos zero]
    refine ⟨nofun, ?_⟩
    rintro ⟨rfl, _⟩
    exact absurd zero.2 ((digits_canonical length).2.2 zero.1)
  · rw [if_neg zero, mapError_eq_ok]
    exact parseUnsigned_eq_ok_iff allDigits fun long leading => zero ⟨long, leading⟩

variable {decoder : Decoder} {pos after : Nat}

theorem decodeInt_eq_ok {number : Int64} : decoder.decodeInt pos = .ok (number, after) ↔
      Reads decoder.input pos (105 :: (signedDigits number ++ [101])) after := by
  have noStop : ∀ byte ∈ signedDigits number, byte ≠ 101 ∧ True := by
    intro byte member
    exact ⟨ne_of_mem_of_not_mem member (end_not_mem_signedDigits number), trivial⟩
  rw [← singleton_append, reads_append]
  simp only [reads_append, decodeInt, bind_eq_ok, expect_eq_ok, scanToken_eq_ok, integerOf_eq_ok,
    Except.ok.injEq, Prod.mk.injEq]
  constructor
  · rintro ⟨start, opened, stop, ⟨token, read, _, _, _⟩, _, closed, _, printed, rfl, rfl⟩
    rw [read.2.2] at printed
    subst printed
    exact ⟨start, opened, stop, read, closed⟩
  · rintro ⟨start, opened, stop, read, closed⟩
    have stopped := (reads_singleton.mp closed).1
    exact ⟨start, opened, stop,
      ⟨signedDigits number, read, stopped, length_signedDigits_le number, noStop⟩,
      after, closed, number, read.2.2, rfl, rfl⟩

theorem refuseNonDigit_eq_none (byte : UInt8) : refuseNonDigit byte = none ↔ isDigit byte = true := by
  by_cases digit : isDigit byte = true <;> simp [refuseNonDigit, digit]

theorem decodeLength_eq_ok {length : Nat} : decoder.decodeLength pos = .ok (length, after) ↔
      length < 2 ^ 64 ∧ Reads decoder.input pos (digits length ++ [58]) after := by
  simp only [reads_append, decodeLength, bind_eq_ok, expect_eq_ok, scanToken_eq_ok,
    refuseNonDigit_eq_none, Except.ok.injEq, Prod.mk.injEq]
  constructor
  · rintro ⟨stop, ⟨token, read, _, _, allowed⟩, _, accepted, _, closed, rfl, rfl⟩
    rw [read.2.2] at accepted
    obtain ⟨rfl, below⟩ := (lengthOf_eq_ok (fun byte member => (allowed byte member).2)).mp accepted
    exact ⟨below, stop, read, closed⟩
  · rintro ⟨below, stop, read, closed⟩
    have allDigits := isDigit_of_mem_digits length
    have stopped := (reads_singleton.mp closed).1
    have short : (digits length).length ≤ maxLengthPrefixDigits :=
      length_digits_le length 64 (by decide) (below.trans (by decide))
    refine ⟨stop, ⟨digits length, read, stopped, short, ?_⟩, length, ?_, after, closed, rfl, rfl⟩
    · intro byte member
      refine ⟨?_, allDigits byte member⟩
      rintro rfl
      exact absurd (allDigits 58 member) (by decide)
    · rw [read.2.2]
      exact (lengthOf_eq_ok allDigits).mpr ⟨rfl, below⟩

theorem decodeBytes_eq_ok {content : Bytes} : decoder.decodeBytes pos = .ok (content, after) ↔
      content.length ≤ decoder.maxString ∧ after < 2 ^ 64 ∧
        Reads decoder.input pos (encodeString content) after := by
  rw [encodeString, ← singleton_append, ← append_assoc, reads_append, decodeBytes, bind_eq_ok]
  constructor
  · rintro ⟨⟨length, start⟩, prefixed, accepted⟩
    obtain ⟨_, read⟩ := decodeLength_eq_ok.mp prefixed
    dsimp only at accepted
    split_ifs at accepted with tooLong
    obtain ⟨stop, added, accepted⟩ := bind_eq_ok.mp accepted
    obtain ⟨rfl, bounded⟩ := checkedAdd_eq_some.mp (okOr_eq_ok.mp added)
    split_ifs at accepted with outside
    obtain ⟨rfl, rfl⟩ := Prod.mk.inj (Except.ok.inj accepted)
    have sliced : (slice decoder.input start (start + length)).length = length := by
      rw [slice, length_take, length_drop]
      omega
    rw [sliced]
    exact ⟨by omega, bounded, start, read, by omega, by omega, rfl⟩
  · rintro ⟨short, bounded, start, read, content_read⟩
    have stops := content_read.stop_eq
    have inside := content_read.inside
    refine ⟨(content.length, start), decodeLength_eq_ok.mpr ⟨by omega, read⟩, ?_⟩
    have added : checkedAdd start content.length = some after := by
      rw [checkedAdd_of_lt (by omega), stops]
    dsimp only
    rw [if_neg (by omega), added]
    change (if after > decoder.input.length then _ else _) = _
    rw [if_neg (by omega), content_read.2.2]

section Runs
variable {σ : Type}

theorem enter_eq_ok (depth : Nat) (cursor entered : Cursor σ) :
    decoder.enter depth cursor = .ok entered ↔
      depth ≤ decoder.maxDepth ∧ cursor.nodes + 1 ≤ decoder.maxNodes ∧
        cursor.nodes + 1 < 2 ^ 64 ∧ entered = { cursor with nodes := cursor.nodes + 1 } := by
  unfold enter
  constructor
  · intro accepted
    split_ifs at accepted with deep
    obtain ⟨nodes, counted, accepted⟩ := bind_eq_ok.mp accepted
    obtain ⟨rfl, bounded⟩ := checkedAdd_eq_some.mp (okOr_eq_ok.mp counted)
    split_ifs at accepted with many
    exact ⟨by omega, by omega, bounded, (Except.ok.inj accepted).symm⟩
  · rintro ⟨shallow, few, bounded, rfl⟩
    rw [if_neg (by omega), bind_eq_ok]
    refine ⟨cursor.nodes + 1, okOr_eq_ok.mpr (checkedAdd_of_lt bounded), ?_⟩
    rw [if_neg (by omega)]

variable {cursor : Cursor σ} {fuel depth : Nat} {after : Cursor σ}

theorem enclosed_eq_ok {α : Type} {opening : UInt8}
    {loop : Cursor σ → Except (Stop BencodeError) (α × Cursor σ)} {content : α} :
    decoder.enclosed opening loop cursor = .ok (content, after) ↔
      decoder.input[cursor.pos]? = some opening ∧
        ∃ inner, loop { cursor with pos := cursor.pos + 1 } = .ok (content, inner) ∧
          decoder.input[inner.pos]? = some 101 ∧ after = { inner with pos := inner.pos + 1 } := by
  simp only [enclosed, bind_eq_ok, lift_eq_ok, expect_eq_ok, reads_singleton]
  constructor
  · rintro ⟨_, ⟨opened, rfl⟩, ⟨_, inner⟩, looped, _, ⟨closed, rfl⟩, same⟩
    obtain ⟨rfl, rfl⟩ := Prod.mk.inj (Except.ok.inj same)
    exact ⟨opened, inner, looped, closed, rfl⟩
  · rintro ⟨opened, inner, looped, closed, rfl⟩
    exact ⟨_, ⟨opened, rfl⟩, (content, inner), looped, _, ⟨closed, rfl⟩, rfl⟩

/-- What each kind of value requires of a step of `decode_value` after its checks. -/
def Dispatches (decoder : Decoder) (reserve : Reservation σ) (fuel depth : Nat)
    (cursor after : Cursor σ) : BValue → Prop
  | .int number =>
      Reads decoder.input cursor.pos (encode (.int number)) after.pos ∧
        after = { cursor with pos := after.pos }
  | .bytes content =>
      content.length ≤ decoder.maxString ∧ after.pos < 2 ^ 64 ∧
        Reads decoder.input cursor.pos (encode (.bytes content)) after.pos ∧
        after = { cursor with pos := after.pos }
  | .list items =>
      decoder.enclosed 108 (fun cursor => decodeItems decoder reserve fuel depth cursor [] 0)
        cursor = .ok (items, after)
  | .dict pairs =>
      decoder.enclosed 100
        (fun cursor => decodePairs decoder reserve fuel depth cursor [] none 0)
        cursor = .ok (pairs, after)

/-- A string starts with a digit. -/
theorem encodeString_head (content : Bytes) :
    ∃ first rest, encodeString content = first :: rest ∧ isDigit first = true := by
  obtain ⟨first, rest, printed, digit⟩ := digits_cons content.length
  exact ⟨first, rest ++ 58 :: content, by rw [encodeString, printed, cons_append], digit⟩

section Tokens

variable {input content : Bytes} {stop : Nat}

/-- Where the parts of an encoded string stand. -/
theorem reads_string (read : Reads input pos (encodeString content) stop) :
    (∃ after, input.drop pos = digits content.length ++ 58 :: after) ∧
      slice input pos (pos + (digits content.length).length) = digits content.length ∧
      input[pos + (digits content.length).length]? = some 58 ∧
      slice input (pos + (digits content.length).length + 1) stop = content ∧
      pos + (digits content.length).length + 1 + content.length = stop := by
  obtain ⟨before, after, whole, rfl, _⟩ := reads_iff_append.mp read
  have suffix : input.drop before.length = digits content.length ++ 58 :: (content ++ after) := by
    rw [whole, drop_left, encodeString, append_assoc, cons_append]
  rw [encodeString, reads_append] at read
  obtain ⟨colonAt, number, rest⟩ := read
  obtain ⟨colon, text⟩ := reads_cons.mp rest
  obtain rfl := number.stop_eq
  exact ⟨⟨_, suffix⟩, number.2.2, colon, text.2.2, text.stop_eq.symm⟩

/-- The end of an encoded string is found from its length. -/
theorem string_end (small : stop < 2 ^ 64) (read : Reads input pos (encodeString content) stop) :
    checkedAdd (pos + (digits content.length).length + 1) content.length = some stop := by
  obtain ⟨_, _, _, _, stops⟩ := reads_string read
  rw [checkedAdd_of_lt (by omega), stops]

/-- Where the digits of an encoded integer stand. -/
theorem reads_int {number : Int64} (read : Reads input pos (encode (.int number)) stop) :
    (∃ after, input.drop (pos + 1) = signedDigits number ++ 101 :: after) ∧
      pos + 1 + (signedDigits number).length + 1 = stop := by
  have stops := read.stop_eq
  obtain ⟨before, after, rfl, rfl, _⟩ := reads_iff_append.mp read
  refine ⟨⟨after, by simp [encode]⟩, ?_⟩
  simp only [encode, length_cons, length_append, length_nil] at stops
  omega

end Tokens

/-- One step of `decode_value` succeeds exactly when its checks pass and the first
byte selects the reader of the result. -/
theorem decodeValue_eq_ok {reserve : Reservation σ} {value : BValue} :
    decodeValue decoder reserve (fuel + 1) depth cursor = .ok (value, after) ↔
      depth ≤ decoder.maxDepth ∧ cursor.nodes + 1 ≤ decoder.maxNodes ∧ cursor.nodes + 1 < 2 ^ 64 ∧
        Dispatches decoder reserve fuel depth { cursor with nodes := cursor.nodes + 1 } after
          value := by
  simp only [decodeValue, bind_eq_ok, lift_eq_ok, enter_eq_ok, peek_eq_ok]
  constructor
  · rintro ⟨_, ⟨shallow, few, bounded, rfl⟩, byte, found, dispatched⟩
    refine ⟨shallow, few, bounded, ?_⟩
    split_ifs at dispatched
    · obtain ⟨⟨number, pos⟩, read, same⟩ := bind_eq_ok.mp dispatched
      obtain ⟨rfl, rfl⟩ := Prod.mk.inj (Except.ok.inj same)
      exact ⟨decodeInt_eq_ok.mp (lift_eq_ok.mp read), rfl⟩
    · obtain ⟨⟨items, inner⟩, read, same⟩ := bind_eq_ok.mp dispatched
      obtain ⟨rfl, rfl⟩ := Prod.mk.inj (Except.ok.inj same)
      exact read
    · obtain ⟨⟨pairs, inner⟩, read, same⟩ := bind_eq_ok.mp dispatched
      obtain ⟨rfl, rfl⟩ := Prod.mk.inj (Except.ok.inj same)
      exact read
    · obtain ⟨⟨content, pos⟩, read, same⟩ := bind_eq_ok.mp dispatched
      obtain ⟨rfl, rfl⟩ := Prod.mk.inj (Except.ok.inj same)
      obtain ⟨short, small, read⟩ := decodeBytes_eq_ok.mp (lift_eq_ok.mp read)
      exact ⟨short, small, read, rfl⟩
  · rintro ⟨shallow, few, bounded, dispatched⟩
    refine ⟨_, ⟨shallow, few, bounded, rfl⟩, ?_⟩
    cases value with
    | int number =>
      obtain ⟨read, kept⟩ := dispatched
      refine ⟨105, (reads_cons.mp read).1, ?_⟩
      rw [if_pos rfl, bind_eq_ok]
      refine ⟨(number, after.pos), lift_eq_ok.mpr (decodeInt_eq_ok.mpr read), ?_⟩
      rw [kept]
    | bytes content =>
      obtain ⟨short, small, read, kept⟩ := dispatched
      obtain ⟨first, rest, shape, digit⟩ := encodeString_head content
      have found : decoder.input[cursor.pos]? = some first := by
        rw [encode, shape] at read
        exact (reads_cons.mp read).1
      have marker := ne_of_isDigit digit
      refine ⟨first, found, ?_⟩
      rw [if_neg (marker 105 rfl), if_neg (marker 108 rfl), if_neg (marker 100 rfl), if_pos digit,
        bind_eq_ok]
      refine ⟨(content, after.pos), lift_eq_ok.mpr (decodeBytes_eq_ok.mpr ⟨short, small, read⟩), ?_⟩
      rw [kept]
    | list items =>
      have found := (enclosed_eq_ok.mp dispatched).1
      refine ⟨108, found, ?_⟩
      rw [if_neg (by decide), if_pos rfl, bind_eq_ok]
      exact ⟨(items, after), dispatched, rfl⟩
    | dict pairs =>
      have found := (enclosed_eq_ok.mp dispatched).1
      refine ⟨100, found, ?_⟩
      rw [if_neg (by decide), if_neg (by decide), if_pos rfl, bind_eq_ok]
      exact ⟨(pairs, after), dispatched, rfl⟩

/-- A round of a loop stops in front of `e`, or does more. -/
theorem round_eq_ok {α : Type} {done result : α}
    {more : UInt8 → Except (Stop BencodeError) (α × Cursor σ)} :
    (lift (decoder.peek cursor.pos) >>= fun byte => if byte = 101 then .ok (done, cursor) else more byte) =
        .ok (result, after) ↔
      (decoder.input[cursor.pos]? = some 101 ∧ result = done ∧ after = cursor) ∨
      ∃ byte, decoder.input[cursor.pos]? = some byte ∧ byte ≠ 101 ∧ more byte = .ok (result, after) := by
  simp only [bind_eq_ok, lift_eq_ok, peek_eq_ok]
  constructor
  · rintro ⟨byte, found, round⟩
    split at round
    next closing =>
      obtain ⟨rfl, rfl⟩ := Prod.mk.inj (Except.ok.inj round)
      exact .inl ⟨closing ▸ found, rfl, rfl⟩
    next open_ => exact .inr ⟨byte, found, open_, round⟩
  · rintro (⟨found, rfl, rfl⟩ | ⟨byte, found, open_, round⟩)
    · exact ⟨101, found, if_pos rfl⟩
    · exact ⟨byte, found, (if_neg open_).trans round⟩

/-- One round of the list loop: it stops in front of `e`, or decodes one item. -/
theorem decodeItems_eq_ok (reserve : Reservation σ) (capacity : Nat)
    (items result : List BValue) :
    decodeItems decoder reserve (fuel + 1) depth cursor items capacity = .ok (result, after) ↔
      (decoder.input[cursor.pos]? = some 101 ∧ result = items ∧ after = cursor) ∨
      ∃ byte, decoder.input[cursor.pos]? = some byte ∧ byte ≠ 101 ∧ ∃ grown budget item next,
          reserveVecGrowth reserve valueBytes items.length capacity cursor.budget =
            .ok (grown, budget) ∧
          decodeValue decoder reserve fuel (depth + 1) { cursor with budget := budget } =
            .ok (item, next) ∧
          decodeItems decoder reserve fuel depth next (items ++ [item]) grown =
            .ok (result, after) := by
  rw [decodeItems, round_eq_ok]
  simp only [bind_eq_ok, lift_eq_ok, Prod.exists, exists_and_left]

theorem orderKey_eq_ok {lastKey : Option Bytes} {key : Bytes} {answer : Unit} :
    decoder.orderKey lastKey key = .ok answer ↔
      (decoder.strictDictKeys = true → ∀ previous ∈ lastKey, previous < key) := by
  cases lastKey with
  | none => simp [orderKey]
  | some previous =>
    by_cases strict : decoder.strictDictKeys = true
    · by_cases ordered : key ≤ previous
      · simp [orderKey, strict, ordered, List.not_lt.mpr ordered]
      · simp [orderKey, strict, List.not_le.mp ordered]
    · simp [orderKey, strict]

/-- One round of the dictionary loop. -/
theorem decodePairs_eq_ok (reserve : Reservation σ) (capacity : Nat)
    (pairs result : Pairs) (lastKey : Option Bytes) :
    decodePairs decoder reserve (fuel + 1) depth cursor pairs lastKey capacity =
        .ok (result, after) ↔
      (decoder.input[cursor.pos]? = some 101 ∧ result = pairs ∧ after = cursor) ∨
      ∃ byte, decoder.input[cursor.pos]? = some byte ∧ byte ≠ 101 ∧
        ∃ key pos grown budget value next, (key.length ≤ decoder.maxString ∧ pos < 2 ^ 64 ∧
            Reads decoder.input cursor.pos (encodeString key) pos) ∧
          (decoder.strictDictKeys = true → ∀ previous ∈ lastKey, previous < key) ∧
          reserveVecGrowth reserve pairBytes pairs.length capacity cursor.budget =
            .ok (grown, budget) ∧
          decodeValue decoder reserve fuel (depth + 1)
              { cursor with pos := pos, budget := budget } = .ok (value, next) ∧
          decodePairs decoder reserve fuel depth next (pairs ++ [(key, value)]) (some key) grown =
            .ok (result, after) := by
  rw [decodePairs, round_eq_ok]
  simp only [bind_eq_ok, lift_eq_ok, Prod.exists, exists_and_left, exists_const, decodeBytes_eq_ok,
    orderKey_eq_ok]

end Runs

end Decoder

end TorrentNG.Bencode
