import TorrentNG.PeerWire

/-!
# Metadata messages of `rt-peer-wire`

A peer sends the metadata of a torrent in messages that are a bencoded dictionary and, behind
it, the bytes of a metadata piece. The decoder of `rt-bencode` accepts no trailing bytes, so
the parser first finds the end of the dictionary with a scanner of its own.

The scanner and the decoder share no code. The scanner checks less: tokens of integers, the
order of keys and the number of values are not looked at. Where the decoder accepts a value,
the scanner ends behind it, whatever follows.
-/

namespace TorrentNG.PeerWire

open Bencode Decimal Decoder Fallible MachineArithmetic Reading SortedSlices List
open Utf8 (ascii)

/-! ## Messages -/

inductive UtMetadataMessage where
  | request (piece : UInt32)
  | data (piece totalSize : UInt32) (data : Bytes)
  | reject (piece : UInt32)
deriving DecidableEq

/-- `i64::from` of a `u32`. -/
def i64FromU32 (number : UInt32) : Int64 := Int64.ofInt number.toNat

/-- `u32::try_from` of an `i64`. -/
def u32TryFromI64 (number : Int64) : Option UInt32 :=
  if 0 ≤ number.toInt ∧ number.toInt < 2 ^ 32 then some (UInt32.ofNat number.toInt.toNat) else none

def metadataHeader (msgType : Int64) (piece : UInt32) (totalSize : Option UInt32) : Bytes :=
  let pairs : Pairs :=
    [(ascii "msg_type", .int msgType), (ascii "piece", .int (i64FromU32 piece))]
  let pairs :=
    match totalSize with
    | some totalSize => pairs ++ [(ascii "total_size", .int (i64FromU32 totalSize))]
    | none => pairs
  Bencode.encode (.dict (sortBy (compareOn Prod.fst) pairs))

def UtMetadataMessage.encode : UtMetadataMessage → Bytes
  | .request piece => metadataHeader 0 piece none
  | .data piece totalSize bytes => metadataHeader 1 piece (some totalSize) ++ bytes
  | .reject piece => metadataHeader 2 piece none

/-! ## The end of a value -/

/-- `MAX_SCAN_DEPTH`. -/
def maxScanDepth : Nat := 64

/-- Everything up to the next `e`. -/
def scanInt (input : Bytes) (pos : Nat) : Except String Nat :=
  match (input.drop (pos + 1)).findIdx? (· == 101) with
  | some index => .ok (pos + 1 + index + 1)
  | none => .error "unterminated bencode int"

/-- A length, a colon and that many bytes. The loop stops at the first byte that is no digit. -/
def scanBytes (input : Bytes) (pos : Nat) : Except String Nat :=
  match (input.drop pos).findIdx? fun byte => !isDigit byte with
  | none => .error "unterminated bencode byte length"
  | some index =>
      if input[pos + index]? ≠ some 58 then .error "invalid bencode byte length"
      else if Utf8.decode (slice input pos (pos + index)) = none then
        .error "invalid bencode byte length"
      else do
        let length ← (parseUnsigned (slice input pos (pos + index))).mapError fun _ =>
          "invalid bencode byte length"
        let stop ← okOr (checkedAdd (pos + index + 1) length) "bencode byte length overflow"
        if stop > input.length then .error "bencode byte string exceeds payload" else .ok stop

mutual

def scanValue (input : Bytes) : Nat → Nat → Nat → Except (Stop String) Nat
  | 0, _, _ => .error .exhausted
  | fuel + 1, depth, pos =>
      if depth > maxScanDepth then .error (.failed "bencode nesting too deep")
      else
        match input[pos]? with
        | none => .error (.failed "empty bencode payload")
        | some byte =>
            if byte = 105 then lift (scanInt input pos)
            else if byte = 108 then scanItems input fuel depth (pos + 1)
            else if byte = 100 then scanPairs input fuel depth (pos + 1)
            else if isDigit byte then lift (scanBytes input pos)
            else .error (.failed "invalid bencode value")

/-- The loop of `scan_list`. -/
def scanItems (input : Bytes) : Nat → Nat → Nat → Except (Stop String) Nat
  | 0, _, _ => .error .exhausted
  | fuel + 1, depth, pos =>
      match input[pos]? with
      | none => .error (.failed "unterminated bencode list")
      | some byte =>
          if byte = 101 then .ok (pos + 1)
          else do
            let next ← scanValue input fuel (depth + 1) pos
            scanItems input fuel depth next

/-- The loop of `scan_dict`. -/
def scanPairs (input : Bytes) : Nat → Nat → Nat → Except (Stop String) Nat
  | 0, _, _ => .error .exhausted
  | fuel + 1, depth, pos =>
      match input[pos]? with
      | none => .error (.failed "unterminated bencode dict")
      | some byte =>
          if byte = 101 then .ok (pos + 1)
          else if isDigit byte then do
            let valueStart ← lift (scanBytes input pos)
            let next ← scanValue input fuel (depth + 1) valueStart
            scanPairs input fuel depth next
          else .error (.failed "invalid bencode dict key")

end

variable {input : Bytes} {pos : Nat}

theorem scanInt_advances {next : Nat} (scanned : scanInt input pos = .ok next) :
    pos < next ∧ next ≤ input.length := by
  unfold scanInt at scanned
  split at scanned
  next index found =>
    obtain ⟨inside, _⟩ := findIdx?_eq_some_iff_getElem.mp found
    rw [length_drop] at inside
    have stops := Except.ok.inj scanned
    omega
  next => cases scanned

theorem scanBytes_advances {next : Nat} (scanned : scanBytes input pos = .ok next) :
    pos < next ∧ next ≤ input.length := by
  unfold scanBytes at scanned
  split at scanned
  next => cases scanned
  next index found =>
    split_ifs at scanned
    obtain ⟨length, _, scanned⟩ := bind_eq_ok.mp scanned
    obtain ⟨stop, added, scanned⟩ := bind_eq_ok.mp scanned
    obtain ⟨rfl, _⟩ := checkedAdd_eq_some.mp (okOr_eq_ok.mp added)
    split_ifs at scanned with outside
    have stops := Except.ok.inj scanned
    omega

/-- Every scan moves forward and stays inside the input. Two steps for each byte that is left
are enough. -/
theorem scan_settles (input : Bytes) (fuel : Nat) :
    (∀ depth pos, Settles (2 * (input.length - pos) + 2 ≤ fuel)
      (fun next => pos < next ∧ next ≤ input.length) (scanValue input fuel depth pos)) ∧
    (∀ depth pos, Settles (2 * (input.length - pos) + 3 ≤ fuel)
      (fun next => pos < next ∧ next ≤ input.length) (scanItems input fuel depth pos)) ∧
    (∀ depth pos, Settles (2 * (input.length - pos) + 3 ≤ fuel)
      (fun next => pos < next ∧ next ≤ input.length) (scanPairs input fuel depth pos)) := by
  induction fuel with
  | zero =>
    simp only [scanValue, scanItems, scanPairs, Settles]
    exact ⟨by omega, by omega, by omega⟩
  | succ fuel ih =>
    obtain ⟨values, items, pairs⟩ := ih
    refine ⟨?_, ?_, ?_⟩
    · intro depth pos
      rw [scanValue]
      split_ifs
      · trivial
      split
      · trivial
      next byte found =>
        have inside := (List.getElem?_eq_some_iff.mp found).1
        split_ifs
        · exact settles_lift fun _ => scanInt_advances
        · exact (items _ _).mono (by omega) (by omega)
        · exact (pairs _ _).mono (by omega) (by omega)
        · exact settles_lift fun _ => scanBytes_advances
        · trivial
    · intro depth pos
      rw [scanItems]
      split
      · trivial
      next byte found =>
        have inside := (List.getElem?_eq_some_iff.mp found).1
        split_ifs
        · exact ⟨Nat.lt_succ_self pos, inside⟩
        · refine (values _ pos).bind (by omega) ?_
          intro next _ advanced
          exact (items _ next).mono (by omega) (by omega)
    · intro depth pos
      rw [scanPairs]
      split
      · trivial
      next byte found =>
        have inside := (List.getElem?_eq_some_iff.mp found).1
        split_ifs
        · exact ⟨Nat.lt_succ_self pos, inside⟩
        · apply settles_lift_bind
          intro valueStart key
          have named := scanBytes_advances key
          refine (values _ valueStart).bind (by omega) ?_
          intro next _ advanced
          exact (pairs _ next).mono (by omega) (by omega)
        · trivial

/-- The length of the first value in the input. -/
def bencodeValueLen (input : Bytes) : Except String Nat :=
  complete (scanValue input (2 * input.length + 2) 0 0)
    (((scan_settles input _).1 0 0).ne_exhausted (by omega))

/-! ## The parser -/

/-- `MAX_EXTENSION_BENCODE_NODES`. -/
def maxExtensionBencodeNodes : Nat := 16 * 1024

def invalid (message : String) : WireError := .invalidMessage message

def decodeExtensionBencode (payload : Bytes) : Except WireError BValue :=
  (Decoder.decode { input := payload, maxNodes := maxExtensionBencodeNodes }).mapError
    fun error => invalid (Decoder.errorMessage error)

def dictInt (pairs : Pairs) (key : Bytes) : Option Int64 :=
  (pairs.find? fun pair => pair.1 == key).bind fun pair => pair.2.asInt

/-- What the pairs of the header and the bytes behind it say. -/
def UtMetadataMessage.ofHeader (pairs : Pairs) (headerLen : Nat)
    (payload : Bytes) : Except WireError UtMetadataMessage := do
  let msgType ← okOr (dictInt pairs (ascii "msg_type")) (invalid "ut_metadata msg_type missing")
  let piece ← okOr (dictInt pairs (ascii "piece")) (invalid "ut_metadata piece missing")
  let piece ← okOr (u32TryFromI64 piece) (invalid "ut_metadata piece out of range")
  if msgType = 0 then
    if headerLen ≠ payload.length then .error (invalid "ut_metadata request has trailing data")
    else .ok (.request piece)
  else if msgType = 1 then do
    let totalSize ← okOr (dictInt pairs (ascii "total_size"))
      (invalid "ut_metadata total_size missing")
    let totalSize ← okOr (u32TryFromI64 totalSize) (invalid "ut_metadata total_size out of range")
    .ok (.data piece totalSize (payload.drop headerLen))
  else if msgType = 2 then
    if headerLen ≠ payload.length then .error (invalid "ut_metadata reject has trailing data")
    else .ok (.reject piece)
  else .error (invalid s!"unknown ut_metadata msg_type {msgType}")

def UtMetadataMessage.parse (payload : Bytes) : Except WireError UtMetadataMessage := do
  let headerLen ← (bencodeValueLen payload).mapError invalid
  let header ← decodeExtensionBencode (payload.take headerLen)
  match header with
  | .dict pairs => UtMetadataMessage.ofHeader pairs headerLen payload
  | _ => .error (invalid "ut_metadata header must be a dict")

/-! ## Where a value stands encoded -/

theorem scanBytes_string {content : Bytes} {stop : Nat} (small : stop < 2 ^ 64)
    (read : Reads input pos (encodeString content) stop) : scanBytes input pos = .ok stop := by
  have allDigits := isDigit_of_mem_digits content.length
  obtain ⟨⟨after, suffix⟩, token, colon, _, stops⟩ := reads_string read
  have found : (input.drop pos).findIdx? (fun byte => !isDigit byte) =
      some (digits content.length).length := by
    rw [suffix]
    exact findIdx?_skip _ (fun byte member => by rw [allDigits byte member]; rfl) rfl
  unfold scanBytes
  rw [found]
  dsimp only
  rw [if_neg (not_not_intro colon), token, if_neg (decode_digits_ne_none allDigits),
    parseUnsigned_digits (by omega), bind_eq_ok]
  refine ⟨content.length, rfl, ?_⟩
  rw [string_end small read, bind_eq_ok]
  exact ⟨stop, rfl, if_neg (Nat.not_lt.mpr read.inside)⟩

theorem scanInt_encode {number : Int64} {stop : Nat}
    (read : Reads input pos (encode (.int number)) stop) : scanInt input pos = .ok stop := by
  obtain ⟨⟨after, suffix⟩, stops⟩ := reads_int read
  have noStop : ∀ byte ∈ signedDigits number, (byte == 101) = false := by
    intro byte member
    rw [beq_eq_false_iff_ne]
    exact ne_of_mem_of_not_mem member (end_not_mem_signedDigits number)
  unfold scanInt
  rw [suffix, findIdx?_skip _ noStop rfl]
  exact congrArg Except.ok stops

mutual

/-- Where a value stands encoded, the scanner ends behind it. -/
theorem scanValue_encode {value : BValue} {fuel depth pos stop : Nat}
    (enough : 2 * (input.length - pos) + 2 ≤ fuel) (small : stop < 2 ^ 64)
    (nested : depth + value.nesting ≤ maxScanDepth) (read : Reads input pos (encode value) stop) :
    scanValue input fuel depth pos = .ok stop := by
  obtain ⟨fuel, rfl⟩ : ∃ left, fuel = left + 1 := ⟨fuel - 1, by omega⟩
  rw [scanValue, if_neg (by omega)]
  cases value with
  | bytes content =>
    obtain ⟨first, rest, shape, digit⟩ := encodeString_head content
    have found : input[pos]? = some first := by
      rw [encode, shape] at read
      exact read.head.1
    have marker := ne_of_isDigit digit
    rw [found]
    dsimp only
    rw [if_neg (marker 105 rfl), if_neg (marker 108 rfl), if_neg (marker 100 rfl), if_pos digit,
      scanBytes_string small read]
    rfl
  | int number =>
    rw [read.head.1]
    dsimp only
    rw [if_pos rfl, scanInt_encode read]
    rfl
  | list items =>
    rw [encode, reads_cons] at read
    obtain ⟨opened, read⟩ := read
    have inside := (List.getElem?_eq_some_iff.mp opened).1
    rw [opened]
    exact scanItems_encode (by omega) small nested read
  | dict pairs =>
    rw [encode, reads_cons] at read
    obtain ⟨opened, read⟩ := read
    have inside := (List.getElem?_eq_some_iff.mp opened).1
    rw [opened]
    exact scanPairs_encode (by omega) small nested read

theorem scanItems_encode {items : List BValue} {fuel depth pos stop : Nat}
    (enough : 2 * (input.length - pos) + 3 ≤ fuel) (small : stop < 2 ^ 64)
    (nested : depth + nestingItems items ≤ maxScanDepth)
    (read : Reads input pos (encodeItems items ++ [101]) stop) :
    scanItems input fuel depth pos = .ok stop := by
  obtain ⟨fuel, rfl⟩ : ∃ left, fuel = left + 1 := ⟨fuel - 1, by omega⟩
  rw [scanItems]
  cases items with
  | nil =>
    obtain ⟨closed, rfl⟩ := reads_singleton.mp read
    rw [closed]
    exact if_pos rfl
  | cons item rest =>
    rw [nestingItems] at nested
    rw [encodeItems, append_assoc, reads_append] at read
    obtain ⟨middle, itemRead, restRead⟩ := read
    obtain ⟨first, found, open_, advanced⟩ := encode_starts item itemRead
    have inside := itemRead.inside
    have ordered := restRead.1
    rw [found]
    dsimp only
    rw [if_neg open_, bind_eq_ok]
    exact ⟨middle, scanValue_encode (by omega) (by omega) (by omega) itemRead,
      scanItems_encode (by omega) small (by omega) restRead⟩

theorem scanPairs_encode {pairs : Pairs}
    {fuel depth pos stop : Nat} (enough : 2 * (input.length - pos) + 3 ≤ fuel) (small : stop < 2 ^ 64)
    (nested : depth + nestingPairs pairs ≤ maxScanDepth)
    (read : Reads input pos (encodePairs pairs ++ [101]) stop) :
    scanPairs input fuel depth pos = .ok stop := by
  obtain ⟨fuel, rfl⟩ : ∃ left, fuel = left + 1 := ⟨fuel - 1, by omega⟩
  rw [scanPairs]
  match pairs with
  | [] =>
    obtain ⟨closed, rfl⟩ := reads_singleton.mp read
    rw [closed]
    exact if_pos rfl
  | (key, value) :: rest =>
    rw [nestingPairs] at nested
    rw [encodePairs, append_assoc, append_assoc, reads_append] at read
    obtain ⟨keyEnd, keyRead, read⟩ := read
    obtain ⟨middle, valueRead, restRead⟩ := reads_append.mp read
    obtain ⟨first, digits, shape, digit⟩ := encodeString_head key
    obtain ⟨found, keyAdvanced⟩ := (shape ▸ keyRead).head
    have open_ : first ≠ 101 := by
      rintro rfl
      cases digit
    have inside := valueRead.inside
    have advanced := valueRead.1
    have ordered := restRead.1
    rw [found]
    dsimp only
    rw [if_neg open_, if_pos digit, scanBytes_string (by omega) keyRead, bind_eq_ok]
    refine ⟨keyEnd, rfl, ?_⟩
    rw [bind_eq_ok]
    exact ⟨middle, scanValue_encode (by omega) (by omega) (by omega) valueRead,
      scanPairs_encode (by omega) small (by omega) restRead⟩

end

/-- The end of an encoding is found, whatever follows it. -/
theorem bencodeValueLen_encode (value : BValue) (nested : value.nesting ≤ maxScanDepth)
    (small : (encode value).length < 2 ^ 64) (tail : Bytes) :
    bencodeValueLen (encode value ++ tail) = .ok (encode value).length := by
  have read : Reads (encode value ++ tail) 0 (encode value) (encode value).length :=
    reads_iff_append.mpr ⟨[], tail, rfl, rfl, Nat.zero_add _⟩
  exact (complete_eq_ok _).mpr (scanValue_encode (by omega) small (by omega) read)

/-! ## What is written is read back -/

theorem u32TryFromI64_i64FromU32 (number : UInt32) : u32TryFromI64 (i64FromU32 number) = some number := by
  have below := number.toNat_lt
  have integer : (i64FromU32 number).toInt = (number.toNat : Int) :=
    Int64.toInt_ofInt_of_le (by omega) (by omega)
  rw [u32TryFromI64, integer, if_pos (by omega), Int.toNat_natCast, UInt32.ofNat_toNat]

theorem decodeExtensionBencode_encode {value : BValue} (sorted : value.Sorted)
    (nested : value.nesting ≤ 64) (strings : value.StringsWithin (16 * 1024 * 1024))
    (counted : value.nodeCount ≤ maxExtensionBencodeNodes) :
    decodeExtensionBencode (Bencode.encode value) = .ok value := by
  have few : value.nodeCount ≤ 16 * 1024 := counted
  have short := length_encode_le (16 * 1024 * 1024) (by decide) strings
  obtain ⟨left, decoded⟩ := decodeWithAllocationReservation_complete
    { input := Bencode.encode value, maxNodes := maxExtensionBencodeNodes }
    (fun _ budget => (true, budget)) (fun _ _ => rfl) () rfl
    (show (Bencode.encode value).length < 2 ^ 64 by omega)
    (show 16 * 1024 < 2 ^ 50 by decide) sorted
    ⟨nested, strings, counted⟩
  rw [decodeExtensionBencode, Decoder.decode, decoded]
  rfl

/-- The pairs of a header, in the order of their keys. -/
def headerPairs (msgType : Int64) (piece : UInt32) (totalSize : Option UInt32) :
    Pairs :=
  [(ascii "msg_type", .int msgType), (ascii "piece", .int (i64FromU32 piece))] ++
    totalSize.toList.map fun totalSize => (ascii "total_size", .int (i64FromU32 totalSize))

section

variable (msgType : Int64) (piece : UInt32) (totalSize : Option UInt32)

theorem metadataHeader_eq :
    metadataHeader msgType piece totalSize =
      Bencode.encode (.dict (headerPairs msgType piece totalSize)) := by
  cases totalSize with
  | none => rfl
  | some totalSize => rfl

theorem headerPairs_sorted : (BValue.dict (headerPairs msgType piece totalSize)).Sorted := by
  cases totalSize with
  | none =>
    have keys : [ascii "msg_type", ascii "piece"].Pairwise (· < ·) := by decide
    exact ⟨keys, trivial, trivial, trivial⟩
  | some totalSize =>
    have keys : [ascii "msg_type", ascii "piece", ascii "total_size"].Pairwise (· < ·) := by decide
    exact ⟨keys, trivial, trivial, trivial, trivial⟩

theorem headerPairs_within :
    (BValue.dict (headerPairs msgType piece totalSize)).StringsWithin (16 * 1024 * 1024) := by
  have keys : (ascii "msg_type").length ≤ 16 * 1024 * 1024 ∧
      (ascii "piece").length ≤ 16 * 1024 * 1024 ∧ (ascii "total_size").length ≤ 16 * 1024 * 1024 := by
    decide
  cases totalSize with
  | none => exact ⟨keys.1, trivial, keys.2.1, trivial, trivial⟩
  | some totalSize => exact ⟨keys.1, trivial, keys.2.1, trivial, keys.2.2, trivial, trivial⟩

theorem headerPairs_flat : (BValue.dict (headerPairs msgType piece totalSize)).nesting = 1 ∧
      (BValue.dict (headerPairs msgType piece totalSize)).nodeCount ≤ 4 := by
  cases totalSize with
  | none => exact ⟨rfl, Nat.le_succ 3⟩
  | some totalSize => exact ⟨rfl, Nat.le_refl 4⟩

/-- A header is found in front of any bytes, and decoded. -/
theorem parse_header (rest : Bytes) :
    UtMetadataMessage.parse (metadataHeader msgType piece totalSize ++ rest) =
      UtMetadataMessage.ofHeader (headerPairs msgType piece totalSize)
        (metadataHeader msgType piece totalSize).length
        (metadataHeader msgType piece totalSize ++ rest) := by
  have sorted := headerPairs_sorted msgType piece totalSize
  have within := headerPairs_within msgType piece totalSize
  obtain ⟨flat, few⟩ := headerPairs_flat msgType piece totalSize
  have short := length_encode_le (16 * 1024 * 1024) (by decide) within
  have found := bencodeValueLen_encode (.dict (headerPairs msgType piece totalSize))
    (show _ ≤ 64 by omega) (by omega) rest
  have decoded := decodeExtensionBencode_encode sorted (by omega) within
    (show _ ≤ 16 * 1024 by omega)
  rw [metadataHeader_eq, UtMetadataMessage.parse, found, Except.mapError, ok_bind, take_left,
    decoded, ok_bind]

end

/-- Every metadata message is read back from what is written, and the end of a value that the
decoder accepts is found in front of any bytes. -/
theorem metadata_round_trip :
    (∀ message : UtMetadataMessage, UtMetadataMessage.parse message.encode = .ok message) ∧
      ∀ (header tail : Bytes) (value : BValue), Bencode.decode header = .ok value →
        bencodeValueLen (header ++ tail) = .ok header.length := by
  constructor
  · intro message
    cases message with
    | request piece =>
      have parsed := parse_header 0 piece none []
      rw [List.append_nil] at parsed
      rw [UtMetadataMessage.encode, parsed, UtMetadataMessage.ofHeader]
      show (okOr (u32TryFromI64 (i64FromU32 piece)) _ >>= _) = _
      rw [u32TryFromI64_i64FromU32]
      exact if_neg (not_not_intro rfl)
    | data piece totalSize bytes =>
      rw [UtMetadataMessage.encode, parse_header, UtMetadataMessage.ofHeader]
      show (okOr (u32TryFromI64 (i64FromU32 piece)) _ >>= _) = _
      rw [u32TryFromI64_i64FromU32]
      show (okOr (u32TryFromI64 (i64FromU32 totalSize)) _ >>= _) = _
      rw [u32TryFromI64_i64FromU32, List.drop_left]
      rfl
    | reject piece =>
      have parsed := parse_header 2 piece none []
      rw [List.append_nil] at parsed
      rw [UtMetadataMessage.encode, parsed, UtMetadataMessage.ofHeader]
      show (okOr (u32TryFromI64 (i64FromU32 piece)) _ >>= _) = _
      rw [u32TryFromI64_i64FromU32]
      exact if_neg (not_not_intro rfl)
  · intro header tail value decoded
    obtain ⟨rfl, size⟩ := decode_size decoded
    exact bencodeValueLen_encode value ((decode_eq_ok_iff _ value).mp decoded).2.2.1 size tail

/-- A piece of metadata that starts like a value, and a string in front of a digit. -/
theorem metadata_read_back :
    UtMetadataMessage.parse (UtMetadataMessage.encode (.data 1 20000 [100, 101])) =
        .ok (.data 1 20000 [100, 101]) ∧
      bencodeValueLen ([49, 58, 97] ++ [49]) = .ok 3 := by
  refine ⟨metadata_round_trip.1 _, metadata_round_trip.2 [49, 58, 97] [49] (.bytes [97]) ?_⟩
  rw [decode_eq_ok_iff]
  exact ⟨by decide, trivial, by decide, show 1 ≤ 16 * 1024 * 1024 by decide, by decide⟩

end TorrentNG.PeerWire
