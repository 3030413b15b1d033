import TorrentNG.Decimal
import TorrentNG.MachineArithmetic
import TorrentNG.Reading
import TorrentNG.Utf8

/-!
# The bencode codec of `rt-bencode`

The encoder of `encode.rs` and the strict, limited decoder of `decode.rs`. The
decoder keeps a position in its input and a count of decoded nodes; before each
growth of a list or dictionary buffer it asks a callback for the bytes of the new
buffer. The callback carries its own state, so that a budget can be threaded
through the whole run.

Markers are ASCII bytes: `i` 105, `l` 108, `d` 100, `e` 101, `:` 58. A buffer is
its elements and its capacity; growth to a capacity the allocator can address is
taken to succeed with exactly that capacity.
-/

namespace TorrentNG.Bencode

open MachineArithmetic Decimal Fallible Reading

/-- A bencode value. Strings are byte strings. -/
inductive BValue where
  | bytes (content : Bytes)
  | int (number : Int64)
  | list (items : List BValue)
  | dict (pairs : List (Bytes × BValue))

/-- The entries of a dictionary, in the order of the input. -/
abbrev Pairs := List (Bytes × BValue)

def BValue.asBytes : BValue → Option Bytes
  | .bytes content => some content
  | _ => none

def BValue.asInt : BValue → Option Int64
  | .int number => some number
  | _ => none

def BValue.asStr (value : BValue) : Option Utf8.Text := value.asBytes.bind Utf8.decode

/-- The value of the first pair with the key. -/
def BValue.get (value : BValue) (key : Bytes) : Option BValue :=
  match value with
  | .dict pairs => (pairs.find? (fun pair => pair.1 == key)).map Prod.snd
  | _ => none

/-- A length-prefixed string. -/
def encodeString (content : Bytes) : Bytes := digits content.length ++ 58 :: content

mutual

/-- `encode_into` appends to a buffer what this function returns. -/
def encode : BValue → Bytes
  | .int number => 105 :: (signedDigits number ++ [101])
  | .bytes content => encodeString content
  | .list items => 108 :: (encodeItems items ++ [101])
  | .dict pairs => 100 :: (encodePairs pairs ++ [101])

def encodeItems : List BValue → Bytes
  | [] => []
  | item :: rest => encode item ++ encodeItems rest

def encodePairs : Pairs → Bytes
  | [] => []
  | (key, value) :: rest => encodeString key ++ (encode value ++ encodePairs rest)

end

mutual

/-- The values in a value, itself included; dictionary keys are not counted. -/
def BValue.nodeCount : BValue → Nat
  | .int _ => 1
  | .bytes _ => 1
  | .list items => 1 + nodeCountItems items
  | .dict pairs => 1 + nodeCountPairs pairs

def nodeCountItems : List BValue → Nat
  | [] => 0
  | item :: rest => item.nodeCount + nodeCountItems rest

def nodeCountPairs : Pairs → Nat
  | [] => 0
  | (_, value) :: rest => value.nodeCount + nodeCountPairs rest

end

mutual

/-- The depth of the deepest value below a value. -/
def BValue.nesting : BValue → Nat
  | .int _ => 0
  | .bytes _ => 0
  | .list items => nestingItems items
  | .dict pairs => nestingPairs pairs

def nestingItems : List BValue → Nat
  | [] => 0
  | item :: rest => max (item.nesting + 1) (nestingItems rest)

def nestingPairs : Pairs → Nat
  | [] => 0
  | (_, value) :: rest => max (value.nesting + 1) (nestingPairs rest)

end

mutual

/-- Every string and every key has at most the given length. -/
def BValue.StringsWithin (max : Nat) : BValue → Prop
  | .int _ => True
  | .bytes content => content.length ≤ max
  | .list items => StringsWithinItems max items
  | .dict pairs => StringsWithinPairs max pairs

def StringsWithinItems (max : Nat) : List BValue → Prop
  | [] => True
  | item :: rest => item.StringsWithin max ∧ StringsWithinItems max rest

def StringsWithinPairs (max : Nat) : Pairs → Prop
  | [] => True
  | (key, value) :: rest =>
      key.length ≤ max ∧ value.StringsWithin max ∧ StringsWithinPairs max rest

end

mutual

/-- The keys of every dictionary strictly increase. -/
def BValue.Sorted : BValue → Prop
  | .int _ => True
  | .bytes _ => True
  | .list items => SortedItems items
  | .dict pairs => (pairs.map Prod.fst).Pairwise (· < ·) ∧ SortedPairs pairs

def SortedItems : List BValue → Prop
  | [] => True
  | item :: rest => item.Sorted ∧ SortedItems rest

def SortedPairs : Pairs → Prop
  | [] => True
  | (_, value) :: rest => value.Sorted ∧ SortedPairs rest

end

inductive BencodeError where
  | unexpectedEof
  | invalidInteger (message : String)
  | invalidStringLength (message : String)
  | stringTooLong (length max : Nat)
  | depthExceeded (max : Nat)
  | nodeLimitExceeded (nodes max : Nat)
  | allocationBudgetExceeded (bytes : Nat)
  | allocationFailed
  | unsortedDictKeys
  | unexpectedByte (byte : UInt8) (offset : Nat)
  | trailingData
deriving Repr, DecidableEq

/-- `i64::MIN` is the longest decimal `i64`. -/
def maxIntegerTokenBytes : Nat := 20

/-- `usize::BITS` bounds the digits of any `usize`. -/
def maxLengthPrefixDigits : Nat := 64

/-- The fixed part of a decoder: its input and limits. -/
structure Decoder where
  input : Bytes
  maxDepth : Nat := 64
  maxString : Nat := 16 * 1024 * 1024
  maxNodes : Nat := 1000000
  strictDictKeys : Bool := true

/-- The moving part: position, nodes so far, and the state of the callback. -/
structure Cursor (σ : Type) where
  pos : Nat
  nodes : Nat
  budget : σ

namespace Decoder

variable (decoder : Decoder) (pos : Nat)

def peek : Except BencodeError UInt8 :=
  okOr decoder.input[pos]? .unexpectedEof

/-- Consume one byte that must be the expected one. -/
def expect (expected : UInt8) (pos : Nat) : Except BencodeError Nat := do
  let byte ← decoder.peek pos
  if byte ≠ expected then .error (.unexpectedByte byte pos) else .ok (pos + 1)

/-- The scanning loop of `decode_int` and `decode_length`: advance to the stop
byte, over at most `left` bytes, none of which is refused. -/
def scanToken (decoder : Decoder) (stop : UInt8) (tooLong : BencodeError)
    (refuse : UInt8 → Option (Nat → BencodeError)) : Nat → Nat → Except BencodeError Nat
  | left, pos => do
      let byte ← decoder.peek pos
      if byte = stop then .ok pos
      else
        match left with
        | 0 => .error tooLong
        | left + 1 =>
            match refuse byte with
            | some refusal => .error (refusal pos)
            | none =>
                if pos + 1 ≥ decoder.input.length then .error .unexpectedEof
                else scanToken decoder stop tooLong refuse left (pos + 1)

/-- The token checks of `decode_int` and `parse::<i64>`. -/
def integerOf (token : Bytes) : Except BencodeError Int64 :=
  if Utf8.decode token = none then .error (.invalidInteger "non-ASCII integer token")
  else if token = [45, 48] then .error (.invalidInteger "-0")
  else if token.head? = some 43 then .error (.invalidInteger "leading plus")
  else if 1 < token.length ∧ token.head? = some 48 then .error (.invalidInteger "leading zero")
  else if 2 < token.length ∧ token.take 2 = [45, 48] then
    .error (.invalidInteger "leading zero")
  else (parseSigned token).mapError fun _ => .invalidInteger "integer outside i64 range"

def decodeInt : Except BencodeError (Int64 × Nat) := do
  let start ← decoder.expect 105 pos
  let stop ← decoder.scanToken 101 (.invalidInteger "integer token exceeds i64 width")
    (fun _ => none) maxIntegerTokenBytes start
  let after ← decoder.expect 101 stop
  let number ← integerOf (slice decoder.input start stop)
  .ok (number, after)

/-- Format `{:#04x}`: two hexadecimal digits after `0x`. -/
def hexByte (byte : UInt8) : String :=
  String.ofList ['0', 'x', Nat.digitChar (byte.toNat / 16), Nat.digitChar (byte.toNat % 16)]

/-- The text of an error. -/
def errorMessage : BencodeError → String
  | .unexpectedEof => "unexpected end of input"
  | .invalidInteger problem => s!"invalid integer: {problem}"
  | .invalidStringLength problem => s!"invalid string length: {problem}"
  | .stringTooLong length max => s!"string too long: {length} > max {max}"
  | .depthExceeded max => s!"recursion depth exceeded: {max}"
  | .nodeLimitExceeded nodes max => s!"node limit exceeded: {nodes} > max {max}"
  | .allocationBudgetExceeded bytes => s!"bencode allocation budget denied for {bytes} bytes"
  | .allocationFailed => "bencode allocation failed"
  | .unsortedDictKeys => "unsorted dictionary keys"
  | .unexpectedByte byte offset => "unexpected byte " ++ hexByte byte ++ s!" at offset {offset}"
  | .trailingData => "trailing data after value"

def refuseNonDigit (byte : UInt8) : Option (Nat → BencodeError) :=
  if isDigit byte then none
  else some fun pos =>
    .invalidStringLength ("non-digit " ++ hexByte byte ++ " at " ++ toString pos)

/-- The token checks of `decode_length` and `parse::<usize>`. -/
def lengthOf (token : Bytes) : Except BencodeError Nat :=
  if Utf8.decode token = none then .error (.invalidStringLength "utf8")
  else if 1 < token.length ∧ token.head? = some 48 then
    .error (.invalidStringLength "leading zero")
  else (parseUnsigned token).mapError fun problem => .invalidStringLength problem.message

def decodeLength : Except BencodeError (Nat × Nat) := do
  let stop ← decoder.scanToken 58 (.invalidStringLength "length prefix exceeds usize width")
    refuseNonDigit maxLengthPrefixDigits pos
  let length ← lengthOf (slice decoder.input pos stop)
  let after ← decoder.expect 58 stop
  .ok (length, after)

/-- The content of the decoded `BValue::Bytes`, which is all a dictionary key needs. -/
def decodeBytes : Except BencodeError (Bytes × Nat) := do
  let (length, start) ← decoder.decodeLength pos
  if length > decoder.maxString then .error (.stringTooLong length decoder.maxString)
  else
    let stop ← okOr (checkedAdd start length) .unexpectedEof
    if stop > decoder.input.length then .error .unexpectedEof
    else .ok (slice decoder.input start stop, stop)

end Decoder

/-- `size_of::<BValue>()` on a 64-bit target: a tag and a `Vec`. -/
def valueBytes : Nat := 32

/-- `size_of::<(&[u8], BValue)>()` on a 64-bit target. -/
def pairBytes : Nat := 48

/-- The largest allocation, `isize::MAX` bytes. -/
def maxAllocation : Nat := 2 ^ 63 - 1

section Allocation
variable {σ : Type}

/-- A callback that grants or denies a number of bytes, with a state of its own. -/
abbrev Reservation (σ : Type) := Nat → σ → Bool × σ

/-- The capacity after making room for one more element, asking `reserve` for the
bytes of a new buffer. -/
def reserveVecGrowth (reserve : Reservation σ) (elementBytes length capacity : Nat)
    (budget : σ) : Except BencodeError (Nat × σ) :=
  if length < capacity then .ok (capacity, budget)
  else do
    let minCapacity ← okOr (checkedAdd length 1) .allocationFailed
    let newCapacity := max (saturatingMul capacity 2) minCapacity
    let targetBytes ← okOr (checkedMul newCapacity elementBytes) .allocationFailed
    let (granted, budget) :=
      if targetBytes > 0 then reserve targetBytes budget else (true, budget)
    if granted = false then .error (.allocationBudgetExceeded targetBytes)
    else
      let _additional ← okOr (checkedSub newCapacity length) .allocationFailed
      if targetBytes > maxAllocation then .error .allocationFailed
      else .ok (newCapacity, budget)

namespace Decoder

variable (decoder : Decoder)

/-- The depth and node checks at the head of `decode_value`. -/
def enter (depth : Nat) (cursor : Cursor σ) :
    Except BencodeError (Cursor σ) :=
  if depth > decoder.maxDepth then .error (.depthExceeded decoder.maxDepth)
  else do
    let nodes ← okOr (checkedAdd cursor.nodes 1) (.nodeLimitExceeded (2 ^ 64 - 1) decoder.maxNodes)
    if nodes > decoder.maxNodes then .error (.nodeLimitExceeded nodes decoder.maxNodes)
    else .ok { cursor with nodes := nodes }

/-- The order check of a dictionary key against the one before it. -/
def orderKey (lastKey : Option Bytes) (key : Bytes) :
    Except BencodeError Unit :=
  match lastKey with
  | some previous =>
      if decoder.strictDictKeys ∧ key ≤ previous then .error .unsortedDictKeys else .ok ()
  | none => .ok ()

/-- `decode_list` and `decode_dict`: an opening byte, a loop that stops in front of
`e`, and that `e`. -/
def enclosed {α : Type} (opening : UInt8)
    (loop : Cursor σ → Except (Stop BencodeError) (α × Cursor σ)) (cursor : Cursor σ) :
    Except (Stop BencodeError) (α × Cursor σ) := do
  let inner ← lift (decoder.expect opening cursor.pos)
  let (content, cursor) ← loop { cursor with pos := inner }
  let after ← lift (decoder.expect 101 cursor.pos)
  .ok (content, { cursor with pos := after })

mutual

def decodeValue (decoder : Decoder) (reserve : Reservation σ) :
    Nat → Nat → Cursor σ → Except (Stop BencodeError) (BValue × Cursor σ)
  | 0, _, _ => .error .exhausted
  | fuel + 1, depth, cursor => do
      let cursor ← lift (decoder.enter depth cursor)
      let byte ← lift (decoder.peek cursor.pos)
      if byte = 105 then
        let (number, pos) ← lift (decoder.decodeInt cursor.pos)
        .ok (.int number, { cursor with pos := pos })
      else if byte = 108 then
        let (items, cursor) ← decoder.enclosed 108
          (fun cursor => decodeItems decoder reserve fuel depth cursor [] 0) cursor
        .ok (.list items, cursor)
      else if byte = 100 then
        let (pairs, cursor) ← decoder.enclosed 100
          (fun cursor => decodePairs decoder reserve fuel depth cursor [] none 0) cursor
        .ok (.dict pairs, cursor)
      else if isDigit byte then
        let (content, pos) ← lift (decoder.decodeBytes cursor.pos)
        .ok (.bytes content, { cursor with pos := pos })
      else .error (.failed (.unexpectedByte byte cursor.pos))

/-- The loop of `decode_list`. -/
def decodeItems (decoder : Decoder) (reserve : Reservation σ) :
    Nat → Nat → Cursor σ → List BValue → Nat →
      Except (Stop BencodeError) (List BValue × Cursor σ)
  | 0, _, _, _, _ => .error .exhausted
  | fuel + 1, depth, cursor, items, capacity => do
      let byte ← lift (decoder.peek cursor.pos)
      if byte = 101 then .ok (items, cursor)
      else
        let (capacity, budget) ← lift
          (reserveVecGrowth reserve valueBytes items.length capacity cursor.budget)
        let (item, cursor) ← decodeValue decoder reserve fuel (depth + 1)
          { cursor with budget := budget }
        decodeItems decoder reserve fuel depth cursor (items ++ [item]) capacity

/-- The loop of `decode_dict`. -/
def decodePairs (decoder : Decoder) (reserve : Reservation σ) :
    Nat → Nat → Cursor σ → Pairs → Option Bytes → Nat →
      Except (Stop BencodeError) (Pairs × Cursor σ)
  | 0, _, _, _, _, _ => .error .exhausted
  | fuel + 1, depth, cursor, pairs, lastKey, capacity => do
      let byte ← lift (decoder.peek cursor.pos)
      if byte = 101 then .ok (pairs, cursor)
      else
        let (key, pos) ← lift (decoder.decodeBytes cursor.pos)
        let _ ← lift (decoder.orderKey lastKey key)
        let (capacity, budget) ← lift
          (reserveVecGrowth reserve pairBytes pairs.length capacity cursor.budget)
        let (value, cursor) ← decodeValue decoder reserve fuel (depth + 1)
          { cursor with pos := pos, budget := budget }
        decodePairs decoder reserve fuel depth cursor (pairs ++ [(key, value)]) (some key) capacity

end

/-- Each level of nesting and each element consumes a byte, so twice the input
bounds the recursion. -/
def enoughFuel : Nat := 2 * decoder.input.length + 2

end Decoder

end Allocation

end TorrentNG.Bencode
