import TorrentNG.FixedWidth
import TorrentNG.Metainfo

/-!
# Peer messages of `rt-peer-wire`

The messages two peers exchange, their encoded length, their encoder and their parser,
with the texts of the parser's errors. A frame is a 32-bit big-endian length and that
many bytes of payload; `Message.payload` states the payload of each message once, and
each of the three functions of the source is compared with it.

The capacity the encoder reserves in its buffer does not show in what it writes and is
left out.
-/

namespace TorrentNG.PeerWire

open Fallible FixedWidth List MachineArithmetic Metainfo Option

/-- `MAX_MESSAGE_LEN`. -/
def maxMessageLen : Nat := 2 * 1024 * 1024

/-- `MAX_BLOCK_SIZE`. -/
def maxBlockSize : Nat := 16 * 1024

/-- `HASH_EXCHANGE_HEADER_LEN`, without the message id. -/
def hashExchangeHeaderLen : Nat := 32 + 4 * 4

inductive WireError where
  | protocolMismatch
  | infohashMismatch
  | messageTooLarge (length : UInt32)
  | peerBufferAllocationDenied (bytes : Nat)
  | peerBufferLengthOverflow
  | unknownMessageId (id : UInt8)
  | invalidMessage (problem : String)
  | io (problem : String)
deriving DecidableEq

inductive Message where
  | keepAlive
  | choke
  | unchoke
  | interested
  | notInterested
  /-- `Have`. -/
  | havePiece (piece : UInt32)
  | bitfield (bits : Bytes)
  | request (piece begin length : UInt32)
  | piece (piece begin : UInt32) (data : Bytes)
  | cancel (piece begin length : UInt32)
  | reject (piece begin length : UInt32)
  | allowedFast (piece : UInt32)
  | haveAll
  | haveNone
  | extended (extId : UInt8) (payload : Bytes)
  | hashRequest (piecesRoot : Digest 32) (baseLayer index length proofLayers : UInt32)
  | hashes (piecesRoot : Digest 32) (baseLayer index length proofLayers : UInt32)
      (hashes : List (Digest 32))
  | hashReject (piecesRoot : Digest 32) (baseLayer index length proofLayers : UInt32)
deriving DecidableEq

namespace Message

/-- The length of the frame with its prefix; `none` when no legal frame carries it. -/
def encodedLen (message : Message) : Option Nat := do
  let messageLen ← match message with
    | .keepAlive => some 0
    | .choke | .unchoke | .interested | .notInterested | .haveAll | .haveNone => some 1
    | .havePiece _ | .allowedFast _ => some 5
    | .bitfield bits => checkedAdd 1 bits.length
    | .request _ _ _ | .cancel _ _ _ | .reject _ _ _ => some 13
    | .piece _ _ data => checkedAdd 9 data.length
    | .extended _ payload => checkedAdd 2 payload.length
    | .hashRequest _ _ _ _ _ | .hashReject _ _ _ _ _ => checkedAdd 1 hashExchangeHeaderLen
    | .hashes _ _ _ _ _ hashList => do
        let header ← checkedAdd 1 hashExchangeHeaderLen
        let hashesLen ← checkedMul hashList.length 32
        checkedAdd header hashesLen
  if messageLen > maxMessageLen then none else checkedAdd 4 messageLen

end Message

variable (dst : Bytes)

/-- `BufMut::put_u32` of a length cast to 32 bits. -/
def putLength (length : Nat) : Bytes := dst ++ be32 (UInt32.ofNat length)

def putFixed (id : UInt8) (body : Bytes) : Bytes :=
  putLength dst (1 + body.length) ++ [id] ++ body

structure HashExchangeHeader where
  piecesRoot : Digest 32
  baseLayer : UInt32
  index : UInt32
  length : UInt32
  proofLayers : UInt32

def putHashExchange (id : UInt8) (header : HashExchangeHeader)
    (hashes : Bytes) : Bytes :=
  putLength dst (1 + hashExchangeHeaderLen + hashes.length) ++ [id] ++ header.piecesRoot.val
    ++ be32 header.baseLayer ++ be32 header.index ++ be32 header.length
    ++ be32 header.proofLayers ++ hashes

def encode3u32 (first second third : UInt32) : Bytes :=
  be32 first ++ be32 second ++ be32 third

namespace Message

/-- Append the frame of a message to a buffer. -/
def encodeInto (message : Message) (dst : Bytes) : Except WireError Bytes := do
  let _ ← okOr message.encodedLen (.messageTooLarge (UInt32.ofNat (2 ^ 32 - 1)))
  .ok <| match message with
  | .keepAlive => dst ++ be32 0
  | .choke => putFixed dst 0 []
  | .unchoke => putFixed dst 1 []
  | .interested => putFixed dst 2 []
  | .notInterested => putFixed dst 3 []
  | .havePiece index => putFixed dst 4 (be32 index)
  | .allowedFast index => putFixed dst 17 (be32 index)
  | .bitfield bits => putLength dst (1 + bits.length) ++ [5] ++ bits
  | .request index begin length => putFixed dst 6 (encode3u32 index begin length)
  | .piece index begin data =>
      putLength dst (1 + 4 + 4 + data.length) ++ [7] ++ be32 index ++ be32 begin ++ data
  | .cancel index begin length => putFixed dst 8 (encode3u32 index begin length)
  | .reject index begin length => putFixed dst 16 (encode3u32 index begin length)
  | .haveAll => putFixed dst 14 []
  | .haveNone => putFixed dst 15 []
  | .extended extId payload => putLength dst (1 + 1 + payload.length) ++ [20] ++ [extId] ++ payload
  | .hashRequest piecesRoot baseLayer index length proofLayers =>
      putHashExchange dst 21 { piecesRoot, baseLayer, index, length, proofLayers } []
  | .hashes piecesRoot baseLayer index length proofLayers hashList =>
      let hashesLen := saturatingMul hashList.length 32
      putLength dst (1 + hashExchangeHeaderLen + hashesLen) ++ [22] ++ piecesRoot.val
        ++ be32 baseLayer ++ be32 index ++ be32 length ++ be32 proofLayers
        ++ hashList.flatMap Subtype.val
  | .hashReject piecesRoot baseLayer index length proofLayers =>
      putHashExchange dst 23 { piecesRoot, baseLayer, index, length, proofLayers } []

def tryEncode (message : Message) : Except WireError Bytes := do
  let _ ← okOr message.encodedLen (.messageTooLarge (UInt32.ofNat (2 ^ 32 - 1)))
  message.encodeInto []

end Message

variable (body : Bytes)

def expectLen (expected : Nat) (name : String) : Except WireError Unit :=
  let got := body.length
  if got ≠ expected then
    .error (.invalidMessage s!"{name} expected {expected} body bytes, got {got}")
  else .ok ()

def parse3u32 : UInt32 × UInt32 × UInt32 :=
  (be32At body 0, be32At body 4, be32At body 8)

def validateRequest (length : UInt32) : Except WireError Unit :=
  if length = 0 ∨ maxBlockSize < length.toNat then
    .error (.invalidMessage s!"request length {length} not in 1..={maxBlockSize}")
  else .ok ()

/-- The header a hash message starts with. -/
def readHeader (full : (body.take 32).length = 32) : HashExchangeHeader where
  piecesRoot := ⟨body.take 32, full⟩
  baseLayer := be32At body 32
  index := be32At body 36
  length := be32At body 40
  proofLayers := be32At body 44

/-- The header and the hashes of a hash message. The slices of the source lie within
the body by the first check. -/
def parseHashExchange (withHashes : Bool) :
    Except WireError (HashExchangeHeader × List (Digest 32)) :=
  let got := body.length
  if short : body.length < hashExchangeHeaderLen then
    .error (.invalidMessage
      s!"BEP 52 hash message expected at least {hashExchangeHeaderLen} body bytes, got {got}")
  else if withHashes = false ∧ body.length ≠ hashExchangeHeaderLen then
    .error (.invalidMessage
      s!"BEP 52 hash request/reject expected {hashExchangeHeaderLen} body bytes, got {got}")
  else
    let hashBytes := body.drop hashExchangeHeaderLen
    if hashBytes.length % 32 ≠ 0 then
      .error (.invalidMessage "BEP 52 hashes payload is not a multiple of 32 bytes")
    else
      have full : (body.take 32).length = 32 := by
        simp only [hashExchangeHeaderLen] at short
        rw [List.length_take]
        omega
      .ok (readHeader body full, splitDigests 32 (hashBytes.length / 32) hashBytes)

/-- Read a message from the payload of a frame; an empty payload keeps the peer alive. -/
def Message.parse : Bytes → Except WireError Message
  | [] => .ok .keepAlive
  | id :: body =>
    match id with
    | 0 => do expectLen body 0 "Choke"; .ok .choke
    | 1 => do expectLen body 0 "Unchoke"; .ok .unchoke
    | 2 => do expectLen body 0 "Interested"; .ok .interested
    | 3 => do expectLen body 0 "NotInterested"; .ok .notInterested
    | 4 => do expectLen body 4 "Have"; .ok (.havePiece (be32At body 0))
    | 5 => .ok (.bitfield body)
    | 6 => do
        expectLen body 12 "Request"
        let (index, begin, length) := parse3u32 body
        validateRequest length
        .ok (.request index begin length)
    | 7 =>
        if body.length < 8 then .error (.invalidMessage "Piece body too short")
        else
          let index := be32At body 0
          let begin := be32At body 4
          let dataLen := body.length - 8
          -- the source compares the length cast to 32 bits
          if dataLen % 2 ^ 32 > maxBlockSize then
            .error (.invalidMessage
              s!"Piece block {dataLen} bytes exceeds MAX_BLOCK_SIZE {maxBlockSize}")
          else .ok (.piece index begin (body.drop 8))
    | 8 => do
        expectLen body 12 "Cancel"
        let (index, begin, length) := parse3u32 body
        .ok (.cancel index begin length)
    | 16 => do
        expectLen body 12 "Reject"
        let (index, begin, length) := parse3u32 body
        validateRequest length
        .ok (.reject index begin length)
    | 17 => do expectLen body 4 "AllowedFast"; .ok (.allowedFast (be32At body 0))
    | 14 => do expectLen body 0 "HaveAll"; .ok .haveAll
    | 15 => do expectLen body 0 "HaveNone"; .ok .haveNone
    | 20 =>
        match body with
        | [] => .error (.invalidMessage "Extended body missing extension id")
        | extId :: payload => .ok (.extended extId payload)
    | 21 => do
        let (header, _) ← parseHashExchange body false
        .ok (.hashRequest header.piecesRoot header.baseLayer header.index header.length
          header.proofLayers)
    | 22 => do
        let (header, hashList) ← parseHashExchange body true
        .ok (.hashes header.piecesRoot header.baseLayer header.index header.length
          header.proofLayers hashList)
    | 23 => do
        let (header, _) ← parseHashExchange body false
        .ok (.hashReject header.piecesRoot header.baseLayer header.index header.length
          header.proofLayers)
    | id => .error (.unknownMessageId id)

/-! ## The grammar -/

variable (header : HashExchangeHeader)

/-- The bytes of a hash exchange header. -/
def HashExchangeHeader.bytes : Bytes :=
  header.piecesRoot.val ++ be32 header.baseLayer ++ be32 header.index ++ be32 header.length
    ++ be32 header.proofLayers

/-- The payload that stands for a message, written out for each kind of message. -/
def Message.payload : Message → Bytes
  | .keepAlive => []
  | .choke => [0]
  | .unchoke => [1]
  | .interested => [2]
  | .notInterested => [3]
  | .havePiece index => 4 :: be32 index
  | .bitfield bits => 5 :: bits
  | .request index begin length => 6 :: encode3u32 index begin length
  | .piece index begin data => 7 :: (be32 index ++ be32 begin ++ data)
  | .cancel index begin length => 8 :: encode3u32 index begin length
  | .reject index begin length => 16 :: encode3u32 index begin length
  | .allowedFast index => 17 :: be32 index
  | .haveAll => [14]
  | .haveNone => [15]
  | .extended extId payload => 20 :: extId :: payload
  | .hashRequest piecesRoot baseLayer index length proofLayers =>
      21 :: HashExchangeHeader.bytes { piecesRoot, baseLayer, index, length, proofLayers }
  | .hashes piecesRoot baseLayer index length proofLayers hashList =>
      22 :: (HashExchangeHeader.bytes { piecesRoot, baseLayer, index, length, proofLayers }
        ++ hashList.flatMap Subtype.val)
  | .hashReject piecesRoot baseLayer index length proofLayers =>
      23 :: HashExchangeHeader.bytes { piecesRoot, baseLayer, index, length, proofLayers }

/-- A payload behind its length. -/
def frame (payload : Bytes) : Bytes := be32 (UInt32.ofNat payload.length) ++ payload

/-- The limits the parser puts on blocks. A cancelled block has none: its length is
taken as it comes. -/
def Message.WithinBlockLimits : Message → Prop
  | .request _ _ length | .reject _ _ length => 1 ≤ length.toNat ∧ length.toNat ≤ maxBlockSize
  | .piece _ _ data => data.length ≤ maxBlockSize
  | _ => True

instance (message : Message) : Decidable message.WithinBlockLimits := by
  cases message <;> unfold Message.WithinBlockLimits <;> infer_instance

@[simp] theorem length_encode3u32 (first second third : UInt32) :
    (encode3u32 first second third).length = 12 := by
  rw [encode3u32, length_append, length_append]
  simp only [length_be32]

open Message

@[simp] theorem HashExchangeHeader.length_bytes :
    header.bytes.length = hashExchangeHeaderLen := by
  simp only [HashExchangeHeader.bytes, length_append, length_be32, header.piecesRoot.property,
    hashExchangeHeaderLen]

/-- A length within the frame limit never leaves 64 bits, so the checks of the length
come down to the limit. -/
theorem bounded_frame (fixed free : Nat) :
    (checkedAdd fixed free >>= fun messageLen =>
        if messageLen > maxMessageLen then none else checkedAdd 4 messageLen) =
      if fixed + free ≤ maxMessageLen then some (4 + (fixed + free)) else none := by
  have limit : maxMessageLen = 2 * 1024 * 1024 := rfl
  by_cases inside : fixed + free ≤ maxMessageLen
  · rw [checkedAdd_of_lt (by omega), if_pos inside, bind_eq_bind, bind_some,
      if_neg (Nat.not_lt.mpr inside), checkedAdd_of_lt (by omega)]
  · rw [if_neg inside, bind_eq_bind, bind_eq_none_iff]
    intro messageLen added
    obtain ⟨rfl, _⟩ := checkedAdd_eq_some.mp added
    exact if_pos (Nat.lt_of_not_le inside)

theorem encodedLen_eq (message : Message) :
    message.encodedLen =
      if message.payload.length ≤ maxMessageLen then some (4 + message.payload.length) else none := by
  cases message with
  | bitfield bits =>
    rw [encodedLen, bounded_frame, payload, length_cons, Nat.add_comm bits.length]
  | piece index begin data =>
    rw [encodedLen, bounded_frame, payload, length_cons,
      length_append, length_append, length_be32, length_be32,
      show 4 + 4 + data.length + 1 = 9 + data.length by omega]
  | extended extId payload =>
    rw [encodedLen, bounded_frame, Message.payload, length_cons,
      length_cons, show payload.length + 1 + 1 = 2 + payload.length by omega]
  | hashes piecesRoot baseLayer index length proofLayers hashList =>
    have size : (Message.hashes piecesRoot baseLayer index length proofLayers hashList).payload.length
        = 49 + hashList.length * 32 := by
      rw [payload, length_cons, length_append, HashExchangeHeader.length_bytes,
        length_flatMap_digests]
      simp only [hashExchangeHeaderLen]
      omega
    rw [size, ← bounded_frame]
    by_cases fits : hashList.length * 32 < 2 ^ 64
    · simp only [encodedLen, hashExchangeHeaderLen, checkedMul_of_lt fits,
        checkedAdd_of_lt (show 1 + (32 + 4 * 4) < 2 ^ 64 by decide), bind_eq_bind,
        bind_some]
    · have overflow : checkedMul hashList.length 32 = none := if_neg fits
      have tooLong : checkedAdd 49 (hashList.length * 32) = none := if_neg (by omega)
      rw [tooLong]
      simp [encodedLen, overflow]
  | keepAlive | choke | unchoke | interested | notInterested | haveAll | haveNone => rfl
  | havePiece | request | cancel | reject | allowedFast =>
    simp [encodedLen, payload, maxMessageLen, checkedAdd]
  | hashRequest | hashReject =>
    simp [encodedLen, payload, maxMessageLen, checkedAdd, hashExchangeHeaderLen]

theorem putLength_append {payload : Bytes} {length : Nat} (same : payload.length = length) :
    putLength dst length ++ payload = dst ++ frame payload := by
  rw [putLength, frame, same, append_assoc]

theorem putFixed_eq (id : UInt8) :
    putFixed dst id body = dst ++ frame (id :: body) := by
  rw [putFixed, append_assoc]
  exact putLength_append dst (Nat.add_comm body.length 1)

theorem putHashExchange_eq (hashes : Bytes) (id : UInt8) (header : HashExchangeHeader) :
    putHashExchange dst id header hashes = dst ++ frame (id :: (header.bytes ++ hashes)) := by
  have length : (id :: (header.bytes ++ hashes)).length = 1 + hashExchangeHeaderLen + hashes.length := by
    rw [length_cons, length_append, HashExchangeHeader.length_bytes]
    omega
  rw [← putLength_append dst length]
  simp only [putHashExchange, HashExchangeHeader.bytes, append_assoc, cons_append, nil_append]

/-- The encoder appends the frame of the message's payload. -/
theorem encodeInto_eq {message : Message}
    (small : message.payload.length ≤ maxMessageLen) :
    message.encodeInto dst = .ok (dst ++ frame message.payload) := by
  have length := encodedLen_eq message
  rw [if_pos small] at length
  simp only [encodeInto, length, okOr, bind, Except.bind]
  congr 1
  cases message with
  | keepAlive => rfl
  | bitfield bits => exact putFixed_eq dst bits 5
  | piece index begin data =>
    rw [payload, ← putFixed_eq]
    simp only [putFixed, append_assoc, length_append, length_be32, Nat.add_assoc]
  | extended extId payload =>
    rw [Message.payload, ← putFixed_eq]
    simp only [putFixed, append_assoc, length_cons, cons_append, nil_append]
    rw [Nat.add_assoc, Nat.add_comm 1 payload.length]
  | hashes piecesRoot baseLayer index length proofLayers hashList =>
    -- below the frame limit the multiplication does not saturate
    have exact : saturatingMul hashList.length 32 = (hashList.flatMap Subtype.val).length := by
      have limit : maxMessageLen = 2 * 1024 * 1024 := rfl
      rw [payload, length_cons, length_append, length_flatMap_digests] at small
      rw [length_flatMap_digests, saturatingMul]
      omega
    simp only [payload, ← putHashExchange_eq, exact, putHashExchange]
  | hashRequest | hashReject =>
    simp only [putHashExchange_eq, append_nil, payload]
  | _ => exact putFixed_eq dst _ _

/-! ## Reading a payload -/

theorem expectLen_bind (expected : Nat) (name : String)
    (next : Except WireError Message) (message : Message) :
    (expectLen body expected name >>= fun _ => next) = .ok message ↔
      body.length = expected ∧ next = .ok message :=
  check_bind_eq_ok.trans (and_congr_left' not_not)

theorem validateRequest_bind (length : UInt32) (next : Except WireError Message)
    (message : Message) : (validateRequest length >>= fun _ => next) = .ok message ↔
      (1 ≤ length.toNat ∧ length.toNat ≤ maxBlockSize) ∧ next = .ok message := by
  have zero : length = 0 ↔ length.toNat = 0 := UInt32.toNat_inj.symm
  rw [validateRequest, check_bind_eq_ok, zero]
  exact and_congr_left' (by omega)

variable {body : Bytes}

theorem be32_be32At (four : body.length = 4) : body = be32 (be32At body 0) := by
  have cut := drop_eq_be32At body 0 (by omega)
  rw [drop_of_length_le (i := 0 + 4) (by omega), append_nil] at cut
  exact cut

theorem parse3u32_encode3u32 (first second third : UInt32) :
    parse3u32 (encode3u32 first second third) = (first, second, third) :=
  Prod.ext (ofBe32_be32 first) (Prod.ext (ofBe32_be32 second) (ofBe32_be32 third))

theorem pieceBody_eq (long : 8 ≤ body.length) :
    body = be32 (be32At body 0) ++ be32 (be32At body 4) ++ body.drop 8 := by
  have first := drop_eq_be32At body 0 (by omega)
  have second := drop_eq_be32At body 4 (by omega)
  rw [second, ← append_assoc] at first
  exact first

theorem eq_encode3u32 (twelve : body.length = 12) :
    body = encode3u32 (be32At body 0) (be32At body 4) (be32At body 8) := by
  have third := drop_eq_be32At body 8 (by omega)
  rw [drop_of_length_le (i := 8 + 4) (by omega), append_nil] at third
  rw [encode3u32, ← third]
  exact pieceBody_eq (by omega)

theorem bytes_readHeader (full : (body.take 32).length = 32)
    (long : hashExchangeHeaderLen ≤ body.length) :
    (readHeader body full).bytes ++ body.drop hashExchangeHeaderLen = body := by
  simp only [hashExchangeHeaderLen] at long ⊢
  have baseLayer := drop_eq_be32At body 32 (by omega)
  have index := drop_eq_be32At body 36 (by omega)
  have length := drop_eq_be32At body 40 (by omega)
  have proofLayers := drop_eq_be32At body 44 (by omega)
  simp only [HashExchangeHeader.bytes, readHeader, append_assoc]
  rw [← proofLayers, ← length, ← index, ← baseLayer, take_append_drop]

theorem readHeader_bytes (rest : Bytes)
    (full : ((header.bytes ++ rest).take 32).length = 32) :
    readHeader (header.bytes ++ rest) full = header := by
  obtain ⟨⟨root, wide⟩, baseLayer, index, length, proofLayers⟩ := header
  simp only [HashExchangeHeader.bytes, append_assoc, readHeader,
    HashExchangeHeader.mk.injEq] at full ⊢
  have behind (tail : Bytes) (offset : Nat) :
      be32At (root ++ tail) (32 + offset) = be32At tail offset := by
    rw [be32At, ← drop_drop, drop_left' wide, be32At]
  exact ⟨Subtype.ext (take_left' wide), (behind _ 0).trans (ofBe32_be32 baseLayer),
    (behind _ 4).trans (ofBe32_be32 index), (behind _ 8).trans (ofBe32_be32 length),
    (behind _ 12).trans (ofBe32_be32 proofLayers)⟩

section

variable (body : Bytes)

/-- What a hash message reads back is what its body was made of. -/
theorem parseHashExchange_eq_ok {withHashes : Bool} {header : HashExchangeHeader}
    {hashList : List (Digest 32)} : parseHashExchange body withHashes = .ok (header, hashList) ↔
      body = header.bytes ++ hashList.flatMap Subtype.val ∧ (withHashes = false → hashList = []) := by
  unfold parseHashExchange
  dsimp only
  constructor
  · intro parsed
    split_ifs at parsed with short extra ragged
    obtain ⟨rfl, rfl⟩ := Prod.mk.inj (Except.ok.inj parsed)
    constructor
    · rw [flatMap_splitDigests _ (by omega)]
      exact (bytes_readHeader _ (Nat.le_of_not_lt short)).symm
    · intro without
      have exactly : body.length = hashExchangeHeaderLen := by
        by_contra other
        exact extra ⟨without, other⟩
      rw [drop_of_length_le (Nat.le_of_eq exactly)]
      rfl
  · rintro ⟨rfl, without⟩
    have size := header.length_bytes
    have hashesSize := length_flatMap_digests 32 hashList
    have tail : (header.bytes ++ hashList.flatMap Subtype.val).drop hashExchangeHeaderLen =
        hashList.flatMap Subtype.val := drop_left' size
    have long : ¬(header.bytes ++ hashList.flatMap Subtype.val).length < hashExchangeHeaderLen := by
      rw [length_append]
      omega
    have allowed : ¬(withHashes = false ∧
        (header.bytes ++ hashList.flatMap Subtype.val).length ≠ hashExchangeHeaderLen) := by
      rintro ⟨no, extra⟩
      rw [without no, flatMap_nil, append_nil] at extra
      exact extra size
    rw [dif_neg long, if_neg allowed, if_neg (by rw [tail]; omega), readHeader_bytes, tail,
      hashesSize, Nat.mul_div_cancel _ (by decide), splitDigests_flatMap]

/-! The bodies that several messages share: none, one number, and the three numbers of a
block. -/

variable {name : String} {message : Message}

theorem emptyBody_eq_ok {result : Message} :
    (expectLen body 0 name >>= fun _ => .ok result) = .ok message ↔ body = [] ∧ result = message := by
  rw [expectLen_bind, length_eq_zero_iff, Except.ok.injEq]

theorem wordBody_eq_ok {result : UInt32 → Message} :
    (expectLen body 4 name >>= fun _ => .ok (result (be32At body 0))) = .ok message ↔
      ∃ value, body = be32 value ∧ result value = message := by
  rw [expectLen_bind, Except.ok.injEq]
  constructor
  · rintro ⟨four, same⟩
    exact ⟨_, be32_be32At four, same⟩
  · rintro ⟨value, rfl, same⟩
    exact ⟨length_be32 value, (congrArg result (ofBe32_be32 value)).trans same⟩

theorem blockBody_eq_ok (name : String) (next : UInt32 → UInt32 → UInt32 → Except WireError Message)
    (message : Message) :
    (expectLen body 12 name >>= fun _ =>
        let (index, begin, length) := parse3u32 body
        next index begin length) = .ok message ↔
      ∃ index begin length, body = encode3u32 index begin length ∧
        next index begin length = .ok message := by
  rw [expectLen_bind]
  constructor
  · rintro ⟨twelve, accepted⟩
    exact ⟨_, _, _, eq_encode3u32 twelve, accepted⟩
  · rintro ⟨index, begin, length, rfl, accepted⟩
    rw [parse3u32_encode3u32]
    exact ⟨length_encode3u32 index begin length, accepted⟩

/-- A block whose length is checked. -/
theorem limitedBlock_eq_ok {result : UInt32 → UInt32 → UInt32 → Message} (message : Message) :
    (expectLen body 12 name >>= fun _ =>
        let (index, begin, length) := parse3u32 body
        validateRequest length >>= fun _ => .ok (result index begin length)) = .ok message ↔
      ∃ index begin length, body = encode3u32 index begin length ∧
        (1 ≤ length.toNat ∧ length.toNat ≤ maxBlockSize) ∧ result index begin length = message := by
  rw [blockBody_eq_ok body name fun index begin length =>
    validateRequest length >>= fun _ => .ok (result index begin length)]
  simp only [validateRequest_bind, Except.ok.injEq]

theorem hashBody_eq_ok {result : Digest 32 → UInt32 → UInt32 → UInt32 → UInt32 → Message} :
    (parseHashExchange body false >>= fun (header, _) =>
        .ok (result header.piecesRoot header.baseLayer header.index header.length
          header.proofLayers)) = .ok message ↔ ∃ header : HashExchangeHeader, body = header.bytes ∧
        result header.piecesRoot header.baseLayer header.index header.length header.proofLayers =
          message := by
  rw [bind_eq_ok]
  constructor
  · rintro ⟨⟨header, hashList⟩, read, same⟩
    obtain ⟨rfl, without⟩ := (parseHashExchange_eq_ok _).mp read
    rw [without rfl, flatMap_nil, append_nil]
    exact ⟨header, rfl, Except.ok.inj same⟩
  · rintro ⟨header, rfl, same⟩
    refine ⟨(header, []), (parseHashExchange_eq_ok _).mpr ⟨?_, fun _ => rfl⟩,
      congrArg Except.ok same⟩
    rw [flatMap_nil, append_nil]

end

variable {message : Message}

/-- A payload the parser accepts is the one of the message it reads. -/
theorem payload_of_parse {payload : Bytes} (small : payload.length ≤ maxMessageLen)
    (parsed : parse payload = .ok message) :
    payload = message.payload ∧ message.WithinBlockLimits := by
  unfold parse at parsed
  split at parsed
  · obtain rfl := Except.ok.inj parsed
    exact ⟨rfl, trivial⟩
  · split at parsed
    case h_1 | h_2 | h_3 | h_4 | h_12 | h_13 =>
      obtain ⟨rfl, rfl⟩ := (emptyBody_eq_ok _).mp parsed
      exact ⟨rfl, trivial⟩
    case h_5 | h_11 =>
      obtain ⟨index, rfl, rfl⟩ := (wordBody_eq_ok _).mp parsed
      exact ⟨rfl, trivial⟩
    case h_6 =>
      obtain rfl := Except.ok.inj parsed
      exact ⟨rfl, trivial⟩
    case h_7 | h_10 =>
      obtain ⟨index, begin, length, rfl, limits, rfl⟩ := (limitedBlock_eq_ok _ _).mp parsed
      exact ⟨rfl, limits⟩
    case h_8 =>
      dsimp only at parsed
      split_ifs at parsed with short large
      obtain rfl := Except.ok.inj parsed
      have limit : maxMessageLen = 2 * 1024 * 1024 := rfl
      rw [length_cons] at small
      refine ⟨congrArg (7 :: ·) (pieceBody_eq (Nat.le_of_not_lt short)), ?_⟩
      -- a payload within the frame limit has a length that the cast keeps
      rw [Nat.mod_eq_of_lt (by omega)] at large
      simpa only [WithinBlockLimits, length_drop] using Nat.le_of_not_lt large
    case h_9 =>
      obtain ⟨index, begin, length, rfl, same⟩ :=
        (blockBody_eq_ok _ _ (fun index begin length => .ok (.cancel index begin length)) _).mp parsed
      obtain rfl := Except.ok.inj same
      exact ⟨rfl, trivial⟩
    case h_14 =>
      split at parsed
      · cases parsed
      · obtain rfl := Except.ok.inj parsed
        exact ⟨rfl, trivial⟩
    case h_15 | h_17 =>
      obtain ⟨header, rfl, rfl⟩ := (hashBody_eq_ok _).mp parsed
      exact ⟨rfl, trivial⟩
    case h_16 =>
      obtain ⟨⟨header, hashList⟩, read, same⟩ := bind_eq_ok.mp parsed
      obtain ⟨rfl, _⟩ := (parseHashExchange_eq_ok _).mp read
      obtain rfl := Except.ok.inj same
      exact ⟨rfl, trivial⟩
    case h_18 => cases parsed

theorem parse_payload (limits : message.WithinBlockLimits) :
    parse message.payload = .ok message := by
  cases message with
  | keepAlive | bitfield | extended => rfl
  | choke | unchoke | interested | notInterested | haveAll | haveNone =>
    exact (emptyBody_eq_ok _).mpr ⟨rfl, rfl⟩
  | havePiece | allowedFast => exact (wordBody_eq_ok _).mpr ⟨_, rfl, rfl⟩
  | request | reject => exact (limitedBlock_eq_ok _ _).mpr ⟨_, _, _, rfl, limits, rfl⟩
  | cancel index begin length =>
    exact (blockBody_eq_ok _ _ (fun index begin length => .ok (.cancel index begin length)) _).mpr
      ⟨_, _, _, rfl, rfl⟩
  | piece index begin data =>
    have size : (be32 index ++ be32 begin ++ data).length = data.length + 8 := rfl
    have fits : data.length ≤ 16 * 1024 := limits
    simp only [payload, parse, size, Nat.add_sub_cancel,
      Nat.mod_eq_of_lt (show data.length < 2 ^ 32 by omega)]
    rw [if_neg (by omega), if_neg (Nat.not_lt.mpr limits), Except.ok.injEq, Message.piece.injEq]
    exact ⟨ofBe32_be32 index, ofBe32_be32 begin, rfl⟩
  | hashRequest | hashReject =>
    exact (hashBody_eq_ok _).mpr ⟨_, rfl, rfl⟩
  | hashes piecesRoot baseLayer index length proofLayers hashList =>
    refine bind_eq_ok.mpr ⟨_, (parseHashExchange_eq_ok _).mpr ⟨rfl, nofun⟩, rfl⟩

/-- A message that has a frame is encoded as that frame. -/
theorem tryEncode_eq (small : message.payload.length ≤ maxMessageLen) :
    message.tryEncode = .ok (frame message.payload) := by
  have length := encodedLen_eq message
  rw [if_pos small] at length
  rw [tryEncode, length, encodeInto_eq [] small]
  rfl

theorem payload_le_of_encodedLen {length : Nat} (encodable : message.encodedLen = some length) :
    message.payload.length ≤ maxMessageLen ∧ 4 + message.payload.length = length := by
  rw [encodedLen_eq] at encodable
  split_ifs at encodable with small
  exact ⟨small, Option.some.inj encodable⟩

/-- Encoding what was parsed gives the frame back, and parsing what was encoded gives
the message back; the predicted length is the length of the frame. -/
theorem message_round_trip :
    (∀ payload message, payload.length ≤ maxMessageLen → Message.parse payload = .ok message →
      message.tryEncode = .ok (be32 (UInt32.ofNat payload.length) ++ payload)) ∧
    (∀ message length, Message.encodedLen message = some length → message.WithinBlockLimits →
      ∃ bytes, message.tryEncode = .ok bytes ∧ bytes.length = length ∧
        Message.parse (bytes.drop 4) = .ok message) := by
  constructor
  · intro payload message small parsed
    obtain ⟨rfl, _⟩ := payload_of_parse small parsed
    exact tryEncode_eq small
  · intro message length encodable limits
    obtain ⟨small, rfl⟩ := payload_le_of_encodedLen encodable
    refine ⟨frame message.payload, tryEncode_eq small, ?_, ?_⟩
    · rw [frame, List.length_append, length_be32]
    · rw [frame, List.drop_left' (length_be32 _)]
      exact parse_payload limits

/-- The payload of a rejected block of one byte. -/
def rejectPayload : Bytes := [16, 0, 0, 0, 1, 0, 0, 0, 2, 0, 0, 0, 1]

theorem reject_round_trip :
    (Message.reject 1 2 1).tryEncode =
        .ok (be32 (UInt32.ofNat rejectPayload.length) ++ rejectPayload) ∧
      ∃ bytes, (Message.reject 1 2 1).tryEncode = .ok bytes ∧ bytes.length = 17 ∧
        Message.parse (bytes.drop 4) = .ok (.reject 1 2 1) :=
  ⟨message_round_trip.1 rejectPayload (.reject 1 2 1) (by decide) rfl,
    message_round_trip.2 (.reject 1 2 1) 17 rfl (by decide)⟩

end TorrentNG.PeerWire
