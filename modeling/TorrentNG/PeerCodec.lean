import TorrentNG.PeerWire
import TorrentNG.StreamDecoder

/-!
# The framed codec of `rt-peer-wire`

`PeerCodec` cuts a byte stream into frames and parses their payloads. Without a resource
governor its reservations only change the capacity of the buffers, which is left out.
The codec is an incremental decoder in the sense of `StreamDecoder`: every decision rests
on the prefix of the buffer that it consumes.
-/

namespace TorrentNG.PeerCodec

open Fallible FixedWidth List MachineArithmetic PeerWire StreamDecoder

/-- `PeerCodec::decode`: the outcome and what is left in the buffer. A frame that does not
parse has been taken off the buffer; a frame that is too long has not. -/
def decode (src : Bytes) : Except WireError (Option Message) × Bytes :=
  if src.length < 4 then (.ok none, src)
  else
    let len := be32At src 0
    if maxMessageLen < len.toNat then (.error (.messageTooLarge len), src)
    else
      let total := 4 + len.toNat
      if src.length < total then (.ok none, src)
      else
        let rest := src.drop 4
        let payload := rest.take len.toNat
        match Message.parse payload with
        | .error error => (.error error, rest.drop len.toNat)
        | .ok message => (.ok (some message), rest.drop len.toNat)

/-- `PeerCodec::encode`. -/
def encode (item : Message) (dst : Bytes) : Except WireError Bytes := do
  let _ ← okOr item.encodedLen (.messageTooLarge (UInt32.ofNat (2 ^ 32 - 1)))
  item.encodeInto dst

variable (messages : List Message)

/-- The messages of a list, one after the other, into one buffer. -/
def encodeAll : Except WireError Bytes :=
  messages.foldlM (fun dst message => encode message dst) []

/-- A buffer that starts with a whole frame: its declared length is legal and present. -/
def Framed (src : Bytes) : Prop :=
  4 ≤ src.length ∧ (be32At src 0).toNat ≤ maxMessageLen ∧ 4 + (be32At src 0).toNat ≤ src.length

variable {src : Bytes}

/-- What is read from a buffer that starts with a whole frame. -/
theorem decode_framed (framed : Framed src) : decode src =
      match Message.parse ((src.drop 4).take (be32At src 0).toNat) with
      | .error error => (.error error, (src.drop 4).drop (be32At src 0).toNat)
      | .ok message => (.ok (some message), (src.drop 4).drop (be32At src 0).toNat) := by
  obtain ⟨long, legal, present⟩ := framed
  rw [decode, if_neg (Nat.not_lt.mpr long)]
  simp only [if_neg (Nat.not_lt.mpr legal), if_neg (Nat.not_lt.mpr present)]

/-- The length prefix does not depend on what follows it. -/
theorem be32At_zero_append (more : Bytes) (long : 4 ≤ src.length) :
    be32At (src ++ more) 0 = be32At src 0 := by
  rw [be32At, be32At, drop_zero, drop_zero, take_append_of_le_length long]

theorem decode_too_large (long : 4 ≤ src.length) (large : maxMessageLen < (be32At src 0).toNat) :
    decode src = (.error (.messageTooLarge (be32At src 0)), src) := by
  rw [decode, if_neg (Nat.not_lt.mpr long)]
  exact if_pos large

/-- What `decode` can do with a buffer: ask for more, refuse the length, or read a frame. -/
theorem decode_cases (src : Bytes) : decode src = (.ok none, src) ∨
      (4 ≤ src.length ∧ maxMessageLen < (be32At src 0).toNat ∧
        decode src = (.error (.messageTooLarge (be32At src 0)), src)) ∨ Framed src := by
  by_cases short : src.length < 4
  · exact .inl (if_pos short)
  by_cases large : maxMessageLen < (be32At src 0).toNat
  · exact .inr (.inl ⟨Nat.le_of_not_lt short, large, decode_too_large (Nat.le_of_not_lt short) large⟩)
  by_cases partly : src.length < 4 + (be32At src 0).toNat
  · refine .inl ?_
    rw [decode, if_neg short]
    simp only [if_neg large, if_pos partly]
  · exact .inr (.inr ⟨Nat.le_of_not_lt short, Nat.le_of_not_lt large, Nat.le_of_not_lt partly⟩)

/-- A buffer that waits for more is shorter than the longest frame. -/
theorem decode_waiting (waiting : decode src = (.ok none, src)) : src.length < 4 ∨
      (be32At src 0).toNat ≤ maxMessageLen ∧ src.length < 4 + (be32At src 0).toNat := by
  by_cases short : src.length < 4
  · exact .inl short
  refine .inr ?_
  rw [decode, if_neg short] at waiting
  dsimp only at waiting
  split_ifs at waiting with large partly
  · cases waiting
  · exact ⟨Nat.le_of_not_lt large, partly⟩
  · split at waiting
    next error _ => cases waiting
    next message _ => cases waiting

theorem Framed.append (framed : Framed src) (more : Bytes) : Framed (src ++ more) := by
  obtain ⟨long, legal, present⟩ := framed
  rw [Framed, be32At_zero_append more long, length_append]
  exact ⟨by omega, legal, by omega⟩

/-- More input behind a whole frame is left in the buffer. -/
theorem decode_append (more : Bytes) (framed : Framed src) :
    decode (src ++ more) = ((decode src).1, (decode src).2 ++ more) := by
  rw [decode_framed (framed.append more), decode_framed framed]
  obtain ⟨long, legal, present⟩ := framed
  have size : (be32At src 0).toNat ≤ (src.drop 4).length := by
    rw [length_drop]
    omega
  rw [be32At_zero_append more long, drop_append_of_le_length long,
    take_append_of_le_length size, drop_append_of_le_length size]
  cases Message.parse ((src.drop 4).take (be32At src 0).toNat) with
  | error error => rfl
  | ok message => rfl

/-- A whole frame is taken off the buffer, whether it can be parsed or not. -/
theorem decode_framed_spec (framed : Framed src) : (decode src).1 ≠ .ok none ∧
    (decode src).2 = (src.drop 4).drop (be32At src 0).toNat := by
  rw [decode_framed framed]
  cases Message.parse ((src.drop 4).take (be32At src 0).toNat) with
  | error error => exact ⟨nofun, rfl⟩
  | ok message => exact ⟨nofun, rfl⟩

/-- The codec as an incremental decoder. -/
def peerDecoder : Decoder UInt8 Message WireError where
  decode := decode
  idle := rfl
  waits := by
    intro buffer rest step
    rcases decode_cases buffer with waiting | ⟨_, _, refused⟩ | framed
    · exact (congrArg Prod.snd (waiting.symm.trans step)).symm
    · cases refused.symm.trans step
    · exact absurd (congrArg Prod.fst step) (decode_framed_spec framed).1
  shrinks := by
    intro buffer item rest step
    rcases decode_cases buffer with waiting | ⟨_, _, refused⟩ | framed
    · cases waiting.symm.trans step
    · cases refused.symm.trans step
    · have left : rest = (buffer.drop 4).drop (be32At buffer 0).toNat := by
        rw [← (decode_framed_spec framed).2, step]
      have long := framed.1
      rw [left, List.length_drop, List.length_drop]
      omega
  item_stable := by
    intro buffer item rest more step
    rcases decode_cases buffer with waiting | ⟨_, _, refused⟩ | framed
    · cases waiting.symm.trans step
    · cases refused.symm.trans step
    · rw [decode_append more framed, step]
  failure_stable := by
    intro buffer error rest more step
    rcases decode_cases buffer with waiting | ⟨long, large, refused⟩ | framed
    · cases waiting.symm.trans step
    · cases refused.symm.trans step
      rw [← be32At_zero_append more long] at large ⊢
      exact ⟨buffer ++ more, decode_too_large (by rw [List.length_append]; omega) large⟩
    · exact ⟨rest ++ more, by rw [decode_append more framed, step]⟩

/-! ## Streams of encoded messages -/

/-- A frame at the front of a buffer is taken off and its payload parsed. -/
theorem decode_frame_append {payload : Bytes} (rest : Bytes) (small : payload.length ≤ maxMessageLen) :
    decode (frame payload ++ rest) =
      match Message.parse payload with
      | .error error => (.error error, rest)
      | .ok message => (.ok (some message), rest) := by
  have limit : maxMessageLen = 2 * 1024 * 1024 := rfl
  have prefixed : be32At (frame payload ++ rest) 0 = UInt32.ofNat payload.length := by
    exact ofBe32_be32 _
  have length : (be32At (frame payload ++ rest) 0).toNat = payload.length := by
    rw [prefixed, UInt32.toNat_ofNat', Nat.mod_eq_of_lt (by omega)]
  have body : (frame payload ++ rest).drop 4 = payload ++ rest := by
    exact drop_left' (length_be32 _)
  have framed : Framed (frame payload ++ rest) := by
    rw [Framed, length]
    simp only [frame, length_append, length_be32]
    exact ⟨by omega, small, by omega⟩
  rw [decode_framed framed, length, body, take_left, drop_left]

/-- The frames of a list of messages. -/
def frames : Bytes :=
  messages.flatMap fun message => frame message.payload

/-- A buffer of messages is encoded when each has a frame, as these frames. -/
theorem encodeAll_eq_ok {messages : List Message} {bytes : Bytes}
    (encoded : encodeAll messages = .ok bytes) :
    bytes = frames messages ∧ ∀ message ∈ messages, message.payload.length ≤ maxMessageLen := by
  have general : ∀ dst, messages.foldlM (fun dst message => encode message dst) dst = .ok bytes →
      bytes = dst ++ frames messages ∧
        ∀ message ∈ messages, message.payload.length ≤ maxMessageLen := by
    clear encoded
    induction messages with
    | nil =>
      intro dst encoded
      obtain rfl := Except.ok.inj encoded
      exact ⟨(append_nil dst).symm, nofun⟩
    | cons message rest ih =>
      intro dst encoded
      obtain ⟨extended, first, others⟩ := bind_eq_ok.mp encoded
      obtain ⟨length, found, first⟩ := bind_eq_ok.mp first
      obtain ⟨small, _⟩ := payload_le_of_encodedLen (okOr_eq_ok.mp found)
      rw [encodeInto_eq dst small] at first
      obtain rfl := Except.ok.inj first
      obtain ⟨rfl, all⟩ := ih _ others
      refine ⟨by rw [frames, frames, flatMap_cons, append_assoc], ?_⟩
      exact forall_mem_cons.mpr ⟨small, all⟩
  exact general [] encoded

/-- A stream of frames is read back as its messages exactly when the parser accepts
each of them. -/
theorem drain_frames
    (small : ∀ message ∈ messages, message.payload.length ≤ maxMessageLen) :
    drain peerDecoder (frames messages) = ⟨messages, .waiting []⟩ ↔
      ∀ message ∈ messages, message.WithinBlockLimits := by
  induction messages with
  | nil =>
    have nothing : drain peerDecoder (frames []) = ⟨[], .waiting []⟩ :=
      drain_waiting peerDecoder peerDecoder.idle
    simp only [nothing, not_mem_nil, false_implies, implies_true]
  | cons message rest ih =>
    obtain ⟨fits, others⟩ := forall_mem_cons.mp small
    have step : peerDecoder.decode (frames (message :: rest)) = _ :=
      decode_frame_append (frames rest) fits
    rw [forall_mem_cons, ← ih others]
    constructor
    · intro read
      match parsed : Message.parse message.payload with
      | .error error =>
        simp only [parsed] at step
        cases (drain_failure peerDecoder step).symm.trans read
      | .ok other =>
        simp only [parsed] at step
        have same := (drain_item peerDecoder step).symm.trans read
        simp only [Run.mk.injEq, List.cons.injEq] at same
        obtain ⟨⟨rfl, items⟩, ending⟩ := same
        exact ⟨(payload_of_parse fits parsed).2, Run.ext items ending⟩
    · rintro ⟨limits, read⟩
      simp only [parse_payload limits] at step
      have first := drain_item peerDecoder step
      rw [read] at first
      exact first

/-- A request for a block of no bytes has a frame that its own parser refuses. -/
theorem empty_request_not_read_back :
    ∃ bytes, encodeAll [.request 0 0 0] = .ok bytes ∧
      feedAll peerDecoder [bytes] ≠ ⟨[.request 0 0 0], .waiting []⟩ := by
  refine ⟨frames [.request 0 0 0], rfl, ?_⟩
  intro read
  have limits := (drain_frames [.request 0 0 0] (by decide)).mp read
  exact absurd limits (by decide)

/-- The messages read from a stream, and its first error, do not depend on how the stream
is cut into chunks. A stream of encoded messages is read back with nothing left over
exactly when every message keeps the block limits of the parser. -/
theorem stream_decoding :
    (∀ chunks others : List Bytes, chunks.flatten = others.flatten →
      feedAll peerDecoder chunks = feedAll peerDecoder others) ∧
    (∀ messages bytes chunks, encodeAll messages = .ok bytes → chunks.flatten = bytes →
      (feedAll peerDecoder chunks = ⟨messages, .waiting []⟩ ↔
        ∀ message ∈ messages, message.WithinBlockLimits)) := by
  constructor
  · intro chunks others same
    rw [feedAll_eq_drain, feedAll_eq_drain, same]
  · intro messages bytes chunks encoded whole
    obtain ⟨rfl, small⟩ := encodeAll_eq_ok encoded
    rw [feedAll_eq_drain, whole]
    exact drain_frames messages small

/-- A keep-alive and a rejected block, cut inside the length of the second frame. -/
theorem cut_stream_read_back :
    feedAll peerDecoder [[0, 0, 0, 0, 0, 0], [0, 13] ++ rejectPayload] =
      ⟨[.keepAlive, .reject 1 2 1], .waiting []⟩ :=
  (stream_decoding.2 [.keepAlive, .reject 1 2 1] (frames [.keepAlive, .reject 1 2 1])
    [[0, 0, 0, 0, 0, 0], [0, 13] ++ rejectPayload] rfl (by decide)).mpr (by decide)

end TorrentNG.PeerCodec
