import TorrentNG.PeerCodec

/-!
# Frames of a uTP peer in `rt-engine`

A uTP connection delivers chunks of bytes. `UtpFrameDecoder` appends them to a buffer and takes
whole frames off its front. It admits the length that a frame declares before the buffer grows
to it, so it refuses a frame that is too long while a chunk is still being appended, where the
codec of `rt-peer-wire` refuses it when it decodes.

The governor of the memory is a function with a state of its own. An allocation that it admits
is taken to succeed. A chunk is a slice, which holds less than `2 ^ 63` bytes.
-/

namespace TorrentNG.UtpFrames

open Fallible FixedWidth List MachineArithmetic PeerCodec PeerWire StreamDecoder

/-- A slice of bytes: its length is an `isize`. -/
abbrev Slice := { bytes : Bytes // bytes.length < 2 ^ 63 }

inductive FrameError where
  | wire (error : WireError)
  | message (text : String)
deriving DecidableEq

/-- The bytes of the buffer and its capacity, and what the governor granted for it. -/
structure UtpFrameDecoder (σ : Type) where
  buffer : Bytes
  capacity : Nat
  resources : σ
  reservedBytes : Nat

namespace UtpFrameDecoder

section Governed

variable {σ : Type} (tryAcquire : Nat → σ → Bool × σ)

def new (resources : σ) : UtpFrameDecoder σ := ⟨[], 0, resources, 0⟩

variable (decoder : UtpFrameDecoder σ)

/-- `Vec::try_reserve_exact`. -/
def tryReserveExact (additional : Nat) : UtpFrameDecoder σ :=
  if decoder.capacity - decoder.buffer.length < additional then
    { decoder with capacity := decoder.buffer.length + additional }
  else decoder

/-- `Vec::extend_from_slice`: a buffer that is too small at least doubles. -/
def extendFromSlice (bytes : Bytes) : UtpFrameDecoder σ :=
  let required := decoder.buffer.length + bytes.length
  { decoder with
    buffer := decoder.buffer ++ bytes
    capacity :=
      if decoder.capacity < required then max 8 (max (decoder.capacity * 2) required)
      else decoder.capacity }

def reserveCapacity (required : Nat) :
    Except FrameError (UtpFrameDecoder σ) :=
  if required ≤ decoder.capacity then .ok decoder
  else
    let requiredBytes := saturatingMul required 2
    let grown := decoder.tryReserveExact (required - decoder.capacity)
    if requiredBytes ≤ decoder.reservedBytes then .ok grown
    else
      match tryAcquire (requiredBytes - decoder.reservedBytes) decoder.resources with
      | (false, _) =>
          .error (.message s!"peer frame buffer allocation of {requiredBytes} bytes denied")
      | (true, resources) => .ok { grown with resources, reservedBytes := requiredBytes }

/-- The first four bytes, which must be there. -/
def frameLength : UInt32 := be32At decoder.buffer 0

def reserveDeclaredFrame : Except FrameError (UtpFrameDecoder σ) :=
  let len := decoder.frameLength
  if maxMessageLen < len.toNat then .error (.message s!"peer message too large: {len}")
  else decoder.reserveCapacity tryAcquire (4 + len.toNat)

variable (chunk : Bytes)

def appendChunk :
    Except FrameError (UtpFrameDecoder σ) := do
  let required ← okOr (checkedAdd decoder.buffer.length chunk.length)
    (.message "peer frame buffer length overflow")
  let decoder ← decoder.reserveCapacity tryAcquire required
  .ok (decoder.extendFromSlice chunk)

/-- Append a chunk, with the length prefix of a frame first. -/
def push :
    Except FrameError (UtpFrameDecoder σ) :=
  if chunk.isEmpty then .ok decoder
  else if decoder.buffer.length < 4 then do
    let headerLen := min (4 - decoder.buffer.length) chunk.length
    let decoder ← decoder.reserveCapacity tryAcquire (saturatingAdd decoder.buffer.length headerLen)
    let decoder := decoder.extendFromSlice (chunk.take headerLen)
    let decoder ←
      if decoder.buffer.length = 4 then decoder.reserveDeclaredFrame tryAcquire else .ok decoder
    if headerLen < chunk.length then decoder.appendChunk tryAcquire (chunk.drop headerLen)
    else .ok decoder
  else do
    let decoder ← decoder.reserveDeclaredFrame tryAcquire
    decoder.appendChunk tryAcquire chunk

/-- Take a whole frame off the buffer, if there is one. -/
def takeFrame :
    Except FrameError (Option Message × UtpFrameDecoder σ) :=
  if decoder.buffer.length < 4 then .ok (none, decoder)
  else do
    let decoder ← decoder.reserveDeclaredFrame tryAcquire
    let frameLen := 4 + decoder.frameLength.toNat
    if decoder.buffer.length < frameLen then .ok (none, decoder)
    else
      let message ← (Message.parse ((decoder.buffer.take frameLen).drop 4)).mapError .wire
      .ok (some message, { decoder with buffer := decoder.buffer.drop frameLen })

/-! ## What becomes of the buffer -/

/-- The two framers refuse a frame for the same reason. -/
inductive SameFailure : FrameError → WireError → Prop
  | tooLarge (len : UInt32) :
      SameFailure (.message s!"peer message too large: {len}") (.messageTooLarge len)
  | unparsed (error : WireError) : SameFailure (.wire error) error

/-- The governor does not grant everything. -/
def Denies : Prop := ∃ bytes resources, (tryAcquire bytes resources).1 = false

/-- A chunk is refused by the governor, or because it completes the length of a frame that is too
long. Of a buffer that does not wait for more, and of longer chunks, nothing is said. -/
def Refuses (problem : FrameError) : Prop :=
  Denies tryAcquire ∨
    (decode decoder.buffer = (.ok none, decoder.buffer) → chunk.length < 2 ^ 63 →
      ∃ error rest, decode (decoder.buffer ++ chunk) = (.error error, rest) ∧
        SameFailure problem error)

variable {tryAcquire} (decoder : UtpFrameDecoder σ) (chunk : Bytes)

theorem reserveCapacity_spec (required : Nat) :
    Ends (fun after => after.buffer = decoder.buffer) (fun _ => Denies tryAcquire)
      (decoder.reserveCapacity tryAcquire required) := by
  have grown : (decoder.tryReserveExact (required - decoder.capacity)).buffer =
      decoder.buffer := by
    unfold tryReserveExact
    split <;> rfl
  unfold reserveCapacity
  split
  next => exact rfl
  next =>
    dsimp only
    split
    next => exact grown
    next =>
      split
      next denied => exact ⟨_, _, congrArg Prod.fst denied⟩
      next => exact grown

theorem reserveDeclaredFrame_spec : Ends (fun after => after.buffer = decoder.buffer ∧
        (be32At decoder.buffer 0).toNat ≤ maxMessageLen)
      (fun problem => Denies tryAcquire ∨ maxMessageLen < (be32At decoder.buffer 0).toNat ∧
        SameFailure problem (.messageTooLarge (be32At decoder.buffer 0)))
      (decoder.reserveDeclaredFrame tryAcquire) := by
  unfold reserveDeclaredFrame
  dsimp only
  split
  next large => exact .inr ⟨large, .tooLarge _⟩
  next legal =>
    exact (decoder.reserveCapacity_spec _).mono
      (fun _ same => ⟨same, Nat.le_of_not_lt legal⟩) fun _ => .inl

theorem appendChunk_spec : Ends (fun after => after.buffer = decoder.buffer ++ chunk)
      (fun _ => Denies tryAcquire ∨ 2 ^ 64 ≤ decoder.buffer.length + chunk.length)
      (decoder.appendChunk tryAcquire chunk) := by
  unfold appendChunk checkedAdd
  split
  next =>
    rw [okOr, ok_bind]
    exact ((decoder.reserveCapacity_spec _).mono (fun _ same => same) fun _ => .inl).bind
      fun _ same => congrArg (· ++ chunk) same
  next full => exact .inr (Nat.le_of_not_lt full)

/-- What is left of a chunk once the length prefix has its bytes. -/
theorem appendRest_spec (headerLen : Nat) :
    Ends (fun after => after.buffer = decoder.buffer ++ chunk.drop headerLen)
      (fun _ => Denies tryAcquire ∨ 2 ^ 64 ≤ decoder.buffer.length + chunk.length)
      (if headerLen < chunk.length then decoder.appendChunk tryAcquire (chunk.drop headerLen)
        else .ok decoder) := by
  split
  next =>
    refine (decoder.appendChunk_spec _).mono (fun _ same => same) fun _ => Or.imp_right ?_
    rw [length_drop]
    omega
  next all =>
    show decoder.buffer = _
    rw [drop_of_length_le (Nat.le_of_not_lt all), append_nil]

/-- Unless it is refused, a chunk is appended as a whole. -/
theorem push_spec :
    Ends (fun after => after.buffer = decoder.buffer ++ chunk) (Refuses tryAcquire decoder chunk)
      (decoder.push tryAcquire chunk) := by
  have limit : maxMessageLen = 2 * 1024 * 1024 := rfl
  unfold push
  split
  next empty =>
    show decoder.buffer = _
    rw [isEmpty_iff.mp empty, append_nil]
  next =>
    split
    next short =>
      dsimp only
      generalize headed : min (4 - decoder.buffer.length) chunk.length = headerLen
      refine ((decoder.reserveCapacity_spec _).mono (fun _ same => same) fun _ => .inl).bind
        fun reserved same => ?_
      have header : (reserved.extendFromSlice (chunk.take headerLen)).buffer =
          decoder.buffer ++ chunk.take headerLen := congrArg (· ++ _) same
      generalize reserved.extendFromSlice (chunk.take headerLen) = extended at header
      have size : extended.buffer.length = decoder.buffer.length + headerLen := by
        rw [header, length_append, length_take]
        omega
      have whole : extended.buffer ++ chunk.drop headerLen = decoder.buffer ++ chunk := by
        rw [header, append_assoc, take_append_drop]
      have finishes (declared : UtpFrameDecoder σ) (kept : declared.buffer = extended.buffer) :
          Ends (·.buffer = decoder.buffer ++ chunk) (Refuses tryAcquire decoder chunk)
            (if headerLen < chunk.length then
              declared.appendChunk tryAcquire (chunk.drop headerLen) else .ok declared) := by
        refine (declared.appendRest_spec chunk headerLen).mono (fun _ appended => ?_) fun _ =>
          Or.imp_right ?_
        · rw [appended, kept, whole]
        · rw [kept]
          intro full _ fits
          omega
      split
      next complete =>
        refine (extended.reserveDeclaredFrame_spec.mono (fun _ kept => kept.1) fun problem =>
          Or.imp_right ?_).bind finishes
        rintro ⟨large, failure⟩ _ _
        -- the codec sees the same length at the front of the whole buffer
        have front : be32At (decoder.buffer ++ chunk) 0 = be32At extended.buffer 0 := by
          rw [← whole]
          exact be32At_zero_append _ (Nat.le_of_eq complete.symm)
        rw [← front] at large failure
        refine ⟨_, _, decode_too_large ?_ large, failure⟩
        rw [length_append]
        omega
      next => exact finishes extended rfl
    next long =>
      refine (decoder.reserveDeclaredFrame_spec.mono (fun _ kept => kept.1) fun _ =>
        Or.imp_right ?_).bind fun declared kept => ?_
      · rintro ⟨large, _⟩ waiting _
        have legal := ((decode_waiting waiting).resolve_left long).1
        omega
      · refine (declared.appendChunk_spec chunk).mono (fun _ appended => ?_) fun _ =>
          Or.imp_right ?_
        · rw [appended, kept]
        · rw [kept]
          intro full waiting fits
          obtain ⟨legal, partly⟩ := (decode_waiting waiting).resolve_left long
          omega

/-- `take_frame` does with the buffer what the codec does. -/
theorem takeFrame_spec : Ends (fun taken => decode decoder.buffer = (.ok taken.1, taken.2.buffer))
      (fun problem => Denies tryAcquire ∨
        ∃ error rest, decode decoder.buffer = (.error error, rest) ∧ SameFailure problem error)
      (decoder.takeFrame tryAcquire) := by
  unfold takeFrame
  split
  next short => exact if_pos short
  next long =>
    refine (decoder.reserveDeclaredFrame_spec.mono (fun _ kept => kept) fun _ =>
      Or.imp_right ?_).bind fun reserved kept => ?_
    · rintro ⟨large, failure⟩
      exact ⟨_, _, decode_too_large (Nat.le_of_not_lt long) large, failure⟩
    obtain ⟨same, legal⟩ := kept
    dsimp only
    rw [frameLength, same]
    split
    next partly =>
      show decode decoder.buffer = (.ok none, reserved.buffer)
      rw [decode, if_neg long, same]
      simp only [if_neg (Nat.not_lt.mpr legal), if_pos partly]
    next present =>
      have framed := decode_framed ⟨Nat.le_of_not_lt long, legal, Nat.le_of_not_lt present⟩
      rw [drop_take, Nat.add_sub_cancel_left, framed, ← drop_drop]
      cases Message.parse ((decoder.buffer.drop 4).take (be32At decoder.buffer 0).toNat) with
      | error error => exact .inr ⟨_, _, rfl, .unparsed error⟩
      | ok message => exact rfl

variable {decoder} {after : UtpFrameDecoder σ}

/-- A frame that is taken shortens the buffer; otherwise it stays. -/
theorem takeFrame_buffer {message : Option Message}
    (taken : decoder.takeFrame tryAcquire = .ok (message, after)) :
    (message = none → after.buffer = decoder.buffer) ∧
      (message.isSome = true → after.buffer.length < decoder.buffer.length) := by
  have step := decoder.takeFrame_spec.of_ok taken
  cases message with
  | none => exact ⟨fun _ => peerDecoder.waits _ _ step, nofun⟩
  | some message => exact ⟨nofun, fun _ => peerDecoder.shrinks _ _ _ step⟩

end Governed

/-! ## Streams -/

section Streams

variable {σ : Type} (tryAcquire : Nat → σ → Bool × σ)

/-- What was delivered, and the decoder or why it gave up. -/
structure Received (σ : Type) where
  messages : List Message
  state : Except FrameError (UtpFrameDecoder σ)

/-- Take frames until there is none, or one cannot be read. -/
def takeFrames (decoder : UtpFrameDecoder σ) : Received σ :=
  match step : decoder.takeFrame tryAcquire with
  | .error problem => ⟨[], .error problem⟩
  | .ok (none, after) => ⟨[], .ok after⟩
  | .ok (some message, after) =>
      have := (takeFrame_buffer step).2 rfl
      let later := takeFrames after
      ⟨message :: later.messages, later.state⟩
termination_by decoder.buffer.length

theorem takeFrames_eq (decoder : UtpFrameDecoder σ) :
    takeFrames tryAcquire decoder =
      match decoder.takeFrame tryAcquire with
      | .error problem => ⟨[], .error problem⟩
      | .ok (none, after) => ⟨[], .ok after⟩
      | .ok (some message, after) =>
          ⟨message :: (takeFrames tryAcquire after).messages, (takeFrames tryAcquire after).state⟩ := by
  rw [takeFrames]
  split
  next step => rw [step]
  next step => rw [step]
  next step =>
    dsimp only
    rw [step]

/-- Push a chunk and take the frames that it completes. -/
def receive (received : Received σ) (chunk : Slice) : Received σ :=
  match received.state with
  | .error _ => received
  | .ok decoder =>
      match decoder.push tryAcquire chunk.val with
      | .error problem => ⟨received.messages, .error problem⟩
      | .ok decoder =>
          let later := takeFrames tryAcquire decoder
          ⟨received.messages ++ later.messages, later.state⟩

def receiveAll (resources : σ) (chunks : List Slice) : Received σ :=
  chunks.foldl (receive tryAcquire) ⟨[], .ok (new resources)⟩

/-- What `UtpStream::recv` returns. -/
inductive Arrival where
  | chunk (bytes : Slice)
  | closed
  | failed (text : String)

/-- What `next_message` comes to. It is pending while nothing arrives. -/
inductive Delivery (σ : Type) where
  | message (message : Message) (decoder : UtpFrameDecoder σ) (later : List Arrival)
  | ended
  | failed (problem : FrameError)
  | pending (decoder : UtpFrameDecoder σ)

/-- The end of the stream, which must not be inside a frame. -/
def atEnd (decoder : UtpFrameDecoder σ) : Delivery σ :=
  if decoder.buffer.isEmpty then .ended
  else .failed (.message "uTP peer closed in the middle of a message")

/-- `next_message`. A chunk without bytes stands for the end of the stream. -/
def nextMessage (decoder : UtpFrameDecoder σ) (arrivals : List Arrival) : Delivery σ :=
  match decoder.takeFrame tryAcquire with
  | .error problem => .failed problem
  | .ok (some message, decoder) => .message message decoder arrivals
  | .ok (none, decoder) =>
      match arrivals with
      | [] => .pending decoder
      | .closed :: _ => decoder.atEnd
      | .failed text :: _ => .failed (.message text)
      | .chunk bytes :: later =>
          if bytes.val.isEmpty then decoder.atEnd
          else
            match decoder.push tryAcquire bytes.val with
            | .error problem => .failed problem
            | .ok decoder => nextMessage decoder later

/-- The bytes that are still to come. -/
def arriving : List Arrival → Nat
  | [] => 0
  | .chunk bytes :: later => bytes.val.length + arriving later
  | _ :: later => arriving later

variable {decoder : UtpFrameDecoder σ} {arrivals : List Arrival}

variable {tryAcquire} in
/-- Every message uses bytes up. -/
theorem nextMessage_uses {after : UtpFrameDecoder σ} {later : List Arrival}
    {message : Message}
    (delivered : decoder.nextMessage tryAcquire arrivals = .message message after later) :
    after.buffer.length + arriving later < decoder.buffer.length + arriving arrivals := by
  induction arrivals generalizing decoder with
  | nil =>
    unfold nextMessage at delivered
    split at delivered
    next => cases delivered
    next taken =>
      cases delivered
      exact Nat.add_lt_add_right ((takeFrame_buffer taken).2 rfl) _
    next => cases delivered
  | cons arrival rest ih =>
    unfold nextMessage at delivered
    split at delivered
    next => cases delivered
    next taken =>
      cases delivered
      exact Nat.add_lt_add_right ((takeFrame_buffer taken).2 rfl) _
    next middle taken =>
      have same := (takeFrame_buffer taken).1 rfl
      cases arrival with
      | closed =>
        dsimp only [atEnd] at delivered
        split at delivered <;> cases delivered
      | failed text => cases delivered
      | chunk bytes =>
        dsimp only [atEnd] at delivered
        split_ifs at delivered
        split at delivered
        next => cases delivered
        next pushed =>
          have used := ih delivered
          rw [(push_spec ..).of_ok pushed, same, length_append] at used
          rw [arriving]
          omega

/-- The messages that a peer loop gets, and what the call after the last of them comes to. -/
def deliver (decoder : UtpFrameDecoder σ) (arrivals : List Arrival) : List Message × Delivery σ :=
  match step : decoder.nextMessage tryAcquire arrivals with
  | .message message after later =>
      have := nextMessage_uses step
      let rest := deliver after later
      (message :: rest.1, rest.2)
  | other => ([], other)
termination_by decoder.buffer.length + arriving arrivals

theorem deliver_message {after : UtpFrameDecoder σ} {later : List Arrival}
    {message : Message} (step : decoder.nextMessage tryAcquire arrivals = .message message after later) :
    deliver tryAcquire decoder arrivals =
      (message :: (deliver tryAcquire after later).1, (deliver tryAcquire after later).2) := by
  rw [deliver]
  split
  next found =>
    cases step.symm.trans found
    rfl
  next other => exact absurd step (other _ _ _)

theorem deliver_last
    (last : ∀ message after later,
      decoder.nextMessage tryAcquire arrivals ≠ .message message after later) :
    deliver tryAcquire decoder arrivals = ([], decoder.nextMessage tryAcquire arrivals) := by
  rw [deliver]
  split
  next found => exact absurd found (last _ _ _)
  next => rfl

end Streams

/-! ## The two framers agree -/

section Agreement

variable {σ : Type} {tryAcquire : Nat → σ → Bool × σ}

/-- The decoder waits with the bytes that the codec has left, or both gave up. -/
inductive SameEnding : Except FrameError (UtpFrameDecoder σ) → Ending UInt8 WireError → Prop
  | waiting (decoder : UtpFrameDecoder σ)
      (idle : decode decoder.buffer = (.ok none, decoder.buffer)) :
      SameEnding (.ok decoder) (.waiting decoder.buffer)
  | failed {problem : FrameError} {error : WireError} (same : SameFailure problem error) :
      SameEnding (.error problem) (.failed error)

/-- The same messages, and the same end. -/
structure Mirrors (received : Received σ) (run : Run UInt8 Message WireError) : Prop where
  messages : received.messages = run.items
  ending : SameEnding received.state run.ending

variable (grants : ¬Denies tryAcquire)

include grants

theorem takeFrames_mirrors (decoder : UtpFrameDecoder σ) :
    Mirrors (takeFrames tryAcquire decoder) (drain peerDecoder decoder.buffer) := by
  induction size : decoder.buffer.length using Nat.strong_induction_on generalizing decoder with
  | _ size shorter =>
    have spec := @takeFrame_spec σ tryAcquire decoder
    rw [takeFrames_eq]
    match taken : decoder.takeFrame tryAcquire with
    | .error problem =>
      obtain ⟨error, rest, step, same⟩ := (spec.of_error taken).resolve_left grants
      rw [drain_failure peerDecoder step]
      exact ⟨rfl, .failed same⟩
    | .ok (none, after) =>
      have step := spec.of_ok taken
      have kept := peerDecoder.waits _ _ step
      rw [drain_waiting peerDecoder step, ← kept]
      rw [← kept] at step
      exact ⟨rfl, .waiting after step⟩
    | .ok (some message, after) =>
      have step := spec.of_ok taken
      have fewer := peerDecoder.shrinks _ _ _ step
      obtain ⟨messages, ending⟩ := shorter after.buffer.length (size ▸ fewer) after rfl
      rw [drain_item peerDecoder step]
      exact ⟨congrArg (message :: ·) messages, ending⟩

theorem receive_mirrors {received : Received σ} {run : Run UInt8 Message WireError}
    (mirrors : Mirrors received run) (chunk : Slice) :
    Mirrors (receive tryAcquire received chunk) (feed peerDecoder run chunk.val) := by
  obtain ⟨messages, state⟩ := received
  obtain ⟨items, ending⟩ := run
  obtain ⟨same, ends⟩ := mirrors
  subst same
  cases ends with
  | failed same => exact ⟨rfl, .failed same⟩
  | waiting decoder idle =>
    show Mirrors (receive tryAcquire ⟨messages, .ok decoder⟩ chunk)
      ⟨messages ++ (drain peerDecoder (decoder.buffer ++ chunk.val)).items,
        (drain peerDecoder (decoder.buffer ++ chunk.val)).ending⟩
    have spec := @push_spec σ tryAcquire decoder chunk.val
    unfold receive
    cases pushed : decoder.push tryAcquire chunk.val with
    | ok after =>
      obtain ⟨more, ending⟩ := takeFrames_mirrors grants after
      rw [spec.of_ok pushed] at more ending
      simp only [pushed]
      exact ⟨congrArg (messages ++ ·) more, ending⟩
    | error problem =>
      obtain ⟨error, rest, step, same⟩ :=
        (spec.of_error pushed).resolve_left grants idle chunk.property
      rw [drain_failure peerDecoder step]
      simp only [pushed]
      exact ⟨(append_nil messages).symm, .failed same⟩

/-- Pushing chunks and taking frames does what the codec does with the whole stream. -/
theorem receiveAll_mirrors (resources : σ) (chunks : List Slice) :
    Mirrors (receiveAll tryAcquire resources chunks)
      (drain peerDecoder (chunks.map Subtype.val).flatten) := by
  rw [← feedAll_eq_drain, feedAll, foldl_map]
  have start : Mirrors (⟨[], .ok (new resources)⟩ : Received σ) ⟨[], .waiting []⟩ :=
    ⟨rfl, .waiting (new resources) rfl⟩
  unfold receiveAll
  generalize (⟨[], .ok (new resources)⟩ : Received σ) = received at start
  generalize (⟨[], .waiting []⟩ : Run UInt8 Message WireError) = run at start
  induction chunks generalizing received run with
  | nil => exact start
  | cons chunk rest ih =>
    exact ih _ _ (receive_mirrors grants start chunk)

/-- What a call of `next_message` says about the rest of the stream. -/
inductive Tracks (stream : Bytes) : Delivery σ → Prop
  | message (message : Message) (after : UtpFrameDecoder σ) (chunks : List Slice)
      (full : ∀ chunk ∈ chunks, chunk.val ≠ [])
      (step : drain peerDecoder stream =
        ⟨message :: (drain peerDecoder (after.buffer ++ (chunks.map Subtype.val).flatten)).items,
          (drain peerDecoder (after.buffer ++ (chunks.map Subtype.val).flatten)).ending⟩) :
      Tracks stream (.message message after (chunks.map .chunk))
  | failed {problem : FrameError} {error : WireError} (same : SameFailure problem error)
      (step : drain peerDecoder stream = ⟨[], .failed error⟩) : Tracks stream (.failed problem)
  | pending (after : UtpFrameDecoder σ)
      (step : drain peerDecoder stream = ⟨[], .waiting after.buffer⟩) : Tracks stream (.pending after)

theorem nextMessage_tracks (decoder : UtpFrameDecoder σ) (chunks : List Slice)
    (full : ∀ chunk ∈ chunks, chunk.val ≠ []) :
    Tracks (decoder.buffer ++ (chunks.map Subtype.val).flatten)
      (decoder.nextMessage tryAcquire (chunks.map .chunk)) := by
  have spec := @takeFrame_spec σ tryAcquire decoder
  unfold nextMessage
  match taken : decoder.takeFrame tryAcquire, chunks with
  | .error problem, chunks =>
    obtain ⟨error, rest, step, same⟩ := (spec.of_error taken).resolve_left grants
    obtain ⟨left, failing⟩ := peerDecoder.failure_stable _ error rest _ step
    exact .failed same (drain_failure peerDecoder failing)
  | .ok (some message, after), chunks =>
    exact .message message after chunks full
      (drain_item peerDecoder (peerDecoder.item_stable _ message _ _ (spec.of_ok taken)))
  | .ok (none, after), [] =>
    have step := spec.of_ok taken
    refine .pending after ?_
    rw [map_nil, flatten_nil, append_nil, drain_waiting peerDecoder step,
      peerDecoder.waits _ _ step]
  | .ok (none, after), chunk :: rest =>
    have step := spec.of_ok taken
    have kept := peerDecoder.waits _ _ step
    rw [← kept] at step
    have bytes : chunk.val.isEmpty = false := isEmpty_eq_false_iff.mpr (full chunk mem_cons_self)
    have pushes := @push_spec σ tryAcquire after chunk.val
    rw [map_cons, map_cons, flatten_cons, ← append_assoc, ← kept]
    dsimp only
    rw [bytes, if_neg Bool.false_ne_true]
    match pushed : after.push tryAcquire chunk.val with
    | .ok next =>
      rw [← pushes.of_ok pushed]
      exact nextMessage_tracks next rest fun other member => full other (.tail _ member)
    | .error problem =>
      obtain ⟨error, left, refused, same⟩ :=
        (pushes.of_error pushed).resolve_left grants step chunk.property
      obtain ⟨last, failing⟩ := peerDecoder.failure_stable _ error left _ refused
      exact .failed same (drain_failure peerDecoder failing)
termination_by chunks.length

/-- The end of a stream that is not closed. -/
inductive SameOutcome : Delivery σ → Ending UInt8 WireError → Prop
  | pending (decoder : UtpFrameDecoder σ) : SameOutcome (.pending decoder) (.waiting decoder.buffer)
  | failed {problem : FrameError} {error : WireError} (same : SameFailure problem error) :
      SameOutcome (.failed problem) (.failed error)

theorem deliver_tracks (decoder : UtpFrameDecoder σ) (chunks : List Slice)
    (full : ∀ chunk ∈ chunks, chunk.val ≠ []) : (deliver tryAcquire decoder (chunks.map .chunk)).1 =
        (drain peerDecoder (decoder.buffer ++ (chunks.map Subtype.val).flatten)).items ∧
      SameOutcome (deliver tryAcquire decoder (chunks.map .chunk)).2
        (drain peerDecoder (decoder.buffer ++ (chunks.map Subtype.val).flatten)).ending := by
  induction size : decoder.buffer.length + arriving (chunks.map .chunk)
    using Nat.strong_induction_on generalizing decoder chunks with
  | _ size shorter =>
    have tracks := nextMessage_tracks grants decoder chunks full
    generalize outcome : decoder.nextMessage tryAcquire (chunks.map .chunk) = delivery at tracks
    cases tracks with
    | message message after later later_full step =>
      have fewer := nextMessage_uses outcome
      obtain ⟨messages, ending⟩ := shorter _ (size ▸ fewer) after later later_full rfl
      rw [deliver_message tryAcquire outcome, step]
      exact ⟨congrArg (message :: ·) messages, ending⟩
    | failed same step =>
      rw [deliver_last tryAcquire (by rw [outcome]; exact nofun), outcome, step]
      exact ⟨rfl, .failed same⟩
    | pending after step =>
      rw [deliver_last tryAcquire (by rw [outcome]; exact nofun), outcome, step]
      exact ⟨rfl, .pending after⟩

end Agreement

/-- With a governor that grants everything, the frames of a stream in chunks are read as the
codec reads them from the whole stream: by pushing chunks and taking frames, and by a peer loop
that asks for one message after another. There are the same messages, and then both refuse the
next frame for the same reason, or neither does and the same bytes are left. -/
theorem framers_agree {σ : Type} {tryAcquire : Nat → σ → Bool × σ}
    (grants : ∀ bytes resources, (tryAcquire bytes resources).1 = true) (resources : σ)
    (stream : Bytes) (chunks : List Slice) (split : (chunks.map Subtype.val).flatten = stream) :
    ((receiveAll tryAcquire resources chunks).messages = (drain peerDecoder stream).items ∧
        SameEnding (receiveAll tryAcquire resources chunks).state (drain peerDecoder stream).ending) ∧
      ((∀ chunk ∈ chunks, chunk.val ≠ []) →
        (deliver tryAcquire (new resources) (chunks.map .chunk)).1 = (drain peerDecoder stream).items ∧
          SameOutcome (deliver tryAcquire (new resources) (chunks.map .chunk)).2
            (drain peerDecoder stream).ending) := by
  subst split
  have granted : ¬Denies tryAcquire := fun ⟨bytes, resources, denied⟩ =>
    nomatch denied.symm.trans (grants bytes resources)
  obtain ⟨messages, ending⟩ := receiveAll_mirrors granted resources chunks
  exact ⟨⟨messages, ending⟩, fun full => deliver_tracks granted (new resources) chunks full⟩

/-- A keep-alive and a rejected block, cut inside the length of the second frame. -/
def cutChunks : List Slice := [⟨[0, 0, 0, 0, 0, 0], by decide⟩, ⟨[0, 13] ++ rejectPayload, by decide⟩]

theorem cut_chunks_agree :
    (receiveAll (fun _ resources => (true, resources)) () cutChunks).messages =
        [.keepAlive, .reject 1 2 1] ∧
      (deliver (fun _ resources => (true, resources)) (new ()) (cutChunks.map .chunk)).1 =
        [.keepAlive, .reject 1 2 1] := by
  have read : drain peerDecoder (frames [.keepAlive, .reject 1 2 1]) =
      ⟨[.keepAlive, .reject 1 2 1], .waiting []⟩ :=
    (drain_frames [.keepAlive, .reject 1 2 1] (by decide)).mpr (by decide)
  have agree := @framers_agree Unit (fun _ resources => (true, resources)) (fun _ _ => rfl) ()
    (frames [.keepAlive, .reject 1 2 1]) cutChunks (by decide)
  rw [read] at agree
  exact ⟨agree.1.1, (agree.2 (by decide)).1⟩

end UtpFrameDecoder

end TorrentNG.UtpFrames
