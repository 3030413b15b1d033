import TorrentNG.SequenceNumbers

/-!
# The uTP connection state machine

A connection numbers the packets that consume a sequence number, accepts packets in the order
of their numbers, and acknowledges the last one it accepted with every packet it builds. What
an inbound packet can do to a connection is said once, in `Outcome`, and `onInbound_spec` proves
it.

The round trip estimate, the retransmission timeout and the congestion window are left out:
inbound packets write them and no function here reads them.
-/

namespace TorrentNG.Utp

open SequenceNumbers

inductive PacketType where
  | data
  | fin
  | state
  | reset
  | syn
deriving DecidableEq

structure UtpHeader where
  packetType : PacketType
  version : UInt8
  extension : UInt8
  connectionId : UInt16
  timestampUs : UInt32
  timestampDiff : UInt32
  wndSize : UInt32
  seqNr : UInt16
  ackNr : UInt16
deriving DecidableEq

structure UtpExtension where
  kind : UInt8
  data : List UInt8
deriving DecidableEq

structure UtpPacket where
  header : UtpHeader
  extensions : List UtpExtension
  payload : List UInt8
deriving DecidableEq

structure ConnectionIds where
  send : UInt16
  recv : UInt16
deriving DecidableEq

namespace ConnectionIds

def newSyn (connectionId : UInt16) : ConnectionIds where
  send := connectionId
  recv := connectionId + 1

def fromSynForAcceptor (connectionId : UInt16) : ConnectionIds where
  send := connectionId + 1
  recv := connectionId

def expectedFor (ids : ConnectionIds) : PacketType → UInt16
  | .syn => ids.recv - 1
  | .state | .data | .fin | .reset => ids.recv

end ConnectionIds

inductive ConnectionState where
  | synSent
  | synReceived
  | connected
  | finSent
  | finReceived
  | closing
  | reset
  | closed
deriving DecidableEq

inductive InboundAction where
  | none
  | sendState
  | deliverPayload
  | close
  | reset
deriving DecidableEq

inductive UtpError where
  | invalidStatePacket (state : ConnectionState) (packetType : PacketType)
  | connectionIdMismatch (expected actual : UInt16)
  | ackOutOfWindow (ackNr oldestUnacked newestSent : UInt16)
deriving DecidableEq

def ConnectionIds.validateInbound (ids : ConnectionIds) (header : UtpHeader) :
    Except UtpError Unit :=
  let expected := ids.expectedFor header.packetType
  if header.connectionId = expected then .ok ()
  else .error (.connectionIdMismatch expected header.connectionId)

structure UtpConnection where
  state : ConnectionState
  ids : ConnectionIds
  seqNr : UInt16
  ackNr : UInt16
  lastReceived : Option UInt16
  oldestUnacked : UInt16
  newestSent : UInt16
  remoteWindowBytes : UInt32
  localWindowBytes : UInt32
  bytesInFlight : UInt32
deriving DecidableEq

def defaultInitialWindowBytes : UInt32 := 64 * 1024

/-- Addition that stops at the largest number of 32 bits. -/
def saturatingAdd (first second : UInt32) : UInt32 :=
  if first.toNat + second.toNat < 2 ^ 32 then first + second else 0xffffffff

abbrev sequenceBefore (first second : UInt16) : Bool := before first second

namespace UtpConnection

def connect (connectionId initialSeqNr : UInt16) : UtpConnection where
  state := .synSent
  ids := .newSyn connectionId
  seqNr := initialSeqNr
  ackNr := 0
  lastReceived := none
  oldestUnacked := initialSeqNr
  newestSent := initialSeqNr
  remoteWindowBytes := defaultInitialWindowBytes
  localWindowBytes := defaultInitialWindowBytes
  bytesInFlight := 0

def accept (syn : UtpHeader) (initialSeqNr : UInt16) : Except UtpError UtpConnection :=
  if syn.packetType ≠ .syn then .error (.invalidStatePacket .closed syn.packetType)
  else .ok
    { state := .synReceived
      ids := .fromSynForAcceptor syn.connectionId
      seqNr := initialSeqNr
      ackNr := syn.seqNr
      lastReceived := some syn.seqNr
      oldestUnacked := initialSeqNr
      newestSent := initialSeqNr
      remoteWindowBytes := syn.wndSize
      localWindowBytes := defaultInitialWindowBytes
      bytesInFlight := 0 }

/-! ## Building packets -/

variable (conn : UtpConnection)

def header (packetType : PacketType) (nowUs timestampDiff : UInt32) : UtpHeader where
  packetType
  version := 1
  extension := 0
  connectionId := conn.ids.send
  timestampUs := nowUs
  timestampDiff
  wndSize := conn.localWindowBytes
  seqNr := conn.seqNr
  ackNr := conn.ackNr

def packet (packetType : PacketType) (nowUs timestampDiff : UInt32)
    (payload : List UInt8) : UtpPacket where
  header := conn.header packetType nowUs timestampDiff
  extensions := []
  payload

def markSent (payloadLen : UInt32) : UtpConnection :=
  { conn with
    newestSent := conn.seqNr
    seqNr := conn.seqNr + 1
    bytesInFlight := saturatingAdd conn.bytesInFlight payloadLen }

variable (nowUs : UInt32)

def buildSyn : UtpPacket × UtpConnection :=
  (conn.packet .syn nowUs 0 [], conn.markSent 0)

variable (timestampDiff : UInt32)

/-- The state packet of the handshake consumes a number; those after it do not. -/
def buildState : UtpPacket × UtpConnection :=
  (conn.packet .state nowUs timestampDiff [],
    if conn.state = .synReceived then conn.markSent 0 else conn)

def buildData (payload : List UInt8) : UtpPacket × UtpConnection :=
  (conn.packet .data nowUs timestampDiff payload, conn.markSent payload.length.toUInt32)

def buildFin : UtpPacket × UtpConnection :=
  (conn.packet .fin nowUs timestampDiff [], { conn.markSent 0 with state := .finSent })

/-! ## Inbound packets -/

def applyAck (ackNr : UInt16) : Except UtpError Bool × UtpConnection :=
  if sequenceBefore conn.newestSent ackNr then
    (.error (.ackOutOfWindow ackNr conn.oldestUnacked conn.newestSent), conn)
  else if !sequenceBefore conn.oldestUnacked ackNr && conn.oldestUnacked != ackNr then
    (.ok false, conn)
  else (.ok true, { conn with oldestUnacked := ackNr + 1, bytesInFlight := 0 })

def acceptInboundSequence (seqNr : UInt16) : Bool × UtpConnection :=
  match conn.lastReceived with
  | none => (false, conn)
  | some lastReceived =>
    if seqNr ≠ lastReceived + 1 then (false, conn)
    else (true, { conn with ackNr := seqNr, lastReceived := some seqNr })

/-- What a packet does once its acknowledgement is applied. -/
def dispatch (packet : UtpPacket) : Except UtpError InboundAction × UtpConnection :=
  match packet.header.packetType with
  | .syn => (.error (.invalidStatePacket conn.state .syn), conn)
  | .state =>
    if conn.state = .synSent then
      (.ok .none,
        { conn with
          ackNr := packet.header.seqNr
          lastReceived := some packet.header.seqNr
          state := .connected })
    else if conn.state = .finSent then (.ok .none, { conn with state := .closing })
    else (.ok .none, conn)
  | .data =>
    match conn.acceptInboundSequence packet.header.seqNr with
    | (false, conn) => (.ok .sendState, conn)
    | (true, conn) =>
      (.ok .deliverPayload,
        if conn.state = .synReceived then { conn with state := .connected } else conn)
  | .fin =>
    match conn.acceptInboundSequence packet.header.seqNr with
    | (false, conn) => (.ok .sendState, conn)
    | (true, conn) =>
      (.ok .close,
        { conn with state := if conn.state = .finSent then .closing else .finReceived })
  -- Reset packets do not come here.
  | .reset => (.ok .reset, conn)

def onInbound (packet : UtpPacket) : Except UtpError InboundAction × UtpConnection :=
  match conn.ids.validateInbound packet.header with
  | .error error => (.error error, conn)
  | .ok _ =>
    if packet.header.packetType = .reset then (.ok .reset, { conn with state := .reset })
    else
      match { conn with remoteWindowBytes := packet.header.wndSize }.applyAck
        packet.header.ackNr with
      | (.error error, conn) => (.error error, conn)
      | (.ok _, conn) => conn.dispatch packet

def markClosed : UtpConnection := { conn with state := .closed }

def allSentPacketsAcked : Bool := conn.oldestUnacked == conn.seqNr

section

variable (conn : UtpConnection) (nowUs timestampDiff : UInt32)

theorem seqNr_buildState :
    (conn.buildState nowUs timestampDiff).2.seqNr =
      if conn.state = .synReceived then conn.seqNr + 1 else conn.seqNr := by
  rw [buildState]
  split_ifs
  all_goals rfl

theorem received_buildState : (conn.buildState nowUs timestampDiff).2.state = conn.state ∧
      (conn.buildState nowUs timestampDiff).2.lastReceived = conn.lastReceived ∧
      (conn.buildState nowUs timestampDiff).2.ackNr = conn.ackNr ∧
      (conn.buildState nowUs timestampDiff).2.ids = conn.ids := by
  rw [buildState]
  split_ifs
  all_goals exact ⟨rfl, rfl, rfl, rfl⟩

end

/-! ## What inbound packets do -/

/-- The packet is taken as the next one. -/
structure Accepted (conn : UtpConnection) (packet : UtpPacket) (next : UtpConnection) : Prop where
  inOrder : ∃ last, conn.lastReceived = some last ∧ packet.header.seqNr = last + 1
  lastReceived : next.lastReceived = some packet.header.seqNr
  ackNr : next.ackNr = packet.header.seqNr
  state : next.state ≠ .synReceived ∧ next.state ≠ .synSent

/-- The packet leaves what was received as it is. -/
structure Passed (conn next : UtpConnection) : Prop where
  lastReceived : next.lastReceived = conn.lastReceived
  ackNr : next.ackNr = conn.ackNr
  state : next.state = conn.state ∨ next.state = .reset ∨
    (conn.state = .finSent ∧ next.state = .closing)

/-- All that an inbound packet can do to a connection that is past its own handshake. -/
inductive Outcome (conn : UtpConnection) (packet : UtpPacket) :
    Except UtpError InboundAction → UtpConnection → Prop
  | data {next : UtpConnection} (isData : packet.header.packetType = .data)
      (accepted : Accepted conn packet next) : Outcome conn packet (.ok .deliverPayload) next
  | fin {next : UtpConnection} (isFin : packet.header.packetType = .fin)
      (accepted : Accepted conn packet next) : Outcome conn packet (.ok .close) next
  | outOfOrder {next : UtpConnection} (passed : Passed conn next)
      (same : next.state = conn.state) : Outcome conn packet (.ok .sendState) next
  | reset {next : UtpConnection} (passed : Passed conn next) : Outcome conn packet (.ok .reset) next
  | state {next : UtpConnection} (passed : Passed conn next) : Outcome conn packet (.ok .none) next
  | refused {next : UtpConnection} (error : UtpError) (passed : Passed conn next) :
      Outcome conn packet (.error error) next

/-- An inbound packet does not touch what was sent. -/
structure SameSent (conn next : UtpConnection) : Prop where
  ids : next.ids = conn.ids
  seqNr : next.seqNr = conn.seqNr
  newestSent : next.newestSent = conn.newestSent

variable {conn : UtpConnection} {packet : UtpPacket}

/-- An acknowledgement concerns the packets that were sent. -/
structure SameReceived (conn next : UtpConnection) : Prop extends SameSent conn next where
  lastReceived : next.lastReceived = conn.lastReceived
  ackNr : next.ackNr = conn.ackNr
  state : next.state = conn.state

theorem applyAck_sameReceived (conn : UtpConnection) (ackNr : UInt16) :
    SameReceived conn (conn.applyAck ackNr).2 := by
  rw [applyAck]
  split
  · exact ⟨⟨rfl, rfl, rfl⟩, rfl, rfl, rfl⟩
  · split
    · exact ⟨⟨rfl, rfl, rfl⟩, rfl, rfl, rfl⟩
    · exact ⟨⟨rfl, rfl, rfl⟩, rfl, rfl, rfl⟩

/-- An acknowledgement of a sent packet moves the oldest unacknowledged one past it, if it does
not move it back. -/
theorem oldestUnacked_applyAck {oldest newest ack : Nat} (isOldest : conn.oldestUnacked = wrap oldest)
    (isNewest : conn.newestSent = wrap newest) (sent : ack ≤ newest)
    (window : newest < oldest + 32767) (recent : oldest ≤ ack + 32768) :
    (conn.applyAck (wrap ack)).2.oldestUnacked = wrap (max oldest (ack + 1)) := by
  have old : (!before (wrap oldest) (wrap ack) && wrap oldest != wrap ack) = true ↔ ack < oldest := by
    rw [Bool.and_eq_true, Bool.not_eq_true', bne_iff_ne, ← Bool.not_eq_true,
      before_wrap (by omega) (by omega), ne_eq, wrap_inj (by omega) (by omega)]
    omega
  rw [applyAck, isOldest, isNewest]
  by_cases new : oldest ≤ ack
  · have inWindow : ¬before (wrap newest) (wrap ack) = true := by
      rw [before_wrap (by omega) (by omega)]
      omega
    rw [if_neg inWindow, if_neg (mt old.mp new.not_gt), Nat.max_eq_right (by omega)]
    exact wrap_succ ack
  · rw [Nat.max_eq_left (by omega)]
    split
    next => exact isOldest
    next =>
      rw [if_pos (old.mpr (Nat.lt_of_not_le new))]
      exact isOldest

/-- A sequence number is accepted exactly if it is the next one. -/
theorem acceptInboundSequence_cases (conn : UtpConnection) (seqNr : UInt16) :
    conn.acceptInboundSequence seqNr = (false, conn) ∨
      (∃ last, conn.lastReceived = some last ∧ seqNr = last + 1) ∧
        conn.acceptInboundSequence seqNr =
          (true, { conn with ackNr := seqNr, lastReceived := some seqNr }) := by
  rw [acceptInboundSequence]
  cases known : conn.lastReceived with
  | none => exact .inl rfl
  | some last =>
    by_cases next : seqNr = last + 1
    · refine .inr ⟨⟨last, rfl, next⟩, ?_⟩
      simp only [next, ne_eq, not_true_eq_false, if_false]
    · refine .inl ?_
      simp only [next, ne_eq, not_false_eq_true, if_true]

theorem Passed.refl (conn : UtpConnection) : Passed conn conn := ⟨rfl, rfl, .inl rfl⟩

theorem dispatch_spec (conn : UtpConnection) (packet : UtpPacket) :
    SameSent conn (conn.dispatch packet).2 ∧
      (conn.dispatch packet).2.oldestUnacked = conn.oldestUnacked ∧
      (conn.state ≠ .synSent → packet.header.packetType ≠ .reset →
        Outcome conn packet (conn.dispatch packet).1 (conn.dispatch packet).2) := by
  rw [dispatch]
  cases kind : packet.header.packetType with
  | syn => exact ⟨⟨rfl, rfl, rfl⟩, rfl, fun _ _ => .refused _ (.refl conn)⟩
  | reset => exact ⟨⟨rfl, rfl, rfl⟩, rfl, fun _ notReset => absurd rfl notReset⟩
  | state =>
    dsimp only
    split
    next waiting => exact ⟨⟨rfl, rfl, rfl⟩, rfl, fun past => absurd waiting past⟩
    next =>
      split
      next finished =>
        exact ⟨⟨rfl, rfl, rfl⟩, rfl, fun _ _ => .state ⟨rfl, rfl, .inr (.inr ⟨finished, rfl⟩)⟩⟩
      next => exact ⟨⟨rfl, rfl, rfl⟩, rfl, fun _ _ => .state (.refl conn)⟩
  | data =>
    rcases acceptInboundSequence_cases conn packet.header.seqNr with old | ⟨inOrder, new⟩
    · simp only [old]
      exact ⟨⟨rfl, rfl, rfl⟩, trivial, fun _ _ => .outOfOrder (.refl conn) rfl⟩
    · simp only [new]
      split
      next =>
        exact ⟨⟨rfl, rfl, rfl⟩, rfl, fun _ _ => .data kind ⟨inOrder, rfl, rfl, nofun, nofun⟩⟩
      next waiting =>
        exact ⟨⟨rfl, rfl, rfl⟩, rfl, fun past _ => .data kind ⟨inOrder, rfl, rfl, waiting, past⟩⟩
  | fin =>
    rcases acceptInboundSequence_cases conn packet.header.seqNr with old | ⟨inOrder, new⟩
    · simp only [old]
      exact ⟨⟨rfl, rfl, rfl⟩, trivial, fun _ _ => .outOfOrder (.refl conn) rfl⟩
    · simp only [new]
      refine ⟨⟨rfl, rfl, rfl⟩, trivial, fun _ _ => .fin kind ⟨inOrder, rfl, rfl, ?_⟩⟩
      split_ifs
      all_goals exact ⟨nofun, nofun⟩

/-- The outcome for a connection with another window or another acknowledged packet. -/
theorem Outcome.of_sameReceived {before next : UtpConnection}
    {result : Except UtpError InboundAction} (same : SameReceived before conn)
    (outcome : Outcome conn packet result next) : Outcome before packet result next := by
  have passes : Passed conn next → Passed before next := by
    rintro ⟨lastReceived, ackNr, state⟩
    rw [same.state] at state
    exact ⟨lastReceived.trans same.lastReceived, ackNr.trans same.ackNr, state⟩
  have accepts : Accepted conn packet next → Accepted before packet next := by
    rintro ⟨inOrder, lastReceived, ackNr, state⟩
    rw [same.lastReceived] at inOrder
    exact ⟨inOrder, lastReceived, ackNr, state⟩
  cases outcome with
  | data isData accepted => exact .data isData (accepts accepted)
  | fin isFin accepted => exact .fin isFin (accepts accepted)
  | outOfOrder passed unchanged => exact .outOfOrder (passes passed) (unchanged.trans same.state)
  | reset passed => exact .reset (passes passed)
  | state passed => exact .state (passes passed)
  | refused error passed => exact .refused error (passes passed)

/-- A packet is refused for its connection id, or resets the connection, or has its
acknowledgement applied and is then dispatched. -/
theorem onInbound_cases (conn : UtpConnection) (packet : UtpPacket) :
    (packet.header.connectionId ≠ conn.ids.expectedFor packet.header.packetType ∧
        ∃ error, conn.onInbound packet = (.error error, conn)) ∨
      packet.header.connectionId = conn.ids.expectedFor packet.header.packetType ∧
        ((packet.header.packetType = .reset ∧
          conn.onInbound packet = (.ok .reset, { conn with state := .reset })) ∨
        packet.header.packetType ≠ .reset ∧ ∃ result after,
          { conn with remoteWindowBytes := packet.header.wndSize }.applyAck packet.header.ackNr =
            (result, after) ∧ SameReceived conn after ∧
          match result with
          | .error error => conn.onInbound packet = (.error error, after)
          | .ok _ => conn.onInbound packet = after.dispatch packet) := by
  rw [onInbound, ConnectionIds.validateInbound]
  by_cases addressed : packet.header.connectionId = conn.ids.expectedFor packet.header.packetType
  · rw [if_pos addressed]
    refine .inr ⟨addressed, ?_⟩
    by_cases isReset : packet.header.packetType = .reset
    · rw [if_pos isReset]
      exact .inl ⟨isReset, rfl⟩
    · rw [if_neg isReset]
      refine .inr ⟨isReset, ?_⟩
      have same := applyAck_sameReceived
        { conn with remoteWindowBytes := packet.header.wndSize } packet.header.ackNr
      generalize applyAck { conn with remoteWindowBytes := packet.header.wndSize }
        packet.header.ackNr = acked at same ⊢
      obtain ⟨result, after⟩ := acked
      refine ⟨result, after, rfl, { same with }, ?_⟩
      cases result <;> rfl
  · rw [if_neg addressed]
    exact .inl ⟨addressed, _, rfl⟩

theorem onInbound_spec (conn : UtpConnection) (packet : UtpPacket) :
    SameSent conn (conn.onInbound packet).2 ∧ (conn.state ≠ .synSent →
      Outcome conn packet (conn.onInbound packet).1 (conn.onInbound packet).2) := by
  rcases onInbound_cases conn packet with ⟨_, error, refused⟩ | ⟨_, ⟨_, reset⟩ |
    ⟨notReset, result, after, _, same, handled⟩⟩
  · rw [refused]
    exact ⟨⟨rfl, rfl, rfl⟩, fun _ => .refused error (.refl conn)⟩
  · rw [reset]
    exact ⟨⟨rfl, rfl, rfl⟩, fun _ => .reset ⟨rfl, rfl, .inr (.inl rfl)⟩⟩
  · cases result with
    | error error =>
      rw [handled]
      exact ⟨same.toSameSent, fun _ =>
        .refused error ⟨same.lastReceived, same.ackNr, .inl same.state⟩⟩
    | ok advanced =>
      obtain ⟨later, _, outcome⟩ := dispatch_spec after packet
      rw [handled]
      refine ⟨⟨later.ids.trans same.ids, later.seqNr.trans same.seqNr,
        later.newestSent.trans same.newestSent⟩, fun past => .of_sameReceived same ?_⟩
      exact outcome (same.state.trans_ne past) notReset

/-- A connection stays past its handshake. -/
theorem Outcome.past {next : UtpConnection} {result : Except UtpError InboundAction}
    (outcome : Outcome conn packet result next) (past : conn.state ≠ .synSent) :
    next.state ≠ .synSent := by
  have passes : Passed conn next → next.state ≠ .synSent := by
    rintro ⟨_, _, kept | reset | ⟨_, closing⟩⟩
    · rw [kept]
      exact past
    · rw [reset]
      decide
    · rw [closing]
      decide
  cases outcome with
  | data _ accepted | fin _ accepted => exact accepted.state.2
  | outOfOrder passed _ | reset passed | state passed | refused _ passed => exact passes passed

/-- An addressed packet has its acknowledgement applied, whatever becomes of it then. -/
theorem onInbound_oldestUnacked
    (addressed : packet.header.connectionId = conn.ids.expectedFor packet.header.packetType)
    (notReset : packet.header.packetType ≠ .reset) : (conn.onInbound packet).2.oldestUnacked =
      (conn.applyAck packet.header.ackNr).2.oldestUnacked := by
  have window : ∀ bytes : UInt32,
      ({ conn with remoteWindowBytes := bytes }.applyAck packet.header.ackNr).2.oldestUnacked =
        (conn.applyAck packet.header.ackNr).2.oldestUnacked := by
    intro bytes
    simp only [applyAck]
    split
    · rfl
    · split <;> rfl
  rcases onInbound_cases conn packet with ⟨other, _⟩ | ⟨_, ⟨isReset, _⟩ |
    ⟨_, result, after, applied, same, handled⟩⟩
  · exact absurd addressed other
  · exact absurd isReset notReset
  · rw [← window packet.header.wndSize, applied]
    cases result with
    | error error => rw [handled]
    | ok advanced => rw [handled, (dispatch_spec after packet).2.1]

end UtpConnection

end TorrentNG.Utp
