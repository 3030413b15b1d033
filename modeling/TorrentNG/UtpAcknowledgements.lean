import TorrentNG.Runs
import TorrentNG.UtpConnection

/-!
# What a peer can do to a uTP connection

Two things the other side should not be able to do: acknowledge what was not sent, and bring an
ended connection back. Both checks are there, and both have a gap.
-/

namespace TorrentNG.Utp

open Runs SequenceNumbers

namespace UtpConnection

/-! ## Acknowledgements -/

variable (conn : UtpConnection)

/-- The acknowledgement number moves the oldest unacknowledged packet. -/
def Advances (ackNr : UInt16) : Prop :=
  (conn.applyAck ackNr).1 = .ok true

/-- A packet was sent, and not every packet is acknowledged. -/
def HasUnacked : Prop :=
  conn.newestSent + 1 = conn.seqNr ∧ conn.oldestUnacked ≠ conn.seqNr

/-- The number lies in the circle from the oldest unacknowledged packet to the newest one. -/
def InFlight (ackNr : UInt16) : Prop :=
  conn.HasUnacked ∧ ackNr - conn.oldestUnacked ≤ conn.newestSent - conn.oldestUnacked

/-- In steps from the oldest unacknowledged packet, a number advances it if it is less than half
a turn away and at most half a turn before the newest packet. -/
theorem advances_iff {conn : UtpConnection} {ackNr : UInt16} :
    (conn.Advances ackNr ↔ (ackNr - conn.oldestUnacked).toNat < 32768 ∧
      (conn.newestSent - ackNr).toNat ≤ 32768) ∧
    (conn.Advances ackNr → (conn.applyAck ackNr).2.oldestUnacked = ackNr + 1) := by
  have oldest := conn.oldestUnacked.toNat_lt
  have small := ackNr.toNat_lt
  have old : (!sequenceBefore conn.oldestUnacked ackNr && conn.oldestUnacked != ackNr) = true ↔
      ¬(ackNr - conn.oldestUnacked).toNat < 32768 := by
    rw [Bool.and_eq_true, Bool.not_eq_true', ← Bool.not_eq_true, before_iff, bne_iff_ne, Ne,
      ← UInt16.toNat_inj, toNat_difference, toNat_difference]
    omega
  delta Advances applyAck
  split
  next refused =>
    have far := before_iff.mp refused
    exact ⟨iff_of_false nofun fun both => absurd both.2 (Nat.not_le.mpr far), nofun⟩
  next refused =>
    have close := Nat.not_lt.mp (mt before_iff.mpr refused)
    split
    next passed => exact ⟨iff_of_false nofun fun both => old.mp passed both.1, nofun⟩
    next new => exact ⟨iff_of_true rfl ⟨not_not.mp (mt old.mpr new), close⟩, fun _ => rfl⟩

variable {conn : UtpConnection}

/-- Exactly if a packet is unacknowledged, only numbers in flight advance the oldest one, and it
moves forward by no more than the packets in flight. -/
theorem acknowledges_sent_iff (conn : UtpConnection) :
    (∀ ackNr, conn.Advances ackNr → conn.InFlight ackNr ∧
      (conn.applyAck ackNr).2.oldestUnacked - conn.oldestUnacked ≤
        conn.seqNr - conn.oldestUnacked) ↔
    conn.HasUnacked := by
  have oldest := conn.oldestUnacked.toNat_lt
  constructor
  · -- some number always advances: the oldest packet, or half a turn before the newest one
    intro sound
    by_cases near : (conn.newestSent - conn.oldestUnacked).toNat ≤ 32768
    · refine (sound conn.oldestUnacked ?_).1.1
      rw [advances_iff.1, UInt16.sub_self]
      exact ⟨by decide, near⟩
    · refine (sound (conn.newestSent - 32768) ?_).1.1
      have half : (conn.newestSent - 32768).toNat = (65536 - 32768 + conn.newestSent.toNat) % 65536 :=
        toNat_difference _ _
      rw [toNat_difference] at near
      rw [advances_iff.1, toNat_difference _ conn.oldestUnacked,
        toNat_difference _ (conn.newestSent - 32768), half]
      omega
  · rintro ⟨sent, unacked⟩ ackNr advances
    have small := ackNr.toNat_lt
    have number := advances_iff.1.mp advances
    have next : conn.seqNr.toNat = (conn.newestSent.toNat + 1) % 65536 := by
      rw [← sent]
      exact UInt16.toNat_add _ _
    have moved : (ackNr + 1).toNat = (ackNr.toNat + 1) % 65536 := UInt16.toNat_add _ _
    have different : conn.oldestUnacked.toNat ≠ conn.seqNr.toNat := mt UInt16.toNat_inj.mp unacked
    rw [toNat_difference, toNat_difference] at number
    rw [advances_iff.2 advances, InFlight, UInt16.le_iff_toNat_le, UInt16.le_iff_toNat_le]
    simp only [toNat_difference, moved]
    exact ⟨⟨⟨sent, unacked⟩, by omega⟩, by omega⟩

/-- A state packet for the connection with id 7. -/
def stateFor (seqNr ackNr : UInt16) : UtpPacket :=
  ⟨⟨.state, 1, 0, 8, 0, 0, 1000, seqNr, ackNr⟩, [], []⟩

/-- A connection whose only packet, the first one, is acknowledged. -/
def connected : UtpConnection :=
  (((connect 7 100).buildSyn 0).2.onInbound (stateFor 500 100)).2

/-- Half a turn after the newest packet, an acknowledgement of nothing is taken, and the oldest
unacknowledged packet moves past the next one to be sent. -/
theorem forged_ack_advances :
    connected.state = .connected ∧ connected.seqNr = 101 ∧ connected.oldestUnacked = 101 ∧
      connected.Advances (100 + 32768) ∧
      (connected.onInbound (stateFor 501 (100 + 32768))).2.oldestUnacked = 32869 := by
  unfold Advances
  decide

/-! ## Ended connections -/

/-- The connection was reset or closed. -/
def Ended (conn : UtpConnection) : Prop := conn.state = .reset ∨ conn.state = .closed

/-- The packet takes a number of the stream, and it is the next one. -/
def NextInStream (conn : UtpConnection) (packet : UtpPacket) : Prop :=
  (packet.header.packetType = .data ∨ packet.header.packetType = .fin) ∧
    conn.lastReceived.map (· + 1) = some packet.header.seqNr

/-- The packet goes on with the stream: it is addressed to the connection, its acknowledgement is
not refused, and it is the next one. -/
def Continues (conn : UtpConnection) (packet : UtpPacket) : Prop :=
  packet.header.connectionId = conn.ids.expectedFor packet.header.packetType ∧
    ¬sequenceBefore conn.newestSent packet.header.ackNr = true ∧ conn.NextInStream packet

/-- The packet delivers nothing, and the connection stays ended. -/
def StaysEnded (conn : UtpConnection) (packet : UtpPacket) : Prop :=
  (conn.onInbound packet).1 ≠ .ok .deliverPayload ∧ (conn.onInbound packet).2.Ended

/-- The connection after a packet. -/
def receive (conn : UtpConnection) (packet : UtpPacket) : UtpConnection :=
  (conn.onInbound packet).2

theorem acceptInboundSequence_inOrder {seqNr : UInt16}
    (inOrder : conn.lastReceived.map (· + 1) = some seqNr) :
    conn.acceptInboundSequence seqNr =
      (true, { conn with ackNr := seqNr, lastReceived := some seqNr }) := by
  obtain ⟨last, known, rfl⟩ := Option.map_eq_some_iff.mp inOrder
  simp only [acceptInboundSequence, known, ne_eq, not_true_eq_false, if_false]

theorem acceptInboundSequence_outOfOrder {seqNr : UInt16}
    (outOfOrder : ¬conn.lastReceived.map (· + 1) = some seqNr) :
    conn.acceptInboundSequence seqNr = (false, conn) := by
  rcases acceptInboundSequence_cases conn seqNr with old | ⟨⟨last, known, rfl⟩, _⟩
  · exact old
  · exact absurd (congrArg (Option.map (· + 1)) known) outOfOrder

variable {packet : UtpPacket}

theorem dispatch_ended_iff (ended : conn.Ended)
    (notReset : packet.header.packetType ≠ .reset) :
    ((conn.dispatch packet).1 ≠ .ok .deliverPayload ∧ (conn.dispatch packet).2.Ended) ↔
      ¬conn.NextInStream packet := by
  have waiting : conn.state ≠ .synSent := by rcases ended with h | h <;> rw [h] <;> decide
  have open_ : conn.state ≠ .finSent := by rcases ended with h | h <;> rw [h] <;> decide
  delta dispatch NextInStream
  by_cases inOrder : conn.lastReceived.map (· + 1) = some packet.header.seqNr
  · rw [acceptInboundSequence_inOrder inOrder]
    cases kind : packet.header.packetType with
    | syn => exact iff_of_true ⟨nofun, ended⟩ nofun
    | reset => exact absurd kind notReset
    | state =>
      simp only [waiting, open_, if_false]
      exact iff_of_true ⟨nofun, ended⟩ nofun
    | data => exact iff_of_false (fun stays => stays.1 rfl) fun not => not ⟨.inl rfl, inOrder⟩
    | fin =>
      -- the one branch that sets the state of an ended connection
      simp only [open_, if_false]
      exact iff_of_false (fun stays => stays.2.elim nofun nofun) fun not => not ⟨.inr trivial, inOrder⟩
  · rw [acceptInboundSequence_outOfOrder inOrder]
    refine iff_of_true ?_ fun next => inOrder next.2
    cases kind : packet.header.packetType with
    | reset => exact absurd kind notReset
    | state =>
      simp only [waiting, open_, if_false]
      exact ⟨nofun, ended⟩
    | syn | data | fin => exact ⟨nofun, ended⟩

theorem applyAck_refuses_iff (conn : UtpConnection) (ackNr : UInt16) :
    (∃ error, (conn.applyAck ackNr).1 = .error error) ↔
      sequenceBefore conn.newestSent ackNr = true := by
  delta applyAck
  split
  next refused => exact iff_of_true ⟨_, rfl⟩ refused
  next refused =>
    refine iff_of_false ?_ refused
    split <;> exact nofun

theorem staysEnded_iff (ended : conn.Ended) :
    conn.StaysEnded packet ↔ ¬conn.Continues packet := by
  rw [StaysEnded, Continues]
  rcases onInbound_cases conn packet with ⟨other, error, refused⟩ | ⟨addressed, ⟨isReset, reset⟩ |
    ⟨notReset, result, after, applied, same, handled⟩⟩
  · rw [refused]
    exact iff_of_true ⟨nofun, ended⟩ fun goesOn => other goesOn.1
  · rw [reset]
    refine iff_of_true ⟨nofun, .inl rfl⟩ ?_
    rintro ⟨_, _, kind | kind, _⟩ <;> cases isReset.symm.trans kind
  · have refuses := applyAck_refuses_iff
      { conn with remoteWindowBytes := packet.header.wndSize } packet.header.ackNr
    rw [applied] at refuses
    have endedAfter : after.Ended := by
      rw [Ended, same.state]
      exact ended
    cases result with
    | error error =>
      rw [handled]
      exact iff_of_true ⟨nofun, endedAfter⟩ fun goesOn => goesOn.2.1 (refuses.mp ⟨error, rfl⟩)
    | ok advanced =>
      have taken := mt refuses.mpr (fun ⟨_, refused⟩ => nomatch refused)
      rw [handled, dispatch_ended_iff endedAfter notReset, NextInStream, NextInStream,
        same.lastReceived, and_iff_right addressed, and_iff_right taken]

/-- A connection that was reset or closed stays so and delivers nothing exactly as long as no
packet goes on with its stream. -/
theorem ended_stays_iff (conn : UtpConnection) (packets : List UtpPacket) (ended : conn.Ended) :
    Each receive StaysEnded conn packets ↔
      Each receive (fun conn packet => ¬conn.Continues packet) conn packets := by
  induction packets generalizing conn with
  | nil => exact Iff.rfl
  | cons packet packets ih =>
    rw [Each, Each, staysEnded_iff ended]
    refine and_congr_right fun goesOn => ih _ ?_
    exact ((staysEnded_iff ended).mpr goesOn).2

/-- A packet of the stream for the connection with id 7. -/
def streamFor (packetType : PacketType) (seqNr : UInt16) (payload : List UInt8) : UtpPacket :=
  ⟨⟨packetType, 1, 0, 8, 0, 0, 1000, seqNr, 100⟩, [], payload⟩

/-- Reset, and then sent a state packet and one out of order. -/
theorem reset_stays :
    Each receive StaysEnded (connected.receive (streamFor .reset 0 []))
      [stateFor 501 100, streamFor .data 502 [1]] :=
  (ended_stays_iff _ _ (.inl (by decide))).mpr (by
    unfold Continues NextInStream
    decide)

/-- After a reset, data in order is still delivered and a fin in order sets the state. -/
theorem reset_connection_delivers :
    (connected.receive (streamFor .reset 0 [])).state = .reset ∧
      ((connected.receive (streamFor .reset 0 [])).onInbound (streamFor .data 501 [1])).1 =
        .ok .deliverPayload ∧
      ((connected.receive (streamFor .reset 0 [])).receive (streamFor .fin 501 [])).state =
        .finReceived ∧
      (connected.markClosed.onInbound (streamFor .data 501 [1])).1 = .ok .deliverPayload ∧
      (connected.markClosed.receive (streamFor .fin 501 [])).state = .finReceived := by
  decide

/-! ## Rejected packets -/

/-- An acknowledgement after a new window writes nothing exactly if the window is the known one and
the oldest unacknowledged packet does not advance. -/
theorem applyAck_window_iff {ackNr : UInt16} {window : UInt32} :
    ({ conn with remoteWindowBytes := window }.applyAck ackNr).2 = conn ↔
      window = conn.remoteWindowBytes ∧ ¬conn.Advances ackNr := by
  have outcome : ({ conn with remoteWindowBytes := window }.applyAck ackNr).2 =
        { conn with remoteWindowBytes := window } ∧ ¬conn.Advances ackNr ∨
      ({ conn with remoteWindowBytes := window }.applyAck ackNr).2.oldestUnacked = ackNr + 1 ∧
        conn.Advances ackNr := by
    delta Advances applyAck
    split_ifs
    · exact .inl ⟨rfl, nofun⟩
    · exact .inl ⟨rfl, nofun⟩
    · exact .inr ⟨rfl, rfl⟩
  rcases outcome with ⟨written, fixed⟩ | ⟨moved, advances⟩
  · rw [written]
    exact ⟨fun same => ⟨congrArg remoteWindowBytes same, fixed⟩, fun same => by rw [same.1]⟩
  · refine iff_of_false (fun same => ?_) fun both => both.2 advances
    have near := (advances_iff.1.mp advances).1
    have small := ackNr.toNat_lt
    have next : (ackNr + 1).toNat = (ackNr.toNat + 1) % 65536 := UInt16.toNat_add _ _
    rw [same] at moved
    rw [moved, toNat_difference, next] at near
    omega

theorem dispatch_error {error : UtpError}
    (rejected : (conn.dispatch packet).1 = .error error) : (conn.dispatch packet).2 = conn := by
  delta dispatch at rejected ⊢
  cases kind : packet.header.packetType with
  | syn | reset => rfl
  | state | data | fin =>
    rw [kind] at rejected
    dsimp only at rejected
    repeat' split at rejected
    all_goals cases rejected

/-- A packet is checked while it is being applied: rejected, it leaves the connection as it was
exactly if it is for another connection, or repeats the window and acknowledges nothing new. -/
theorem rejected_unchanged_iff (conn : UtpConnection) (packet : UtpPacket)
    (rejected : ∃ error, (conn.onInbound packet).1 = .error error) :
    conn.receive packet = conn ↔
      packet.header.connectionId ≠ conn.ids.expectedFor packet.header.packetType ∨
        packet.header.wndSize = conn.remoteWindowBytes ∧ ¬conn.Advances packet.header.ackNr := by
  obtain ⟨error, failed⟩ := rejected
  rcases onInbound_cases conn packet with ⟨other, _, refused⟩ | ⟨addressed, ⟨_, reset⟩ |
    ⟨_, result, after, applied, _, handled⟩⟩
  · rw [receive, refused]
    exact iff_of_true rfl (.inl other)
  · rw [reset] at failed
    cases failed
  · have written : conn.receive packet = after := by
      cases result with
      | error _ => rw [receive, handled]
      | ok _ =>
        rw [handled] at failed
        rw [receive, handled, dispatch_error failed]
    rw [written, or_iff_right (not_not_intro addressed), ← applyAck_window_iff, applied]

/-- Refused for its acknowledgement, a packet that repeats the window changes nothing. -/
theorem repeated_window_unchanged : connected.receive (stateFor 501 200) = connected :=
  (rejected_unchanged_iff _ _ ⟨_, rfl⟩).mpr (.inr ⟨by decide, by unfold Advances; decide⟩)

end UtpConnection

end TorrentNG.Utp
