import TorrentNG.UtpAcknowledgements

/-!
# Which uTP packets consume sequence numbers

An acceptor sends a state packet to complete the handshake, which consumes its initial number,
and is in the state of the handshake until it accepts a packet. State packets that answer
inbound packets consume no number, except that an answer to a packet out of order is built in
the state of the handshake as well and consumes another one. The number of every data packet is
given by the numbers consumed before it. Data packets are numbered as their receiver expects
exactly if no packet that overtakes, in the state of the handshake, comes before one of them.
-/

namespace TorrentNG.Utp

open Runs SequenceNumbers UInt16 UtpConnection List

variable {conn : UtpConnection} {packet : UtpPacket}

namespace UtpConnection

/-- The answer of a stream to an inbound packet, as `receive_into_buffer` gives it. -/
def answer (conn : UtpConnection) (packet : UtpPacket) (nowUs timestampDiff : UInt32) :
    UtpConnection :=
  match conn.onInbound packet with
  | (.ok .deliverPayload, conn) | (.ok .sendState, conn) => (conn.buildState nowUs timestampDiff).2
  | (.ok .close, conn) => (conn.buildState nowUs timestampDiff).2.markClosed
  | (.ok .reset, conn) => conn.markClosed
  | (.ok .none, conn) | (.error _, conn) => conn

/-- The packet overtakes the one that would end the handshake: it is data or a fin for the waiting
acceptor, with an acknowledgement that is not refused and a number that is not the next one. -/
def Overtakes (conn : UtpConnection) (packet : UtpPacket) : Prop :=
  conn.state = .synReceived ∧
    (packet.header.packetType = .data ∨ packet.header.packetType = .fin) ∧
    packet.header.connectionId = conn.ids.recv ∧
    ¬sequenceBefore conn.newestSent packet.header.ackNr = true ∧
    conn.lastReceived.map (· + 1) ≠ some packet.header.seqNr

instance (conn : UtpConnection) (packet : UtpPacket) : Decidable (conn.Overtakes packet) :=
  inferInstanceAs (Decidable (_ ∧ _))

theorem dispatch_sendState_iff (conn : UtpConnection) (packet : UtpPacket) :
    (conn.dispatch packet).1 = .ok .sendState ↔
      (packet.header.packetType = .data ∨ packet.header.packetType = .fin) ∧
        conn.lastReceived.map (· + 1) ≠ some packet.header.seqNr := by
  rw [dispatch]
  by_cases inOrder : conn.lastReceived.map (· + 1) = some packet.header.seqNr
  · rw [acceptInboundSequence_inOrder inOrder]
    refine iff_of_false ?_ fun early => early.2 inOrder
    cases packet.header.packetType with
    | state =>
      dsimp only
      split_ifs <;> simp
    | syn | data | fin | reset => simp
  · rw [acceptInboundSequence_outOfOrder inOrder, and_iff_left inOrder]
    cases packet.header.packetType with
    | state =>
      dsimp only
      split_ifs <;> simp
    | data => exact iff_of_true rfl (.inl rfl)
    | fin => exact iff_of_true rfl (.inr rfl)
    | syn | reset => simp

/-- Exactly the packets that overtake are answered in the state of the handshake. -/
theorem overtakes_iff : conn.Overtakes packet ↔
    conn.state = .synReceived ∧ (conn.onInbound packet).1 = .ok .sendState := by
  rw [Overtakes, and_congr_right_iff]
  intro _
  have expected (stream : packet.header.packetType = .data ∨ packet.header.packetType = .fin) :
      conn.ids.expectedFor packet.header.packetType = conn.ids.recv := by
    rcases stream with kind | kind <;> rw [kind] <;> rfl
  rcases onInbound_cases conn packet with ⟨other, error, refused⟩ | ⟨addressed, ⟨isReset, reset⟩ |
    ⟨notReset, result, after, applied, same, handled⟩⟩
  · rw [refused]
    refine iff_of_false ?_ nofun
    rintro ⟨stream, own, _⟩
    exact other (own.trans (expected stream).symm)
  · rw [reset]
    refine iff_of_false ?_ nofun
    rintro ⟨kind | kind, _⟩ <;> cases isReset.symm.trans kind
  · have refuses := applyAck_refuses_iff
      { conn with remoteWindowBytes := packet.header.wndSize } packet.header.ackNr
    rw [applied] at refuses
    cases result with
    | error error =>
      rw [handled]
      exact iff_of_false (fun early => early.2.2.1 (refuses.mp ⟨error, rfl⟩)) nofun
    | ok advanced =>
      have taken := mt refuses.mpr (fun ⟨_, refused⟩ => nomatch refused)
      rw [handled, dispatch_sendState_iff, same.lastReceived, and_congr_right_iff]
      intro stream
      rw [← expected stream, and_iff_right addressed, and_iff_right taken]

/-- An answer consumes a number exactly if the packet overtakes. -/
theorem answer_spec (past : conn.state ≠ .synSent) (packet : UtpPacket)
    (nowUs timestampDiff : UInt32) :
    (conn.answer packet nowUs timestampDiff).state ≠ .synSent ∧
      (conn.answer packet nowUs timestampDiff).seqNr =
        if conn.Overtakes packet then conn.seqNr + 1 else conn.seqNr := by
  obtain ⟨same, outcome⟩ := onInbound_spec conn packet
  replace outcome := outcome past
  simp only [answer, overtakes_iff]
  generalize conn.onInbound packet = handled at outcome same ⊢
  obtain ⟨result, next⟩ := handled
  have pastNext := outcome.past past
  have closes : ∀ conn : UtpConnection, conn.markClosed.state ≠ .synSent ∧
      conn.markClosed.seqNr = conn.seqNr := fun conn => ⟨ConnectionState.noConfusion, rfl⟩
  cases outcome with
  | data _ accepted =>
    rw [(received_buildState ..).1, seqNr_buildState, if_neg accepted.state.1, if_neg (by simp)]
    exact ⟨pastNext, same.seqNr⟩
  | fin _ accepted =>
    rw [(closes _).2, seqNr_buildState, if_neg accepted.state.1, if_neg (by simp)]
    exact ⟨(closes _).1, same.seqNr⟩
  | outOfOrder passed unchanged =>
    rw [(received_buildState ..).1, seqNr_buildState, unchanged, same.seqNr]
    refine ⟨past, ?_⟩
    simp only [and_true]
  | reset passed =>
    rw [if_neg (by simp)]
    exact ⟨(closes _).1, same.seqNr⟩
  | state passed | refused error passed =>
    rw [if_neg (by simp)]
    exact ⟨pastNext, same.seqNr⟩

end UtpConnection

/-! ## An acceptor at work -/

/-- An acceptor, the numbers of its data packets, each with how many packets had overtaken before
it was built, and how many have so far. -/
structure Acceptor where
  conn : UtpConnection
  data : List (UInt16 × Nat)
  early : Nat

inductive Event where
  | inbound (packet : UtpPacket) (nowUs timestampDiff : UInt32)
  | data (nowUs timestampDiff : UInt32) (payload : List UInt8)

def Acceptor.step (acceptor : Acceptor) : Event → Acceptor
  | .inbound packet nowUs timestampDiff =>
    { acceptor with
      conn := acceptor.conn.answer packet nowUs timestampDiff
      early := acceptor.early + if acceptor.conn.Overtakes packet then 1 else 0 }
  | .data nowUs timestampDiff payload =>
    let (packet, conn) := acceptor.conn.buildData nowUs timestampDiff payload
    { acceptor with conn, data := acceptor.data ++ [(packet.header.seqNr, acceptor.early)] }

/-- The acceptor once it has built the state packet of the handshake. -/
def Acceptor.start (conn : UtpConnection) (nowUs timestampDiff : UInt32) : Acceptor where
  conn := (conn.buildState nowUs timestampDiff).2
  data := []
  early := 0

/-- A receiver accepts the numbers one after another. -/
def AcceptsAll (conn : UtpConnection) : List UInt16 → Prop
  | [] => True
  | seqNr :: rest =>
    (conn.acceptInboundSequence seqNr).1 = true ∧
      AcceptsAll (conn.acceptInboundSequence seqNr).2 rest

/-- Every number that was consumed is accounted for. -/
structure Accounted (initialSeqNr : UInt16) (acceptor : Acceptor) : Prop where
  past : acceptor.conn.state ≠ .synSent
  next : acceptor.conn.seqNr = initialSeqNr + 1 + wrap (acceptor.data.length + acceptor.early)
  data : ∀ index seqNr early, acceptor.data[index]? = some (seqNr, early) →
    seqNr = initialSeqNr + 1 + wrap (index + early)

variable {initialSeqNr : UInt16}

theorem Accounted.step {acceptor : Acceptor} (accounted : Accounted initialSeqNr acceptor)
    (event : Event) : Accounted initialSeqNr (acceptor.step event) := by
  have following : ∀ count, initialSeqNr + 1 + wrap count + 1 = initialSeqNr + 1 + wrap (count + 1) :=
    fun count => by rw [add_assoc, wrap_succ]
  cases event with
  | inbound packet nowUs timestampDiff =>
    obtain ⟨past, seqNr⟩ := answer_spec accounted.past packet nowUs timestampDiff
    refine ⟨past, ?_, accounted.data⟩
    simp only [Acceptor.step, seqNr]
    split_ifs
    · rw [accounted.next, following, Nat.add_assoc]
    · exact accounted.next
  | data nowUs timestampDiff payload =>
    refine ⟨accounted.past, ?_, ?_⟩
    · have consumed : (acceptor.step (.data nowUs timestampDiff payload)).conn.seqNr =
          acceptor.conn.seqNr + 1 := rfl
      rw [consumed, accounted.next, following]
      simp only [Acceptor.step, length_append, length_singleton]
      rw [Nat.add_right_comm]
    · intro index seqNr early found
      simp only [Acceptor.step] at found
      by_cases old : index < acceptor.data.length
      · rw [getElem?_append_left old] at found
        exact accounted.data index seqNr early found
      · rw [getElem?_append_right (Nat.not_lt.mp old), getElem?_singleton] at found
        split at found
        next =>
          obtain ⟨rfl, rfl⟩ := Prod.mk.inj (Option.some.inj found)
          have here : index = acceptor.data.length := by omega
          rw [here]
          exact accounted.next
        next => exact nomatch found

/-- The numbers follow one another from the one after the initial number on. -/
def Consecutive (initialSeqNr : UInt16) (numbers : List UInt16) : Prop :=
  ∀ index seqNr, numbers[index]? = some seqNr → seqNr = initialSeqNr + 1 + wrap index

theorem consecutive_cons {seqNr : UInt16} {rest : List UInt16} :
    Consecutive initialSeqNr (seqNr :: rest) ↔
      seqNr = initialSeqNr + 1 ∧ Consecutive seqNr rest := by
  have shifted : ∀ index, initialSeqNr + 1 + wrap (index + 1) =
      initialSeqNr + 1 + 1 + wrap index := by
    intro index
    rw [← wrap_succ, add_comm (wrap index) 1, ← add_assoc]
  constructor
  · intro consecutive
    have first : seqNr = initialSeqNr + 1 := by
      rw [consecutive 0 seqNr rfl]
      exact add_zero _
    refine ⟨first, fun index later found => ?_⟩
    rw [consecutive (index + 1) later found, shifted, first]
  · rintro ⟨rfl, consecutive⟩ index later found
    cases index with
    | zero =>
      obtain rfl := Option.some.inj found
      exact (add_zero _).symm
    | succ index =>
      rw [shifted]
      exact consecutive index later found

/-- A receiver accepts exactly the numbers that follow one another. -/
theorem acceptsAll_iff {numbers : List UInt16} (received : conn.lastReceived = some initialSeqNr) :
    AcceptsAll conn numbers ↔ Consecutive initialSeqNr numbers := by
  induction numbers generalizing conn initialSeqNr with
  | nil => exact iff_of_true trivial nofun
  | cons seqNr rest ih =>
    rw [AcceptsAll, consecutive_cons, acceptInboundSequence, received]
    by_cases next : seqNr = initialSeqNr + 1
    · simp only [next, ne_eq, not_true_eq_false, if_false, true_and]
      exact ih rfl
    · simp only [next, ne_eq, not_false_eq_true, if_true, Bool.false_eq_true, false_and]

theorem accept_spec {syn : UtpHeader} (accepted : accept syn initialSeqNr = .ok conn) :
    conn.seqNr = initialSeqNr ∧ conn.state = .synReceived := by
  rw [accept] at accepted
  by_cases isSyn : syn.packetType = .syn
  · rw [if_neg (not_not_intro isSyn)] at accepted
    obtain rfl := Except.ok.inj accepted
    exact ⟨rfl, rfl⟩
  · rw [if_pos isSyn] at accepted
    exact nomatch accepted

theorem accounted_start {syn : UtpHeader}
    (accepted : accept syn initialSeqNr = .ok conn) (nowUs timestampDiff : UInt32) :
    Accounted initialSeqNr (.start conn nowUs timestampDiff) := by
  obtain ⟨initial, waiting⟩ := accept_spec accepted
  refine ⟨?_, ?_, nofun⟩
  · rw [Acceptor.start, (received_buildState ..).1, waiting]
    decide
  · rw [Acceptor.start, seqNr_buildState, if_pos waiting, initial]
    exact (add_zero _).symm

/-- The data packets are numbered from the initial number on exactly if the packets that overtook
before each of them are none or make whole turns. An initiator that has the number of the
handshake accepts them all exactly if they are numbered so. -/
def NumbersData (initialSeqNr handshake : UInt16) (data : List (UInt16 × Nat)) : Prop :=
  (Consecutive initialSeqNr (data.map Prod.fst) ↔ ∀ packet ∈ data, packet.2 % 65536 = 0) ∧
    ∀ initiator : UtpConnection, initiator.lastReceived = some handshake →
      (AcceptsAll initiator (data.map Prod.fst) ↔ Consecutive initialSeqNr (data.map Prod.fst))

/-- How the data packets of an acceptor are numbered, whatever happens to it. -/
theorem data_numbers_iff (syn : UtpHeader) (initialSeqNr : UInt16) (conn : UtpConnection)
    (accepted : UtpConnection.accept syn initialSeqNr = .ok conn) (nowUs timestampDiff : UInt32)
    (events : List Event) :
    NumbersData initialSeqNr (conn.buildState nowUs timestampDiff).1.header.seqNr
      (events.foldl Acceptor.step (.start conn nowUs timestampDiff)).data := by
  let data := (events.foldl Acceptor.step (.start conn nowUs timestampDiff)).data
  have accounted : Accounted initialSeqNr (events.foldl Acceptor.step
      (.start conn nowUs timestampDiff)) :=
    List.foldlRecOn events Acceptor.step (accounted_start accepted nowUs timestampDiff)
      fun acceptor accounted event _ => accounted.step event
  refine ⟨?_, fun initiator received => ?_⟩
  · have numbered : ∀ index packet, data[index]? = some packet →
        (packet.1 = initialSeqNr + 1 + wrap index ↔ packet.2 % 65536 = 0) := by
      intro index packet found
      rw [accounted.data index packet.1 packet.2 found, UInt16.add_right_inj, wrap_eq_iff]
      omega
    constructor
    · intro consecutive packet inside
      obtain ⟨index, within, rfl⟩ := List.getElem_of_mem inside
      have found := List.getElem?_eq_getElem within
      refine (numbered index _ found).mp (consecutive index _ ?_)
      rw [List.getElem?_map, found, Option.map_some]
    · intro whole index seqNr found
      rw [List.getElem?_map] at found
      obtain ⟨packet, inside, rfl⟩ := Option.map_eq_some_iff.mp found
      exact (numbered index packet inside).mpr (whole packet (List.mem_of_getElem? inside))
  · have handshake : (conn.buildState nowUs timestampDiff).1.header.seqNr = initialSeqNr :=
      (accept_spec accepted).1
    exact acceptsAll_iff (received.trans (congrArg some handshake))

/-! ## An early answer -/

/-- A packet of the initiator. -/
def fromInitiator (packetType : PacketType) (seqNr ackNr : UInt16) : UtpPacket where
  header :=
    { packetType
      version := 1
      extension := 0
      connectionId := 7
      timestampUs := 0
      timestampDiff := 0
      wndSize := 65536
      seqNr
      ackNr }
  extensions := []
  payload := []

def sampleSyn : UtpHeader := (fromInitiator .syn 50 0).header

/-- The second data packet of the initiator overtakes the first, and the acceptor sends data. -/
def overtaken : List Event := [.inbound (fromInitiator .data 52 100) 0 0, .data 0 0 [1]]

/-- The acceptor answers the packet that came too soon with a packet that consumes a number, so
that its first data packet is not the one that the initiator expects. -/
theorem early_answer_consumes_number :
    ∃ conn, UtpConnection.accept sampleSyn 100 = .ok conn ∧
      (overtaken.foldl Acceptor.step (.start conn 0 0)).data.map Prod.fst = [102] ∧
      (conn.buildState 0 0).1.header.seqNr = 100 ∧
      ∀ initiator : UtpConnection, initiator.lastReceived = some 100 →
        ¬AcceptsAll initiator [102] := by
  refine ⟨_, rfl, rfl, rfl, fun initiator received accepts => ?_⟩
  have first := (acceptsAll_iff received).mp accepts 0 102 rfl
  revert first
  decide

/-- The packets of the initiator arrive in order. -/
def inOrder : List Event :=
  [.inbound (fromInitiator .data 51 100) 0 0, .data 0 0 [1],
    .inbound (fromInitiator .data 53 100) 0 0, .data 0 0 [2]]

theorem inOrder_numbers :
    ∃ conn, UtpConnection.accept sampleSyn 100 = .ok conn ∧
      let data := (inOrder.foldl Acceptor.step (.start conn 0 0)).data
      data = [(101, 0), (102, 0)] ∧
        NumbersData 100 (conn.buildState 0 0).1.header.seqNr data :=
  ⟨_, rfl, rfl, data_numbers_iff sampleSyn 100 _ rfl 0 0 inOrder⟩

end TorrentNG.Utp
