import Mathlib.Data.List.ReduceOption
import TorrentNG.Runs
import TorrentNG.UtpConnection

/-!
# Delivery over a uTP connection

One side sends data, the other receives it, and the packets between them may be lost, repeated
and reordered. The receiver accepts a packet whose 16-bit number is the next one. Payloads are
delivered in order and once as long as no packet arrives that is older than half a turn of the
numbers or newer than a full turn: the invariant keeps the number that each packet would have
without wrapping, and an accepted packet then is the next one by that number too. If in addition
fewer than half a turn of packets is unacknowledged and acknowledgements are not older than half
a turn, then everything is delivered once all packets are acknowledged.
-/

namespace TorrentNG.Utp

open List Runs SequenceNumbers UtpConnection

/-! ## A connection in one direction -/

/-- A packet with a number that does not wrap: its own if it is sent, and that of the last
accepted packet if it is an answer. -/
structure Numbered where
  number : Nat
  packet : UtpPacket

/-- Two connections and the packets they have built. `first` is the unwrapped number of the
first packet after the handshake, `consumed` has the payload of each packet that took a number
since then, if it has one, `accepted` has the numbers that the receiver accepted, and `acked` is
one more than the newest number that an acknowledgement has reached the sender for. -/
structure Link where
  sender : UtpConnection
  receiver : UtpConnection
  first : Nat
  sent : List Numbered
  answers : List Numbered
  consumed : List (Option (List UInt8))
  accepted : List Nat
  acked : Nat
  built : List (List UInt8)
  delivered : List (List UInt8)

namespace Link

/-- The unwrapped number that the sender uses next. -/
def next (link : Link) : Nat := link.first + link.consumed.length

/-- The unwrapped number that the receiver waits for. -/
def expected (link : Link) : Nat := link.first + link.accepted.length

/-- Two connections past the handshake. -/
def start (sender receiver : UtpConnection) (lastReceived : UInt16) : Link where
  sender
  receiver
  first := lastReceived.toNat + 1
  sent := []
  answers := []
  consumed := []
  accepted := []
  acked := if sender.oldestUnacked = sender.seqNr then lastReceived.toNat + 1 else lastReceived.toNat
  built := []
  delivered := []

end Link

/-- What can happen next: either side builds a packet, or a packet of the other side arrives. -/
inductive Action where
  | buildData (nowUs timestampDiff : UInt32) (payload : List UInt8)
  | buildFin (nowUs timestampDiff : UInt32)
  | buildState (nowUs timestampDiff : UInt32)
  | arrive (position : Nat)
  | answer (nowUs timestampDiff : UInt32)
  | acknowledge (position : Nat)

namespace Link

variable (link : Link)

/-- The sender has built a packet; it consumes a number if the sequence number moves on. -/
def send (payload : Option (List UInt8)) (built : UtpPacket × UtpConnection) : Link :=
  { link with
    sender := built.2
    sent := link.sent ++ [{ number := link.next, packet := built.1 }]
    consumed := if built.2.seqNr = link.sender.seqNr then link.consumed
      else link.consumed ++ [payload]
    built := link.built ++ payload.toList }

def step : Action → Link
  | .buildData nowUs timestampDiff payload =>
    link.send (some payload) (link.sender.buildData nowUs timestampDiff payload)
  | .buildFin nowUs timestampDiff => link.send none (link.sender.buildFin nowUs timestampDiff)
  | .buildState nowUs timestampDiff => link.send none (link.sender.buildState nowUs timestampDiff)
  | .arrive position =>
    match link.sent[position]? with
    | none => link
    | some arriving =>
      match link.receiver.onInbound arriving.packet with
      | (.ok .deliverPayload, receiver) =>
        { link with
          receiver
          accepted := link.accepted ++ [arriving.number]
          delivered := link.delivered ++ [arriving.packet.payload] }
      | (.ok .close, receiver) =>
        { link with receiver, accepted := link.accepted ++ [arriving.number] }
      | (_, receiver) => { link with receiver }
  | .answer nowUs timestampDiff =>
    let (packet, receiver) := link.receiver.buildState nowUs timestampDiff
    { link with receiver, answers := link.answers ++ [{ number := link.expected - 1, packet }] }
  | .acknowledge position =>
    match link.answers[position]? with
    | none => link
    | some arriving =>
      { link with
        sender := (link.sender.onInbound arriving.packet).2
        acked := max link.acked (arriving.number + 1) }

/-- No packet arrives after the receiver has accepted 32768 or more later ones. -/
def NotLate : Action → Prop
  | .arrive position => ∀ arriving ∈ link.sent[position]?,
    link.accepted.countP (fun later => decide (arriving.number < later)) < 32768
  | _ => True

/-- No packet arrives while 65536 or more numbers before its own are still to be accepted. -/
def NotEarly : Action → Prop
  | .arrive position => ∀ arriving ∈ link.sent[position]?, arriving.number < link.expected + 65536
  | _ => True

/-- Fewer than 32768 packets are unacknowledged, and no acknowledgement arrives after one of a
packet that is 32768 or more later. -/
def Acknowledging (action : Action) : Prop :=
  (link.step action).next < (link.step action).acked + 32768 ∧
    match action with
    | .acknowledge position => ∀ arriving ∈ link.answers[position]?,
      link.acked ≤ arriving.number + 32768
    | _ => True

/-- A packet that arrives is neither late nor early. -/
abbrev InTime (action : Action) : Prop := link.NotLate action ∧ link.NotEarly action

/-- No packet arrives late, and neither does an acknowledgement. -/
abbrev Paced (action : Action) : Prop := link.NotLate action ∧ link.Acknowledging action

/-! ## Delivery in order -/

/-- The packet stands where its number says among those that consumed one. -/
structure Placed (link : Link) (numbered : Numbered) : Prop where
  seqNr : numbered.packet.header.seqNr = wrap numbered.number
  lower : link.first ≤ numbered.number
  upper : numbered.number ≤ link.next
  data : numbered.packet.header.packetType = .data →
    link.consumed[numbered.number - link.first]? = some (some numbered.packet.payload)
  fin : numbered.packet.header.packetType = .fin →
    link.consumed[numbered.number - link.first]? = some none

/-- The invariant of the direction in which data flows. -/
structure Ordered (link : Link) : Prop where
  positive : 0 < link.first
  seqNr : link.sender.seqNr = wrap link.next
  received : link.receiver.lastReceived = some (wrap (link.expected - 1))
  past : link.receiver.state ≠ .synSent
  placed : ∀ numbered ∈ link.sent, Placed link numbered
  accepted : link.accepted = List.range' link.first link.accepted.length
  bounded : link.accepted.length ≤ link.consumed.length
  built : link.built = link.consumed.reduceOption
  delivered : link.delivered = (link.consumed.take link.accepted.length).reduceOption

/-- What building a packet does. -/
structure Builds (conn : UtpConnection) (payload : Option (List UInt8))
    (built : UtpPacket × UtpConnection) : Prop where
  seqNr : built.1.header.seqNr = conn.seqNr
  consumes : built.2.seqNr = conn.seqNr + 1 ∧ built.2.newestSent = conn.seqNr ∨
    built.2.seqNr = conn.seqNr ∧ built.2.newestSent = conn.newestSent ∧
      built.1.header.packetType = .state ∧ payload = none
  data : built.1.header.packetType = .data → payload = some built.1.payload
  fin : built.1.header.packetType = .fin → payload = none
  ids : built.2.ids = conn.ids
  oldestUnacked : built.2.oldestUnacked = conn.oldestUnacked

section

variable (conn : UtpConnection) (nowUs timestampDiff : UInt32)

theorem builds_data (payload : List UInt8) :
    Builds conn (some payload) (conn.buildData nowUs timestampDiff payload) :=
  ⟨rfl, .inl ⟨rfl, rfl⟩, fun _ => rfl, nofun, rfl, rfl⟩

theorem builds_fin : Builds conn none (conn.buildFin nowUs timestampDiff) :=
  ⟨rfl, .inl ⟨rfl, rfl⟩, nofun, fun _ => rfl, rfl, rfl⟩

theorem builds_state : Builds conn none (conn.buildState nowUs timestampDiff) := by
  delta buildState
  split
  next => exact ⟨rfl, .inl ⟨rfl, rfl⟩, nofun, nofun, rfl, rfl⟩
  next => exact ⟨rfl, .inr ⟨rfl, rfl, rfl, rfl⟩, nofun, nofun, rfl, rfl⟩

end

theorem add_one_ne (number : UInt16) : number + 1 ≠ number := by
  rw [← wrap_toNat number, wrap_succ, ne_eq, wrap_eq_iff]
  omega

variable {link : Link}

theorem Placed.of_consumed {more : Link} {numbered : Numbered} (placed : Placed link numbered)
    (first : more.first = link.first) (kept : link.consumed <+: more.consumed) :
    Placed more numbered := by
  obtain ⟨rest, grown⟩ := kept
  have found : ∀ {index : Nat} {payload}, link.consumed[index]? = some payload →
      more.consumed[index]? = some payload := by
    intro index payload inside
    rw [← grown, List.getElem?_append_left (List.getElem?_eq_some_iff.mp inside).1, inside]
  refine ⟨placed.seqNr, ?_, ?_, ?_, ?_⟩
  · rw [first]
    exact placed.lower
  · refine placed.upper.trans ?_
    rw [next, next, first, ← grown, length_append]
    omega
  · intro isData
    rw [first]
    exact found (placed.data isData)
  · intro isFin
    rw [first]
    exact found (placed.fin isFin)

variable {payload : Option (List UInt8)} {built : UtpPacket × UtpConnection}
    {receiver : UtpConnection}

section

variable (ordered : Ordered link)

include ordered

/-- Building a packet keeps the order. It consumes the next number, or it is a state packet and
consumes none. -/
theorem Ordered.send (builds : Builds link.sender payload built) :
    Ordered (link.send payload built) ∧ (link.sender.newestSent = wrap (link.next - 1) →
      built.2.newestSent = wrap ((link.send payload built).next - 1)) := by
  have sends {consumed : List (Option (List UInt8))}
      (grown : (link.send payload built).consumed = link.consumed ++ consumed)
      (seqNr : built.2.seqNr = wrap (link.next + consumed.length))
      (contents : consumed.reduceOption = payload.toList)
      (latest : Placed (link.send payload built) { number := link.next, packet := built.1 }) :
      Ordered (link.send payload built) := by
    have grows : link.consumed <+: (link.send payload built).consumed := ⟨consumed, grown.symm⟩
    refine ⟨ordered.positive, ?_, ordered.received, ordered.past, forall_mem_append.mpr
      ⟨fun numbered inside => (ordered.placed numbered inside).of_consumed rfl grows,
        forall_mem_singleton.mpr latest⟩, ordered.accepted,
      ordered.bounded.trans grows.length_le, ?_, ?_⟩
    · rw [next, grown, length_append, ← Nat.add_assoc]
      exact seqNr
    · rw [grown, reduceOption_append, ← ordered.built, contents]
      rfl
    · rw [grown]
      exact ordered.delivered.trans
        (congrArg List.reduceOption (take_append_of_le_length ordered.bounded).symm)
  rcases builds.consumes with ⟨moved, newest⟩ | ⟨stayed, newest, isState, rfl⟩
  · have grown : (link.send payload built).consumed = link.consumed ++ [payload] := by
      refine if_neg ?_
      rw [moved]
      exact add_one_ne _
    have following : (link.send payload built).next = link.next + 1 := by
      rw [next, grown, length_append, length_singleton, ← Nat.add_assoc]
      rfl
    have last : (link.send payload built).consumed[link.next - link.first]? = some payload := by
      rw [grown, next, Nat.add_sub_cancel_left]
      exact getElem?_concat_length
    refine ⟨sends grown ?_ (by cases payload <;> rfl) ⟨builds.seqNr.trans ordered.seqNr,
      Nat.le_add_right _ _, following ▸ Nat.le_succ _, ?_, ?_⟩, fun _ => ?_⟩
    · rw [moved, ordered.seqNr, wrap_succ]
      rfl
    · intro isData
      rw [← builds.data isData]
      exact last
    · intro isFin
      rw [← builds.fin isFin]
      exact last
    · rw [following, Nat.add_sub_cancel]
      exact newest.trans ordered.seqNr
  · have same : (link.send none built).consumed = link.consumed := if_pos stayed
    refine ⟨sends (same.trans (append_nil _).symm) (stayed.trans ordered.seqNr) rfl
      ⟨builds.seqNr.trans ordered.seqNr, Nat.le_add_right _ _, ?_, ?_, ?_⟩, fun before => ?_⟩
    · rw [next, next, same]
      rfl
    · intro isData
      exact nomatch isState.symm.trans isData
    · intro isFin
      exact nomatch isState.symm.trans isFin
    · rw [next, same]
      exact newest.trans before

theorem Ordered.expected_pos : 0 < link.expected :=
  Nat.lt_of_lt_of_le ordered.positive (Nat.le_add_right _ _)

/-- A packet that the receiver takes as the next one is the next one. -/
theorem Ordered.number_eq_expected {arriving : Numbered} (placed : Placed link arriving)
    (accepted : Accepted link.receiver arriving.packet receiver)
    (notLate : link.accepted.countP (fun later => decide (arriving.number < later)) < 32768)
    (notEarly : arriving.number < link.expected + 65536) : arriving.number = link.expected := by
  obtain ⟨last, known, following⟩ := accepted.inOrder
  rw [ordered.received] at known
  rw [← Option.some.inj known, placed.seqNr, wrap_succ,
    Nat.sub_add_cancel ordered.expected_pos] at following
  rw [ordered.accepted, countP_range'] at notLate
  have lower := placed.lower
  refine (wrap_inj notEarly ?_).mp following
  rw [expected]
  omega

/-- Accepting the next packet keeps the order. -/
theorem Ordered.accept (present : link.consumed[link.accepted.length]? = some payload)
    (received : receiver.lastReceived = some (wrap link.expected))
    (past : receiver.state ≠ .synSent) :
    Ordered { link with
      receiver
      accepted := link.accepted ++ [link.expected]
      delivered := link.delivered ++ payload.toList } := by
  have within := (List.getElem?_eq_some_iff.mp present).1
  refine ⟨ordered.positive, ordered.seqNr, ?_, past, fun numbered inside => ?_, ?_, ?_,
    ordered.built, ?_⟩
  · rw [received, expected, expected, length_append, length_singleton, ← Nat.add_assoc,
      Nat.add_sub_cancel]
  · exact (ordered.placed numbered inside).of_consumed rfl prefix_rfl
  · rw [length_append, length_singleton, List.range'_concat, Nat.one_mul,
      ← ordered.accepted, expected]
  · rw [length_append, length_singleton]
    exact within
  · rw [length_append, length_singleton, take_add_one, present,
      reduceOption_append, ← ordered.delivered]
    cases payload <;> rfl

theorem Ordered.passed {sender : UtpConnection} {answers : List Numbered} {acked : Nat}
    (seqNr : sender.seqNr = link.sender.seqNr)
    (received : receiver.lastReceived = link.receiver.lastReceived)
    (past : receiver.state ≠ .synSent) : Ordered { link with sender, receiver, answers, acked } :=
  { ordered with
    seqNr := seqNr.trans ordered.seqNr, received := received.trans ordered.received, past
    placed := fun numbered inside => { ordered.placed numbered inside with } }

end

/-- What an arriving packet does, if it is neither late nor early: it passes, or it is the next
one. -/
inductive Arrival (link : Link) : Link → Prop
  | absent : Arrival link link
  | passed (receiver : UtpConnection) (ids : receiver.ids = link.receiver.ids)
      (past : receiver.state ≠ .synSent) (same : UtpConnection.Passed link.receiver receiver) :
      Arrival link { link with receiver }
  | accepted (receiver : UtpConnection) (ids : receiver.ids = link.receiver.ids)
      (past : receiver.state ≠ .synSent) (payload : Option (List UInt8))
      (present : link.consumed[link.accepted.length]? = some payload)
      (received : receiver.lastReceived = some (wrap link.expected))
      (ackNr : receiver.ackNr = wrap link.expected) :
      Arrival link { link with
        receiver
        accepted := link.accepted ++ [link.expected]
        delivered := link.delivered ++ payload.toList }

theorem Ordered.arrival (ordered : Ordered link) {position : Nat}
    (notLate : link.NotLate (.arrive position)) (notEarly : link.NotEarly (.arrive position)) :
    Arrival link (link.step (.arrive position)) := by
  rw [step]
  cases found : link.sent[position]? with
  | none => exact .absent
  | some arriving =>
    have placed := ordered.placed arriving (mem_of_getElem? found)
    have outcome := (link.receiver.onInbound_spec arriving.packet).2 ordered.past
    have ids := (link.receiver.onInbound_spec arriving.packet).1.ids
    simp only
    generalize link.receiver.onInbound arriving.packet = handled at outcome ids ⊢
    obtain ⟨result, receiver⟩ := handled
    have past := outcome.past ordered.past
    have isNext : Accepted link.receiver arriving.packet receiver →
        arriving.number = link.expected ∧ receiver.lastReceived = some (wrap link.expected) ∧
          receiver.ackNr = wrap link.expected := by
      intro accepted
      have number := ordered.number_eq_expected placed accepted (notLate arriving found)
        (notEarly arriving found)
      rw [accepted.lastReceived, accepted.ackNr, placed.seqNr, number]
      exact ⟨rfl, rfl, rfl⟩
    cases outcome with
    | data isData accepted =>
      obtain ⟨number, received, ackNr⟩ := isNext accepted
      have present := placed.data isData
      rw [number, expected, Nat.add_sub_cancel_left] at present
      simp only [number]
      exact .accepted receiver ids past (some arriving.packet.payload) present received ackNr
    | fin isFin accepted =>
      obtain ⟨number, received, ackNr⟩ := isNext accepted
      have present := placed.fin isFin
      rw [number, expected, Nat.add_sub_cancel_left] at present
      have arrival := Arrival.accepted receiver ids past none present received ackNr
      rw [Option.toList_none, append_nil] at arrival
      simp only [number]
      exact arrival
    | outOfOrder passed | reset passed | state passed | refused _ passed =>
      exact .passed receiver ids past passed

theorem Ordered.arrive {after : Link} (ordered : Ordered link) (arrival : Arrival link after) :
    Ordered after := by
  cases arrival with
  | absent => exact ordered
  | passed receiver ids past same => exact ordered.passed rfl same.lastReceived past
  | accepted receiver ids past payload present received ackNr =>
    exact ordered.accept present received past

theorem Ordered.step {action : Action} (ordered : Ordered link) (notLate : link.NotLate action)
    (notEarly : link.NotEarly action) : Ordered (link.step action) := by
  cases action with
  | buildData nowUs timestampDiff payload => exact (ordered.send (builds_data _ _ _ _)).1
  | buildFin nowUs timestampDiff => exact (ordered.send (builds_fin _ _ _)).1
  | buildState nowUs timestampDiff => exact (ordered.send (builds_state _ _ _)).1
  | arrive position => exact ordered.arrive (ordered.arrival notLate notEarly)
  | answer nowUs timestampDiff =>
    obtain ⟨state, received, _⟩ := link.receiver.received_buildState nowUs timestampDiff
    exact ordered.passed rfl received (state.trans_ne ordered.past)
  | acknowledge position =>
    rw [Link.step]
    cases link.answers[position]? with
    | none => exact ordered
    | some arriving =>
      exact ordered.passed (link.sender.onInbound_spec arriving.packet).1.seqNr rfl ordered.past

/-! ## Acknowledgements -/

/-- The answer acknowledges a packet that the receiver accepted. -/
structure Answers (link : Link) (answer : Numbered) : Prop where
  ackNr : answer.packet.header.ackNr = wrap answer.number
  accepted : answer.number < link.expected
  connectionId : answer.packet.header.connectionId = link.sender.ids.recv
  isState : answer.packet.header.packetType = .state

theorem Answers.mono {more : Link} {answer : Numbered} (answers : Answers link answer)
    (grown : link.expected ≤ more.expected) (ids : more.sender.ids = link.sender.ids) :
    Answers more answer :=
  ⟨answers.ackNr, Nat.lt_of_lt_of_le answers.accepted grown,
    answers.connectionId.trans (congrArg _ ids.symm), answers.isState⟩

/-- The invariant of both directions. -/
structure Acked (link : Link) : Prop extends Ordered link where
  newest : link.sender.newestSent = wrap (link.next - 1)
  oldest : link.sender.oldestUnacked = wrap link.acked
  ackNr : link.receiver.ackNr = wrap (link.expected - 1)
  paired : link.receiver.ids.send = link.sender.ids.recv
  answers : ∀ answer ∈ link.answers, Answers link answer
  acknowledged : link.acked ≤ link.expected
  window : link.next < link.acked + 32768

theorem Acked.notEarly (acked : Acked link) (action : Action) : link.NotEarly action := by
  cases action with
  | arrive position =>
    intro arriving found
    have upper := (acked.placed arriving (mem_of_getElem? found)).upper
    have window := acked.window
    have acknowledged := acked.acknowledged
    omega
  | buildData | buildFin | buildState | answer | acknowledge => trivial

theorem Acked.expected_le_next (acked : Acked link) : link.expected ≤ link.next :=
  Nat.add_le_add_left acked.bounded _

theorem Acked.send (acked : Acked link) (builds : Builds link.sender payload built)
    (window : (link.send payload built).next < link.acked + 32768) :
    Acked (link.send payload built) where
  toOrdered := (acked.toOrdered.send builds).1
  newest := (acked.toOrdered.send builds).2 acked.newest
  oldest := builds.oldestUnacked.trans acked.oldest
  ackNr := acked.ackNr
  paired := acked.paired.trans (congrArg _ builds.ids).symm
  answers := fun answer inside => (acked.answers answer inside).mono le_rfl builds.ids
  acknowledged := acked.acknowledged
  window := window

theorem Acked.arrive {after : Link} (acked : Acked link) (arrival : Arrival link after) :
    Acked after := by
  have ordered := acked.toOrdered.arrive arrival
  cases arrival with
  | absent => exact acked
  | passed receiver ids past same =>
    exact { acked with
      toOrdered := ordered, ackNr := same.ackNr.trans acked.ackNr
      paired := (congrArg _ ids).trans acked.paired
      answers := fun answer inside => (acked.answers answer inside).mono le_rfl rfl }
  | accepted receiver ids past payload present received ackNr =>
    have grown : expected { link with
        receiver
        accepted := link.accepted ++ [link.expected]
        delivered := link.delivered ++ payload.toList } = link.expected + 1 := by
      rw [expected, length_append, length_singleton, ← Nat.add_assoc]
      rfl
    refine ⟨ordered, acked.newest, acked.oldest, ?_, (congrArg _ ids).trans acked.paired, ?_, ?_,
      acked.window⟩
    · rw [grown, Nat.add_sub_cancel]
      exact ackNr
    · intro answer inside
      refine (acked.answers answer inside).mono ?_ rfl
      rw [grown]
      exact Nat.le_succ _
    · rw [grown]
      exact Nat.le_succ_of_le acked.acknowledged

theorem Acked.step {action : Action} (acked : Acked link) (notLate : link.NotLate action)
    (acknowledging : link.Acknowledging action) : Acked (link.step action) := by
  have window := acknowledging.1
  cases action with
  | buildData nowUs timestampDiff payload => exact acked.send (builds_data _ _ _ _) window
  | buildFin nowUs timestampDiff => exact acked.send (builds_fin _ _ _) window
  | buildState nowUs timestampDiff => exact acked.send (builds_state _ _ _) window
  | arrive position =>
    exact acked.arrive (acked.toOrdered.arrival notLate (acked.notEarly _))
  | answer nowUs timestampDiff =>
    have ordered : Ordered (link.step (.answer nowUs timestampDiff)) :=
      acked.toOrdered.step trivial trivial
    obtain ⟨_, _, ackNr, ids⟩ := link.receiver.received_buildState nowUs timestampDiff
    refine ⟨ordered, acked.newest, acked.oldest, ackNr.trans acked.ackNr,
      (congrArg _ ids).trans acked.paired, fun answer inside => ?_, acked.acknowledged, acked.window⟩
    rcases mem_append.mp inside with old | new
    · exact (acked.answers answer old).mono le_rfl rfl
    · obtain rfl := mem_singleton.mp new
      have positive := acked.toOrdered.expected_pos
      exact ⟨acked.ackNr, Nat.sub_lt positive Nat.one_pos, acked.paired, rfl⟩
  | acknowledge position =>
    have ordered : Ordered (link.step (.acknowledge position)) :=
      acked.toOrdered.step trivial trivial
    have recent := acknowledging.2
    rw [Link.step] at ordered window ⊢
    cases found : link.answers[position]? with
    | none => exact acked
    | some arriving =>
      rw [found] at ordered window
      have same := (link.sender.onInbound_spec arriving.packet).1
      obtain ⟨acks, accepted, connectionId, isState⟩ :=
        acked.answers arriving (mem_of_getElem? found)
      have below := acked.expected_le_next
      have inWindow := acked.window
      refine ⟨ordered, same.newestSent.trans acked.newest, ?_, acked.ackNr, ?_, ?_, ?_, window⟩
      · refine (onInbound_oldestUnacked ?_ ?_).trans ?_
        · rw [isState]
          exact connectionId
        · rw [isState]
          exact PacketType.noConfusion
        · rw [acks]
          exact oldestUnacked_applyAck acked.oldest acked.newest (by omega) (by omega)
            (recent arriving found)
      · exact acked.paired.trans (congrArg _ same.ids).symm
      · exact fun answer inside => (acked.answers answer inside).mono le_rfl same.ids
      · exact Nat.max_le.mpr ⟨acked.acknowledged, accepted⟩

/-- If all packets are acknowledged, then all payloads are delivered. -/
theorem Acked.all_delivered (acked : Acked link)
    (all : link.sender.allSentPacketsAcked = true) : link.delivered = link.built := by
  have same := eq_of_beq all
  have below := acked.expected_le_next
  have acknowledged := acked.acknowledged
  have window := acked.window
  rw [acked.oldest, acked.seqNr, wrap_inj (by omega) (by omega)] at same
  have everything : link.consumed.length ≤ link.accepted.length := by
    rw [next, expected] at *
    omega
  rw [acked.delivered, acked.built, take_of_length_le everything]

/-! ## Whole runs -/

/-- The sender goes on after the last packet that the receiver has accepted. -/
structure Established (sender receiver : UtpConnection) (last : UInt16) : Prop where
  received : receiver.lastReceived = some last
  sends : sender.seqNr = last + 1
  past : receiver.state ≠ .synSent

/-- The two connections are paired and agree on the last packet of the sender, which is
acknowledged or the oldest that is not. -/
structure Synchronised (sender receiver : UtpConnection) (last : UInt16) : Prop
    extends Established sender receiver last where
  newest : sender.newestSent = last
  oldest : sender.oldestUnacked = last ∨ sender.oldestUnacked = sender.seqNr
  ackNr : receiver.ackNr = last
  paired : receiver.ids.send = sender.ids.recv

variable {sender : UtpConnection} {last : UInt16} {actions : List Action}

theorem Established.ordered (established : Established sender receiver last) :
    Ordered (start sender receiver last) where
  positive := Nat.succ_pos _
  seqNr := established.sends.trans ((congrArg (· + 1) (wrap_toNat _).symm).trans (wrap_succ _))
  received := established.received.trans (congrArg some (wrap_toNat _).symm)
  past := established.past
  placed := nofun
  accepted := rfl
  bounded := le_rfl
  built := rfl
  delivered := rfl

theorem Synchronised.acked (synchronised : Synchronised sender receiver last) :
    Acked (start sender receiver last) := by
  have isLast : wrap last.toNat = last := wrap_toNat last
  have ordered := synchronised.ordered
  have isOldest : sender.oldestUnacked = wrap (start sender receiver last).acked := by
    by_cases all : sender.oldestUnacked = sender.seqNr
    · rw [start, if_pos all]
      exact all.trans ordered.seqNr
    · rw [start, if_neg all]
      exact (synchronised.oldest.resolve_right all).trans isLast.symm
  have acked : (start sender receiver last).acked ≤ last.toNat + 1 ∧
      last.toNat ≤ (start sender receiver last).acked := by
    simp only [start]
    split <;> omega
  have following : (start sender receiver last).next = last.toNat + 1 := rfl
  have awaited : (start sender receiver last).expected = last.toNat + 1 := rfl
  refine ⟨ordered, synchronised.newest.trans isLast.symm, isOldest,
    synchronised.ackNr.trans isLast.symm, synchronised.paired, nofun, ?_, ?_⟩
  · rw [awaited]
    exact acked.1
  · rw [following]
    omega

theorem Ordered.delivered_built (ordered : Ordered link) : link.delivered <+: link.built := by
  rw [ordered.delivered, ordered.built]
  exact (List.take_prefix _ _).reduceOption

theorem Synchronised.run_acked (synchronised : Synchronised sender receiver last)
    (each : Each step Paced (start sender receiver last) actions) :
    Acked (actions.foldl step (start sender receiver last)) :=
  foldl_invariant (fun acked condition => Acked.step acked condition.1 condition.2)
    synchronised.acked each

/-- The payloads that are delivered are the first ones that were built, if no packet arrives
late or early. If acknowledgements are not late either and their window is kept, then no packet
arrives early, and all payloads are delivered once all packets are acknowledged. -/
theorem delivers_in_order (sender receiver : UtpConnection) (last : UInt16)
    (established : Established sender receiver last) (actions : List Action) :
    let link := start sender receiver last
    let reached := actions.foldl step link
    (Each step InTime link actions →
      reached.delivered <+: reached.built) ∧
    (Synchronised sender receiver last →
      Each step Paced link actions →
      reached.delivered <+: reached.built ∧
        (reached.sender.allSentPacketsAcked = true → reached.delivered = reached.built)) := by
  intro link reached
  constructor
  · intro each
    have ordered : Ordered reached := foldl_invariant (fun ordered condition =>
      Ordered.step ordered condition.1 condition.2) established.ordered each
    exact ordered.delivered_built
  · intro synchronised each
    have acked := synchronised.run_acked each
    exact ⟨acked.delivered_built, acked.all_delivered⟩

/-! ## A turn of lost packets -/

/-- A connection that has sent its first packet and accepted the answer to it. -/
def sampleSender : UtpConnection :=
  { (UtpConnection.connect 7 50).markSent 0 with
    state := .connected, ackNr := 100, lastReceived := some 100, oldestUnacked := 51 }

/-- The connection at the other end. -/
def sampleReceiver : UtpConnection where
  state := .synReceived
  ids := .fromSynForAcceptor 7
  seqNr := 101
  ackNr := 50
  lastReceived := some 50
  oldestUnacked := 100
  newestSent := 100
  remoteWindowBytes := 65536
  localWindowBytes := 65536
  bytesInFlight := 0

def sampleLink : Link := start sampleSender sampleReceiver 50

/-- What data packets that do not arrive leave as it is. -/
structure OnlySent (link after : Link) (count : Nat) : Prop where
  receiver : after.receiver = link.receiver
  accepted : after.accepted = link.accepted
  delivered : after.delivered = link.delivered
  sent : after.sent.length = link.sent.length + count
  built : link.built <+: after.built
  header : after.sender.ids = link.sender.ids ∧
    after.sender.localWindowBytes = link.sender.localWindowBytes ∧
    after.sender.ackNr = link.sender.ackNr
  seqNr : after.sender.seqNr = link.sender.seqNr + wrap count
  notLate : Each step NotLate link (List.replicate count (.buildData 0 0 [0]))

theorem onlySent_replicate (link : Link) (count : Nat) :
    OnlySent link ((List.replicate count (.buildData 0 0 [0])).foldl step link) count := by
  induction count generalizing link with
  | zero =>
    exact ⟨rfl, rfl, rfl, rfl, prefix_rfl, ⟨rfl, rfl, rfl⟩, (UInt16.add_zero _).symm, trivial⟩
  | succ count ih =>
    obtain ⟨receiver, accepted, delivered, sent, built, header, seqNr, notLate⟩ :=
      ih (link.step (.buildData 0 0 [0]))
    rw [replicate_succ, foldl_cons]
    refine ⟨receiver, accepted, delivered, ?_, ?_, header, ?_, trivial, notLate⟩
    · have more : (link.step (.buildData 0 0 [0])).sent.length = link.sent.length + 1 :=
        length_append
      omega
    · exact (prefix_append _ _).trans built
    · have moved : (link.step (.buildData 0 0 [0])).sender.seqNr = link.sender.seqNr + wrap 1 := rfl
      rw [seqNr, moved, UInt16.add_assoc, wrap_add, Nat.add_comm]

/-- Data packets are lost and then one more arrives. -/
def lostTurn (count : Nat) : List Action :=
  .buildData 0 0 [1] :: List.replicate count (.buildData 0 0 [0]) ++
    [.buildData 0 0 [2], .arrive (count + 1)]

theorem delivered_lostTurn {count : Nat} (turn : wrap (count + 1) = 0) :
    Each step NotLate sampleLink (lostTurn count) ∧
      ((lostTurn count).foldl step sampleLink).delivered = [[2]] ∧
      [[1]] <+: ((lostTurn count).foldl step sampleLink).built := by
  let first := sampleLink.step (.buildData 0 0 [1])
  obtain ⟨receiver, accepted, delivered, sent, built, ⟨ids, windowBytes, ackNr⟩, seqNr, notLate⟩ :=
    onlySent_replicate first count
  rw [lostTurn, foldl_append, foldl_cons, each_append]
  simp only [foldl_cons, foldl_nil]
  generalize (List.replicate count (.buildData 0 0 [0])).foldl step first = after at *
  have isNext : after.sender.seqNr = 51 := by
    have numbers : first.sender.seqNr + wrap count = 51 + (wrap 1 + wrap count) :=
      UInt16.add_assoc 51 1 _
    rw [seqNr, numbers, wrap_add, Nat.add_comm, turn]
    rfl
  -- The packet after a turn is the one that the receiver waits for.
  have arriving : (after.sender.buildData 0 0 [2]).1 =
      sampleSender.packet .data 0 0 [2] := by
    rw [buildData, UtpConnection.packet, UtpConnection.header, ids, windowBytes, ackNr, isNext]
    rfl
  have found : (after.step (.buildData 0 0 [2])).sent[count + 1]? =
      some { number := after.next, packet := sampleSender.packet .data 0 0 [2] } := by
    rw [← arriving]
    have last : count + 1 = after.sent.length := by
      rw [sent]
      exact Nat.add_comm _ _
    rw [last]
    exact getElem?_concat_length
  have waiting : (after.step (.buildData 0 0 [2])).receiver = sampleReceiver := receiver
  have undelivered : (after.step (.buildData 0 0 [2])).delivered = [] := delivered
  have unaccepted : (after.step (.buildData 0 0 [2])).accepted = [] := accepted
  have more : [[1]] <+: (after.step (.buildData 0 0 [2])).built := built.trans (prefix_append _ _)
  refine ⟨⟨⟨trivial, notLate⟩, trivial, ?_, trivial⟩, ?_⟩
  · intro _ _
    rw [unaccepted]
    exact Nat.succ_pos _
  · generalize after.step (.buildData 0 0 [2]) = last at *
    rw [step, found]
    simp only [waiting, undelivered]
    exact ⟨rfl, more⟩

/-- A packet that is a turn of the numbers ahead is delivered in place of the next one, although
no packet is late. -/
theorem lost_turn_delivers_early :
    sampleReceiver.lastReceived = some 50 ∧ sampleSender.seqNr = 50 + 1 ∧
      sampleReceiver.state ≠ .synSent ∧ Each step NotLate sampleLink (lostTurn 65535) ∧
      ¬((lostTurn 65535).foldl step sampleLink).delivered <+:
        ((lostTurn 65535).foldl step sampleLink).built := by
  obtain ⟨notLate, delivered, built⟩ := delivered_lostTurn (show wrap (65535 + 1) = 0 from rfl)
  refine ⟨rfl, rfl, ConnectionState.noConfusion, notLate, ?_⟩
  rw [delivered]
  intro early
  exact absurd (List.prefix_of_prefix_length_le early built le_rfl) (by decide)

/-! ## A run -/

instance decidableNotLate (link : Link) : (action : Action) → Decidable (link.NotLate action)
  | .arrive position => inferInstanceAs (Decidable (∀ arriving ∈ link.sent[position]?, _))
  | .buildData .. | .buildFin .. | .buildState .. | .answer .. | .acknowledge _ => isTrue trivial

instance decidableNotEarly (link : Link) : (action : Action) → Decidable (link.NotEarly action)
  | .arrive position => inferInstanceAs (Decidable (∀ arriving ∈ link.sent[position]?, _))
  | .buildData .. | .buildFin .. | .buildState .. | .answer .. | .acknowledge _ => isTrue trivial

instance decidableAcknowledging (link : Link) :
    (action : Action) → Decidable (link.Acknowledging action)
  | .acknowledge position => inferInstanceAs (Decidable (_ ∧ ∀ arriving ∈ link.answers[position]?, _))
  | .arrive _ | .buildData .. | .buildFin .. | .buildState .. | .answer .. =>
    inferInstanceAs (Decidable (_ ∧ True))

/-- The second packet overtakes the first, the first comes twice, and the answer to the last
packet overtakes another one. -/
def sampleActions : List Action :=
  [.buildData 0 0 [1], .buildData 0 0 [2], .buildFin 0 0, .arrive 1, .arrive 0, .arrive 0, .answer 0 0,
    .arrive 1, .buildState 0 0, .arrive 3, .arrive 2, .answer 0 0, .acknowledge 1, .acknowledge 0]

theorem sampleActions_delivered :
    let reached := sampleActions.foldl step sampleLink
    Each step InTime sampleLink sampleActions ∧ Each step Paced sampleLink sampleActions ∧
      reached.sender.allSentPacketsAcked = true ∧ reached.built = [[1], [2]] ∧
      reached.delivered <+: reached.built ∧ reached.delivered = reached.built := by
  have inTime : Each step InTime sampleLink sampleActions := by decide +kernel
  have paced : Each step Paced sampleLink sampleActions := by decide +kernel
  have all : (sampleActions.foldl step sampleLink).sender.allSentPacketsAcked = true := rfl
  have synchronised : Synchronised sampleSender sampleReceiver 50 :=
    ⟨⟨rfl, rfl, nofun⟩, rfl, .inr rfl, rfl, rfl⟩
  obtain ⟨inOrder, complete⟩ := delivers_in_order sampleSender sampleReceiver 50
    synchronised.toEstablished sampleActions
  exact ⟨inTime, paced, all, rfl, inOrder inTime, (complete synchronised paced).2 all⟩

end Link

end TorrentNG.Utp
