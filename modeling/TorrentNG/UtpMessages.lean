import TorrentNG.UtpDelivery
import TorrentNG.UtpFrames

/-!
# Messages over a uTP connection

`UtpPeerIo` writes encoded messages to a connection, which sends the bytes in payloads of any size.
At the other end the payloads that arrive are put into a buffer, and what is taken out of it goes
to the frame decoder of the peer loop.
-/

namespace TorrentNG.Utp.Link

open List PeerCodec PeerWire Runs StreamDecoder UtpFrames UtpFrameDecoder

/-- However packets are lost, repeated and reordered, the peer loop gets the first messages that
were written and fails at none. It gets all of them once all packets are acknowledged. -/
theorem messages_in_order (sender receiver : UtpConnection) (last : UInt16)
    (synchronised : Synchronised sender receiver last) (actions : List Action)
    (each : Each step Paced (start sender receiver last) actions)
    {messages : List Message} {bytes : List UInt8} (encoded : encodeAll messages = .ok bytes)
    (limits : ∀ message ∈ messages, message.WithinBlockLimits)
    {σ : Type} {tryAcquire : Nat → σ → Bool × σ}
    (grants : ∀ bytes resources, (tryAcquire bytes resources).1 = true) (resources : σ)
    (chunks : List Slice) (full : ∀ chunk ∈ chunks, chunk.val ≠ []) :
    let link := actions.foldl step (start sender receiver last)
    let taken := (chunks.map Subtype.val).flatten
    let read := deliver tryAcquire (new resources) (chunks.map .chunk)
    link.built.flatten <+: bytes → taken <+: link.delivered.flatten →
      (read.1 <+: messages ∧ ∃ decoder, read.2 = .pending decoder) ∧
      (link.sender.allSentPacketsAcked = true → link.built.flatten = bytes →
        taken = link.delivered.flatten → read.1 = messages) := by
  intro link taken read written arrived
  have acked : Acked link := synchronised.run_acked each
  obtain ⟨rest, whole⟩ := (arrived.trans acked.delivered_built.flatten).trans written
  obtain ⟨rfl, small⟩ := encodeAll_eq_ok encoded
  have stream := (drain_frames messages small).mpr limits
  obtain ⟨front, left, waits⟩ := drain_prefix peerDecoder ((congrArg _ whole).trans stream)
  have granted : ¬Denies tryAcquire := fun ⟨bytes, resources, denied⟩ =>
    nomatch denied.symm.trans (grants bytes resources)
  obtain ⟨items, ending⟩ : read.1 = (drain peerDecoder taken).items ∧
      SameOutcome read.2 (drain peerDecoder taken).ending :=
    deliver_tracks granted (new resources) chunks full
  rw [waits] at ending
  refine ⟨⟨items ▸ front, ?_⟩, fun all everything complete => ?_⟩
  · generalize read.2 = outcome at ending
    cases ending with
    | pending decoder => exact ⟨decoder, rfl⟩
  · rw [items, complete, acked.all_delivered all, everything, stream]

/-- Two messages in one packet are taken in two chunks. -/
theorem cut_packet_read :
    (deliver (fun _ resources => (true, resources)) (new ()) (cutChunks.map .chunk)).1 =
      [.keepAlive, .reject 1 2 1] :=
  (messages_in_order sampleSender sampleReceiver 50 ⟨⟨rfl, rfl, nofun⟩, rfl, .inr rfl, rfl, rfl⟩
    [.buildData 0 0 (frames [.keepAlive, .reject 1 2 1]), .arrive 0, .answer 0 0, .acknowledge 0]
    (by decide +kernel) rfl (by decide) (fun _ _ => rfl) () cutChunks (by decide)
    (by decide) (by decide)).2 rfl (by decide) (by decide)

end TorrentNG.Utp.Link
