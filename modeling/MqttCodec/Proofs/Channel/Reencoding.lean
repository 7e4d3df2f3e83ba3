/-
Sending on what was received. A message, or an acknowledgement of one, that
is taken from a queue stood there as exactly the bytes it is encoded in, so
whoever encodes it again gets those bytes. The rules for what may be sent are
stricter than those for what is received in two points only: a topic that is
sent names no wildcard, and no message that is sent at most once is a second
attempt.
-/
import MqttCodec.Proofs.Channel.Receiving
import MqttCodec.Proofs.ServerPacket.Canonical

namespace MqttCodec

/-- What a message that was received must keep besides to be sent on. -/
theorem Publication.sendable_packet_iff {p : Publication} (hne : p.message.topic ≠ "")
    (htopic : p.message.topic.utf8ByteSize ≤ Bytes.maxField)
    (hbody : p.packet.body.length ≤ RemainingLength.max) :
    p.packet.Sendable ↔
      '+' ∉ p.message.topic.toList ∧ '#' ∉ p.message.topic.toList ∧
        ¬ (p.message.dup ∧ p.message.qos = .atMostOnce) := by
  have hfields : ∀ n ∈ p.packet.fieldLengths, n ≤ Bytes.maxField := List.forall_mem_singleton.2 htopic
  have hdup : (p.message.dup → p.message.qos.needsPacketId) ↔
      ¬ (p.message.dup ∧ p.message.qos = .atMostOnce) := by
    simp only [QoS.needsPacketId, decide_eq_true_eq, not_and]
  constructor
  · rintro ⟨⟨⟨-, hplus, hhash⟩, hattempt⟩, -⟩
    exact ⟨hplus, hhash, hdup.1 hattempt⟩
  · rintro ⟨hplus, hhash, hattempt⟩
    exact ⟨⟨⟨hne, hplus, hhash⟩, hdup.2 hattempt⟩, hfields, hbody⟩

namespace Channel

variable {c c' : Channel}

/-- A packet that was received stood at the front of the queue as its first byte and its body are
sent. -/
theorem queue_of_receive (hopen : c.closed = false) {f : Frame} (h : c.receive = (.ok f, c'))
    {body : Bytes} (hbody : f.contents = .ok body) :
    c.queue = Frame.written f.header body ++ c'.queue ∧ body.length ≤ RemainingLength.max := by
  obtain ⟨-, hn, rest, hqueue, hdata, hrest⟩ := header_of_receive hopen h
  have hlength : body.length = f.length := (Frame.length_of_contents hbody).symm
  obtain ⟨-, rfl⟩ := Frame.contents_eq_ok_iff.1 hbody
  refine ⟨?_, Nat.le_trans (Nat.le_of_eq hlength) hn⟩
  rw [Frame.written, hlength, hqueue, hrest, hdata, List.take_take, Nat.min_self, List.cons_append,
    List.append_assoc, List.take_append_drop]

theorem queue_of_receivePacket (hopen : c.closed = false) {packet : ServerPacket}
    (h : c.receivePacket = (.ok packet, c')) :
    ∃ f, ServerPacket.ofFrame f = .ok packet ∧ ∀ p : ClientPacket, f.header = p.header →
      f.contents = .ok p.body → c.queue = p.wire ++ c'.queue ∧ p.body.length ≤ RemainingLength.max := by
  rcases hreceive : c.receive with ⟨e | f, c''⟩
  · have herror := receivePacket_of_error (congrArg Prod.fst hreceive)
    rw [h] at herror
    cases herror
  · rw [receivePacket_of_ok hreceive] at h
    obtain ⟨hf, rfl⟩ := Prod.mk.inj h
    refine ⟨f, hf, fun p hheader hbody => ?_⟩
    have hqueue := queue_of_receive hopen hreceive hbody
    rw [hheader] at hqueue
    exact hqueue

/-- **What was received is encoded as it was received**: in any buffer with room for it a message
becomes the bytes that were taken from the queue, or is refused if it may not be sent, and an
acknowledgement of a message becomes the bytes that were taken. -/
theorem encode_of_receivePacket (hopen : c.closed = false) :
    (∀ p c', c.receivePacket = (.ok (.publication p), c') →
      ∃ taken, c.queue = taken ++ c'.queue ∧ ∀ buffer : Bytes, taken.length ≤ buffer.length →
        (ClientPacket.publish p.message (p.packetId.getD 0)).encode buffer =
          if '+' ∉ p.message.topic.toList ∧ '#' ∉ p.message.topic.toList ∧
              ¬ (p.message.dup ∧ p.message.qos = .atMostOnce) then
            (.ok taken.length, taken ++ buffer.drop taken.length)
          else (.error .invalidParameter, buffer)) ∧
    ∀ ackKind packetId c',
      c.receivePacket = (.ok (.acknowledgement (.publishAck ackKind packetId)), c') →
      ∃ taken, c.queue = taken ++ c'.queue ∧ ∀ buffer : Bytes, taken.length ≤ buffer.length →
        (ClientPacket.ack ackKind packetId).encode buffer =
          (.ok taken.length, taken ++ buffer.drop taken.length) := by
  constructor
  · intro p c' h
    obtain ⟨f, hf, hqueue⟩ := queue_of_receivePacket hopen h
    obtain ⟨hheader, hbody, hid, hne, htopic⟩ :=
      Publication.packet_of_ofFrame (ServerPacket.publication_of_ofFrame hf)
    obtain ⟨hqueue, hmax⟩ := hqueue p.packet hheader hbody
    refine ⟨p.packet.wire, hqueue, fun buffer hroom => ?_⟩
    change p.packet.encode buffer = _
    have hsendable := Publication.sendable_packet_iff hne htopic hmax
    simp only [ClientPacket.encode_eq, hsendable, hid, and_true, if_pos hroom]
  · intro ackKind packetId c' h
    obtain ⟨f, hf, hqueue⟩ := queue_of_receivePacket hopen h
    obtain ⟨hheader, hbody, hid⟩ :=
      Acknowledgement.packet_of_ofFrame (ServerPacket.acknowledgement_of_ofFrame hf)
    obtain ⟨hqueue, hmax⟩ := hqueue (.ack ackKind packetId) hheader hbody
    have hsendable : (ClientPacket.ack ackKind packetId).Sendable :=
      ⟨trivial, fun n hn => absurd hn List.not_mem_nil, hmax⟩
    refine ⟨_, hqueue, fun buffer hroom => ?_⟩
    exact ClientPacket.encode_eq_ok_iff.2 ⟨⟨hsendable, hid, hroom⟩, rfl, rfl⟩

/-- A second attempt at a message, and an acknowledgement behind it, in buffers with room for a byte
more. -/
theorem encode_of_receivePacket_attempt :
    let first : Bytes := [0x3B, 7, 0, 1, 116, 0, 9, 5, 6]
    let second : Bytes := [0x62, 2, 0, 9]
    let c : Channel := { queue := first ++ second }
    let p : Publication :=
      { packetId := some 9
        message := { qos := .atLeastOnce, retain := true, dup := true, topic := "t", payload := [5, 6] } }
    let c' := c.receivePacket.2
    let c'' := c'.receivePacket.2
    (c.closed = false ∧ c.receivePacket = (.ok (.publication p), c') ∧
      c'.closed = false ∧
      c'.receivePacket = (.ok (.acknowledgement (.publishAck .pubRel 9)), c'')) ∧
      (ClientPacket.publish p.message 9).encode (List.replicate 10 0xAA) = (.ok 9, first ++ [0xAA]) ∧
      (ClientPacket.ack .pubRel 9).encode (List.replicate 5 0xAA) = (.ok 4, second ++ [0xAA]) := by
  intro first second c p c' c''
  have hfirst : c.queue = Frame.written 0x3B [0, 1, 116, 0, 9, 5, 6] ++ second := by
    simp [c, first, Frame.written, RemainingLength.groups_of_lt]
  have hreceive := receivePacket_of_ok (receive_written rfl (by decide) (by decide) hfirst)
  have hmessage : ServerPacket.ofFrame (.whole 0x3B [0, 1, 116, 0, 9, 5, 6]) = .ok (.publication p) := rfl
  have hp : c.receivePacket = (.ok (.publication p), c') :=
    Prod.ext ((congrArg Prod.fst hreceive).trans hmessage) rfl
  have hopen : c'.closed = false := congrArg (·.2.closed) hreceive
  have hrest : c'.queue = second := congrArg (·.2.queue) hreceive
  have hsecond : c'.queue = Frame.written 0x62 [0, 9] ++ [] := by
    rw [hrest]
    simp [second, Frame.written, RemainingLength.groups_of_lt]
  have hreceive' := receivePacket_of_ok (receive_written hopen (by decide) (by decide) hsecond)
  have hrelease : ServerPacket.ofFrame (.whole 0x62 [0, 9]) =
      .ok (.acknowledgement (.publishAck .pubRel 9)) := rfl
  have ha : c'.receivePacket = (.ok (.acknowledgement (.publishAck .pubRel 9)), c'') :=
    Prod.ext ((congrArg Prod.fst hreceive').trans hrelease) rfl
  have hend : c''.queue = [] := congrArg (·.2.queue) hreceive'
  obtain ⟨taken, htaken, hencode⟩ := (encode_of_receivePacket rfl).1 p c' hp
  obtain rfl : first = taken := List.append_cancel_right (hrest ▸ htaken)
  obtain ⟨taken', htaken', hencode'⟩ := (encode_of_receivePacket hopen).2 .pubRel 9 c'' ha
  obtain rfl : second = taken' := by rw [← hrest, htaken', hend, List.append_nil]
  refine ⟨⟨rfl, hp, hopen, ha⟩, ?_, ?_⟩
  · exact (hencode _ (by decide)).trans (if_pos (by decide))
  · exact hencode' _ (by decide)

end Channel

end MqttCodec
