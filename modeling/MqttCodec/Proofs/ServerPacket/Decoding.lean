/-
What a receiver makes of a packet that was sent to it whole. The receiver
knows the packets of a server, so it finds the message in a PUBLISH and the
identifier in an acknowledgement of one, and has no use for what only
clients send. Whoever asks for an acknowledgement is given what the verdict in
a packet grants, and an error for what it refuses
(`Acknowledgement.ofFrame_eq_ok_iff`, `Acknowledgement.ofFrame_eq_error_iff`).
-/
import MqttCodec.Proofs.Bytes
import MqttCodec.Proofs.ClientPacket.Encoding
import MqttCodec.Proofs.Frame
import MqttCodec.ServerPacket.Decoding

namespace MqttCodec

/-! ## Parts -/

theorem Bytes.takePacketId_ofUInt16 {packetId : UInt16} (h : packetId ≠ 0) (rest : Bytes) :
    takePacketId (ofUInt16 packetId ++ rest) = .ok (packetId, rest) := by
  rw [takePacketId, takeUInt16_ofUInt16, ok_bind]
  simp only [require_bind, if_pos h]
  rfl

namespace Publication

theorem takeTopic_textField {topic : String} (hne : topic ≠ "")
    (hlength : topic.utf8ByteSize ≤ Bytes.maxField) (rest : Bytes) :
    takeTopic (ClientPacket.textField topic ++ rest) = .ok (topic, rest) := by
  have hsize : (Bytes.ofString topic).length.toUInt16.toNat = (Bytes.ofString topic).length := by
    rw [Bytes.length_ofString]
    simp only [Bytes.maxField] at hlength
    simp
    omega
  have htext : Bytes.ofString topic ≠ [] := by
    intro hnil
    refine hne (Bytes.ofString_inj ?_)
    rw [hnil]
    decide
  rw [takeTopic, ClientPacket.textField, Bytes.field, List.append_assoc, Bytes.takeUInt16_ofUInt16,
    ok_bind]
  simp only [hsize, Bytes.takeExactly_append, ok_bind, require_bind, if_pos htext,
    Bytes.toText?_ofString]
  rfl

theorem takePacketIdFor_eq {qos : QoS} {packetId : UInt16} (h : qos.needsPacketId → packetId ≠ 0)
    (payload : Bytes) :
    takePacketIdFor qos ((if qos.needsPacketId then Bytes.ofUInt16 packetId else []) ++ payload) =
      .ok (if qos.needsPacketId then some packetId else none, payload) := by
  rw [takePacketIdFor]
  by_cases hq : qos.needsPacketId
  · simp only [if_pos hq, Bytes.takePacketId_ofUInt16 (h hq)]
    rfl
  · simp only [if_neg hq, List.nil_append]

/-- The flags of a PUBLISH, bit by bit. -/
theorem flags_of_header (m : Message) (packetId : UInt16) :
    let header := (ClientPacket.publish m packetId).header
    qosOfFlags header = .ok m.qos ∧ (header &&& 0x01 ≠ 0 ↔ m.retain) ∧
      (header &&& 0x08 ≠ 0 ↔ m.dup) := by
  obtain ⟨qos, retain, dup, topic, payload⟩ := m
  simp only [ClientPacket.header, Message.flagSum]
  revert retain dup
  cases qos <;> decide

theorem minLength_le_body {m : Message} {packetId : UInt16} (htopic : m.topic ≠ "") :
    minLength m.qos ≤ (ClientPacket.publish m packetId).body.length := by
  have hpos : 0 < m.topic.utf8ByteSize := by
    rw [Nat.pos_iff_ne_zero, ne_eq, String.utf8ByteSize_eq_zero_iff]
    exact htopic
  rw [ClientPacket.length_body_publish, minLength]
  simp only [ClientPacket.packetIdSize]
  split <;> omega

theorem ofFrame_publish {m : Message} {packetId : UInt16}
    (hs : (ClientPacket.publish m packetId).Sendable)
    (hid : (ClientPacket.publish m packetId).Identified) :
    ofFrame (.whole (ClientPacket.publish m packetId).header (ClientPacket.publish m packetId).body) =
      .ok { packetId := if m.qos.needsPacketId then some packetId else none, message := m } := by
  have hkind : (Frame.whole (ClientPacket.publish m packetId).header
      (ClientPacket.publish m packetId).body).kind? = some .publish :=
    ClientPacket.ofHeader?_header (.publish m packetId)
  obtain ⟨hqos, hretain, hdup⟩ := flags_of_header m packetId
  have htopic : m.topic ≠ "" := hs.1.1.1
  have hlength := List.forall_mem_singleton.1 hs.2.1
  rw [ofFrame, require_bind, if_pos hkind, Frame.contents_whole, ok_bind]
  simp only [Frame.whole, hqos, ok_bind, require_bind, if_pos (minLength_le_body htopic)]
  rw [ClientPacket.body, List.append_assoc, takeTopic_textField htopic hlength, ok_bind]
  simp only [takePacketIdFor_eq hid, ok_bind, hretain, hdup, Bool.decide_eq_true]
  rfl

end Publication

/-! ## Packets -/

namespace Verdict

theorem packetIdOfFrame_eq {f : Frame} {packetId : UInt16} (hlength : f.length = 2)
    (hcontents : f.contents = .ok (Bytes.ofUInt16 packetId)) :
    packetIdOfFrame f = if packetId = 0 then .error .malformedPacket else .ok packetId := by
  have htake := Bytes.takeUInt16_ofUInt16 packetId []
  rw [List.append_nil] at htake
  rw [packetIdOfFrame, require_bind, if_pos hlength, hcontents, ok_bind, Bytes.takePacketId, htake, ok_bind]
  by_cases hid : packetId = 0
  · simp [hid]
    rfl
  · simp [hid]
    rfl

theorem ofFrame_ack (ackKind : AckKind) {packetId : UInt16} (h : packetId ≠ 0) :
    ofFrame (.whole ackKind.headerByte (Bytes.ofUInt16 packetId)) =
      .ok (.accepted (.publishAck ackKind packetId)) := by
  have hkind : (Frame.whole ackKind.headerByte (Bytes.ofUInt16 packetId)).kind? = some ackKind.kind :=
    PacketKind.ofHeader?_headerByte ackKind.kind
  have hpacketId : packetIdOfFrame (.whole ackKind.headerByte (Bytes.ofUInt16 packetId)) =
      .ok packetId :=
    (packetIdOfFrame_eq rfl (Frame.contents_whole _ _)).trans (if_neg h)
  rw [ofFrame, hkind]
  cases ackKind <;>
    simp only [AckKind.kind, AckKind.ofKind?] <;>
    rw [hpacketId] <;>
    rfl

end Verdict

namespace Acknowledgement

variable {f : Frame}

theorem ofFrame_of_error {e : Error} (h : Verdict.ofFrame f = .error e) : ofFrame f = .error e := by
  rw [ofFrame, h]
  rfl

theorem ofFrame_of_accepted {a : Acknowledgement} (h : Verdict.ofFrame f = .ok (.accepted a)) :
    ofFrame f = .ok a := by
  rw [ofFrame, h]
  rfl

theorem ofFrame_of_refused {r : Refusal} (h : Verdict.ofFrame f = .ok (.refused r)) :
    ofFrame f = .error .serverRefused := by
  rw [ofFrame, h]
  rfl

theorem ofFrame_eq_ok_iff {a : Acknowledgement} :
    ofFrame f = .ok a ↔ Verdict.ofFrame f = .ok (.accepted a) := by
  rcases hverdict : Verdict.ofFrame f with e | b | r
  · simp [ofFrame_of_error hverdict]
  · simp [ofFrame_of_accepted hverdict]
  · simp [ofFrame_of_refused hverdict]

theorem ofFrame_eq_error_iff {e : Error} :
    ofFrame f = .error e ↔
      Verdict.ofFrame f = .error e ∨ e = .serverRefused ∧ ∃ r, Verdict.ofFrame f = .ok (.refused r) := by
  rcases hverdict : Verdict.ofFrame f with e' | a | r
  · simp [ofFrame_of_error hverdict]
  · simp [ofFrame_of_accepted hverdict]
  · simp [ofFrame_of_refused hverdict, eq_comm]

end Acknowledgement

namespace ClientPacket

/-- What a client's packet is taken for. -/
def takenFor : ClientPacket → Except Error ServerPacket
  | publish m packetId =>
    .ok (.publication { packetId := if m.qos.needsPacketId then some packetId else none, message := m })
  | ack ackKind packetId => .ok (.acknowledgement (.publishAck ackKind packetId))
  | connect .. | subscribe .. | unsubscribe .. | pingReq | disconnect => .error .invalidParameter

/-- **Only messages and their acknowledgements pass between equals**, and they pass unchanged. -/
theorem ofFrame_whole {p : ClientPacket} (hs : p.Sendable) (hid : p.Identified) :
    ServerPacket.ofFrame (.whole p.header p.body) = p.takenFor := by
  have hkind : (Frame.whole p.header p.body).kind? = some p.kind := ofHeader?_header p
  cases p with
  | publish m packetId =>
    rw [ServerPacket.ofFrame, hkind]
    simp only [kind, Publication.ofFrame_publish hs hid]
    rfl
  | ack ackKind packetId =>
    have hack : Acknowledgement.ofFrame (.whole ackKind.headerByte (Bytes.ofUInt16 packetId)) =
        .ok (.publishAck ackKind packetId) :=
      Acknowledgement.ofFrame_of_accepted (Verdict.ofFrame_ack ackKind hid)
    rw [ServerPacket.ofFrame, hkind]
    cases ackKind <;> exact congrArg (Except.map ServerPacket.acknowledgement) hack
  | connect | subscribe | unsubscribe | pingReq | disconnect =>
    rw [ServerPacket.ofFrame, hkind]
    simp only [kind, Acknowledgement.ofFrame, Verdict.ofFrame, hkind, AckKind.ofKind?]
    rfl

end ClientPacket

end MqttCodec
