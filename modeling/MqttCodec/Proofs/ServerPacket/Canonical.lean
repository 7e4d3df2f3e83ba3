/-
What is read as a message, or as an acknowledgement of one, is nothing but
the packet that would be sent for it. Every reader takes a written form from
the front of its input, so the header and the contents of a frame that is
accepted can be told from what was found in it (`Publication.packet_of_ofFrame`,
`Acknowledgement.packet_of_ofFrame`).
-/
import MqttCodec.Proofs.ServerPacket.Decoding

namespace MqttCodec

/-! ## Parts -/

theorem Bytes.takePacketId_eq_ok_iff {data rest : Bytes} {packetId : UInt16} :
    takePacketId data = .ok (packetId, rest) ↔ packetId ≠ 0 ∧ data = ofUInt16 packetId ++ rest := by
  constructor
  · intro h
    simp only [takePacketId, bind_eq_ok_iff, require_eq_ok_iff, Prod.exists] at h
    obtain ⟨_, _, htake, _, hne, hpure⟩ := h
    cases hpure
    exact ⟨hne, takeUInt16_eq_ok_iff.1 htake⟩
  · rintro ⟨hne, rfl⟩
    exact takePacketId_ofUInt16 hne rest

namespace Publication

theorem takeTopic_eq_ok_iff {data rest : Bytes} {topic : String} :
    takeTopic data = .ok (topic, rest) ↔
      topic ≠ "" ∧ topic.utf8ByteSize ≤ Bytes.maxField ∧
        data = ClientPacket.textField topic ++ rest := by
  constructor
  · intro h
    simp only [takeTopic, bind_eq_ok_iff, require_eq_ok_iff, Prod.exists] at h
    obtain ⟨length, _, hlength, bytes, _, hbytes, _, hne, htext⟩ := h
    split at htext
    · rename_i htopic
      cases htext
      obtain rfl := Bytes.toText?_eq_some_iff.1 htopic
      obtain ⟨rfl, hsize⟩ := Bytes.takeExactly_eq_ok_iff.1 hbytes
      obtain rfl := Bytes.takeUInt16_eq_ok_iff.1 hlength
      have hfront : (Bytes.ofString topic).length.toUInt16 = length := by
        rw [hsize]
        exact UInt16.ofNat_toNat
      refine ⟨?_, ?_, ?_⟩
      · rintro rfl
        exact hne (by decide)
      · rw [← Bytes.length_ofString, hsize, Bytes.maxField]
        exact Nat.le_of_lt_succ length.toNat_lt
      · rw [ClientPacket.textField, Bytes.field, hfront, List.append_assoc]
    · cases htext
  · rintro ⟨hne, hsize, rfl⟩
    exact takeTopic_textField hne hsize rest

theorem takePacketIdFor_eq_ok {qos : QoS} {data payload : Bytes} {packetId : Option UInt16}
    (h : takePacketIdFor qos data = .ok (packetId, payload)) :
    (qos.needsPacketId → packetId.getD 0 ≠ 0) ∧
      data = (if qos.needsPacketId then Bytes.ofUInt16 (packetId.getD 0) else []) ++ payload := by
  rw [takePacketIdFor] at h
  by_cases hq : qos.needsPacketId
  · simp only [if_pos hq] at h ⊢
    rcases htake : Bytes.takePacketId data with e | ⟨id, rest⟩
    · rw [htake] at h
      cases h
    · rw [htake] at h
      cases h
      obtain ⟨hne, hdata⟩ := Bytes.takePacketId_eq_ok_iff.1 htake
      exact ⟨fun _ => hne, hdata⟩
  · simp only [if_neg hq] at h ⊢
    cases h
    exact ⟨fun hq' => absurd hq' hq, rfl⟩

/-- The first byte of a PUBLISH is told by its flags. -/
theorem header_of_flags {header : UInt8} (hkind : PacketKind.ofHeader? header = some .publish)
    {m : Message} (hqos : qosOfFlags header = .ok m.qos)
    (hretain : m.retain = decide (header &&& 0x01 ≠ 0))
    (hdup : m.dup = decide (header &&& 0x08 ≠ 0)) (packetId : UInt16) :
    (ClientPacket.publish m packetId).header = header := by
  have hupper : header.toNat / 16 = 3 := by
    have hshift := congrArg UInt8.toNat (PacketKind.ofHeader?_eq_publish_iff.1 hkind)
    simpa [UInt8.toNat_shiftRight, Nat.shiftRight_eq_div_pow] using hshift
  obtain ⟨flags, hflags, rfl⟩ : ∃ flags < 16, header = (48 + flags).toUInt8 := by
    refine ⟨header.toNat - 48, by omega, ?_⟩
    have hsum : 48 + (header.toNat - 48) = header.toNat := by omega
    rw [hsum]
    exact UInt8.ofNat_toNat.symm
  simp only [ClientPacket.header, Message.flagSum, hretain, hdup]
  revert hqos
  generalize m.qos = qos
  clear hkind hretain hdup hupper
  -- sixteen headers, and three guarantees of which each names one at most
  revert flags
  cases qos <;> decide

/-- The packet that sends a message on, under the identifier it came with. -/
def packet (p : Publication) : ClientPacket := .publish p.message (p.packetId.getD 0)

theorem packet_of_ofFrame {f : Frame} {p : Publication} (h : ofFrame f = .ok p) :
    f.header = p.packet.header ∧ f.contents = .ok p.packet.body ∧ p.packet.Identified ∧
      p.message.topic ≠ "" ∧ p.message.topic.utf8ByteSize ≤ Bytes.maxField := by
  simp only [ofFrame, bind_eq_ok_iff, require_eq_ok_iff, Prod.exists] at h
  obtain ⟨_, hkind, data, hdata, qos, hqos, _, -, topic, _, htopic, packetId, payload, hid, hp⟩ := h
  cases hp
  obtain ⟨hne, hsize, rfl⟩ := takeTopic_eq_ok_iff.1 htopic
  obtain ⟨hidentified, rfl⟩ := takePacketIdFor_eq_ok hid
  refine ⟨?_, ?_, hidentified, hne, hsize⟩
  · exact (header_of_flags hkind hqos rfl rfl _).symm
  · rw [hdata, packet, ClientPacket.body, List.append_assoc]

end Publication

/-- The kind of the packets that grant something. -/
def Acknowledgement.kind : Acknowledgement → PacketKind
  | connAck _ => .connAck
  | subAck .. => .subAck
  | unsubAck _ => .unsubAck
  | publishAck ackKind _ => ackKind.kind
  | pingResp => .pingResp

/-- The kind of the packets that turn something down. -/
def Refusal.kind : Refusal → PacketKind
  | connect _ => .connAck
  | subscribe .. => .subAck

namespace Verdict

/-- The kind of the packets that say so. -/
def kind : Verdict → PacketKind
  | accepted a => a.kind
  | refused r => r.kind

variable {f : Frame} {v : Verdict} {packetId : UInt16}

theorem kind_of_ofConnAck (h : ofConnAck f = .ok v) : v.kind = .connAck := by
  simp only [ofConnAck, bind_eq_ok_iff] at h
  obtain ⟨_, -, data, -, h⟩ := h
  split at h
  · simp only [bind_eq_ok_iff] at h
    obtain ⟨_, -, h⟩ := h
    split at h
    · cases h; rfl
    · obtain ⟨_, -, h⟩ := bind_eq_ok_iff.1 h
      cases h; rfl
    · cases h
  · cases h

theorem kind_of_ofSubAck (h : ofSubAck f = .ok v) : v.kind = .subAck := by
  simp only [ofSubAck, bind_eq_ok_iff, Prod.exists] at h
  obtain ⟨_, -, _, -, packetId, returnCodes, -, _, -, h⟩ := h
  split at h <;> cases h <;> rfl

/-- What a frame says is said by packets of its kind. -/
theorem kind_of_ofFrame (h : ofFrame f = .ok v) : f.kind? = some v.kind := by
  unfold ofFrame at h
  split at h
  case h_1 hkind => rw [hkind, kind_of_ofConnAck h]
  case h_2 hkind => rw [hkind, kind_of_ofSubAck h]
  case h_3 hkind =>
    obtain ⟨_, -, rfl⟩ := map_eq_ok_iff.1 h
    exact hkind
  case h_4 hkind =>
    obtain ⟨_, -, rfl⟩ := map_eq_ok_iff.1 h
    exact hkind
  case h_5 hkind =>
    split at h
    · rename_i hack
      obtain ⟨_, -, rfl⟩ := map_eq_ok_iff.1 h
      rw [hkind, kind, Acknowledgement.kind, AckKind.kind_of_ofKind? hack]
    · cases h
  case h_6 => cases h

theorem contents_of_packetIdOfFrame (h : packetIdOfFrame f = .ok packetId) :
    f.contents = .ok (Bytes.ofUInt16 packetId) ∧ packetId ≠ 0 := by
  simp only [packetIdOfFrame, bind_eq_ok_iff, require_eq_ok_iff, Prod.exists] at h
  obtain ⟨_, hlength, data, hdata, _, rest, htake, hpure⟩ := h
  cases hpure
  obtain ⟨hne, rfl⟩ := Bytes.takePacketId_eq_ok_iff.1 htake
  -- the identifier is as long as the whole frame
  have hall := Frame.length_of_contents hdata
  rw [hlength, List.length_append, Bytes.length_ofUInt16] at hall
  have hrest : rest = [] := List.length_eq_zero_iff.1 (by omega)
  rw [hrest, List.append_nil] at hdata
  exact ⟨hdata, hne⟩

end Verdict

theorem Acknowledgement.packet_of_ofFrame {f : Frame} {ackKind : AckKind} {packetId : UInt16}
    (h : ofFrame f = .ok (.publishAck ackKind packetId)) :
    f.header = (ClientPacket.ack ackKind packetId).header ∧
      f.contents = .ok (ClientPacket.ack ackKind packetId).body ∧ packetId ≠ 0 := by
  have hverdict : Verdict.ofFrame f = .ok (.accepted (.publishAck ackKind packetId)) :=
    ofFrame_eq_ok_iff.1 h
  have hkind : f.kind? = some ackKind.kind := Verdict.kind_of_ofFrame hverdict
  have hid : Verdict.packetIdOfFrame f = .ok packetId := by
    rw [Verdict.ofFrame, hkind] at hverdict
    cases ackKind
    all_goals
      obtain ⟨_, hid, heq⟩ := map_eq_ok_iff.1 hverdict
      cases heq
      exact hid
  refine ⟨?_, Verdict.contents_of_packetIdOfFrame hid⟩
  rw [ClientPacket.header_ack]
  exact (PacketKind.headerByte_of_ofHeader? hkind ackKind.kind_ne_publish).symm

namespace ServerPacket

variable {f : Frame}

theorem publication_of_ofFrame {p : Publication} (h : ofFrame f = .ok (.publication p)) :
    Publication.ofFrame f = .ok p := by
  unfold ofFrame at h
  split at h
  · obtain ⟨_, hp, heq⟩ := map_eq_ok_iff.1 h
    cases heq
    exact hp
  · obtain ⟨_, -, heq⟩ := map_eq_ok_iff.1 h
    cases heq
  · cases h

theorem acknowledgement_of_ofFrame {a : Acknowledgement} (h : ofFrame f = .ok (.acknowledgement a)) :
    Acknowledgement.ofFrame f = .ok a := by
  unfold ofFrame at h
  split at h
  · obtain ⟨_, -, heq⟩ := map_eq_ok_iff.1 h
    cases heq
  · obtain ⟨_, ha, heq⟩ := map_eq_ok_iff.1 h
    cases heq
    exact ha
  · cases h

end ServerPacket

end MqttCodec
