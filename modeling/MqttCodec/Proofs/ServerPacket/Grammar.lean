/-
Which bytes are a PUBLISH. After the fixed header stand a topic with its
length, the packet identifier of a message that needs one, and the payload,
which is all the rest (`Publication.Grammar`). Bytes can be divided like that
in one way at most, and there is a message in a frame exactly if its bytes
can be (`Publication.ofFrame_eq_ok_iff`, `Publication.ofFrame_grammar`).
-/
import Mathlib.Data.Nat.Bitwise
import MqttCodec.Proofs.ServerPacket.Canonical
import MqttCodec.Proofs.ServerPacket.Lengths

namespace MqttCodec

/-! ## The first byte -/

theorem PacketKind.ofHeader?_eq_publish_iff_toNat {header : UInt8} :
    ofHeader? header = some .publish ↔ header.toNat / 16 = 3 := by
  rw [ofHeader?_eq_publish_iff, ← UInt8.toNat_inj, UInt8.toNat_shiftRight, Nat.shiftRight_eq_div_pow]
  rfl

/-- A mask of one bit tests that bit. -/
theorem decide_and_ne_zero (header : UInt8) {mask : UInt8} (i : Nat) (hmask : mask.toNat = 2 ^ i) :
    decide (header &&& mask ≠ 0) = header.toNat.testBit i := by
  have hbits : header &&& mask ≠ 0 ↔ header.toNat.testBit i := by
    rw [ne_eq, ← UInt8.toNat_inj, UInt8.toNat_and, hmask, Nat.and_two_pow]
    cases header.toNat.testBit i <;> simp
  rw [Bool.eq_iff_iff, decide_eq_true_iff]
  exact hbits

namespace Publication

/-- The guarantee in the first byte of a PUBLISH, as a number from 0 to 3. -/
def levelOfHeader (header : UInt8) : Nat := header.toNat / 2 % 4

theorem qosOfFlags_eq_ok_iff {header : UInt8} {qos : QoS} :
    qosOfFlags header = .ok qos ↔ qos.level.toNat = levelOfHeader header := by
  have hbits : ((header &&& 0x06) >>> 1).toNat = levelOfHeader header := by
    rw [UInt8.toNat_shiftRight, UInt8.toNat_and]
    show (header.toNat &&& 6) >>> 1 = _
    rw [Nat.shiftRight_and_distrib]
    show header.toNat >>> 1 &&& 2 ^ 2 - 1 = _
    rw [Nat.and_two_pow_sub_one_eq_mod, Nat.shiftRight_eq_div_pow]
    rfl
  rw [← hbits, UInt8.toNat_inj, qosOfFlags, mapError_eq_ok_iff]
  constructor
  · exact QoS.level_of_ofLevel
  · intro h
    rw [← h, QoS.ofLevel_level]

theorem exists_level_iff {header : UInt8} :
    (∃ qos : QoS, qos.level.toNat = levelOfHeader header) ↔ levelOfHeader header ≠ 3 := by
  have hlt : levelOfHeader header < 4 := Nat.mod_lt _ (by decide)
  generalize levelOfHeader header = level at hlt ⊢
  constructor
  · rintro ⟨qos, rfl⟩
    cases qos <;> decide
  · intro h
    match level, hlt, h with
    | 0, _, _ => exact ⟨.atMostOnce, rfl⟩
    | 1, _, _ => exact ⟨.atLeastOnce, rfl⟩
    | 2, _, _ => exact ⟨.exactlyOnce, rfl⟩
    | 3, _, h => exact absurd rfl h

theorem needsPacketId_iff {qos : QoS} : qos.needsPacketId ↔ 0 < qos.level.toNat := by
  cases qos <;> decide

/-! ## The bytes after the fixed header -/

/-- The division of a PUBLISH's bytes into a topic, a packet identifier if the guarantee's number is
above 0, and a payload. -/
structure Grammar (level : Nat) (data : Bytes) (topic : String) (packetId : Option UInt16)
    (payload : Bytes) : Prop where
  topic_ne : topic ≠ ""
  size_topic : topic.utf8ByteSize ≤ Bytes.maxField
  isSome_packetId : packetId.isSome ↔ 0 < level
  packetId_ne : packetId ≠ some 0
  data_eq : data = Bytes.field (Bytes.ofString topic) ++ packetId.elim [] Bytes.ofUInt16 ++ payload

variable {qos : QoS} {level : Nat} {data payload : Bytes} {topic : String} {packetId : Option UInt16}

theorem takePacketIdFor_eq_ok_iff :
    takePacketIdFor qos data = .ok (packetId, payload) ↔
      (packetId.isSome ↔ 0 < qos.level.toNat) ∧ packetId ≠ some 0 ∧
        data = packetId.elim [] Bytes.ofUInt16 ++ payload := by
  rw [takePacketIdFor, ← needsPacketId_iff]
  by_cases hq : qos.needsPacketId
  · rw [if_pos hq, map_eq_ok_iff]
    constructor
    · rintro ⟨⟨id, rest⟩, htake, heq⟩
      cases heq
      obtain ⟨hne, hdata⟩ := Bytes.takePacketId_eq_ok_iff.1 htake
      exact ⟨iff_of_true rfl hq, fun h => hne (Option.some.inj h), hdata⟩
    · rintro ⟨hsome, hne, hdata⟩
      obtain ⟨id, rfl⟩ := Option.isSome_iff_exists.1 (hsome.2 hq)
      have hid : id ≠ 0 := fun h => hne (congrArg some h)
      exact ⟨(id, payload), Bytes.takePacketId_eq_ok_iff.2 ⟨hid, hdata⟩, rfl⟩
  · rw [if_neg hq]
    constructor
    · intro h
      cases h
      exact ⟨iff_of_false Bool.false_ne_true hq, Option.some_ne_none 0 |>.symm, rfl⟩
    · rintro ⟨hsome, -, rfl⟩
      cases packetId with
      | none => rfl
      | some id => exact absurd (hsome.1 rfl) hq

/-- Reading the topic and the packet identifier divides the bytes. -/
theorem grammar_iff :
    Grammar qos.level.toNat data topic packetId payload ↔
      ∃ rest, takeTopic data = .ok (topic, rest) ∧
        takePacketIdFor qos rest = .ok (packetId, payload) := by
  simp only [takeTopic_eq_ok_iff, takePacketIdFor_eq_ok_iff]
  constructor
  · rintro ⟨hne, hsize, hsome, hid, rfl⟩
    exact ⟨_, ⟨hne, hsize, List.append_assoc ..⟩, hsome, hid, rfl⟩
  · rintro ⟨_, ⟨hne, hsize, rfl⟩, hsome, hid, rfl⟩
    exact ⟨hne, hsize, hsome, hid, (List.append_assoc ..).symm⟩

/-- **Bytes can be divided in one way.** -/
theorem Grammar.unique {topic' : String} {packetId' : Option UInt16} {payload' : Bytes}
    (h : Grammar level data topic packetId payload) (h' : Grammar level data topic' packetId' payload') :
    topic' = topic ∧ packetId' = packetId ∧ payload' = payload := by
  have hdata := h'.data_eq.symm.trans h.data_eq
  rw [List.append_assoc, List.append_assoc] at hdata
  obtain ⟨htopic, hrest⟩ := Bytes.field_append_inj ((Bytes.length_ofString _).trans_le h'.size_topic)
    ((Bytes.length_ofString _).trans_le h.size_topic) hdata
  have hsome : packetId'.isSome = packetId.isSome :=
    Bool.eq_iff_iff.2 (h'.isSome_packetId.trans h.isSome_packetId.symm)
  obtain ⟨hid, hpayload⟩ := Bytes.elim_append_inj id hsome
    (fun _ _ _ _ _ _ heq => Bytes.ofUInt16_append_inj heq) hrest
  rw [Option.map_id, id, id] at hid
  exact ⟨Bytes.ofString_inj htopic, hid, hpayload⟩

/-- No message is shorter than the shortest one is said to be. -/
theorem Grammar.minLength_le (h : Grammar qos.level.toNat data topic packetId payload) :
    minLength qos ≤ data.length := by
  have hpos : 0 < topic.utf8ByteSize := by
    rw [Nat.pos_iff_ne_zero, ne_eq, String.utf8ByteSize_eq_zero_iff]
    exact h.topic_ne
  have hid : (packetId.elim [] Bytes.ofUInt16).length = if qos.needsPacketId then 2 else 0 := by
    have hsome := h.isSome_packetId.trans needsPacketId_iff.symm
    cases packetId with
    | none => exact (if_neg fun hq => nomatch hsome.2 hq).symm
    | some id => exact (if_pos (hsome.1 rfl)).symm
  rw [h.data_eq, List.length_append, List.length_append, Bytes.length_field, Bytes.length_ofString, hid,
    minLength]
  split <;> omega

/-! ## Frames -/

variable {f : Frame} {p : Publication}

theorem ofFrame_of_grammar (hkind : f.header.toNat / 16 = 3) (hlength : f.length ≤ f.data.length)
    (hlevel : qos.level.toNat = levelOfHeader f.header)
    (h : Grammar qos.level.toNat (f.data.take f.length) topic packetId payload) :
    ofFrame f = .ok {
      packetId
      message := {
        qos, topic, payload
        retain := f.header.toNat.testBit 0
        dup := f.header.toNat.testBit 3 } } := by
  have hpublish : f.kind? = some .publish := PacketKind.ofHeader?_eq_publish_iff_toNat.2 hkind
  obtain ⟨rest, htopic, hid⟩ := grammar_iff.1 h
  rw [ofFrame, require_bind, if_pos hpublish, Frame.contents_eq_ok_iff.2 ⟨hlength, rfl⟩, ok_bind,
    qosOfFlags_eq_ok_iff.2 hlevel, ok_bind, require_bind, if_pos h.minLength_le, htopic, ok_bind]
  dsimp only
  rw [hid, ok_bind, decide_and_ne_zero f.header 0 rfl, decide_and_ne_zero f.header 3 rfl]
  rfl

theorem ofFrame_eq_ok_iff :
    ofFrame f = .ok p ↔
      f.header.toNat / 16 = 3 ∧ f.length ≤ f.data.length ∧
        p.message.qos.level.toNat = levelOfHeader f.header ∧
        p.message.retain = f.header.toNat.testBit 0 ∧ p.message.dup = f.header.toNat.testBit 3 ∧
        Grammar p.message.qos.level.toNat (f.data.take f.length) p.message.topic p.packetId
          p.message.payload := by
  constructor
  · intro h
    simp only [ofFrame, bind_eq_ok_iff, require_eq_ok_iff, Prod.exists] at h
    obtain ⟨_, hkind, data, hdata, qos, hqos, _, -, topic, rest, htopic, packetId, payload, hid, hp⟩ := h
    cases hp
    obtain ⟨hle, rfl⟩ := Frame.contents_eq_ok_iff.1 hdata
    exact ⟨PacketKind.ofHeader?_eq_publish_iff_toNat.1 hkind, hle, qosOfFlags_eq_ok_iff.1 hqos,
      decide_and_ne_zero _ 0 rfl, decide_and_ne_zero _ 3 rfl, grammar_iff.2 ⟨rest, htopic, hid⟩⟩
  · obtain ⟨packetId, qos, retain, dup, topic, payload⟩ := p
    rintro ⟨hkind, hle, hlevel, rfl, rfl, hgrammar⟩
    exact ofFrame_of_grammar hkind hle hlevel hgrammar

theorem takeTopic_failsOnlyWith : FailsOnlyWith .malformedPacket (takeTopic data) := by
  refine .bind Bytes.takeUInt16_failsOnlyWith fun _ => .bind Bytes.takeExactly_failsOnlyWith fun _ =>
    .bind (.require _) fun _ => ?_
  split
  · exact .ok _
  · exact .error

theorem takePacketIdFor_failsOnlyWith : FailsOnlyWith .malformedPacket (takePacketIdFor qos data) := by
  unfold takePacketIdFor
  split
  · exact .map _ (.bind Bytes.takeUInt16_failsOnlyWith fun _ => .bind (.require _) fun _ => .ok _)
  · exact .ok _

/-- All that can be wrong with the data of a PUBLISH is the server's mistake. -/
theorem ofFrame_failsOnlyWith (hkind : f.header.toNat / 16 = 3) (hlength : f.length ≤ f.data.length) :
    FailsOnlyWith .malformedPacket (ofFrame f) := by
  have hpublish : f.kind? = some .publish := PacketKind.ofHeader?_eq_publish_iff_toNat.2 hkind
  rw [ofFrame, require_bind, if_pos hpublish, Frame.contents_eq_ok_iff.2 ⟨hlength, rfl⟩, ok_bind]
  exact .bind .mapError fun _ => .bind (.require _) fun _ => .bind takeTopic_failsOnlyWith fun _ =>
    .bind takePacketIdFor_failsOnlyWith fun _ => .ok _

theorem ofFrame_eq_invalidParameter_iff :
    ofFrame f = .error .invalidParameter ↔ f.header.toNat / 16 ≠ 3 ∨ f.data.length < f.length := by
  constructor
  · intro h
    rw [← Nat.not_le]
    by_contra hcon
    rw [not_or, not_not, not_not] at hcon
    exact absurd (ofFrame_failsOnlyWith hcon.1 hcon.2 _ h) (by decide)
  · rintro (hkind | hshort)
    · have hpublish : f.kind? ≠ some .publish := fun h =>
        hkind (PacketKind.ofHeader?_eq_publish_iff_toNat.1 h)
      rw [ofFrame, require_bind, if_neg hpublish]
    · exact ofFrame_short hshort

/-- Only the bytes that the frame says are its own are looked at. -/
theorem ofFrame_take (f : Frame) : ofFrame { f with data := f.data.take f.length } = ofFrame f := by
  have hcontents : ({ f with data := f.data.take f.length } : Frame).contents = f.contents := by
    simp only [Frame.contents, List.length_take, List.take_take, Nat.min_self, Nat.le_min,
      Nat.le_refl, true_and]
  rw [ofFrame, ofFrame, hcontents]
  rfl

/-- **A PUBLISH is what the grammar says.** It is the caller's mistake to ask for the message in a
frame of another kind, or in one whose data is not all there. Otherwise there is a message exactly
if the guarantee is not the reserved one and the bytes can be divided; the message says what the
header and the only division say. In all remaining cases the packet is malformed. The least lengths
refuse nothing that can be divided, and bytes after the frame's own change nothing. -/
theorem ofFrame_grammar (f : Frame) :
    (ofFrame f = .error .invalidParameter ↔ f.header.toNat / 16 ≠ 3 ∨ f.data.length < f.length) ∧
    (f.header.toNat / 16 = 3 → f.length ≤ f.data.length →
      ((∃ p, ofFrame f = .ok p) ↔
        levelOfHeader f.header ≠ 3 ∧ ∃ topic packetId payload,
          Grammar (levelOfHeader f.header) (f.data.take f.length) topic packetId payload) ∧
      ((¬ ∃ p, ofFrame f = .ok p) → ofFrame f = .error .malformedPacket)) ∧
    (∀ topic packetId payload,
      Grammar (levelOfHeader f.header) (f.data.take f.length) topic packetId payload →
      (∀ topic' packetId' payload',
        Grammar (levelOfHeader f.header) (f.data.take f.length) topic' packetId' payload' →
        topic' = topic ∧ packetId' = packetId ∧ payload' = payload) ∧
      (∀ qos : QoS, qos.level.toNat = levelOfHeader f.header →
        minLength qos ≤ (f.data.take f.length).length) ∧
      ∀ p, ofFrame f = .ok p →
        p.message.qos.level.toNat = levelOfHeader f.header ∧
        p.message.retain = f.header.toNat.testBit 0 ∧ p.message.dup = f.header.toNat.testBit 3 ∧
        p.message.topic = topic ∧ p.packetId = packetId ∧ p.message.payload = payload) ∧
    ∀ data : Bytes, data.take f.length = f.data.take f.length →
      ofFrame { f with data := data } = ofFrame f := by
  refine ⟨ofFrame_eq_invalidParameter_iff, fun hkind hlength => ⟨⟨?_, ?_⟩, ?_⟩, ?_, ?_⟩
  · rintro ⟨p, hp⟩
    obtain ⟨-, -, hlevel, -, -, hgrammar⟩ := ofFrame_eq_ok_iff.1 hp
    exact ⟨exists_level_iff.1 ⟨_, hlevel⟩, _, _, _, hlevel ▸ hgrammar⟩
  · rintro ⟨hlevel, topic, packetId, payload, hgrammar⟩
    obtain ⟨qos, hqos⟩ := exists_level_iff.2 hlevel
    exact ⟨_, ofFrame_of_grammar hkind hlength hqos (hqos ▸ hgrammar)⟩
  · exact (ofFrame_failsOnlyWith hkind hlength).eq_error
  · intro topic packetId payload h
    refine ⟨fun _ _ _ h' => h.unique h', fun qos hqos => ?_, fun p hp => ?_⟩
    · rw [← hqos] at h
      exact h.minLength_le
    · obtain ⟨-, -, hlevel, hretain, hdup, hgrammar⟩ := ofFrame_eq_ok_iff.1 hp
      rw [hlevel] at hgrammar
      exact ⟨hlevel, hretain, hdup, h.unique hgrammar⟩
  · intro data hdata
    rw [← ofFrame_take f, ← ofFrame_take { f with data := data }, hdata]

/-- A repeated message that wants to be kept, with a byte of the next packet behind it. -/
theorem ofFrame_grammar_attempt :
    let f : Frame := { header := 0x3B, length := 7, data := [0, 1, 116, 0, 9, 5, 6, 0xD0] }
    f.header.toNat / 16 = 3 ∧ f.length ≤ f.data.length ∧
      Grammar (levelOfHeader f.header) (f.data.take f.length) "t" (some 9) [5, 6] ∧
      ∃ p, ofFrame f = .ok p ∧ p.packetId = some 9 ∧ p.message.topic = "t" ∧ p.message.payload = [5, 6] ∧
        p.message.qos = .atLeastOnce ∧ p.message.retain ∧ p.message.dup := by
  intro f
  have hgrammar : Grammar (levelOfHeader f.header) (f.data.take f.length) "t" (some 9) [5, 6] := by
    refine ⟨?_, ?_, ?_, ?_, ?_⟩ <;> decide
  obtain ⟨-, hok, hdivided, -⟩ := ofFrame_grammar f
  obtain ⟨p, hp⟩ := (hok (by decide) (by decide)).1.2 ⟨by decide, _, _, _, hgrammar⟩
  obtain ⟨hlevel, hretain, hdup, htopic, hid, hpayload⟩ := (hdivided _ _ _ hgrammar).2.2 p hp
  refine ⟨by decide, by decide, hgrammar, p, hp, hid, htopic, hpayload, ?_, ?_, ?_⟩
  · revert hlevel
    cases p.message.qos <;> decide
  · exact hretain.trans (by decide)
  · exact hdup.trans (by decide)

end Publication

end MqttCodec
