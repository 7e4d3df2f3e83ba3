/-
The packets of settings. The loader takes texts of any length and any
contents, so it accepts settings whose packets cannot be sent; `encode_packets`
says which these are. Settings hold few enough strings that the length of the
whole packet is never what stands in the way.
-/
import Mathlib
import MqttCodec.Proofs.ClientPacket.Encoding
import MqttCodec.Proofs.Settings.Rendering

namespace MqttCodec

namespace ClientPacket

/-- A packet that cannot be sent is refused whatever the buffer is. -/
theorem encode_eq_invalidParameter_iff {p : ClientPacket} {buffer : Bytes} :
    (p.encode buffer).1 = .error .invalidParameter ↔ ¬ (p.Sendable ∧ p.Identified) := by
  rw [encode_eq]
  by_cases h : p.Sendable ∧ p.Identified
  · rw [if_pos h]
    split <;> simp [h]
  · simp [h]

/-- Any other packet has a size, and its room is all that matters. -/
theorem encode_of_not_invalidParameter {p : ClientPacket} {buffer : Bytes}
    (h : (p.encode buffer).1 ≠ .error .invalidParameter) :
    ∃ size, p.size = .ok size ∧
      (p.encode buffer).1 = if buffer.length < size.total then .error .bufferTooSmall else .ok size.total := by
  obtain ⟨hs, hid⟩ := not_not.1 (mt encode_eq_invalidParameter_iff.2 h)
  refine ⟨_, size_eq_ok_iff.2 ⟨hs, rfl⟩, ?_⟩
  rw [encode_eq, if_pos ⟨hs, hid⟩]
  by_cases hroom : p.wire.length ≤ buffer.length
  · rw [if_pos hroom, if_neg (Nat.not_lt.2 hroom)]
  · rw [if_neg hroom, if_pos (Nat.not_le.1 hroom)]

/-- A few fields of any admitted length are far from the limit of a packet. -/
theorem sum_fields_le {lengths : List Nat} {few : Nat} (hfew : lengths.length ≤ few)
    (h : ∀ n ∈ lengths, n ≤ Bytes.maxField) (extra : Nat) :
    (lengths.map (2 + · + extra)).sum ≤ few * (2 + Bytes.maxField + extra) := by
  have hsum := List.sum_le_card_nsmul (lengths.map (2 + · + extra)) (2 + Bytes.maxField + extra)
    (List.forall_mem_map.2 fun n hn => by have := h n hn; omega)
  rw [List.length_map, smul_eq_mul] at hsum
  exact hsum.trans (Nat.mul_le_mul_right _ hfew)

theorem length_body_connect_le {o : ConnectOptions} {will : Option Message}
    (h : ∀ n ∈ (connect o will).fieldLengths, n ≤ Bytes.maxField) :
    (connect o will).body.length ≤ RemainingLength.max := by
  have hfew : (o.fieldLengths will).length ≤ 5 := by
    rcases o with ⟨_, _, _, _ | _, _ | _⟩ <;> cases will <;> simp [ConnectOptions.fieldLengths]
  have hsum := sum_fields_le hfew h 0
  rw [length_body_connect]
  simp only [Nat.add_zero, connectHeaderSize, Bytes.maxField, RemainingLength.max] at *
  omega

theorem length_body_subscribe_le {subscriptions : List Subscription} {packetId : UInt16}
    (hfew : subscriptions.length ≤ maxSubscriptions)
    (h : ∀ n ∈ (subscribe subscriptions packetId).fieldLengths, n ≤ Bytes.maxField) :
    (subscribe subscriptions packetId).body.length ≤ RemainingLength.max := by
  have hbody : (subscribe subscriptions packetId).body.length = _ :=
    length_body_entries (fun s => [s.qos.level]) 1 (fun _ => rfl) subscriptions packetId
  have hlengths : (subscribe subscriptions packetId).fieldLengths.length ≤ maxSubscriptions := by
    rwa [fieldLengths, List.length_map]
  have hsum := sum_fields_le hlengths h 1
  rw [fieldLengths, List.map_map] at hsum
  change _ ≤ _ at hsum
  rw [hbody]
  simp only [Function.comp_def, packetIdSize, maxSubscriptions, Bytes.maxField, RemainingLength.max] at *
  omega

end ClientPacket

namespace Settings

/-- The strings that stand after their length in a CONNECT of settings. -/
def connectStrings (s : Settings) : List String :=
  s.connect.strings ++ s.will.toList.flatMap Will.strings

/-- All packets that are made of settings. -/
def packets (s : Settings) (packetId : UInt16) : List ClientPacket :=
  s.connectPacket :: (s.subscribePacket? packetId).toList

variable {s : Settings} {packetId : UInt16}

theorem mem_packets {p : ClientPacket} :
    p ∈ s.packets packetId ↔
      p = s.connectPacket ∨ (s.subscriptions ≠ [] ∧ p = .subscribe s.subscriptions packetId) := by
  unfold packets subscribePacket?
  split <;> simp_all

theorem forall_mem_connectPacket_fieldLengths {P : Nat → Prop} :
    (∀ n ∈ s.connectPacket.fieldLengths, P n) ↔ ∀ x ∈ s.connectStrings, P x.utf8ByteSize := by
  rw [connectPacket, ClientPacket.forall_mem_connect_fieldLengths]
  simp only [connectStrings, ConnectOptions.strings, Will.strings, List.forall_mem_append,
    List.forall_mem_cons, List.forall_mem_flatMap, Option.mem_toList, Option.mem_map,
    forall_exists_index, and_imp, forall_apply_eq_imp_iff₂, Will.toMessage, Bytes.length_ofString]
  simp [and_assoc, and_comm]

/-- The length of a packet is not what settings are refused for. -/
theorem length_body_le_of_mem_packets {p : ClientPacket} (hp : p ∈ s.packets packetId)
    (h : ∀ n ∈ p.fieldLengths, n ≤ Bytes.maxField) : p.body.length ≤ RemainingLength.max := by
  obtain rfl | ⟨-, rfl⟩ := mem_packets.1 hp
  · exact ClientPacket.length_body_connect_le h
  · exact ClientPacket.length_body_subscribe_le s.length_subscriptions h

theorem sendable_connectPacket_iff :
    s.connectPacket.Sendable ↔
      (s.connect.clientId = "" → s.connect.cleanSession) ∧
      (s.connect.password.isSome → s.connect.userName.isSome) ∧
      (∀ w ∈ s.will, IsTopicName w.topic) ∧ ∀ x ∈ s.connectStrings, x.utf8ByteSize ≤ Bytes.maxField := by
  have hwill : (∀ m ∈ s.will.map Will.toMessage, IsTopicName m.topic) ↔
      ∀ w ∈ s.will, IsTopicName w.topic := by
    simp [Will.toMessage]
  rw [← hwill, ← forall_mem_connectPacket_fieldLengths (P := (· ≤ Bytes.maxField))]
  refine ⟨fun h => ?_, fun h => ?_⟩
  · obtain ⟨⟨hid, hpassword, htopic⟩, hfields, -⟩ := h
    exact ⟨hid, hpassword, htopic, hfields⟩
  · obtain ⟨hid, hpassword, htopic, hfields⟩ := h
    exact ⟨⟨hid, hpassword, htopic⟩, hfields, ClientPacket.length_body_connect_le hfields⟩

theorem sendable_subscribe_iff (hne : s.subscriptions ≠ []) :
    (ClientPacket.subscribe s.subscriptions packetId).Sendable ↔
      ∀ x ∈ s.subscriptions, x.topicFilter ≠ "" ∧ x.topicFilter.utf8ByteSize ≤ Bytes.maxField := by
  have hfields : (∀ n ∈ (ClientPacket.subscribe s.subscriptions packetId).fieldLengths, n ≤ Bytes.maxField) ↔
      ∀ x ∈ s.subscriptions, x.topicFilter.utf8ByteSize ≤ Bytes.maxField := List.forall_mem_map
  refine ⟨fun h x hx => ?_, fun h => ?_⟩
  · obtain ⟨⟨-, hfilters⟩, hsizes, -⟩ := h
    exact ⟨hfilters x hx, hfields.1 hsizes x hx⟩
  · have hsizes := hfields.2 fun x hx => (h x hx).2
    exact ⟨⟨hne, fun x hx => (h x hx).1⟩, hsizes,
      ClientPacket.length_body_subscribe_le s.length_subscriptions hsizes⟩

theorem encode_connectPacket_eq_invalidParameter_iff {buffer : Bytes} :
    (s.connectPacket.encode buffer).1 = .error .invalidParameter ↔
      (s.connect.clientId = "" ∧ s.connect.cleanSession = false) ∨
      (s.connect.password ≠ none ∧ s.connect.userName = none) ∨
      (∃ w ∈ s.will, w.topic = "" ∨ '+' ∈ w.topic.toList ∨ '#' ∈ w.topic.toList) ∨
      ∃ x ∈ s.connectStrings, Bytes.maxField < x.utf8ByteSize := by
  rw [ClientPacket.encode_eq_invalidParameter_iff, sendable_connectPacket_iff]
  have hidentified : s.connectPacket.Identified := trivial
  simp [hidentified, IsTopicName, Option.ne_none_iff_isSome, -not_and,
    Classical.not_and_iff_not_or_not]

theorem subscribePacket?_eq_none_iff : s.subscribePacket? packetId = none ↔ s.subscriptions = [] := by
  simp [subscribePacket?]

theorem encode_subscribePacket_eq_invalidParameter_iff {p : ClientPacket}
    (hp : p ∈ s.subscribePacket? packetId) {buffer : Bytes} :
    (p.encode buffer).1 = .error .invalidParameter ↔
      packetId = 0 ∨
      ∃ x ∈ s.subscriptions, x.topicFilter = "" ∨ Bytes.maxField < x.topicFilter.utf8ByteSize := by
  obtain ⟨hne, rfl⟩ : s.subscriptions ≠ [] ∧ ClientPacket.subscribe s.subscriptions packetId = p := by
    simpa [subscribePacket?] using hp
  rw [ClientPacket.encode_eq_invalidParameter_iff, sendable_subscribe_iff hne]
  simp [ClientPacket.Identified, -not_and, Classical.not_and_iff_not_or_not, or_comm]

/-- **Which settings have packets that can be sent**, wherever the settings come from. The CONNECT is
refused exactly if the client has no name and does not start afresh, a password has no user name, the
topic of the will is no topic name or a string is longer than a field. There is a SUBSCRIBE exactly
if there is something to subscribe to; it is refused exactly if its identifier is 0 or a filter is
empty or longer than a field. Otherwise only the buffer can be too small, and is so exactly if the
packet's size says so. No packet of settings is too long for its length to be written. -/
theorem encode_packets (s : Settings) (packetId : UInt16) (buffer : Bytes) :
    ((s.connectPacket.encode buffer).1 = .error .invalidParameter ↔
      (s.connect.clientId = "" ∧ s.connect.cleanSession = false) ∨
      (s.connect.password ≠ none ∧ s.connect.userName = none) ∨
      (∃ w ∈ s.will, w.topic = "" ∨ '+' ∈ w.topic.toList ∨ '#' ∈ w.topic.toList) ∨
      ∃ x ∈ s.connectStrings, Bytes.maxField < x.utf8ByteSize) ∧
    (s.subscribePacket? packetId = none ↔ s.subscriptions = []) ∧
    (∀ p ∈ s.subscribePacket? packetId, (p.encode buffer).1 = .error .invalidParameter ↔
      packetId = 0 ∨
      ∃ x ∈ s.subscriptions, x.topicFilter = "" ∨ Bytes.maxField < x.topicFilter.utf8ByteSize) ∧
    (∀ p ∈ s.packets packetId, (p.encode buffer).1 ≠ .error .invalidParameter →
      ∃ size, p.size = .ok size ∧
        (p.encode buffer).1 =
          if buffer.length < size.total then .error .bufferTooSmall else .ok size.total) ∧
    (∀ p ∈ s.packets packetId, (∀ n ∈ p.fieldLengths, n ≤ Bytes.maxField) →
      p.body.length ≤ RemainingLength.max) :=
  ⟨encode_connectPacket_eq_invalidParameter_iff, subscribePacket?_eq_none_iff,
    fun _ hp => encode_subscribePacket_eq_invalidParameter_iff hp,
    fun _ _ => ClientPacket.encode_of_not_invalidParameter, fun _ => length_body_le_of_mem_packets⟩

/-- Settings that were loaded are no exception: a text is accepted whatever its strings are, and may
ask for packets that cannot be sent. -/
theorem encode_of_load {text : String} {s : Settings} (_ : load text = .ok s) (packetId : UInt16)
    (buffer : Bytes) :
    ((s.connectPacket.encode buffer).1 = .error .invalidParameter ↔
      (s.connect.clientId = "" ∧ s.connect.cleanSession = false) ∨
      (s.connect.password ≠ none ∧ s.connect.userName = none) ∨
      (∃ w ∈ s.will, w.topic = "" ∨ '+' ∈ w.topic.toList ∨ '#' ∈ w.topic.toList) ∨
      ∃ x ∈ s.connectStrings, Bytes.maxField < x.utf8ByteSize) ∧
    (s.subscribePacket? packetId = none ↔ s.subscriptions = []) ∧
    (∀ p ∈ s.subscribePacket? packetId, (p.encode buffer).1 = .error .invalidParameter ↔
      packetId = 0 ∨
      ∃ x ∈ s.subscriptions, x.topicFilter = "" ∨ Bytes.maxField < x.topicFilter.utf8ByteSize) ∧
    (∀ p ∈ s.packets packetId, (p.encode buffer).1 ≠ .error .invalidParameter →
      ∃ size, p.size = .ok size ∧
        (p.encode buffer).1 =
          if buffer.length < size.total then .error .bufferTooSmall else .ok size.total) ∧
    (∀ p ∈ s.packets packetId, (∀ n ∈ p.fieldLengths, n ≤ Bytes.maxField) →
      p.body.length ≤ RemainingLength.max) :=
  encode_packets s packetId buffer

/-- A will for many topics at once, and a buffer that is too small for what is subscribed to. -/
theorem encode_of_load_wildcard :
    let text := "\x7b\"connect\":\x7b\"client_identifier\":\"d\"\x7d,\"will\":\x7b\"topic\":\"a/+\"\x7d," ++
      "\"subscriptions\":[\x7b\"topic_filter\":\"a/+\"\x7d]\x7d"
    ∃ s, load text = .ok s ∧ ∀ buffer : Bytes, buffer.length = 9 →
      (s.connectPacket.encode buffer).1 = .error .invalidParameter ∧
        ∃ p, s.subscribePacket? 7 = some p ∧ (p.encode buffer).1 = .error .bufferTooSmall := by
  intro text
  let s : Settings :=
    { connect := { clientId := "d" }, will := some { topic := "a/+" },
      subscriptions := [{ topicFilter := "a/+" }] }
  have hload : load text = .ok s := by
    simp only [text]
    cbv
  refine ⟨s, hload, fun buffer hbuffer => ?_⟩
  obtain ⟨hconnect, -, hsubscribe, hothers, -⟩ := encode_of_load hload 7 buffer
  refine ⟨hconnect.2 (.inr (.inr (.inl ⟨_, rfl, .inr (.inl (by decide))⟩))), _, rfl, ?_⟩
  have hvalid : ¬ ((7 : UInt16) = 0 ∨
      ∃ x ∈ s.subscriptions, x.topicFilter = "" ∨ Bytes.maxField < x.topicFilter.utf8ByteSize) := by
    decide
  obtain ⟨size, hsize, hencode⟩ := hothers _ (mem_packets.2 (.inr ⟨by decide, rfl⟩))
    (mt (hsubscribe _ rfl).1 hvalid)
  cases hsize
  rw [hencode, hbuffer]
  rfl

end Settings

end MqttCodec
