/-
When a client packet has a size, and which. The rules are stated apart from
any computation of lengths (`Sendable`: rules on the contents of the fields,
a bound on each field that stands after its length, and a bound on the
body). `size_eq` shows that the sizes, which are found by adding lengths in
64-bit words and checking along the way, are those of the wire form of
exactly the packets that keep them.
-/
import MqttCodec.ClientPacket.Size
import MqttCodec.ClientPacket.WireFormat
import MqttCodec.Proofs.Error
import MqttCodec.Proofs.RemainingLength

namespace MqttCodec

/-! ## Checks and sums in words -/

theorem PacketSize.ofRemaining_eq (n : Nat) :
    PacketSize.ofRemaining n =
      if n ≤ RemainingLength.max then .ok ⟨n, n + (1 + (RemainingLength.groups n).length)⟩
      else .error .invalidParameter := by
  by_cases h : n ≤ RemainingLength.max
  · simp only [PacketSize.ofRemaining, RemainingLength.encodedSize_eq h, if_pos h]
    rfl
  · simp only [PacketSize.ofRemaining, RemainingLength.encodedSize_of_gt (Nat.not_le.1 h), if_neg h]
    rfl

/-- A body that can be sent is far from the limit of a word. -/
theorem PacketSize.ofRemaining_of_wordLimit_le {n : Nat} (h : wordLimit ≤ n) :
    PacketSize.ofRemaining n = .error .invalidParameter := by
  rw [PacketSize.ofRemaining_eq, if_neg]
  simp only [RemainingLength.max, wordLimit, UInt64.size] at *
  omega

/-- That a sum leaves the words adds nothing to its being too long for a packet. -/
theorem addLength_ofRemaining (count n : Nat) :
    (addLength count n >>= PacketSize.ofRemaining) = PacketSize.ofRemaining (count + n) := by
  unfold addLength
  split
  · rfl
  · rename_i h
    exact (PacketSize.ofRemaining_of_wordLimit_le (Nat.not_lt.1 h)).symm

theorem addField_eq (count n : Nat) :
    addField count n =
      if n ≤ Bytes.maxField ∧ count + (2 + n) < wordLimit then .ok (count + (2 + n))
      else .error .invalidParameter := by
  unfold addField fieldSize
  by_cases hn : n ≤ Bytes.maxField
  · rw [if_pos hn]
    simp only [hn, true_and]
    rfl
  · rw [if_neg hn, if_neg fun h => hn h.1]
    rfl

section Sums

variable {α : Type} {step : Nat → α → Except Error Nat} {admitted : α → Prop} [DecidablePred admitted]
  {bytes : α → Nat}

/-- Adding up counts that are admitted one by one. Since counts only grow, no sum along the way
leaves the words unless the last one does. -/
theorem foldlM_eq_of_step
    (hstep : ∀ count a, step count a =
      if admitted a ∧ count + bytes a < wordLimit then .ok (count + bytes a)
      else .error .invalidParameter)
    {count : Nat} (hcount : count < wordLimit) (l : List α) :
    l.foldlM step count =
      if (∀ a ∈ l, admitted a) ∧ count + (l.map bytes).sum < wordLimit then
        .ok (count + (l.map bytes).sum)
      else .error .invalidParameter := by
  induction l generalizing count with
  | nil =>
    simp only [List.foldlM_nil, List.map_nil, List.sum_nil, Nat.add_zero]
    rw [if_pos ⟨fun a ha => absurd ha List.not_mem_nil, hcount⟩]
    rfl
  | cons a l ih =>
    rw [List.foldlM_cons, hstep]
    simp only [List.map_cons, List.sum_cons, List.forall_mem_cons, ← Nat.add_assoc]
    by_cases ha : admitted a ∧ count + bytes a < wordLimit
    · rw [if_pos ha]
      change l.foldlM step (count + bytes a) = _
      rw [ih ha.2]
      simp only [ha.1, true_and]
    · rw [if_neg ha, if_neg fun h => ha ⟨h.1.1, by omega⟩]
      rfl

/-- A body that is counted part by part has a size if every part is admitted and the whole is not
too long. -/
theorem foldlM_ofRemaining
    (hstep : ∀ count a, step count a =
      if admitted a ∧ count + bytes a < wordLimit then .ok (count + bytes a)
      else .error .invalidParameter)
    {count : Nat} (hcount : count < wordLimit) (l : List α) :
    (l.foldlM step count >>= PacketSize.ofRemaining) =
      if ∀ a ∈ l, admitted a then PacketSize.ofRemaining (count + (l.map bytes).sum)
      else .error .invalidParameter := by
  rw [foldlM_eq_of_step hstep hcount]
  by_cases ha : ∀ a ∈ l, admitted a
  case neg => rw [if_neg ha, if_neg fun h => ha h.1]; rfl
  rw [if_pos ha]
  by_cases hw : count + (l.map bytes).sum < wordLimit
  · rw [if_pos ⟨ha, hw⟩]
    rfl
  · rw [if_neg fun h => hw h.2, PacketSize.ofRemaining_of_wordLimit_le (Nat.not_lt.1 hw)]
    rfl

end Sums

namespace ClientPacket

/-! ## The rules -/

/-- The lengths of the fields that stand after their length, in their order. -/
def fieldLengths : ClientPacket → List Nat
  | connect o will => o.fieldLengths will
  | subscribe subscriptions _ | unsubscribe subscriptions _ =>
    subscriptions.map (·.topicFilter.utf8ByteSize)
  | publish m _ => [m.topic.utf8ByteSize]
  | ack .. | pingReq | disconnect => []

/-- The protocol's rules on what the fields of a packet hold, and on which of them it has. -/
def WellFormed : ClientPacket → Prop
  | connect o will =>
    (o.clientId = "" → o.cleanSession) ∧ (o.password.isSome → o.userName.isSome) ∧
      ∀ w ∈ will, IsTopicName w.topic
  | subscribe subscriptions _ | unsubscribe subscriptions _ =>
    subscriptions ≠ [] ∧ ∀ s ∈ subscriptions, s.topicFilter ≠ ""
  | publish m _ => IsTopicName m.topic ∧ (m.dup → m.qos.needsPacketId)
  | ack .. | pingReq | disconnect => True

instance (p : ClientPacket) : Decidable p.WellFormed :=
  match p with
  | connect .. => inferInstanceAs (Decidable (_ ∧ _ ∧ _))
  | subscribe .. | unsubscribe .. | publish .. => inferInstanceAs (Decidable (_ ∧ _))
  | ack .. | pingReq | disconnect => inferInstanceAs (Decidable True)

theorem forall_mem_connect_fieldLengths {o : ConnectOptions} {will : Option Message} {P : Nat → Prop} :
    (∀ n ∈ (connect o will).fieldLengths, P n) ↔
      P o.clientId.utf8ByteSize ∧
      (∀ w ∈ will, P w.topic.utf8ByteSize ∧ P w.payload.length) ∧
      (∀ s ∈ o.userName, P s.utf8ByteSize) ∧ ∀ s ∈ o.password, P s.utf8ByteSize := by
  rcases o with ⟨clean, keepAlive, clientId, _ | userName, _ | password⟩ <;> cases will <;>
    simp [fieldLengths, ConnectOptions.fieldLengths, and_assoc]

/-- What a packet must keep to be sent, its packet identifier apart. -/
def Sendable (p : ClientPacket) : Prop :=
  p.WellFormed ∧ (∀ n ∈ p.fieldLengths, n ≤ Bytes.maxField) ∧ p.body.length ≤ RemainingLength.max

instance (p : ClientPacket) : Decidable p.Sendable := inferInstanceAs (Decidable (_ ∧ _ ∧ _))

/-! ## Bodies -/

theorem length_wire (p : ClientPacket) :
    p.wire.length = p.body.length + (1 + (RemainingLength.groups p.body.length).length) := by
  simp only [wire, List.length_cons, List.length_append]
  omega

@[simp] theorem length_textField (s : String) : (textField s).length = 2 + s.utf8ByteSize := by
  simp [textField]

theorem length_body_connect (o : ConnectOptions) (will : Option Message) :
    (connect o will).body.length =
      connectHeaderSize + ((o.fieldLengths will).map (2 + ·)).sum := by
  have hname : "MQTT".utf8ByteSize = 4 := rfl
  rcases o with ⟨c, k, i, _ | u, _ | w⟩ <;> rcases will with _ | m <;>
    simp [body, ConnectOptions.fieldLengths, connectHeaderSize, hname] <;> omega

theorem length_body_entries (tail : Subscription → Bytes) (extra : Nat)
    (htail : ∀ s, (tail s).length = extra) (subscriptions : List Subscription) (packetId : UInt16) :
    (Bytes.ofUInt16 packetId ++ subscriptions.flatMap fun s => textField s.topicFilter ++ tail s).length =
      packetIdSize + (subscriptions.map fun s => 2 + s.topicFilter.utf8ByteSize + extra).sum := by
  simp only [List.length_append, Bytes.length_ofUInt16, List.length_flatMap, length_textField, htail,
    packetIdSize]

theorem length_body_publish (m : Message) (packetId : UInt16) :
    (publish m packetId).body.length =
      (if m.qos.needsPacketId then 2 + m.topic.utf8ByteSize + packetIdSize
        else 2 + m.topic.utf8ByteSize) + m.payload.length := by
  simp only [body, List.length_append, length_textField, packetIdSize]
  split <;> simp

/-! ## Sizes -/

/-- The answer every size function gives for a packet: its size, or the one error there is. -/
def sizeIfSendable (p : ClientPacket) : Except Error PacketSize :=
  if p.Sendable then .ok ⟨p.body.length, p.wire.length⟩ else .error .invalidParameter

theorem sizeIfSendable_of_not_wellFormed {p : ClientPacket} (h : ¬ p.WellFormed) :
    p.sizeIfSendable = .error .invalidParameter :=
  if_neg fun hs : p.Sendable => h hs.1

/-- A size that is right for the body, found when the fields keep the rules. -/
theorem sizeIfSendable_eq {p : ClientPacket} {rules : Prop} [Decidable rules]
    (hrules : rules ↔ p.WellFormed ∧ ∀ n ∈ p.fieldLengths, n ≤ Bytes.maxField) {n : Nat}
    (hn : p.body.length = n) :
    p.sizeIfSendable = if rules then PacketSize.ofRemaining n else .error .invalidParameter := by
  subst hn
  unfold sizeIfSendable
  rw [PacketSize.ofRemaining_eq, length_wire]
  by_cases hr : rules
  · obtain ⟨hw, hf⟩ := hrules.1 hr
    rw [if_pos hr]
    by_cases hb : p.body.length ≤ RemainingLength.max
    · rw [if_pos hb, if_pos (show p.Sendable from ⟨hw, hf, hb⟩)]
    · rw [if_neg hb, if_neg fun hs : p.Sendable => hb hs.2.2]
  · rw [if_neg hr, if_neg fun hs : p.Sendable => hr (hrules.2 ⟨hs.1, hs.2.1⟩)]

theorem connectSize_eq (o : ConnectOptions) (will : Option Message) :
    connectSize o will = (connect o will).sizeIfSendable := by
  have invalid (h : ¬ (connect o will).WellFormed) := (sizeIfSendable_of_not_wellFormed h).symm
  simp only [connectSize, require_bind]
  by_cases hc : o.clientId = "" → o.cleanSession
  case neg => rw [if_neg hc]; exact invalid fun h => hc h.1
  by_cases hp : o.password.isSome → o.userName.isSome
  case neg => rw [if_pos hc, if_neg hp]; exact invalid fun h => hp h.2.1
  by_cases ht : ∀ w ∈ will, IsTopicName w.topic
  case neg => rw [if_pos hc, if_pos hp, if_neg ht]; exact invalid fun h => ht h.2.2
  have hw : (connect o will).WellFormed := ⟨hc, hp, ht⟩
  rw [if_pos hc, if_pos hp, if_pos ht, foldlM_ofRemaining addField_eq (by decide)]
  exact (sizeIfSendable_eq ⟨fun hf => ⟨hw, hf⟩, And.right⟩ (length_body_connect o will)).symm

theorem addEntry_eq (extra count : Nat) (s : Subscription) :
    addEntry extra count s =
      if (s.topicFilter ≠ "" ∧ s.topicFilter.utf8ByteSize ≤ Bytes.maxField) ∧
          count + (2 + s.topicFilter.utf8ByteSize + extra) < wordLimit then
        .ok (count + (2 + s.topicFilter.utf8ByteSize + extra))
      else .error .invalidParameter := by
  simp only [addEntry, require_bind]
  by_cases hs : s.topicFilter ≠ ""
  case neg => rw [if_neg hs, if_neg fun h => hs h.1.1]
  rw [if_pos hs]
  by_cases hn : s.topicFilter.utf8ByteSize ≤ Bytes.maxField
  case neg => rw [fieldSize, if_neg hn, if_neg fun h => hn h.1.2]; rfl
  rw [fieldSize, if_pos hn]
  change (addLength (2 + s.topicFilter.utf8ByteSize) extra >>= addLength count) = _
  by_cases he : 2 + s.topicFilter.utf8ByteSize + extra < wordLimit
  · rw [addLength, if_pos he]
    simp only [hs, hn, ne_eq, not_false_eq_true, true_and]
    rfl
  · rw [addLength, if_neg he, if_neg fun h => he (by omega)]
    rfl

theorem subscriptionListSize_eq {p : ClientPacket} {subscriptions : List Subscription} {extra : Nat}
    (hw : p.WellFormed ↔ subscriptions ≠ [] ∧ ∀ s ∈ subscriptions, s.topicFilter ≠ "")
    (hf : p.fieldLengths = subscriptions.map (·.topicFilter.utf8ByteSize))
    (hb : p.body.length =
      packetIdSize + (subscriptions.map fun s => 2 + s.topicFilter.utf8ByteSize + extra).sum) :
    subscriptionListSize extra subscriptions = p.sizeIfSendable := by
  simp only [subscriptionListSize, require_bind]
  by_cases hne : subscriptions ≠ []
  case neg =>
    rw [if_neg hne, sizeIfSendable_of_not_wellFormed fun h => hne (hw.1 h).1]
  rw [if_pos hne, foldlM_ofRemaining (addEntry_eq extra) (by decide)]
  refine (sizeIfSendable_eq ?_ hb).symm
  rw [hw, hf, List.forall_mem_map]
  constructor
  · exact fun h => ⟨⟨hne, fun s hs => (h s hs).1⟩, fun s hs => (h s hs).2⟩
  · exact fun h s hs => ⟨h.1.2 s hs, h.2 s hs⟩

theorem publishSize_eq (m : Message) (packetId : UInt16) :
    publishSize m = (publish m packetId).sizeIfSendable := by
  have invalid (h : ¬ (publish m packetId).WellFormed) := (sizeIfSendable_of_not_wellFormed h).symm
  simp only [publishSize, require_bind]
  by_cases ht : IsTopicName m.topic
  case neg => rw [if_neg ht]; exact invalid fun h => ht h.1
  by_cases hd : m.dup → m.qos.needsPacketId
  case neg => rw [if_pos ht, if_neg hd]; exact invalid fun h => hd h.2
  have hw : (publish m packetId).WellFormed := ⟨ht, hd⟩
  have hf : m.topic.utf8ByteSize ≤ Bytes.maxField ↔ (publish m packetId).WellFormed ∧
      ∀ n ∈ (publish m packetId).fieldLengths, n ≤ Bytes.maxField := by
    simp only [hw, fieldLengths, List.forall_mem_singleton, true_and]
  rw [if_pos ht, if_pos hd, sizeIfSendable_eq hf (length_body_publish m packetId), fieldSize]
  split
  · exact addLength_ofRemaining _ _
  · rfl

/-- **Sizes are exact**: a packet that may be sent has the size of its wire form, and any other
packet has none. -/
theorem size_eq (p : ClientPacket) : p.size = p.sizeIfSendable := by
  cases p with
  | connect o will => exact connectSize_eq o will
  | subscribe subscriptions packetId =>
    exact subscriptionListSize_eq Iff.rfl rfl
      (length_body_entries (fun s => [s.qos.level]) 1 (fun _ => rfl) subscriptions packetId)
  | unsubscribe subscriptions packetId =>
    refine subscriptionListSize_eq Iff.rfl rfl ?_
    have h := length_body_entries (fun _ => []) 0 (fun _ => rfl) subscriptions packetId
    simpa only [body, List.append_nil] using h
  | publish m packetId => exact publishSize_eq m packetId
  | ack | pingReq | disconnect =>
    rw [sizeIfSendable, if_pos ⟨trivial, by simp [fieldLengths], by simp [body, RemainingLength.max]⟩,
      length_wire]
    simp [size, ackSize, pingReqSize, disconnectSize, packetIdSize, body, RemainingLength.groups_of_lt]

theorem size_eq_ok_iff {p : ClientPacket} {size : PacketSize} :
    p.size = .ok size ↔ p.Sendable ∧ size = ⟨p.body.length, p.wire.length⟩ := by
  rw [size_eq, sizeIfSendable]
  by_cases hs : p.Sendable
  · rw [if_pos hs]
    simp only [Except.ok.injEq, hs, true_and, eq_comm]
  · rw [if_neg hs]
    simp only [reduceCtorEq, hs, false_and]

end ClientPacket

end MqttCodec
