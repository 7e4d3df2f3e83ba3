/-
What encoding writes. Every writer makes its checks first and then, one by
one, puts the parts of the packet's wire form, so a packet is written whole
or not at all (`run_write`). `encode_eq` says the same of a buffer, which
then holds the packet's wire form and behind it what it held before.
-/
import MqttCodec.ClientPacket.Encoding
import MqttCodec.Proofs.ClientPacket.Size
import MqttCodec.Proofs.OutputCursor

namespace MqttCodec.ClientPacket

open OutputCursor

/-! ## Headers and flags -/

theorem connectFlags_eq (o : ConnectOptions) (will : Option Message) :
    connectFlags o will = (o.flagSum will).toUInt8 := by
  unfold connectFlags ConnectOptions.flagSum
  generalize o.cleanSession = clean, o.userName.isSome = named, o.password.isSome = secret
  cases will with
  | none =>
    revert clean named secret
    decide
  | some w =>
    simp only [Option.elim, Message.willFlagSum]
    generalize w.qos = qos, w.retain = retain
    revert clean named secret retain
    cases qos <;> decide

/-- The writers have the right first byte for every kind that has no flags. -/
theorem header_eq_headerByte {p : ClientPacket} (h : p.kind ≠ .publish) :
    p.header = p.kind.headerByte := by
  cases p with
  | publish => exact absurd rfl h
  | ack ackKind => cases ackKind <;> rfl
  | connect | subscribe | unsubscribe | pingReq | disconnect => rfl

theorem header_ack (ackKind : AckKind) (packetId : UInt16) :
    (ack ackKind packetId).header = ackKind.headerByte :=
  header_eq_headerByte ackKind.kind_ne_publish

theorem headerByte_or_publishFlags (m : Message) (packetId : UInt16) :
    PacketKind.publish.headerByte ||| publishFlags m = (publish m packetId).header := by
  simp only [publishFlags, header, Message.flagSum]
  generalize m.qos = qos, m.retain = retain, m.dup = dup
  revert retain dup
  cases qos <;> decide

theorem ofHeader?_header (p : ClientPacket) : PacketKind.ofHeader? p.header = some p.kind := by
  cases p with
  | publish m packetId =>
    simp only [header, Message.flagSum, kind]
    generalize m.qos = qos, m.retain = retain, m.dup = dup
    revert retain dup
    cases qos <;> decide
  | ack ackKind packetId =>
    rw [header_ack]
    exact PacketKind.ofHeader?_headerByte ackKind.kind
  | connect | subscribe | unsubscribe | pingReq | disconnect =>
    rw [header_eq_headerByte]
    · exact PacketKind.ofHeader?_headerByte _
    · exact nofun

/-! ## Checks -/

/-- The packets that carry an identifier need one that is not 0. -/
def Identified : ClientPacket → Prop
  | subscribe _ packetId | unsubscribe _ packetId | ack _ packetId => packetId ≠ 0
  | publish m packetId => m.qos.needsPacketId → packetId ≠ 0
  | connect .. | pingReq | disconnect => True

instance (p : ClientPacket) : Decidable p.Identified :=
  match p with
  | subscribe .. | unsubscribe .. | ack .. => inferInstanceAs (Decidable (_ ≠ _))
  | publish .. => inferInstanceAs (Decidable (_ → _))
  | connect .. | pingReq | disconnect => inferInstanceAs (Decidable True)

/-- What becomes of a packet at a cursor: a wrong parameter is found before a lack of room, and
only a packet with neither is written. -/
def outcome (p : ClientPacket) (remaining : Nat) (c : OutputCursor) : Except Error Unit × OutputCursor :=
  if p.Sendable ∧ p.Identified ∧ remaining = p.body.length then
    if p.wire.length ≤ c.room.length then
      (.ok (), ⟨c.written ++ p.wire, c.room.drop p.wire.length⟩)
    else (.error .bufferTooSmall, c)
  else (.error .invalidParameter, c)

theorem run_checkRoom (size : PacketSize) (remaining needed : Nat) (c : OutputCursor) :
    (checkRoom size remaining needed).run c =
      if remaining = size.remaining then
        if needed ≤ c.room.length then (.ok (), c) else (.error .bufferTooSmall, c)
      else (.error .invalidParameter, c) := by
  rw [checkRoom, run_bind, run_liftM]
  by_cases hr : remaining = size.remaining
  case neg => rw [require_of_not hr, if_neg hr]
  rw [require_of hr, if_pos hr]
  change (liftM (require (needed ≤ c.room.length) Error.bufferTooSmall) : Put Unit).run c = _
  rw [run_liftM, require]
  split <;> rfl

section Checks

variable {p : ClientPacket} {remaining : Nat} {c : OutputCursor}

theorem run_size_bind {size : Except Error PacketSize} (hsize : size = p.sizeIfSendable)
    {next : PacketSize → Put Unit}
    (hnext : p.Sendable → (next ⟨p.body.length, p.wire.length⟩).run c = p.outcome remaining c) :
    ((liftM size : Put PacketSize) >>= next).run c = p.outcome remaining c := by
  rw [run_bind, run_liftM, hsize, sizeIfSendable]
  by_cases hs : p.Sendable
  · rw [if_pos hs]
    exact hnext hs
  · rw [if_neg hs, outcome, if_neg fun h => hs h.1]

theorem run_checkPacketId_bind {packetId : UInt16} (hid : p.Identified → packetId ≠ 0)
    {next : Unit → Put Unit} (hnext : packetId ≠ 0 → (next ()).run c = p.outcome remaining c) :
    (checkPacketId packetId >>= next).run c = p.outcome remaining c := by
  rw [run_bind, checkPacketId, run_liftM]
  by_cases h : packetId ≠ 0
  · rw [require_of h]
    exact hnext h
  · rw [require_of_not h, outcome, if_neg fun hp => h (hid hp.2.1)]

/-- The last check of a writer, and what it writes then. -/
theorem run_checkRoom_bind (hs : p.Sendable) (hid : p.Identified) {next : Unit → Put Unit}
    (hnext : remaining = p.body.length → Writes (next ()) () p.wire) :
    (checkRoom ⟨p.body.length, p.wire.length⟩ remaining p.wire.length >>= next).run c =
      p.outcome remaining c := by
  rw [run_bind, run_checkRoom, outcome]
  by_cases hr : remaining = p.body.length
  case neg => rw [if_neg hr, if_neg fun h => hr h.2.2]
  rw [if_pos hr, if_pos (show p.Sendable ∧ p.Identified ∧ _ from ⟨hs, hid, hr⟩)]
  by_cases hroom : p.wire.length ≤ c.room.length
  · rw [if_pos hroom, if_pos hroom]
    exact hnext hr c hroom
  · rw [if_neg hroom, if_neg hroom]

end Checks

/-! ## The writers -/

theorem writes_textField {s : String} (h : s.utf8ByteSize ≤ Bytes.maxField) :
    Writes (putField (.ofString s)) () (textField s) :=
  writes_putField (by rwa [Bytes.length_ofString])

theorem run_writeConnect (o : ConnectOptions) (will : Option Message) (remaining : Nat)
    (c : OutputCursor) :
    (writeConnect o will remaining).run c = (connect o will).outcome remaining c := by
  refine run_size_bind (connectSize_eq o will) fun hs => run_checkRoom_bind hs trivial fun hr => ?_
  obtain ⟨hid, hwill, huser, hpassword⟩ := forall_mem_connect_fieldLengths.1 hs.2.1
  have hheader : (connect o will).header = PacketKind.connect.headerByte := rfl
  have hname : Writes (putField (.ofString "MQTT")) () (textField "MQTT") :=
    writes_textField (by decide)
  have h := (writes_putFixedHeader PacketKind.connect.headerByte (hr ▸ hs.2.2)).andThen <|
    hname.andThen <|
    (writes_putByte 4).andThen <|
    (writes_putByte (connectFlags o will)).andThen <|
    (writes_putUInt16 o.keepAliveSeconds).andThen <|
    (writes_textField hid).andThen <|
    (Writes.forM_option will fun w hw =>
      (writes_textField (hwill w hw).1).andThen (writes_putField (hwill w hw).2)).andThen <|
    (Writes.forM_option o.userName fun s hm => writes_textField (huser s hm)).andThen <|
    Writes.forM_option o.password fun s hm => writes_textField (hpassword s hm)
  subst hr
  simpa only [wire, hheader, body, connectFlags_eq, List.append_assoc, List.cons_append,
    List.nil_append] using h

/-- The writers of subscription lists put the same parts, of which only the entries' ends differ. -/
theorem writes_subscriptionList {p : ClientPacket} {subscriptions : List Subscription}
    {packetId : UInt16} {tail : Subscription → Put Unit} {tailBytes : Subscription → Bytes}
    (htail : ∀ s, Writes (tail s) () (tailBytes s)) (hs : p.Sendable)
    (hf : p.fieldLengths = subscriptions.map (·.topicFilter.utf8ByteSize))
    (hb : p.body =
      Bytes.ofUInt16 packetId ++ subscriptions.flatMap fun s => textField s.topicFilter ++ tailBytes s) :
    Writes (do
      putFixedHeader p.header p.body.length
      putUInt16 packetId
      putEntries tail subscriptions) () p.wire := by
  have hentry : ∀ s ∈ subscriptions, Writes (do putField (.ofString s.topicFilter); tail s) ()
      (textField s.topicFilter ++ tailBytes s) := by
    intro s hmem
    have hfield : s.topicFilter.utf8ByteSize ∈ p.fieldLengths := hf ▸ List.mem_map_of_mem hmem
    exact (writes_textField (hs.2.1 _ hfield)).andThen (htail s)
  have h := (writes_putFixedHeader p.header hs.2.2).andThen <|
    (writes_putUInt16 packetId).andThen (Writes.forM_list subscriptions hentry)
  rw [← hb] at h
  exact h

theorem run_writeSubscribe (subscriptions : List Subscription) (packetId : UInt16) (remaining : Nat)
    (c : OutputCursor) :
    (writeSubscribe subscriptions packetId remaining).run c =
      (subscribe subscriptions packetId).outcome remaining c := by
  refine run_size_bind (size_eq (subscribe subscriptions packetId)) fun hs =>
    run_checkPacketId_bind id fun hid => run_checkRoom_bind hs hid fun hr => ?_
  subst hr
  exact writes_subscriptionList (fun s => writes_putByte s.qos.level) hs rfl rfl

theorem run_writeUnsubscribe (subscriptions : List Subscription) (packetId : UInt16) (remaining : Nat)
    (c : OutputCursor) :
    (writeUnsubscribe subscriptions packetId remaining).run c =
      (unsubscribe subscriptions packetId).outcome remaining c := by
  refine run_size_bind (size_eq (unsubscribe subscriptions packetId)) fun hs =>
    run_checkPacketId_bind id fun hid => run_checkRoom_bind hs hid fun hr => ?_
  subst hr
  exact writes_subscriptionList (fun _ => Writes.pure ()) hs rfl (by simp [body])

/-- All of a PUBLISH that comes before the payload. -/
def publishHead (m : Message) (packetId : UInt16) : Bytes :=
  (publish m packetId).header :: RemainingLength.groups (publish m packetId).body.length ++
    (textField m.topic ++ if m.qos.needsPacketId then Bytes.ofUInt16 packetId else [])

theorem wire_publish (m : Message) (packetId : UInt16) :
    (publish m packetId).wire = publishHead m packetId ++ m.payload := by
  simp only [wire, publishHead, body, List.append_assoc, List.cons_append]

theorem writes_putPublishHeader {m : Message} {packetId : UInt16} (hs : (publish m packetId).Sendable) :
    Writes (putPublishHeader m packetId (publish m packetId).body.length) ()
      (publishHead m packetId) := by
  have htopic : m.topic.utf8ByteSize ∈ (publish m packetId).fieldLengths := List.mem_singleton_self _
  rw [putPublishHeader, headerByte_or_publishFlags m packetId]
  exact (writes_putFixedHeader _ hs.2.2).andThen <|
    (writes_textField (hs.2.1 _ htopic)).andThen <|
    Writes.ite fun _ => writes_putUInt16 packetId

theorem run_checkPublish (m : Message) (packetId : UInt16) (c : OutputCursor) :
    (checkPublish m packetId).run c =
      if (publish m packetId).Sendable ∧ (publish m packetId).Identified then
        (.ok ⟨(publish m packetId).body.length, (publish m packetId).wire.length⟩, c)
      else (.error .invalidParameter, c) := by
  rw [checkPublish, run_bind, run_liftM, publishSize_eq m packetId, sizeIfSendable]
  by_cases hs : (publish m packetId).Sendable
  case neg => rw [if_neg hs, if_neg fun h => hs h.1]
  simp only [hs, if_true, true_and, Identified]
  by_cases hq : m.qos.needsPacketId
  · simp only [hq, if_true, forall_const]
    rw [run_bind, checkPacketId, run_liftM, require]
    by_cases hid : packetId = 0
    · simp only [hid, ne_eq, not_true, if_false]
    · simp only [hid, ne_eq, not_false_eq_true, if_true]
      rfl
  · simp only [hq, if_false, false_implies, if_true, Bool.false_eq_true]
    rfl

theorem run_writePublish (m : Message) (packetId : UInt16) (remaining : Nat) (c : OutputCursor) :
    (writePublish m packetId remaining).run c = (publish m packetId).outcome remaining c := by
  rw [writePublish, run_bind, run_checkPublish]
  by_cases h : (publish m packetId).Sendable ∧ (publish m packetId).Identified
  · rw [if_pos h]
    refine run_checkRoom_bind h.1 h.2 fun hr => ?_
    subst hr
    rw [wire_publish]
    exact (writes_putPublishHeader h.1).andThen (writes_put m.payload)
  · rw [if_neg h, outcome, if_neg fun ho => h ⟨ho.1, ho.2.1⟩]

theorem wire_of_body_eq_nil {p : ClientPacket} (h : p.body = []) :
    p.wire = p.header :: RemainingLength.groups 0 := by
  simp [wire, h]

/-- Packets of one size only: their writers take the remaining length for granted. -/
theorem run_fixed {p : ClientPacket} {remaining : Nat} {c : OutputCursor} {size : PacketSize}
    (hsize : p.size = .ok size) {step : Put Unit}
    (hstep : p.Sendable → remaining = p.body.length → ⟨p.body.length, p.wire.length⟩ = size →
      step.run c = p.outcome remaining c) :
    (do require (remaining = size.remaining) .invalidParameter; step : Put Unit).run c =
      p.outcome remaining c := by
  obtain ⟨hs, rfl⟩ := size_eq_ok_iff.1 hsize
  rw [run_bind, run_liftM]
  by_cases hr : remaining = p.body.length
  · rw [require_of hr]
    exact hstep hs hr rfl
  · rw [require_of_not hr, outcome, if_neg fun h => hr h.2.2]

/-- **Writing is all or nothing**, and exactly this. -/
theorem run_write (p : ClientPacket) (remaining : Nat) (c : OutputCursor) :
    (p.write remaining).run c = p.outcome remaining c := by
  cases p with
  | connect o will => exact run_writeConnect o will remaining c
  | subscribe subscriptions packetId => exact run_writeSubscribe subscriptions packetId remaining c
  | unsubscribe subscriptions packetId =>
    exact run_writeUnsubscribe subscriptions packetId remaining c
  | publish m packetId => exact run_writePublish m packetId remaining c
  | ack ackKind packetId =>
    refine run_fixed rfl fun hs hr hsize => ?_
    subst hr
    rw [writeAck, ← hsize, ← header_ack ackKind packetId]
    exact run_checkPacketId_bind id fun hid => run_checkRoom_bind hs hid fun _ =>
      (writes_putFixedHeader _ hs.2.2).andThen (writes_putUInt16 packetId)
  | pingReq =>
    refine run_fixed rfl fun hs hr hsize => ?_
    subst hr
    rw [writePingReq, ← hsize]
    refine run_checkRoom_bind hs trivial fun _ => ?_
    rw [wire_of_body_eq_nil rfl, RemainingLength.groups_of_lt (by decide)]
    exact (writes_putByte PacketKind.pingReq.headerByte).andThen (writes_putByte 0)
  | disconnect =>
    refine run_fixed rfl fun hs hr hsize => ?_
    subst hr
    rw [writeDisconnect, ← hsize]
    refine run_checkRoom_bind hs trivial fun _ => ?_
    rw [wire_of_body_eq_nil rfl]
    exact writes_putFixedHeader _ (Nat.zero_le _)

/-! ## Buffers -/

/-- What becomes of a buffer, in the same cases. -/
theorem serialize_eq (p : ClientPacket) (remaining : Nat) (buffer : Bytes) :
    p.serialize remaining buffer =
      if p.Sendable ∧ p.Identified ∧ remaining = p.body.length then
        if p.wire.length ≤ buffer.length then
          (.ok p.wire.length, p.wire ++ buffer.drop p.wire.length)
        else (.error .bufferTooSmall, buffer)
      else (.error .invalidParameter, buffer) := by
  simp only [serialize, fill, run_write, outcome, start]
  by_cases h : p.Sendable ∧ p.Identified ∧ remaining = p.body.length
  · rw [if_pos h, if_pos h]
    split <;> simp [OutputCursor.buffer, Except.map]
  · rw [if_neg h, if_neg h]
    simp [OutputCursor.buffer, Except.map]

theorem encode_eq (p : ClientPacket) (buffer : Bytes) :
    p.encode buffer =
      if p.Sendable ∧ p.Identified then
        if p.wire.length ≤ buffer.length then
          (.ok p.wire.length, p.wire ++ buffer.drop p.wire.length)
        else (.error .bufferTooSmall, buffer)
      else (.error .invalidParameter, buffer) := by
  rw [encode, size_eq, sizeIfSendable]
  by_cases hs : p.Sendable
  · rw [if_pos hs]
    simp only [serialize_eq, hs, and_true, true_and]
  · rw [if_neg hs, if_neg fun h => hs h.1]

theorem encode_eq_ok_iff {p : ClientPacket} {buffer after : Bytes} {n : Nat} :
    p.encode buffer = (.ok n, after) ↔
      (p.Sendable ∧ p.Identified ∧ p.wire.length ≤ buffer.length) ∧
        n = p.wire.length ∧ after = p.wire ++ buffer.drop p.wire.length := by
  rw [encode_eq]
  by_cases h : p.Sendable ∧ p.Identified
  · rw [if_pos h]
    by_cases hroom : p.wire.length ≤ buffer.length
    · rw [if_pos hroom]
      constructor
      · rintro ⟨⟩
        exact ⟨⟨h.1, h.2, hroom⟩, rfl, rfl⟩
      · rintro ⟨-, rfl, rfl⟩
        rfl
    · rw [if_neg hroom]
      constructor
      · rintro ⟨⟩
      · exact fun hk => absurd hk.1.2.2 hroom
  · rw [if_neg h]
    constructor
    · rintro ⟨⟩
    · exact fun hk => absurd ⟨hk.1.1, hk.1.2.1⟩ h

/-- **The wire format of every packet**: a packet that is encoded into a buffer leaves its first
byte, its written remaining length and its body at the front, as many bytes as its size says, and
all that comes after them as it was. -/
theorem encode_wireFormat {p : ClientPacket} {buffer after : Bytes} {n : Nat}
    (h : p.encode buffer = (.ok n, after)) :
    ∃ size lengthBytes, p.size = .ok size ∧
      RemainingLength.encode size.remaining = .ok lengthBytes ∧
      size.remaining = p.body.length ∧ size.total = n ∧ n ≤ buffer.length ∧
      after.take n = p.header :: (lengthBytes ++ p.body) ∧
      after.drop n = buffer.drop n ∧ after.length = buffer.length := by
  obtain ⟨⟨hs, -, hroom⟩, rfl, rfl⟩ := encode_eq_ok_iff.1 h
  refine ⟨_, _, size_eq_ok_iff.2 ⟨hs, rfl⟩, RemainingLength.encode_of_le hs.2.2, rfl, rfl, hroom,
    ?_, ?_, ?_⟩
  · exact List.take_left
  · rw [List.drop_left]
  · rw [List.length_append, List.length_drop]
    omega

/-- A will and credentials, in a buffer that is larger than the packet. -/
theorem encode_wireFormat_connect :
    let p := connect
      { cleanSession := true, keepAliveSeconds := 60, clientId := "dev", userName := some "u",
        password := some "p" }
      (some { qos := .exactlyOnce, retain := true, topic := "w/t", payload := [1, 2] })
    let buffer : Bytes := List.replicate 40 0xAA
    let after : Bytes :=
      [0x10, 30, 0, 4, 77, 81, 84, 84, 4, 0xF6, 0, 60, 0, 3, 100, 101, 118, 0, 3, 119, 47, 116,
        0, 2, 1, 2, 0, 1, 117, 0, 1, 112] ++ List.replicate 8 0xAA
    p.encode buffer = (.ok 32, after) ∧
      ∃ size lengthBytes, p.size = .ok size ∧
        RemainingLength.encode size.remaining = .ok lengthBytes ∧
        size.remaining = p.body.length ∧ size.total = 32 ∧ 32 ≤ buffer.length ∧
        after.take 32 = p.header :: (lengthBytes ++ p.body) ∧
        after.drop 32 = buffer.drop 32 ∧ after.length = buffer.length := by
  intro p buffer after
  have hwire : p.wire = after.take 32 := by
    rw [wire, RemainingLength.groups_of_lt (by decide)]
    decide
  have h : p.encode buffer = (.ok 32, after) := by
    refine encode_eq_ok_iff.2 ⟨⟨by decide, by decide, ?_⟩, ?_, ?_⟩
    all_goals
      rw [hwire]
      decide
  exact ⟨h, encode_wireFormat h⟩

end MqttCodec.ClientPacket
