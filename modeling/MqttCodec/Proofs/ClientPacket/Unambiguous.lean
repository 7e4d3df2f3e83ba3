/-
Different packets look different, also in a stream. The first byte tells
the kind of a packet, the remaining length its end, the flags of a CONNECT
which of its parts are there, and every other part where it ends itself.

`transmitted` forgets what a packet holds that its wire form does not carry,
and nothing more: two packets have one wire form exactly if they agree on
all the rest.
-/
import MqttCodec.Proofs.Bytes
import MqttCodec.Proofs.ServerPacket.Decoding

namespace MqttCodec.ClientPacket

/-- A packet with all that its wire form does not carry set to one value. -/
def transmitted : ClientPacket → ClientPacket
  | connect o will => connect o (will.map fun w => { w with dup := false })
  | unsubscribe subscriptions packetId =>
    unsubscribe (subscriptions.map fun s => { s with qos := .atMostOnce }) packetId
  | publish m packetId => publish m (if m.qos.needsPacketId then packetId else 0)
  | p => p

/-- The bytes that encoding a packet puts into a buffer in which it has room. -/
def Encodes (p : ClientPacket) (bytes : Bytes) : Prop :=
  ∃ buffer n after, p.encode buffer = (.ok n, after) ∧ bytes = after.take n

theorem encodes_iff {p : ClientPacket} {bytes : Bytes} :
    Encodes p bytes ↔ p.Sendable ∧ p.Identified ∧ bytes = p.wire := by
  constructor
  · rintro ⟨buffer, n, after, he, rfl⟩
    obtain ⟨⟨hs, hid, -⟩, rfl, rfl⟩ := encode_eq_ok_iff.1 he
    exact ⟨hs, hid, List.take_left⟩
  · rintro ⟨hs, hid, rfl⟩
    -- the packet itself is as good a buffer as any
    refine ⟨p.wire, _, _, encode_eq_ok_iff.2 ⟨⟨hs, hid, Nat.le_refl _⟩, rfl, rfl⟩, ?_⟩
    exact List.take_left.symm

/-! ## What is not carried -/

theorem flagSum_transmitted (o : ConnectOptions) (will : Option Message) :
    o.flagSum (will.map fun w => { w with dup := false }) = o.flagSum will := by
  cases will <;> rfl

theorem wire_transmitted (p : ClientPacket) : p.transmitted.wire = p.wire := by
  have hb : p.transmitted.body = p.body := by
    cases p with
    | connect o will =>
      simp only [transmitted, body, flagSum_transmitted]
      cases will <;> rfl
    | unsubscribe subscriptions packetId => simp only [transmitted, body, List.flatMap_map]
    | publish m packetId =>
      simp only [transmitted, body]
      split <;> rfl
    | _ => rfl
  have hh : p.transmitted.header = p.header := by cases p <;> rfl
  rw [wire, wire, hb, hh]

/-! ## Flags -/

theorem level_le (q : QoS) : q.level.toNat ≤ 2 := by cases q <;> decide

theorem level_inj {q r : QoS} (h : q.level.toNat = r.level.toNat) : q = r := by
  cases q <;> cases r <;> first | rfl | exact absurd h (by decide)

theorem toNat_inj {a b : Bool} (h : a.toNat = b.toNat) : a = b := by
  cases a <;> cases b <;> first | rfl | cases h

theorem publish_header_inj {m m' : Message} {packetId packetId' : UInt16}
    (h : (publish m packetId).header = (publish m' packetId').header) :
    m.qos = m'.qos ∧ m.retain = m'.retain ∧ m.dup = m'.dup := by
  -- the flags can be read, so no two messages share them
  obtain ⟨hqos, hretain, hdup⟩ := Publication.flags_of_header m packetId
  obtain ⟨hqos', hretain', hdup'⟩ := Publication.flags_of_header m' packetId'
  rw [h] at hqos hretain hdup
  exact ⟨Except.ok.inj (hqos.symm.trans hqos'), Bool.eq_iff_iff.2 (hretain.symm.trans hretain'),
    Bool.eq_iff_iff.2 (hdup.symm.trans hdup')⟩

/-- The flags of a CONNECT tell which parts it has, and of a will all that is nowhere else. -/
theorem connect_flags_inj {o o' : ConnectOptions} {will will' : Option Message}
    (h : (o.flagSum will).toUInt8 = (o'.flagSum will').toUInt8) :
    o.cleanSession = o'.cleanSession ∧
      will.map (fun w => (w.qos, w.retain)) = will'.map (fun w => (w.qos, w.retain)) ∧
      o.userName.isSome = o'.userName.isSome ∧ o.password.isSome = o'.password.isSome := by
  have hsum := congrArg UInt8.toNat h
  have hc := Bool.toNat_le o.cleanSession
  have hc' := Bool.toNat_le o'.cleanSession
  have hu := Bool.toNat_le o.userName.isSome
  have hu' := Bool.toNat_le o'.userName.isSome
  have hp := Bool.toNat_le o.password.isSome
  have hp' := Bool.toNat_le o'.password.isSome
  have hlevel (w : Message) := level_le w.qos
  have hretain (w : Message) := Bool.toNat_le w.retain
  simp only [ConnectOptions.flagSum, Nat.toUInt8_eq, UInt8.toNat_ofNat'] at hsum
  cases will with
  | none =>
    cases will' with
    | none =>
      simp only [Option.elim] at hsum
      refine ⟨toNat_inj ?_, rfl, toNat_inj ?_, toNat_inj ?_⟩ <;> omega
    | some w' =>
      have hl' := hlevel w'
      have hr' := hretain w'
      simp only [Option.elim, Message.willFlagSum] at hsum
      omega
  | some w =>
    have hl := hlevel w
    have hr := hretain w
    cases will' with
    | none =>
      simp only [Option.elim, Message.willFlagSum] at hsum
      omega
    | some w' =>
      have hl' := hlevel w'
      have hr' := hretain w'
      simp only [Option.elim, Message.willFlagSum] at hsum
      have hqos : w.qos = w'.qos := level_inj (by omega)
      have hkept : w.retain = w'.retain := toNat_inj (by omega)
      refine ⟨toNat_inj ?_, ?_, toNat_inj ?_, toNat_inj ?_⟩
      case refine_2 => simp only [Option.map_some, hqos, hkept]
      all_goals omega

/-! ## Bodies -/

theorem textField_append_inj {s t : String} (hs : s.utf8ByteSize ≤ Bytes.maxField)
    (ht : t.utf8ByteSize ≤ Bytes.maxField) {x y : Bytes}
    (h : textField s ++ x = textField t ++ y) : s = t ∧ x = y := by
  rw [← Bytes.length_ofString] at hs ht
  obtain ⟨hst, hxy⟩ := Bytes.field_append_inj hs ht h
  exact ⟨Bytes.ofString_inj hst, hxy⟩

theorem connect_body_inj {o o' : ConnectOptions} {will will' : Option Message}
    (hp : (connect o will).Sendable) (hq : (connect o' will').Sendable)
    (h : (connect o will).body = (connect o' will').body) :
    (connect o will).transmitted = (connect o' will').transmitted := by
  obtain ⟨hid, hwill, huser, hpassword⟩ := forall_mem_connect_fieldLengths.1 hp.2.1
  obtain ⟨hid', hwill', huser', hpassword'⟩ := forall_mem_connect_fieldLengths.1 hq.2.1
  simp only [body, List.append_assoc, List.cons_append, List.nil_append, List.append_cancel_left_eq,
    List.cons.injEq, true_and] at h
  obtain ⟨hflags, h⟩ := h
  obtain ⟨hclean, hmode, husers, hpasswords⟩ := connect_flags_inj hflags
  have hwills : will.isSome = will'.isSome := by simpa using congrArg Option.isSome hmode
  obtain ⟨hkeep, h⟩ := Bytes.ofUInt16_append_inj h
  obtain ⟨hclient, h⟩ := textField_append_inj hid hid' h
  obtain ⟨hmessage, h⟩ := Bytes.elim_append_inj (fun w : Message => (w.topic, w.payload)) hwills
    (fun w hw w' hw' x y h => by
      rw [List.append_assoc, List.append_assoc] at h
      obtain ⟨ht, h⟩ := textField_append_inj (hwill w hw).1 (hwill' w' hw').1 h
      obtain ⟨hm, h⟩ := Bytes.field_append_inj (hwill w hw).2 (hwill' w' hw').2 h
      exact ⟨Prod.ext ht hm, h⟩) h
  obtain ⟨hname, h⟩ := Bytes.elim_append_inj id husers
    (fun s hs t ht _ _ => textField_append_inj (huser s hs) (huser' t ht)) h
  have h : o.password.elim [] textField ++ [] = o'.password.elim [] textField ++ [] := by
    rw [h]
  obtain ⟨hsecret, -⟩ := Bytes.elim_append_inj id hpasswords
    (fun s hs t ht _ _ => textField_append_inj (hpassword s hs) (hpassword' t ht)) h
  have hw : will.map (fun w => { w with dup := false }) = will'.map fun w => { w with dup := false } := by
    cases will <;> cases will' <;> simp_all
  rw [Option.map_id, id, id] at hname hsecret
  rw [transmitted, transmitted, hw]
  congr 1
  cases o
  cases o'
  simp_all

theorem textField_ne_nil (s : String) : textField s ≠ [] := by
  intro h
  have hlength := length_textField s
  rw [h, List.length_nil] at hlength
  omega

theorem subscribe_body_inj {subscriptions subscriptions' : List Subscription} {packetId packetId' : UInt16}
    (hp : (subscribe subscriptions packetId).Sendable) (hq : (subscribe subscriptions' packetId').Sendable)
    (h : (subscribe subscriptions packetId).body = (subscribe subscriptions' packetId').body) :
    (subscribe subscriptions packetId).transmitted = (subscribe subscriptions' packetId').transmitted := by
  have hle := List.forall_mem_map.1 hp.2.1
  have hle' := List.forall_mem_map.1 hq.2.1
  obtain ⟨hid, hlist⟩ := Bytes.ofUInt16_append_inj h
  have hentries := Bytes.map_eq_of_flatMap_eq id
    (fun s hnil => textField_ne_nil s.topicFilter (List.append_eq_nil_iff.1 hnil).1)
    (fun s hs t ht x y h => by
      rw [List.append_assoc, List.append_assoc] at h
      obtain ⟨hfilter, h⟩ := textField_append_inj (hle s hs) (hle' t ht) h
      obtain ⟨hlevel, h⟩ := List.cons.inj h
      have hqos : s.qos = t.qos := level_inj (congrArg UInt8.toNat hlevel)
      refine ⟨?_, h⟩
      cases s
      cases t
      simp_all) hlist
  rw [List.map_id, List.map_id] at hentries
  rw [hentries, hid]

theorem unsubscribe_body_inj {subscriptions subscriptions' : List Subscription} {packetId packetId' : UInt16}
    (hp : (unsubscribe subscriptions packetId).Sendable)
    (hq : (unsubscribe subscriptions' packetId').Sendable)
    (h : (unsubscribe subscriptions packetId).body = (unsubscribe subscriptions' packetId').body) :
    (unsubscribe subscriptions packetId).transmitted =
      (unsubscribe subscriptions' packetId').transmitted := by
  have hle := List.forall_mem_map.1 hp.2.1
  have hle' := List.forall_mem_map.1 hq.2.1
  obtain ⟨hid, hlist⟩ := Bytes.ofUInt16_append_inj h
  have hentries := Bytes.map_eq_of_flatMap_eq (fun s : Subscription => { s with qos := .atMostOnce })
    (fun s => textField_ne_nil s.topicFilter)
    (fun s hs t ht x y h => by
      obtain ⟨hfilter, h⟩ := textField_append_inj (hle s hs) (hle' t ht) h
      exact ⟨congrArg (Subscription.mk _) hfilter, h⟩) hlist
  rw [transmitted, transmitted, hentries, hid]

theorem publish_inj {m m' : Message} {packetId packetId' : UInt16}
    (hp : (publish m packetId).Sendable) (hq : (publish m' packetId').Sendable)
    (hh : (publish m packetId).header = (publish m' packetId').header)
    (h : (publish m packetId).body = (publish m' packetId').body) :
    (publish m packetId).transmitted = (publish m' packetId').transmitted := by
  have hle := List.forall_mem_singleton.1 hp.2.1
  have hle' := List.forall_mem_singleton.1 hq.2.1
  obtain ⟨hqos, hretain, hdup⟩ := publish_header_inj hh
  simp only [body, List.append_assoc] at h
  obtain ⟨htopic, h⟩ := textField_append_inj hle hle' h
  have hpayload : m.payload = m'.payload ∧ (m.qos.needsPacketId → packetId = packetId') := by
    rw [← hqos] at h
    by_cases hid : m.qos.needsPacketId
    · rw [if_pos hid, if_pos hid] at h
      obtain ⟨heq, h⟩ := Bytes.ofUInt16_append_inj h
      exact ⟨h, fun _ => heq⟩
    · rw [if_neg hid, if_neg hid] at h
      exact ⟨h, fun hid' => absurd hid' hid⟩
  obtain rfl : m = m' := by
    cases m
    cases m'
    simp_all
  rw [transmitted, transmitted]
  congr 1
  split
  · exact hpayload.2 ‹_›
  · rfl

/-! ## Packets -/

/-- What the first byte and the body of a packet tell. -/
theorem transmitted_eq {p q : ClientPacket} (hp : p.Sendable) (hq : q.Sendable)
    (hh : p.header = q.header) (hb : p.body = q.body) : p.transmitted = q.transmitted := by
  have hk : p.kind = q.kind := by
    have h := ofHeader?_header p
    rw [hh, ofHeader?_header] at h
    exact (Option.some.inj h).symm
  cases p with
  | connect o will =>
    cases q with
    | connect o' will' => exact connect_body_inj hp hq hb
    | ack ackKind _ => cases ackKind <;> cases hk
    | _ => cases hk
  | subscribe subscriptions packetId =>
    cases q with
    | subscribe subscriptions' packetId' => exact subscribe_body_inj hp hq hb
    | ack ackKind _ => cases ackKind <;> cases hk
    | _ => cases hk
  | unsubscribe subscriptions packetId =>
    cases q with
    | unsubscribe subscriptions' packetId' => exact unsubscribe_body_inj hp hq hb
    | ack ackKind _ => cases ackKind <;> cases hk
    | _ => cases hk
  | publish m packetId =>
    cases q with
    | publish m' packetId' => exact publish_inj hp hq hh hb
    | ack ackKind _ => cases ackKind <;> cases hk
    | _ => cases hk
  | ack ackKind packetId =>
    cases q with
    | ack ackKind' packetId' =>
      have hkind : ackKind = ackKind' := by
        have h := AckKind.ofKind?_kind ackKind
        rw [show ackKind.kind = ackKind'.kind from hk, AckKind.ofKind?_kind] at h
        exact (Option.some.inj h).symm
      have hid : Bytes.ofUInt16 packetId ++ [] = Bytes.ofUInt16 packetId' ++ [] :=
        congrArg (· ++ []) hb
      rw [hkind, (Bytes.ofUInt16_append_inj hid).1]
    | _ => cases ackKind <;> cases hk
  | pingReq =>
    cases q with
    | pingReq => rfl
    | ack ackKind _ => cases ackKind <;> cases hk
    | _ => cases hk
  | disconnect =>
    cases q with
    | disconnect => rfl
    | ack ackKind _ => cases ackKind <;> cases hk
    | _ => cases hk

theorem wire_append_inj {p q : ClientPacket} (hp : p.Sendable) (hq : q.Sendable) {x y : Bytes}
    (h : p.wire ++ x = q.wire ++ y) : p.transmitted = q.transmitted ∧ x = y := by
  simp only [wire, List.cons_append, List.append_assoc] at h
  obtain ⟨hh, h⟩ := List.cons.inj h
  obtain ⟨hlength, h⟩ := RemainingLength.groups_append_inj hp.2.2 hq.2.2 h
  obtain ⟨hb, hxy⟩ := List.append_inj h hlength
  exact ⟨transmitted_eq hp hq hh hb, hxy⟩

theorem wire_prefix_iff {p q : ClientPacket} (hp : p.Sendable) (hq : q.Sendable) :
    p.wire <+: q.wire ↔ p.transmitted = q.transmitted := by
  constructor
  · rintro ⟨rest, h⟩
    rw [← List.append_nil q.wire] at h
    exact (wire_append_inj hp hq h).1
  · intro h
    have hwire : p.wire = q.wire := by rw [← wire_transmitted p, h, wire_transmitted q]
    exact hwire ▸ List.prefix_refl p.wire

theorem flatMap_wire_eq_iff {ps qs : List ClientPacket} (hps : ∀ p ∈ ps, p.Sendable)
    (hqs : ∀ q ∈ qs, q.Sendable) :
    ps.flatMap wire = qs.flatMap wire ↔ ps.map transmitted = qs.map transmitted := by
  constructor
  · exact Bytes.map_eq_of_flatMap_eq transmitted (fun p => List.cons_ne_nil _ _)
      fun p hp q hq _ _ => wire_append_inj (hps p hp) (hqs q hq)
  · intro h
    have hwire (l : List ClientPacket) : l.flatMap wire = (l.map transmitted).flatMap wire := by
      simp only [List.flatMap_map, wire_transmitted]
    rw [hwire ps, hwire qs, h]

theorem forall₂_encodes {ps : List ClientPacket} {pieces : List Bytes}
    (h : List.Forall₂ Encodes ps pieces) :
    (∀ p ∈ ps, p.Sendable) ∧ pieces.flatten = ps.flatMap wire := by
  induction h with
  | nil => exact ⟨fun p hp => absurd hp List.not_mem_nil, rfl⟩
  | cons he _ ih =>
    obtain ⟨hs, -, rfl⟩ := encodes_iff.1 he
    refine ⟨List.forall_mem_cons.2 ⟨hs, ih.1⟩, ?_⟩
    rw [List.flatten_cons, List.flatMap_cons, ih.2]

/-- **Encoded packets can be told apart**: the bytes of one begin with those of another only if
both carry the same, and then they are the same bytes; and what follows one another in a stream
of packets can be read in one way only. -/
theorem encodes_unambiguous :
    (∀ p q xs ys, Encodes p xs → Encodes q ys → (xs <+: ys ↔ p.transmitted = q.transmitted)) ∧
    ∀ ps qs xss yss, List.Forall₂ Encodes ps xss → List.Forall₂ Encodes qs yss →
      (xss.flatten = yss.flatten ↔ ps.map transmitted = qs.map transmitted) := by
  constructor
  · intro p q xs ys hx hy
    obtain ⟨hp, -, rfl⟩ := encodes_iff.1 hx
    obtain ⟨hq, -, rfl⟩ := encodes_iff.1 hy
    exact wire_prefix_iff hp hq
  · intro ps qs xss yss hx hy
    obtain ⟨hps, hxs⟩ := forall₂_encodes hx
    obtain ⟨hqs, hys⟩ := forall₂_encodes hy
    rw [hxs, hys]
    exact flatMap_wire_eq_iff hps hqs

/-- A message that is sent at most once, under two identifiers. -/
theorem encodes_unambiguous_publish :
    let m : Message := { topic := "t", payload := [1] }
    let ping : Bytes := [0xC0, 0]
    let bytes : Bytes := [0x30, 4, 0, 1, 116, 1]
    (Encodes (publish m 7) bytes ∧ Encodes (publish m 9) bytes ∧ Encodes pingReq ping) ∧
      (publish m 7).transmitted = (publish m 9).transmitted ∧
      [pingReq, publish m 7].map transmitted = [pingReq, publish m 9].map transmitted := by
  intro m ping bytes
  have hbody (packetId : UInt16) : (publish m packetId).body = [0, 1, 116, 1] := by
    rw [body, if_neg (by decide)]
    decide
  have hwire (packetId : UInt16) : bytes = (publish m packetId).wire := by
    rw [wire, hbody, RemainingLength.groups_of_lt (by decide)]
    rfl
  have hpublish (packetId : UInt16) : Encodes (publish m packetId) bytes := by
    have hwell : (publish m packetId).WellFormed :=
      show IsTopicName m.topic ∧ (m.dup → m.qos.needsPacketId) by decide
    have hfield : ∀ n ∈ (publish m packetId).fieldLengths, n ≤ Bytes.maxField :=
      List.forall_mem_singleton.2 (by decide)
    have hlength : (publish m packetId).body.length ≤ RemainingLength.max := by
      rw [hbody]
      decide
    exact encodes_iff.2 ⟨⟨hwell, hfield, hlength⟩, fun hq => absurd hq (by decide), hwire packetId⟩
  have hping : Encodes pingReq ping := by
    refine encodes_iff.2 ⟨by decide, trivial, ?_⟩
    rw [wire_of_body_eq_nil rfl, RemainingLength.groups_of_lt (by decide)]
    rfl
  have h := encodes_unambiguous
  have hstream (packetId : UInt16) :
      List.Forall₂ Encodes [pingReq, publish m packetId] [ping, bytes] :=
    .cons hping (.cons (hpublish packetId) .nil)
  exact ⟨⟨hpublish 7, hpublish 9, hping⟩, (h.1 _ _ _ _ (hpublish 7) (hpublish 9)).1 (List.prefix_refl _),
    (h.2 _ _ _ _ (hstream 7) (hstream 9)).1 rfl⟩

end MqttCodec.ClientPacket
