/-
The fourteen control packets of MQTT 3.1.1 and the byte each one begins
with. The upper half of that byte tells the kind. The lower half is fixed
for every kind but PUBLISH, where it holds the flags of the message.
-/

namespace MqttCodec

/-- A control packet's kind. -/
inductive PacketKind
  | connect
  | connAck
  | publish
  | pubAck
  | pubRec
  | pubRel
  | pubComp
  | subscribe
  | subAck
  | unsubscribe
  | unsubAck
  | pingReq
  | pingResp
  | disconnect
  deriving DecidableEq, Repr

namespace PacketKind

/-- The first byte of a packet of this kind, with the flags of a PUBLISH clear. -/
def headerByte : PacketKind → UInt8
  | connect => 0x10
  | connAck => 0x20
  | publish => 0x30
  | pubAck => 0x40
  | pubRec => 0x50
  | pubRel => 0x62
  | pubComp => 0x70
  | subscribe => 0x82
  | subAck => 0x90
  | unsubscribe => 0xA2
  | unsubAck => 0xB0
  | pingReq => 0xC0
  | pingResp => 0xD0
  | disconnect => 0xE0

/-- Every kind, by header byte. -/
def all : List PacketKind :=
  [connect, connAck, publish, pubAck, pubRec, pubRel, pubComp, subscribe, subAck, unsubscribe,
    unsubAck, pingReq, pingResp, disconnect]

/-- The kind a first byte announces. The flags of a PUBLISH are free; every other kind is
announced by one byte only. -/
def ofHeader? (b : UInt8) : Option PacketKind :=
  if b >>> 4 = 3 then some publish else all.find? (·.headerByte = b)

theorem ofHeader?_headerByte (k : PacketKind) : ofHeader? k.headerByte = some k := by
  cases k <;> decide

theorem ofHeader?_eq_publish_iff {b : UInt8} : ofHeader? b = some publish ↔ b >>> 4 = 3 := by
  unfold ofHeader?
  split
  · rename_i h
    exact ⟨fun _ => h, fun _ => rfl⟩
  · rename_i h
    refine ⟨fun hfind => ?_, fun hb => absurd hb h⟩
    have hbyte : publish.headerByte = b := by simpa using List.find?_some hfind
    rw [← hbyte]
    rfl

theorem headerByte_of_ofHeader? {b : UInt8} {k : PacketKind} (h : ofHeader? b = some k)
    (hk : k ≠ publish) : k.headerByte = b := by
  unfold ofHeader? at h
  split at h
  · cases h
    exact absurd rfl hk
  · simpa using List.find?_some h

end PacketKind

/-- The four packets that acknowledge a PUBLISH or another acknowledgement of it. -/
inductive AckKind
  | pubAck
  | pubRec
  | pubRel
  | pubComp
  deriving DecidableEq, Repr

namespace AckKind

/-- The packet kind of an acknowledgement. -/
def kind : AckKind → PacketKind
  | pubAck => .pubAck
  | pubRec => .pubRec
  | pubRel => .pubRel
  | pubComp => .pubComp

/-- The acknowledgement that packets of a kind are, if they are one. -/
def ofKind? : PacketKind → Option AckKind
  | .pubAck => some pubAck
  | .pubRec => some pubRec
  | .pubRel => some pubRel
  | .pubComp => some pubComp
  | _ => none

/-- The first byte of an acknowledgement. -/
def headerByte (a : AckKind) : UInt8 := a.kind.headerByte

theorem kind_ne_publish (a : AckKind) : a.kind ≠ .publish := by cases a <;> decide

theorem ofKind?_kind (a : AckKind) : ofKind? a.kind = some a := by cases a <;> rfl

theorem kind_of_ofKind? {k : PacketKind} {a : AckKind} (h : ofKind? k = some a) : a.kind = k := by
  cases k <;> simp_all [ofKind?] <;> cases h <;> rfl

end AckKind

end MqttCodec
