/-
What each client packet looks like on the wire: a first byte, the remaining
length, and a body. Stated as one byte string per packet, apart from any
buffer, from the writers' table of first bytes and from how sizes are found.
-/
import MqttCodec.ClientPacket
import MqttCodec.RemainingLength

namespace MqttCodec

/-- The flags of a message, by weight. -/
def Message.flagSum (m : Message) : Nat :=
  8 * m.dup.toNat + 2 * m.qos.level.toNat + m.retain.toNat

/-- The flags of a will, by weight. -/
def Message.willFlagSum (w : Message) : Nat := 4 + 8 * w.qos.level.toNat + 32 * w.retain.toNat

/-- The connect flags, by weight. -/
def ConnectOptions.flagSum (o : ConnectOptions) (will : Option Message) : Nat :=
  2 * o.cleanSession.toNat + will.elim 0 Message.willFlagSum +
    128 * o.userName.isSome.toNat + 64 * o.password.isSome.toNat

namespace ClientPacket

/-- The first byte of a packet: the number of its kind in the upper half, and flags in the lower,
which only a message is free to choose. -/
def header : ClientPacket → UInt8
  | connect .. => 0x10
  | publish message _ => (0x30 + message.flagSum).toUInt8
  | ack .pubAck _ => 0x40
  | ack .pubRec _ => 0x50
  | ack .pubRel _ => 0x62
  | ack .pubComp _ => 0x70
  | subscribe .. => 0x82
  | unsubscribe .. => 0xA2
  | pingReq => 0xC0
  | disconnect => 0xE0

/-- A text as a field. -/
def textField (s : String) : Bytes := .field (.ofString s)

/-- What follows the fixed header of a packet. -/
def body : ClientPacket → Bytes
  | connect o will =>
    textField "MQTT" ++ [4, (o.flagSum will).toUInt8] ++ Bytes.ofUInt16 o.keepAliveSeconds ++
      textField o.clientId ++
      will.elim [] (fun w => textField w.topic ++ .field w.payload) ++
      o.userName.elim [] textField ++ o.password.elim [] textField
  | subscribe subscriptions packetId =>
    Bytes.ofUInt16 packetId ++ subscriptions.flatMap fun s => textField s.topicFilter ++ [s.qos.level]
  | unsubscribe subscriptions packetId =>
    Bytes.ofUInt16 packetId ++ subscriptions.flatMap fun s => textField s.topicFilter
  | publish m packetId =>
    textField m.topic ++ (if m.qos.needsPacketId then Bytes.ofUInt16 packetId else []) ++ m.payload
  | ack _ packetId => Bytes.ofUInt16 packetId
  | pingReq => []
  | disconnect => []

/-- A whole packet. -/
def wire (p : ClientPacket) : Bytes := p.header :: (RemainingLength.groups p.body.length ++ p.body)

end ClientPacket

end MqttCodec
