/-
The packets a client sends. Any value of these types can be built; whether
it may be sent is decided when its size is computed
(`MqttCodec.ClientPacket.Size`).
-/
import MqttCodec.Bytes
import MqttCodec.PacketKind
import MqttCodec.QoS

namespace MqttCodec

/-- How a client introduces itself to a server. -/
structure ConnectOptions where
  cleanSession : Bool := false
  /-- The longest silence the server tolerates; 0 means any. -/
  keepAliveSeconds : UInt16 := 0
  clientId : String := ""
  userName : Option String := none
  password : Option String := none
  deriving DecidableEq, Repr

/-- An application message: what a PUBLISH carries, and what a server sends on a client's behalf
as its will. -/
structure Message where
  qos : QoS := .atMostOnce
  retain : Bool := false
  /-- Whether an earlier attempt to deliver the message may have got through. -/
  dup : Bool := false
  topic : String := ""
  payload : Bytes := []
  deriving DecidableEq, Repr

/-- A topic filter, and the best guarantee wanted for the messages it selects. -/
structure Subscription where
  qos : QoS := .atMostOnce
  topicFilter : String
  deriving DecidableEq, Repr

/-- A packet that a client sends. -/
inductive ClientPacket
  | connect (options : ConnectOptions) (will : Option Message)
  | subscribe (subscriptions : List Subscription) (packetId : UInt16)
  | unsubscribe (subscriptions : List Subscription) (packetId : UInt16)
  | publish (message : Message) (packetId : UInt16)
  | ack (ackKind : AckKind) (packetId : UInt16)
  | pingReq
  | disconnect
  deriving DecidableEq, Repr

/-- The kind of a packet. -/
def ClientPacket.kind : ClientPacket → PacketKind
  | connect .. => .connect
  | subscribe .. => .subscribe
  | unsubscribe .. => .unsubscribe
  | publish .. => .publish
  | ack ackKind _ => ackKind.kind
  | pingReq => .pingReq
  | disconnect => .disconnect

end MqttCodec
