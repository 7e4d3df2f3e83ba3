/-
The settings of one client: how it connects, its will and what it subscribes
to. Any text may stand in them; whether the packets made from them can be
sent shows when their sizes are computed.
-/
import MqttCodec.ClientPacket

namespace MqttCodec

/-- The message a server publishes when it loses the client. -/
structure Will where
  topic : String
  message : String := ""
  qos : QoS := .atMostOnce
  retain : Bool := false
  deriving DecidableEq, Repr

/-- The message of a will, as a CONNECT carries it. -/
def Will.toMessage (w : Will) : Message where
  qos := w.qos
  retain := w.retain
  topic := w.topic
  payload := .ofString w.message

/-- The most subscriptions that settings can hold. -/
def maxSubscriptions : Nat := 8

/-- The settings of one client. -/
structure Settings where
  connect : ConnectOptions
  will : Option Will := none
  subscriptions : List Subscription := []
  length_subscriptions : subscriptions.length ≤ maxSubscriptions := by decide
  deriving DecidableEq, Repr

namespace Settings

/-- The CONNECT of these settings. -/
def connectPacket (s : Settings) : ClientPacket := .connect s.connect (s.will.map Will.toMessage)

/-- The SUBSCRIBE of these settings, if there is anything to subscribe to. -/
def subscribePacket? (s : Settings) (packetId : UInt16) : Option ClientPacket :=
  if s.subscriptions = [] then none else some (.subscribe s.subscriptions packetId)

end Settings

end MqttCodec
