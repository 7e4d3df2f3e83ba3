/-
Settings as text. Every member is written, in a fixed order, whether or not
it has its default value.
-/
import MqttCodec.Json.Writer
import MqttCodec.Settings

namespace MqttCodec

open Json

def QoS.toText (q : QoS) : Text := writeNat q.level.toNat

def ConnectOptions.toText (o : ConnectOptions) : Text :=
  writeObject
    [("clean_session", writeBool o.cleanSession), ("keep_alive_seconds", writeNat o.keepAliveSeconds.toNat),
      ("client_identifier", writeString o.clientId), ("user_name", writeNullable writeString o.userName),
      ("password", writeNullable writeString o.password)]

def Will.toText (w : Will) : Text :=
  writeObject
    [("topic", writeString w.topic), ("message", writeString w.message), ("qos", w.qos.toText),
      ("retain", writeBool w.retain)]

def Subscription.toText (s : Subscription) : Text :=
  writeObject [("qos", s.qos.toText), ("topic_filter", writeString s.topicFilter)]

namespace Settings

def toText (s : Settings) : Text :=
  writeObject
    [("connect", s.connect.toText), ("will", writeNullable Will.toText s.will),
      ("subscriptions", writeList (s.subscriptions.map Subscription.toText))]

/-- Why settings could not be saved. -/
inductive SaveError
  /-- The text is longer than there is room for. -/
  | bufferFull
  deriving DecidableEq, Repr

/-- Settings as text of at most `capacity` bytes. -/
def save (s : Settings) (capacity : Nat) : Except SaveError String :=
  let text := String.ofList s.toText
  if text.utf8ByteSize ≤ capacity then .ok text else .error .bufferFull

end Settings

end MqttCodec
