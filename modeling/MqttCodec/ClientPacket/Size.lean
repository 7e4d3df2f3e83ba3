/-
How long a client's packet is, and whether it may be sent at all. Sizes are
found from the lengths of the parts, without writing any of them, so a
caller can choose a buffer first. A packet has a size exactly if it keeps
the protocol's rules on its fields and its remaining length can be written.
-/
import MqttCodec.ClientPacket
import MqttCodec.RemainingLength

namespace MqttCodec

/-- The bytes after a packet's fixed header, and the bytes of the whole packet. -/
structure PacketSize where
  remaining : Nat
  total : Nat
  deriving DecidableEq, Repr

/-- The size of a packet with `n` bytes after its fixed header, which is a kind byte and the
written form of `n`. -/
def PacketSize.ofRemaining (n : Nat) : Except Error PacketSize :=
  (RemainingLength.encodedSize n).map fun lengthBytes => ⟨n, n + (1 + lengthBytes)⟩

/-- Lengths are counted in 64-bit words. -/
def wordLimit : Nat := UInt64.size

/-- Adds to a count of bytes; a sum that does not fit in a word is refused. -/
def addLength (count n : Nat) : Except Error Nat :=
  if count + n < wordLimit then .ok (count + n) else .error .invalidParameter

/-- The bytes a field of `n` bytes takes with its length before it. -/
def fieldSize (n : Nat) : Except Error Nat :=
  if n ≤ Bytes.maxField then .ok (2 + n) else .error .invalidParameter

/-- Adds a field of `n` bytes to a count of bytes. -/
def addField (count n : Nat) : Except Error Nat := do addLength count (← fieldSize n)

/-- A topic name is not empty and holds no wildcard. -/
def IsTopicName (topic : String) : Prop := topic ≠ "" ∧ '+' ∉ topic.toList ∧ '#' ∉ topic.toList

instance (topic : String) : Decidable (IsTopicName topic) :=
  inferInstanceAs (Decidable (_ ∧ _))

/-- The lengths of the fields in a CONNECT, in their order. -/
def ConnectOptions.fieldLengths (o : ConnectOptions) (will : Option Message) : List Nat :=
  o.clientId.utf8ByteSize ::
    (will.elim [] (fun w => [w.topic.utf8ByteSize, w.payload.length]) ++
      (o.userName.elim [] (fun s => [s.utf8ByteSize]) ++ o.password.elim [] (fun s => [s.utf8ByteSize])))

namespace ClientPacket

/-- The protocol's name, its level, the connect flags and the keep-alive interval. -/
def connectHeaderSize : Nat := 10

def packetIdSize : Nat := 2

/-- A client without a name must start afresh, a password needs a user name, and a will needs a
proper topic. -/
def connectSize (o : ConnectOptions) (will : Option Message) : Except Error PacketSize := do
  require (o.clientId = "" → o.cleanSession) .invalidParameter
  require (o.password.isSome → o.userName.isSome) .invalidParameter
  require (∀ w ∈ will, IsTopicName w.topic) .invalidParameter
  PacketSize.ofRemaining (← (o.fieldLengths will).foldlM addField connectHeaderSize)

/-- Adds an entry of a subscription list with `extra` bytes after its filter, which must not be
empty. -/
def addEntry (extra count : Nat) (s : Subscription) : Except Error Nat := do
  require (s.topicFilter ≠ "") .invalidParameter
  addLength count (← addLength (← fieldSize s.topicFilter.utf8ByteSize) extra)

/-- A packet identifier and a list of entries, of which there must be one. -/
def subscriptionListSize (extra : Nat) (subscriptions : List Subscription) : Except Error PacketSize := do
  require (subscriptions ≠ []) .invalidParameter
  PacketSize.ofRemaining (← subscriptions.foldlM (addEntry extra) packetIdSize)

/-- Each entry of a SUBSCRIBE ends in the guarantee that is asked for. -/
def subscribeSize (subscriptions : List Subscription) : Except Error PacketSize :=
  subscriptionListSize 1 subscriptions

def unsubscribeSize (subscriptions : List Subscription) : Except Error PacketSize :=
  subscriptionListSize 0 subscriptions

/-- A message needs a proper topic, and only one that is acknowledged can be a second attempt. -/
def publishSize (m : Message) : Except Error PacketSize := do
  require (IsTopicName m.topic) .invalidParameter
  require (m.dup → m.qos.needsPacketId) .invalidParameter
  let topicBytes ← fieldSize m.topic.utf8ByteSize
  let headerBytes := if m.qos.needsPacketId then topicBytes + packetIdSize else topicBytes
  PacketSize.ofRemaining (← addLength headerBytes m.payload.length)

/-- An acknowledgement holds a packet identifier. -/
def ackSize : PacketSize := ⟨packetIdSize, 4⟩

def pingReqSize : PacketSize := ⟨0, 2⟩

def disconnectSize : PacketSize := ⟨0, 2⟩

/-- The size of a packet that may be sent. -/
def size : ClientPacket → Except Error PacketSize
  | connect options will => connectSize options will
  | subscribe subscriptions _ => subscribeSize subscriptions
  | unsubscribe subscriptions _ => unsubscribeSize subscriptions
  | publish message _ => publishSize message
  | ack .. => .ok ackSize
  | pingReq => .ok pingReqSize
  | disconnect => .ok disconnectSize

end ClientPacket

end MqttCodec
