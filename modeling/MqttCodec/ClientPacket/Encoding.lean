/-
Writing a client's packets into a caller's buffer. Each writer takes the
remaining length the caller found beforehand and checks it, the packet
identifier and the room in the buffer before it writes the first byte, so a
packet that cannot be written leaves the buffer as it was.
-/
import MqttCodec.ClientPacket.Size
import MqttCodec.OutputCursor

namespace MqttCodec.ClientPacket

open OutputCursor

/-- The caller must know the packet's remaining length and offer room for the bytes that will be
written. -/
def checkRoom (size : PacketSize) (remaining needed : Nat) : Put Unit := do
  require (remaining = size.remaining) .invalidParameter
  require (needed ≤ (← get).room.length) .bufferTooSmall

/-- No packet is identified by 0. -/
def checkPacketId (packetId : UInt16) : Put Unit := require (packetId ≠ 0) .invalidParameter

/-- The flags that say which parts of a CONNECT follow, and how. -/
def connectFlags (o : ConnectOptions) (will : Option Message) : UInt8 :=
  (if o.cleanSession then 0x02 else 0) |||
  (match will with
    | none => 0
    | some w => (0x04 : UInt8) ||| w.qos.level <<< 3 ||| (if w.retain then 0x20 else 0)) |||
  (if o.userName.isSome then 0x80 else 0) |||
  (if o.password.isSome then 0x40 else 0)

/-- The flags of a message, in the lower half of a PUBLISH's first byte. -/
def publishFlags (m : Message) : UInt8 :=
  m.qos.level <<< 1 ||| (if m.dup then 0x08 else 0) ||| (if m.retain then 0x01 else 0)

def writeConnect (o : ConnectOptions) (will : Option Message) (remaining : Nat) : Put Unit := do
  let size ← connectSize o will
  checkRoom size remaining size.total
  putFixedHeader PacketKind.connect.headerByte remaining
  putField (.ofString "MQTT")
  putByte 4
  putByte (connectFlags o will)
  putUInt16 o.keepAliveSeconds
  putField (.ofString o.clientId)
  forM will fun w => do
    putField (.ofString w.topic)
    putField w.payload
  forM o.userName fun userName => putField (.ofString userName)
  forM o.password fun password => putField (.ofString password)

/-- Writes the entries of a subscription list, each followed by what `tail` adds. -/
def putEntries (tail : Subscription → Put Unit) (subscriptions : List Subscription) : Put Unit :=
  forM subscriptions fun s => do
    putField (.ofString s.topicFilter)
    tail s

def writeSubscribe (subscriptions : List Subscription) (packetId : UInt16) (remaining : Nat) :
    Put Unit := do
  let size ← subscribeSize subscriptions
  checkPacketId packetId
  checkRoom size remaining size.total
  putFixedHeader PacketKind.subscribe.headerByte remaining
  putUInt16 packetId
  putEntries (fun s => putByte s.qos.level) subscriptions

def writeUnsubscribe (subscriptions : List Subscription) (packetId : UInt16) (remaining : Nat) :
    Put Unit := do
  let size ← unsubscribeSize subscriptions
  checkPacketId packetId
  checkRoom size remaining size.total
  putFixedHeader PacketKind.unsubscribe.headerByte remaining
  putUInt16 packetId
  putEntries (fun _ => pure ()) subscriptions

/-- The size of a message that can be sent under a packet identifier. The identifier matters only if
the message is acknowledged. -/
def checkPublish (m : Message) (packetId : UInt16) : Put PacketSize := do
  let size ← publishSize m
  if m.qos.needsPacketId then checkPacketId packetId
  return size

/-- Writes all of a PUBLISH that comes before the payload. -/
def putPublishHeader (m : Message) (packetId : UInt16) (remaining : Nat) : Put Unit := do
  putFixedHeader (PacketKind.publish.headerByte ||| publishFlags m) remaining
  putField (.ofString m.topic)
  if m.qos.needsPacketId then putUInt16 packetId

def writePublish (m : Message) (packetId : UInt16) (remaining : Nat) : Put Unit := do
  let size ← checkPublish m packetId
  checkRoom size remaining size.total
  putPublishHeader m packetId remaining
  put m.payload

/-- Writes a PUBLISH up to its payload, for a caller who sends the payload from where it is. -/
def writePublishHeader (m : Message) (packetId : UInt16) (remaining : Nat) : Put Unit := do
  let size ← checkPublish m packetId
  checkRoom size remaining (size.total - m.payload.length)
  putPublishHeader m packetId remaining

def writeAck (ackKind : AckKind) (packetId : UInt16) : Put Unit := do
  checkPacketId packetId
  checkRoom ackSize ackSize.remaining ackSize.total
  putFixedHeader ackKind.headerByte ackSize.remaining
  putUInt16 packetId

def writePingReq : Put Unit := do
  checkRoom pingReqSize 0 pingReqSize.total
  putByte PacketKind.pingReq.headerByte
  putByte 0

def writeDisconnect : Put Unit := do
  checkRoom disconnectSize 0 disconnectSize.total
  putFixedHeader PacketKind.disconnect.headerByte 0

/-- Writes a packet whose remaining length is known. -/
def write (p : ClientPacket) (remaining : Nat) : Put Unit :=
  match p with
  | connect options will => writeConnect options will remaining
  | subscribe subscriptions packetId => writeSubscribe subscriptions packetId remaining
  | unsubscribe subscriptions packetId => writeUnsubscribe subscriptions packetId remaining
  | publish message packetId => writePublish message packetId remaining
  | ack ackKind packetId => do
    require (remaining = ackSize.remaining) .invalidParameter
    writeAck ackKind packetId
  | pingReq => do
    require (remaining = pingReqSize.remaining) .invalidParameter
    writePingReq
  | disconnect => do
    require (remaining = disconnectSize.remaining) .invalidParameter
    writeDisconnect

/-- Writes a packet whose remaining length is known into a buffer: the bytes it took, and the
buffer afterwards. -/
def serialize (p : ClientPacket) (remaining : Nat) (buffer : Bytes) : Except Error Nat × Bytes :=
  fill (p.write remaining) buffer

/-- Finds a packet's size and writes it into a buffer. -/
def encode (p : ClientPacket) (buffer : Bytes) : Except Error Nat × Bytes :=
  match p.size with
  | .error e => (.error e, buffer)
  | .ok size => p.serialize size.remaining buffer

end MqttCodec.ClientPacket
