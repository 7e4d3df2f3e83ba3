/-
Reading a frame's bytes. A frame of the wrong kind or with too little data
is the caller's mistake; data that breaks the protocol is the server's. For
acknowledgements the length rule of the kind comes before the question
whether the data is there.
-/
import MqttCodec.Frame
import MqttCodec.ServerPacket

namespace MqttCodec

/-- Reads a packet identifier, which is never 0. -/
def Bytes.takePacketId (data : Bytes) : Except Error (UInt16 × Bytes) := do
  let (packetId, rest) ← takeUInt16 data
  require (packetId ≠ 0) .malformedPacket
  return (packetId, rest)

namespace Publication

/-- The guarantee in the flags of a PUBLISH. The fourth value the two bits can take is reserved. -/
def qosOfFlags (header : UInt8) : Except Error QoS :=
  (QoS.ofLevel ((header &&& 0x06) >>> 1)).mapError fun _ => .malformedPacket

/-- The fewest bytes a PUBLISH can have after its fixed header: a topic of one byte with its length,
and the packet identifier of a message that needs one. -/
def minLength (qos : QoS) : Nat := if qos.needsPacketId then 5 else 3

/-- Reads a topic, which is text and not empty. -/
def takeTopic (data : Bytes) : Except Error (String × Bytes) := do
  let (length, data) ← Bytes.takeUInt16 data
  let (topic, rest) ← Bytes.takeExactly length.toNat data
  require (topic ≠ []) .malformedPacket
  match Bytes.toText? topic with
  | some text => return (text, rest)
  | none => throw .malformedPacket

/-- Reads the packet identifier of a message that needs one. -/
def takePacketIdFor (qos : QoS) (data : Bytes) : Except Error (Option UInt16 × Bytes) :=
  if qos.needsPacketId then (Bytes.takePacketId data).map fun (packetId, rest) => (some packetId, rest)
  else .ok (none, data)

/-- The message in a PUBLISH. -/
def ofFrame (f : Frame) : Except Error Publication := do
  require (f.kind? = some .publish) .invalidParameter
  let data ← f.contents
  let qos ← qosOfFlags f.header
  require (minLength qos ≤ data.length) .malformedPacket
  let (topic, data) ← takeTopic data
  let (packetId, payload) ← takePacketIdFor qos data
  return {
    packetId
    message := {
      qos, topic, payload
      retain := f.header &&& 0x01 ≠ 0
      dup := f.header &&& 0x08 ≠ 0 } }

end Publication

/-- What a packet that answers a client says: yes or no. -/
inductive Verdict
  | accepted (a : Acknowledgement)
  | refused (r : Refusal)
  deriving DecidableEq, Repr

namespace Verdict

/-- The verdict of a CONNACK. A refused connection has no session. -/
def ofConnAck (f : Frame) : Except Error Verdict := do
  require (f.length = 2) .malformedPacket
  match ← f.contents with
  | [flags, code] =>
    require (flags &&& 0xFE = 0) .malformedPacket
    let sessionPresent := flags &&& 0x01 ≠ 0
    match ConnectReturnCode.ofByte? code with
    | some .accepted => return .accepted (.connAck sessionPresent)
    | some returnCode =>
      require (!sessionPresent) .malformedPacket
      return .refused (.connect returnCode)
    | none => throw .malformedPacket
  | _ => throw .malformedPacket

/-- The return code of a subscription that was not granted. -/
def subscriptionFailure : UInt8 := 0x80

/-- The verdict of a SUBACK. Its return codes are guarantees or failures, one for each filter asked
for, and one failure makes the whole a refusal. -/
def ofSubAck (f : Frame) : Except Error Verdict := do
  require (3 ≤ f.length) .malformedPacket
  let (packetId, returnCodes) ← Bytes.takePacketId (← f.contents)
  require (returnCodes.all fun code => code ≤ 2 ∨ code = subscriptionFailure) .malformedPacket
  if subscriptionFailure ∈ returnCodes then return .refused (.subscribe packetId returnCodes)
  else return .accepted (.subAck packetId returnCodes)

/-- The packet identifier that is all there is in a frame. -/
def packetIdOfFrame (f : Frame) : Except Error UInt16 := do
  require (f.length = 2) .malformedPacket
  let (packetId, _) ← Bytes.takePacketId (← f.contents)
  return packetId

/-- The verdict in a frame that answers a client. -/
def ofFrame (f : Frame) : Except Error Verdict :=
  match f.kind? with
  | some .connAck => ofConnAck f
  | some .subAck => ofSubAck f
  | some .unsubAck => (packetIdOfFrame f).map fun packetId => .accepted (.unsubAck packetId)
  | some .pingResp => (require (f.length = 0) .malformedPacket).map fun _ => .accepted .pingResp
  | some kind =>
    match AckKind.ofKind? kind with
    | some ackKind => (packetIdOfFrame f).map fun packetId => .accepted (.publishAck ackKind packetId)
    | none => .error .invalidParameter
  | none => .error .invalidParameter

end Verdict

/-- The acknowledgement in a frame. What was refused is left to `Refusal.ofFrame`. -/
def Acknowledgement.ofFrame (f : Frame) : Except Error Acknowledgement := do
  match ← Verdict.ofFrame f with
  | .accepted a => return a
  | .refused _ => throw .serverRefused

/-- The refusal in a frame. -/
def Refusal.ofFrame (f : Frame) : Except Error Refusal := do
  match ← Verdict.ofFrame f with
  | .accepted _ => throw .invalidParameter
  | .refused r => return r

/-- The packet in a frame. -/
def ServerPacket.ofFrame (f : Frame) : Except Error ServerPacket :=
  match f.kind? with
  | some .publish => (Publication.ofFrame f).map .publication
  | some _ => (Acknowledgement.ofFrame f).map .acknowledgement
  | none => .error .invalidParameter

end MqttCodec
