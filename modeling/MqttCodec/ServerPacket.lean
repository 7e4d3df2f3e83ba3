/-
What a client may learn from a packet it receives: an application message,
an acknowledgement, or a refusal of something it asked for. How they are
read from frames is in `MqttCodec.ServerPacket.Decoding`.
-/
import MqttCodec.ClientPacket

namespace MqttCodec

/-- What a server answers to a CONNECT. -/
inductive ConnectReturnCode
  | accepted
  | unacceptableProtocolVersion
  | identifierRejected
  | serverUnavailable
  | badUserNameOrPassword
  | notAuthorized
  deriving DecidableEq, Repr

namespace ConnectReturnCode

/-- The byte of a return code. -/
def toByte : ConnectReturnCode → UInt8
  | accepted => 0
  | unacceptableProtocolVersion => 1
  | identifierRejected => 2
  | serverUnavailable => 3
  | badUserNameOrPassword => 4
  | notAuthorized => 5

/-- Every return code, by byte. -/
def all : List ConnectReturnCode :=
  [accepted, unacceptableProtocolVersion, identifierRejected, serverUnavailable,
    badUserNameOrPassword, notAuthorized]

/-- The return code of a byte. Bytes above 5 are reserved. -/
def ofByte? (b : UInt8) : Option ConnectReturnCode := all.find? (·.toByte = b)

theorem ofByte?_toByte (c : ConnectReturnCode) : ofByte? c.toByte = some c := by cases c <;> decide

theorem toByte_of_ofByte? {b : UInt8} {c : ConnectReturnCode} (h : ofByte? b = some c) :
    c.toByte = b := by
  simpa using List.find?_some h

end ConnectReturnCode

/-- A message as it is received, with the identifier to acknowledge it by if it needs one. -/
structure Publication where
  packetId : Option UInt16
  message : Message
  deriving DecidableEq, Repr

/-- A packet by which a server confirms what a client sent. -/
inductive Acknowledgement
  | connAck (sessionPresent : Bool)
  /-- Every subscription was granted, with the guarantee in its return code. -/
  | subAck (packetId : UInt16) (returnCodes : Bytes)
  | unsubAck (packetId : UInt16)
  | publishAck (ackKind : AckKind) (packetId : UInt16)
  | pingResp
  deriving DecidableEq, Repr

/-- The packet identifier, where there is one. -/
def Acknowledgement.packetId? : Acknowledgement → Option UInt16
  | connAck _ | pingResp => none
  | subAck packetId _ | unsubAck packetId | publishAck _ packetId => some packetId

/-- A packet by which a server turns down what a client asked for. -/
inductive Refusal
  | connect (returnCode : ConnectReturnCode)
  /-- Some subscription was not granted. Its return code is 0x80. -/
  | subscribe (packetId : UInt16) (returnCodes : Bytes)
  deriving DecidableEq, Repr

/-- The packet identifier, where there is one. -/
def Refusal.packetId? : Refusal → Option UInt16
  | connect _ => none
  | subscribe packetId _ => some packetId

/-- A packet that a client receives and that grants what it asked for, if it asked. -/
inductive ServerPacket
  | publication (p : Publication)
  | acknowledgement (a : Acknowledgement)
  deriving DecidableEq, Repr

end MqttCodec
