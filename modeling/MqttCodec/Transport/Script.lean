/-
Transports that do what a script says, read by read. Every behaviour a
transport can show to a reader of single bytes is some script's.
-/
import MqttCodec.Transport

namespace MqttCodec

/-- One read of a script: the value it returns, and the byte it stores at the front of the buffer,
if it stores one. -/
structure ScriptedRead where
  returned : Int
  stored : Option UInt8 := none
  deriving DecidableEq, Repr

namespace ScriptedRead

/-- A read that stores one byte and says so. -/
def ofByte (b : UInt8) : ScriptedRead := ⟨1, some b⟩

/-- The buffer after a read. -/
def fill (r : ScriptedRead) (buffer : Bytes) : Bytes :=
  match r.stored, buffer with
  | some b, _ :: rest => b :: rest
  | _, buffer => buffer

end ScriptedRead

/-- The reads still to be made, and the number that were made. -/
structure Script where
  reads : List ScriptedRead
  made : Nat := 0
  deriving DecidableEq, Repr

namespace Script

/-- Makes the next read. After the last one nothing is stored any more. -/
def receive : RawReceive (StateM Script) := fun buffer s =>
  match s.reads with
  | [] => ((0, buffer), { s with made := s.made + 1 })
  | r :: rest => ((r.returned, r.fill buffer), { reads := rest, made := s.made + 1 })

/-- The transport that takes every return value at its word: a negative one is a failure, any other
a number of bytes. -/
def transport : Transport (StateM Script) ReceiveError where
  read buffer :=
    (fun out => ⟨if out.1 < 0 then .error ⟨out.1⟩ else .ok out.1.toNat, out.2⟩) <$> receive buffer

end Script

end MqttCodec
