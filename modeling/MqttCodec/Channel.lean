/-
A byte queue between a sender and a receiver of packets. Packets are sent
whole or not at all. The receiver takes a fixed header first, then as much of
the body as it wants, and then looks at what it has; `receive` does the first
two steps in one, and `receivePacket` all three.
-/
import MqttCodec.ClientPacket.Encoding
import MqttCodec.ServerPacket.Decoding

namespace MqttCodec

/-- The queue, and what its receiver has taken of the packet it is at. -/
structure Channel where
  queue : Bytes := []
  /-- Fixed headers cannot be read from a closed channel. -/
  closed : Bool := false
  framed : Option Frame := none
  body : Bytes := []
  deriving DecidableEq, Repr

/-- Reading from a closed channel fails. -/
inductive ChannelClosed
  | closed

namespace Channel

/-- A read takes one byte from the queue if there is one. -/
def transport : Transport (StateM Channel) ChannelClosed where
  read buffer := fun c =>
    if c.closed then (⟨.error .closed, buffer⟩, c)
    else
      match c.queue, buffer with
      | b :: queue, _ :: rest => (⟨.ok 1, b :: rest⟩, { c with queue })
      | _, buffer => (⟨.ok 0, buffer⟩, c)

/-- Appends bytes to the queue, whatever they are. -/
def push (c : Channel) (data : Bytes) : Channel := { c with queue := c.queue ++ data }

/-- Appends a packet to the queue by way of a buffer: the bytes that were sent. -/
def send (c : Channel) (p : ClientPacket) (buffer : Bytes) : Except Error Bytes × Channel :=
  match p.encode buffer with
  | (.ok n, buffer) => (.ok (buffer.take n), c.push (buffer.take n))
  | (.error e, _) => (.error e, c)

/-- Takes the fixed header of the next packet. The bytes of a header that fails are gone. -/
def takeHeader (c : Channel) : Except Error Frame × Channel :=
  let (result, c) := (Frame.receive transport).run { c with framed := none, body := [] }
  (result, { c with framed := result.toOption })

/-- Takes up to `most` of the bytes that the packet's body still lacks, or as many as there are. -/
def takeBody (c : Channel) (most : Option Nat) : Channel :=
  match c.framed with
  | none => c
  | some f =>
    let missing := f.length - c.body.length
    let n := most.elim missing (min missing)
    { c with queue := c.queue.drop n, body := c.body ++ c.queue.take n }

/-- The packet that is being received, with the part of its body that was taken. -/
def frame? (c : Channel) : Option Frame := c.framed.map fun f => { f with data := c.body }

/-- Takes the next packet, with all of its body that is there. -/
def receive (c : Channel) : Except Error Frame × Channel :=
  match c.takeHeader with
  | (.error e, c) => (.error e, c)
  | (.ok f, c) =>
    let c := c.takeBody none
    (.ok { f with data := c.body }, c)

/-- Takes the next packet and tells what it says. -/
def receivePacket (c : Channel) : Except Error ServerPacket × Channel :=
  let (frame, c) := c.receive
  (frame >>= ServerPacket.ofFrame, c)

end Channel

end MqttCodec
