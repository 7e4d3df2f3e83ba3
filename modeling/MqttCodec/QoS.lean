/-
The delivery guarantee of a message, and its number on the wire.
-/
import MqttCodec.Error

namespace MqttCodec

/-- How often a message may reach its receiver. -/
inductive QoS
  | atMostOnce
  | atLeastOnce
  | exactlyOnce
  deriving DecidableEq, Repr, Inhabited

/-- The number that stands for a guarantee in packets and settings. -/
def QoS.level : QoS → UInt8
  | .atMostOnce => 0
  | .atLeastOnce => 1
  | .exactlyOnce => 2

/-- The guarantee a number stands for. There are three; every other number is refused. -/
def QoS.ofLevel (n : UInt8) : Except Error QoS :=
  if n = 0 then .ok .atMostOnce
  else if n = 1 then .ok .atLeastOnce
  else if n = 2 then .ok .exactlyOnce
  else .error .invalidParameter

/-- Only messages that are delivered at least once carry a packet identifier. -/
def QoS.needsPacketId (q : QoS) : Bool := q ≠ .atMostOnce

theorem QoS.ofLevel_level (q : QoS) : ofLevel q.level = .ok q := by cases q <;> rfl

theorem QoS.level_of_ofLevel {n : UInt8} {q : QoS} (h : ofLevel n = .ok q) : q.level = n := by
  unfold ofLevel at h
  split at h
  · cases h; simp_all [level]
  split at h
  · cases h; simp_all [level]
  split at h
  · cases h; simp_all [level]
  · cases h

end MqttCodec
