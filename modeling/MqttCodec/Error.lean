/-
Why an operation on packets or settings is refused. One type serves the
whole library, so that a caller can handle every refusal in one place;
`message` is the wording shown to people.
-/

namespace MqttCodec

/-- The causes for which an operation is refused. -/
inductive Error
  /-- An argument, or a text that was to be loaded, breaks a rule. -/
  | invalidParameter
  /-- The output buffer is smaller than the packet. -/
  | bufferTooSmall
  | sendFailed
  | receiveFailed
  /-- The bytes that came in are no packet. -/
  | malformedPacket
  /-- The peer understood the request and turned it down. -/
  | serverRefused
  /-- Nothing has arrived yet. -/
  | noDataAvailable
  | illegalState
  | stateCollision
  | keepAliveTimeout
  deriving DecidableEq, Repr

/-- The wording of a refusal. -/
def Error.message : Error → String
  | .invalidParameter => "invalid parameter"
  | .bufferTooSmall => "buffer too small"
  | .sendFailed => "transport send failed"
  | .receiveFailed => "transport receive failed"
  | .malformedPacket => "malformed packet received"
  | .serverRefused => "server refused the request"
  | .noDataAvailable => "no data available"
  | .illegalState => "illegal session state"
  | .stateCollision => "session state collision"
  | .keepAliveTimeout => "keep-alive timeout"

/-- Whether the same call may succeed later with nothing else changed. -/
def Error.isTransient (e : Error) : Bool := e = .noDataAvailable

/-- Goes on only if a condition holds. -/
def require (c : Prop) [Decidable c] (e : Error) : Except Error Unit :=
  if c then .ok () else .error e

theorem require_of {c : Prop} [Decidable c] {e : Error} (h : c) : require c e = .ok () := if_pos h

theorem require_of_not {c : Prop} [Decidable c] {e : Error} (h : ¬ c) : require c e = .error e :=
  if_neg h

end MqttCodec
