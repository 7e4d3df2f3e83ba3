/-
Where received bytes come from. A transport is asked to fill a buffer and
reports how many bytes it stored, or that it failed. It runs in a monad that
holds whatever the transport keeps between reads, so one description serves
transports that answer at once and transports that make the caller wait.
-/
import MqttCodec.Bytes

namespace MqttCodec

/-- What a read did: how many bytes it says it stored or why it failed, and the buffer
afterwards. The two need not agree. -/
structure ReadOutcome (ε : Type) where
  result : Except ε Nat
  buffer : Bytes

/-- A source of received bytes, read into a buffer. Storing no bytes means that none are there
now; failures are of type `ε`. -/
structure Transport (m : Type → Type) (ε : Type) where
  read : Bytes → m (ReadOutcome ε)

/-- A receive function: fills a buffer and returns the number of bytes stored, or a negative code. -/
abbrev RawReceive (m : Type → Type) := Bytes → m (Int × Bytes)

/-- The code a receive function failed with. -/
structure ReceiveError where
  code : Int
  deriving DecidableEq, Repr

/-- The wording of a failed receive. -/
def ReceiveError.message (e : ReceiveError) : String := s!"RecvError({e.code})"

/-- The meaning of a receive function's return value for a buffer of a given size. A function that
claims to have stored more than it was asked for is broken. -/
def ReceiveError.check (capacity : Nat) (returned : Int) : Except ReceiveError Nat :=
  if returned < 0 then .error ⟨returned⟩
  else if capacity < returned.toNat then .error ⟨-1⟩
  else .ok returned.toNat

namespace Transport

/-- The transport that a receive function makes. -/
def ofReceive {m : Type → Type} [Functor m] (receive : RawReceive m) : Transport m ReceiveError where
  read buffer :=
    (fun out => ⟨ReceiveError.check buffer.length out.1, out.2⟩) <$> receive buffer

/-- A transport lent to the owner of a larger state, of which it changes only its own part. -/
def within {σ ε : Type} (ρ : Type) (t : Transport (StateM σ) ε) : Transport (StateM (σ × ρ)) ε where
  read buffer := fun s =>
    let (out, own) := (t.read buffer).run s.1
    (out, (own, s.2))

end Transport

end MqttCodec
