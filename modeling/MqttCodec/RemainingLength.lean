/-
Remaining lengths: the number of bytes after a packet's fixed header,
written in one to four bytes. Each byte holds seven bits, lowest first, and
its top bit says that another byte follows.

`encode` writes a length. `Decoder` reads one byte by byte, as bytes come in,
and `decode` reads one from the front of a byte string. A length has one
written form only, so a longer form of the same number is refused.
-/
import MqttCodec.Error

namespace MqttCodec.RemainingLength

/-- The most bytes a written length takes. -/
def maxBytes : Nat := 4

/-- The largest length that four bytes can hold. -/
def max : Nat := 268435455

/-- The number of bytes a length is written in. -/
def encodedSize (n : Nat) : Except Error Nat :=
  if n ≤ 127 then .ok 1
  else if n ≤ 16383 then .ok 2
  else if n ≤ 2097151 then .ok 3
  else if n ≤ max then .ok 4
  else .error .invalidParameter

/-- The seven-bit groups of a number, lowest first, each but the last marked as continued. -/
def groups (n : Nat) : List UInt8 :=
  if n < 128 then [n.toUInt8] else (128 + n % 128).toUInt8 :: groups (n / 128)

/-- The written form of a length. -/
def encode (n : Nat) : Except Error (List UInt8) :=
  if n ≤ max then .ok (groups n) else .error .invalidParameter

/-- A length that is being read: the sum of the groups so far, the weight of the next group and
the number of bytes seen. -/
structure Decoder where
  value : Nat := 0
  multiplier : Nat := 1
  count : Nat := 0
  deriving DecidableEq, Repr

namespace Decoder

/-- A decoder that has seen nothing. -/
instance : Inhabited Decoder := ⟨{}⟩

/-- The decoder after one more byte, whatever that byte says about the length. -/
def advance (d : Decoder) (b : UInt8) : Decoder where
  value := d.value + b.toNat % 128 * d.multiplier
  multiplier := d.multiplier * 128
  count := d.count + 1

/-- Takes the next byte: `some n` when it ends the length `n`, `none` when more must follow. A
fifth byte is refused without a trace. Any other byte counts even if it is refused, and
the decoder goes on from there. -/
def push (d : Decoder) (b : UInt8) : Except Error (Option Nat) × Decoder :=
  if maxBytes ≤ d.count then (.error .malformedPacket, d)
  else
    let d := d.advance b
    if 128 ≤ b then (if d.count = maxBytes then .error .malformedPacket else .ok none, d)
    else
      match encodedSize d.value with
      | .error e => (.error e, d)
      | .ok size => (if size = d.count then .ok (some d.value) else .error .malformedPacket, d)

/-- A decoder that asks for more has counted the byte it was given and has room for another. -/
theorem count_of_push_none {d d' : Decoder} {b : UInt8} (h : d.push b = (.ok none, d')) :
    d'.count = d.count + 1 ∧ d.count < maxBytes := by
  unfold push at h
  split at h
  · cases h
  rename_i hc
  dsimp only at h
  split at h
  · split at h
    · cases h
    · cases h; exact ⟨rfl, by omega⟩
  · split at h
    · cases h
    · split at h <;> cases h

/-- Reads on from a decoder until a length ends: the length, and how many bytes the decoder has
seen by then. -/
def run (d : Decoder) : List UInt8 → Except Error (Nat × Nat)
  | [] => .error .malformedPacket
  | b :: bs =>
    match d.push b with
    | (.error e, _) => .error e
    | (.ok (some n), d) => .ok (n, d.count)
    | (.ok none, d) => d.run bs

end Decoder

/-- Reads a length from the front of a byte string: the length, and how many bytes it took. -/
def decode (bytes : List UInt8) : Except Error (Nat × Nat) :=
  ({} : Decoder).run (bytes.take maxBytes)

end MqttCodec.RemainingLength
