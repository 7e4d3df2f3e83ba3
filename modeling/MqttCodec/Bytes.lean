/-
Byte strings and the two ways data stands in them: 16-bit numbers with the
high byte first, and fields, which are byte strings after their length.
Each written form has its reader beside it; a reader that runs out of bytes
takes the packet for malformed.
-/
import MqttCodec.Error

namespace MqttCodec

/-- A byte string. -/
abbrev Bytes := List UInt8

namespace Bytes

/-- The most bytes a field can hold, since its length is a 16-bit number. -/
def maxField : Nat := 65535

/-- A 16-bit number, high byte first. -/
def ofUInt16 (n : UInt16) : Bytes := [(n.toNat / 256).toUInt8, (n.toNat % 256).toUInt8]

/-- The UTF-8 form of a text. -/
def ofString (s : String) : Bytes := s.toUTF8.data.toList

/-- A byte string after its length. The length is right up to `maxField` bytes. -/
def field (data : Bytes) : Bytes := ofUInt16 data.length.toUInt16 ++ data

/-- Reads a 16-bit number. -/
def takeUInt16 : Bytes → Except Error (UInt16 × Bytes)
  | hi :: lo :: rest => .ok ((256 * hi.toNat + lo.toNat).toUInt16, rest)
  | _ => .error .malformedPacket

/-- Reads exactly `n` bytes. -/
def takeExactly (n : Nat) (data : Bytes) : Except Error (Bytes × Bytes) :=
  if n ≤ data.length then .ok (data.take n, data.drop n) else .error .malformedPacket

/-- The text of a UTF-8 byte string. -/
def toText? (data : Bytes) : Option String := String.fromUTF8? ⟨data.toArray⟩

@[simp] theorem length_ofUInt16 (n : UInt16) : (ofUInt16 n).length = 2 := rfl

@[simp] theorem length_field (data : Bytes) : (field data).length = 2 + data.length := by
  simp [field]

@[simp] theorem length_ofString (s : String) : (ofString s).length = s.utf8ByteSize := by
  simp only [ofString, String.toUTF8_eq_toByteArray, Array.length_toList]
  rfl

theorem takeUInt16_ofUInt16 (n : UInt16) (rest : Bytes) :
    takeUInt16 (ofUInt16 n ++ rest) = .ok (n, rest) := by
  have h : n.toNat < 65536 := n.toNat_lt
  simp only [ofUInt16, List.cons_append, List.nil_append, takeUInt16, Except.ok.injEq,
    Prod.mk.injEq, and_true]
  apply UInt16.toNat_inj.1
  simp
  omega

theorem takeExactly_append (data rest : Bytes) :
    takeExactly data.length (data ++ rest) = .ok (data, rest) := by
  simp [takeExactly]

theorem toText?_ofString (s : String) : toText? (ofString s) = some s := by
  simp [toText?, ofString, String.fromUTF8?, s.isValidUTF8, String.fromUTF8]

end Bytes

end MqttCodec
