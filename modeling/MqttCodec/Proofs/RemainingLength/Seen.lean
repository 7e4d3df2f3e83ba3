/-
A decoder told by what it has seen. A fresh decoder that was given some bytes
is in a state that can be computed from the bytes alone (`Decoder.seen`): their
groups by weight, the weight of the next group, and how many they are. A byte
takes the state of the bytes before it to the state of the bytes with it
(`Decoder.push_seen`), whatever it says about the length.
-/
import Mathlib.Data.List.Induction
import MqttCodec.Proofs.RemainingLength.Canonical

namespace MqttCodec.RemainingLength

/-- The number that bytes stand for as seven-bit groups, lowest first. -/
def groupSum (bytes : List UInt8) : Nat :=
  (bytes.zipIdx.map fun (b, i) => b.toNat % 128 * 128 ^ i).sum

theorem groupSum_concat (bytes : List UInt8) (b : UInt8) :
    groupSum (bytes ++ [b]) = groupSum bytes + b.toNat % 128 * 128 ^ bytes.length := by
  simp [groupSum, List.zipIdx_append]

namespace Decoder

/-- The state of a decoder that has seen some bytes. -/
def seen (bytes : List UInt8) : Decoder where
  value := groupSum bytes
  multiplier := 128 ^ bytes.length
  count := bytes.length

@[simp] theorem count_seen (bytes : List UInt8) : (seen bytes).count = bytes.length := rfl

theorem advance_seen (bytes : List UInt8) (b : UInt8) : (seen bytes).advance b = seen (bytes ++ [b]) := by
  simp [advance, seen, groupSum_concat, Nat.pow_succ]

theorem consistent_seen (bytes : List UInt8) : (seen bytes).Consistent := by
  induction bytes using List.reverseRecOn with
  | nil => exact .empty
  | append_singleton bytes b ih =>
    rw [← advance_seen]
    exact ih.advance b

/-- **One more byte**, told by the bytes before it. -/
theorem push_seen {bytes : List UInt8} (h : bytes.length < maxBytes) (b : UInt8) :
    (seen bytes).push b =
      (if 128 ≤ b then
        if bytes.length + 1 = maxBytes then .error .malformedPacket else .ok none
      else if bytes = [] ∨ b ≠ 0 then .ok (some (groupSum (bytes ++ [b])))
      else .error .malformedPacket, seen (bytes ++ [b])) := by
  have hempty : (seen bytes).count = 0 ↔ bytes = [] := by simp
  rw [push_eq (consistent_seen bytes) h, advance_seen]
  simp only [hempty]
  rfl

/-- A length that ends where it may has its least number of bytes. -/
theorem encodedSize_groupSum {bytes : List UInt8} (h : bytes.length < maxBytes) {b : UInt8}
    (hb : b < 128) (hlast : bytes = [] ∨ b ≠ 0) :
    encodedSize (groupSum (bytes ++ [b])) = .ok (bytes.length + 1) := by
  have hlength : (groups (groupSum (bytes ++ [b]))).length = bytes.length + 1 := by
    have hadvance := length_groups_advance (consistent_seen bytes) hb
    rw [advance_seen] at hadvance
    exact hadvance.2 (by simpa using hlast)
  have hmax : groupSum (bytes ++ [b]) ≤ max := length_groups_le_iff.1 (by omega)
  rw [encodedSize_eq hmax, hlength]

end Decoder

end MqttCodec.RemainingLength
