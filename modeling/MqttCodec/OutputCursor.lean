/-
Writing into a buffer of fixed capacity that may hold anything beforehand.
The cursor splits the buffer into what has been written and the room that is
left, whose contents are still the old ones. A piece is put whole or not at
all. After a failure the cursor is where the last piece left it, and a
shorter piece may still fit.
-/
import MqttCodec.Bytes
import MqttCodec.RemainingLength

namespace MqttCodec

/-- A buffer that is being filled from its start. -/
structure OutputCursor where
  written : Array UInt8
  /-- The old contents of the part that has not been written. -/
  room : Bytes

/-- A step that writes at a cursor. It may fail, and has moved the cursor even then. -/
abbrev Put := ExceptT Error (StateM OutputCursor)

namespace OutputCursor

/-- The cursor at the start of a buffer. -/
def start (buffer : Bytes) : OutputCursor := ⟨#[], buffer⟩

/-- The whole buffer: what has been written, then the old contents. -/
def buffer (c : OutputCursor) : Bytes := c.written.toList ++ c.room

/-- What is left of the room after a piece, if the piece fits. -/
def roomAfter : (piece room : Bytes) → Option Bytes
  | [], room => some room
  | _ :: _, [] => none
  | _ :: piece, _ :: room => roomAfter piece room

theorem roomAfter_eq (piece room : Bytes) :
    roomAfter piece room = if piece.length ≤ room.length then some (room.drop piece.length) else none := by
  induction piece generalizing room with
  | nil => simp [roomAfter]
  | cons b piece ih => cases room <;> simp [roomAfter, ih]

/-- A step that writes, and another after it if the first did not fail. -/
theorem run_bind {α β : Type} (step : Put α) (next : α → Put β) (c : OutputCursor) :
    (step >>= next).run c =
      match step.run c with
      | (.ok a, c) => (next a).run c
      | (.error e, c) => (.error e, c) := by
  change ExceptT.bindCont next (step.run c).1 (step.run c).2 = _
  rcases step.run c with ⟨_ | _, _⟩ <;> rfl

/-- A check does not move the cursor. -/
theorem run_liftM {α : Type} (check : Except Error α) (c : OutputCursor) :
    (liftM check : Put α).run c = (check, c) := by
  cases check <;> rfl

/-- Writes a piece if it fits. -/
def put (piece : Bytes) : Put Unit := ExceptT.mk fun c =>
  match roomAfter piece c.room with
  | some room => (.ok (), ⟨c.written ++ piece, room⟩)
  | none => (.error .bufferTooSmall, c)

theorem run_put (piece : Bytes) (c : OutputCursor) :
    (put piece).run c =
      if piece.length ≤ c.room.length then (.ok (), ⟨c.written ++ piece, c.room.drop piece.length⟩)
      else (.error .bufferTooSmall, c) := by
  by_cases h : piece.length ≤ c.room.length
  · have hr := roomAfter_eq piece c.room
    rw [if_pos h] at hr ⊢
    simp only [put, ExceptT.run_mk, hr]
  · have hr := roomAfter_eq piece c.room
    rw [if_neg h] at hr ⊢
    simp only [put, ExceptT.run_mk, hr]

/-- Writes one byte. -/
def putByte (b : UInt8) : Put Unit := put [b]

/-- Writes a 16-bit number. -/
def putUInt16 (n : UInt16) : Put Unit := put (.ofUInt16 n)

/-- Writes a length and then the bytes. -/
def putField (data : Bytes) : Put Unit := do
  require (data.length ≤ Bytes.maxField) .invalidParameter
  putUInt16 data.length.toUInt16
  put data

/-- Writes a packet's first byte and its remaining length. -/
def putFixedHeader (header : UInt8) (remaining : Nat) : Put Unit := do
  putByte header
  put (← RemainingLength.encode remaining)

/-- Carries out a step from the start of a buffer: how much was written or why not, and
the buffer afterwards. -/
def fill (step : Put Unit) (buffer : Bytes) : Except Error Nat × Bytes :=
  let (result, c) := step.run (start buffer)
  (result.map fun _ => c.written.size, c.buffer)

end OutputCursor

end MqttCodec
