/-
A message whose payload stays where it is. The header alone needs less room
than the whole packet, and how much is known before the payload is looked at:
the packet's size less the payload's. Nothing else tells the two apart
(`writePublishHeader_agrees`): what is written is the packet up to its
payload, and whatever is wrong with the one is wrong with the other.
-/
import MqttCodec.Proofs.ClientPacket.Refusal

namespace MqttCodec.ClientPacket

open OutputCursor

variable {m : Message} {packetId : UInt16} {remaining : Nat} {size : PacketSize}
  {buffer after : Bytes} {n : Nat} {e : Error}

/-- The header is what the packet's size leaves when the payload is taken off. -/
theorem Accepts.length_publishHead (h : (publish m packetId).Accepts remaining size) :
    (publishHead m packetId).length + m.payload.length = size.total := by
  rw [← List.length_append, ← wire_publish, h.length_wire]

theorem payload_le_publishSize (h : publishSize m = .ok size) : m.payload.length ≤ size.total := by
  have haccepts : (publish m 1).Accepts size.remaining size := ⟨h, rfl, fun _ => by decide⟩
  have hlength := haccepts.length_publishHead
  omega

/-- Writing the header is all or nothing as well. -/
theorem run_writePublishHeader (m : Message) (packetId : UInt16) (remaining : Nat) (c : OutputCursor) :
    (writePublishHeader m packetId remaining).run c =
      if (publish m packetId).Sendable ∧ (publish m packetId).Identified ∧
          remaining = (publish m packetId).body.length then
        if (publishHead m packetId).length ≤ c.room.length then
          (.ok (), ⟨c.written ++ publishHead m packetId, c.room.drop (publishHead m packetId).length⟩)
        else (.error .bufferTooSmall, c)
      else (.error .invalidParameter, c) := by
  have hneeded : (publish m packetId).wire.length - m.payload.length =
      (publishHead m packetId).length := by
    rw [wire_publish, List.length_append, Nat.add_sub_cancel]
  rw [writePublishHeader, run_bind, run_checkPublish]
  by_cases h : (publish m packetId).Sendable ∧ (publish m packetId).Identified
  case neg => rw [if_neg h, if_neg fun ho => h ⟨ho.1, ho.2.1⟩]
  rw [if_pos h]
  change (checkRoom _ remaining _ >>= fun _ => putPublishHeader m packetId remaining).run c = _
  rw [run_bind, run_checkRoom, hneeded]
  by_cases hr : remaining = (publish m packetId).body.length
  case neg => rw [if_neg hr, if_neg fun ho => hr ho.2.2]
  rw [if_pos hr, if_pos (And.intro h.1 ⟨h.2, hr⟩)]
  by_cases hroom : (publishHead m packetId).length ≤ c.room.length
  · rw [if_pos hroom, if_pos hroom]
    subst hr
    exact writes_putPublishHeader h.1 c hroom
  · rw [if_neg hroom, if_neg hroom]

/-- What becomes of a buffer when nothing is wrong but perhaps its room. -/
theorem fill_writePublishHeader (h : (publish m packetId).Accepts remaining size) (buffer : Bytes) :
    fill (writePublishHeader m packetId remaining) buffer =
      if size.total - m.payload.length ≤ buffer.length then
        (.ok (size.total - m.payload.length),
          publishHead m packetId ++ buffer.drop (size.total - m.payload.length))
      else (.error .bufferTooSmall, buffer) := by
  have hneeded : size.total - m.payload.length = (publishHead m packetId).length := by
    rw [← h.length_publishHead, Nat.add_sub_cancel]
  simp only [fill, run_writePublishHeader, start, hneeded]
  rw [if_pos (exists_accepts_iff.1 ⟨size, h⟩)]
  split <;> simp [OutputCursor.buffer, Except.map]

theorem fill_writePublishHeader_of_not (h : ¬ ∃ size, (publish m packetId).Accepts remaining size)
    (buffer : Bytes) :
    fill (writePublishHeader m packetId remaining) buffer = (.error .invalidParameter, buffer) := by
  simp only [fill, run_writePublishHeader, start]
  rw [if_neg fun hready => h (exists_accepts_iff.2 hready)]
  simp [OutputCursor.buffer, Except.map]

/-- The whole packet, where there is room for it. -/
theorem fill_writePublish (h : (publish m packetId).Accepts remaining size)
    (hroom : size.total ≤ buffer.length) :
    fill (writePublish m packetId remaining) buffer =
      (.ok size.total, publishHead m packetId ++ m.payload ++ buffer.drop size.total) := by
  obtain ⟨size', h', -, heq⟩ | ⟨size', h', hlt, -⟩ | ⟨hnot, -⟩ :=
    serialize_cases (publish m packetId) remaining buffer
  · rw [h'.unique h, wire_publish] at heq
    exact heq
  · rw [h'.unique h] at hlt
    omega
  · exact absurd ⟨size, h⟩ hnot

theorem fill_writePublish_of_not (h : ¬ ∃ size, (publish m packetId).Accepts remaining size)
    (buffer : Bytes) :
    fill (writePublish m packetId remaining) buffer = (.error .invalidParameter, buffer) := by
  obtain ⟨size, hsize, -⟩ | ⟨size, hsize, -⟩ | ⟨-, heq⟩ :=
    serialize_cases (publish m packetId) remaining buffer
  · exact absurd ⟨size, hsize⟩ h
  · exact absurd ⟨size, hsize⟩ h
  · exact heq

/-- Whatever the header leaves behind is what the whole packet begins with. -/
theorem fill_writePublishHeader_eq_ok_iff :
    fill (writePublishHeader m packetId remaining) buffer = (.ok n, after) ↔
      ∃ size, (publish m packetId).Accepts remaining size ∧ n = size.total - m.payload.length ∧
        n ≤ buffer.length ∧ after.drop n = buffer.drop n ∧
        ∀ larger : Bytes, size.total ≤ larger.length →
          fill (writePublish m packetId remaining) larger =
            (.ok size.total, after.take n ++ m.payload ++ larger.drop size.total) := by
  by_cases hready : ∃ size, (publish m packetId).Accepts remaining size
  case neg =>
    rw [fill_writePublishHeader_of_not hready]
    exact ⟨nofun, fun ⟨size, hsize, _⟩ => absurd ⟨size, hsize⟩ hready⟩
  obtain ⟨size, hsize⟩ := hready
  have hlength := hsize.length_publishHead
  have hhead : (publishHead m packetId).length = size.total - m.payload.length := by omega
  rw [fill_writePublishHeader hsize]
  refine ⟨fun h => ?_, fun h => ?_⟩
  · split at h
    · rename_i hroom
      cases h
      refine ⟨size, hsize, rfl, hroom, List.drop_left' hhead, fun larger hlarger => ?_⟩
      rw [fill_writePublish hsize hlarger, List.take_left' hhead]
    · cases h
  · obtain ⟨size', hsize', rfl, hroom, hdrop, hwhole⟩ := h
    obtain rfl := hsize'.unique hsize
    rw [if_pos hroom]
    -- any buffer that holds the whole packet shows what the header's bytes are
    have hlarger := hwhole (List.replicate size'.total 0) (by simp)
    rw [fill_writePublish hsize (by simp)] at hlarger
    simp only [Prod.mk.injEq, true_and, List.append_cancel_right_eq] at hlarger
    rw [← hdrop, hlarger, List.take_append_drop]

theorem fill_writePublishHeader_eq_error_iff :
    fill (writePublishHeader m packetId remaining) buffer = (.error e, after) ↔
      after = buffer ∧
        ((e = .bufferTooSmall ∧ ∃ size, (publish m packetId).Accepts remaining size ∧
            buffer.length < size.total - m.payload.length) ∨
          (e = .invalidParameter ∧ ¬ ∃ size, (publish m packetId).Accepts remaining size)) := by
  by_cases hready : ∃ size, (publish m packetId).Accepts remaining size
  case neg =>
    rw [fill_writePublishHeader_of_not hready]
    refine ⟨fun h => ?_, fun h => ?_⟩
    · cases h
      exact ⟨rfl, .inr ⟨rfl, hready⟩⟩
    · obtain ⟨rfl, ⟨-, size, hsize, -⟩ | ⟨rfl, -⟩⟩ := h
      · exact absurd ⟨size, hsize⟩ hready
      · rfl
  obtain ⟨size, hsize⟩ := hready
  rw [fill_writePublishHeader hsize]
  refine ⟨fun h => ?_, fun h => ?_⟩
  · split at h
    · cases h
    · rename_i hroom
      cases h
      exact ⟨rfl, .inl ⟨rfl, size, hsize, Nat.not_le.1 hroom⟩⟩
  · obtain ⟨rfl, ⟨rfl, size', hsize', hlt⟩ | ⟨-, hnot⟩⟩ := h
    · rw [hsize'.unique hsize] at hlt
      rw [if_neg (Nat.not_le.2 hlt)]
    · exact absurd ⟨size, hsize⟩ hnot

/-- **A header is written as its packet is.** It is written exactly if the packet is accepted and
there is room for what the packet's size leaves without the payload. Nothing behind it changes, and
with the payload after it, it is the packet, in whatever buffer the packet is written. A buffer that
has no room for the header is too small, and a packet that is not accepted has an invalid parameter;
in both cases the buffer is untouched. So in a buffer with room for the packet the two succeed
together, or fail with the same error. -/
theorem writePublishHeader_agrees (m : Message) (packetId : UInt16) (remaining : Nat)
    (buffer : Bytes) :
    (∀ size, publishSize m = .ok size → m.payload.length ≤ size.total) ∧
    (∀ n after, fill (writePublishHeader m packetId remaining) buffer = (.ok n, after) ↔
      ∃ size, (publish m packetId).Accepts remaining size ∧ n = size.total - m.payload.length ∧
        n ≤ buffer.length ∧ after.drop n = buffer.drop n ∧
        ∀ larger : Bytes, size.total ≤ larger.length →
          fill (writePublish m packetId remaining) larger =
            (.ok size.total, after.take n ++ m.payload ++ larger.drop size.total)) ∧
    (∀ e after, fill (writePublishHeader m packetId remaining) buffer = (.error e, after) ↔
      after = buffer ∧
        ((e = .bufferTooSmall ∧ ∃ size, (publish m packetId).Accepts remaining size ∧
            buffer.length < size.total - m.payload.length) ∨
          (e = .invalidParameter ∧ ¬ ∃ size, (publish m packetId).Accepts remaining size))) ∧
    ((∀ size, publishSize m = .ok size → size.total ≤ buffer.length) →
      ∀ e, (fill (writePublishHeader m packetId remaining) buffer).1 = .error e ↔
        (fill (writePublish m packetId remaining) buffer).1 = .error e) := by
  refine ⟨fun size => payload_le_publishSize, fun n after => fill_writePublishHeader_eq_ok_iff,
    fun e after => fill_writePublishHeader_eq_error_iff, fun hroom e => ?_⟩
  by_cases hready : ∃ size, (publish m packetId).Accepts remaining size
  · obtain ⟨size, hsize⟩ := hready
    have hwhole : size.total ≤ buffer.length := hroom size hsize.1
    have hheader : size.total - m.payload.length ≤ buffer.length := by omega
    rw [fill_writePublishHeader hsize, fill_writePublish hsize hwhole, if_pos hheader]
    exact ⟨nofun, nofun⟩
  · rw [fill_writePublishHeader_of_not hready, fill_writePublish_of_not hready]

/-- A reading of three bytes: without an identifier both are refused, and with one the header takes
nine of the packet's twelve bytes. -/
theorem writePublishHeader_agrees_reading :
    let m : Message := { qos := .atLeastOnce, topic := "a/b", payload := [50, 49, 46] }
    let buffer : Bytes := List.replicate 12 0xAA
    ((fill (writePublishHeader m 0 10) buffer).1 = .error .invalidParameter ↔
      (fill (writePublish m 0 10) buffer).1 = .error .invalidParameter) ∧
    ∃ size, (publish m 7).Accepts 10 size ∧ 9 = size.total - m.payload.length ∧ 9 ≤ buffer.length ∧
      buffer.drop 9 = [0xAA, 0xAA, 0xAA] ∧
      ∀ larger : Bytes, size.total ≤ larger.length →
        fill (writePublish m 7 10) larger =
          (.ok size.total, [0x32, 10, 0, 3, 97, 47, 98, 0, 7] ++ m.payload ++ larger.drop size.total) := by
  intro m buffer
  have hsize : publishSize m = .ok ⟨10, 12⟩ := by decide
  have hheader : fill (writePublishHeader m 7 10) buffer =
      (.ok 9, [0x32, 10, 0, 3, 97, 47, 98, 0, 7, 0xAA, 0xAA, 0xAA]) := by decide +kernel
  obtain ⟨-, -, -, herror⟩ := writePublishHeader_agrees m 0 10 buffer
  obtain ⟨-, hok, -, -⟩ := writePublishHeader_agrees m 7 10 buffer
  refine ⟨herror (fun size h => ?_) _, ?_⟩
  · rw [hsize] at h
    cases h
    decide
  · obtain ⟨size, haccepts, hn, hroom, -, hwhole⟩ := (hok _ _).1 hheader
    exact ⟨size, haccepts, hn, hroom, rfl, hwhole⟩

end MqttCodec.ClientPacket
