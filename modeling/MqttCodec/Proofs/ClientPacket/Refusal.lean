/-
When a packet is not written, and why. Room for a packet is looked at last,
so a buffer is called too small only if nothing else is wrong, and any other
mistake is an invalid parameter whatever the buffer is. Either way the buffer
stays as it was; a packet that is written has its wire form at the front,
which is the same in every buffer.
-/
import MqttCodec.Proofs.ClientPacket.Encoding

namespace MqttCodec.ClientPacket

/-- What must be right before room matters: the packet may be sent and has this size, the caller
knows its remaining length, and it has an identifier if it needs one. -/
def Accepts (p : ClientPacket) (remaining : Nat) (size : PacketSize) : Prop :=
  p.size = .ok size ∧ remaining = size.remaining ∧ p.Identified

variable {p : ClientPacket} {remaining : Nat} {size : PacketSize} {buffer after : Bytes}

theorem accepts_iff :
    p.Accepts remaining size ↔
      (p.Sendable ∧ p.Identified ∧ remaining = p.body.length) ∧
        size = ⟨p.body.length, p.wire.length⟩ := by
  rw [Accepts, size_eq_ok_iff]
  constructor
  · rintro ⟨⟨hs, rfl⟩, hr, hid⟩
    exact ⟨⟨hs, hid, hr⟩, rfl⟩
  · rintro ⟨⟨hs, hid, hr⟩, rfl⟩
    exact ⟨⟨hs, rfl⟩, hr, hid⟩

theorem exists_accepts_iff :
    (∃ size, p.Accepts remaining size) ↔
      p.Sendable ∧ p.Identified ∧ remaining = p.body.length := by
  simp only [accepts_iff, exists_and_left, exists_eq, and_true]

/-- The three ends of writing a packet. -/
theorem serialize_cases (p : ClientPacket) (remaining : Nat) (buffer : Bytes) :
    (∃ size, p.Accepts remaining size ∧ size.total ≤ buffer.length ∧
      p.serialize remaining buffer = (.ok size.total, p.wire ++ buffer.drop size.total)) ∨
    (∃ size, p.Accepts remaining size ∧ buffer.length < size.total ∧
      p.serialize remaining buffer = (.error .bufferTooSmall, buffer)) ∨
    (¬ ∃ size, p.Accepts remaining size) ∧
      p.serialize remaining buffer = (.error .invalidParameter, buffer) := by
  rw [serialize_eq]
  by_cases h : p.Sendable ∧ p.Identified ∧ remaining = p.body.length
  · have haccepts : p.Accepts remaining ⟨p.body.length, p.wire.length⟩ := accepts_iff.2 ⟨h, rfl⟩
    rw [if_pos h]
    by_cases hroom : p.wire.length ≤ buffer.length
    · rw [if_pos hroom]
      exact .inl ⟨_, haccepts, hroom, rfl⟩
    · rw [if_neg hroom]
      exact .inr (.inl ⟨_, haccepts, Nat.not_le.1 hroom, rfl⟩)
  · rw [if_neg h]
    exact .inr (.inr ⟨fun haccepts => h (exists_accepts_iff.1 haccepts), rfl⟩)

theorem Accepts.unique {size' : PacketSize} (h : p.Accepts remaining size)
    (h' : p.Accepts remaining size') : size = size' :=
  (accepts_iff.1 h).2.trans (accepts_iff.1 h').2.symm

theorem Accepts.length_wire (h : p.Accepts remaining size) : p.wire.length = size.total := by
  rw [(accepts_iff.1 h).2]

theorem serialize_eq_ok_iff {n : Nat} :
    p.serialize remaining buffer = (.ok n, after) ↔
      ∃ size, p.Accepts remaining size ∧ size.total ≤ buffer.length ∧ n = size.total ∧
        after.take n = p.wire ∧ after.drop n = buffer.drop n := by
  constructor
  · intro h
    rcases serialize_cases p remaining buffer with
      ⟨size, ha, hroom, hok⟩ | ⟨_, _, _, he⟩ | ⟨_, he⟩
    · rw [h] at hok
      cases hok
      refine ⟨size, ha, hroom, rfl, ?_, ?_⟩
      · exact List.take_left' ha.length_wire
      · exact List.drop_left' ha.length_wire
    · rw [h] at he
      cases he
    · rw [h] at he
      cases he
  · rintro ⟨size, ha, hroom, rfl, htake, hdrop⟩
    have hafter : after = p.wire ++ buffer.drop size.total := by
      rw [← htake, ← hdrop, List.take_append_drop]
    rcases serialize_cases p remaining buffer with
      ⟨size', ha', _, hok⟩ | ⟨size', ha', hlt, _⟩ | ⟨hnot, _⟩
    · rw [hok, hafter, ha.unique ha']
    · rw [ha.unique ha'] at hroom
      omega
    · exact absurd ⟨size, ha⟩ hnot

theorem serialize_eq_error_iff {e : Error} :
    p.serialize remaining buffer = (.error e, after) ↔
      after = buffer ∧
        ((e = .bufferTooSmall ∧ ∃ size, p.Accepts remaining size ∧ buffer.length < size.total) ∨
          (e = .invalidParameter ∧ ¬ ∃ size, p.Accepts remaining size)) := by
  rcases serialize_cases p remaining buffer with
    ⟨size, ha, hroom, heq⟩ | ⟨size, ha, hlt, heq⟩ | ⟨hnot, heq⟩
  · rw [heq]
    constructor
    · intro h
      cases h
    · rintro ⟨-, ⟨-, size', ha', hlt⟩ | ⟨-, hnot⟩⟩
      · rw [ha'.unique ha] at hlt
        omega
      · exact absurd ⟨size, ha⟩ hnot
  · rw [heq]
    constructor
    · intro h
      cases h
      exact ⟨rfl, .inl ⟨rfl, size, ha, hlt⟩⟩
    · rintro ⟨rfl, ⟨rfl, -⟩ | ⟨-, hnot⟩⟩
      · rfl
      · exact absurd ⟨size, ha⟩ hnot
  · rw [heq]
    constructor
    · intro h
      cases h
      exact ⟨rfl, .inr ⟨rfl, hnot⟩⟩
    · rintro ⟨rfl, ⟨-, size, ha, -⟩ | ⟨rfl, -⟩⟩
      · exact absurd ⟨size, ha⟩ hnot
      · rfl

/-- **Packets are written whole or not at all.** A packet that is accepted is written if there is
room for it: as many bytes as its size says, the same in every buffer, and none behind them. If
there is not, the buffer is too small, and a packet that is not accepted has an invalid parameter;
in both cases the buffer is untouched, and nothing else can go wrong. Encoding is the same with the
remaining length the packet has. -/
theorem serialize_all_or_nothing (p : ClientPacket) (remaining : Nat) (buffer : Bytes) :
    (∀ n after, p.serialize remaining buffer = (.ok n, after) ↔
      ∃ size, p.Accepts remaining size ∧ size.total ≤ buffer.length ∧ n = size.total ∧
        after.take n = p.wire ∧ after.drop n = buffer.drop n) ∧
    (∀ e after, p.serialize remaining buffer = (.error e, after) ↔
      after = buffer ∧
        ((e = .bufferTooSmall ∧ ∃ size, p.Accepts remaining size ∧ buffer.length < size.total) ∨
          (e = .invalidParameter ∧ ¬ ∃ size, p.Accepts remaining size))) ∧
    p.encode buffer =
      match p.size with
      | .ok size => p.serialize size.remaining buffer
      | .error _ => (.error .invalidParameter, buffer) := by
  refine ⟨fun n after => serialize_eq_ok_iff, fun e after => serialize_eq_error_iff, ?_⟩
  rw [encode, size_eq, sizeIfSendable]
  by_cases hs : p.Sendable
  · rw [if_pos hs]
  · rw [if_neg hs]

end MqttCodec.ClientPacket
