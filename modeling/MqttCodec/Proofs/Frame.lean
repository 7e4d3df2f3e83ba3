/-
Frames as they stand in a stream, and the reading of a fixed header where
every read brings in a byte.
-/
import MqttCodec.Frame
import MqttCodec.Proofs.Error

namespace MqttCodec

/-- A packet as a first byte and a body are sent: the length of the body stands between them. -/
def Frame.written (header : UInt8) (body : Bytes) : Bytes :=
  header :: (RemainingLength.groups body.length ++ body)

/-- A packet with all of its body. -/
def Frame.whole (header : UInt8) (body : Bytes) : Frame where
  header
  length := body.length
  data := body

theorem Frame.contents_whole (header : UInt8) (body : Bytes) :
    (Frame.whole header body).contents = .ok body := by
  have hall : (Frame.whole header body).length ≤ (Frame.whole header body).data.length :=
    Nat.le_refl body.length
  rw [Frame.contents, if_pos hall]
  exact congrArg Except.ok List.take_length

theorem Frame.contents_eq_ok_iff {f : Frame} {body : Bytes} :
    f.contents = .ok body ↔ f.length ≤ f.data.length ∧ body = f.data.take f.length := by
  unfold Frame.contents
  split
  · rename_i h
    simp only [Except.ok.injEq, h, true_and, eq_comm]
  · rename_i h
    simp only [reduceCtorEq, h, false_and]

theorem Frame.length_of_contents {f : Frame} {body : Bytes} (h : f.contents = .ok body) :
    f.length = body.length := by
  obtain ⟨hall, rfl⟩ := Frame.contents_eq_ok_iff.1 h
  exact (List.length_take_of_le hall).symm

/-! ## Steps -/

namespace Framing

variable {ε : Type} {out : ReadOutcome ε} {header b : UInt8} {d d' : RemainingLength.Decoder} {n : Nat}

theorem byteRead_one (onNothing : Error) (b : UInt8) :
    byteRead onNothing (⟨.ok 1, [b]⟩ : ReadOutcome ε) = .ok b := rfl

theorem byteRead_none (onNothing : Error) (buffer : Bytes) :
    byteRead onNothing (⟨.ok 0, buffer⟩ : ReadOutcome ε) = .error onNothing := rfl

theorem step_header (hread : byteRead .noDataAvailable out = .ok header)
    (h : (PacketKind.ofHeader? header).isSome) :
    atHeader.step out = .ok (.more (.atLength header {})) := by
  rw [step, hread, ok_bind, require_bind, if_pos h]
  rfl

theorem step_last (hread : byteRead .malformedPacket out = .ok b) (h : d.push b = (.ok (some n), d')) :
    (atLength header d).step out = .ok (.done { header, length := n }) := by
  rw [step, hread, ok_bind, h]
  rfl

theorem step_length (hread : byteRead .malformedPacket out = .ok b) (h : d.push b = (.ok none, d')) :
    (atLength header d).step out = .ok (.more (.atLength header d')) := by
  rw [step, hread, ok_bind, h]
  rfl

theorem step_foreign (hread : byteRead .noDataAvailable out = .ok header)
    (h : PacketKind.ofHeader? header = none) :
    atHeader.step out = .error .malformedPacket := by
  rw [step, hread, ok_bind, require_bind, if_neg (by rw [h]; decide)]

theorem step_nothing {e : Error} (hread : byteRead .malformedPacket out = .error e) :
    (atLength header d).step out = .error e := by
  rw [step, hread]
  rfl

theorem step_error (hread : byteRead .malformedPacket out = .ok b) {e : Error}
    (h : d.push b = (.error e, d')) : (atLength header d).step out = .error e := by
  rw [step, hread, ok_bind, h]
  rfl

end Framing

end MqttCodec
