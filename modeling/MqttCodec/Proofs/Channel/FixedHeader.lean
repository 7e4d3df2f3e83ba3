/-
A fixed header read from a queue and from a byte string. The machine that
takes a byte of the queue at a time and the decoder that has the whole string
before it read the same lengths. Where there is none, the machine has taken
the bytes that could have belonged to one, and no others
(`run_receive_eq_decode`).
-/
import MqttCodec.Proofs.Channel.Receiving

namespace MqttCodec.Channel

open Framing RemainingLength

variable {c : Channel} {header : UInt8} {rest : Bytes}

theorem run_receive_foreign (hopen : c.closed = false) (hqueue : c.queue = header :: rest)
    (hnone : PacketKind.ofHeader? header = none) :
    (Frame.receive transport).run c = (.error .malformedPacket, { c with queue := rest }) := by
  rw [Frame.receive, run_run, read_cons hopen hqueue]
  simp only [step_foreign (byteRead_one _ _) hnone]

theorem run_receive_error (hopen : c.closed = false) (hqueue : c.queue = header :: rest)
    (hheader : (PacketKind.ofHeader? header).isSome) {e : Error} (hlength : decode rest = .error e) :
    (Frame.receive transport).run c =
      (.error .malformedPacket, { c with queue := rest.drop (span maxBytes rest) }) := by
  rw [decode_eq_run] at hlength
  obtain rfl := Decoder.error_of_run .empty hlength
  rw [Frame.receive, run_run, read_cons hopen hqueue]
  simp only [step_header (byteRead_one _ _) hheader]
  exact run_atLength_error (c := { c with queue := rest }) hopen .empty (by decide) hlength

/-- **Byte by byte and at once, the same lengths are read.** From a queue that is not empty a header
is taken exactly if its first byte is one and a length can be read from the rest; the header and
the length are taken then, and nothing else. A first byte that begins no packet is all that is
taken. If no length can be read, the bytes are gone that a reader must take to know: four, or all,
or those up to the first that asks for no more. -/
theorem run_receive_eq_decode (hopen : c.closed = false) (hqueue : c.queue = header :: rest) :
    let framed := (Frame.receive transport).run c
    ((∃ f, framed.1 = .ok f) ↔
      (PacketKind.ofHeader? header).isSome ∧ ∃ n k, decode rest = .ok (n, k)) ∧
    (∀ n k, (PacketKind.ofHeader? header).isSome → decode rest = .ok (n, k) →
      framed = (.ok { header, length := n }, { c with queue := rest.drop k })) ∧
    (PacketKind.ofHeader? header = none →
      framed = (.error .malformedPacket, { c with queue := rest })) ∧
    ∀ e, (PacketKind.ofHeader? header).isSome → decode rest = .error e →
      framed = (.error .malformedPacket, { c with
        queue := rest.drop (min 4 (min rest.length (rest.findIdx (· < 128) + 1))) }) := by
  intro framed
  have hforeign : PacketKind.ofHeader? header = none →
      framed = (.error .malformedPacket, { c with queue := rest }) :=
    run_receive_foreign hopen hqueue
  have hok : ∀ n k, (PacketKind.ofHeader? header).isSome → decode rest = .ok (n, k) →
      framed = (.ok { header, length := n }, { c with queue := rest.drop k }) := by
    intro n k hheader hlength
    rw [decode_eq_run] at hlength
    exact run_receive hopen hheader hqueue hlength
  have herror : ∀ e, (PacketKind.ofHeader? header).isSome → decode rest = .error e →
      framed = (.error .malformedPacket, { c with queue := rest.drop (span maxBytes rest) }) :=
    fun e hheader hlength => run_receive_error hopen hqueue hheader hlength
  refine ⟨⟨?_, ?_⟩, hok, hforeign, herror⟩
  · intro ⟨f, hf⟩
    cases hheader : PacketKind.ofHeader? header with
    | none =>
      rw [hforeign hheader] at hf
      cases hf
    | some kind =>
      cases hlength : decode rest with
      | error e =>
        rw [herror e (by simp [hheader]) hlength] at hf
        cases hf
      | ok length => exact ⟨rfl, length.1, length.2, rfl⟩
  · intro ⟨hheader, n, k, hlength⟩
    exact ⟨_, congrArg Prod.fst (hok n k hheader hlength)⟩

/-- A length that is written in more bytes than it needs, and a byte of what follows. -/
theorem run_receive_eq_decode_padded :
    let c : Channel := { queue := [0x30, 0x85, 0x80, 0, 7] }
    decode [0x85, 0x80, 0, 7] = .error .malformedPacket ∧
      (Frame.receive transport).run c = (.error .malformedPacket, { queue := [7] }) := by
  intro c
  have hlength : decode [0x85, 0x80, 0, 7] = .error .malformedPacket := by decide
  obtain ⟨-, -, -, herror⟩ := run_receive_eq_decode (c := c) rfl rfl
  exact ⟨hlength, herror _ (by decide) hlength⟩

end MqttCodec.Channel
