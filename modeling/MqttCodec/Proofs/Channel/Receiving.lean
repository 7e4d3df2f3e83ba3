/-
Receiving from a byte queue. The machine that reads a fixed header takes a
byte of the queue a step, so on the queue it does what the decoder of
remaining lengths does on a byte string (`run_atLength`), and a packet that
stands whole at the front of the queue is all that a receiver takes from it
(`receive_written`). A receiver that gets a packet at all has taken a written
header and as much of the body as there was (`header_of_receive`).
-/
import MqttCodec.Channel
import MqttCodec.Proofs.Frame
import MqttCodec.Proofs.RemainingLength.Canonical

namespace MqttCodec

namespace Channel

open Framing RemainingLength

variable {c : Channel} {header : UInt8}

theorem read_cons (hopen : c.closed = false) {b : UInt8} {queue : Bytes} (hqueue : c.queue = b :: queue) :
    (transport.read [0]).run c = (⟨.ok 1, [b]⟩, { c with queue }) := by
  obtain ⟨_, closed, framed, body⟩ := c
  subst hopen hqueue
  rfl

theorem read_nil (hopen : c.closed = false) (hqueue : c.queue = []) :
    (transport.read [0]).run c = (⟨.ok 0, [0]⟩, c) := by
  obtain ⟨_, closed, framed, body⟩ := c
  subst hopen hqueue
  rfl

/-! ## Fixed headers -/

/-- A remaining length that can be read from the queue is taken from it, and no more than that. -/
theorem run_atLength (hopen : c.closed = false) {d : Decoder} {n k : Nat}
    (hlength : d.run c.queue = .ok (n, k)) :
    ((atLength header d).run transport).run c =
      (.ok { header, length := n }, { c with queue := c.queue.drop (k - d.count) }) := by
  -- the queue shrinks with every byte that the decoder takes
  generalize hqueue : c.queue = queue at hlength
  induction queue generalizing c d with
  | nil => cases hlength
  | cons b queue ih =>
    rw [run_run, read_cons hopen hqueue]
    have hcount := Decoder.count_lt_of_run hlength
    rw [Decoder.run] at hlength
    split at hlength
    case h_1 => cases hlength
    case h_2 hpush =>
      simp only [step_last (byteRead_one _ _) hpush]
      cases hlength
      rw [Decoder.eq_advance_of_push_ok hpush]
      have hone : (d.advance b).count - d.count = 1 := Nat.add_sub_cancel_left d.count 1
      rw [hone, List.drop_one, List.tail_cons]
    case h_3 d' hpush =>
      simp only [step_length (byteRead_one _ _) hpush]
      have htail := ih (c := { c with queue }) hopen rfl hlength
      rw [htail, Decoder.eq_advance_of_push_ok hpush]
      have hmore : k - d.count = k - (d.advance b).count + 1 := by
        have := Decoder.count_lt_of_run hlength
        rw [Decoder.eq_advance_of_push_ok hpush] at this
        simp only [Decoder.advance] at this ⊢
        omega
      rw [hmore, List.drop_succ_cons]

/-- What is no remaining length to the decoder is none to the machine, which has then taken all that
could belong to one. -/
theorem run_atLength_error (hopen : c.closed = false) {d : Decoder} (hd : d.Consistent)
    (hroom : d.count < maxBytes) {e : Error} (hlength : d.run c.queue = .error e) :
    ((atLength header d).run transport).run c =
      (.error e, { c with queue := c.queue.drop (span (maxBytes - d.count) c.queue) }) := by
  generalize hqueue : c.queue = queue at hlength
  induction queue generalizing c d with
  | nil =>
    cases hlength
    rw [run_run, read_nil hopen hqueue, List.drop_nil, ← hqueue]
    simp only [step_nothing (byteRead_none _ _)]
  | cons b queue ih =>
    have hleft : maxBytes - d.count = maxBytes - (d.count + 1) + 1 := by omega
    rw [run_run, read_cons hopen hqueue, hleft, span_cons]
    rw [Decoder.run] at hlength
    split at hlength
    case h_1 hpush =>
      cases hlength
      simp only [step_error (byteRead_one _ _) hpush]
      by_cases hb : b < 128
      · rw [if_pos hb, List.drop_one, List.tail_cons]
      · have hfull := Decoder.full_of_push_error hd hroom hpush (UInt8.not_lt.1 hb)
        rw [if_neg hb, hfull]
        simp [span]
    case h_2 => cases hlength
    case h_3 hpush =>
      simp only [step_length (byteRead_one _ _) hpush]
      obtain ⟨hb, hmore, rfl⟩ := Decoder.more_of_push hd hpush
      rw [if_neg (UInt8.not_lt.2 hb), List.drop_succ_cons]
      exact ih (c := { c with queue }) hopen (hd.advance b) hmore rfl hlength

theorem run_receive (hopen : c.closed = false) (hheader : (PacketKind.ofHeader? header).isSome)
    {queue : Bytes} (hqueue : c.queue = header :: queue) {n k : Nat}
    (hlength : ({} : Decoder).run queue = .ok (n, k)) :
    (Frame.receive transport).run c =
      (.ok { header, length := n }, { c with queue := queue.drop k }) := by
  rw [Frame.receive, run_run, read_cons hopen hqueue]
  simp only [step_header (byteRead_one _ _) hheader]
  exact run_atLength (c := { c with queue }) hopen hlength

theorem run_receive_nil (hopen : c.closed = false) (hqueue : c.queue = []) :
    (Frame.receive transport).run c = (.error .noDataAvailable, c) := by
  rw [Frame.receive, run_run, read_nil hopen hqueue]
  rfl

/-- A queue that does not begin with a written header holds no packet. -/
theorem run_receive_malformed (hopen : c.closed = false) {queue : Bytes}
    (hqueue : c.queue = header :: queue)
    (hnone : ∀ n ≤ max, (PacketKind.ofHeader? header).isSome → ¬ groups n <+: queue) :
    ((Frame.receive transport).run c).1 = .error .malformedPacket := by
  rw [Frame.receive, run_run, read_cons hopen hqueue]
  rcases hheader : PacketKind.ofHeader? header with _ | kind
  · simp only [step_foreign (byteRead_one _ _) hheader]
  · have hsome : (PacketKind.ofHeader? header).isSome := by rw [hheader]; rfl
    have hlength : ({} : Decoder).run queue = .error .malformedPacket :=
      run_eq_error_iff.2 ⟨rfl, fun n hn => hnone n hn hsome⟩
    simp only [step_header (byteRead_one _ _) hsome]
    exact congrArg Prod.fst
      (run_atLength_error (c := { c with queue }) hopen .empty (by decide) hlength)

/-! ## Packets -/

theorem takeHeader_eq {result : Except Error Frame} {c' : Channel}
    (h : (Frame.receive transport).run { c with framed := none, body := [] } = (result, c')) :
    c.takeHeader = (result, { c' with framed := result.toOption }) := by
  rw [takeHeader, h]

/-- A written header is received with as much of the body as there is, up to the length it
gives. -/
theorem receive_header (hopen : c.closed = false) (hheader : (PacketKind.ofHeader? header).isSome)
    {n : Nat} (hn : n ≤ max) {rest : Bytes} (hqueue : c.queue = header :: (groups n ++ rest)) :
    c.receive = (.ok { header, length := n, data := rest.take n },
      { c with queue := rest.drop n, framed := some { header, length := n }, body := rest.take n }) := by
  have hframe := run_receive (c := { c with framed := none, body := [] }) hopen hheader hqueue
    (run_groups_append hn rest)
  rw [receive, takeHeader_eq hframe]
  simp only [takeBody, Except.toOption, Option.elim, List.length_nil, Nat.sub_zero, List.drop_left,
    List.nil_append]

/-- **A whole packet at the front of the queue is received**, whatever its body holds and whatever
comes after it, and nothing but the packet is taken. -/
theorem receive_written (hopen : c.closed = false) (hheader : (PacketKind.ofHeader? header).isSome)
    {body rest : Bytes} (hlength : body.length ≤ RemainingLength.max)
    (hqueue : c.queue = Frame.written header body ++ rest) :
    c.receive = (.ok (Frame.whole header body),
      { c with queue := rest, framed := some { header, length := body.length }, body }) := by
  rw [Frame.written, List.cons_append, List.append_assoc] at hqueue
  rw [receive_header hopen hheader hlength hqueue, List.take_left, List.drop_left]
  rfl

theorem receive_nil (hopen : c.closed = false) (hqueue : c.queue = []) :
    c.receive = (.error .noDataAvailable, { c with framed := none, body := [] }) := by
  have hframe := run_receive_nil (c := { c with framed := none, body := [] }) hopen hqueue
  rw [receive, takeHeader_eq hframe]
  rfl

theorem receive_malformed (hopen : c.closed = false) {queue : Bytes}
    (hqueue : c.queue = header :: queue)
    (hnone : ∀ n ≤ max, (PacketKind.ofHeader? header).isSome → ¬ groups n <+: queue) :
    c.receive.1 = .error .malformedPacket := by
  have herror := run_receive_malformed (c := { c with framed := none, body := [] }) hopen hqueue hnone
  rcases hframe : (Frame.receive transport).run { c with framed := none, body := [] } with ⟨result, c'⟩
  rw [hframe] at herror
  cases herror
  rw [receive, takeHeader_eq hframe]

/-- A receiver finds nothing, or no packet, or a written header. -/
theorem receive_cases (hopen : c.closed = false) :
    (c.queue = [] ∧ c.receive.1 = .error .noDataAvailable) ∨
    (c.queue ≠ [] ∧ c.receive.1 = .error .malformedPacket) ∨
    ∃ header n rest, (PacketKind.ofHeader? header).isSome ∧ n ≤ max ∧
      c.queue = header :: (groups n ++ rest) ∧
      c.receive = (.ok { header, length := n, data := rest.take n },
        { c with queue := rest.drop n, framed := some { header, length := n }, body := rest.take n }) := by
  rcases hqueue : c.queue with _ | ⟨header, queue⟩
  · left
    rw [receive_nil hopen hqueue]
    exact ⟨rfl, rfl⟩
  · right
    by_cases hwritten : ∃ n ≤ max, (PacketKind.ofHeader? header).isSome ∧ groups n <+: queue
    · obtain ⟨n, hn, hheader, rest, rfl⟩ := hwritten
      exact .inr ⟨header, n, rest, hheader, hn, rfl, receive_header hopen hheader hn hqueue⟩
    · have herror := receive_malformed hopen hqueue fun n hn hheader hfront =>
        hwritten ⟨n, hn, hheader, hfront⟩
      exact .inl ⟨List.cons_ne_nil _ _, herror⟩

/-- **What was received begins with a written header**, and its data is what followed it. -/
theorem header_of_receive (hopen : c.closed = false) {f : Frame} {c' : Channel}
    (h : c.receive = (.ok f, c')) :
    (PacketKind.ofHeader? f.header).isSome ∧ f.length ≤ max ∧
      ∃ rest, c.queue = f.header :: (groups f.length ++ rest) ∧ f.data = rest.take f.length ∧
        c'.queue = rest.drop f.length := by
  rcases receive_cases hopen with
    ⟨-, herror⟩ | ⟨-, herror⟩ | ⟨_, _, rest, hheader, hn, hqueue, hreceive⟩
  · rw [h] at herror
    cases herror
  · rw [h] at herror
    cases herror
  · rw [h] at hreceive
    cases hreceive
    exact ⟨hheader, hn, rest, hqueue, rfl, rfl⟩

/-! ## What a packet says -/

theorem receivePacket_of_error {e : Error} (h : c.receive.1 = .error e) :
    c.receivePacket.1 = .error e := by
  simp only [receivePacket, h]
  rfl

theorem receivePacket_of_ok {f : Frame} {c' : Channel} (h : c.receive = (.ok f, c')) :
    c.receivePacket = (ServerPacket.ofFrame f, c') := by
  rw [receivePacket, h]
  rfl

end Channel

end MqttCodec
