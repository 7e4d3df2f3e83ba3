/-
Packets that break off. A receiver that gets less than a whole packet never
takes it for one. How it fails tells where the packet broke off: before it
began, within the fixed header, or within the body (`receivePacket_truncated`).
-/
import MqttCodec.Proofs.Channel.Receiving
import MqttCodec.Proofs.ServerPacket.Lengths

namespace MqttCodec.Channel

open RemainingLength

variable {c : Channel}

/-- A packet that breaks off within its remaining length: what is there of the length is no
written form, since no length begins with another. -/
theorem receivePacket_header_cut (hopen : c.closed = false) {header : UInt8} {queue : Bytes}
    (hqueue : c.queue = header :: queue) {n : Nat} (hn : n ≤ max) {rest : Bytes}
    (hfront : queue <+: groups n ++ rest) (hshort : queue.length < (groups n).length) :
    c.receivePacket.1 = .error .malformedPacket := by
  refine receivePacket_of_error (receive_malformed hopen hqueue ?_)
  rintro m hm - ⟨x, rfl⟩
  obtain ⟨y, hxy⟩ := hfront
  rw [List.append_assoc] at hxy
  obtain ⟨rfl, -⟩ := groups_append_inj hm hn hxy
  rw [List.length_append] at hshort
  omega

/-- A packet that breaks off within its body. -/
theorem receivePacket_body_cut (hopen : c.closed = false) {f : Frame}
    (hheader : (PacketKind.ofHeader? f.header).isSome) (hn : f.length ≤ max)
    (htells : ServerPacket.Tells (ServerPacket.ofFrame f)) {rest : Bytes}
    (hqueue : c.queue = f.header :: (groups f.length ++ rest)) (hshort : rest.length < f.length) :
    c.receivePacket.1 = .error .invalidParameter := by
  rw [receivePacket_of_ok (receive_header hopen hheader hn hqueue)]
  have hdata : (rest.take f.length).length < f.length := by
    rw [List.length_take]
    omega
  exact ServerPacket.ofFrame_short htells rfl rfl hdata

/-- A packet that tells something was received with its whole body. -/
theorem frame_of_tells (hopen : c.closed = false) (htells : ServerPacket.Tells c.receivePacket.1) :
    ∃ f rest, c.receive.1 = .ok f ∧ ServerPacket.Tells (ServerPacket.ofFrame f) ∧
      (PacketKind.ofHeader? f.header).isSome ∧ f.length ≤ max ∧ f.length ≤ rest.length ∧
      c.queue = f.header :: (groups f.length ++ rest) ∧
      c.receivePacket.2.queue = rest.drop f.length := by
  rcases receive_cases hopen with
    ⟨-, herror⟩ | ⟨-, herror⟩ | ⟨header, n, rest, hheader, hn, hqueue, hreceive⟩
  · exact absurd (receivePacket_of_error herror) (htells.ne (by decide))
  · exact absurd (receivePacket_of_error herror) (htells.ne (by decide))
  · rw [receivePacket_of_ok hreceive] at htells ⊢
    have hle := ServerPacket.length_le_of_tells htells
    rw [List.length_take] at hle
    have hdata : n ≤ rest.length := Nat.le_trans hle (Nat.min_le_right _ _)
    exact ⟨_, rest, congrArg Prod.fst hreceive, htells, hheader, hn, hdata, hqueue, rfl⟩

/-- Where a queue breaks off, of which the whole holds a header and its body. -/
theorem receivePacket_cut_cases (hopen : c.closed = false) {f : Frame}
    (hheader : (PacketKind.ofHeader? f.header).isSome) (hn : f.length ≤ max)
    (htells : ServerPacket.Tells (ServerPacket.ofFrame f)) {body : Bytes}
    (hlength : body.length = f.length)
    (hfront : c.queue <+: f.header :: (groups f.length ++ body))
    (hproper : c.queue ≠ f.header :: (groups f.length ++ body)) :
    (c.queue = [] ∧ c.receivePacket.1 = .error .noDataAvailable) ∨
    (c.queue ≠ [] ∧ c.queue.length < 1 + (groups f.length).length ∧
      c.receivePacket.1 = .error .malformedPacket) ∨
    (1 + (groups f.length).length ≤ c.queue.length ∧
      c.receivePacket.1 = .error .invalidParameter) := by
  rcases hqueue : c.queue with _ | ⟨header, queue⟩
  · exact .inl ⟨rfl, receivePacket_of_error (congrArg Prod.fst (receive_nil hopen hqueue))⟩
  rw [hqueue] at hfront hproper
  obtain ⟨rfl, htail⟩ := List.cons_prefix_cons.1 hfront
  right
  by_cases hshort : queue.length < (groups f.length).length
  · left
    refine ⟨List.cons_ne_nil _ _, ?_, receivePacket_header_cut hopen hqueue hn htail hshort⟩
    rw [List.length_cons]
    omega
  · right
    obtain ⟨part, rfl⟩ := List.prefix_of_prefix_length_le (List.prefix_append _ body) htail
      (Nat.not_lt.1 hshort)
    have hpart : part <+: body := (List.prefix_append_right_inj _).1 htail
    have hless : part.length < body.length := by
      apply Nat.lt_of_le_of_ne hpart.length_le
      intro heq
      exact hproper (by rw [hpart.eq_of_length heq])
    refine ⟨?_, receivePacket_body_cut hopen hheader hn htells hqueue (hlength ▸ hless)⟩
    rw [List.length_cons, List.length_append]
    omega

/-- **A packet that breaks off is never taken for a packet.** Where a queue holds one packet that
tells something and nothing more, a receiver that gets a proper part of its front fails: for lack
of data if it gets nothing, over a malformed packet if it gets a part of the fixed header, and over
the data it passes on if it gets all of the header but not all of the body. -/
theorem receivePacket_truncated {whole cut : Channel} (hwhole : whole.closed = false)
    (hcut : cut.closed = false) (htells : ServerPacket.Tells whole.receivePacket.1)
    (hall : whole.receivePacket.2.queue = []) (hfront : cut.queue <+: whole.queue)
    (hproper : cut.queue ≠ whole.queue) :
    ∃ f lengthBytes, whole.receive.1 = .ok f ∧ encodedSize f.length = .ok lengthBytes ∧
      whole.queue.length = 1 + lengthBytes + f.length ∧
      (∃ e, cut.receivePacket.1 = .error e) ∧
      (cut.receivePacket.1 = .error .noDataAvailable ↔ cut.queue = []) ∧
      (cut.receivePacket.1 = .error .malformedPacket ↔
        cut.queue ≠ [] ∧ cut.queue.length < 1 + lengthBytes) ∧
      (cut.receivePacket.1 = .error .invalidParameter ↔
        1 + lengthBytes ≤ cut.queue.length ∧ cut.queue.length < whole.queue.length) := by
  have hless : cut.queue.length < whole.queue.length :=
    Nat.lt_of_le_of_ne hfront.length_le fun heq => hproper (hfront.eq_of_length heq)
  obtain ⟨f, rest, hreceive, htells, hheader, hn, hle, hqueue, hrest⟩ := frame_of_tells hwhole htells
  have hlength : rest.length = f.length := by
    have hdrop := congrArg List.length (hall.symm.trans hrest)
    rw [List.length_nil, List.length_drop] at hdrop
    omega
  refine ⟨f, (groups f.length).length, hreceive, encodedSize_eq hn, ?_, ?_⟩
  · rw [hqueue, List.length_cons, List.length_append, hlength]
    omega
  rw [hqueue] at hfront hproper
  simp only [hless, and_true]
  rcases receivePacket_cut_cases hcut hheader hn htells hlength hfront hproper with
    ⟨hnil, hresult⟩ | ⟨hne, hlt, hresult⟩ | ⟨hge, hresult⟩
  · rw [hresult]
    refine ⟨⟨_, rfl⟩, ?_⟩
    simp [hnil]
  · rw [hresult]
    refine ⟨⟨_, rfl⟩, ?_⟩
    simp [hne, hlt, Nat.not_le.2 hlt]
  · have hne : cut.queue ≠ [] := List.ne_nil_of_length_pos (by omega)
    rw [hresult]
    refine ⟨⟨_, rfl⟩, ?_⟩
    simp [hne, hge, Nat.not_lt.2 hge]

/-- A refused subscription, of whose three bytes two came in. -/
theorem receivePacket_truncated_refusal :
    let whole : Channel := { queue := [0x90, 3, 0, 7, 0x80] }
    let cut : Channel := { queue := [0x90, 3, 0, 7] }
    (ServerPacket.Tells whole.receivePacket.1 ∧ whole.receivePacket.2.queue = [] ∧
      cut.queue <+: whole.queue ∧ cut.queue ≠ whole.queue) ∧
      ∃ f lengthBytes, whole.receive.1 = .ok f ∧ encodedSize f.length = .ok lengthBytes ∧
        whole.queue.length = 1 + lengthBytes + f.length ∧
        (∃ e, cut.receivePacket.1 = .error e) ∧
        (cut.receivePacket.1 = .error .noDataAvailable ↔ cut.queue = []) ∧
        (cut.receivePacket.1 = .error .malformedPacket ↔
          cut.queue ≠ [] ∧ cut.queue.length < 1 + lengthBytes) ∧
        (cut.receivePacket.1 = .error .invalidParameter ↔
          1 + lengthBytes ≤ cut.queue.length ∧ cut.queue.length < whole.queue.length) := by
  intro whole cut
  have hqueue : whole.queue = Frame.written 0x90 [0, 7, 0x80] ++ [] := by
    simp [whole, Frame.written, groups_of_lt]
  have hreceive := receivePacket_of_ok (receive_written rfl (by decide) (by decide) hqueue)
  have hrefused : ServerPacket.ofFrame (.whole 0x90 [0, 7, 0x80]) = .error .serverRefused := rfl
  have htells : ServerPacket.Tells whole.receivePacket.1 := by
    rw [hreceive]
    exact .inr hrefused
  have hall : whole.receivePacket.2.queue = [] := by rw [hreceive]
  have hfront : cut.queue <+: whole.queue := ⟨[0x80], rfl⟩
  have hproper : cut.queue ≠ whole.queue := by decide
  exact ⟨⟨htells, hall, hfront, hproper⟩,
    receivePacket_truncated rfl rfl htells hall hfront hproper⟩

end MqttCodec.Channel
