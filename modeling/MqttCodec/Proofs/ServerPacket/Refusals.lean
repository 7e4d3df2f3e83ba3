/-
Acceptance and refusal as the two readings of one verdict. A client that is
told that it was refused asks again, for the refusal in the same frame, and
finds it (`Refusal.ofFrame_complements`): both questions read the verdict, so
one of them has an answer exactly if the other has not, and a frame without a
verdict fails both alike. What a refusal says stands in the frame
(`Refusal.StandsIn`), and every frame where a refusal stands is read as that
refusal.
-/
import MqttCodec.Proofs.ServerPacket.Grammar
import MqttCodec.Proofs.ServerPacket.Verdicts

namespace MqttCodec

/-! ## Where verdicts come from -/

namespace Verdict

/-- A frame fails before its data is looked at, or it says what the list has for its bytes. -/
theorem ofFrame_cases (f : Frame) :
    (ofFrame f = .error .invalidParameter ∨ ofFrame f = .error .malformedPacket) ∨
      ∃ k data, f.header = k.headerByte ∧ f.contents = .ok data ∧ Says k data (ofFrame f) := by
  cases hkind : f.kind? with
  | none => exact .inl (.inl (ofFrame_none hkind))
  | some k =>
    by_cases hanswers : k.answers
    case neg => exact .inl (.inl (ofFrame_foreign hkind (Bool.eq_false_iff.2 hanswers)))
    by_cases hlength : k.AdmitsLength f.length
    case neg => exact .inl (.inr (ofFrame_length hkind hanswers hlength))
    by_cases hall : f.length ≤ f.data.length
    case neg => exact .inl (.inl (ofFrame_short hkind hanswers hlength (Nat.not_le.1 hall)))
    exact .inr ⟨k, _, (PacketKind.ofHeader?_eq_some_iff hanswers).1 hkind,
      Frame.contents_eq_ok_iff.2 ⟨hall, rfl⟩, (ofFrame_eq_iff hkind hanswers hlength hall).1 rfl⟩

/-- That the server turns something down is a verdict and no failure to find one. -/
theorem ofFrame_ne_serverRefused (f : Frame) : ofFrame f ≠ .error .serverRefused := by
  intro h
  have hcases := ofFrame_cases f
  rw [h] at hcases
  obtain (hinvalid | hmalformed) | ⟨k, data, -, -, hsays⟩ := hcases
  · cases hinvalid
  · cases hmalformed
  · exact absurd hsays.error_eq (by decide)

end Verdict

/-! ## Frames with a refusal -/

namespace Refusal

/-- Where in a frame a refusal stands. The data behind the packet does not matter. -/
inductive StandsIn (f : Frame) : Refusal → Prop
  | connect {code : UInt8} {returnCode : ConnectReturnCode} :
      f.header = PacketKind.connAck.headerByte → f.contents = .ok [0, code] →
      1 ≤ code → code ≤ 5 → returnCode.toByte = code → StandsIn f (.connect returnCode)
  | subscribe {packetId : UInt16} {codes : Bytes} :
      f.header = PacketKind.subAck.headerByte →
      f.contents = .ok (Bytes.ofUInt16 packetId ++ codes) → packetId ≠ 0 →
      (∀ code ∈ codes, Verdict.IsReturnCode code) → Verdict.subscriptionFailure ∈ codes →
      StandsIn f (.subscribe packetId codes)

variable {f : Frame} {r : Refusal} {e : Error}

theorem standsIn_of_verdict (h : Verdict.ofFrame f = .ok (.refused r)) : r.StandsIn f := by
  have hcases := Verdict.ofFrame_cases f
  rw [h] at hcases
  obtain (hinvalid | hmalformed) | ⟨k, data, hheader, hcontents, hsays⟩ := hcases
  · cases hinvalid
  · cases hmalformed
  · cases hsays with
    | @connectionRefused code returnCode hpos hcode =>
      have hle : returnCode.toByte ≤ 5 := by cases returnCode <;> decide
      exact .connect hheader hcontents hpos (hcode ▸ hle) hcode
    | subscriptionRefused hid hcodes hfailure =>
      exact .subscribe hheader hcontents hid hcodes hfailure

theorem verdict_of_standsIn (h : r.StandsIn f) : Verdict.ofFrame f = .ok (.refused r) := by
  cases h with
  | connect hheader hcontents hpos _ hcode =>
    have hkind : f.kind? = some .connAck := (PacketKind.ofHeader?_eq_some_iff rfl).2 hheader
    have hlength : f.length = 2 := Frame.length_of_contents hcontents
    exact Verdict.ofFrame_of_said hkind hlength hcontents (.connectionRefused hpos hcode)
  | subscribe hheader hcontents hid hcodes hfailure =>
    have hkind : f.kind? = some .subAck := (PacketKind.ofHeader?_eq_some_iff rfl).2 hheader
    have hlength : 3 ≤ f.length := by
      have hpos := List.length_pos_of_mem hfailure
      rw [Frame.length_of_contents hcontents, List.length_append, Bytes.length_ofUInt16]
      omega
    exact Verdict.ofFrame_of_said hkind hlength hcontents (.subscriptionRefused hid hcodes hfailure)

/-! ## The question for a refusal -/

theorem ofFrame_of_error (h : Verdict.ofFrame f = .error e) : ofFrame f = .error e := by
  rw [ofFrame, h]
  rfl

theorem ofFrame_of_accepted {a : Acknowledgement} (h : Verdict.ofFrame f = .ok (.accepted a)) :
    ofFrame f = .error .invalidParameter := by
  rw [ofFrame, h]
  rfl

theorem ofFrame_of_refused (h : Verdict.ofFrame f = .ok (.refused r)) : ofFrame f = .ok r := by
  rw [ofFrame, h]
  rfl

theorem ofFrame_eq_ok_iff : ofFrame f = .ok r ↔ Verdict.ofFrame f = .ok (.refused r) := by
  rcases hverdict : Verdict.ofFrame f with e | a | r'
  · simp [ofFrame_of_error hverdict]
  · simp [ofFrame_of_accepted hverdict]
  · simp [ofFrame_of_refused hverdict]

end Refusal

/-! ## Both questions -/

/-- A message turns nothing down. -/
theorem Publication.ofFrame_ne_serverRefused (f : Frame) : ofFrame f ≠ .error .serverRefused := by
  intro h
  by_cases hwrong : f.header.toNat / 16 ≠ 3 ∨ f.data.length < f.length
  · rw [ofFrame_eq_invalidParameter_iff.2 hwrong] at h
    cases h
  · rw [not_or, not_not, Nat.not_lt] at hwrong
    exact absurd (ofFrame_failsOnlyWith hwrong.1 hwrong.2 _ h) (by decide)

theorem Acknowledgement.ofFrame_eq_serverRefused_iff {f : Frame} :
    ofFrame f = .error .serverRefused ↔ ∃ r, Verdict.ofFrame f = .ok (.refused r) := by
  simp only [ofFrame_eq_error_iff, Verdict.ofFrame_ne_serverRefused, false_or, true_and]

namespace ServerPacket

variable {f : Frame}

/-- Whatever is not a message is taken for an acknowledgement. -/
theorem ofFrame_of_ne_publish (h : f.kind? ≠ some .publish) :
    ofFrame f = (Acknowledgement.ofFrame f).map .acknowledgement := by
  unfold ofFrame
  split
  · rename_i hkind
    exact absurd hkind h
  · rfl
  · rename_i hkind
    rw [Acknowledgement.ofFrame_of_error (Verdict.ofFrame_none hkind)]
    rfl

theorem ofFrame_publish_ne_serverRefused (h : f.kind? = some .publish) :
    ofFrame f ≠ .error .serverRefused := by
  rw [ofFrame, h]
  have hnot := Publication.ofFrame_ne_serverRefused f
  cases hp : Publication.ofFrame f with
  | error e =>
    rw [hp] at hnot
    simpa [Except.map] using hnot
  | ok p =>
    intro hrefused
    cases hrefused

/-- Whether a server turned something down does not depend on how the packet is read. -/
theorem ofFrame_eq_serverRefused_iff :
    ofFrame f = .error .serverRefused ↔ Acknowledgement.ofFrame f = .error .serverRefused := by
  by_cases hkind : f.kind? = some .publish
  · have hforeign := Acknowledgement.ofFrame_of_error (Verdict.ofFrame_foreign hkind rfl)
    simp [hforeign, ofFrame_publish_ne_serverRefused hkind]
  · rw [ofFrame_of_ne_publish hkind]
    cases Acknowledgement.ofFrame f with
    | error e => simp [Except.map]
    | ok a => exact ⟨nofun, nofun⟩

end ServerPacket

namespace Refusal

/-- **A refusal is found exactly where an acknowledgement is refused.** What is acknowledged is no
refusal, and a frame without a verdict fails both questions alike. The refusal that is found is the
one that stands in the frame, and only a refused subscription has an identifier. A frame that is no
message is read as an acknowledgement, and a message is never turned down. -/
theorem ofFrame_complements (f : Frame) :
    ((∃ r, ofFrame f = .ok r) ↔ Acknowledgement.ofFrame f = .error .serverRefused) ∧
    (Acknowledgement.ofFrame f = .error .serverRefused ↔
      ServerPacket.ofFrame f = .error .serverRefused) ∧
    (∀ a, Acknowledgement.ofFrame f = .ok a → ofFrame f = .error .invalidParameter) ∧
    (∀ e, Acknowledgement.ofFrame f = .error e → e ≠ .serverRefused → ofFrame f = .error e) ∧
    (∀ r, ofFrame f = .ok r ↔ r.StandsIn f) ∧
    (∀ r, ofFrame f = .ok r →
      (r.packetId? = none ↔ f.header = PacketKind.connAck.headerByte)) ∧
    (f.kind? ≠ some .publish →
      ServerPacket.ofFrame f = (Acknowledgement.ofFrame f).map .acknowledgement) ∧
    (f.kind? = some .publish → ServerPacket.ofFrame f ≠ .error .serverRefused) := by
  have hstands (r : Refusal) : ofFrame f = .ok r ↔ r.StandsIn f :=
    ofFrame_eq_ok_iff.trans ⟨standsIn_of_verdict, verdict_of_standsIn⟩
  refine ⟨?_, ServerPacket.ofFrame_eq_serverRefused_iff.symm, ?_, ?_, hstands, ?_,
    ServerPacket.ofFrame_of_ne_publish, ServerPacket.ofFrame_publish_ne_serverRefused⟩
  · simp only [ofFrame_eq_ok_iff, Acknowledgement.ofFrame_eq_serverRefused_iff]
  · intro a ha
    exact ofFrame_of_accepted (Acknowledgement.ofFrame_eq_ok_iff.1 ha)
  · intro e he hne
    obtain herror | ⟨hrefused, -⟩ := Acknowledgement.ofFrame_eq_error_iff.1 he
    · exact ofFrame_of_error herror
    · exact absurd hrefused hne
  · intro r hr
    cases (hstands r).1 hr with
    | connect hheader => exact ⟨fun _ => hheader, fun _ => rfl⟩
    | subscribe hheader =>
      rw [hheader]
      exact ⟨nofun, fun h => absurd h (by decide)⟩

/-- Three answers to one request: granted, malformed, and refused in part. -/
theorem ofFrame_complements_subAck :
    let answer (codes : Bytes) : Frame :=
      { header := 0x90, length := 2 + codes.length, data := 0 :: 7 :: (codes ++ [0xFF]) }
    ofFrame (answer [1, 2]) = .error .invalidParameter ∧
    ofFrame (answer [1, 3]) = .error .malformedPacket ∧
    ServerPacket.ofFrame (answer [1, 0x80, 2]) = .error .serverRefused ∧
    ofFrame (answer [1, 0x80, 2]) = .ok (.subscribe 7 [1, 0x80, 2]) := by
  intro answer
  have hgranted : Acknowledgement.ofFrame (answer [1, 2]) = .ok (.subAck 7 [1, 2]) := by cbv
  have hmalformed : Acknowledgement.ofFrame (answer [1, 3]) = .error .malformedPacket := by cbv
  obtain ⟨hiff, hsame, -, -, hstands, -⟩ := ofFrame_complements (answer [1, 0x80, 2])
  have hrefused : ofFrame (answer [1, 0x80, 2]) = .ok (.subscribe 7 [1, 0x80, 2]) := by
    refine (hstands _).2 (.subscribe rfl rfl (by decide) ?_ (by decide))
    simp [Verdict.IsReturnCode, Verdict.subscriptionFailure]
  exact ⟨(ofFrame_complements _).2.2.1 _ hgranted,
    (ofFrame_complements _).2.2.2.1 _ hmalformed (by decide), hsame.1 (hiff.1 ⟨_, hrefused⟩), hrefused⟩

end Refusal

end MqttCodec
