/-
What a receiver asks of a frame before it looks at the data. A packet that
answers a client must have a length that its kind admits, even if no data has
come in, and only then must all of its data be there (`Verdict.ofFrame_length`,
`Verdict.ofFrame_short`). Hence a frame whose data breaks off is never
answered by anything but the caller's own mistake, if the packet would
have said something with all of its data (`ServerPacket.ofFrame_short`).
-/
import MqttCodec.Proofs.ServerPacket.Decoding

namespace MqttCodec

theorem Frame.contents_short {f : Frame} (h : f.data.length < f.length) :
    f.contents = .error .invalidParameter := if_neg (Nat.not_le.2 h)

theorem Publication.ofFrame_short {f : Frame} (h : f.data.length < f.length) :
    ofFrame f = .error .invalidParameter := by
  rw [ofFrame, require_bind, Frame.contents_short h]
  split <;> rfl

/-! ## Answers -/

/-- The kinds by which a server answers a client. -/
def PacketKind.answers : PacketKind → Bool
  | connAck | subAck | unsubAck | pubAck | pubRec | pubRel | pubComp | pingResp => true
  | connect | publish | subscribe | unsubscribe | pingReq | disconnect => false

/-- The lengths that an answer of a kind may have: that of its two bytes, of nothing, or of an
identifier and at least one return code. -/
def PacketKind.AdmitsLength (k : PacketKind) (n : Nat) : Prop :=
  match k with
  | subAck => 3 ≤ n
  | pingResp => n = 0
  | _ => n = 2

namespace Verdict

variable {f : Frame} {k : PacketKind}

theorem ofFrame_foreign (hkind : f.kind? = some k) (hforeign : k.answers = false) :
    ofFrame f = .error .invalidParameter := by
  rw [ofFrame, hkind]
  cases k with
  | connect | publish | subscribe | unsubscribe | pingReq | disconnect => rfl
  | connAck | subAck | unsubAck | pubAck | pubRec | pubRel | pubComp | pingResp => cases hforeign

theorem packetIdOfFrame_length (h : f.length ≠ 2) : packetIdOfFrame f = .error .malformedPacket := by
  rw [packetIdOfFrame, require_bind, if_neg h]

theorem packetIdOfFrame_short (hlength : f.length = 2) (h : f.data.length < f.length) :
    packetIdOfFrame f = .error .invalidParameter := by
  rw [packetIdOfFrame, require_bind, if_pos hlength, Frame.contents_short h]
  rfl

/-- The length of an answer is looked at first. -/
theorem ofFrame_length (hkind : f.kind? = some k) (hanswers : k.answers)
    (h : ¬ k.AdmitsLength f.length) : ofFrame f = .error .malformedPacket := by
  rw [ofFrame, hkind]
  cases k with
  | connAck => simp only [ofConnAck, require_bind, if_neg (show ¬ f.length = 2 from h)]
  | subAck => simp only [ofSubAck, require_bind, if_neg (show ¬ 3 ≤ f.length from h)]
  | unsubAck | pubAck | pubRec | pubRel | pubComp =>
    simp only [AckKind.ofKind?, packetIdOfFrame_length h]
    rfl
  | pingResp => simp only [require, if_neg (show ¬ f.length = 0 from h)]; rfl
  | connect | publish | subscribe | unsubscribe | pingReq | disconnect => cases hanswers

/-- Then its data must be there. -/
theorem ofFrame_short (hkind : f.kind? = some k) (hanswers : k.answers)
    (hlength : k.AdmitsLength f.length) (h : f.data.length < f.length) :
    ofFrame f = .error .invalidParameter := by
  rw [ofFrame, hkind]
  cases k with
  | connAck =>
    simp only [ofConnAck, require_bind, if_pos (show f.length = 2 from hlength), Frame.contents_short h]
    rfl
  | subAck =>
    simp only [ofSubAck, require_bind, if_pos (show 3 ≤ f.length from hlength), Frame.contents_short h]
    rfl
  | unsubAck | pubAck | pubRec | pubRel | pubComp =>
    simp only [AckKind.ofKind?, packetIdOfFrame_short hlength h]
    rfl
  | pingResp => exact absurd (show f.length = 0 from hlength) (Nat.ne_zero_of_lt h)
  | connect | publish | subscribe | unsubscribe | pingReq | disconnect => cases hanswers

end Verdict

/-! ## Packets -/

namespace ServerPacket

theorem ofFrame_of_verdict_error {f : Frame} {k : PacketKind} {e : Error} (hkind : f.kind? = some k)
    (hk : k ≠ .publish) (h : Verdict.ofFrame f = .error e) : ofFrame f = .error e := by
  have hack : Acknowledgement.ofFrame f = .error e := Acknowledgement.ofFrame_of_error h
  rw [ofFrame, hkind]
  cases k with
  | publish => exact absurd rfl hk
  | _ => exact congrArg (Except.map acknowledgement) hack

/-- Whether a receiver learns something from a packet, be it that the server turns down what it was
asked for. -/
def Tells (answer : Except Error ServerPacket) : Prop :=
  (∃ p, answer = .ok p) ∨ answer = .error .serverRefused

theorem Tells.ne {answer : Except Error ServerPacket} (h : Tells answer) {e : Error}
    (he : e ≠ .serverRefused) : answer ≠ .error e := by
  rintro rfl
  rcases h with ⟨p, hp⟩ | hrefused
  · cases hp
  · exact he (Except.error.inj hrefused)

/-- **Data that breaks off tells nothing.** -/
theorem ofFrame_short {f cut : Frame} (htells : Tells (ofFrame f)) (hheader : cut.header = f.header)
    (hlength : cut.length = f.length) (hshort : cut.data.length < cut.length) :
    ofFrame cut = .error .invalidParameter := by
  have hsame : cut.kind? = f.kind? := congrArg PacketKind.ofHeader? hheader
  rcases hkind : f.kind? with _ | k
  · rw [ofFrame, hsame, hkind]
  · have hcut : cut.kind? = some k := hsame.trans hkind
    by_cases hpublish : k = .publish
    · subst hpublish
      rw [ofFrame, hcut]
      exact congrArg (Except.map publication) (Publication.ofFrame_short hshort)
    · by_cases hanswers : k.answers
      case neg =>
        exact ofFrame_of_verdict_error hcut hpublish
          (Verdict.ofFrame_foreign hcut (Bool.eq_false_iff.2 hanswers))
      have hadmits : k.AdmitsLength f.length := by
        apply Classical.byContradiction
        intro hnot
        exact htells.ne (by decide)
          (ofFrame_of_verdict_error hkind hpublish (Verdict.ofFrame_length hkind hanswers hnot))
      exact ofFrame_of_verdict_error hcut hpublish
        (Verdict.ofFrame_short hcut hanswers (hlength ▸ hadmits) hshort)

/-- Nothing is told before all of the data is there. -/
theorem length_le_of_tells {f : Frame} (h : Tells (ofFrame f)) : f.length ≤ f.data.length := by
  apply Nat.not_lt.1
  intro hshort
  exact h.ne (by decide) (ofFrame_short h rfl rfl hshort)

end ServerPacket

end MqttCodec
