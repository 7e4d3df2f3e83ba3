/-
What the answers of a server say, by their bytes. `Verdict.Says` lists it, kind
by kind: what is granted, what is refused, and what is malformed. The list
leaves nothing out (`Verdict.exists_said`) and the reader follows it
(`Verdict.ofFrame_of_said`), so a frame whose length its kind admits and whose
data is there says what the list has for its bytes, and nothing else
(`Verdict.ofFrame_eq_iff`). `Acknowledgement.ofFrame_classification` puts the
checks that come first before it.
-/
import MqttCodec.Proofs.ServerPacket.Canonical
import MqttCodec.Proofs.ServerPacket.Lengths

namespace MqttCodec

/-! ## Bytes of an answer -/

/-- Each answer has one first byte. -/
theorem PacketKind.ofHeader?_eq_some_iff {k : PacketKind} (hanswers : k.answers) {header : UInt8} :
    ofHeader? header = some k ↔ header = k.headerByte := by
  have hnot : k ≠ .publish := by
    intro h
    subst h
    cases hanswers
  constructor
  · intro h
    exact (headerByte_of_ofHeader? h hnot).symm
  · intro h
    rw [h, ofHeader?_headerByte]

namespace ConnectReturnCode

theorem ofByte?_eq_none_iff {b : UInt8} : ofByte? b = none ↔ 5 < b := by
  simp only [ofByte?, all, List.find?_eq_none, List.forall_mem_cons, List.not_mem_nil,
    IsEmpty.forall_iff, implies_true, and_true, toByte, decide_eq_true_eq, ← UInt8.toNat_inj,
    UInt8.lt_iff_toNat_lt, UInt8.reduceToNat]
  omega

theorem exists_toByte_eq {b : UInt8} (h : b ≤ 5) : ∃ c : ConnectReturnCode, c.toByte = b := by
  cases hbyte : ofByte? b with
  | none => exact absurd h (UInt8.not_le.2 (ofByte?_eq_none_iff.1 hbyte))
  | some c => exact ⟨c, toByte_of_ofByte? hbyte⟩

end ConnectReturnCode

namespace Verdict

/-- A return code of a SUBACK is a guarantee or a failure. -/
def IsReturnCode (code : UInt8) : Prop := code ∈ [0, 1, 2, subscriptionFailure]

instance (code : UInt8) : Decidable (IsReturnCode code) := inferInstanceAs (Decidable (_ ∈ _))

theorem isReturnCode_iff {code : UInt8} :
    IsReturnCode code ↔ code ≤ 2 ∨ code = subscriptionFailure := by
  simp only [IsReturnCode, subscriptionFailure, List.mem_cons, List.not_mem_nil, or_false,
    ← UInt8.toNat_inj, UInt8.le_iff_toNat_le, UInt8.reduceToNat]
  omega

/-- All bits but the lowest are reserved. -/
theorem flags_and_eq_zero_iff {flags : UInt8} : flags &&& 0xFE = 0 ↔ flags ≤ 1 := by
  have hbits : ∀ n < 256, n &&& 0xFE = 0 ↔ n ≤ 1 := by decide +kernel
  rw [← UInt8.toNat_inj, UInt8.le_iff_toNat_le, UInt8.toNat_and]
  exact hbits flags.toNat flags.toNat_lt

/-! ## What the bytes say -/

/-- What the bytes of an answer say, by its kind. -/
inductive Says : PacketKind → Bytes → Except Error Verdict → Prop
  | connected {flags} : flags ≤ 1 →
      Says .connAck [flags, 0] (.ok (.accepted (.connAck (flags = 1))))
  | connectionRefused {code} {returnCode : ConnectReturnCode} : 1 ≤ code →
      returnCode.toByte = code → Says .connAck [0, code] (.ok (.refused (.connect returnCode)))
  | malformedConnAck {flags code} : ¬ (flags ≤ 1 ∧ code = 0) →
      ¬ (flags = 0 ∧ 1 ≤ code ∧ code ≤ 5) → Says .connAck [flags, code] (.error .malformedPacket)
  | subscribed {packetId codes} : packetId ≠ 0 → (∀ code ∈ codes, code ∈ [0, 1, 2]) →
      Says .subAck (Bytes.ofUInt16 packetId ++ codes) (.ok (.accepted (.subAck packetId codes)))
  | subscriptionRefused {packetId codes} : packetId ≠ 0 → (∀ code ∈ codes, IsReturnCode code) →
      subscriptionFailure ∈ codes →
      Says .subAck (Bytes.ofUInt16 packetId ++ codes) (.ok (.refused (.subscribe packetId codes)))
  | malformedSubAck {packetId codes} : packetId = 0 ∨ (∃ code ∈ codes, ¬ IsReturnCode code) →
      Says .subAck (Bytes.ofUInt16 packetId ++ codes) (.error .malformedPacket)
  | unsubscribed {packetId} : packetId ≠ 0 →
      Says .unsubAck (Bytes.ofUInt16 packetId) (.ok (.accepted (.unsubAck packetId)))
  | acknowledged {ackKind : AckKind} {packetId} : packetId ≠ 0 →
      Says ackKind.kind (Bytes.ofUInt16 packetId) (.ok (.accepted (.publishAck ackKind packetId)))
  | unidentified {k} : k ∈ [PacketKind.unsubAck, .pubAck, .pubRec, .pubRel, .pubComp] →
      Says k (Bytes.ofUInt16 0) (.error .malformedPacket)
  | alive : Says .pingResp [] (.ok (.accepted .pingResp))

theorem Says.error_eq {k : PacketKind} {data : Bytes} {e : Error} (h : Says k data (.error e)) :
    e = .malformedPacket := by
  cases h <;> rfl

variable {k : PacketKind} {data : Bytes} {result : Except Error Verdict}

theorem exists_said_connAck (flags code : UInt8) : ∃ result, Says .connAck [flags, code] result := by
  by_cases hzero : code = 0
  · subst hzero
    by_cases hflags : flags ≤ 1
    · exact ⟨_, .connected hflags⟩
    · exact ⟨_, .malformedConnAck (fun h => hflags h.1) (fun h => absurd h.2.1 (by decide))⟩
  · by_cases hrefused : flags = 0 ∧ 1 ≤ code ∧ code ≤ 5
    · obtain ⟨rfl, hpos, hle⟩ := hrefused
      obtain ⟨returnCode, hcode⟩ := ConnectReturnCode.exists_toByte_eq hle
      exact ⟨_, .connectionRefused hpos hcode⟩
    · exact ⟨_, .malformedConnAck (fun h => hzero h.2) hrefused⟩

theorem exists_said_subAck (packetId : UInt16) (codes : Bytes) :
    ∃ result, Says .subAck (Bytes.ofUInt16 packetId ++ codes) result := by
  by_cases hid : packetId = 0
  · exact ⟨_, .malformedSubAck (.inl hid)⟩
  by_cases hcodes : ∀ code ∈ codes, IsReturnCode code
  · by_cases hfailure : subscriptionFailure ∈ codes
    · exact ⟨_, .subscriptionRefused hid hcodes hfailure⟩
    · refine ⟨_, .subscribed hid fun code hcode => ?_⟩
      have hne : code ≠ subscriptionFailure := fun h => hfailure (h ▸ hcode)
      simpa [IsReturnCode, hne] using hcodes code hcode
  · simp only [not_forall] at hcodes
    obtain ⟨code, hcode, hnot⟩ := hcodes
    exact ⟨_, .malformedSubAck (.inr ⟨code, hcode, hnot⟩)⟩

theorem exists_said_packetId {grant : UInt16 → Acknowledgement}
    (hk : k ∈ [PacketKind.unsubAck, .pubAck, .pubRec, .pubRel, .pubComp])
    (hgrant : ∀ packetId, packetId ≠ 0 →
      Says k (Bytes.ofUInt16 packetId) (.ok (.accepted (grant packetId))))
    (hlength : data.length = 2) : ∃ result, Says k data result := by
  obtain ⟨packetId, rfl⟩ := Bytes.exists_ofUInt16 hlength
  by_cases hid : packetId = 0
  · subst hid
    exact ⟨_, .unidentified hk⟩
  · exact ⟨_, hgrant packetId hid⟩

theorem exists_said_ack (ackKind : AckKind) (hlength : data.length = 2) :
    ∃ result, Says ackKind.kind data result :=
  exists_said_packetId (by cases ackKind <;> decide) (fun _ hid => .acknowledged hid) hlength

/-- The list leaves nothing out. -/
theorem exists_said (hanswers : k.answers) (hlength : k.AdmitsLength data.length) :
    ∃ result, Says k data result := by
  cases k with
  | connAck =>
    have htwo : data.length = 2 := hlength
    match data, htwo with
    | [flags, code], _ => exact exists_said_connAck flags code
  | subAck =>
    obtain ⟨packetId, codes, rfl⟩ := Bytes.exists_ofUInt16_append (Nat.le_of_succ_le hlength)
    exact exists_said_subAck packetId codes
  | unsubAck =>
    exact exists_said_packetId (by decide) (fun _ hid => .unsubscribed hid) hlength
  | pubAck => exact exists_said_ack .pubAck hlength
  | pubRec => exact exists_said_ack .pubRec hlength
  | pubRel => exact exists_said_ack .pubRel hlength
  | pubComp => exact exists_said_ack .pubComp hlength
  | pingResp =>
    obtain rfl := List.length_eq_zero_iff.1 hlength
    exact ⟨_, .alive⟩
  | connect | publish | subscribe | unsubscribe | pingReq | disconnect => cases hanswers

/-! ## What the reader makes of them -/

variable {f : Frame}

theorem ofConnAck_eq {flags code : UInt8} (hlength : f.length = 2)
    (hcontents : f.contents = .ok [flags, code]) :
    ofConnAck f =
      if flags ≤ 1 then
        match ConnectReturnCode.ofByte? code with
        | some .accepted => .ok (.accepted (.connAck (flags = 1)))
        | some returnCode =>
          if flags = 0 then .ok (.refused (.connect returnCode)) else .error .malformedPacket
        | none => .error .malformedPacket
      else .error .malformedPacket := by
  rw [ofConnAck, require_bind, if_pos hlength, hcontents, ok_bind]
  simp only [require_bind, flags_and_eq_zero_iff]
  by_cases hflags : flags ≤ 1
  · have hbit : flags = 0 ∨ flags = 1 := by
      simp only [← UInt8.toNat_inj, UInt8.le_iff_toNat_le, UInt8.reduceToNat] at hflags ⊢
      omega
    simp only [if_pos hflags]
    obtain rfl | rfl := hbit
    · cases ConnectReturnCode.ofByte? code with
      | none => rfl
      | some returnCode => cases returnCode <;> rfl
    · cases ConnectReturnCode.ofByte? code with
      | none => rfl
      | some returnCode => cases returnCode <;> rfl
  · rw [if_neg hflags, if_neg hflags]

theorem ofConnAck_malformed {flags code : UInt8} (hlength : f.length = 2)
    (hcontents : f.contents = .ok [flags, code]) (hgranted : ¬ (flags ≤ 1 ∧ code = 0))
    (hrefused : ¬ (flags = 0 ∧ 1 ≤ code ∧ code ≤ 5)) : ofConnAck f = .error .malformedPacket := by
  rw [ofConnAck_eq hlength hcontents]
  by_cases hflags : flags ≤ 1
  · rw [if_pos hflags]
    cases hcode : ConnectReturnCode.ofByte? code with
    | none => rfl
    | some returnCode =>
      -- only these codes grant or refuse, and what they would do has been excluded
      obtain rfl := ConnectReturnCode.toByte_of_ofByte? hcode
      cases returnCode <;> simp_all [ConnectReturnCode.toByte]
  · rw [if_neg hflags]

theorem ofSubAck_eq {packetId : UInt16} {codes : Bytes} (hlength : 3 ≤ f.length)
    (hcontents : f.contents = .ok (Bytes.ofUInt16 packetId ++ codes)) :
    ofSubAck f =
      if packetId ≠ 0 ∧ codes.all (IsReturnCode ·) then
        if subscriptionFailure ∈ codes then .ok (.refused (.subscribe packetId codes))
        else .ok (.accepted (.subAck packetId codes))
      else .error .malformedPacket := by
  rw [ofSubAck, require_bind, if_pos hlength, hcontents, ok_bind]
  by_cases hid : packetId = 0
  · rw [Bytes.takePacketId, Bytes.takeUInt16_ofUInt16, ok_bind]
    simp [require_bind, hid]
  · rw [Bytes.takePacketId_ofUInt16 hid, ok_bind]
    simp only [require_bind, ← isReturnCode_iff, ne_eq, hid, not_false_eq_true, true_and]
    rfl

/-- The reader follows the list. -/
theorem ofFrame_of_said (hkind : f.kind? = some k) (hlength : k.AdmitsLength f.length)
    (hcontents : f.contents = .ok data) (hsaid : Says k data result) : ofFrame f = result := by
  rw [ofFrame, hkind]
  cases hsaid with
  | connected hflags =>
    exact (ofConnAck_eq hlength hcontents).trans (if_pos hflags)
  | @connectionRefused code returnCode hpos hcode =>
    obtain rfl := hcode
    refine (ofConnAck_eq hlength hcontents).trans ?_
    rw [ConnectReturnCode.ofByte?_toByte]
    cases returnCode with
    | accepted => exact absurd hpos (by decide)
    | _ => rfl
  | malformedConnAck hgranted hrefused =>
    exact ofConnAck_malformed hlength hcontents hgranted hrefused
  | subscribed hid hcodes =>
    have hall : ∀ code ∈ _, IsReturnCode code :=
      fun code hcode => List.mem_append_left [subscriptionFailure] (hcodes code hcode)
    have hnone : subscriptionFailure ∉ _ := fun hfailure => absurd (hcodes _ hfailure) (by decide)
    exact (ofSubAck_eq hlength hcontents).trans
      ((if_pos ⟨hid, by simpa using hall⟩).trans (if_neg hnone))
  | subscriptionRefused hid hcodes hfailure =>
    exact (ofSubAck_eq hlength hcontents).trans
      ((if_pos ⟨hid, by simpa using hcodes⟩).trans (if_pos hfailure))
  | malformedSubAck hnot =>
    refine (ofSubAck_eq hlength hcontents).trans (if_neg fun h => ?_)
    obtain hid | ⟨code, hcode, hno⟩ := hnot
    · exact h.1 hid
    · exact hno (by simpa using List.all_eq_true.1 h.2 code hcode)
  | unsubscribed hid =>
    simp only [packetIdOfFrame_eq hlength hcontents, if_neg hid]
    rfl
  | @acknowledged ackKind packetId hid =>
    cases ackKind <;>
    · simp only [AckKind.kind, AckKind.ofKind?, packetIdOfFrame_eq hlength hcontents, if_neg hid]
      rfl
  | unidentified hk =>
    simp only [List.mem_cons, List.not_mem_nil, or_false] at hk
    obtain rfl | rfl | rfl | rfl | rfl := hk <;>
    · simp only [AckKind.ofKind?, packetIdOfFrame_eq hlength hcontents]
      rfl
  | alive => simp only [require_of (show f.length = 0 from hlength)]; rfl

theorem exists_said_contents (hanswers : k.answers) (hlength : k.AdmitsLength f.length)
    (hall : f.length ≤ f.data.length) : ∃ result, Says k (f.data.take f.length) result := by
  apply exists_said hanswers
  rw [List.length_take, Nat.min_eq_left hall]
  exact hlength

/-- A frame with all of its data says what the list has for its bytes. -/
theorem ofFrame_eq_iff (hkind : f.kind? = some k) (hanswers : k.answers)
    (hlength : k.AdmitsLength f.length) (hall : f.length ≤ f.data.length) :
    ofFrame f = result ↔ Says k (f.data.take f.length) result := by
  have hcontents : f.contents = .ok (f.data.take f.length) := if_pos hall
  constructor
  · intro h
    obtain ⟨said, hsaid⟩ := exists_said_contents hanswers hlength hall
    rw [← h, ofFrame_of_said hkind hlength hcontents hsaid]
    exact hsaid
  · exact ofFrame_of_said hkind hlength hcontents

theorem ofFrame_none (h : f.kind? = none) : ofFrame f = .error .invalidParameter := by
  rw [ofFrame, h]

/-- A first byte that no answer begins with. -/
theorem ofFrame_of_ne (h : ∀ k : PacketKind, k.answers → f.header ≠ k.headerByte) :
    ofFrame f = .error .invalidParameter := by
  cases hkind : f.kind? with
  | none => exact ofFrame_none hkind
  | some k =>
    by_cases hanswers : k.answers
    · exact absurd ((PacketKind.ofHeader?_eq_some_iff hanswers).1 hkind) (h k hanswers)
    · exact ofFrame_foreign hkind (Bool.eq_false_iff.2 hanswers)

end Verdict

/-! ## Acknowledgements -/

namespace Acknowledgement

variable {f : Frame}

/-- Whether an answer grants what was asked for, and why not, does not depend on the order in which
its return codes come. -/
theorem ofFrame_perm {g : Frame} {packetId : UInt16} {codes codes' : Bytes}
    (hf : f.kind? = some .subAck) (hg : g.kind? = some .subAck) (hperm : codes.Perm codes')
    (hcontents : f.contents = .ok (Bytes.ofUInt16 packetId ++ codes))
    (hcontents' : g.contents = .ok (Bytes.ofUInt16 packetId ++ codes')) :
    (ofFrame g).map (fun _ => ()) = (ofFrame f).map fun _ => () := by
  have hsame : g.length = f.length := by
    rw [Frame.length_of_contents hcontents, Frame.length_of_contents hcontents',
      List.length_append, List.length_append, hperm.length_eq]
  by_cases hlength : 3 ≤ f.length
  · simp only [ofFrame, Verdict.ofFrame, hf, hg, Verdict.ofSubAck_eq hlength hcontents,
      Verdict.ofSubAck_eq (hsame ▸ hlength) hcontents', hperm.mem_iff, hperm.all_eq]
    split
    · split <;> rfl
    · rfl
  · rw [ofFrame_of_error (Verdict.ofFrame_length hf rfl hlength),
      ofFrame_of_error (Verdict.ofFrame_length hg rfl (hsame ▸ hlength))]

/-- **What a client is told by an answer.** A frame of any other kind is the caller's mistake. The
length of an answer is looked at next, then whether its data is there; after that the bytes up to
the length decide alone, and the order of the return codes in a SUBACK does not matter. -/
theorem ofFrame_classification (f : Frame) :
    ((∀ k : PacketKind, k.answers → f.header ≠ k.headerByte) →
      ofFrame f = .error .invalidParameter) ∧
    (∀ k : PacketKind, k.answers → f.header = k.headerByte →
      (¬ k.AdmitsLength f.length → ofFrame f = .error .malformedPacket) ∧
      (k.AdmitsLength f.length → f.data.length < f.length → ofFrame f = .error .invalidParameter) ∧
      (k.AdmitsLength f.length → f.length ≤ f.data.length →
        (∀ a, ofFrame f = .ok a ↔ Verdict.Says k (f.data.take f.length) (.ok (.accepted a))) ∧
        (ofFrame f = .error .serverRefused ↔
          ∃ r, Verdict.Says k (f.data.take f.length) (.ok (.refused r))) ∧
        (ofFrame f = .error .malformedPacket ↔
          Verdict.Says k (f.data.take f.length) (.error .malformedPacket)) ∧
        ((∃ a, ofFrame f = .ok a) ∨ ofFrame f = .error .serverRefused ∨
          ofFrame f = .error .malformedPacket))) ∧
    ∀ (g : Frame) (packetId : UInt16) (codes codes' : Bytes), codes.Perm codes' →
      f.header = PacketKind.subAck.headerByte → g.header = f.header →
      f.contents = .ok (Bytes.ofUInt16 packetId ++ codes) →
      g.contents = .ok (Bytes.ofUInt16 packetId ++ codes') →
      (ofFrame g).map (fun _ => ()) = (ofFrame f).map fun _ => () := by
  refine ⟨fun h => ofFrame_of_error (Verdict.ofFrame_of_ne h), fun k hanswers hheader => ?_, ?_⟩
  · have hkind : f.kind? = some k := (PacketKind.ofHeader?_eq_some_iff hanswers).2 hheader
    refine ⟨?_, ?_, ?_⟩
    · intro h
      exact ofFrame_of_error (Verdict.ofFrame_length hkind hanswers h)
    · intro hlength hshort
      exact ofFrame_of_error (Verdict.ofFrame_short hkind hanswers hlength hshort)
    · intro hlength hall
      have hreads {said : Except Error Verdict} :
          Verdict.ofFrame f = said ↔ Verdict.Says k (f.data.take f.length) said :=
        Verdict.ofFrame_eq_iff hkind hanswers hlength hall
      have hno : ¬ Verdict.Says k (f.data.take f.length) (.error .serverRefused) :=
        fun h => absurd h.error_eq (by decide)
      refine ⟨fun a => ?_, ?_, ?_, ?_⟩
      · rw [ofFrame_eq_ok_iff, hreads]
      · simp only [ofFrame_eq_error_iff, hreads, hno, false_or, true_and]
      · simp only [ofFrame_eq_error_iff, hreads, reduceCtorEq, false_and, or_false]
      · obtain ⟨said, hsaid⟩ := Verdict.exists_said_contents hanswers hlength hall
        cases said with
        | error e =>
          obtain rfl := hsaid.error_eq
          exact .inr (.inr (ofFrame_of_error (hreads.2 hsaid)))
        | ok v =>
          cases v with
          | accepted a => exact .inl ⟨a, ofFrame_of_accepted (hreads.2 hsaid)⟩
          | refused r => exact .inr (.inl (ofFrame_of_refused (hreads.2 hsaid)))
  · intro g packetId codes codes' hperm hheader hsame hcontents hcontents'
    have hf : f.kind? = some .subAck := (PacketKind.ofHeader?_eq_some_iff rfl).2 hheader
    have hg : g.kind? = some .subAck := (PacketKind.ofHeader?_eq_some_iff rfl).2 (hsame.trans hheader)
    exact ofFrame_perm hf hg hperm hcontents hcontents'

/-- A SUBACK that grants some subscriptions only, with a byte after it. -/
theorem ofFrame_classification_partly :
    ofFrame { header := 0x90, length := 5, data := [0, 7, 1, 0x80, 2, 0xFF] } =
      .error .serverRefused := by
  have hread := (ofFrame_classification
    { header := 0x90, length := 5, data := [0, 7, 1, 0x80, 2, 0xFF] }).2.1 .subAck rfl rfl
  have hcodes : ∀ code ∈ [1, Verdict.subscriptionFailure, 2], Verdict.IsReturnCode code := by
    simp [Verdict.IsReturnCode]
  have hrefused : Verdict.Says .subAck (Bytes.ofUInt16 7 ++ [1, 0x80, 2])
      (.ok (.refused (.subscribe 7 [1, 0x80, 2]))) :=
    .subscriptionRefused (by decide) hcodes (by decide)
  have hlength : 3 ≤ 5 := by decide
  exact (hread.2.2 hlength (by decide)).2.1.2 ⟨_, hrefused⟩

end Acknowledgement

end MqttCodec
