/-
Settings that break off. An object ends with its brace, so a text that is
loaded holds all of its settings: more text after it must be blank, and less
text is no settings at all (`Settings.load_append`).
-/
import Mathlib
import MqttCodec.Proofs.Json.Stability
import MqttCodec.Proofs.Settings.Loading

namespace MqttCodec

open Json Reader

theorem QoS.reader_stableBefore : StableBefore QoS.reader := unsigned_stableBefore.filterMap _

namespace ConnectOptions

theorem member_stableBefore (key : String) (g : Given) : StableBefore (g.member key) := by
  unfold Given.member
  split
  · exact once_stableBefore boolean_stable.before
  · exact once_stableBefore unsigned_stableBefore
  · exact once_stableBefore string_stable.before
  · exact once_stableBefore (nullable_stable string_stable string_beginsWith).before
  · exact once_stableBefore (nullable_stable string_stable string_beginsWith).before
  · exact skip_stable.before

theorem reader_stable : Stable reader := (object_stable member_stableBefore).filterMap _

end ConnectOptions

namespace Will

theorem member_stableBefore (key : String) (g : Given) : StableBefore (g.member key) := by
  unfold Given.member
  split
  · exact once_stableBefore string_stable.before
  · exact once_stableBefore string_stable.before
  · exact once_stableBefore QoS.reader_stableBefore
  · exact once_stableBefore boolean_stable.before
  · exact skip_stable.before

theorem reader_stable : Stable reader := (object_stable member_stableBefore).filterMap _

end Will

namespace Subscription

theorem member_stableBefore (key : String) (g : Given) : StableBefore (g.member key) := by
  unfold Given.member
  split
  · exact once_stableBefore QoS.reader_stableBefore
  · exact once_stableBefore string_stable.before
  · exact skip_stable.before

theorem reader_stable : Stable reader := (object_stable member_stableBefore).filterMap _

end Subscription

namespace Settings

theorem member_stableBefore (key : String) (g : Given) : StableBefore (g.member key) := by
  unfold Given.member
  split
  · exact once_stableBefore ConnectOptions.reader_stable.before
  · exact once_stableBefore (nullable_stable Will.reader_stable Will.reader_beginsWith).before
  · exact once_stableBefore (listUpTo_stable Subscription.reader_stable.before).before
  · exact skip_stable.before

theorem reader_stable : Stable reader := (object_stable member_stableBefore).filterMap _

variable {text : String} {s : Settings}

/-- A text that is loaded says the same with more behind it, which must be blank. -/
theorem load_append_eq_ok_iff (h : load text = .ok s) {more : String} {s' : Settings} :
    load (text ++ more) = .ok s' ↔ (∀ c ∈ more.toList, isBlank c) ∧ s' = s := by
  obtain ⟨r, hr, hblank⟩ := ofText?_eq_some_iff.1 (load_eq_ok_iff.1 h)
  rw [load_eq_ok_iff, ofText?_eq_some_iff, String.toList_append]
  have happend := reader_stable more.toList hr
  constructor
  · rintro ⟨r', hr', hblank'⟩
    obtain ⟨rfl, rfl⟩ := hr'.unique happend
    exact ⟨fun c hc => hblank' c (List.mem_append_right r hc), rfl⟩
  · rintro ⟨hmore, rfl⟩
    refine ⟨_, happend, fun c hc => ?_⟩
    rcases List.mem_append.1 hc with hc | hc
    · exact hblank c hc
    · exact hmore c hc

/-- What is trimmed at its end ends in a character that is not blank. -/
theorem exists_not_blank_of_append {t front back : Text} (h : front ++ back = t.rdropWhile isBlank)
    (hne : back ≠ []) : ∃ c ∈ back, ¬ isBlank c := by
  have htrim : t.rdropWhile isBlank ≠ [] := h ▸ List.append_ne_nil_of_right_ne_nil front hne
  have hlast := List.rdropWhile_last_not isBlank t htrim
  have hback : (t.rdropWhile isBlank).getLast htrim = back.getLast hne := by
    simp only [← h]
    exact List.getLast_append_of_ne_nil _ hne
  rw [hback] at hlast
  exact ⟨_, List.getLast_mem hne, hlast⟩

/-- **Settings that break off are not loaded.** If a text is loaded, then so is what begins with it
exactly if the rest is blank, and it says the same; whatever ends before the last character that is
not blank is refused. -/
theorem load_append (h : load text = .ok s) :
    (∀ more s', load (text ++ more) = .ok s' → (∀ c ∈ more.toList, isBlank c) ∧ s' = s) ∧
    (∀ more : String, (∀ c ∈ more.toList, isBlank c) → load (text ++ more) = .ok s) ∧
    ∀ cut : String, cut.toList <+: text.toList.rdropWhile isBlank →
      cut.toList ≠ text.toList.rdropWhile isBlank → load cut = .error .invalidParameter := by
  refine ⟨fun more s' => (load_append_eq_ok_iff h).1, fun more hmore =>
    (load_append_eq_ok_iff h).2 ⟨hmore, rfl⟩, fun cut hcut hne => load_eq_error fun s' hs' => ?_⟩
  obtain ⟨missing, hmissing⟩ := hcut
  have htext : text = cut ++ String.ofList (missing ++ text.toList.rtakeWhile isBlank) := by
    rw [← String.toList_inj, String.toList_append, String.toList_ofList, ← List.append_assoc, hmissing,
      List.rdropWhile_append_rtakeWhile]
  rw [htext] at h
  obtain ⟨hblank, -⟩ := (load_append_eq_ok_iff hs').1 h
  have hne' : missing ≠ [] := by
    rintro rfl
    exact hne ((List.append_nil _).symm.trans hmissing)
  obtain ⟨c, hc, hnot⟩ := exists_not_blank_of_append hmissing hne'
  exact hnot (hblank c (by rw [String.toList_ofList]; exact List.mem_append_left _ hc))

/-- Cut after the first digit of its keep-alive time, a text says nothing. -/
theorem load_append_keep_alive :
    load ("\x7b\"connect\":\x7b\"client_identifier\":\"a\",\"keep_alive_seconds\":60\x7d \x7d\n" ++ "\t ") =
        .ok { connect := { clientId := "a", keepAliveSeconds := 60 } } ∧
      load "\x7b\"connect\":\x7b\"client_identifier\":\"a\",\"keep_alive_seconds\":6" =
        .error .invalidParameter := by
  have h : load "\x7b\"connect\":\x7b\"client_identifier\":\"a\",\"keep_alive_seconds\":60\x7d \x7d\n" =
      .ok { connect := { clientId := "a", keepAliveSeconds := 60 } } := by cbv
  have hblank : ∀ c ∈ "\t ".toList, isBlank c := List.all_eq_true.1 (by decide)
  exact ⟨(load_append h).2.1 _ hblank, (load_append h).2.2 _ (by decide) (by decide)⟩

end Settings

end MqttCodec
