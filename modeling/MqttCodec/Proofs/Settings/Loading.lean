/-
When a text is loaded: if an object of settings can be taken from it and only
blanks are left.
-/
import Mathlib.Data.List.TakeWhile
import MqttCodec.Proofs.Json.Reader
import MqttCodec.Settings.Loading

namespace MqttCodec

open Json

namespace Json

theorem skipBlanks_eq_nil_iff {t : Text} : skipBlanks t = [] ↔ ∀ c ∈ t, isBlank c :=
  List.dropWhile_eq_nil_iff

end Json

theorem Will.reader_beginsWith : Reader.BeginsWith '\x7b' Will.reader := object_beginsWith.filterMap _

theorem Subscription.reader_beginsWith : Reader.BeginsWith '\x7b' Subscription.reader :=
  object_beginsWith.filterMap _

namespace Settings

theorem ofText?_eq_some_iff {t : Text} {s : Settings} :
    ofText? t = some s ↔ ∃ r, reader.Takes t s r ∧ ∀ c ∈ r, isBlank c := by
  simp only [← skipBlanks_eq_nil_iff]
  unfold ofText? Reader.Takes
  rcases reader t with _ | ⟨s', r⟩
  · simp
  · simp only [Option.ite_none_right_eq_some, Option.some.injEq, Prod.mk.injEq]
    constructor
    · rintro ⟨hblank, rfl⟩
      exact ⟨r.1, ⟨r.2, rfl, rfl⟩, hblank⟩
    · rintro ⟨_, ⟨_, rfl, rfl⟩, hblank⟩
      exact ⟨hblank, rfl⟩

theorem load_eq_ok_iff {text : String} {s : Settings} :
    load text = .ok s ↔ ofText? text.toList = some s := by
  unfold load
  cases ofText? text.toList with
  | none => exact ⟨nofun, nofun⟩
  | some s' => exact ⟨fun h => by rw [Except.ok.inj h], fun h => by rw [Option.some.inj h]⟩

/-- A text that is not loaded is refused for one reason. -/
theorem load_eq_error {text : String} (h : ∀ s, load text ≠ .ok s) :
    load text = .error .invalidParameter := by
  unfold load at h ⊢
  cases hs : ofText? text.toList with
  | none => rfl
  | some s => exact absurd (by rw [hs]) (h s)

end Settings

end MqttCodec
