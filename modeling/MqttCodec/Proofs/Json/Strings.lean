/-
Which strings can stand between quotation marks as they are, and that the
writer's can. A quotation mark is passed over after an odd number of
backslashes and closes the string otherwise. So a string is read whole if it
is `RawSafe`, and no other string is ever read (`closeString_eq_some_iff`).
Escaping makes every string such a one (`rawSafe_escapeString`), and changes
exactly those in which something had to be escaped (`escapeString_eq_self_iff`).
-/
import Mathlib.Data.List.DropRight
import MqttCodec.Json.Writer

namespace MqttCodec.Json

/-- Whether a text ends in an odd number of backslashes. -/
def EndsOdd (t : Text) : Prop := (t.rtakeWhile (· = '\\')).length % 2 = 1

instance (t : Text) : Decidable (EndsOdd t) := inferInstanceAs (Decidable (_ = _))

/-- Whether a text can stand between quotation marks as it is: there is an odd number of backslashes
before every quotation mark in it, and none or an even number at its end. -/
def RawSafe (t : Text) : Prop :=
  (∀ front back, t = front ++ '"' :: back → EndsOdd front) ∧ ¬ EndsOdd t

theorem not_endsOdd_nil : ¬ EndsOdd [] := by decide

theorem endsOdd_concat (t : Text) (c : Char) : EndsOdd (t ++ [c]) ↔ c = '\\' ∧ ¬ EndsOdd t := by
  unfold EndsOdd
  by_cases hc : c = '\\'
  · rw [List.rtakeWhile_concat_pos _ _ _ (by simpa using hc), List.length_append]
    simp only [hc, true_and, List.length_singleton]
    omega
  · rw [List.rtakeWhile_concat_neg _ _ _ (by simpa using hc)]
    simp [hc]

/-! ## Reading -/

/-- Whether a text can stand there when a part of the string is behind. -/
def SafeAfter (seen t : Text) : Prop :=
  (∀ front back, t = front ++ '"' :: back → EndsOdd (seen ++ front)) ∧ ¬ EndsOdd (seen ++ t)

theorem safeAfter_nil {seen : Text} : SafeAfter seen [] ↔ ¬ EndsOdd seen := by
  simp [SafeAfter]

theorem safeAfter_cons {seen t : Text} {c : Char} :
    SafeAfter seen (c :: t) ↔ (c = '"' → EndsOdd seen) ∧ SafeAfter (seen ++ [c]) t := by
  simp only [SafeAfter, List.append_assoc, List.singleton_append, ← and_assoc]
  refine and_congr_left' ⟨fun h => ⟨fun hc => ?_, fun front back ht => ?_⟩, ?_⟩
  · simpa using h [] t (by rw [hc, List.nil_append])
  · exact h (c :: front) back (by rw [ht, List.cons_append])
  · rintro ⟨hquote, h⟩ front back heq
    cases front with
    | nil =>
      cases heq
      simpa using hquote rfl
    | cons c' front =>
      cases heq
      exact h front back rfl

/-- Where a string ends, when a part of it is behind. -/
theorem closeString_eq_some_iff_of_seen {seen t s r : Text} :
    closeString (EndsOdd seen) seen.reverse t = some (s, r) ↔
      ∃ u, s = seen ++ u ∧ t = u ++ '"' :: r ∧ SafeAfter seen u := by
  induction t generalizing seen with
  | nil => simp [closeString]
  | cons c t ih =>
    rw [closeString]
    by_cases hclose : c = '"' ∧ ¬ EndsOdd seen
    · obtain ⟨rfl, hodd⟩ := hclose
      rw [if_pos (by simp [hodd]), List.reverse_reverse]
      constructor
      · intro h
        cases h
        exact ⟨[], (List.append_nil _).symm, rfl, safeAfter_nil.2 hodd⟩
      · rintro ⟨u, rfl, ht, hsafe⟩
        cases u with
        | nil =>
          cases ht
          rw [List.append_nil]
        | cons c' u =>
          cases ht
          exact absurd ((safeAfter_cons.1 hsafe).1 rfl) hodd
    · have hodd : (decide (c = '\\') && !decide (EndsOdd seen)) = decide (EndsOdd (seen ++ [c])) := by
        simp [endsOdd_concat]
      have hseen : c :: seen.reverse = (seen ++ [c]).reverse := by simp
      rw [if_neg (by simpa using hclose), hodd, hseen, ih]
      constructor
      · rintro ⟨u, rfl, rfl, hsafe⟩
        refine ⟨c :: u, by simp, rfl, safeAfter_cons.2 ⟨fun hc => ?_, hsafe⟩⟩
        exact Decidable.not_not.1 fun hnot => hclose ⟨hc, hnot⟩
      · rintro ⟨u, rfl, ht, hsafe⟩
        cases u with
        | nil =>
          cases ht
          exact absurd ⟨rfl, safeAfter_nil.1 hsafe⟩ hclose
        | cons c' u =>
          cases ht
          exact ⟨u, by simp, rfl, (safeAfter_cons.1 hsafe).2⟩

/-- **A string is read as it stands**, if it can stand there. -/
theorem closeString_eq_some_iff {t s r : Text} :
    closeString false [] t = some (s, r) ↔ t = s ++ '"' :: r ∧ RawSafe s := by
  have hnil : decide (EndsOdd []) = false := decide_eq_false not_endsOdd_nil
  have h := @closeString_eq_some_iff_of_seen [] t s r
  rw [hnil, List.reverse_nil] at h
  rw [h]
  constructor
  · rintro ⟨u, rfl, ht, hsafe⟩
    exact ⟨ht, hsafe⟩
  · rintro ⟨ht, hsafe⟩
    exact ⟨s, rfl, ht, hsafe⟩

/-- A string can stand there if what closes it is the quotation mark behind it. -/
instance (t : Text) : Decidable (RawSafe t) :=
  decidable_of_iff (closeString false [] (t ++ ['"']) = some (t, []))
    (closeString_eq_some_iff.trans (and_iff_right rfl))

/-! ## Writing -/

theorem safeAfter_append {seen t u : Text} (ht : SafeAfter seen t) (hu : SafeAfter (seen ++ t) u) :
    SafeAfter seen (t ++ u) := by
  induction t generalizing seen with
  | nil => simpa using hu
  | cons c t ih =>
    obtain ⟨hquote, htail⟩ := safeAfter_cons.1 ht
    exact safeAfter_cons.2 ⟨hquote, ih htail (by simpa using hu)⟩

/-- Whether a text can stand wherever no backslash is open, and leaves none open. -/
def Balanced (t : Text) : Prop := ∀ seen, ¬ EndsOdd seen → SafeAfter seen t

theorem Balanced.rawSafe {t : Text} (h : Balanced t) : RawSafe t := h [] not_endsOdd_nil

theorem Balanced.append {t u : Text} (ht : Balanced t) (hu : Balanced u) : Balanced (t ++ u) :=
  fun seen hseen => safeAfter_append (ht seen hseen) (hu _ (ht seen hseen).2)

theorem balanced_nil : Balanced [] := fun _ hseen => safeAfter_nil.2 hseen

theorem balanced_singleton {c : Char} (hquote : c ≠ '"') (hslash : c ≠ '\\') : Balanced [c] :=
  fun seen _ => safeAfter_cons.2
    ⟨fun hc => absurd hc hquote, safeAfter_nil.2 fun hodd => hslash ((endsOdd_concat seen c).1 hodd).1⟩

/-- Whatever stands behind a backslash of its own. -/
theorem balanced_pair (c : Char) : Balanced ['\\', c] := by
  intro seen hseen
  have hopen : EndsOdd (seen ++ ['\\']) := (endsOdd_concat seen _).2 ⟨rfl, hseen⟩
  refine safeAfter_cons.2 ⟨nofun, safeAfter_cons.2 ⟨fun _ => hopen, safeAfter_nil.2 fun hodd => ?_⟩⟩
  exact ((endsOdd_concat _ c).1 hodd).2 hopen

theorem balanced_flatMap {write : Char → Text} (h : ∀ c, Balanced (write c)) (t : Text) :
    Balanced (t.flatMap write) := by
  induction t with
  | nil => exact balanced_nil
  | cons c t ih => exact (h c).append ih

theorem balanced_hexDigit {n : Nat} (h : n < 16) : Balanced [hexDigit n] := by
  have hdigit : ∀ n < 16, hexDigit n ≠ '"' ∧ hexDigit n ≠ '\\' := by decide
  exact balanced_singleton (hdigit n h).1 (hdigit n h).2

theorem balanced_escape (c : Char) : Balanced (escape c) := by
  unfold escape
  split
  · exact balanced_pair c
  rename_i hspecial
  split
  · exact balanced_pair 'b'
  split
  · exact balanced_pair 't'
  split
  · exact balanced_pair 'n'
  split
  · exact balanced_pair 'f'
  split
  · exact balanced_pair 'r'
  split
  · rename_i hcontrol
    have hzero : Balanced ['0'] := balanced_singleton (by decide) (by decide)
    exact (balanced_pair 'u').append <| hzero.append <| hzero.append <|
      (balanced_hexDigit (by omega)).append <| balanced_hexDigit (by omega)
  · exact balanced_singleton (fun h => hspecial (.inl h)) fun h => hspecial (.inr h)

/-- **What is written is read as one string.** -/
theorem rawSafe_escapeString (s : String) : RawSafe (escapeString s).toList := by
  rw [escapeString, String.toList_ofList]
  exact (balanced_flatMap balanced_escape s.toList).rawSafe

/-- Whether a character is written as it is. -/
def Plain (c : Char) : Prop := c ≠ '"' ∧ c ≠ '\\' ∧ 32 ≤ c.toNat

instance (c : Char) : Decidable (Plain c) := inferInstanceAs (Decidable (_ ∧ _))

theorem escape_of_plain {c : Char} (h : Plain c) : escape c = [c] := by
  have hne : ∀ d : Char, d.toNat < 32 → c ≠ d := by
    rintro d hd rfl
    exact Nat.not_lt.2 h.2.2 hd
  have hspecial : ¬ (c = '"' ∨ c = '\\') := not_or.2 ⟨h.1, h.2.1⟩
  rw [escape, if_neg hspecial, if_neg (hne _ (by decide)), if_neg (hne _ (by decide)),
    if_neg (hne _ (by decide)), if_neg (hne _ (by decide)), if_neg (hne _ (by decide)),
    if_neg (Nat.not_lt.2 h.2.2)]

theorem one_lt_length_escape {c : Char} (h : ¬ Plain c) : 1 < (escape c).length := by
  unfold escape
  split
  · simp
  rename_i hspecial
  iterate 5
    split
    · simp
  split
  · simp
  · rename_i hcontrol
    exact absurd ⟨fun hc => hspecial (.inl hc), fun hc => hspecial (.inr hc), Nat.not_lt.1 hcontrol⟩ h

theorem length_le_length_flatMap_escape (t : Text) : t.length ≤ (t.flatMap escape).length := by
  induction t with
  | nil => exact Nat.le_refl 0
  | cons c t ih =>
    have hone : 1 ≤ (escape c).length := by
      by_cases hc : Plain c
      · rw [escape_of_plain hc]
        exact Nat.le_refl 1
      · exact Nat.le_of_lt (one_lt_length_escape hc)
    rw [List.flatMap_cons, List.length_append, List.length_cons]
    omega

theorem flatMap_escape_eq_self_iff {t : Text} : t.flatMap escape = t ↔ ∀ c ∈ t, Plain c := by
  induction t with
  | nil => simp
  | cons c t ih =>
    rw [List.flatMap_cons, List.forall_mem_cons, ← ih]
    by_cases hc : Plain c
    · simp [escape_of_plain hc, hc]
    · refine iff_of_false (fun heq => ?_) fun h => hc h.1
      have hlong := one_lt_length_escape hc
      have hrest := length_le_length_flatMap_escape t
      have hlength := congrArg List.length heq
      rw [List.length_append, List.length_cons] at hlength
      omega

theorem rawSafe_of_plain {t : Text} (h : ∀ c ∈ t, Plain c) : RawSafe t := by
  rw [← flatMap_escape_eq_self_iff.2 h]
  exact (balanced_flatMap balanced_escape t).rawSafe

theorem escapeString_eq_self_iff {s : String} : escapeString s = s ↔ ∀ c ∈ s.toList, Plain c := by
  rw [← flatMap_escape_eq_self_iff, ← String.toList_inj, escapeString, String.toList_ofList]

end MqttCodec.Json
