/-
What is passed over, in the same terms as what is taken
(`MqttCodec.Proofs.Json.Reader`).
-/
import MqttCodec.Json.Skipping
import MqttCodec.Proofs.Json.Reader

namespace MqttCodec.Json

open Reader

/-- Whether something was passed over and this is left. -/
def Leaves {t : Text} (passed : Option (Rest t)) (r : Text) : Prop := ∃ h, passed = some ⟨r, h⟩

variable {t r : Text}

theorem leaves_of_eq {passed : Option (Rest t)} {u : Rest t} (h : passed = some u) :
    Leaves passed u.1 := ⟨u.2, h⟩

/-- What is passed over after something else has been taken. -/
theorem leaves_map_trans_iff {u : Rest t} {passed : Option (Rest u.1)} :
    Leaves (passed.map u.trans) r ↔ Leaves passed r := by
  constructor
  · rintro ⟨h, heq⟩
    obtain ⟨v, hv, heq⟩ := Option.map_eq_some_iff.1 heq
    cases heq
    exact leaves_of_eq hv
  · rintro ⟨h, rfl⟩
    exact leaves_of_eq rfl

theorem leaves_string_iff :
    Leaves ((string t).map (·.2)) r ↔ ∃ s, string.Takes t s r := by
  unfold Leaves Takes
  rcases string t with _ | ⟨s, u⟩ <;> simp

theorem skip_takes_iff {σ : Type} {known g : σ} :
    (skip known).Takes t g r ↔ Leaves (skipValue t) r ∧ g = known := by
  unfold Takes skip Leaves
  rcases skipValue t with _ | u
  · simp
  · simp [eq_comm, and_comm]

theorem skipToDelimiter_leaves_iff {u : Rest t} :
    Leaves ((skipToDelimiter u.1).map u.thenTail) r ↔
      r ≠ [] ∧ r = u.1.dropWhile fun c => !isDelimiter c := by
  unfold skipToDelimiter
  dsimp only
  split
  · rename_i hnil
    refine ⟨nofun, fun ⟨hne, heq⟩ => absurd (heq.trans hnil) hne⟩
  · rename_i hne
    constructor
    · rintro ⟨h, heq⟩
      cases heq
      exact ⟨hne, rfl⟩
    · rintro ⟨-, rfl⟩
      exact leaves_of_eq rfl

/-- How a value is passed over, by its first character. -/
def PassesFrom (t : Text) (c : Char) (u r : Text) : Prop :=
  if c = '"' then ∃ s, string.Takes t s r
  else if c = '[' then Leaves (skipElements true u) r
  else if c = '\x7b' then Leaves (skipMembers true u) r
  else isDelimiter c = false ∧ r ≠ [] ∧ r = u.dropWhile fun c => !isDelimiter c

theorem skipValue_leaves_iff :
    Leaves (skipValue t) r ↔ ∃ c u, skipBlanks t = c :: u ∧ PassesFrom t c u r := by
  rw [skipValue]
  rcases next_cases t with ⟨hnext, hskip⟩ | ⟨c, u, hu, hnext, hskip⟩
  · rw [hnext, hskip]
    exact ⟨nofun, nofun⟩
  · simp only [hnext, hskip, List.cons.injEq, exists_and_left, exists_eq_left', and_assoc, PassesFrom]
    split
    · rename_i hc
      cases hc
    · rename_i hc
      cases hc
      exact leaves_string_iff
    · rename_i hc
      cases hc
      exact leaves_map_trans_iff
    · rename_i hc
      cases hc
      exact leaves_map_trans_iff
    · rename_i hstring hlist hobject hc
      cases hc
      rw [if_neg fun h => hstring h, if_neg fun h => hlist h, if_neg fun h => hobject h]
      cases hd : isDelimiter c
      · simp only [Bool.false_eq_true, if_false, true_and]
        exact skipToDelimiter_leaves_iff
      · simp [Leaves]

theorem skipElements_leaves_iff {fresh : Bool} :
    Leaves (skipElements fresh t) r ↔
      skipBlanks t = ']' :: r ∨
        ∃ fresh' u v, ElementAt fresh t fresh' u ∧ Leaves (skipValue u) v ∧
          Leaves (skipElements fresh' v) r := by
  constructor
  · rintro ⟨h, heq⟩
    rw [skipElements] at heq
    split at heq
    · cases heq
    · rename_i u hu
      cases heq
      exact .inl (nextElement_close_iff.1 hu)
    · rename_i fresh' u hu
      split at heq
      · cases heq
      · rename_i v hv
        obtain ⟨w, hw, heq⟩ := Option.map_eq_some_iff.1 heq
        cases heq
        exact .inr ⟨fresh', u.1, v.1, nextElement_element_iff.1 hu, leaves_of_eq hv, leaves_of_eq hw⟩
  · rintro (h | ⟨fresh', u, v, hat, ⟨hv, hvalue⟩, hr, hrest⟩)
    · obtain ⟨hr, -⟩ := next_takes_iff.2 h
      exact ⟨hr, by rw [skipElements, nextElement_close_iff (r := ⟨r, hr⟩).2 h]⟩
    · rw [skipElements, nextElement_element_iff (u := ⟨u, hat.suffix⟩).2 hat]
      simp only [hvalue, hrest]
      exact leaves_of_eq rfl

theorem skipMembers_leaves_iff {first : Bool} :
    Leaves (skipMembers first t) r ↔
      skipBlanks t = '\x7d' :: r ∨
        ∃ k u v, (nextKey first).Takes t (some k) u ∧ Leaves (skipValue u) v ∧
          Leaves (skipMembers false v) r := by
  constructor
  · rintro ⟨h, heq⟩
    rw [skipMembers] at heq
    split at heq
    · cases heq
    · rename_i u hu
      cases heq
      exact .inl (nextKey_none_takes_iff.1 ⟨h, hu⟩)
    · rename_i k u hu
      split at heq
      · cases heq
      · rename_i v hv
        obtain ⟨w, hw, heq⟩ := Option.map_eq_some_iff.1 heq
        cases heq
        exact .inr ⟨k, u.1, v.1, takes_of_eq hu, leaves_of_eq hv, leaves_of_eq hw⟩
  · rintro (h | ⟨k, u, v, ⟨hu, hkey⟩, ⟨hv, hvalue⟩, hr, hrest⟩)
    · obtain ⟨hr, hnext⟩ := nextKey_none_takes_iff.2 h
      exact ⟨hr, by rw [skipMembers, hnext]⟩
    · rw [skipMembers, hkey]
      simp only [hvalue, hrest]
      exact leaves_of_eq rfl

end MqttCodec.Json
