/-
What each reader takes, and where it stops. `Reader.Takes` forgets the proof
that a reader leaves a suffix, and one lemma for each reader says, in terms of
the readers it is made of, exactly when it takes a value and what it leaves.
No other module opens a reader.
-/
import MqttCodec.Json.Reader
import MqttCodec.Json.Writer

namespace MqttCodec.Json

/-- Whether a reader takes a value from the front of a text and leaves the rest. -/
def Reader.Takes {α : Type} (read : Reader α) (t : Text) (a : α) (r : Text) : Prop :=
  ∃ h, read t = some (a, ⟨r, h⟩)

namespace Reader

variable {α β : Type} {read : Reader α} {t r : Text} {a : α} {b : β}

theorem takes_of_eq {r : Rest t} (h : read t = some (a, r)) : read.Takes t a r.1 := ⟨r.2, h⟩

theorem Takes.length_lt (h : read.Takes t a r) : r.length < t.length := by
  obtain ⟨hr, -⟩ := h
  exact hr.2

theorem Takes.unique {a' : α} {r' : Text} (h : read.Takes t a r) (h' : read.Takes t a' r') :
    a = a' ∧ r = r' := by
  obtain ⟨_, heq⟩ := h
  obtain ⟨_, heq'⟩ := h'
  cases heq.symm.trans heq'
  exact ⟨rfl, rfl⟩

theorem Takes.ne_nil (h : read.Takes t a r) : t ≠ [] := by
  rintro rfl
  exact absurd h.length_lt (Nat.not_lt_zero _)

theorem map_takes_iff {f : α → β} : (read.map f).Takes t b r ↔ ∃ a, read.Takes t a r ∧ f a = b := by
  unfold Takes map
  rcases read t with _ | ⟨a, u⟩
  · simp
  · constructor
    · rintro ⟨h, heq⟩
      cases heq
      exact ⟨a, ⟨h, rfl⟩, rfl⟩
    · rintro ⟨a, ⟨h, heq⟩, rfl⟩
      cases heq
      exact ⟨h, rfl⟩

theorem filterMap_takes_iff {f : α → Option β} :
    (read.filterMap f).Takes t b r ↔ ∃ a, read.Takes t a r ∧ f a = some b := by
  unfold Takes filterMap
  rcases read t with _ | ⟨a, u⟩
  · simp
  · simp only [Option.map_eq_some_iff, Prod.mk.injEq, Option.some.injEq]
    constructor
    · rintro ⟨h, b', hb, rfl, rfl⟩
      exact ⟨a, ⟨h, rfl, rfl⟩, hb⟩
    · rintro ⟨a', ⟨h, rfl, rfl⟩, hb⟩
      exact ⟨h, b, hb, rfl, rfl⟩

end Reader

open Reader

variable {t r : Text}

/-! ## Tokens -/

theorem skipBlanks_suffix (t : Text) : skipBlanks t <:+ t := List.dropWhile_suffix isBlank

theorem next_takes_iff {c : Char} : next.Takes t c r ↔ skipBlanks t = c :: r := by
  constructor
  · rintro ⟨h, heq⟩
    exact next_eq_some_iff.1 heq
  · intro h
    have hsuffix : (c :: r) <:+ t := h ▸ skipBlanks_suffix t
    exact ⟨(Rest.afterFirst hsuffix).2, next_eq_some_iff.2 h⟩

theorem next_cases (t : Text) :
    (next t = none ∧ skipBlanks t = []) ∨
      ∃ c u hu, next t = some (c, ⟨u, hu⟩) ∧ skipBlanks t = c :: u := by
  rcases hskip : skipBlanks t with _ | ⟨c, u⟩
  · refine .inl ⟨?_, rfl⟩
    rcases hnext : next t with _ | ⟨c, u⟩
    · rfl
    · rw [next_eq_some_iff.1 hnext] at hskip
      cases hskip
  · obtain ⟨hu, hnext⟩ := next_takes_iff.2 hskip
    exact .inr ⟨c, u, hu, hnext, rfl⟩

theorem dropWord_eq_some_iff {word : Text} {s : Tail t} : dropWord word t = some s ↔ t = word ++ s.1 := by
  induction word generalizing t with
  | nil => simp [dropWord, Subtype.ext_iff]
  | cons c word ih =>
    cases t with
    | nil => simp [dropWord]
    | cons d t =>
      rw [dropWord]
      by_cases hcd : c = d
      · subst hcd
        obtain ⟨r, hr⟩ := s
        simp only [if_pos, Option.map_eq_some_iff, Subtype.mk.injEq, List.cons_append,
          List.cons.injEq, true_and]
        constructor
        · rintro ⟨u, hdrop, rfl⟩
          exact ih.1 hdrop
        · intro h
          exact ⟨⟨r, h ▸ List.suffix_append _ _⟩, ih.2 h, rfl⟩
      · simp [if_neg hcd, Ne.symm hcd]

/-- A word that was begun is finished if and only if it stands there. -/
theorem exists_dropWord_map_iff {α : Type} {t : Text} {u : Rest t} {word : Text} {a b : α} :
    (∃ h, (dropWord word u.1).map (fun s => (a, u.thenTail s)) = some (b, ⟨r, h⟩)) ↔
      u.1 = word ++ r ∧ a = b := by
  simp only [Option.map_eq_some_iff, Prod.mk.injEq]
  constructor
  · rintro ⟨h, s, hs, rfl, heq⟩
    cases heq
    exact ⟨dropWord_eq_some_iff.1 hs, rfl⟩
  · rintro ⟨h, rfl⟩
    have hr : r <:+ u.1 := h ▸ List.suffix_append _ _
    exact ⟨(u.thenTail ⟨r, hr⟩).2, ⟨r, hr⟩, dropWord_eq_some_iff.2 h, rfl, rfl⟩

theorem boolean_takes_iff {b : Bool} : boolean.Takes t b r ↔ skipBlanks t = writeBool b ++ r := by
  unfold Takes boolean
  rcases next_cases t with ⟨hnext, hskip⟩ | ⟨c, u, hu, hnext, hskip⟩
  · rw [hnext, hskip]
    cases b <;> simp [writeBool]
  · rw [hnext, hskip]
    split
    · rename_i hc
      cases hc
      rw [exists_dropWord_map_iff]
      cases b <;> simp [writeBool]
    · rename_i hc
      cases hc
      rw [exists_dropWord_map_iff]
      cases b <;> simp [writeBool]
    · rename_i ht hf
      cases b <;> simp_all [writeBool]

theorem string_takes_iff {s : String} :
    string.Takes t s r ↔ ∃ u, skipBlanks t = '"' :: u ∧ closeString false [] u = some (s.toList, r) := by
  constructor
  · rintro ⟨h, heq⟩
    exact string_eq_some_iff.1 heq
  · rintro ⟨u, hu, hclose⟩
    obtain ⟨ht, -⟩ := next_takes_iff.2 hu
    have hr := (Rest.trans ⟨u, ht⟩ (Rest.afterFirst (suffix_of_closeString hclose))).2
    exact ⟨hr, string_eq_some_iff.2 ⟨u, hu, hclose⟩⟩

theorem unsigned_takes_iff {limit n : Nat} :
    (unsigned limit).Takes t n r ↔
      ∃ c u, skipBlanks t = c :: u ∧
        if c = '0' then n = 0 ∧ r = u
        else c.isDigit ∧ n = Nat.ofDigitChars 10 (c :: u.takeWhile Char.isDigit) 0 ∧ n ≤ limit ∧
          r = u.dropWhile Char.isDigit := by
  constructor
  · rintro ⟨h, heq⟩
    simp only [unsigned] at heq
    split at heq
    · rename_i u hu
      cases heq
      exact ⟨'0', _, next_takes_iff.1 ⟨h, hu⟩, rfl, rfl⟩
    · rename_i c u hc hu
      split at heq
      · rename_i hdigit
        cases heq
        have hzero : c ≠ '0' := hc
        refine ⟨c, u.1, next_takes_iff.1 (takes_of_eq hu), ?_⟩
        rw [if_neg hzero]
        exact ⟨hdigit.1, rfl, hdigit.2, rfl⟩
      · cases heq
    · cases heq
  · rintro ⟨c, u, hskip, h⟩
    obtain ⟨hu, hnext⟩ := next_takes_iff.2 hskip
    split at h
    · rename_i hzero
      subst hzero
      obtain ⟨rfl, rfl⟩ := h
      exact ⟨hu, by simp only [unsigned, hnext]⟩
    · rename_i hzero
      obtain ⟨hdigit, rfl, hlimit, rfl⟩ := h
      have hr : u.dropWhile Char.isDigit <:+ u := List.dropWhile_suffix _
      refine ⟨(Rest.thenTail ⟨u, hu⟩ ⟨_, hr⟩).2, ?_⟩
      simp only [unsigned, hnext, hdigit, hlimit, and_self, if_true]
      rfl

section Nullable

variable {α : Type} {read : Reader α}

theorem nullable_takes_iff {o : Option α} :
    (nullable read).Takes t o r ↔
      (skipBlanks t = ['n', 'u', 'l', 'l'] ++ r ∧ o = none) ∨
        (∀ u, skipBlanks t ≠ 'n' :: u) ∧ ∃ a, read.Takes t a r ∧ some a = o := by
  rw [← map_takes_iff]
  unfold Takes nullable
  rcases next_cases t with ⟨hnext, hskip⟩ | ⟨c, u, hu, hnext, hskip⟩
  · rw [hnext, hskip]
    simp
  · rw [hnext, hskip]
    split
    · rename_i hc
      cases hc
      rw [exists_dropWord_map_iff]
      simp [eq_comm]
    · rename_i hn
      have hc : c ≠ 'n' := fun h => hn ⟨u, hu⟩ (by rw [h])
      simp [hc]

end Nullable

/-- Whether all that a reader takes begins with a certain character, after blanks. -/
def Reader.BeginsWith {α : Type} (c : Char) (read : Reader α) : Prop :=
  ∀ ⦃t : Text⦄ ⦃a : α⦄ ⦃r : Text⦄, read.Takes t a r → ∃ u, skipBlanks t = c :: u

theorem string_beginsWith : BeginsWith '"' string := by
  intro t s r h
  obtain ⟨u, hu, -⟩ := string_takes_iff.1 h
  exact ⟨u, hu⟩

theorem Reader.BeginsWith.filterMap {α β : Type} {c : Char} {read : Reader α} (h : BeginsWith c read)
    (f : α → Option β) : BeginsWith c (read.filterMap f) := by
  intro t b r htakes
  obtain ⟨a, ha, -⟩ := filterMap_takes_iff.1 htakes
  exact h ha

/-! ## Objects -/

theorem key_takes_iff {k : String} :
    key.Takes t k r ↔ ∃ u, string.Takes t k u ∧ skipBlanks u = ':' :: r := by
  constructor
  · rintro ⟨h, heq⟩
    simp only [key] at heq
    split at heq
    · cases heq
    · rename_i k' u hu
      split at heq
      · rename_i s hs
        cases heq
        exact ⟨u.1, takes_of_eq hu, next_takes_iff.1 (takes_of_eq hs)⟩
      · cases heq
  · rintro ⟨u, ⟨hu, hstring⟩, hcolon⟩
    obtain ⟨hr, hnext⟩ := next_takes_iff.2 hcolon
    refine ⟨(Rest.trans ⟨u, hu⟩ ⟨r, hr⟩).2, ?_⟩
    simp only [key, hstring, hnext]
    rfl

theorem key_beginsWith : BeginsWith '"' key := by
  intro t k r h
  obtain ⟨u, hstring, -⟩ := key_takes_iff.1 h
  exact string_beginsWith hstring

theorem nextKey_none_takes_iff {first : Bool} :
    (nextKey first).Takes t none r ↔ skipBlanks t = '\x7d' :: r := by
  constructor
  · rintro ⟨h, heq⟩
    simp only [nextKey] at heq
    split at heq
    · cases heq
    · rename_i u hu
      cases heq
      exact next_takes_iff.1 ⟨h, hu⟩
    · split at heq
      · obtain ⟨k, -, hk⟩ := map_takes_iff.1 ⟨h, heq⟩
        cases hk
      · split at heq
        · split at heq <;> cases heq
        · cases heq
  · intro h
    obtain ⟨hr, hnext⟩ := next_takes_iff.2 h
    exact ⟨hr, by simp only [nextKey, hnext]⟩

theorem nextKey_some_takes_iff {first : Bool} {k : String} :
    (nextKey first).Takes t (some k) r ↔
      if first then key.Takes t k r else ∃ u, skipBlanks t = ',' :: u ∧ key.Takes u k r := by
  constructor
  · rintro ⟨h, heq⟩
    simp only [nextKey] at heq
    split at heq
    · cases heq
    · cases heq
    · rename_i c u hbrace hu
      split at heq
      · rename_i hfirst
        obtain ⟨k', hkey, hk⟩ := map_takes_iff.1 ⟨h, heq⟩
        cases hk
        rw [if_pos hfirst]
        exact hkey
      · rename_i hfirst
        rw [if_neg hfirst]
        split at heq
        · rename_i hcomma
          subst hcomma
          split at heq
          · cases heq
          · rename_i s hs
            cases heq
            exact ⟨u.1, next_takes_iff.1 (takes_of_eq hu), takes_of_eq hs⟩
        · cases heq
  · intro h
    split at h
    · rename_i hfirst
      obtain ⟨u, hskip⟩ := key_beginsWith h
      obtain ⟨hu, hnext⟩ := next_takes_iff.2 hskip
      obtain ⟨hr, hmap⟩ := map_takes_iff.2 ⟨k, h, rfl⟩
      exact ⟨hr, by simp only [nextKey, hnext, hfirst, if_true]; exact hmap⟩
    · rename_i hfirst
      obtain ⟨u, hcomma, hr, hkey⟩ := h
      obtain ⟨hu, hnext⟩ := next_takes_iff.2 hcomma
      refine ⟨(Rest.trans ⟨u, hu⟩ ⟨r, hr⟩).2, ?_⟩
      simp [nextKey, hnext, hfirst, hkey, Rest.trans]

section Objects

variable {σ : Type} {member : String → σ → Reader σ} {first : Bool} {known g : σ}

theorem members_takes_iff :
    (members member first known).Takes t g r ↔
      (skipBlanks t = '\x7d' :: r ∧ g = known) ∨
        ∃ k u known' v, (nextKey first).Takes t (some k) u ∧ (member k known).Takes u known' v ∧
          (members member false known').Takes v g r := by
  constructor
  · rintro ⟨h, heq⟩
    rw [members] at heq
    split at heq
    · cases heq
    · rename_i u hu
      cases heq
      exact .inl ⟨nextKey_none_takes_iff.1 ⟨h, hu⟩, rfl⟩
    · rename_i k u hu
      split at heq
      · cases heq
      · rename_i known' v hv
        split at heq
        · cases heq
        · rename_i g' w hw
          cases heq
          exact .inr ⟨k, u.1, known', v.1, takes_of_eq hu, takes_of_eq hv, takes_of_eq hw⟩
  · rintro (⟨h, rfl⟩ | ⟨k, u, known', v, ⟨hu, hkey⟩, ⟨hv, hmember⟩, hr, hrest⟩)
    · obtain ⟨hr, hnext⟩ := nextKey_none_takes_iff.2 h
      exact ⟨hr, by rw [members, hnext]⟩
    · refine ⟨(Rest.trans ⟨u, hu⟩ (Rest.trans ⟨v, hv⟩ ⟨r, hr⟩)).2, ?_⟩
      rw [members, hkey]
      simp only [hmember, hrest]
      rfl

theorem object_takes_iff :
    (object member known).Takes t g r ↔
      ∃ u, skipBlanks t = '\x7b' :: u ∧ (members member true known).Takes u g r := by
  constructor
  · rintro ⟨h, heq⟩
    simp only [object] at heq
    split at heq
    · rename_i u hu
      split at heq
      · cases heq
      · rename_i g' s hs
        cases heq
        exact ⟨u.1, next_takes_iff.1 (takes_of_eq hu), takes_of_eq hs⟩
    · cases heq
  · rintro ⟨u, hbrace, hr, hmembers⟩
    obtain ⟨hu, hnext⟩ := next_takes_iff.2 hbrace
    refine ⟨(Rest.trans ⟨u, hu⟩ ⟨r, hr⟩).2, ?_⟩
    simp only [object, hnext, hmembers]
    rfl

theorem object_beginsWith : BeginsWith '\x7b' (object member known) := by
  intro t g r h
  obtain ⟨u, hu, -⟩ := object_takes_iff.1 h
  exact ⟨u, hu⟩

theorem once_takes_iff {α : Type} {given : Option α} {read : Reader α} {store : α → σ} :
    (once given read store).Takes t g r ↔ given = none ∧ ∃ a, read.Takes t a r ∧ store a = g := by
  rw [← map_takes_iff]
  cases given with
  | none => exact (and_iff_right rfl).symm
  | some a => exact ⟨nofun, nofun⟩

end Objects

/-! ## Lists -/

section Lists

theorem nextElement_close_iff {fresh : Bool} {r : Rest t} :
    nextElement fresh t = some (.close r) ↔ skipBlanks t = ']' :: r.1 := by
  constructor
  · intro h
    simp only [nextElement] at h
    split at h
    · cases h
    · rename_i u hu
      cases h
      exact next_takes_iff.1 (takes_of_eq hu)
    · split at h <;> cases h
    · split at h <;> cases h
  · intro h
    obtain ⟨hr, hnext⟩ := next_takes_iff.2 h
    simp only [nextElement, hnext]

/-- Where a list's next element stands, and whether the list is fresh then. -/
def ElementAt (fresh : Bool) (t : Text) (fresh' : Bool) (u : Text) : Prop :=
  ∃ c v, skipBlanks u = c :: v ∧ c ≠ ']' ∧
    ((skipBlanks t = ',' :: u ∧ fresh' = fresh) ∨ (c ≠ ',' ∧ u = t ∧ fresh = true ∧ fresh' = false))

theorem ElementAt.suffix {fresh fresh' : Bool} {u : Text} (h : ElementAt fresh t fresh' u) : u <:+ t := by
  obtain ⟨-, -, -, -, ⟨hcomma, -⟩ | ⟨-, rfl, -⟩⟩ := h
  · have h := skipBlanks_suffix t
    rw [hcomma] at h
    exact (List.suffix_cons _ _).trans h
  · exact List.suffix_rfl

theorem nextElement_element_iff {fresh fresh' : Bool} {u : Tail t} :
    nextElement fresh t = some (.element fresh' u) ↔ ElementAt fresh t fresh' u.1 := by
  constructor
  · intro h
    simp only [nextElement] at h
    split at h
    · cases h
    · cases h
    · rename_i s hs
      split at h
      · cases h
      · cases h
      · rename_i found hclose hfound
        cases h
        obtain ⟨c, v⟩ := found
        have hc : c ≠ ']' := fun h => hclose v (by rw [h])
        exact ⟨c, v.1, next_takes_iff.1 (takes_of_eq hfound), hc,
          .inl ⟨next_takes_iff.1 (takes_of_eq hs), rfl⟩⟩
    · rename_i found hclose hcomma hfound
      split at h
      · rename_i hfresh
        cases h
        obtain ⟨c, v⟩ := found
        have hc : c ≠ ']' := fun h => hclose v (by rw [h])
        have hc' : c ≠ ',' := fun h => hcomma v (by rw [h])
        exact ⟨c, v.1, next_takes_iff.1 (takes_of_eq hfound), hc, .inr ⟨hc', rfl, hfresh, rfl⟩⟩
      · cases h
  · obtain ⟨u, hu⟩ := u
    rintro ⟨c, v, hskip, hc, ⟨hcomma, rfl⟩ | ⟨hc', hstay, rfl, rfl⟩⟩
    · obtain ⟨hu', hnext⟩ := next_takes_iff.2 hcomma
      obtain ⟨hv, hnext'⟩ := next_takes_iff.2 hskip
      simp [nextElement, hnext, hnext', hc]
    · have hstay : u = t := hstay
      subst hstay
      obtain ⟨hv, hnext⟩ := next_takes_iff.2 hskip
      simp [nextElement, hnext, hc, hc']

variable {α : Type} {read : Reader α} {most : Nat} {fresh : Bool} {known l : ListUpTo most α}

theorem elements_takes_iff :
    (elements read most fresh known).Takes t l r ↔
      (skipBlanks t = ']' :: r ∧ l = known) ∨
        ∃ fresh' u a v, ElementAt fresh t fresh' u ∧ read.Takes u a v ∧
          ∃ h : (known.1 ++ [a]).length ≤ most,
            (elements read most fresh' ⟨known.1 ++ [a], h⟩).Takes v l r := by
  constructor
  · rintro ⟨h, heq⟩
    rw [elements] at heq
    split at heq
    · cases heq
    · rename_i u hu
      cases heq
      exact .inl ⟨nextElement_close_iff.1 hu, rfl⟩
    · rename_i fresh' u hu
      split at heq
      · cases heq
      · rename_i a v hv
        split at heq
        · split at heq
          · cases heq
          · rename_i l' w hw
            cases heq
            exact .inr ⟨fresh', u.1, a, v.1, nextElement_element_iff.1 hu, takes_of_eq hv, _, takes_of_eq hw⟩
        · cases heq
  · rintro (⟨h, rfl⟩ | ⟨fresh', u, a, v, hat, ⟨hv, hread⟩, hroom, hr, hrest⟩)
    · obtain ⟨hr, -⟩ := next_takes_iff.2 h
      exact ⟨hr, by rw [elements, nextElement_close_iff (r := ⟨r, hr⟩).2 h]⟩
    · have hu : u <:+ t := hat.suffix
      have hlt : known.1.length < most := by
        rw [List.length_append] at hroom
        exact hroom
      refine ⟨(Tail.thenRest ⟨u, hu⟩ (Rest.trans ⟨v, hv⟩ ⟨r, hr⟩)).2, ?_⟩
      rw [elements, nextElement_element_iff (u := ⟨u, hu⟩).2 hat]
      simp only [hread, hlt, dif_pos, hrest]
      rfl

theorem listUpTo_takes_iff :
    (listUpTo most read).Takes t l r ↔
      ∃ u, skipBlanks t = '[' :: u ∧ (elements read most true ⟨[], Nat.zero_le _⟩).Takes u l r := by
  constructor
  · rintro ⟨h, heq⟩
    simp only [listUpTo] at heq
    split at heq
    · rename_i u hu
      split at heq
      · cases heq
      · rename_i l' s hs
        cases heq
        exact ⟨u.1, next_takes_iff.1 (takes_of_eq hu), takes_of_eq hs⟩
    · cases heq
  · rintro ⟨u, hbracket, hr, helements⟩
    obtain ⟨hu, hnext⟩ := next_takes_iff.2 hbracket
    refine ⟨(Rest.trans ⟨u, hu⟩ ⟨r, hr⟩).2, ?_⟩
    simp only [listUpTo, hnext, helements]
    rfl

end Lists

end MqttCodec.Json
