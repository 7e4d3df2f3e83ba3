/-
What a reader does if the text goes on. Everything that has a last character
of its own is taken as before, and what follows is left with the rest: no
reader looks further than it takes, but for the digits of a number, which end
only where something else stands (`Reader.StableBefore`). An object ends with
its brace, whatever numbers or unknown members are in it
(`object_stable`).
-/
import MqttCodec.Proofs.Json.Skipping

namespace MqttCodec.Json

variable {α β σ : Type}

namespace Reader

/-- Whether a reader takes the same from a text that goes on. -/
def Stable (read : Reader α) : Prop :=
  ∀ ⦃t : Text⦄ ⦃a : α⦄ ⦃r : Text⦄ (s : Text), read.Takes t a r → read.Takes (t ++ s) a (r ++ s)

/-- Whether it does so if it left something. -/
def StableBefore (read : Reader α) : Prop :=
  ∀ ⦃t : Text⦄ ⦃a : α⦄ ⦃r : Text⦄ (s : Text), r ≠ [] → read.Takes t a r → read.Takes (t ++ s) a (r ++ s)

variable {read : Reader α}

theorem Stable.before (h : Stable read) : StableBefore read := fun _ _ _ s _ => h s

theorem StableBefore.filterMap (h : StableBefore read) (f : α → Option β) :
    StableBefore (read.filterMap f) := by
  intro t b r s hne htakes
  obtain ⟨a, ha, hb⟩ := filterMap_takes_iff.1 htakes
  exact filterMap_takes_iff.2 ⟨a, h s hne ha, hb⟩

theorem Stable.filterMap (h : Stable read) (f : α → Option β) : Stable (read.filterMap f) := by
  intro t b r s htakes
  obtain ⟨a, ha, hb⟩ := filterMap_takes_iff.1 htakes
  exact filterMap_takes_iff.2 ⟨a, h s ha, hb⟩

end Reader

open Reader

variable {t u r : Text} {c : Char}

/-! ## Tokens -/

theorem dropWhile_append_of_ne_nil {p : Char → Bool} (h : t.dropWhile p ≠ []) (s : Text) :
    (t ++ s).dropWhile p = t.dropWhile p ++ s := by
  rw [List.dropWhile_append, if_neg]
  simpa using h

theorem skipBlanks_append (h : skipBlanks t = c :: u) (s : Text) :
    skipBlanks (t ++ s) = c :: (u ++ s) := by
  have hne : t.dropWhile isBlank ≠ [] := by
    rw [show t.dropWhile isBlank = c :: u from h]
    exact List.cons_ne_nil c u
  have happend := dropWhile_append_of_ne_nil hne s
  rw [show t.dropWhile isBlank = c :: u from h] at happend
  exact happend

theorem closeString_append {odd : Bool} {seen x : Text} (h : closeString odd seen t = some (x, r))
    (s : Text) : closeString odd seen (t ++ s) = some (x, r ++ s) := by
  induction t generalizing odd seen with
  | nil => cases h
  | cons c t ih =>
    rw [List.cons_append, closeString]
    rw [closeString] at h
    split at h
    · rename_i hclose
      cases h
      rw [if_pos hclose]
    · rename_i hclose
      rw [if_neg hclose]
      exact ih h

theorem string_stable : Stable string := by
  intro t x r s h
  obtain ⟨u, hu, hclose⟩ := string_takes_iff.1 h
  exact string_takes_iff.2 ⟨u ++ s, skipBlanks_append hu s, closeString_append hclose s⟩

theorem boolean_stable : Stable boolean := by
  intro t b r s h
  rw [boolean_takes_iff] at h ⊢
  cases b <;> exact skipBlanks_append h s

theorem unsigned_stableBefore {limit : Nat} : StableBefore (unsigned limit) := by
  intro t n r s hne h
  obtain ⟨c, u, hskip, h⟩ := unsigned_takes_iff.1 h
  refine unsigned_takes_iff.2 ⟨c, u ++ s, skipBlanks_append hskip s, ?_⟩
  split at h
  · rename_i hzero
    obtain ⟨rfl, rfl⟩ := h
    rw [if_pos hzero]
    exact ⟨rfl, rfl⟩
  · rename_i hzero
    obtain ⟨hdigit, rfl, hlimit, rfl⟩ := h
    -- the digits end before the end of the text
    have htake : (u ++ s).takeWhile Char.isDigit = u.takeWhile Char.isDigit := by
      rw [List.takeWhile_append, if_neg]
      intro hall
      apply hne
      have hlength := congrArg List.length (List.takeWhile_append_dropWhile (p := Char.isDigit) (l := u))
      rw [List.length_append] at hlength
      exact List.length_eq_zero_iff.1 (by omega)
    rw [if_neg hzero, htake]
    exact ⟨hdigit, rfl, hlimit, (dropWhile_append_of_ne_nil hne s).symm⟩

theorem nullable_stable {read : Reader α} (hread : Stable read) (hbegins : BeginsWith c read) :
    Stable (nullable read) := by
  intro t o r s htakes
  rcases nullable_takes_iff.1 htakes with ⟨hnull, rfl⟩ | ⟨hnot, a, ha, ho⟩
  · exact nullable_takes_iff.2 (.inl ⟨skipBlanks_append hnull s, rfl⟩)
  · obtain ⟨u, hskip⟩ := hbegins ha
    refine nullable_takes_iff.2 (.inr ⟨fun v hv => ?_, a, hread s ha, ho⟩)
    rw [skipBlanks_append hskip s] at hv
    exact hnot u (by rw [hskip, (List.cons.inj hv).1])

theorem key_stable : Stable key := by
  intro t k r s h
  obtain ⟨u, hu, hcolon⟩ := key_takes_iff.1 h
  exact key_takes_iff.2 ⟨u ++ s, string_stable s hu, skipBlanks_append hcolon s⟩

theorem nextKey_stable {first : Bool} {k : String} (s : Text) (h : (nextKey first).Takes t (some k) r) :
    (nextKey first).Takes (t ++ s) (some k) (r ++ s) := by
  rw [nextKey_some_takes_iff] at h ⊢
  split at h
  · rename_i hfirst
    rw [if_pos hfirst]
    exact key_stable s h
  · rename_i hfirst
    rw [if_neg hfirst]
    obtain ⟨u, hcomma, hkey⟩ := h
    exact ⟨u ++ s, skipBlanks_append hcomma s, key_stable s hkey⟩

theorem ElementAt.append {fresh fresh' : Bool} (h : ElementAt fresh t fresh' u) (s : Text) :
    ElementAt fresh (t ++ s) fresh' (u ++ s) := by
  obtain ⟨c, v, hskip, hc, hat⟩ := h
  refine ⟨c, v ++ s, skipBlanks_append hskip s, hc, ?_⟩
  rcases hat with ⟨hcomma, hfresh⟩ | ⟨hcomma, rfl, hfresh⟩
  · exact .inl ⟨skipBlanks_append hcomma s, hfresh⟩
  · exact .inr ⟨hcomma, rfl, hfresh⟩

/-! ## Objects -/

section Objects

variable {member : String → σ → Reader σ}

theorem members_stable (hmember : ∀ k known, StableBefore (member k known)) {first : Bool} {known : σ} :
    Stable (members member first known) := by
  intro t g r s h
  induction hn : t.length using Nat.strongRecOn generalizing t first known with
  | ind n ih =>
    rcases members_takes_iff.1 h with ⟨hbrace, rfl⟩ | ⟨k, u, known', v, hkey, hvalue, hrest⟩
    · exact members_takes_iff.2 (.inl ⟨skipBlanks_append hbrace s, rfl⟩)
    · have hlt : v.length < n := hn ▸ Nat.lt_trans hvalue.length_lt hkey.length_lt
      exact members_takes_iff.2 (.inr ⟨k, u ++ s, known', v ++ s, nextKey_stable s hkey,
        hmember k known s (hrest.ne_nil) hvalue, ih _ hlt hrest rfl⟩)

theorem object_stable (hmember : ∀ k known, StableBefore (member k known)) {known : σ} :
    Stable (object member known) := by
  intro t g r s h
  obtain ⟨u, hbrace, hmembers⟩ := object_takes_iff.1 h
  exact object_takes_iff.2 ⟨u ++ s, skipBlanks_append hbrace s, members_stable hmember s hmembers⟩

theorem once_stableBefore {given : Option α} {read : Reader α} {store : α → σ} (h : StableBefore read) :
    StableBefore (once given read store) := by
  intro t g r s hne htakes
  obtain ⟨hgiven, a, ha, hg⟩ := once_takes_iff.1 htakes
  exact once_takes_iff.2 ⟨hgiven, a, h s hne ha, hg⟩

end Objects

/-! ## Lists -/

section Lists

variable {read : Reader α} {most : Nat}

theorem elements_stable (hread : StableBefore read) {fresh : Bool} {known : ListUpTo most α} :
    Stable (elements read most fresh known) := by
  intro t l r s h
  induction hn : t.length using Nat.strongRecOn generalizing t fresh known with
  | ind n ih =>
    rcases elements_takes_iff.1 h with ⟨hbracket, rfl⟩ | ⟨fresh', u, a, v, hat, ha, hroom, hrest⟩
    · exact elements_takes_iff.2 (.inl ⟨skipBlanks_append hbracket s, rfl⟩)
    · have hlt : v.length < n := hn ▸ Nat.lt_of_lt_of_le ha.length_lt hat.suffix.length_le
      exact elements_takes_iff.2 (.inr ⟨fresh', u ++ s, a, v ++ s, hat.append s,
        hread s hrest.ne_nil ha, hroom, ih _ hlt hrest rfl⟩)

theorem listUpTo_stable (hread : StableBefore read) : Stable (listUpTo most read) := by
  intro t l r s h
  obtain ⟨u, hbracket, helements⟩ := listUpTo_takes_iff.1 h
  exact listUpTo_takes_iff.2 ⟨u ++ s, skipBlanks_append hbracket s, elements_stable hread s helements⟩

end Lists

/-! ## What is passed over -/

theorem Leaves.length_lt {passed : Option (Rest t)} (h : Leaves passed r) : r.length < t.length := by
  obtain ⟨hr, -⟩ := h
  exact hr.2

theorem length_lt_of_skipBlanks (h : skipBlanks t = c :: u) : u.length < t.length :=
  (next_takes_iff.2 h).length_lt

-- Values, the elements of a list and the members of an object contain each other, as they do where
-- they are passed over.
mutual

theorem skipValue_append (s : Text) {t r : Text} (h : Leaves (skipValue t) r) :
    Leaves (skipValue (t ++ s)) (r ++ s) := by
  obtain ⟨c, u, hskip, h⟩ := skipValue_leaves_iff.1 h
  have hlt := length_lt_of_skipBlanks hskip
  refine skipValue_leaves_iff.2 ⟨c, u ++ s, skipBlanks_append hskip s, ?_⟩
  unfold PassesFrom at h ⊢
  split at h
  · rename_i hc
    obtain ⟨x, hx⟩ := h
    rw [if_pos hc]
    exact ⟨x, string_stable s hx⟩
  rename_i hstring
  rw [if_neg hstring]
  split at h
  · rename_i hc
    rw [if_pos hc]
    exact skipElements_append s h
  rename_i hlist
  rw [if_neg hlist]
  split at h
  · rename_i hc
    rw [if_pos hc]
    exact skipMembers_append s h
  · rename_i hobject
    obtain ⟨hdelimiter, hne, rfl⟩ := h
    rw [if_neg hobject]
    exact ⟨hdelimiter, List.append_ne_nil_of_left_ne_nil hne s, (dropWhile_append_of_ne_nil hne s).symm⟩
termination_by (t.length, 0)
decreasing_by all_goals exact Prod.Lex.left _ _ hlt

theorem skipElements_append (s : Text) {fresh : Bool} {t r : Text} (h : Leaves (skipElements fresh t) r) :
    Leaves (skipElements fresh (t ++ s)) (r ++ s) := by
  rcases skipElements_leaves_iff.1 h with hbracket | ⟨fresh', u, v, hat, hvalue, hrest⟩
  · exact skipElements_leaves_iff.2 (.inl (skipBlanks_append hbracket s))
  · have hle := hat.suffix.length_le
    have hlt := hvalue.length_lt
    exact skipElements_leaves_iff.2 (.inr ⟨fresh', u ++ s, v ++ s, hat.append s, skipValue_append s hvalue,
      skipElements_append s hrest⟩)
termination_by (t.length, 1)
decreasing_by
  · simp only [Prod.lex_def]; omega
  · exact Prod.Lex.left _ _ (Nat.lt_of_lt_of_le hlt hle)

theorem skipMembers_append (s : Text) {first : Bool} {t r : Text} (h : Leaves (skipMembers first t) r) :
    Leaves (skipMembers first (t ++ s)) (r ++ s) := by
  rcases skipMembers_leaves_iff.1 h with hbrace | ⟨k, u, v, hkey, hvalue, hrest⟩
  · exact skipMembers_leaves_iff.2 (.inl (skipBlanks_append hbrace s))
  · have hlt := hkey.length_lt
    have hlt' := hvalue.length_lt
    exact skipMembers_leaves_iff.2 (.inr ⟨k, u ++ s, v ++ s, nextKey_stable s hkey, skipValue_append s hvalue,
      skipMembers_append s hrest⟩)
termination_by (t.length, 1)
decreasing_by
  · exact Prod.Lex.left _ _ hlt
  · exact Prod.Lex.left _ _ (Nat.lt_trans hlt' hlt)

end

theorem skip_stable {known : σ} : Stable (skip known) := by
  intro t g r s h
  obtain ⟨hleaves, hg⟩ := skip_takes_iff.1 h
  exact skip_takes_iff.2 ⟨skipValue_append s hleaves, hg⟩

end MqttCodec.Json
