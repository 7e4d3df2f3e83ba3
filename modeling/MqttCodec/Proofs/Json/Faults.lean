/-
Ways to write a value down with one thing wrong, and that no reader takes
them. A reader either refuses such a value (`Reader.Refuses`) or, if it is a
number, takes digits off it and leaves something with which no object goes on
(`Reader.StopsAt`). What stands before the fault is read as if nothing were
wrong (`members_through`, `elements_through`), and nothing behind it is
looked at.
-/
import Mathlib.Data.List.Nodup
import MqttCodec.Proofs.Json.Rendering

namespace MqttCodec.Json

open Reader

variable {t u v r rest : Text}

/-! ## Refusal -/

/-- Whether an object can go on, after a value. -/
def GoesOn (t : Text) : Prop := ∃ c u, skipBlanks t = c :: u ∧ (c = ',' ∨ c = '\x7d')

/-- Whether a reader does not get past what is written in a form: if it takes anything of it, no
object goes on with what is left. -/
def Reader.StopsAt {α : Type} (read : Reader α) (form : Form) : Prop :=
  ∀ ⦃tokens t rest⦄, form tokens → Spaced tokens t → NoDigits rest →
    ∀ ⦃a r⦄, read.Takes (t ++ rest) a r → ¬ GoesOn r

/-- Whether a reader does not take what is written in a form. -/
def Reader.Refuses {α : Type} (read : Reader α) (form : Form) : Prop :=
  ∀ ⦃tokens t rest⦄, form tokens → Spaced tokens t → NoDigits rest →
    ∀ ⦃a r⦄, ¬ read.Takes (t ++ rest) a r

theorem not_goesOn_of_first {c : Char} (hblank : isBlank c = false) (hcomma : c ≠ ',')
    (hbrace : c ≠ '\x7d') : ¬ GoesOn (c :: t) := by
  intro h
  obtain ⟨d, u, hskip, hd⟩ := h
  rw [skipBlanks, List.dropWhile_cons_of_neg (by simp [hblank])] at hskip
  cases hskip
  exact hd.elim hcomma hbrace

theorem not_goesOn_of_isDigit {c : Char} (h : c.isDigit) : ¬ GoesOn (c :: t) := by
  refine not_goesOn_of_first (not_isBlank_of_isDigit h) ?_ ?_
  · intro hc
    subst hc
    cases h
  · intro hc
    subst hc
    cases h

section Readers

variable {α β σ : Type} {read : Reader α} {form : Form}

theorem Reader.Refuses.stopsAt (h : read.Refuses form) : read.StopsAt form :=
  fun _ _ _ hform ht hrest _ _ htakes => (h hform ht hrest htakes).elim

theorem Reader.StopsAt.once (h : read.StopsAt form) (given : Option α) (store : α → σ) :
    (once given read store).StopsAt form := by
  intro tokens t rest hform ht hrest g r htakes
  obtain ⟨-, a, ha, -⟩ := once_takes_iff.1 htakes
  exact h hform ht hrest ha

/-- What a reader takes, whatever comes behind it. -/
def Form.acceptedBy (read : Reader α) : Form := fun tokens => ∃ a, read.Accepts a (· = tokens)

/-- Whether what is written in a form begins with a certain character, after blanks. -/
def Form.Opens (c : Char) (form : Form) : Prop :=
  ∀ ⦃tokens t rest⦄, form tokens → Spaced tokens t → NoDigits rest → ∃ u, skipBlanks (t ++ rest) = c :: u

theorem Form.acceptedBy_opens {c : Char} (h : BeginsWith c read) : (Form.acceptedBy read).Opens c := by
  intro tokens t rest hform ht hrest
  obtain ⟨a, haccepts⟩ := hform
  exact h (haccepts tokens t rest rfl ht hrest)

theorem Reader.Refuses.nullable {c : Char} (h : read.Refuses form) (hopens : form.Opens c) (hc : c ≠ 'n') :
    (Json.nullable read).Refuses form := by
  intro tokens t rest hform ht hrest o r htakes
  obtain ⟨u, hu⟩ := hopens hform ht hrest
  obtain ⟨hnull, -⟩ | ⟨-, a, ha, -⟩ := nullable_takes_iff.1 htakes
  · rw [hu] at hnull
    exact hc (List.cons.inj hnull).1
  · exact h hform ht hrest ha

end Readers

/-! ## Numbers -/

/-- The ways to write a number so that it is none: with needless zeros, a sign, or a fraction or an
exponent, whatever is in these. -/
inductive Form.MalformedNat (n : Nat) : Form
  | zeros {zeros : Text} (hne : zeros ≠ []) (h : ∀ c ∈ zeros, c = '0') :
    MalformedNat n [zeros ++ writeNat n]
  | signed {sign : Char} (h : sign = '+' ∨ sign = '-') : MalformedNat n [sign :: writeNat n]
  | marked {mark : Char} {more : Text} (h : mark = '.' ∨ mark = 'e' ∨ mark = 'E') :
    MalformedNat n [writeNat n ++ mark :: more]

/-- What can go wrong where a number stands: it is above the limit, or it is malformed. -/
def Form.FaultyNat (limit n : Nat) : Form := fun tokens =>
  (∃ n', limit < n' ∧ tokens = [writeNat n']) ∨ MalformedNat n tokens

section Numbers

variable {limit n a : Nat}

theorem le_of_unsigned_takes (h : (unsigned limit).Takes t a r) : a ≤ limit := by
  obtain ⟨c, u, -, h⟩ := unsigned_takes_iff.1 h
  split at h
  · rw [h.1]
    exact Nat.zero_le _
  · exact h.2.2.1

theorem unsigned_takes_mono {limit' : Nat} (hlimit : limit ≤ limit') (h : (unsigned limit).Takes t a r) :
    (unsigned limit').Takes t a r := by
  obtain ⟨c, u, hskip, h⟩ := unsigned_takes_iff.1 h
  refine unsigned_takes_iff.2 ⟨c, u, hskip, ?_⟩
  split at h
  · rename_i hc
    rw [if_pos hc]
    exact h
  · rename_i hc
    obtain ⟨hdigit, ha, hle, hr⟩ := h
    rw [if_neg hc]
    exact ⟨hdigit, ha, hle.trans hlimit, hr⟩

/-- A number is taken with all of its digits, and only if it is within the limit. -/
theorem unsigned_takes_written (ht : Spaced [writeNat n] t) (hrest : NoDigits rest)
    (h : (unsigned limit).Takes (t ++ rest) a r) : a = n ∧ r = rest := by
  have hread := unsigned_takes_mono (Nat.le_max_left limit n) h
  exact hread.unique (unsigned_accepts (Nat.le_max_right limit n) _ t rest rfl ht hrest)

/-- A number is taken up to the first character that is no digit. -/
theorem unsigned_takes_before {mark : Char} {more : Text} (hmark : mark.isDigit = false)
    (ht : Spaced [writeNat n ++ mark :: more] t) (h : (unsigned limit).Takes (t ++ rest) a r) :
    r = mark :: (more ++ rest) := by
  obtain ⟨blanks, hblanks, rfl⟩ := ht.singleton
  have hspaced : Spaced [writeNat n] (blanks ++ writeNat n ++ []) := .cons hblanks .nil
  rw [List.append_nil] at hspaced
  have hrest : NoDigits (mark :: (more ++ rest)) := fun c hc => by
    cases hc
    exact hmark
  have htext : blanks ++ (writeNat n ++ mark :: more) ++ rest =
      (blanks ++ writeNat n) ++ mark :: (more ++ rest) := by simp
  rw [htext] at h
  exact (unsigned_takes_written hspaced hrest h).2

theorem isDigit_of_mem_writeNat {c : Char} (h : c ∈ writeNat n) : c.isDigit :=
  Nat.isDigit_of_mem_toDigits (by decide) (by decide) h

theorem writeNat_ne_nil (n : Nat) : writeNat n ≠ [] := by
  obtain ⟨-, h⟩ | ⟨c, digits, h, -⟩ := writeNat_cases n
  · rw [h]
    exact List.cons_ne_nil _ _
  · rw [h]
    exact List.cons_ne_nil _ _

/-- A zero is a number of its own: the digits behind it are left. -/
theorem unsigned_takes_zeros {zeros : Text} (hne : zeros ≠ []) (hzeros : ∀ c ∈ zeros, c = '0')
    (ht : Spaced [zeros ++ writeNat n] t) (h : (unsigned limit).Takes (t ++ rest) a r) :
    ∃ d u, d.isDigit ∧ r = d :: u := by
  obtain ⟨blanks, hblanks, rfl⟩ := ht.singleton
  obtain ⟨zero, zeros, rfl⟩ := List.exists_cons_of_ne_nil hne
  rw [List.forall_mem_cons] at hzeros
  obtain ⟨rfl, hzeros⟩ := hzeros
  obtain ⟨d, digits, hdigits⟩ : ∃ d digits, zeros ++ writeNat n = d :: digits :=
    List.exists_cons_of_ne_nil (List.append_ne_nil_of_right_ne_nil _ (writeNat_ne_nil n))
  have hd : d.isDigit := by
    have hmem : d ∈ zeros ++ writeNat n := hdigits ▸ List.mem_cons_self
    rcases List.mem_append.1 hmem with hd | hd
    · rw [hzeros d hd]
      rfl
    · exact isDigit_of_mem_writeNat hd
  obtain ⟨c, u, hskip, hc⟩ := unsigned_takes_iff.1 h
  rw [List.cons_append, hdigits, List.append_assoc, List.cons_append,
    skipBlanks_append_of_blank hblanks rfl] at hskip
  cases hskip
  rw [if_pos rfl] at hc
  exact ⟨d, _, hd, hc.2⟩

/-- A number does not begin with a sign. -/
theorem not_unsigned_takes_signed {sign : Char} {digits : Text} (hsign : sign = '+' ∨ sign = '-')
    (ht : Spaced [sign :: digits] t) : ¬ (unsigned limit).Takes (t ++ rest) a r := by
  intro h
  obtain ⟨blanks, hblanks, rfl⟩ := ht.singleton
  have hnot : isBlank sign = false ∧ sign ≠ '0' ∧ sign.isDigit = false := by
    rcases hsign with rfl | rfl <;> decide
  obtain ⟨c, u, hskip, hc⟩ := unsigned_takes_iff.1 h
  rw [List.append_assoc, List.cons_append, skipBlanks_append_of_blank hblanks hnot.1] at hskip
  cases hskip
  rw [if_neg hnot.2.1, hnot.2.2] at hc
  cases hc.1

theorem unsigned_stopsAt_malformed (limit n : Nat) :
    (unsigned limit).StopsAt (Form.MalformedNat n) := by
  intro tokens t rest hform ht hrest a r h
  cases hform with
  | zeros hne hzeros =>
    obtain ⟨d, u, hd, rfl⟩ := unsigned_takes_zeros hne hzeros ht h
    exact not_goesOn_of_isDigit hd
  | signed hsign => exact absurd h (not_unsigned_takes_signed hsign ht)
  | marked hmark =>
    rcases hmark with rfl | rfl | rfl
    all_goals
      rw [unsigned_takes_before rfl ht h]
      exact not_goesOn_of_first rfl (by decide) (by decide)

theorem unsigned_stopsAt_faulty (limit n : Nat) : (unsigned limit).StopsAt (Form.FaultyNat limit n) := by
  intro tokens t rest hform ht hrest a r h
  obtain ⟨n', hlarge, rfl⟩ | hform := hform
  · obtain ⟨rfl, -⟩ := unsigned_takes_written ht hrest h
    exact absurd (le_of_unsigned_takes h) (Nat.not_le.2 hlarge)
  · exact unsigned_stopsAt_malformed limit n hform ht hrest h

end Numbers

/-! ## Parts -/

/-- The parts of an object or a list from one of them on, and the closing character. There is a comma
before every part but the first. -/
def partsFrom (first : Bool) (parts : List (List Text)) (close : Char) : List Text :=
  if first then [[',']].intercalate parts ++ [[close]] else partsAfter parts close

theorem partsFrom_nil (first : Bool) (close : Char) : partsFrom first [] close = [[close]] := by
  cases first <;> rfl

theorem partsFrom_true_cons (part : List Text) (parts : List (List Text)) (close : Char) :
    partsFrom true (part :: parts) close = part ++ partsFrom false parts close := by
  simp [partsFrom, partsAfter, intercalate_cons]

theorem partsFrom_false_cons (part : List Text) (parts : List (List Text)) (close : Char) :
    partsFrom false (part :: parts) close = [','] :: (part ++ partsFrom false parts close) := by
  simp [partsFrom, partsAfter]

/-! ## Objects -/

/-- An object with these members. -/
def objectTokens (ms : List (String × List Text)) : List Text :=
  ['\x7b'] :: partsFrom true (ms.map memberTokens) '\x7d'

/-- The ways to write an object with one thing wrong: a member is given once more, with any value that
is accepted for it; a member is missing that is required; or a value is wrong. -/
inductive Form.FaultyObject (fields : List Field) (accepted : String → Form) (required : List String)
    (faulty : String → Form) : Form
  | again {front back : List (String × List Text)} {m : String × List Text}
    (h : Chosen fields (front ++ back)) (hm : m.1 ∈ (front ++ back).map Prod.fst)
    (hvalue : accepted m.1 m.2) :
    FaultyObject fields accepted required faulty (objectTokens (front ++ m :: back))
  | missing {front back : List (String × List Text)} {m : String × List Text}
    (h : Chosen fields (front ++ m :: back)) (hm : m.1 ∈ required) :
    FaultyObject fields accepted required faulty (objectTokens (front ++ back))
  | value {front back : List (String × List Text)} {k : String} {right wrong : List Text}
    (h : Chosen fields (front ++ (k, right) :: back)) (hwrong : faulty k wrong) :
    FaultyObject fields accepted required faulty (objectTokens (front ++ (k, wrong) :: back))

/-- A form for the value of one member, and none for the others. -/
def Form.under (key : String) (form : Form) : String → Form := fun k tokens => k = key ∧ form tokens

theorem Form.faultyObject_opens {fields : List Field} {accepted faulty : String → Form}
    {required : List String} : (Form.FaultyObject fields accepted required faulty).Opens '\x7b' := by
  intro tokens t rest hform ht _
  obtain ⟨ms, rfl⟩ : ∃ ms, tokens = objectTokens ms := by
    cases hform <;> exact ⟨_, rfl⟩
  obtain ⟨u, -, hopen⟩ := skipBlanks_of_spaced rfl ht
  exact ⟨_, hopen rest⟩

section Objects

variable {σ : Type} {member : String → σ → Reader σ} {empty known g : σ} {first : Bool}
  {has : σ → String → Prop} {fields : List Field}

/-- Whether a record tells which members were given: none at first, and then each of the fields as it
is read, which happens once at most and goes as if it were the first. -/
structure Tracks (member : String → σ → Reader σ) (empty : σ) (has : σ → String → Prop)
    (fields : List Field) : Prop where
  not_has_empty : ∀ k, ¬ has empty k
  step : ∀ f ∈ fields, ∀ ⦃g t g' r⦄, (member f.key g).Takes t g' r →
    ¬ has g f.key ∧ (∀ k, has g' k ↔ k = f.key ∨ has g k) ∧ ∃ g₀, (member f.key empty).Takes t g₀ r

/-- A member that may be given once is read as if it were the first. -/
theorem once_takes_first {α : Type} {given : Option α} {read : Reader α} {store store₀ : α → σ}
    (h : (once given read store).Takes t g r) :
    given = none ∧ (∃ a, store a = g) ∧ ∃ g₀, (once none read store₀).Takes t g₀ r := by
  obtain ⟨hgiven, a, ha, hg⟩ := once_takes_iff.1 h
  exact ⟨hgiven, ⟨a, hg⟩, store₀ a, once_takes_iff.2 ⟨rfl, a, ha, rfl⟩⟩

theorem stopsAt_under {key : String} {form : Form} (h : ∀ g, (member key g).StopsAt form) (k : String)
    (g : σ) : (member k g).StopsAt (Form.under key form k) := by
  intro tokens t rest hform
  obtain ⟨rfl, hform⟩ := hform
  exact h g hform

/-- Where a member stands, its key is taken, and its value is read next. -/
theorem members_takes_of_parts {m : String × List Text} {parts : List (List Text)}
    (hkey : RawSafe m.1.toList) (ht : Spaced (partsFrom first (memberTokens m :: parts) '\x7d') t)
    (h : (members member first known).Takes (t ++ rest) g r) :
    ∃ u v known' w, Spaced m.2 u ∧ Spaced (partsFrom false parts '\x7d') v ∧
      (member m.1 known).Takes (u ++ (v ++ rest)) known' w ∧
      (members member false known').Takes w g r := by
  obtain ⟨x, hx, hnext⟩ : ∃ x, Spaced (m.2 ++ partsFrom false parts '\x7d') x ∧
      (nextKey first).Takes (t ++ rest) (some m.1) (x ++ rest) := by
    cases first with
    | true =>
      rw [partsFrom_true_cons] at ht
      obtain ⟨x, hx, htakes⟩ := key_takes_of_spaced hkey ht
      exact ⟨x, hx, nextKey_some_takes_iff.2 (htakes rest)⟩
    | false =>
      rw [partsFrom_false_cons] at ht
      obtain ⟨y, hy, hcomma⟩ := skipBlanks_of_spaced rfl ht
      obtain ⟨x, hx, htakes⟩ := key_takes_of_spaced hkey hy
      exact ⟨x, hx, nextKey_some_takes_iff.2 ⟨y ++ rest, hcomma rest, htakes rest⟩⟩
  obtain ⟨u, v, rfl, hu, hv⟩ := hx.split
  obtain ⟨hbrace, -⟩ | ⟨k, y, known', w, hk, hvalue, hrest⟩ := members_takes_iff.1 h
  · obtain ⟨hnone, -⟩ := hnext.unique (nextKey_none_takes_iff.2 hbrace)
    cases hnone
  · obtain ⟨heq, rfl⟩ := hnext.unique hk
    cases heq
    rw [List.append_assoc] at hvalue
    exact ⟨u, v, known', w, hu, hv, hvalue, hrest⟩

/-- After a member, an object goes on. -/
theorem goesOn_of_members (h : (members member false known).Takes t g r) : GoesOn t := by
  obtain ⟨hbrace, -⟩ | ⟨k, u, known', v, hkey, -⟩ := members_takes_iff.1 h
  · exact ⟨_, _, hbrace, .inr rfl⟩
  · obtain ⟨x, hcomma, -⟩ := nextKey_some_takes_iff.1 hkey
    exact ⟨_, _, hcomma, .inl rfl⟩

/-- Whether these are members of the fields, with values that are accepted. -/
def AllAccepted (member : String → σ → Reader σ) (empty : σ) (fields : List Field)
    (ms : List (String × List Text)) : Prop :=
  ∀ m ∈ ms, m.1 ∈ fields.map Field.key ∧ Form.acceptedBy (member m.1 empty) m.2

/-- **What stands before a fault in an object is read**: each of the members is given for the first
time, and the record tells so. -/
theorem members_through (htracks : Tracks member empty has fields) {ms : List (String × List Text)}
    (hms : AllAccepted member empty fields ms) {parts : List (List Text)}
    (ht : Spaced (partsFrom first (ms.map memberTokens ++ parts) '\x7d') t)
    (h : (members member first known).Takes (t ++ rest) g r) :
    (ms.map Prod.fst).Nodup ∧ (∀ k ∈ ms.map Prod.fst, ¬ has known k) ∧
      ∃ first' known' u, Spaced (partsFrom first' parts '\x7d') u ∧
        (members member first' known').Takes (u ++ rest) g r ∧
        ∀ k, has known' k ↔ k ∈ ms.map Prod.fst ∨ has known k := by
  induction ms generalizing first known t with
  | nil =>
    exact ⟨List.nodup_nil, fun _ hk => absurd hk List.not_mem_nil,
      first, known, t, ht, h, fun k => by simp⟩
  | cons m ms ih =>
    rw [AllAccepted, List.forall_mem_cons] at hms
    obtain ⟨⟨hkey, g₁, haccepts⟩, hms⟩ := hms
    obtain ⟨f, hf, hname⟩ := List.mem_map.1 hkey
    obtain ⟨u, v, known', w, hu, hv, hvalue, hrest⟩ :=
      members_takes_of_parts (hname ▸ f.rawSafe_key) ht h
    rw [← hname] at hvalue haccepts
    obtain ⟨hfresh, hhas, g₀, hvalue₀⟩ := htracks.step f hf hvalue
    -- the value is taken whole, as it would be if it came first
    have hwhole := haccepts m.2 u (v ++ rest) rfl hu (noDigits_of_partsAfter rfl hv)
    obtain ⟨-, rfl⟩ := hvalue₀.unique hwhole
    obtain ⟨hnodup, hnew, first', known'', u', hu', hmembers, hhas'⟩ := ih hms hv hrest
    rw [hname] at hfresh hhas
    refine ⟨?_, ?_, first', known'', u', hu', hmembers, fun k => ?_⟩
    · rw [List.map_cons, List.nodup_cons]
      exact ⟨fun hm => hnew m.1 hm ((hhas m.1).2 (.inl rfl)), hnodup⟩
    · rw [List.map_cons, List.forall_mem_cons]
      exact ⟨hfresh, fun k hk hknown => hnew k hk ((hhas k).2 (.inr hknown))⟩
    · rw [hhas', hhas, List.map_cons, List.mem_cons, or_assoc, or_left_comm]

theorem members_takes_of_object {ms : List (String × List Text)} (ht : Spaced (objectTokens ms) t)
    (h : (object member known).Takes (t ++ rest) g r) :
    ∃ u, Spaced (partsFrom true (ms.map memberTokens) '\x7d') u ∧
      (members member true known).Takes (u ++ rest) g r := by
  obtain ⟨u, hu, hopen⟩ := skipBlanks_of_spaced rfl ht
  obtain ⟨v, hbrace, hmembers⟩ := object_takes_iff.1 h
  cases (hopen rest).symm.trans hbrace
  exact ⟨u, hu, hmembers⟩

/-- An object without a wrong value is read only if no member is given twice, and what is read of it
tells which were given. -/
theorem object_takes_of_accepted (htracks : Tracks member empty has fields)
    {ms : List (String × List Text)} (hms : AllAccepted member empty fields ms)
    (ht : Spaced (objectTokens ms) t) (h : (object member empty).Takes (t ++ rest) g r) :
    (ms.map Prod.fst).Nodup ∧ ∀ k, has g k ↔ k ∈ ms.map Prod.fst := by
  obtain ⟨u, hu, hmembers⟩ := members_takes_of_object ht h
  rw [← List.append_nil (ms.map memberTokens)] at hu
  obtain ⟨hnodup, -, first, known, v, hv, hend, hhas⟩ := members_through htracks hms hu hmembers
  rw [partsFrom_nil] at hv
  obtain ⟨w, -, hclose⟩ := skipBlanks_of_spaced rfl hv
  obtain ⟨rfl, -⟩ := hend.unique (members_takes_iff.2 (.inl ⟨hclose rest, rfl⟩))
  refine ⟨hnodup, fun k => ?_⟩
  rw [hhas]
  exact or_iff_left (htracks.not_has_empty k)

theorem allAccepted_of_chosen {given : List String → σ} (hgathers : Gathers member fields given)
    {ms : List (String × List Text)} (h : Chosen fields ms) :
    AllAccepted member (given []) fields ms := by
  intro m hm
  obtain ⟨f, hf, hname, hform⟩ := h.known m hm
  have haccepts := hgathers f hf [] List.not_mem_nil
  rw [hname] at haccepts
  refine ⟨hname ▸ List.mem_map_of_mem hf, given [m.1], fun tokens t rest htokens => ?_⟩
  subst htokens
  exact haccepts m.2 t rest hform

/-- Where keys stand once each, none of them stands before or behind itself. -/
theorem not_mem_of_nodup_keys {front back : List (String × List Text)} {m : String × List Text}
    (h : ((front ++ m :: back).map Prod.fst).Nodup) : m.1 ∉ (front ++ back).map Prod.fst := by
  rw [List.map_append, List.map_cons, List.nodup_middle, List.nodup_cons, ← List.map_append] at h
  exact h.1

section Faults

variable {given : List String → σ} {front back : List (String × List Text)}

theorem not_object_takes_again (hgathers : Gathers member fields given)
    (htracks : Tracks member (given []) has fields) {m : String × List Text}
    (h : Chosen fields (front ++ back)) (hm : m.1 ∈ (front ++ back).map Prod.fst)
    (hvalue : Form.acceptedBy (member m.1 (given [])) m.2)
    (ht : Spaced (objectTokens (front ++ m :: back)) t) :
    ¬ (object member (given [])).Takes (t ++ rest) g r := by
  intro hobject
  have haccepted := allAccepted_of_chosen hgathers h
  obtain ⟨m', hm', hkey⟩ := List.mem_map.1 hm
  have hfield : m.1 ∈ fields.map Field.key := hkey ▸ (haccepted m' hm').1
  rw [AllAccepted, List.forall_mem_append] at haccepted
  have hms : AllAccepted member (given []) fields (front ++ m :: back) :=
    List.forall_mem_append.2 ⟨haccepted.1, List.forall_mem_cons.2 ⟨⟨hfield, hvalue⟩, haccepted.2⟩⟩
  obtain ⟨hnodup, -⟩ := object_takes_of_accepted htracks hms ht hobject
  exact not_mem_of_nodup_keys hnodup hm

/-- What is read of an object tells that a member is missing. -/
theorem not_has_of_missing (hgathers : Gathers member fields given)
    (htracks : Tracks member (given []) has fields) {m : String × List Text}
    (h : Chosen fields (front ++ m :: back)) (ht : Spaced (objectTokens (front ++ back)) t)
    (hobject : (object member (given [])).Takes (t ++ rest) g r) : ¬ has g m.1 := by
  have haccepted := allAccepted_of_chosen hgathers h
  rw [AllAccepted, List.forall_mem_append, List.forall_mem_cons] at haccepted
  have hms : AllAccepted member (given []) fields (front ++ back) :=
    List.forall_mem_append.2 ⟨haccepted.1, haccepted.2.2⟩
  obtain ⟨-, hhas⟩ := object_takes_of_accepted htracks hms ht hobject
  rw [hhas]
  exact not_mem_of_nodup_keys h.nodup

theorem not_object_takes_wrong (hgathers : Gathers member fields given)
    (htracks : Tracks member (given []) has fields) {faulty : Form} {k : String} {right wrong : List Text}
    (h : Chosen fields (front ++ (k, right) :: back)) (hfaulty : ∀ g, (member k g).StopsAt faulty)
    (hwrong : faulty wrong) (ht : Spaced (objectTokens (front ++ (k, wrong) :: back)) t) :
    ¬ (object member (given [])).Takes (t ++ rest) g r := by
  intro hobject
  have haccepted := allAccepted_of_chosen hgathers h
  rw [AllAccepted, List.forall_mem_append] at haccepted
  obtain ⟨f, -, hname, -⟩ := h.known (k, right) (List.mem_append_right _ List.mem_cons_self)
  have hname : f.key = k := hname
  obtain ⟨u, hu, hmembers⟩ := members_takes_of_object ht hobject
  rw [List.map_append, List.map_cons] at hu
  obtain ⟨-, -, first, known, v, hv, hmembers, -⟩ := members_through htracks haccepted.1 hu hmembers
  obtain ⟨x, y, known', w, hx, hy, hvalue, hmembers⟩ :=
    members_takes_of_parts (hname ▸ f.rawSafe_key) hv hmembers
  exact hfaulty known hwrong hx (noDigits_of_partsAfter rfl hy) hvalue (goesOn_of_members hmembers)

/-- **An object with one thing wrong is refused**, if the record tells which members were given,
nothing is made of it without those that are required, and no reader gets past a wrong value. -/
theorem object_refuses {α : Type} {complete : σ → Option α} {required : List String}
    {faulty : String → Form} (hgathers : Gathers member fields given)
    (htracks : Tracks member (given []) has fields)
    (hrequired : ∀ g, ∀ k ∈ required, ¬ has g k → complete g = none)
    (hfaulty : ∀ k g, (member k g).StopsAt (faulty k)) :
    ((object member (given [])).filterMap complete).Refuses
      (.FaultyObject fields (fun k => .acceptedBy (member k (given []))) required faulty) := by
  intro tokens t rest hform ht _ a r h
  obtain ⟨g, hobject, hcomplete⟩ := filterMap_takes_iff.1 h
  cases hform with
  | again h hm hvalue => exact not_object_takes_again hgathers htracks h hm hvalue ht hobject
  | @missing front back m h hm =>
    rw [hrequired g m.1 hm (not_has_of_missing hgathers htracks h ht hobject)] at hcomplete
    cases hcomplete
  | value h hwrong => exact not_object_takes_wrong hgathers htracks h (hfaulty _) hwrong ht hobject

end Faults

end Objects

/-! ## Lists -/

/-- A list of these parts. -/
def listTokens (parts : List (List Text)) : List Text := ['['] :: partsFrom true parts ']'

/-- The ways to write a list with one thing wrong: it has more elements than it can, or an element is
wrong. -/
inductive Form.FaultyList (most : Nat) (accepted faulty : Form) : Form
  | tooLong {parts : List (List Text)} (hlength : most < parts.length)
    (h : ∀ part ∈ parts, accepted part) : FaultyList most accepted faulty (listTokens parts)
  | element {front back : List (List Text)} {wrong : List Text} (hfront : ∀ part ∈ front, accepted part)
    (hback : ∀ part ∈ back, accepted part) (hwrong : faulty wrong) :
    FaultyList most accepted faulty (listTokens (front ++ wrong :: back))

section Lists

variable {α : Type} {read : Reader α} {most : Nat} {c : Char} {fresh first : Bool}
  {known l : ListUpTo most α}

/-- Where an element stands, it is read next. -/
theorem elements_takes_of_parts {form : Form} (hopens : form.Opens c) (hbracket : c ≠ ']')
    (hcomma : c ≠ ',') {part : List Text} {parts : List (List Text)} (hpart : form part)
    (ht : Spaced (partsFrom first (part :: parts) ']') t)
    (h : (elements read most fresh known).Takes (t ++ rest) l r) :
    ∃ u v a w fresh', Spaced part u ∧ Spaced (partsFrom false parts ']') v ∧
      read.Takes (u ++ (v ++ rest)) a w ∧ ∃ hroom : (known.1 ++ [a]).length ≤ most,
        (elements read most fresh' ⟨known.1 ++ [a], hroom⟩).Takes w l r := by
  cases first with
  | true =>
    rw [partsFrom_true_cons] at ht
    obtain ⟨u, v, rfl, hu, hv⟩ := ht.split
    rw [List.append_assoc] at h
    obtain ⟨x, hx⟩ := hopens hpart hu (noDigits_of_partsAfter rfl hv)
    obtain ⟨hclose, -⟩ | ⟨fresh', y, a, w, hat, hread, hrest⟩ := elements_takes_iff.1 h
    · rw [hx] at hclose
      exact absurd (List.cons.inj hclose).1 hbracket
    · obtain ⟨-, -, -, -, ⟨hskip, -⟩ | ⟨-, rfl, -⟩⟩ := hat
      · rw [hx] at hskip
        exact absurd (List.cons.inj hskip).1 hcomma
      · exact ⟨u, v, a, w, fresh', hu, hv, hread, hrest⟩
  | false =>
    rw [partsFrom_false_cons] at ht
    obtain ⟨x, hx, hskip⟩ := skipBlanks_of_spaced rfl ht
    obtain ⟨u, v, rfl, hu, hv⟩ := hx.split
    obtain ⟨hclose, -⟩ | ⟨fresh', y, a, w, hat, hread, hrest⟩ := elements_takes_iff.1 h
    · rw [hskip] at hclose
      cases hclose
    · obtain ⟨d, z, hd, -, ⟨hy, -⟩ | ⟨hne, rfl, -⟩⟩ := hat
      · cases (hskip rest).symm.trans hy
        rw [List.append_assoc] at hread
        exact ⟨u, v, a, w, fresh', hu, hv, hread, hrest⟩
      · cases (hskip rest).symm.trans hd
        exact absurd rfl hne

/-- **What stands before a fault in a list is read**, if there is room for it. -/
theorem elements_through (hbegins : BeginsWith c read) (hbracket : c ≠ ']') (hcomma : c ≠ ',')
    {front parts : List (List Text)} (hfront : ∀ part ∈ front, Form.acceptedBy read part)
    (ht : Spaced (partsFrom first (front ++ parts) ']') t)
    (h : (elements read most fresh known).Takes (t ++ rest) l r) :
    known.1.length + front.length ≤ most ∧
      ∃ first' fresh' known' u, Spaced (partsFrom first' parts ']') u ∧
        (elements read most fresh' known').Takes (u ++ rest) l r := by
  induction front generalizing first fresh known t with
  | nil => exact ⟨known.2, first, fresh, known, t, ht, h⟩
  | cons part front ih =>
    rw [List.forall_mem_cons] at hfront
    obtain ⟨u, v, a, w, fresh', hu, hv, hread, hroom, hrest⟩ :=
      elements_takes_of_parts (Form.acceptedBy_opens hbegins) hbracket hcomma hfront.1 ht h
    obtain ⟨a', haccepts⟩ := hfront.1
    obtain ⟨-, rfl⟩ := hread.unique (haccepts part u (v ++ rest) rfl hu (noDigits_of_partsAfter rfl hv))
    obtain ⟨hlength, hthrough⟩ := ih hfront.2 hv hrest
    refine ⟨?_, hthrough⟩
    rw [List.length_append] at hlength
    rw [List.length_cons, Nat.add_comm front.length, ← Nat.add_assoc]
    exact hlength

theorem elements_takes_of_list {parts : List (List Text)} (ht : Spaced (listTokens parts) t)
    (h : (listUpTo most read).Takes (t ++ rest) l r) :
    ∃ u, Spaced (partsFrom true parts ']') u ∧
      (elements read most true ⟨[], Nat.zero_le _⟩).Takes (u ++ rest) l r := by
  obtain ⟨u, hu, hopen⟩ := skipBlanks_of_spaced rfl ht
  obtain ⟨v, hbracket, helements⟩ := listUpTo_takes_iff.1 h
  cases (hopen rest).symm.trans hbracket
  exact ⟨u, hu, helements⟩

/-- **A list with one thing wrong is refused**, if the reader of its elements refuses a wrong one. -/
theorem listUpTo_refuses {faulty : Form} (hbegins : BeginsWith c read) (hbracket : c ≠ ']')
    (hcomma : c ≠ ',') (hopens : faulty.Opens c) (hrefuses : read.Refuses faulty) :
    (listUpTo most read).Refuses (.FaultyList most (.acceptedBy read) faulty) := by
  intro tokens t rest hform ht _ l r h
  cases hform with
  | @tooLong parts hlength hparts =>
    obtain ⟨u, hu, helements⟩ := elements_takes_of_list ht h
    rw [← List.append_nil parts] at hu
    obtain ⟨hroom, -⟩ := elements_through hbegins hbracket hcomma hparts hu helements
    rw [List.length_nil, Nat.zero_add] at hroom
    exact absurd hroom (Nat.not_le.2 hlength)
  | element hfront _ hwrong =>
    obtain ⟨u, hu, helements⟩ := elements_takes_of_list ht h
    obtain ⟨-, first, fresh, known, v, hv, hrest⟩ :=
      elements_through hbegins hbracket hcomma hfront hu helements
    obtain ⟨x, y, a, w, fresh', hx, hy, hread, -⟩ :=
      elements_takes_of_parts hopens hbracket hcomma hwrong hv hrest
    exact hrefuses hwrong hx (noDigits_of_partsAfter rfl hy) hread

end Lists

end MqttCodec.Json
