/-
The ways to write a value down. A value is written as tokens, with any blanks
before each (`Spaced`). A `Form` says which tokens it may be: the members of an
object stand in any order, and some may be left out (`Form.object`). What is
written in a form that a reader accepts is taken from the front of a text,
whatever comes behind it, so long as that does not go on as a number
(`Reader.Accepts`). What the writer writes is in such a form, without blanks
and with its strings escaped (`Form.Writes`).
-/
import Mathlib.Data.List.Forall2
import MqttCodec.Proofs.Json.Reader
import MqttCodec.Proofs.Json.Strings

namespace MqttCodec.Json

/-! ## Tokens -/

/-- Tokens with any blanks before each of them. -/
inductive Spaced : List Text → Text → Prop
  | nil : Spaced [] []
  | cons {blanks token t : Text} {tokens : List Text} (hblanks : ∀ c ∈ blanks, isBlank c)
    (ht : Spaced tokens t) : Spaced (token :: tokens) (blanks ++ token ++ t)

theorem Spaced.split {tokens tokens' : List Text} {t : Text} (h : Spaced (tokens ++ tokens') t) :
    ∃ u v, t = u ++ v ∧ Spaced tokens u ∧ Spaced tokens' v := by
  induction tokens generalizing t with
  | nil => exact ⟨[], t, rfl, .nil, h⟩
  | cons token tokens ih =>
    cases h with
    | cons hblanks ht =>
      obtain ⟨u, v, rfl, hu, hv⟩ := ih ht
      exact ⟨_, v, (List.append_assoc ..).symm, .cons hblanks hu, hv⟩

theorem Spaced.singleton {token t : Text} (h : Spaced [token] t) :
    ∃ blanks, (∀ c ∈ blanks, isBlank c) ∧ t = blanks ++ token := by
  cases h with
  | cons hblanks ht =>
    cases ht
    exact ⟨_, hblanks, List.append_nil _⟩

/-- Each token with blanks of one's choice before it. -/
theorem spaced_zipWith {gaps tokens : List Text} (hlength : gaps.length = tokens.length)
    (hgaps : ∀ gap ∈ gaps, gap.all isBlank) :
    Spaced tokens (List.zipWith (· ++ ·) gaps tokens).flatten := by
  induction tokens generalizing gaps with
  | nil =>
    rw [List.zipWith_nil_right]
    exact .nil
  | cons token tokens ih =>
    cases gaps with
    | nil => cases hlength
    | cons gap gaps =>
      rw [List.forall_mem_cons] at hgaps
      exact .cons (List.all_eq_true.1 hgaps.1) (ih (Nat.succ.inj hlength) hgaps.2)

/-- Tokens may stand without any blanks. -/
theorem spaced_flatten (tokens : List Text) : Spaced tokens tokens.flatten := by
  induction tokens with
  | nil => exact .nil
  | cons token tokens ih => exact .cons (List.forall_mem_nil _) ih

theorem skipBlanks_append_of_blank {blanks : Text} (hblanks : ∀ c ∈ blanks, isBlank c) {c : Char}
    (hc : isBlank c = false) (t : Text) : skipBlanks (blanks ++ c :: t) = c :: t := by
  rw [skipBlanks, List.dropWhile_append_of_pos hblanks, List.dropWhile_cons_of_neg (by simp [hc])]

theorem not_isDigit_of_isBlank {c : Char} (h : isBlank c) : c.isDigit = false := by
  simp only [isBlank, Bool.or_eq_true, decide_eq_true_eq] at h
  obtain ((rfl | rfl) | rfl) | rfl := h <;> rfl

theorem not_isBlank_of_isDigit {c : Char} (h : c.isDigit) : isBlank c = false := by
  rw [Bool.eq_false_iff]
  intro hblank
  rw [not_isDigit_of_isBlank hblank] at h
  cases h

/-! ## Forms -/

/-- The ways to write a value, as tokens. -/
abbrev Form := List Text → Prop

namespace Form

def quoted (s : Text) : Text := '"' :: (s ++ ['"'])

def string (s : String) : Form := (· = [quoted s.toList])

def nat (n : Nat) : Form := (· = [writeNat n])

def bool (b : Bool) : Form := (· = [writeBool b])

def nullable {α : Type} (form : α → Form) : Option α → Form
  | none => (· = [['n', 'u', 'l', 'l']])
  | some a => form a

end Form

/-- A member of an object: its key, the ways to write its value, and whether it may be left out. -/
structure Field where
  key : String
  form : Form
  Omissible : Prop
  plain_key : key.toList.all Plain := by decide

namespace Field

theorem plain_of_mem_key (f : Field) : ∀ c ∈ f.key.toList, Plain c := by
  simpa using f.plain_key

theorem rawSafe_key (f : Field) : RawSafe f.key.toList := rawSafe_of_plain f.plain_of_mem_key

end Field

/-- A member as tokens. -/
def memberTokens (m : String × List Text) : List Text := Form.quoted m.1.toList :: [':'] :: m.2

/-- A choice of members with their values. Each stands in it once, if at all. -/
structure Chosen (fields : List Field) (members : List (String × List Text)) : Prop where
  nodup : (members.map Prod.fst).Nodup
  known : ∀ m ∈ members, ∃ f ∈ fields, f.key = m.1 ∧ f.form m.2
  complete : ∀ f ∈ fields, f.key ∈ members.map Prod.fst ∨ f.Omissible

namespace Form

/-- An object with a choice of members, in any order. -/
def object (fields : List Field) : Form := fun tokens =>
  ∃ members, Chosen fields members ∧
    tokens = ['\x7b'] :: ([[',']].intercalate (members.map memberTokens) ++ [['\x7d']])

/-- A list with a way to write each element. -/
def list (forms : List Form) : Form := fun tokens =>
  ∃ elements, List.Forall₂ (fun form element => form element) forms elements ∧
    tokens = ['['] :: ([[',']].intercalate elements ++ [[']']])

end Form

/-! ## Reading -/

/-- Whether a text cannot be taken for more digits. -/
def NoDigits (t : Text) : Prop := ∀ c ∈ t.head?, c.isDigit = false

theorem noDigits_of_blank {blanks : Text} (h : ∀ c ∈ blanks, isBlank c) : NoDigits blanks :=
  fun c hc => not_isDigit_of_isBlank (h c (List.mem_of_mem_head? hc))

/-- Whether a reader takes a value from whatever is written in a form. -/
def Reader.Accepts {α : Type} (read : Reader α) (a : α) (form : Form) : Prop :=
  ∀ tokens t rest, form tokens → Spaced tokens t → NoDigits rest → read.Takes (t ++ rest) a rest

open Reader

theorem string_accepts {s : String} (h : RawSafe s.toList) : string.Accepts s (.string s) := by
  intro tokens t rest hform ht _
  obtain rfl : tokens = _ := hform
  obtain ⟨blanks, hblanks, rfl⟩ := ht.singleton
  rw [List.append_assoc]
  refine string_takes_iff.2 ⟨s.toList ++ '"' :: rest, ?_, closeString_eq_some_iff.2 ⟨rfl, h⟩⟩
  rw [Form.quoted, List.cons_append, List.append_assoc]
  exact skipBlanks_append_of_blank hblanks rfl _

theorem boolean_accepts (b : Bool) : boolean.Accepts b (.bool b) := by
  intro tokens t rest hform ht _
  obtain rfl : tokens = _ := hform
  obtain ⟨blanks, hblanks, rfl⟩ := ht.singleton
  rw [List.append_assoc, boolean_takes_iff]
  cases b <;> exact skipBlanks_append_of_blank hblanks rfl _

/-- A number in decimal is 0 or begins with another digit. -/
theorem writeNat_cases (n : Nat) :
    (n = 0 ∧ writeNat n = ['0']) ∨ ∃ c digits, writeNat n = c :: digits ∧ c ≠ '0' := by
  unfold writeNat
  induction n using Nat.strongRecOn with
  | ind n ih =>
    by_cases hn : n < 10
    · rw [Nat.toDigits_of_lt_base hn]
      by_cases hzero : n = 0
      · exact .inl ⟨hzero, by rw [hzero]; rfl⟩
      · exact .inr ⟨_, [], rfl, fun h => hzero (Nat.digitChar_eq_zero.1 h)⟩
    · rw [Nat.toDigits_of_base_le (by decide) (Nat.not_lt.1 hn)]
      rcases ih (n / 10) (by omega) with ⟨hzero, -⟩ | ⟨c, digits, hdigits, hc⟩
      · omega
      · exact .inr ⟨c, _, by rw [hdigits, List.cons_append], hc⟩

theorem takeWhile_isDigit_append {digits rest : Text} (hdigits : ∀ c ∈ digits, c.isDigit)
    (hrest : NoDigits rest) :
    (digits ++ rest).takeWhile Char.isDigit = digits ∧
      (digits ++ rest).dropWhile Char.isDigit = rest := by
  rw [List.takeWhile_append_of_pos hdigits, List.dropWhile_append_of_pos hdigits]
  cases rest with
  | nil => simp
  | cons c rest =>
    have hc : c.isDigit = false := hrest c rfl
    simp [hc]

theorem unsigned_accepts {limit n : Nat} (h : n ≤ limit) : (unsigned limit).Accepts n (.nat n) := by
  intro tokens t rest hform ht hrest
  obtain rfl : tokens = _ := hform
  obtain ⟨blanks, hblanks, rfl⟩ := ht.singleton
  rw [List.append_assoc]
  have hdigits : ∀ c ∈ writeNat n, c.isDigit := fun c =>
    Nat.isDigit_of_mem_toDigits (by decide) (by decide)
  have hvalue : Nat.ofDigitChars 10 (writeNat n) 0 = n :=
    Nat.ofDigitChars_toDigits (by decide) (by decide)
  rcases writeNat_cases n with ⟨rfl, hzero⟩ | ⟨c, digits, hwrite, hc⟩
  · rw [hzero]
    exact unsigned_takes_iff.2 ⟨'0', rest, skipBlanks_append_of_blank hblanks rfl rest, rfl, rfl⟩
  · rw [hwrite] at hdigits hvalue ⊢
    obtain ⟨hdigit, hdigits⟩ := List.forall_mem_cons.1 hdigits
    obtain ⟨htake, hdrop⟩ := takeWhile_isDigit_append hdigits hrest
    refine unsigned_takes_iff.2 ⟨c, digits ++ rest, ?_, ?_⟩
    · exact skipBlanks_append_of_blank hblanks (not_isBlank_of_isDigit hdigit) _
    · rw [if_neg hc, htake, hdrop]
      exact ⟨hdigit, hvalue.symm, h, rfl⟩

section Nullable

variable {α : Type} {read : Reader α} {form : α → Form} {c : Char}

theorem nullable_accepts (hbegins : BeginsWith c read) (hc : c ≠ 'n') {o : Option α}
    (h : ∀ a ∈ o, read.Accepts a (form a)) : (nullable read).Accepts o (.nullable form o) := by
  intro tokens t rest hform ht hrest
  cases o with
  | none =>
    obtain rfl : tokens = _ := hform
    obtain ⟨blanks, hblanks, rfl⟩ := ht.singleton
    rw [List.append_assoc]
    exact nullable_takes_iff.2 (.inl ⟨skipBlanks_append_of_blank hblanks rfl _, rfl⟩)
  | some a =>
    have htakes := h a rfl tokens t rest hform ht hrest
    obtain ⟨u, hu⟩ := hbegins htakes
    refine nullable_takes_iff.2 (.inr ⟨fun v hv => ?_, a, htakes, rfl⟩)
    rw [hu] at hv
    exact hc (List.cons.inj hv).1

end Nullable

/-- One character that stands alone, and what comes after it. -/
theorem skipBlanks_of_spaced {c : Char} {token t : Text} {tokens : List Text} (hc : isBlank c = false)
    (h : Spaced ((c :: token) :: tokens) t) :
    ∃ u, Spaced tokens u ∧ ∀ rest, skipBlanks (t ++ rest) = c :: (token ++ (u ++ rest)) := by
  cases h with
  | @cons blanks _ u _ hblanks hu =>
    refine ⟨u, hu, fun rest => ?_⟩
    rw [List.append_assoc, List.append_assoc, List.cons_append]
    exact skipBlanks_append_of_blank hblanks hc _

/-- Neither blanks nor punctuation go on as a number. -/
theorem noDigits_of_spaced {c : Char} {token t rest : Text} {tokens : List Text}
    (hc : c.isDigit = false) (h : Spaced ((c :: token) :: tokens) t) : NoDigits (t ++ rest) := by
  cases h with
  | @cons blanks _ u _ hblanks hu =>
    intro d hd
    cases blanks with
    | nil =>
      cases hd
      exact hc
    | cons b blanks =>
      cases hd
      exact not_isDigit_of_isBlank (hblanks _ List.mem_cons_self)

theorem intercalate_cons {α : Type} (separator first : List α) (rest : List (List α)) :
    separator.intercalate (first :: rest) = first ++ rest.flatMap (separator ++ ·) := by
  induction rest generalizing first with
  | nil => simp
  | cons second rest ih =>
    rw [List.intercalate_cons_cons, ih, List.flatMap_cons]
    simp

/-- What comes after the first part of an object or a list: more parts, each after a comma, and the
closing character. -/
def partsAfter (parts : List (List Text)) (close : Char) : List Text :=
  parts.flatMap ([[',']] ++ ·) ++ [[close]]

theorem noDigits_of_partsAfter {parts : List (List Text)} {close : Char} (hclose : close.isDigit = false)
    {t rest : Text} (h : Spaced (partsAfter parts close) t) : NoDigits (t ++ rest) := by
  cases parts with
  | nil => exact noDigits_of_spaced hclose h
  | cons part parts => exact noDigits_of_spaced (c := ',') rfl h

/-! ### Objects -/

section Objects

variable {σ : Type} {member : String → σ → Reader σ} {fields : List Field} {given : List String → σ}

/-- Whether the members are read one by one, in any order: if the record shows what stands under the
keys so far, it does so with one more of the fields. -/
def Gathers (member : String → σ → Reader σ) (fields : List Field) (given : List String → σ) : Prop :=
  ∀ f ∈ fields, ∀ keys, f.key ∉ keys →
    (member f.key (given keys)).Accepts (given (f.key :: keys)) f.form

theorem key_takes_of_spaced {m : String × List Text} {rest : List Text} {t : Text}
    (hkey : RawSafe m.1.toList) (h : Spaced (memberTokens m ++ rest) t) :
    ∃ u, Spaced (m.2 ++ rest) u ∧ ∀ r, key.Takes (t ++ r) m.1 (u ++ r) := by
  obtain ⟨v, hv, hquote⟩ := skipBlanks_of_spaced rfl h
  obtain ⟨u, hu, hcolon⟩ := skipBlanks_of_spaced rfl hv
  refine ⟨u, hu, fun r => key_takes_iff.2 ⟨v ++ r, string_takes_iff.2 ⟨_, hquote r, ?_⟩, hcolon r⟩⟩
  rw [List.append_assoc]
  exact closeString_eq_some_iff.2 ⟨rfl, hkey⟩

/-- A member, and those after it. -/
theorem members_takes_of_member (hgathers : Gathers member fields given) {m : String × List Text}
    (hm : ∃ f ∈ fields, f.key = m.1 ∧ f.form m.2) {keys : List String} (hnew : m.1 ∉ keys)
    {first : Bool} {t u rest : Text} {parts : List (List Text)} {g : σ}
    (hu : Spaced (memberTokens m ++ partsAfter parts '\x7d') u)
    (hkey : ∀ v, key.Takes (u ++ rest) m.1 v → (nextKey first).Takes t (some m.1) v)
    (hrest : ∀ v, Spaced (partsAfter parts '\x7d') v →
      (members member false (given (m.1 :: keys))).Takes (v ++ rest) g rest) :
    (members member first (given keys)).Takes t g rest := by
  obtain ⟨f, hf, hname, hform⟩ := hm
  obtain ⟨w, hw, htakes⟩ := key_takes_of_spaced (hname ▸ f.rawSafe_key) hu
  obtain ⟨x, v, rfl, hx, hv⟩ := hw.split
  have hvalue := hgathers f hf keys (hname ▸ hnew) m.2 x (v ++ rest) hform hx
    (noDigits_of_partsAfter rfl hv)
  rw [hname, ← List.append_assoc] at hvalue
  exact members_takes_iff.2 (.inr ⟨m.1, _, _, v ++ rest, hkey _ (htakes rest), hvalue, hrest v hv⟩)

/-- The members after a comma, or the brace. -/
theorem members_takes_of_partsAfter (hgathers : Gathers member fields given)
    {ms : List (String × List Text)} (hknown : ∀ m ∈ ms, ∃ f ∈ fields, f.key = m.1 ∧ f.form m.2)
    {keys : List String} (hnodup : (ms.map Prod.fst).Nodup) (hnew : ∀ m ∈ ms, m.1 ∉ keys) {t : Text}
    (h : Spaced (partsAfter (ms.map memberTokens) '\x7d') t) (rest : Text) :
    (members member false (given keys)).Takes (t ++ rest)
      (given ((ms.map Prod.fst).reverse ++ keys)) rest := by
  induction ms generalizing keys t with
  | nil =>
    obtain ⟨u, hu, hbrace⟩ := skipBlanks_of_spaced rfl h
    cases hu
    exact members_takes_iff.2 (.inl ⟨hbrace rest, rfl⟩)
  | cons m ms ih =>
    rw [List.forall_mem_cons] at hknown hnew
    rw [List.map_cons, List.nodup_cons] at hnodup
    rw [List.map_cons, partsAfter, List.flatMap_cons, List.append_assoc, List.append_assoc] at h
    rw [List.map_cons, List.reverse_cons, List.append_assoc, List.singleton_append]
    obtain ⟨u, hu, hcomma⟩ := skipBlanks_of_spaced rfl h
    have hkey : ∀ v, key.Takes (u ++ rest) m.1 v → (nextKey false).Takes (t ++ rest) (some m.1) v :=
      fun v hv => nextKey_some_takes_iff.2 ⟨u ++ rest, hcomma rest, hv⟩
    refine members_takes_of_member hgathers hknown.1 hnew.1 hu hkey fun v hv =>
      ih hknown.2 hnodup.2 (fun m' hm' hmem => ?_) hv
    rcases List.mem_cons.1 hmem with heq | hmem
    · exact hnodup.1 (heq ▸ List.mem_map_of_mem hm')
    · exact hnew.2 m' hm' hmem

theorem object_takes_of_chosen (hgathers : Gathers member fields given)
    {ms : List (String × List Text)} (hchosen : Chosen fields ms) {t : Text}
    (h : Spaced (['\x7b'] :: ([[',']].intercalate (ms.map memberTokens) ++ [['\x7d']])) t) (rest : Text) :
    (object member (given [])).Takes (t ++ rest) (given (ms.map Prod.fst).reverse) rest := by
  obtain ⟨u, hu, hbrace⟩ := skipBlanks_of_spaced rfl h
  refine object_takes_iff.2 ⟨u ++ rest, hbrace rest, ?_⟩
  obtain ⟨hnodup, hknown, -⟩ := hchosen
  cases ms with
  | nil =>
    obtain ⟨v, hv, hclose⟩ := skipBlanks_of_spaced rfl hu
    cases hv
    exact members_takes_iff.2 (.inl ⟨hclose rest, rfl⟩)
  | cons m ms =>
    rw [List.forall_mem_cons] at hknown
    rw [List.map_cons, List.nodup_cons] at hnodup
    rw [List.map_cons, intercalate_cons, List.append_assoc] at hu
    rw [List.map_cons, List.reverse_cons]
    have hkey : ∀ v, key.Takes (u ++ rest) m.1 v → (nextKey true).Takes (u ++ rest) (some m.1) v :=
      fun v hv => nextKey_some_takes_iff.2 hv
    refine members_takes_of_member hgathers hknown.1 List.not_mem_nil hu hkey fun v hv =>
      members_takes_of_partsAfter hgathers hknown.2 hnodup.2 (fun m' hm' hmem => ?_) hv rest
    exact hnodup.1 (List.mem_singleton.1 hmem ▸ List.mem_map_of_mem hm')

/-- **An object is read in whatever way it is written**, if its members are gathered and those that
may be left out are not needed. -/
theorem object_accepts {α : Type} {complete : σ → Option α} {a : α}
    (hgathers : Gathers member fields given)
    (hcomplete : ∀ keys, (∀ f ∈ fields, f.key ∈ keys ∨ f.Omissible) → complete (given keys) = some a) :
    ((object member (given [])).filterMap complete).Accepts a (.object fields) := by
  intro tokens t rest hform ht _
  obtain ⟨ms, hchosen, rfl⟩ := hform
  have hobject := object_takes_of_chosen hgathers hchosen ht rest
  refine filterMap_takes_iff.2 ⟨_, hobject, hcomplete _ fun f hf => ?_⟩
  rw [List.mem_reverse]
  exact hchosen.complete f hf

theorem once_accepts {α : Type} {given : Option α} {read : Reader α} {store : α → σ} {a : α} {g : σ}
    {form : Form} (hgiven : given = none) (hread : read.Accepts a form) (hstore : store a = g) :
    (once given read store).Accepts g form := by
  intro tokens t rest hform ht hrest
  exact once_takes_iff.2 ⟨hgiven, a, hread tokens t rest hform ht hrest, hstore⟩

end Objects

/-! ### Lists -/

section Lists

variable {α : Type} {read : Reader α} {form : α → Form} {most : Nat} {c : Char} {l : List α}
  {written : List (List Text)} {all : ListUpTo most α}

/-- An element of a list, and those after it. -/
theorem elements_takes_of_element (hbegins : BeginsWith c read) {a : α}
    (hread : read.Accepts a (form a)) {part : List Text} (hpart : form a part) {fresh fresh' : Bool}
    {known : ListUpTo most α} (hroom : (known.1 ++ [a]).length ≤ most) {t u rest : Text}
    (hu : Spaced (part ++ partsAfter written ']') u)
    (hat : ∀ v, skipBlanks (u ++ rest) = c :: v → ElementAt fresh t fresh' (u ++ rest))
    (hrest : ∀ v, Spaced (partsAfter written ']') v →
      (elements read most fresh' ⟨known.1 ++ [a], hroom⟩).Takes (v ++ rest) all rest) :
    (elements read most fresh known).Takes t all rest := by
  obtain ⟨x, v, rfl, hx, hv⟩ := hu.split
  rw [List.append_assoc] at hat
  have htakes := hread part x (v ++ rest) hpart hx (noDigits_of_partsAfter rfl hv)
  obtain ⟨w, hw⟩ := hbegins htakes
  exact elements_takes_iff.2 (.inr ⟨fresh', _, a, v ++ rest, hat w hw, htakes, hroom, hrest v hv⟩)

/-- The elements after a comma, or the bracket. -/
theorem elements_takes_of_partsAfter (hbegins : BeginsWith c read) (hbracket : c ≠ ']')
    (hwritten : List.Forall₂ form l written) (hread : ∀ a ∈ l, read.Accepts a (form a)) {fresh : Bool}
    {known : ListUpTo most α} (hall : all.1 = known.1 ++ l) {t : Text}
    (h : Spaced (partsAfter written ']') t) (rest : Text) :
    (elements read most fresh known).Takes (t ++ rest) all rest := by
  induction hwritten generalizing known t with
  | nil =>
    obtain ⟨u, hu, hclose⟩ := skipBlanks_of_spaced rfl h
    cases hu
    exact elements_takes_iff.2 (.inl ⟨hclose rest, Subtype.ext (hall.trans (List.append_nil _))⟩)
  | @cons a part l written hpart _ ih =>
    rw [List.forall_mem_cons] at hread
    rw [partsAfter, List.flatMap_cons, List.append_assoc, List.append_assoc] at h
    obtain ⟨u, hu, hcomma⟩ := skipBlanks_of_spaced rfl h
    rw [← List.singleton_append, ← List.append_assoc] at hall
    have hroom : (known.1 ++ [a]).length ≤ most :=
      (hall ▸ List.prefix_append (known.1 ++ [a]) l).length_le.trans all.2
    have hat : ∀ v, skipBlanks (u ++ rest) = c :: v → ElementAt fresh (t ++ rest) fresh (u ++ rest) :=
      fun v hv => ⟨c, v, hv, hbracket, .inl ⟨hcomma rest, rfl⟩⟩
    exact elements_takes_of_element hbegins hread.1 hpart hroom hu hat fun v hv => ih hread.2 hall hv

/-- **A list is read in whatever way it is written**, if there is room for its elements. -/
theorem listUpTo_accepts (hbegins : BeginsWith c read) (hbracket : c ≠ ']') (hcomma : c ≠ ',')
    (hread : ∀ a ∈ all.1, read.Accepts a (form a)) :
    (listUpTo most read).Accepts all (.list (all.1.map form)) := by
  intro _ t rest hform ht _
  obtain ⟨written, hwritten, rfl⟩ := hform
  rw [List.forall₂_map_left_iff] at hwritten
  obtain ⟨u, hu, hopen⟩ := skipBlanks_of_spaced rfl ht
  refine listUpTo_takes_iff.2 ⟨u ++ rest, hopen rest, ?_⟩
  obtain ⟨l, hroom⟩ := all
  cases hwritten with
  | nil =>
    obtain ⟨v, hv, hclose⟩ := skipBlanks_of_spaced rfl hu
    cases hv
    exact elements_takes_iff.2 (.inl ⟨hclose rest, rfl⟩)
  | @cons a part l written hpart hwritten =>
    rw [List.forall_mem_cons] at hread
    rw [intercalate_cons, List.append_assoc] at hu
    have hfirst : [a].length ≤ most := by
      rw [List.length_cons] at hroom
      exact (Nat.le_add_left 1 l.length).trans hroom
    have hat : ∀ v, skipBlanks (u ++ rest) = c :: v → ElementAt true (u ++ rest) false (u ++ rest) :=
      fun v hv => ⟨c, v, hv, hbracket, .inr ⟨hcomma, rfl, rfl, rfl⟩⟩
    exact elements_takes_of_element hbegins hread.1 hpart hfirst hu hat fun v hv =>
      elements_takes_of_partsAfter hbegins hbracket hwritten hread.2 rfl hv rest

end Lists

/-! ## Writing -/

theorem flatten_intercalate {α : Type} (separator : List (List α)) (parts : List (List (List α))) :
    (separator.intercalate parts).flatten = separator.flatten.intercalate (parts.map List.flatten) := by
  cases parts with
  | nil => rfl
  | cons first rest =>
    rw [List.map_cons, intercalate_cons, intercalate_cons, List.flatten_append, List.flatMap_map]
    induction rest with
    | nil => simp
    | cons second rest ih => simpa using ih

/-- Whether a text is one of the ways to write a value, without blanks. -/
def Form.Writes (form : Form) (t : Text) : Prop := ∃ tokens, form tokens ∧ tokens.flatten = t

theorem string_writes (s : String) : (Form.string (escapeString s)).Writes (writeString s) :=
  ⟨_, rfl, by simp [Form.quoted, escapeString, writeString]⟩

theorem nat_writes (n : Nat) : (Form.nat n).Writes (writeNat n) := ⟨_, rfl, by simp⟩

theorem bool_writes (b : Bool) : (Form.bool b).Writes (writeBool b) := ⟨_, rfl, by simp⟩

theorem nullable_writes {α β : Type} {f : α → β} {form : β → Form} {write : α → Text}
    (h : ∀ a, (form (f a)).Writes (write a)) (o : Option α) :
    (Form.nullable form (o.map f)).Writes (writeNullable write o) := by
  cases o with
  | none => exact ⟨_, rfl, rfl⟩
  | some a => exact h a

theorem exists_parts_of_writes {forms : List Form} {texts : List Text}
    (h : List.Forall₂ Form.Writes forms texts) :
    ∃ parts, List.Forall₂ (fun form part => form part) forms parts ∧ parts.map List.flatten = texts := by
  induction h with
  | nil => exact ⟨[], .nil, rfl⟩
  | cons hform _ ih =>
    obtain ⟨part, hpart, rfl⟩ := hform
    obtain ⟨parts, hparts, rfl⟩ := ih
    exact ⟨part :: parts, .cons hpart hparts, rfl⟩

theorem list_writes {forms : List Form} {texts : List Text} (h : List.Forall₂ Form.Writes forms texts) :
    (Form.list forms).Writes (writeList texts) := by
  obtain ⟨parts, hforms, rfl⟩ := exists_parts_of_writes h
  refine ⟨_, ⟨parts, hforms, rfl⟩, ?_⟩
  rw [List.flatten_cons, List.flatten_append, flatten_intercalate]
  rfl

/-- A key is written as it is. -/
theorem writeString_key (f : Field) : writeString f.key = Form.quoted f.key.toList := by
  rw [writeString, flatMap_escape_eq_self_iff.2 f.plain_of_mem_key]
  rfl

theorem exists_members_of_writes {fields : List Field} {members : List (String × Text)}
    (h : List.Forall₂ (fun f m => f.key = m.1 ∧ f.form.Writes m.2) fields members) :
    ∃ ms : List (String × List Text), ms.map Prod.fst = fields.map Field.key ∧
      (∀ m ∈ ms, ∃ f ∈ fields, f.key = m.1 ∧ f.form m.2) ∧
      (ms.map memberTokens).map List.flatten = members.map fun m => writeString m.1 ++ ':' :: m.2 := by
  induction h with
  | nil => exact ⟨[], rfl, List.forall_mem_nil _, rfl⟩
  | @cons f m fields members hmember _ ih =>
    obtain ⟨k, t⟩ := m
    obtain ⟨rfl, tokens, htokens, rfl⟩ := hmember
    obtain ⟨ms, hkeys, hknown, hwritten⟩ := ih
    refine ⟨(f.key, tokens) :: ms, by rw [List.map_cons, hkeys]; rfl, ?_, ?_⟩
    · refine List.forall_mem_cons.2 ⟨⟨f, List.mem_cons_self, rfl, htokens⟩, fun m hm => ?_⟩
      obtain ⟨f', hf', h⟩ := hknown m hm
      exact ⟨f', List.mem_cons_of_mem _ hf', h⟩
    · rw [List.map_cons, List.map_cons, List.map_cons, hwritten]
      simp [memberTokens, writeString_key]

/-- **An object is written in its form**, with all of its members in order. -/
theorem object_writes {fields : List Field} {members : List (String × Text)}
    (hnodup : (fields.map Field.key).Nodup)
    (h : List.Forall₂ (fun f m => f.key = m.1 ∧ f.form.Writes m.2) fields members) :
    (Form.object fields).Writes (writeObject members) := by
  obtain ⟨ms, hkeys, hknown, hwritten⟩ := exists_members_of_writes h
  have hcomplete : ∀ f ∈ fields, f.key ∈ ms.map Prod.fst ∨ f.Omissible := fun f hf =>
    .inl (hkeys ▸ List.mem_map_of_mem hf)
  refine ⟨_, ⟨ms, ⟨hkeys ▸ hnodup, hknown, hcomplete⟩, rfl⟩, ?_⟩
  rw [List.flatten_cons, List.flatten_append, flatten_intercalate, hwritten]
  rfl

end MqttCodec.Json
