/-
Reading settings text. Settings are kept in the JSON that serde-json-core 0.6
reads and writes. That library is no part of this one: the readers here and in
`MqttCodec.Json.Skipping`, and the writers of `MqttCodec.Json.Writer`, say what
it does, and whatever is proved of settings text assumes that they say it
rightly. What it reads is close to JSON, and this module says where it is not:
strings are taken as they stand, with no escape decoded or checked, and a list
may begin with a comma (see `nextElement`).

A reader takes a value from the front of a text, blanks before it included.
What it leaves is a shorter suffix of what it was given. That is part of its
type, so whatever reads repeatedly comes to an end, and every value stands
somewhere in the text.
-/

namespace MqttCodec.Json

/-- What is still to be read. -/
abbrev Text := List Char

/-- A suffix of a text. -/
abbrev Tail (t : Text) := { r : Text // r <:+ t }

/-- A suffix of a text from which something was taken. -/
abbrev Rest (t : Text) := { r : Text // r <:+ t ∧ r.length < t.length }

namespace Rest

variable {t : Text}

/-- What comes after the first character of a suffix. -/
def afterFirst {c : Char} {r : Text} (h : (c :: r) <:+ t) : Rest t :=
  ⟨r, (List.suffix_cons c r).trans h, h.length_le⟩

/-- Takes more from what is left. -/
def trans (r : Rest t) (s : Rest r.1) : Rest t := ⟨s.1, s.2.1.trans r.2.1, Nat.lt_trans s.2.2 r.2.2⟩

/-- Takes more, or nothing, from what is left. -/
def thenTail (r : Rest t) (s : Tail r.1) : Rest t :=
  ⟨s.1, s.2.trans r.2.1, Nat.lt_of_le_of_lt s.2.length_le r.2.2⟩

end Rest

/-- Takes something from a suffix. -/
def Tail.thenRest {t : Text} (r : Tail t) (s : Rest r.1) : Rest t :=
  ⟨s.1, s.2.1.trans r.2, Nat.lt_of_lt_of_le s.2.2 r.2.length_le⟩

/-- Takes a value from the front of a text, or refuses the text. -/
abbrev Reader (α : Type) := (t : Text) → Option (α × Rest t)

namespace Reader

variable {α β : Type}

def map (f : α → β) (read : Reader α) : Reader β := fun t =>
  match read t with
  | none => none
  | some (a, r) => some (f a, r)

/-- Refuses the values that `f` refuses. -/
def filterMap (f : α → Option β) (read : Reader α) : Reader β := fun t =>
  match read t with
  | none => none
  | some (a, r) => (f a).map fun b => (b, r)

end Reader

/-! ## Tokens -/

def isBlank (c : Char) : Bool := c = ' ' || c = '\n' || c = '\t' || c = '\r'

def skipBlanks (t : Text) : Text := t.dropWhile isBlank

/-- The first character that is not blank. -/
def next : Reader Char := fun t =>
  match h : skipBlanks t with
  | [] => none
  | c :: _ => some (c, Rest.afterFirst (by rw [← h]; exact List.dropWhile_suffix isBlank))

theorem next_eq_some_iff {t : Text} {c : Char} {r : Rest t} :
    next t = some (c, r) ↔ skipBlanks t = c :: r.1 := by
  unfold next
  obtain ⟨r, hr⟩ := r
  split
  · simp_all
  · simp_all [Rest.afterFirst]

/-- Takes a word off a text that begins with it. -/
def dropWord : (word t : Text) → Option (Tail t)
  | [], t => some ⟨t, List.suffix_rfl⟩
  | _ :: _, [] => none
  | c :: word, d :: t =>
    if c = d then (dropWord word t).map fun r => ⟨r.1, r.2.trans (List.suffix_cons d t)⟩ else none

/-- Splits a text after its first quotation mark with an even number of backslashes before it.
`odd` says whether an odd number of them came last, and `seen` is what came, last first. -/
def closeString (odd : Bool) (seen : Text) : Text → Option (Text × Text)
  | [] => none
  | c :: t =>
    if c = '"' && !odd then some (seen.reverse, t)
    else closeString (c = '\\' && !odd) (c :: seen) t

/-- The quotation mark stands before what is left. -/
theorem suffix_of_closeString {odd : Bool} {seen t s r : Text}
    (h : closeString odd seen t = some (s, r)) : ('"' :: r) <:+ t := by
  induction t generalizing odd seen with
  | nil => cases h
  | cons c t ih =>
    simp only [closeString] at h
    split at h
    · cases h; simp_all
    · exact (ih h).trans (List.suffix_cons c t)

/-- A string between quotation marks. A backslash keeps a quotation mark after it from
ending the string, and both stay in it. -/
def string : Reader String := fun t =>
  match next t with
  | some ('"', r) =>
    match h : closeString false [] r.1 with
    | some (s, _) => some (.ofList s, r.trans (Rest.afterFirst (suffix_of_closeString h)))
    | none => none
  | _ => none

theorem string_eq_some_iff {t : Text} {s : String} {r : Rest t} :
    string t = some (s, r) ↔
      ∃ u, skipBlanks t = '"' :: u ∧ closeString false [] u = some (s.toList, r.1) := by
  obtain ⟨r, hr⟩ := r
  unfold string
  split
  · rename_i u hu
    rw [next_eq_some_iff.1 hu]
    split
    · rename_i a v hv
      simp [hv, Rest.trans, Rest.afterFirst, ← String.toList_inj]
    · simp_all
  · rename_i hn
    simp only [reduceCtorEq, false_iff, not_exists, not_and]
    intro u hu
    have h : ('"' :: u) <:+ t := hu ▸ List.dropWhile_suffix _
    exact (hn (Rest.afterFirst h) (next_eq_some_iff.2 hu)).elim

/-- A number of at most `limit` in decimal, without sign or needless zeros. Only its digits are
taken: after a 0 none. -/
def unsigned (limit : Nat) : Reader Nat := fun t =>
  match next t with
  | some ('0', r) => some (0, r)
  | some (c, r) =>
    let n := Nat.ofDigitChars 10 (c :: r.1.takeWhile Char.isDigit) 0
    if c.isDigit ∧ n ≤ limit then
      some (n, r.thenTail ⟨r.1.dropWhile Char.isDigit, List.dropWhile_suffix _⟩)
    else none
  | none => none

def boolean : Reader Bool := fun t =>
  match next t with
  | some ('t', r) => (dropWord ['r', 'u', 'e'] r.1).map fun s => (true, r.thenTail s)
  | some ('f', r) => (dropWord ['a', 'l', 's', 'e'] r.1).map fun s => (false, r.thenTail s)
  | _ => none

/-- A value, or `null` for none. -/
def nullable {α : Type} (read : Reader α) : Reader (Option α) := fun t =>
  match next t with
  | some ('n', r) => (dropWord ['u', 'l', 'l'] r.1).map fun s => (none, r.thenTail s)
  | _ => read.map some t

/-! ## Objects -/

/-- A member's key and the colon after it. -/
def key : Reader String := fun t =>
  match string t with
  | none => none
  | some (k, r) =>
    match next r.1 with
    | some (':', s) => some (k, r.trans s)
    | _ => none

/-- The key of an object's next member, or none at the closing brace. There is a comma before
every member but the first. -/
def nextKey (first : Bool) : Reader (Option String) := fun t =>
  match next t with
  | none => none
  | some ('\x7d', r) => some (none, r)
  | some (c, r) =>
    if first then key.map some t
    else if c = ',' then
      match key r.1 with
      | none => none
      | some (k, s) => some (some k, r.trans s)
    else none

/-- The members of an object after its opening brace, up to the closing one. Each member's value is
read into a record of what is known so far. -/
def members {σ : Type} (member : String → σ → Reader σ) (first : Bool) (known : σ) :
    Reader σ := fun t =>
  match nextKey first t with
  | none => none
  | some (none, r) => some (known, r)
  | some (some k, r) =>
    match member k known r.1 with
    | none => none
    | some (known, s) =>
      match members member false known s.1 with
      | none => none
      | some (known, u) => some (known, r.trans (s.trans u))
termination_by t => t.length
decreasing_by exact Nat.lt_trans s.2.2 r.2.2

/-- An object. -/
def object {σ : Type} (member : String → σ → Reader σ) (known : σ) : Reader σ := fun t =>
  match next t with
  | some ('\x7b', r) =>
    match members member true known r.1 with
    | none => none
    | some (known, s) => some (known, r.trans s)
  | _ => none

/-- The value of a member that may be given once. -/
def once {α σ : Type} (given : Option α) (read : Reader α) (store : α → σ) : Reader σ := fun t =>
  if given.isSome then none else read.map store t

/-! ## Lists -/

/-- What comes next in a list: its end, or an element at the front of what is left. -/
inductive ListStep (t : Text)
  | close (r : Rest t)
  | element (fresh : Bool) (r : Tail t)

/-- Goes to a list's next element. A fresh list is one that has not yet had an element without a
comma before it. In such a list a comma may be left out, once. No comma may stand before the
closing bracket. -/
def nextElement (fresh : Bool) (t : Text) : Option (ListStep t) :=
  match next t with
  | none => none
  | some (']', r) => some (.close r)
  | some (',', r) =>
    match next r.1 with
    | none | some (']', _) => none
    | some _ => some (.element fresh ⟨r.1, r.2.1⟩)
  | some _ => if fresh then some (.element false ⟨t, List.suffix_rfl⟩) else none

/-- A list with at most `most` elements. -/
abbrev ListUpTo (most : Nat) (α : Type) := { l : List α // l.length ≤ most }

/-- The elements of a list after its opening bracket, up to the closing one. -/
def elements {α : Type} (read : Reader α) (most : Nat) (fresh : Bool) (known : ListUpTo most α) :
    Reader (ListUpTo most α) := fun t =>
  match nextElement fresh t with
  | none => none
  | some (.close r) => some (known, r)
  | some (.element fresh r) =>
    match read r.1 with
    | none => none
    | some (a, s) =>
      if h : known.1.length < most then
        match elements read most fresh ⟨known.1 ++ [a], by rw [List.length_append]; exact h⟩ s.1 with
        | none => none
        | some (known, u) => some (known, r.thenRest (s.trans u))
      else none
termination_by t => t.length
decreasing_by exact (r.thenRest s).2.2

/-- A list of at most `most` elements. -/
def listUpTo {α : Type} (most : Nat) (read : Reader α) : Reader (ListUpTo most α) := fun t =>
  match next t with
  | some ('[', r) =>
    match elements read most true ⟨[], Nat.zero_le _⟩ r.1 with
    | none => none
    | some (l, s) => some (l, r.trans s)
  | _ => none

end MqttCodec.Json
