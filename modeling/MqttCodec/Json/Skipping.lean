/-
Passing over values that nobody asked for, as serde-json-core 0.6 does it.
Strings, objects and lists are passed over by the rules that hold for known
ones. Anything else is passed over character by character until a delimiter,
so it need not be a value, and a text with such a member is accepted although
it is no JSON.
-/
import MqttCodec.Json.Reader

namespace MqttCodec.Json

/-- The characters that end a value. -/
def isDelimiter (c : Char) : Bool := c = ',' || c = '\x7d' || c = ']'

/-- Goes to the next delimiter, which there must be. -/
def skipToDelimiter (t : Text) : Option (Tail t) :=
  let r := t.dropWhile fun c => !isDelimiter c
  if r = [] then none else some ⟨r, List.dropWhile_suffix _⟩

mutual

/-- Passes over a value. -/
def skipValue (t : Text) : Option (Rest t) :=
  match next t with
  | none => none
  | some ('"', _) => (string t).map (·.2)
  | some ('[', r) => (skipElements true r.1).map r.trans
  | some ('\x7b', r) => (skipMembers true r.1).map r.trans
  | some (c, r) => if isDelimiter c then none else (skipToDelimiter r.1).map r.thenTail
termination_by (t.length, 0)
decreasing_by all_goals exact Prod.Lex.left _ _ r.2.2

/-- Passes over the elements of a list after its opening bracket, up to the closing one. -/
def skipElements (fresh : Bool) (t : Text) : Option (Rest t) :=
  match nextElement fresh t with
  | none => none
  | some (.close r) => some r
  | some (.element fresh r) =>
    match skipValue r.1 with
    | none => none
    | some s => (skipElements fresh s.1).map fun u => r.thenRest (s.trans u)
termination_by (t.length, 1)
decreasing_by
  · have := r.2.length_le; simp only [Prod.lex_def]; omega
  · exact Prod.Lex.left _ _ (r.thenRest s).2.2

/-- Passes over the members of an object after its opening brace, up to the closing one. -/
def skipMembers (first : Bool) (t : Text) : Option (Rest t) :=
  match nextKey first t with
  | none => none
  | some (none, r) => some r
  | some (some _, r) =>
    match skipValue r.1 with
    | none => none
    | some s => (skipMembers false s.1).map fun u => r.trans (s.trans u)
termination_by (t.length, 1)
decreasing_by
  · exact Prod.Lex.left _ _ r.2.2
  · exact Prod.Lex.left _ _ (r.trans s).2.2

end

/-- Passes over a value and keeps what is known. -/
def skip {σ : Type} (known : σ) : Reader σ := fun t => (skipValue t).map fun r => (known, r)

end MqttCodec.Json
