/-
Writing settings text, which is proper JSON without blanks, in the form that
serde-json-core 0.6 gives it. Strings are escaped, so any text can be written.
-/
import MqttCodec.Json.Reader

namespace MqttCodec.Json

/-- A hexadecimal digit, in capitals. -/
def hexDigit (n : Nat) : Char := if n < 10 then Char.ofNat (48 + n) else Char.ofNat (55 + n)

/-- A character as it is written between quotation marks. -/
def escape (c : Char) : Text :=
  if c = '"' ∨ c = '\\' then ['\\', c]
  else if c = '\x08' then ['\\', 'b']
  else if c = '\t' then ['\\', 't']
  else if c = '\n' then ['\\', 'n']
  else if c = '\x0c' then ['\\', 'f']
  else if c = '\r' then ['\\', 'r']
  else if c.toNat < 32 then ['\\', 'u', '0', '0', hexDigit (c.toNat / 16), hexDigit (c.toNat % 16)]
  else [c]

/-- A text with every character escaped that must be. -/
def escapeString (s : String) : String := .ofList (s.toList.flatMap escape)

def writeString (s : String) : Text := '"' :: (s.toList.flatMap escape ++ ['"'])

def writeNat (n : Nat) : Text := Nat.toDigits 10 n

def writeBool (b : Bool) : Text := if b then ['t', 'r', 'u', 'e'] else ['f', 'a', 'l', 's', 'e']

def writeNullable {α : Type} (write : α → Text) : Option α → Text
  | none => ['n', 'u', 'l', 'l']
  | some a => write a

/-- An object with the given keys and written values, in their order. -/
def writeObject (members : List (String × Text)) : Text :=
  '\x7b' :: ([','].intercalate (members.map fun (k, v) => writeString k ++ ':' :: v) ++ ['\x7d'])

/-- A list of written values. -/
def writeList (elements : List Text) : Text := '[' :: ([','].intercalate elements ++ [']'])

end MqttCodec.Json
