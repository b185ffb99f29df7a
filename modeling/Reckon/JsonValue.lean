/-!
# JSON

Values to be written as JSON on one line, without blanks. A field stays where it was put:
`JsonValue.text` writes objects in the order given, and `JsonValue.sorted` puts the fields of every
object into the order of their keys beforehand.
-/

namespace Reckon

/-- A value to be written as JSON. -/
inductive JsonValue where
  | null
  | number (n : Nat)
  | string (s : String)
  | array (items : List JsonValue)
  | object (fields : List (String × JsonValue))
  deriving Repr, Inhabited

namespace JsonValue

/-! ## Strings -/

/-- A hexadecimal digit. -/
def hexDigit (n : Nat) : Char := if n < 10 then Char.ofNat (48 + n) else Char.ofNat (87 + n)

/-- A character inside a string. Quotes and backslashes are escaped, and so are the characters below
the blank, by a letter if there is one; every other character stands for itself. -/
def escape (c : Char) : List Char :=
  if c = '"' then ['\\', '"']
  else if c = '\\' then ['\\', '\\']
  else if c = '\x08' then ['\\', 'b']
  else if c = '\x0c' then ['\\', 'f']
  else if c = '\n' then ['\\', 'n']
  else if c = '\r' then ['\\', 'r']
  else if c = '\t' then ['\\', 't']
  else if c < ' ' then ['\\', 'u', '0', '0', hexDigit (c.toNat / 16), hexDigit (c.toNat % 16)]
  else [c]

/-- A text between quotes. -/
def quote (s : String) : String := "\"" ++ String.ofList (s.toList.flatMap escape) ++ "\""

/-! ## Values -/

mutual

/-- The value as it is written. -/
def text : JsonValue → String
  | null => "null"
  | number n => toString n
  | string s => quote s
  | array items => "[" ++ ",".intercalate (texts items) ++ "]"
  | object fields => "\x7b" ++ ",".intercalate (fieldTexts fields) ++ "\x7d"

/-- Each value as it is written. -/
def texts : List JsonValue → List String
  | [] => []
  | v :: vs => v.text :: texts vs

/-- Each field as it is written. -/
def fieldTexts : List (String × JsonValue) → List String
  | [] => []
  | (key, v) :: fields => (quote key ++ ":" ++ v.text) :: fieldTexts fields

end

/-- Puts a field among fields in the order of keys. -/
def insertField (field : String × JsonValue) :
    List (String × JsonValue) → List (String × JsonValue)
  | [] => [field]
  | other :: fields =>
    if field.1 ≤ other.1 then field :: other :: fields else other :: insertField field fields

mutual

/-- The value with the fields of every object in the order of their keys. -/
def sorted : JsonValue → JsonValue
  | null => null
  | number n => number n
  | string s => string s
  | array items => array (sortedItems items)
  | object fields => object (sortedFields fields)

/-- Each value sorted. -/
def sortedItems : List JsonValue → List JsonValue
  | [] => []
  | v :: vs => v.sorted :: sortedItems vs

/-- The fields in the order of their keys, each with its value sorted. -/
def sortedFields : List (String × JsonValue) → List (String × JsonValue)
  | [] => []
  | (key, v) :: fields => insertField (key, v.sorted) (sortedFields fields)

end

end JsonValue

end Reckon
