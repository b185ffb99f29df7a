import Reckon.Number

/-!
# Reading numbers

`Number.ofLiteral` gives a literal its value, once its notation is known.

An integer literal has a mark of one or two characters, or none, and digits after it. Reading stops
at `2 ^ 64 - 1`, where a literal that is too long ends; a value that does not fit 32 bits keeps its
lowest 32 bits and is marked as overflowed. There are no negative literals.

A float literal is a decimal with an optional sign, point and exponent, or one of the words for
infinity and for what is not a number. A text that is no float gets a second chance with a `0` in
front, which is what makes `.e1` a number.
-/

namespace Reckon

/-! ## Integers -/

/-- The value of a digit in a base up to 16. -/
def digitValue? (base : Nat) (c : Char) : Option Nat :=
  let value :=
    if c.isDigit then some (c.toNat - '0'.toNat)
    else if 'a' ≤ c && c ≤ 'f' then some (c.toNat - 'a'.toNat + 10)
    else if 'A' ≤ c && c ≤ 'F' then some (c.toNat - 'A'.toNat + 10)
    else none
  value.filter (· < base)

/-- The largest value that an integer literal is read to. -/
def widestLiteral : Nat := Nat.pow 2 64 - 1

/-- Reads digits onto a value. A digit that would lead past the widest literal ends the reading
there, whatever follows it. -/
def readDigits? (base : Nat) : Nat → List Char → Option Nat
  | value, [] => some value
  | value, c :: cs =>
    match digitValue? base c with
    | none => none
    | some d =>
      let next := value * base + d
      if widestLiteral < next then some widestLiteral else readDigits? base next cs

/-- Reads an unsigned integer: at least one digit, with a `+` allowed in front. -/
def readNatural? (base : Nat) : List Char → Option Nat
  | [] => none
  | ['+'] => none
  | '+' :: cs => readDigits? base 0 cs
  | cs => readDigits? base 0 cs

/-- The integer a literal stands for, cut to 32 bits. -/
def Number.ofWide (wide : Nat) (numeral : Numeral) : Number :=
  .int (Int32.ofNat wide) numeral (decide (Nat.pow 2 31 ≤ wide))

/-! ## Floats -/

/-- The value of a run of decimal digits. -/
def decimalValue (digits : List Char) : Nat :=
  digits.foldl (fun value c => 10 * value + (c.toNat - '0'.toNat)) 0

/-- The float nearest to `coefficient · 10 ^ exponent`. A number with its first digit beyond
`10 ^ 400` or `10 ^ -400` is past the last float on that side, and its power of ten is not worked
out. -/
def nearestFloat (coefficient : Nat) (exponent : Int) : Float :=
  let reach := exponent + (Nat.toDigits 10 coefficient).length
  if coefficient = 0 then 0
  else if 400 < reach then 1 / 0
  else if reach < -400 then 0
  else Float.ofScientific coefficient (exponent < 0) exponent.natAbs

/-- Reads an exponent: an optional sign and at least one digit, to the end of the text. -/
def readExponent? (cs : List Char) : Option Int :=
  let (sign, digits) : Int × List Char :=
    match cs with
    | '+' :: cs => (1, cs)
    | '-' :: cs => (-1, cs)
    | cs => (1, cs)
  if digits.isEmpty || !digits.all Char.isDigit then none
  else some (sign * decimalValue digits)

/-- Reads an unsigned decimal: digits with an optional point among or around them, at least one
digit, and an optional exponent. -/
def readDecimal? (cs : List Char) : Option Float :=
  let whole := cs.takeWhile Char.isDigit
  let afterWhole := cs.dropWhile Char.isDigit
  let (fraction, rest) :=
    match afterWhole with
    | '.' :: cs => (cs.takeWhile Char.isDigit, cs.dropWhile Char.isDigit)
    | cs => ([], cs)
  if whole.isEmpty && fraction.isEmpty then none
  else
    let exponent? : Option Int :=
      match rest with
      | [] => some 0
      | c :: cs => if Numeral.isExponentMark c then readExponent? cs else none
    exponent?.map fun exponent =>
      nearestFloat (decimalValue (whole ++ fraction)) (exponent - fraction.length)

/-- Reads one of the words for numbers that have no digits, in any mixture of cases. -/
def readWord? (cs : List Char) : Option Float :=
  let word := String.ofList (cs.map Char.toLower)
  if word == "inf" || word == "infinity" then some (1 / 0)
  else if word == "nan" then some (0 / 0)
  else none

/-- Reads a float with an optional sign. -/
def readFloat? (cs : List Char) : Option Float :=
  let (negative, body) :=
    match cs with
    | '+' :: cs => (false, cs)
    | '-' :: cs => (true, cs)
    | cs => (false, cs)
  let size? := (readDecimal? body).or (readWord? body)
  size?.map fun size => if negative then -size else size

/-! ## Literals -/

/-- The base of an integer notation and the number of bytes that mark it; none for the notations of
floats. -/
def Numeral.base? : Numeral → Option (Nat × Nat)
  | binary => some (2, 2)
  | octal => some (8, 1)
  | decimal => some (10, 0)
  | hexadecimal => some (16, 2)
  | float | scientific => none

/-- The value of a literal in a notation; none when it is no literal of that notation. -/
def Number.ofLiteral? (text : String) (numeral : Numeral) : Option Number :=
  match numeral.base? with
  | some (base, mark) =>
    ((charsFrom? text mark).bind (readNatural? base)).map (Number.ofWide · numeral)
  | none =>
    ((readFloat? text.toList).or (readFloat? ('0' :: text.toList))).map Number.float

/-- The value of a literal in a notation. -/
def Number.ofLiteral (text : String) (numeral : Numeral) : Except Fault Number :=
  match Number.ofLiteral? text numeral with
  | some n => .ok n
  | none => .error SyntaxFault.invalidNumberLiteral

end Reckon
