/-!
# Numerals

A numeral is a number as it is written. `Numeral` names the six notations, and `Numeral.scan` finds
how far a numeral reaches at the start of a text and which notation it is in.

The notations, with `D` for `0` or a run of digits that does not start with `0`:

* binary `0b101`, octal `0755`, decimal `D`, hexadecimal `0x2a`;
* float `D.` with any digits after the point, or a point with at least one digit after it;
* scientific: `D`, a float or a lone point, then `e` or `E`, an optional sign and digits.

The scanner is a finite automaton. It stops at the first character that no numeral continues with,
so what it takes is the longest text that some numeral begins with; the text is itself a numeral
exactly when the automaton stops in one of the states that `State.numeral` names.
-/

namespace Reckon

/-- The notation a number was written in. Integers keep it, and it decides how they are shown. -/
inductive Numeral where
  | binary
  | octal
  | decimal
  | hexadecimal
  | float
  | scientific
  deriving DecidableEq, Repr, Inhabited

namespace Numeral

/-- The six notations. -/
def all : List Numeral := [binary, octal, decimal, hexadecimal, float, scientific]

/-- The name of the notation. -/
def name : Numeral → String
  | binary => "Binary"
  | octal => "Octal"
  | decimal => "Decimal"
  | hexadecimal => "Hexadecimal"
  | float => "Float"
  | scientific => "Scientific"

/-! ## The automaton -/

/-- What has been read of a numeral so far. -/
inductive State where
  /-- Nothing yet. -/
  | start
  /-- A single `0`. -/
  | zero
  /-- Digits that do not start with `0`. -/
  | digits
  /-- A point with nothing before it. -/
  | leadingPoint
  /-- `0b`, with no binary digit yet. -/
  | binaryMark
  /-- `0x`, with no hexadecimal digit yet. -/
  | hexMark
  | binary
  | octal
  | hex
  /-- A point after digits, or any digit after a point. -/
  | fraction
  /-- `e` or `E`. -/
  | exponentMark
  | exponentSign
  | exponent
  deriving DecidableEq, Repr, Inhabited

/-- Whether a character is a digit of base 8. -/
def isOctalDigit (c : Char) : Bool := '0' ≤ c && c ≤ '7'

/-- Whether a character is a digit of base 2. -/
def isBinaryDigit (c : Char) : Bool := c == '0' || c == '1'

/-- Whether a character is a digit of base 16, in either case. -/
def isHexDigit (c : Char) : Bool :=
  c.isDigit || ('a' ≤ c && c ≤ 'f') || ('A' ≤ c && c ≤ 'F')

/-- Whether a character announces an exponent. -/
def isExponentMark (c : Char) : Bool := c == 'e' || c == 'E'

/-- What a character does to the state; none when no numeral goes on with it. -/
def State.next : State → Char → Option State
  | start, c =>
    if c == '0' then some zero
    else if c.isDigit then some digits
    else if c == '.' then some leadingPoint
    else none
  | zero, c =>
    if c == '.' then some fraction
    else if c == 'b' then some binaryMark
    else if c == 'x' then some hexMark
    else if isOctalDigit c then some octal
    else if isExponentMark c then some exponentMark
    else none
  | digits, c =>
    if c.isDigit then some digits
    else if c == '.' then some fraction
    else if isExponentMark c then some exponentMark
    else none
  | leadingPoint, c | fraction, c =>
    if c.isDigit then some fraction
    else if isExponentMark c then some exponentMark
    else none
  | binaryMark, c | binary, c => if isBinaryDigit c then some binary else none
  | hexMark, c | hex, c => if isHexDigit c then some hex else none
  | octal, c => if isOctalDigit c then some octal else none
  | exponentMark, c =>
    if c == '+' || c == '-' then some exponentSign
    else if c.isDigit then some exponent
    else none
  | exponentSign, c | exponent, c => if c.isDigit then some exponent else none

/-- The notation of the numeral that has been read; none while it is only the beginning of one. -/
def State.numeral : State → Option Numeral
  | zero | digits => some .decimal
  | binary => some .binary
  | octal => some .octal
  | hex => some .hexadecimal
  | fraction => some .float
  | exponent => some .scientific
  | start | leadingPoint | binaryMark | hexMark | exponentMark | exponentSign => none

/-- Reads as far as the automaton goes: how many characters were taken, and the state they lead
to. -/
def State.run : State → List Char → Nat × State
  | s, [] => (0, s)
  | s, c :: cs =>
    match s.next c with
    | some t =>
      let r := t.run cs
      (r.1 + 1, r.2)
    | none => (0, s)

/-- How many characters at the start of a text the longest beginning of a numeral takes, and the
notation when it is a whole numeral. Every character taken is a single byte. -/
def scan (cs : List Char) : Nat × Option Numeral :=
  let r := State.start.run cs
  (r.1, r.2.numeral)

end Numeral

end Reckon
