import Reckon.Number
import Reckon.Number.Shortest

/-!
# How numbers are shown

An integer is shown in its notation, a negative one with the sign in front of the mark of the
notation. A float is shown by its shortest decimal: positionally, with at least one digit on each
side of the point, from `0.0001` up to but not including `1e16`, and with an exponent outside that
range.
-/

namespace Reckon

/-! ## Digits -/

/-- The digits of a number in a base up to 16, most significant first. -/
def digitsIn (base : Nat) (n : Nat) : List Char := Nat.toDigits base n

/-- Drops the zeros at the end of a coefficient, as many as `fuel` allows, and counts them. -/
def dropZeros : Nat → Nat → Nat × Nat
  | 0, n => (n, 0)
  | fuel + 1, n =>
    if n != 0 && n % 10 == 0 then
      let r := dropZeros fuel (n / 10)
      (r.1, r.2 + 1)
    else (n, 0)

/-! ## Floats -/

/-- The range of decimal exponents in which floats are shown positionally. A number has the decimal
exponent `e` when its first digit stands at `10 ^ e`. -/
structure PositionalRange where
  lowest : Int
  highest : Int

/-- Floats are shown positionally from `0.0001` up to `9999999999999999`. -/
def floatRange : PositionalRange := ⟨-4, 15⟩

/-- Digits with the point after the first `whole` of them, filled up with zeros so that a digit
stands on either side of the point. -/
def placePoint (digits : List Char) (whole : Int) : List Char :=
  match whole with
  | .ofNat w =>
    let front := if w = 0 then ['0'] else digits.take w ++ List.replicate (w - digits.length) '0'
    let back := digits.drop w
    front ++ '.' :: (if back.isEmpty then ['0'] else back)
  | .negSucc w => '0' :: '.' :: (List.replicate (w + 1) '0' ++ digits)

/-- Digits with the point after the first one, if there are more, and the exponent. -/
def withExponent (digits : List Char) (exponent : Int) : List Char :=
  let tail := (toString exponent).toList
  match digits with
  | [] => 'e' :: tail
  | [d] => d :: 'e' :: tail
  | d :: ds => d :: '.' :: (ds ++ 'e' :: tail)

/-- The text of a positive decimal. -/
def Decimal.chars (d : Decimal) : List Char :=
  let (coefficient, zeros) := dropZeros d.coefficient d.coefficient
  let digits := digitsIn 10 coefficient
  let exponent := d.exponent + zeros + digits.length - 1
  if floatRange.lowest ≤ exponent ∧ exponent ≤ floatRange.highest then
    placePoint digits (exponent + 1)
  else withExponent digits exponent

/-- The text of a float. The two infinities are written `Inf` and `-Inf`, and zero keeps its
sign. -/
def floatText (x : Float) : String :=
  if x.isNaN then "NaN"
  else if x.isInf then (if x < 0 then "-Inf" else "Inf")
  else
    let d := Dyadic.ofFloat x
    let body :=
      if d.mantissa = 0 then ['0', '.', '0'] else (shortest d.mantissa d.exponent).chars
    String.ofList (if d.negative then '-' :: body else body)

/-! ## Numbers -/

/-- The digits of the size of an integer with the mark of the notation in front. Zero has no mark in
octal, and the notations of floats show an integer in decimal. -/
def Numeral.sizeText (numeral : Numeral) (size : Nat) : List Char :=
  match numeral with
  | .binary => '0' :: 'b' :: digitsIn 2 size
  | .octal => if size = 0 then ['0'] else '0' :: digitsIn 8 size
  | .hexadecimal => '0' :: 'x' :: digitsIn 16 size
  | .decimal | .float | .scientific => digitsIn 10 size

/-- The text of an integer in a notation. -/
def intText (value : Int32) (numeral : Numeral) : String :=
  let n := value.toInt
  let body := numeral.sizeText n.natAbs
  String.ofList (if n < 0 then '-' :: body else body)

/-- The text of a number. -/
def Number.text : Number → String
  | .int _ _ true => "Inf"
  | .int value numeral false => intText value numeral
  | .float x => floatText x

end Reckon
