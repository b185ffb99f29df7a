import Reckon.Fault
import Reckon.Numeral
import Reckon.Operator
import Reckon.Number.Binary64

/-!
# Numbers

A number is a 32-bit integer or a binary64 float. An integer remembers the notation it was written
in, and whether the exact result it stands for was too large: such an integer keeps its wrapped
value, is shown as `Inf`, and no operator takes it as an operand.

`Number.unary` and `Number.binary` apply an operator. Both look first for an operand that is
infinite, overflowed or not a number, so that fault wins over every other.
-/

namespace Reckon

/-- A number. -/
inductive Number where
  /-- An integer, the notation it is shown in, and whether it has overflowed. -/
  | int (value : Int32) (numeral : Numeral) (overflow : Bool)
  | float (value : Float)
  deriving Inhabited

namespace Number

/-- An integer in a notation, within range. -/
def whole (value : Int32) (numeral : Numeral := .decimal) : Number := .int value numeral false

/-- A truth value as a number. -/
def ofBool (b : Bool) : Number := whole (if b then 1 else 0)

/-- The integer that an exact result leaves: its lowest 32 bits, flagged when that loses
anything. -/
def ofExact (n : Int) (numeral : Numeral := .decimal) : Number :=
  .int (Int32.ofInt n) numeral (decide ((Int32.ofInt n).toInt ≠ n))

/-- Whether the number is a float. -/
def isFloat : Number → Bool
  | float _ => true
  | int .. => false

/-- Whether the number is infinite, or an integer that has overflowed. -/
def isInf : Number → Bool
  | int _ _ overflow => overflow
  | float x => x.isInf

/-- Whether the number is no number at all. -/
def isNaN : Number → Bool
  | int .. => false
  | float x => x.isNaN

/-- The number as a float. An overflowed integer gives the float of its wrapped value. -/
def toFloat : Number → Float
  | int value _ _ => Float.ofInt value.toInt
  | float x => x

/-- The value of an integer that has not overflowed. -/
def toInt? : Number → Option Int32
  | int value _ false => some value
  | _ => none

/-- Whether the number counts as true. -/
def isTruthy : Number → Bool
  | int value _ _ => value != 0
  | float x => x != 0

/-- Whether no operator accepts the number as an operand. -/
def isBad (n : Number) : Bool := n.isNaN || n.isInf

/-! ## Operators -/

/-- Applies a prefix operator. The sign and the two negations are the only ones that work on
numbers. -/
def unary (op : Operator) (n : Number) : Except Fault Number :=
  if n.isBad then .error RuntimeFault.mathWithNaNOrInf
  else
    match op, n with
    | .plus, n => .ok n
    | .minus, float x => .ok (float (-x))
    | .minus, int value _ _ => .ok (ofExact (-value.toInt))
    | .not, n => .ok (ofBool (!n.isTruthy))
    | .bitNot, float _ => .error TypeFault.bitwiseWithFloat
    | .bitNot, int value numeral _ => .ok (whole (~~~value) numeral)
    | _, _ => .error SyntaxFault.invalidSyntax

/-- Arithmetic on floats. -/
def floatArithmetic (op : Operator) (x y : Float) : Except Fault Number :=
  match op with
  | .mod => .error TypeFault.moduloWithFloat
  | .add => .ok (float (x + y))
  | .sub => .ok (float (x - y))
  | .mul => .ok (float (x * y))
  | _ => .ok (float (x / y))

/-- Arithmetic on integers. Quotients are cut towards zero and a remainder has the sign of the
dividend. The lowest integer leaves no remainder when divided by `-1`, but as the quotient is out of
range that zero counts as overflowed too. -/
def intArithmetic (op : Operator) (a b : Int32) : Except Fault Number :=
  match op with
  | .add => .ok (ofExact (a.toInt + b.toInt))
  | .sub => .ok (ofExact (a.toInt - b.toInt))
  | .mul => .ok (ofExact (a.toInt * b.toInt))
  | .div =>
    if b = 0 then .error RuntimeFault.intDivOrModByZero
    else .ok (ofExact (a.toInt.tdiv b.toInt))
  | _ =>
    if b = 0 then .error RuntimeFault.intDivOrModByZero
    else if a = Int32.minValue ∧ b = -1 then .ok (int 0 .decimal true)
    else .ok (ofExact (a.toInt.tmod b.toInt))

/-- Arithmetic: on floats as soon as one operand is a float. -/
def arithmetic (op : Operator) : Number → Number → Except Fault Number
  | int a _ _, int b _ _ => intArithmetic op a b
  | m, n => floatArithmetic op m.toFloat n.toFloat

/-- What a comparison operator says about two integers. -/
def compareInts (op : Operator) (a b : Int32) : Bool :=
  match op with
  | .gt => a > b
  | .ge => a ≥ b
  | .lt => a < b
  | .le => a ≤ b
  | .eq => a == b
  | _ => a != b

/-- What a comparison operator says about two floats. -/
def compareFloats (op : Operator) (x y : Float) : Bool :=
  match op with
  | .gt => x > y
  | .ge => x ≥ y
  | .lt => x < y
  | .le => x ≤ y
  | .eq => x == y
  | _ => x != y

/-- Comparison: of integers as integers, and of anything else as floats. -/
def comparison (op : Operator) : Number → Number → Bool
  | int a _ _, int b _ _ => compareInts op a b
  | m, n => compareFloats op m.toFloat n.toFloat

/-- Shifts an integer. The count is taken modulo 32, and a count outside 0 to 31 marks the result as
overflowed. -/
def shift (op : Operator) (a b : Int32) (numeral : Numeral) : Number :=
  let value := if op = .shl then a <<< b else a >>> b
  int value numeral (decide (b < 0 ∨ 32 ≤ b))

/-- Bitwise operators. They need integers, and the result keeps the notation of the left
operand. -/
def bitwise (op : Operator) : Number → Number → Except Fault Number
  | int a numeral _, int b _ _ =>
    match op with
    | .bitAnd => .ok (whole (a &&& b) numeral)
    | .bitXor => .ok (whole (a ^^^ b) numeral)
    | .bitOr => .ok (whole (a ||| b) numeral)
    | op => .ok (shift op a b numeral)
  | _, _ => .error TypeFault.bitwiseWithFloat

/-- Applies a binary operator. Operators that are not for numbers are no valid syntax here. -/
def binary (op : Operator) (m n : Number) : Except Fault Number :=
  if m.isBad || n.isBad then .error RuntimeFault.mathWithNaNOrInf
  else
    match op with
    | .add | .sub | .mul | .div | .mod => arithmetic op m n
    | .gt | .ge | .lt | .le | .eq | .ne => .ok (ofBool (comparison op m n))
    | .and => .ok (ofBool (m.isTruthy && n.isTruthy))
    | .or => .ok (ofBool (m.isTruthy || n.isTruthy))
    | .bitAnd | .bitXor | .bitOr | .shl | .shr => bitwise op m n
    | _ => .error SyntaxFault.invalidSyntax

end Number

end Reckon
