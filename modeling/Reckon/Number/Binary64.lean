/-!
# Binary64 floats as exact numbers

A finite float is a whole number times a power of two. `Dyadic.ofFloat` reads both off its bits, and
what follows is exact arithmetic: `Dyadic.round` to a whole number and `roundToInt32`, which ends at
the bounds of the 32-bit integers.
-/

namespace Reckon

/-- The number `±mantissa · 2 ^ exponent`. -/
structure Dyadic where
  negative : Bool
  mantissa : Nat
  exponent : Int
  deriving DecidableEq, Repr, Inhabited

/-- The ways to make a whole number of one that is not. -/
inductive Rounding where
  | towardZero
  | down
  | up
  deriving DecidableEq, Repr, Inhabited

namespace Dyadic

/-- The exact value of a finite float. The leading bit of the mantissa is implied, except in the
numbers nearest to zero, which share the lowest exponent with the first numbers that have it. -/
def ofFloat (x : Float) : Dyadic :=
  let bits : Nat := x.toBits.toNat
  let exponent : Nat := bits / Nat.pow 2 52 % Nat.pow 2 11
  let fraction := bits % Nat.pow 2 52
  let negative := bits / Nat.pow 2 63 == 1
  if exponent = 0 then ⟨negative, fraction, -1074⟩
  else ⟨negative, fraction + Nat.pow 2 52, (exponent : Int) - 1075⟩

/-- The size of the number without its fraction, and whether there was one. -/
def magnitude (d : Dyadic) : Nat × Bool :=
  match d.exponent with
  | .ofNat e => (d.mantissa * Nat.pow 2 e, false)
  | .negSucc e => (d.mantissa / Nat.pow 2 (e + 1), d.mantissa % Nat.pow 2 (e + 1) != 0)

/-- The whole number that a rounding makes of the number. -/
def round (r : Rounding) (d : Dyadic) : Int :=
  let (whole, hasFraction) := d.magnitude
  let away := match r with
    | .towardZero => false
    | .down => d.negative
    | .up => !d.negative
  let size : Int := if hasFraction && away then whole + 1 else whole
  if d.negative then -size else size

end Dyadic

/-- The 32-bit integer nearest to a whole number. -/
def clampInt32 (n : Int) : Int32 :=
  if n < Int32.minValue.toInt then Int32.minValue
  else if Int32.maxValue.toInt < n then Int32.maxValue
  else Int32.ofInt n

/-- Rounds a float to a 32-bit integer, ending at the bounds of the range. What is not a number
gives zero. -/
def roundToInt32 (r : Rounding) (x : Float) : Int32 :=
  if x.isNaN then 0
  else if x.isInf then (if x < 0 then Int32.minValue else Int32.maxValue)
  else clampInt32 ((Dyadic.ofFloat x).round r)

end Reckon
