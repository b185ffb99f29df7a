import Reckon.Number.Binary64

/-!
# The shortest decimal of a float

Of all decimals that read back as a given float, the text of the float shows the one with the fewest
digits, and of those the nearest. The numbers that read back form an interval around the float, its
ends included when the mantissa is even; a decimal with few digits is a multiple of a large power of
ten. So `shortest` walks the powers of ten downwards and takes the first that has a multiple in the
interval. If any multiple lies there, then one of the two around the float does, and only those are
tried.
-/

namespace Reckon

/-- The number `coefficient · 10 ^ exponent`. -/
structure Decimal where
  coefficient : Nat
  exponent : Int
  deriving DecidableEq, Repr, Inhabited

/-- The numbers that read back as a float, all over one denominator: the float itself, the two ends
and whether the ends belong to it. -/
structure Basin where
  low : Nat
  value : Nat
  high : Nat
  denominator : Nat
  closed : Bool
  deriving Repr

namespace Basin

/-- The basin of the float `mantissa · 2 ^ exponent`. Its ends lie halfway to the neighbours, and
the lower neighbour of a power of two is only half as far as the upper one, unless it is the lowest
power of two with an implied leading bit. Quarters of the last place make all three whole. -/
def of (mantissa : Nat) (exponent : Int) : Basin :=
  let below := if mantissa = Nat.pow 2 52 ∧ -1074 < exponent then 1 else 2
  let quarter := exponent - 2
  let scale := Nat.pow 2 quarter.toNat
  ⟨(4 * mantissa - below) * scale, 4 * mantissa * scale, (4 * mantissa + 2) * scale,
    Nat.pow 2 (-quarter).toNat, mantissa % 2 == 0⟩

/-- Whether a multiple of the unit `num / den` lies in the basin. -/
def holds (b : Basin) (multiple num den : Nat) : Bool :=
  let x := multiple * num * b.denominator
  if b.closed then b.low * den ≤ x && x ≤ b.high * den
  else b.low * den < x && x < b.high * den

/-- The multiple of the unit `num / den` that lies in the basin nearest to the float. Between two
that are as near the larger one is taken. -/
def nearest? (b : Basin) (num den : Nat) : Option Nat :=
  let unit := num * b.denominator
  let floor := b.value * den / unit
  let rest := b.value * den % unit
  match b.holds floor num den, b.holds (floor + 1) num den with
  | true, true => some (if unit ≤ 2 * rest then floor + 1 else floor)
  | true, false => some floor
  | false, true => some (floor + 1)
  | false, false => none

/-- Tries `steps` powers of ten downwards from `10 ^ exponent`. -/
def search (b : Basin) : Nat → Int → Decimal
  | 0, exponent => ⟨b.value, exponent⟩
  | steps + 1, exponent =>
    match b.nearest? (10 ^ exponent.toNat) (10 ^ (-exponent).toNat) with
    | some c => ⟨c, exponent⟩
    | none => b.search steps (exponent - 1)

end Basin

/-- The shortest decimal of the float `mantissa · 2 ^ exponent` with a positive mantissa. The walk
starts above every number of the basin. It ends at a power of ten that the float is a multiple of:
at `1` for a whole number, and otherwise at the last decimal place that the quarters of its last
binary place have. -/
def shortest (mantissa : Nat) (exponent : Int) : Decimal :=
  let top := ((mantissa.log2 : Int) + 2 + exponent) * 3 / 10 + 2
  let bottom := min (exponent - 2) 0
  (Basin.of mantissa exponent).search ((top - bottom).toNat + 1) top

end Reckon
