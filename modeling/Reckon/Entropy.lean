/-!
# Chance

`Entropy` is where functions that depend on chance draw from: a sequence of numbers, and how many of
them have been drawn. The sequence is given from outside and may be any at all, so what is said of
every session holds whatever is drawn in it.

`Entropy.seeded` is a sequence to run with, of numbers between 0 and 1 that fall without a pattern.
It shows the states of a counter after they have been stirred thoroughly, so the same seed gives the
same numbers.
-/

namespace Reckon

/-- The numbers that are drawn one after the other, and how many have been drawn. -/
structure Entropy where
  draws : Nat → Float
  drawn : Nat := 0

namespace Entropy

/-- The next number, and the sequence behind it. -/
def next (e : Entropy) : Float × Entropy := (e.draws e.drawn, { e with drawn := e.drawn + 1 })

/-- Stirs a counter: every bit of the result depends on every bit of the counter. -/
def stir (counter : UInt64) : UInt64 :=
  let x := (counter ^^^ (counter >>> 30)) * 0xBF58476D1CE4E5B9
  let y := (x ^^^ (x >>> 27)) * 0x94D049BB133111EB
  y ^^^ (y >>> 31)

/-- The numbers of a seed, at least 0 and less than 1. A float has room for 53 bits. -/
def seeded (seed : UInt64) : Entropy where
  draws i :=
    let counter := seed + UInt64.ofNat (i + 1) * 0x9E3779B97F4A7C15
    Float.ofNat (stir counter >>> 11).toNat / Float.ofNat (Nat.pow 2 53)

instance : Inhabited Entropy := ⟨seeded 0⟩

end Entropy

end Reckon
