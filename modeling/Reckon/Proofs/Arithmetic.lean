import Reckon.Number
import Mathlib

/-!
# Integer arithmetic

An integer stands for the exact result of the operation it comes from: it keeps the lowest 32 bits
of it, and is flagged when they are not all. Arithmetic is to be exact in this sense for every
operator and every pair of operands, and to fail only where there is no exact result.

It is, but for one remainder. The lowest integer divided by `-1` has a quotient that is out of
range, and a remainder of zero that is not; the zero is flagged with the quotient. Main result:
`Number.wraps_arithmetic`.
-/

namespace Reckon

/-- Whether a whole number is a 32-bit integer. -/
def FitsInt32 (n : Int) : Prop := -2 ^ 31 ≤ n ∧ n < 2 ^ 31

instance (n : Int) : Decidable (FitsInt32 n) := inferInstanceAs (Decidable (_ ∧ _))

namespace Operator

/-- The arithmetic operators. -/
def arithmetic : List Operator := [add, sub, mul, div, mod]

/-- What an arithmetic operator makes of two whole numbers. Quotients are cut towards zero and a
remainder has the sign of the dividend; there is neither without a divisor. -/
def onIntegers? : Operator → Int → Int → Option Int
  | add, a, b => some (a + b)
  | sub, a, b => some (a - b)
  | mul, a, b => some (a * b)
  | div, a, b => if b = 0 then none else some (a.tdiv b)
  | mod, a, b => if b = 0 then none else some (a.tmod b)
  | _, _, _ => none

/-- There is an exact result of an arithmetic operator as long as there is a divisor. -/
theorem onIntegers?_eq_some_iff {op : Operator} {a b exact : Int} :
    op.onIntegers? a b = some exact ↔
      op = add ∧ exact = a + b ∨ op = sub ∧ exact = a - b ∨ op = mul ∧ exact = a * b ∨
        op = div ∧ b ≠ 0 ∧ exact = a.tdiv b ∨ op = mod ∧ b ≠ 0 ∧ exact = a.tmod b := by
  cases op <;> simp [onIntegers?, eq_comm]

end Operator

namespace Number

/-- Whether a number is an integer with the lowest 32 bits of an exact result, flagged under the
given condition and under no other. -/
def Wraps (r : Number) (exact : Int) (flagged : Prop) : Prop :=
  ∃ value overflow, r = .int value .decimal overflow ∧ value.toInt ≡ exact [ZMOD 2 ^ 32] ∧
    (overflow = true ↔ flagged)

variable {n : Int} {a b : Int32}

/-- Cutting a whole number to 32 bits keeps its lowest 32 bits. -/
theorem toInt_ofInt_modEq (n : Int) : (Int32.ofInt n).toInt ≡ n [ZMOD 2 ^ 32] := by
  rw [Int32.toInt_ofInt]
  exact Int.bmod_emod

/-- Cutting a whole number to 32 bits leaves it what it is exactly when it fits. -/
theorem toInt_ofInt_eq_iff : (Int32.ofInt n).toInt = n ↔ FitsInt32 n := by
  constructor
  · intro hSame
    rw [← hSame]
    exact ⟨Int32.le_toInt _, Int32.toInt_lt _⟩
  · rintro ⟨hLow, hHigh⟩
    exact Int32.toInt_ofInt_of_le hLow hHigh

/-- **A result that is cut to 32 bits wraps**, and is flagged when it does not fit. -/
theorem wraps_ofExact (n : Int) : (ofExact n).Wraps n (¬ FitsInt32 n) := by
  refine ⟨_, _, rfl, toInt_ofInt_modEq n, ?_⟩
  rw [decide_eq_true_eq, ne_eq, toInt_ofInt_eq_iff]

theorem Wraps.congr {r : Number} {p q : Prop} (h : r.Wraps n p) (hIff : p ↔ q) : r.Wraps n q := by
  obtain ⟨value, overflow, rfl, hCongruent, hFlag⟩ := h
  exact ⟨value, overflow, rfl, hCongruent, hFlag.trans hIff⟩

/-- An operator takes two integers within range as they are. -/
theorem binary_whole {op : Operator} (hOp : op ∈ Operator.arithmetic) (k k' : Numeral) :
    binary op (whole a k) (whole b k') = intArithmetic op a b := by
  simp only [Operator.arithmetic, List.mem_cons, List.not_mem_nil, or_false] at hOp
  rcases hOp with rfl | rfl | rfl | rfl | rfl <;> rfl

theorem toInt_eq_zero_iff : b.toInt = 0 ↔ b = 0 := by
  rw [← Int32.toInt_zero, Int32.toInt_inj]

/-- A remainder is smaller than the divisor, so it is always within range. -/
theorem fitsInt32_tmod (a : Int32) (hb : b ≠ 0) : FitsInt32 (a.toInt.tmod b.toInt) := by
  have hDivisor : b.toInt ≠ 0 := fun hZero => hb (toInt_eq_zero_iff.1 hZero)
  -- a remainder has a smaller size than the divisor, and a divisor has a size of `2 ^ 31` at most
  have hSize : (a.toInt.tmod b.toInt).natAbs < b.toInt.natAbs := by
    rw [Int.natAbs_tmod]
    exact Nat.mod_lt _ (by omega)
  have hLow := Int32.le_toInt b
  have hHigh := Int32.toInt_lt b
  unfold FitsInt32
  omega

/-- **A remainder is exact**, except that the zero is flagged which the lowest integer leaves when
it is divided by `-1`. -/
theorem wraps_mod (hb : b ≠ 0) : ∃ r, intArithmetic .mod a b = .ok r ∧
    r.Wraps (a.toInt.tmod b.toInt) (a = Int32.minValue ∧ b = -1) := by
  unfold intArithmetic
  dsimp only
  rw [if_neg hb]
  split
  · -- the zero is flagged here
    rename_i hLowest
    obtain ⟨rfl, rfl⟩ := hLowest
    exact ⟨_, rfl, 0, true, rfl, by decide, by simp⟩
  · rename_i hOther
    refine ⟨_, rfl, (wraps_ofExact _).congr (iff_of_false ?_ hOther)⟩
    exact not_not_intro (fitsInt32_tmod a hb)

/-- Arithmetic fails only for want of a divisor. -/
theorem intArithmetic_eq_error_iff {op : Operator} (hOp : op ∈ Operator.arithmetic) {e : Fault} :
    intArithmetic op a b = .error e ↔
      (op = .div ∨ op = .mod) ∧ b = 0 ∧ e = RuntimeFault.intDivOrModByZero := by
  simp only [Operator.arithmetic, List.mem_cons, List.not_mem_nil, or_false] at hOp
  rcases hOp with rfl | rfl | rfl | rfl | rfl
  · -- sums, differences and products are always there
    simp [intArithmetic]
  · simp [intArithmetic]
  · simp [intArithmetic]
  · by_cases hb : b = 0 <;> simp [intArithmetic, hb, eq_comm]
  · by_cases hb : b = 0
    · simp [intArithmetic, hb, eq_comm]
    · obtain ⟨r, hOk, -⟩ := wraps_mod (a := a) hb
      simp [hOk, hb]

/-- **Integer arithmetic is exact**: for all integers within range, in any notations, it fails only
where there is no divisor, and else keeps the lowest 32 bits of the exact result, flagged when these
are not all of it. The one exception is the remainder of the lowest integer and `-1`. -/
theorem wraps_arithmetic (a b : Int32) (k k' : Numeral) :
    (∀ op ∈ Operator.arithmetic, ∀ e, (whole a k).binary op (whole b k') = .error e ↔
      (op = .div ∨ op = .mod) ∧ b = 0 ∧ e = RuntimeFault.intDivOrModByZero) ∧
    (∀ op exact, op.onIntegers? a.toInt b.toInt = some exact →
      ∃ r, (whole a k).binary op (whole b k') = .ok r ∧
        r.Wraps exact (¬ FitsInt32 exact ∨ op = .mod ∧ a = Int32.minValue ∧ b = -1)) ∧
    ∃ r, (whole a k).unary .minus = .ok r ∧ r.Wraps (-a.toInt) (¬ FitsInt32 (-a.toInt)) := by
  refine ⟨fun op hOp e => ?_, fun op exact hExact => ?_, ⟨_, rfl, wraps_ofExact _⟩⟩
  · rw [binary_whole hOp]
    exact intArithmetic_eq_error_iff hOp
  · -- everything but the remainder is cut to 32 bits as it is
    have hCut (r : Number) (hr : r.Wraps exact (¬ FitsInt32 exact)) (hOther : op ≠ .mod) :
        r.Wraps exact (¬ FitsInt32 exact ∨ op = .mod ∧ a = Int32.minValue ∧ b = -1) :=
      hr.congr (or_iff_left fun hMod => hOther hMod.1).symm
    rcases Operator.onIntegers?_eq_some_iff.1 hExact with
      ⟨rfl, rfl⟩ | ⟨rfl, rfl⟩ | ⟨rfl, rfl⟩ | ⟨rfl, hDivisor, rfl⟩ | ⟨rfl, hDivisor, rfl⟩
    · exact ⟨_, rfl, hCut _ (wraps_ofExact _) (by decide)⟩
    · exact ⟨_, rfl, hCut _ (wraps_ofExact _) (by decide)⟩
    · exact ⟨_, rfl, hCut _ (wraps_ofExact _) (by decide)⟩
    · -- without a divisor there would be no exact result
      have hb : b ≠ 0 := fun hZero => hDivisor (toInt_eq_zero_iff.2 hZero)
      refine ⟨_, ?_, hCut _ (wraps_ofExact _) (by decide)⟩
      rw [binary_whole (by decide)]
      exact if_neg hb
    · have hb : b ≠ 0 := fun hZero => hDivisor (toInt_eq_zero_iff.2 hZero)
      obtain ⟨r, hOk, hWraps⟩ := wraps_mod (a := a) hb
      refine ⟨r, ?_, hWraps.congr ?_⟩
      · rw [binary_whole (by decide)]
        exact hOk
      · -- the remainder itself is always within range
        have hFits := fitsInt32_tmod a hb
        simp [hFits]

/-- The lowest integer leaves no remainder when it is divided by `-1`, and zero fits 32 bits, but it
is flagged as if it did not. -/
theorem not_wraps_lowestModMinusOne :
    Operator.mod.onIntegers? Int32.minValue.toInt (-1 : Int32).toInt = some 0 ∧ FitsInt32 0 ∧
      (whole Int32.minValue).binary .mod (whole (-1)) = .ok (.int 0 .decimal true) ∧
      ¬ (int 0 .decimal true).Wraps 0 (¬ FitsInt32 0) := by
  refine ⟨by decide, by decide, rfl, ?_⟩
  rintro ⟨value, overflow, hSame, -, hFlag⟩
  -- the flag is set, and the condition is that zero does not fit
  cases hSame
  exact hFlag.1 rfl (by decide)

end Number

end Reckon
