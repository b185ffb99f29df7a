import Reckon.Builtin
import Reckon.Proofs.Arithmetic
import Reckon.Proofs.WholeFloats

/-!
# Overflow in builtin functions

An integer that has overflowed is not the number it stands for. Its flag is all that tells it from
an ordinary integer with the same 32 bits, so whatever takes integers has to look at the flag. The
operators do, and refuse such an operand, and so does `factorial` (`Number.refused_of_overflowed`).

Among the builtin functions that give integers back, `int`, `floor`, `ceil`, `sum` and `mul` do not
look: they answer as if no argument had been flagged. The roundings give the 32 bits back as an
integer within range. A total is a float first, and becomes an integer within range exactly if it is
one; a total of integers is exact for as long as it stays below `2 ^ 53`.

Main results: `Builtin.overflow_lost_iff`, `Builtin.isInt32_sum_iff` and
`Builtin.isInt32_product_iff`.
-/

namespace Reckon

open Binary64

/-! ## The flag -/

namespace Number

/-- Whether the number is an integer that has overflowed. -/
def Overflowed : Number → Prop
  | int _ _ overflow => overflow = true
  | float _ => False

/-- The number without the flag. -/
def unflagged : Number → Number
  | int value numeral _ => whole value numeral
  | float x => float x

/-- A number that is no operand of any operator, and has no factorial. -/
structure Refused (n : Number) : Prop where
  unary (op : Operator) : n.unary op = .error RuntimeFault.mathWithNaNOrInf
  left (op : Operator) (m : Number) : n.binary op m = .error RuntimeFault.mathWithNaNOrInf
  right (op : Operator) (m : Number) : m.binary op n = .error RuntimeFault.mathWithNaNOrInf
  factorial (sample : Float) (slot : SlotId) :
    Builtin.factorial.call sample [⟨slot, .number n⟩] =
      .error { fault := RuntimeFault.badCallArgType }

variable {n : Number}

/-- An integer that has overflowed has a value and a way of being written. -/
theorem Overflowed.exists_eq (h : n.Overflowed) :
    ∃ value numeral, n = .int value numeral true := by
  cases n with
  | int value numeral overflow => exact ⟨value, numeral, by rw [show overflow = true from h]⟩
  | float x => exact h.elim

/-- **Operators and `factorial` refuse an integer that has overflowed.** -/
theorem refused_of_overflowed (h : n.Overflowed) : n.Refused := by
  obtain ⟨value, numeral, rfl⟩ := h.exists_eq
  have hBad : (int value numeral true).isBad = true := rfl
  -- the operators ask for the flag before anything else, and `factorial` wants an integer without
  -- it
  exact {
    unary := fun op => if_pos hBad
    left := fun op m => if_pos (by rw [hBad, Bool.true_or])
    right := fun op m => if_pos (by rw [hBad, Bool.or_true])
    factorial := fun _ _ => rfl }

/-- The flag makes no difference to the float that a number is taken for. -/
@[simp] theorem toFloat_unflagged (n : Number) : n.unflagged.toFloat = n.toFloat := by
  cases n <;> rfl

end Number

namespace Argument

/-- The argument, with the flag taken off if it is a number. -/
def unflagged (a : Argument) : Argument :=
  match a.sight with
  | .number n => { a with sight := .number n.unflagged }
  | _ => a

/-- An argument that is a number is the same number without the flag. -/
theorem number_unflagged {a : Argument} {n : Number} (h : a.number = .ok n) :
    a.unflagged.number = .ok n.unflagged := by
  obtain ⟨slot, sight⟩ := a
  cases sight with
  | number m =>
    cases h
    rfl
  | nil | function | array => cases h

/-- Arguments are numbers when each of them is one. -/
theorem numbers_eq_ok_iff {args : List Argument} {ns : List Number} :
    numbers args = .ok ns ↔ List.Forall₂ (fun a n => a.number = .ok n) args ns := by
  unfold numbers
  -- induction on the arguments, with the numbers left open
  induction args generalizing ns with
  | nil => cases ns <;> simp [pure, Except.pure]
  | cons a args ih =>
    rw [List.mapM_cons]
    cases hHead : a.number with
    | error e => cases ns <;> simp [bind, Except.bind, hHead]
    | ok n =>
      cases hRest : args.mapM number with
      | error e => cases ns <;> simp [bind, Except.bind, ← ih, hRest, hHead]
      | ok rest =>
        cases ns <;> simp [bind, Except.bind, pure, Except.pure, ← ih, hRest, hHead]

variable {args : List Argument} {ns : List Number}

theorem length_of_numbers (h : numbers args = .ok ns) : args.length = ns.length :=
  (numbers_eq_ok_iff.1 h).length_eq

/-- Arguments that are numbers are the same numbers without the flags. -/
theorem numbers_unflagged (h : numbers args = .ok ns) :
    numbers (args.map unflagged) = .ok (ns.map Number.unflagged) := by
  rw [numbers_eq_ok_iff, List.forall₂_map_left_iff, List.forall₂_map_right_iff]
  exact (numbers_eq_ok_iff.1 h).imp fun _ _ => number_unflagged

end Argument

/-! ## Calls -/

/-- Whether a call gives back an integer within range. -/
def Function.GivesInteger (f : Function) (sample : Float) (args : List Argument) : Prop :=
  ∃ value numeral, f.call sample args = .ok (.number (.whole value numeral))

namespace Builtin

/-- Whether a float is a 32-bit integer. -/
def IsInt32 (x : Float) : Prop := ∃ value : Int32, x == .ofInt value.toInt

/-- The integer that a rounding makes of a number. -/
def rounded (r : Rounding) : Number → Int32
  | .int value _ _ => value
  | .float x => roundToInt32 r x

/-- What a folding function makes of numbers before it looks whether that is an integer. -/
def total (start : Float) (step : Float → Float → Float) (ns : List Number) : Float :=
  ns.foldl (fun total n => step total n.toFloat) start

variable {name : String} {r : Rounding} {start : Float} {step : Float → Float → Float}
  {sample : Float} {args : List Argument} {ns : List Number} {n : Number} {x : Float}

/-- The flags make no difference to a total. -/
theorem total_unflagged (ns : List Number) :
    total start step (ns.map Number.unflagged) = total start step ns := by
  simp only [total, List.foldl_map, Number.toFloat_unflagged]

/-- A total becomes an integer within range exactly if it is one. -/
theorem wholeOrFloat_eq_whole_iff {value : Int32} {numeral : Numeral} :
    wholeOrFloat x = .whole value numeral ↔ numeral = .decimal ∧ x == .ofInt value.toInt := by
  unfold wholeOrFloat
  constructor
  · intro hWhole
    dsimp only at hWhole
    split at hWhole
    · rename_i hSame
      cases hWhole
      exact ⟨rfl, BEq.symm hSame⟩
    · cases hWhole
  · rintro ⟨rfl, hSame⟩
    dsimp only
    rw [roundToInt32_of_beq hSame, if_pos (BEq.symm hSame)]

/-- A rounding answers with the integer it makes of its argument. -/
theorem call_rounding (h : Argument.numbers args = .ok [n]) :
    (rounding name r).call sample args = .ok (.number (.whole (rounded r n))) := by
  obtain ⟨a, rfl⟩ := List.length_eq_one_iff.1 (Argument.length_of_numbers h)
  have hNumber : a.number = .ok n := by
    simpa using Argument.numbers_eq_ok_iff.1 h
  have hAccepts : (rounding name r).arity.accepts [a].length = true := rfl
  rw [Function.call, if_pos hAccepts]
  simp only [rounding, ofNumber, hNumber]
  -- an integer is taken as it is, and a float is rounded
  cases n <;> rfl

/-- A rounding refuses any number of arguments but one. -/
theorem call_rounding_of_length_ne (h : args.length ≠ 1) :
    (rounding name r).call sample args = .error { fault := RuntimeFault.badCallArgCount } :=
  if_neg fun hAccepts => h (eq_of_beq hAccepts).symm

/-- A folding function answers with its total, as an integer if it is one. -/
theorem call_folding (h : Argument.numbers args = .ok ns) (hSome : ns ≠ []) :
    (folding name start step).call sample args =
      .ok (.number (wholeOrFloat (total start step ns))) := by
  have hNonempty : args ≠ [] := by
    rintro rfl
    cases h
    exact hSome rfl
  have hAccepts : (folding name start step).arity.accepts args.length = true := rfl
  rw [Function.call, if_pos hAccepts]
  simp [folding, h, hNonempty, total]

/-! ## Totals of integers -/

/-- Whether numbers are integers, flagged or not, that keep the given values. -/
def IntegersOf (ns : List Number) (values : List Int32) : Prop :=
  List.Forall₂ (fun n value => ∃ numeral overflow, n = .int value numeral overflow) ns values

variable {values : List Int32} {a : Int}

/-- A float that is a whole number is a 32-bit integer if that number fits. -/
theorem isInt32_iff (h : Holds x a) : IsInt32 x ↔ FitsInt32 a := by
  constructor
  · rintro ⟨value, hSame⟩
    rw [h.unique (holds_of_beq_toInt hSame)]
    exact ⟨Int32.le_toInt _, Int32.toInt_lt _⟩
  · intro hFits
    refine ⟨Int32.ofInt a, (holds_iff_beq (natAbs_toInt_lt _)).1 ?_⟩
    rwa [Number.toInt_ofInt_eq_iff.2 hFits]

/-- A total is exact if no part of it is too large for that. -/
theorem holds_total {combine : Int → Int → Int}
    (hStep : ∀ {x y a b}, Holds x a → Holds y b → (combine a b).natAbs < 2 ^ 53 →
      Holds (step x y) (combine a b))
    (h : IntegersOf ns values) (hStart : Holds start a)
    (hSmall : ∀ vs, vs <+: values → ((vs.map Int32.toInt).foldl combine a).natAbs < 2 ^ 53) :
    Holds (total start step ns) ((values.map Int32.toInt).foldl combine a) := by
  unfold IntegersOf at h
  -- induction on the numbers, with the start left open: the bound is needed for every part that
  -- comes first
  induction h generalizing start a with
  | nil => exact hStart
  | @cons n value ns values hHead _ ih =>
    obtain ⟨numeral, overflow, rfl⟩ := hHead
    have hValue : Holds (.ofInt value.toInt) value.toInt := holds_ofInt (natAbs_toInt_lt value)
    have hFirst : (combine a value.toInt).natAbs < 2 ^ 53 := hSmall [value] (by simp)
    refine ih (hStep hStart hValue hFirst) fun vs hPrefix => ?_
    exact hSmall (value :: vs) ((List.prefix_cons_inj value).2 hPrefix)

/-- A sum grows by a 32-bit integer with each number at most. -/
theorem natAbs_sum_le (values : List Int32) :
    (values.map Int32.toInt).sum.natAbs ≤ values.length * 2 ^ 31 := by
  induction values with
  | nil => simp
  | cons value values ih =>
    have hLow := Int32.le_toInt value
    have hHigh := Int32.toInt_lt value
    rw [List.map_cons, List.sum_cons, List.length_cons]
    omega

/-- **A sum of integers** loses overflow exactly when the values that are kept add up to a 32-bit
integer. -/
theorem isInt32_sum_iff (h : IntegersOf ns values) (hCount : values.length ≤ 2 ^ 21) :
    IsInt32 (total 0 (· + ·) ns) ↔ FitsInt32 (values.map Int32.toInt).sum := by
  have hZero : Holds 0 0 := holds_zero .positive
  -- 2 ^ 21 integers of 31 bits and a sign stay within the 53 bits that are exact
  have hSmall (vs : List Int32) (hPrefix : vs <+: values) :
      ((vs.map Int32.toInt).foldl (· + ·) 0).natAbs < 2 ^ 53 := by
    have hSum := natAbs_sum_le vs
    have hLength := hPrefix.length_le
    rw [← List.sum_eq_foldl]
    omega
  rw [List.sum_eq_foldl]
  exact isInt32_iff (holds_total Holds.add h hZero hSmall)

/-- **A product of integers** loses overflow exactly when the values that are kept multiply to a
32-bit integer, unless it becomes too large in between. -/
theorem isInt32_product_iff (h : IntegersOf ns values)
    (hSmall : ∀ vs, vs <+: values → (vs.map Int32.toInt).prod.natAbs < 2 ^ 53) :
    IsInt32 (total 1 (· * ·) ns) ↔ FitsInt32 (values.map Int32.toInt).prod := by
  have hOne : Holds 1 1 := holds_ofNat (by decide)
  simp only [List.prod_eq_foldl] at hSmall ⊢
  exact isInt32_iff (holds_total Holds.mul h hOne hSmall)

/-! ## What is lost -/

/-- A rounding gives the same answer without the flags. -/
theorem call_rounding_unflagged (h : Argument.numbers args = .ok ns) :
    (rounding name r).call sample (args.map Argument.unflagged) =
      (rounding name r).call sample args := by
  have hLength := Argument.length_of_numbers h
  by_cases hOne : args.length = 1
  · obtain ⟨n, rfl⟩ := List.length_eq_one_iff.1 (hLength.symm.trans hOne)
    rw [call_rounding h, call_rounding (Argument.numbers_unflagged h)]
    cases n <;> rfl
  · rw [call_rounding_of_length_ne hOne, call_rounding_of_length_ne (by simpa using hOne)]

/-- A folding function gives the same answer without the flags. -/
theorem call_folding_unflagged (h : Argument.numbers args = .ok ns) (hSome : ns ≠ []) :
    (folding name start step).call sample (args.map Argument.unflagged) =
      (folding name start step).call sample args := by
  rw [call_folding h hSome, call_folding (Argument.numbers_unflagged h) (by simpa using hSome),
    total_unflagged]

/-- A rounding gives an integer back whenever it is given one number. -/
theorem givesInteger_rounding_iff (h : Argument.numbers args = .ok ns) :
    (rounding name r).GivesInteger sample args ↔ args.length = 1 := by
  constructor
  · rintro ⟨value, numeral, hCall⟩
    by_contra hLength
    rw [call_rounding_of_length_ne hLength] at hCall
    cases hCall
  · intro hOne
    obtain ⟨n, rfl⟩ := List.length_eq_one_iff.1 ((Argument.length_of_numbers h).symm.trans hOne)
    exact ⟨_, _, call_rounding h⟩

/-- A folding function gives an integer back exactly when its total is one. -/
theorem givesInteger_folding_iff (h : Argument.numbers args = .ok ns) (hSome : ns ≠ []) :
    (folding name start step).GivesInteger sample args ↔ IsInt32 (total start step ns) := by
  unfold Function.GivesInteger IsInt32
  simp only [call_folding h hSome, Except.ok.injEq, Reply.number.injEq, wholeOrFloat_eq_whole_iff]
  simp

/-- The builtin functions that take numbers and give integers back round or fold. -/
theorem find?_cases {f : Function} (hName : name ∈ ["int", "floor", "ceil", "sum", "mul"])
    (hFind : find? name = some f) :
    (name ∈ ["int", "floor", "ceil"] ∧ name ≠ "sum" ∧ name ≠ "mul" ∧ ∃ r, f = rounding name r) ∨
      (name = "sum" ∧ f = folding "sum" 0 (· + ·)) ∨
      name = "mul" ∧ f = folding "mul" 1 (· * ·) := by
  simp only [List.mem_cons, List.not_mem_nil, or_false] at hName
  -- there is one builtin function of each name
  rcases hName with rfl | rfl | rfl | rfl | rfl <;> cases hFind
  · exact .inl ⟨by decide, by decide, by decide, _, rfl⟩
  · exact .inl ⟨by decide, by decide, by decide, _, rfl⟩
  · exact .inl ⟨by decide, by decide, by decide, _, rfl⟩
  · exact .inr (.inl ⟨rfl, rfl⟩)
  · exact .inr (.inr ⟨rfl, rfl⟩)

/-- **Overflow is lost** by `int`, `floor` and `ceil` of one argument, and by `sum` and `mul`
exactly when the total is a 32-bit integer. None of these functions answers otherwise than if
nothing were flagged, though no operator accepts what is flagged, nor does `factorial`. -/
theorem overflow_lost_iff {f : Function} (sample : Float)
    (hName : name ∈ ["int", "floor", "ceil", "sum", "mul"]) (hFind : find? name = some f)
    (hNumbers : Argument.numbers args = .ok ns) (hFlag : ∃ n ∈ ns, n.Overflowed) :
    f.call sample (args.map Argument.unflagged) = f.call sample args ∧
    (f.GivesInteger sample args ↔
      name ∈ ["int", "floor", "ceil"] ∧ args.length = 1 ∨
      name = "sum" ∧ IsInt32 (total 0 (· + ·) ns) ∨
      name = "mul" ∧ IsInt32 (total 1 (· * ·) ns)) ∧
    ∀ n ∈ ns, n.Overflowed → n.Refused := by
  have hSome : ns ≠ [] := by
    rintro rfl
    obtain ⟨n, hn, -⟩ := hFlag
    cases hn
  rw [← and_assoc]
  refine ⟨?_, fun n _ => Number.refused_of_overflowed⟩
  -- each function rounds its one argument or folds all of them
  rcases find?_cases hName hFind with ⟨hRounds, hSum, hMul, r, rfl⟩ | ⟨rfl, rfl⟩ | ⟨rfl, rfl⟩
  · refine ⟨call_rounding_unflagged hNumbers, ?_⟩
    rw [givesInteger_rounding_iff hNumbers]
    simp only [hRounds, hSum, hMul, true_and, false_and, or_false]
  · refine ⟨call_folding_unflagged hNumbers hSome, ?_⟩
    rw [givesInteger_folding_iff hNumbers hSome]
    simp
  · refine ⟨call_folding_unflagged hNumbers hSome, ?_⟩
    rw [givesInteger_folding_iff hNumbers hSome]
    simp

/-- What is kept of an overflow is within range again, with one added to it and multiplied by
one. -/
theorem givesInteger_lowestAndOne :
    let args : List Argument :=
      [⟨0, .number (.int Int32.minValue .decimal true)⟩, ⟨0, .number (.whole 1)⟩]
    (∃ f, find? "sum" = some f ∧ f.GivesInteger 0 args) ∧
      ∃ f, find? "mul" = some f ∧ f.GivesInteger 0 args := by
  intro args
  let ns : List Number := [.int Int32.minValue .decimal true, .whole 1]
  have hNumbers : Argument.numbers args = .ok ns := rfl
  have hIntegers : IntegersOf ns [Int32.minValue, 1] :=
    .cons ⟨_, _, rfl⟩ (.cons ⟨_, _, rfl⟩ .nil)
  have hFlag : ∃ n ∈ ns, n.Overflowed := ⟨_, List.mem_cons_self, rfl⟩
  -- a product of the first few numbers stays within the bits that are exact
  have hInits : ∀ vs ∈ [Int32.minValue, 1].inits,
      (vs.map Int32.toInt).prod.natAbs < 2 ^ 53 := by decide
  have hSum := (isInt32_sum_iff hIntegers (by decide)).2 (by decide)
  have hProduct := (isInt32_product_iff hIntegers fun vs hPrefix =>
    hInits vs ((List.mem_inits ..).2 hPrefix)).2 (by decide)
  have hSumName : "sum" ∈ ["int", "floor", "ceil", "sum", "mul"] := by decide
  have hMulName : "mul" ∈ ["int", "floor", "ceil", "sum", "mul"] := by decide
  obtain ⟨-, hLostBySum, -⟩ := overflow_lost_iff 0 hSumName rfl hNumbers hFlag
  obtain ⟨-, hLostByMul, -⟩ := overflow_lost_iff 0 hMulName rfl hNumbers hFlag
  exact ⟨⟨_, rfl, hLostBySum.2 (.inr (.inl ⟨rfl, hSum⟩))⟩,
    ⟨_, rfl, hLostByMul.2 (.inr (.inr ⟨rfl, hProduct⟩))⟩⟩

/-- The lowest integer, flagged as overflowed, is an integer within range when it is rounded. -/
theorem call_intOfOverflowed :
    ∃ f, find? "int" = some f ∧ Number.Overflowed (.int Int32.minValue .decimal true) ∧
      f.call 0 [⟨0, .number (.int Int32.minValue .decimal true)⟩] =
        .ok (.number (.int Int32.minValue .decimal false)) :=
  ⟨_, rfl, rfl, rfl⟩

end Builtin

end Reckon
