import Reckon.Number.Literal
import Reckon.Number.Text
import Reckon.Proofs.Spans
import Mathlib.Data.Nat.Digits.Lemmas

/-!
# Integers that are read as they are shown

Digits denote a number in a base (`positional`), and that is what they are read to, as far as 64
bits reach (`readDigits?_eq`). The digits that a number is shown by denote the number
(`positional_toDigits`).

The text of an integer that is not negative is a numeral: the scanner takes all of it and no more,
whatever ends it, and finds the notation that it was shown in (`Numeral.scan_sizeText`). As a
literal it has the value that was shown (`Number.ofLiteral_sizeText`). Zero in octal is the
exception, as it is shown without a mark and read as a decimal.

There are no negative literals: the sign is an operator, and takes a decimal to a decimal.
-/

namespace Reckon

/-! ## Digits -/

section Digits

variable {base value n : Nat} {ds : List Char}

/-- The digits of the bases up to 16, each at its value. -/
def digitChars : List Char :=
  ['0', '1', '2', '3', '4', '5', '6', '7', '8', '9', 'a', 'b', 'c', 'd', 'e', 'f']

/-- The value of a digit. Letters may be of either case. -/
def digitOf (c : Char) : Nat := digitChars.idxOf c.toLower

/-- The number that digits denote in a base, the most significant one first. -/
def positional (base : Nat) (ds : List Char) : Nat := Nat.ofDigits base (ds.map digitOf).reverse

/-- A digit of the base, read as what it denotes. -/
def ReadsDigit (base : Nat) (d : Char) : Prop := digitValue? base d = some (digitOf d)

instance (base : Nat) (d : Char) : Decidable (ReadsDigit base d) :=
  inferInstanceAs (Decidable (_ = _))

/-- The first digit counts as much as the digits behind it have places. -/
theorem positional_cons (base : Nat) (d : Char) (ds : List Char) :
    positional base (d :: ds) = digitOf d * base ^ ds.length + positional base ds := by
  unfold positional
  rw [List.map_cons, List.reverse_cons, Nat.ofDigits_append, List.length_reverse, List.length_map,
    Nat.ofDigits_singleton]
  ring

/-- A digit behind the others counts for itself, and the others move on by a place. -/
theorem positional_concat (base : Nat) (ds : List Char) (d : Char) :
    positional base (ds ++ [d]) = positional base ds * base + digitOf d := by
  unfold positional
  rw [List.map_append, List.map_singleton, List.reverse_append, List.reverse_singleton,
    List.singleton_append, Nat.ofDigits_cons]
  ring

/-- **Digits are read to what they denote**, or to the widest literal if that is less. -/
theorem readDigits?_eq (hBase : 0 < base) (hValue : value ≤ widestLiteral)
    (hDigits : ∀ d ∈ ds, ReadsDigit base d) :
    readDigits? base value ds =
      some (min (value * base ^ ds.length + positional base ds) widestLiteral) := by
  induction ds generalizing value with
  | nil =>
    have hSame : value * base ^ 0 + positional base [] = value := by simp [positional]
    rw [List.length_nil, hSame, Nat.min_eq_left hValue]
    rfl
  | cons d ds ih =>
    obtain ⟨hFirst, hRest⟩ := List.forall_mem_cons.1 hDigits
    have hAll : value * base ^ (ds.length + 1) + positional base (d :: ds) =
        (value * base + digitOf d) * base ^ ds.length + positional base ds := by
      rw [positional_cons]
      ring
    rw [List.length_cons, hAll, readDigits?, hFirst]
    dsimp only
    split
    · -- the digits behind do not make it less
      rename_i hWide
      have hMore := Nat.le_mul_of_pos_right (value * base + digitOf d)
        (Nat.pow_pos (n := ds.length) hBase)
      rw [Nat.min_eq_right (by omega)]
    · rename_i hFits
      exact ih (Nat.le_of_not_lt hFits) hRest

/-- A digit is no sign. -/
theorem readNatural?_eq (hBase : 0 < base) (hSome : ds ≠ [])
    (hDigits : ∀ d ∈ ds, ReadsDigit base d) :
    readNatural? base ds = some (min (positional base ds) widestLiteral) := by
  have hRead := readDigits?_eq hBase (Nat.zero_le widestLiteral) hDigits
  rw [Nat.zero_mul, Nat.zero_add] at hRead
  have hPlus : '+' ∉ ds := by
    intro hMem
    have hDigit := hDigits '+' hMem
    unfold ReadsDigit digitValue? at hDigit
    cases hDigit
  unfold readNatural?
  split
  · exact absurd rfl hSome
  · exact absurd (List.mem_cons_self ..) hPlus
  · exact absurd (List.mem_cons_self ..) hPlus
  · exact hRead

/-- The digit of a value has that value. -/
theorem digitOf_digitChar {d : Nat} (hd : d < 16) : digitOf d.digitChar = d := by
  have hAll : ∀ d < 16, digitOf d.digitChar = d := by decide
  exact hAll d hd

/-- A digit of a base is read as what it denotes. -/
theorem readsDigit_digitChar (hBase : base ≤ 16) {d : Nat} (hd : d < base) :
    ReadsDigit base d.digitChar := by
  have hAll : ∀ d < 16, ReadsDigit 16 d.digitChar := by decide
  have hLow : d < 16 := Nat.lt_of_lt_of_le hd hBase
  have hWide := hAll d hLow
  -- a base that has the digit reads it in the same way
  unfold ReadsDigit digitValue? at hWide ⊢
  obtain ⟨hFound, -⟩ := Option.filter_eq_some_iff.1 hWide
  exact Option.filter_eq_some_iff.2 ⟨hFound, by simpa [digitOf_digitChar hLow] using hd⟩

/-- Every character of a number in a base is a digit of the base. -/
theorem exists_digit_of_mem (hBase : 1 < base) {c : Char} (hc : c ∈ Nat.toDigits base n) :
    ∃ d < base, c = d.digitChar := by
  induction n using Nat.strongRecOn with
  | _ n ih =>
    rw [Nat.toDigits_eq_if hBase] at hc
    split at hc
    · rename_i hSmall
      exact ⟨n, hSmall, List.mem_singleton.1 hc⟩
    · rename_i hLarge
      rcases List.mem_append.1 hc with hFront | hLast
      · -- the digits of the quotient come first, and that of the remainder last
        exact ih (n / base) (Nat.div_lt_self (by omega) hBase) hFront
      · exact ⟨n % base, Nat.mod_lt _ (by omega), List.mem_singleton.1 hLast⟩

/-- A number other than zero does not begin with `0`. -/
theorem exists_lead_toDigits (hBase : 1 < base) (hn : 0 < n) :
    ∃ d cs, Nat.toDigits base n = d.digitChar :: cs ∧ 0 < d ∧ d < base := by
  induction n using Nat.strongRecOn with
  | _ n ih =>
    rw [Nat.toDigits_eq_if hBase]
    split
    · rename_i hSmall
      exact ⟨n, [], rfl, hn, hSmall⟩
    · rename_i hLarge
      have hQuotient : 0 < n / base := Nat.div_pos (by omega) (by omega)
      obtain ⟨d, cs, hEq, hd⟩ := ih (n / base) (Nat.div_lt_self hn hBase) hQuotient
      exact ⟨d, cs ++ [(n % base).digitChar], by rw [hEq]; rfl, hd⟩

/-- **The digits of a number denote it.** -/
theorem positional_toDigits (hBase : 1 < base) (hMax : base ≤ 16) (n : Nat) :
    positional base (Nat.toDigits base n) = n := by
  have hDigit {d : Nat} (hd : d < base) : digitOf d.digitChar = d :=
    digitOf_digitChar (Nat.lt_of_lt_of_le hd hMax)
  induction n using Nat.strongRecOn with
  | _ n ih =>
    rw [Nat.toDigits_eq_if hBase]
    split
    · rename_i hSmall
      rw [positional_cons, hDigit hSmall]
      simp [positional]
    · rename_i hLarge
      rw [positional_concat, ih (n / base) (Nat.div_lt_self (by omega) hBase),
        hDigit (Nat.mod_lt n (by omega)), Nat.div_add_mod']

end Digits

namespace Numeral

variable {numeral : Numeral} {size : Nat}

/-- The sizes that a notation shows so that they are read back. -/
def ReadsBack (numeral : Numeral) (size : Nat) : Prop :=
  numeral = .binary ∨ numeral = .decimal ∨ numeral = .hexadecimal ∨ numeral = .octal ∧ 0 < size

/-! ## The scanner -/

/-- What may end a numeral: the end of the text, or a character that no numeral goes on with. -/
def Ends (rest : List Char) : Prop := ∀ c cs, rest = c :: cs → c = ',' ∨ c = '\x7d'

theorem ends_nil : Ends [] := fun _ _ h => by cases h

/-- The scanner stops at what ends a numeral. -/
theorem run_of_ends {rest : List Char} (h : Ends rest) (s : State) : s.run rest = (0, s) := by
  cases rest with
  | nil => rfl
  | cons c cs =>
    have hStop : s.next c = none := by
      rcases h c cs rfl with rfl | rfl
      · cases s <;> rfl
      · cases s <;> rfl
    simp only [State.run, hStop]

/-- Digits that lead from a state to itself are all taken. -/
theorem run_append {s : State} {ds rest : List Char} (hStay : ∀ c ∈ ds, s.next c = some s)
    (hEnds : Ends rest) : s.run (ds ++ rest) = (ds.length, s) := by
  induction ds with
  | nil => exact run_of_ends hEnds s
  | cons c ds ih =>
    have hRest := ih fun d hd => hStay d (List.mem_cons_of_mem c hd)
    rw [List.cons_append, State.run, hStay c (List.mem_cons_self ..)]
    dsimp only
    rw [hRest, List.length_cons]

/-- The digits of a number, from a state that the first one leads out of. -/
theorem run_toDigits {base n : Nat} {s t : State} {rest : List Char} (hBase : 1 < base)
    (hFirst : ∀ d < base, (d = 0 → n = 0) → s.next d.digitChar = some t)
    (hStay : 0 < n → ∀ d < base, t.next d.digitChar = some t) (hEnds : Ends rest) :
    s.run (Nat.toDigits base n ++ rest) = ((Nat.toDigits base n).length, t) := by
  have hTaken {d : Nat} {ds : List Char} (hNext : s.next d.digitChar = some t)
      (hRun : t.run (ds ++ rest) = (ds.length, t)) :
      s.run (d.digitChar :: ds ++ rest) = ((d.digitChar :: ds).length, t) := by
    rw [List.cons_append, State.run, hNext]
    dsimp only
    rw [hRun, List.length_cons]
  rcases Nat.eq_zero_or_pos n with rfl | hn
  · -- zero is one digit, and other numbers begin with one that is not zero
    rw [Nat.toDigits_of_lt_base (by omega)]
    exact hTaken (hFirst 0 (by omega) fun _ => rfl) (run_of_ends hEnds t)
  · obtain ⟨d, ds, hDigits, hPos, hd⟩ := exists_lead_toDigits hBase hn
    rw [hDigits]
    refine hTaken (hFirst d hd (by omega)) (run_append (fun c hc => ?_) hEnds)
    obtain ⟨k, hk, rfl⟩ := exists_digit_of_mem hBase (n := n) (c := c)
      (by rw [hDigits]; exact List.mem_cons_of_mem _ hc)
    exact hStay hn k hk

/-- **A shown size is scanned as one numeral** of the notation that it was shown in. -/
theorem scan_sizeText (h : numeral.ReadsBack size) {rest : List Char} (hEnds : Ends rest) :
    scan (numeral.sizeText size ++ rest) = ((numeral.sizeText size).length, some numeral) := by
  -- a mark of two characters leads to a state in which digits are taken
  have hMarked {base : Nat} {c : Char} {mark : State} {k : Numeral} (reached : State)
      (hBase : 1 < base)
      (hMark : State.zero.next c = some mark)
      (hFirst : ∀ d < base, mark.next d.digitChar = some reached)
      (hStay : ∀ d < base, reached.next d.digitChar = some reached)
      (hNumeral : reached.numeral = some k) :
      scan ('0' :: c :: Nat.toDigits base size ++ rest) =
        (('0' :: c :: Nat.toDigits base size).length, some k) := by
    have hRun := run_toDigits (n := size) hBase (fun d hd _ => hFirst d hd) (fun _ => hStay) hEnds
    have hZero : State.start.next '0' = some .zero := rfl
    simp only [scan, List.cons_append, State.run, hZero, hMark, hRun, hNumeral, List.length_cons]
  rcases h with rfl | rfl | rfl | ⟨rfl, hSize⟩
  · exact hMarked .binary (by decide) rfl (by decide) (by decide) rfl
  · -- a decimal starts with `0` only if it is zero
    show scan (Nat.toDigits 10 size ++ rest) = ((Nat.toDigits 10 size).length, some .decimal)
    rcases Nat.eq_zero_or_pos size with rfl | hSize
    · have hRun := run_of_ends hEnds .zero
      simp only [scan, Nat.toDigits_zero, List.singleton_append, State.run]
      rw [show State.start.next '0' = some .zero from rfl]
      dsimp only
      rw [hRun]
      rfl
    · have hLead : ∀ d < 10, (d = 0 → size = 0) → State.start.next d.digitChar = some .digits := by
        intro d hd hZero
        have hAll : ∀ d < 10, d ≠ 0 → State.start.next d.digitChar = some .digits := by decide
        exact hAll d hd fun hNull => by omega
      have hStay : ∀ d < 10, State.digits.next d.digitChar = some .digits := by decide
      have hRun := run_toDigits (by decide) hLead (fun _ => hStay) hEnds
      simp only [scan, hRun]
      rfl
  · exact hMarked .hex (by decide) rfl (by decide) (by decide) rfl
  · -- the mark of an octal is its leading `0`
    have hText : octal.sizeText size = '0' :: Nat.toDigits 8 size := if_neg (by omega)
    have hFirst : ∀ d < 8, State.zero.next d.digitChar = some .octal := by decide
    have hStay : ∀ d < 8, State.octal.next d.digitChar = some .octal := by decide
    have hRun := run_toDigits (n := size) (by decide) (fun d hd _ => hFirst d hd) (fun _ => hStay)
      hEnds
    have hZero : State.start.next '0' = some .zero := rfl
    rw [hText]
    simp only [scan, List.cons_append, State.run, hZero, hRun, List.length_cons]
    rfl

end Numeral

/-! ## Values -/

variable {numeral : Numeral}

/-- The value of an integer literal. -/
theorem Number.ofLiteral_of_digits {text : String} {base : Nat} {mark ds : List Char}
    (hNotation : numeral.base? = some (base, byteLength mark)) (hText : text.toList = mark ++ ds)
    (hBase : 0 < base) (hSome : ds ≠ []) (hDigits : ∀ d ∈ ds, ReadsDigit base d) :
    Number.ofLiteral text numeral =
      .ok (Number.ofWide (min (positional base ds) widestLiteral) numeral) := by
  have hBehind : charsFrom? text (byteLength mark) = some ds :=
    charsFrom?_eq_some_iff_toList.2 ⟨mark, hText, rfl⟩
  have hRead := readNatural?_eq hBase hSome hDigits
  unfold Number.ofLiteral Number.ofLiteral?
  rw [hNotation]
  dsimp only
  rw [hBehind, Option.bind_some, hRead]
  rfl

/-- **A shown size is read back** as a literal of the notation that it was shown in. -/
theorem Number.ofLiteral_sizeText {size : Nat} (h : numeral.ReadsBack size)
    (hSize : size < 2 ^ 31) :
    Number.ofLiteral (String.ofList (numeral.sizeText size)) numeral =
      .ok (.int (Int32.ofNat size) numeral false) := by
  -- a size of 31 bits is neither cut nor marked
  have hWide : min size widestLiteral = size :=
    Nat.min_eq_left (Nat.le_trans (Nat.le_of_lt hSize) (by decide))
  have hNotWide : decide (Nat.pow 2 31 ≤ size) = false := by simpa using hSize
  have hRead {base : Nat} (mark : List Char) (hBase : 1 < base) (hMax : base ≤ 16)
      (hNotation : numeral.base? = some (base, byteLength mark))
      (hText : numeral.sizeText size = mark ++ Nat.toDigits base size) :
      Number.ofLiteral (String.ofList (numeral.sizeText size)) numeral =
        .ok (.int (Int32.ofNat size) numeral false) := by
    have hDigits : ∀ c ∈ Nat.toDigits base size, ReadsDigit base c := by
      intro c hc
      obtain ⟨d, hd, rfl⟩ := exists_digit_of_mem hBase hc
      exact readsDigit_digitChar hMax hd
    have hList : (String.ofList (numeral.sizeText size)).toList =
        mark ++ Nat.toDigits base size := by
      rw [String.toList_ofList, hText]
    rw [Number.ofLiteral_of_digits hNotation hList (Nat.zero_lt_of_lt hBase) Nat.toDigits_ne_nil
      hDigits, positional_toDigits hBase hMax, hWide, Number.ofWide, hNotWide]
  rcases h with rfl | rfl | rfl | ⟨rfl, hPos⟩
  · exact hRead ['0', 'b'] (by decide) (by decide) rfl rfl
  · exact hRead [] (by decide) (by decide) rfl rfl
  · exact hRead ['0', 'x'] (by decide) (by decide) rfl rfl
  · exact hRead ['0'] (by decide) (by decide) rfl (if_neg (by omega))

end Reckon
