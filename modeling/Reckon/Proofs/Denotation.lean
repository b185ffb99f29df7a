import Reckon.Proofs.Scanning
import Reckon.Proofs.Spelling

/-!
# What literals denote

Two functions look at the text of a literal. The scanner of numerals decides by an automaton whether
the text is a literal and of which notation. `Number.ofLiteral` strips the mark of the notation and
adds up the digits, or reads a float. Whatever the scanner takes for a literal has a value
(`Numeral.Word.exists_ofLiteral`).

The value of an integer literal is the number that its digits denote in the base of the notation
(`Numeral.denoted?`), however many there are. Reading stops where a literal is wider than 64 bits,
and the lowest 32 bits of what has been read are kept (`Number.Holds`). So a literal within range
has the value that it denotes, and one out of range is marked.

The texts of integers are literals again, with one exception: zero in octal is shown without a mark
(`Number.ofLiteral_text`).
-/

namespace Reckon

/-! ## Digits -/

variable {c : Char} {w ds : List Char} {numeral : Numeral}

namespace Numeral

/-- Each of the listed characters is read as a digit. -/
theorem readsDigit_of_among {digits : List Char} {base : Nat}
    (hReads : digits.all fun c => decide (ReadsDigit base c)) (h : among digits c = true) :
    ReadsDigit base c :=
  of_decide_eq_true (List.all_eq_true.1 hReads c (among_eq_true_iff.1 h))

theorem readsDigit_of_isDigit (h : c.isDigit = true) : ReadsDigit 10 c := by
  rw [Char.isDigit, Bool.and_eq_true, decide_eq_true_eq, decide_eq_true_eq] at h
  exact forall_between (P := ReadsDigit 10) (a := '0') (b := '9') (by decide) h.1 h.2

end Numeral

/-! ## Integers -/

/-- The number that an integer literal denotes: its digits behind the mark, in the base of the
notation. -/
def Numeral.denoted? (w : List Char) : Numeral → Option Nat
  | .binary => some (positional 2 (w.drop 2))
  | .octal => some (positional 8 (w.drop 1))
  | .decimal => some (positional 10 w)
  | .hexadecimal => some (positional 16 (w.drop 2))
  | .float | .scientific => none

namespace Number

/-- The number is an integer in the notation that stands for `v`. If that is out of range it is
marked, and the lowest 32 bits are kept of `v`, or of `2 ^ 64 - 1` if that is less. -/
def Holds (n : Number) (numeral : Numeral) (v : Nat) : Prop :=
  ∃ value : Int32, n = .int value numeral (decide (2 ^ 31 - 1 < v)) ∧
    value.toInt =
      if v ≤ 2 ^ 31 - 1 then (v : Int) else ((min v (2 ^ 64 - 1) : Nat) : Int).bmod (2 ^ 32)

/-- The number is what a literal stands for: the integer that it denotes, or a float. -/
def DenotedBy (n : Number) (numeral : Numeral) (w : List Char) : Prop :=
  match numeral.denoted? w with
  | some v => n.Holds numeral v
  | none => ∃ x, n = .float x

/-- **A number that is read as far as it fits holds what is denoted.** -/
theorem holds_ofWide (v : Nat) : (ofWide (min v widestLiteral) numeral).Holds numeral v := by
  have hMarked : decide (Nat.pow 2 31 ≤ min v widestLiteral) = decide (2 ^ 31 - 1 < v) := by
    unfold widestLiteral
    rw [decide_eq_decide]
    simp only [Nat.pow_eq]
    omega
  refine ⟨Int32.ofNat (min v widestLiteral), by rw [ofWide, hMarked], ?_⟩
  rw [Int32.toInt_ofNat']
  split
  · -- within range nothing is cut off, and the lowest 32 bits are the number
    rename_i hFits
    have hSame : min v widestLiteral = v :=
      Nat.min_eq_left (Nat.le_trans hFits (by decide))
    have hSize : Int32.size = 4294967296 := rfl
    rw [hSame, hSize]
    exact Int.bmod_eq_of_le (by omega) (by omega)
  · rfl

end Number

/-! ## Floats -/

namespace Numeral

/-- A whole number has digits, and nothing else. -/
theorem Whole.all_isDigit (h : Whole w) : Digits Char.isDigit w := by
  cases h with
  | zero => exact .one rfl
  | digits hFirst hRest =>
    exact ⟨List.cons_ne_nil _ _, List.forall_mem_cons.2 ⟨isDigit_of_between hFirst, hRest⟩⟩

/-- What may follow the digits of a float: an exponent, or nothing. -/
inductive Ending : List Char → Prop
  | none : Ending []
  | exponent {sign ds : List Char} {e : Char} (he : e = 'e' ∨ e = 'E')
      (hSign : sign = [] ∨ sign = ['+'] ∨ sign = ['-']) (h : Digits Char.isDigit ds) :
      Ending (e :: (sign ++ ds))

end Numeral

open Numeral (Digits Ending Mantissa Whole Word)

/-- An exponent is read, with a sign or without. -/
theorem isSome_readExponent? {sign : List Char} (hSign : sign = [] ∨ sign = ['+'] ∨ sign = ['-'])
    (h : Digits Char.isDigit ds) : (readExponent? (sign ++ ds)).isSome := by
  obtain ⟨d, ds, rfl⟩ := List.exists_cons_of_ne_nil h.1
  have hAll : (d :: ds).all Char.isDigit = true := List.all_eq_true.2 h.2
  have hDigit : d.isDigit = true := h.2 d (List.mem_cons_self ..)
  unfold readExponent?
  rcases hSign with rfl | rfl | rfl
  · -- without a sign the digits begin at once
    rw [List.nil_append]
    split
    rename_i hSplit
    -- a digit is no sign, so the digits begin here
    split at hSplit
    · rename_i hPlus
      cases hPlus
      cases hDigit
    · rename_i hMinus
      cases hMinus
      cases hDigit
    · cases hSplit
      rw [hAll]
      rfl
  · -- the sign is taken off, and digits are left
    simp only [List.singleton_append, hAll]
    rfl
  · simp only [List.singleton_append, hAll]
    rfl

/-- Whatever the digits are, there is a value if there is an exponent or nothing behind them. -/
theorem isSome_exponent {tail : List Char} (h : Ending tail) (coefficient : Nat) (places : Nat) :
    ((match tail with
      | [] => some 0
      | c :: cs => if Numeral.isExponentMark c then readExponent? cs else none).map fun exponent =>
        nearestFloat coefficient (exponent - places)).isSome := by
  rw [Option.isSome_map]
  cases h with
  | none => rfl
  | exponent he hSign h =>
    have hRead := isSome_readExponent? hSign h
    rcases he with rfl | rfl <;> exact hRead

variable {tail : List Char}

/-- The digits in front of what is no digit. -/
theorem split_digits (hDigits : ∀ d ∈ ds, d.isDigit = true)
    (hTail : ∀ c cs, tail = c :: cs → c.isDigit = false) :
    (ds ++ tail).takeWhile Char.isDigit = ds ∧ (ds ++ tail).dropWhile Char.isDigit = tail := by
  rw [List.takeWhile_append_of_pos hDigits, List.dropWhile_append_of_pos hDigits]
  cases tail with
  | nil => simp
  | cons c cs => simp [hTail c cs rfl]

/-- No ending begins with a digit. -/
theorem Numeral.Ending.isDigit_eq_false (h : Ending tail) :
    ∀ c cs, tail = c :: cs → c.isDigit = false := by
  intro c cs hTail
  cases h with
  | none => cases hTail
  | exponent he =>
    cases hTail
    rcases he with rfl | rfl <;> rfl

/-- Digits, with or without a point and more digits behind them, and an exponent are a float. -/
theorem isSome_readDecimal? (hWhole : Digits Char.isDigit w)
    (hFraction : ∀ d ∈ ds, d.isDigit = true) (hEnd : Ending tail) :
    (readDecimal? (w ++ tail)).isSome ∧ (readDecimal? (w ++ '.' :: (ds ++ tail))).isSome := by
  obtain ⟨d, w, rfl⟩ := List.exists_cons_of_ne_nil hWhole.1
  constructor
  · obtain ⟨hTake, hDrop⟩ := split_digits hWhole.2 hEnd.isDigit_eq_false
    unfold readDecimal?
    rw [hTake, hDrop]
    -- the digits go on to the ending, which is read as an exponent or as nothing
    have hValue := isSome_exponent hEnd (decimalValue (d :: w ++ [])) 0
    cases hEnd with
    | none => exact hValue
    | exponent he => rcases he with rfl | rfl <;> exact hValue
  · have hPoint : ∀ c cs, '.' :: (ds ++ tail) = c :: cs → c.isDigit = false := by
      intro c cs hEq
      cases hEq
      rfl
    -- the digits go on to the point, and those behind it to the ending
    obtain ⟨hTake, hDrop⟩ := split_digits hWhole.2 hPoint
    have hBehind : Ending ((ds ++ tail).dropWhile Char.isDigit) := by
      rwa [(split_digits hFraction hEnd.isDigit_eq_false).2]
    unfold readDecimal?
    rw [hTake, hDrop]
    exact isSome_exponent hBehind _ _

/-- What begins with a sign is no unsigned decimal. -/
theorem isSome_readFloat? (h : (readDecimal? w).isSome) : (readFloat? w).isSome := by
  have hBody {body : List Char} (hBody : (readDecimal? body).isSome) (negative : Bool) :
      (((readDecimal? body).or (readWord? body)).map fun size =>
        if negative then -size else size).isSome := by
    rw [Option.isSome_map, Option.isSome_or, hBody]
    rfl
  unfold readFloat?
  split
  rename_i hSplit
  -- a sign would leave no digit to begin with
  split at hSplit
  · cases h
  · cases h
  · cases hSplit
    exact hBody h false

/-- **A float is read**, if not as it is written then with a zero in front. -/
theorem Number.exists_ofLiteral_of_float {text : String} (hFloat : numeral.base? = none)
    (hWord : Word numeral text.toList) : ∃ x, Number.ofLiteral text numeral = .ok (.float x) := by
  -- with a zero in front there are digits in any case, also where the point stands alone
  have hZero {w : List Char} (hw : w = [] ∨ Whole w) : Digits Char.isDigit ('0' :: w) := by
    refine ⟨List.cons_ne_nil _ _, List.forall_mem_cons.2 ⟨rfl, ?_⟩⟩
    rcases hw with rfl | hWhole
    · simp
    · exact hWhole.all_isDigit.2
  have hRead : (readDecimal? ('0' :: text.toList)).isSome := by
    generalize text.toList = w at hWord
    cases hWord with
    | binary | octal | decimal | hexadecimal => cases hFloat
    | wholeAndFraction h hDigits =>
      have hAll := (isSome_readDecimal? (hZero (.inr h)) hDigits .none).2
      rwa [List.append_nil] at hAll
    | fraction h =>
      have hAll := (isSome_readDecimal? (hZero (.inl rfl)) h.2 .none).2
      rwa [List.append_nil] at hAll
    | scientific hm he hSign h =>
      have hEnd := Ending.exponent he hSign h
      cases hm with
      | whole hWhole =>
        have hNone : ∀ d ∈ ([] : List Char), d.isDigit = true := by simp
        exact (isSome_readDecimal? (hZero (.inr hWhole)) hNone hEnd).1
      | point hWhole hDigits =>
        have hAll := (isSome_readDecimal? (hZero hWhole) hDigits hEnd).2
        rwa [List.append_assoc]
  have hSome : ((readFloat? text.toList).or (readFloat? ('0' :: text.toList))).isSome := by
    rw [Option.isSome_or, isSome_readFloat? hRead, Bool.or_true]
  obtain ⟨x, hx⟩ := Option.isSome_iff_exists.1 hSome
  refine ⟨x, ?_⟩
  unfold Number.ofLiteral Number.ofLiteral?
  rw [hFloat]
  dsimp only
  rw [hx]
  rfl

/-! ## Literals -/

/-- **Every literal has a value**, and an integer literal the one that its digits denote. -/
theorem Numeral.Word.exists_ofLiteral {text : String} (h : Word numeral text.toList) :
    ∃ n, Number.ofLiteral text numeral = .ok n ∧ n.DenotedBy numeral text.toList := by
  have hFloat (hNone : numeral.base? = none) (hDenoted : numeral.denoted? text.toList = none) :
      ∃ n, Number.ofLiteral text numeral = .ok n ∧ n.DenotedBy numeral text.toList := by
    obtain ⟨x, hx⟩ := Number.exists_ofLiteral_of_float hNone h
    refine ⟨_, hx, ?_⟩
    unfold Number.DenotedBy
    rw [hDenoted]
    exact ⟨x, rfl⟩
  have hInteger (mark : List Char) {ds : List Char} {base : Nat} {p : Char → Bool}
      (hNotation : numeral.base? = some (base, byteLength mark))
      (hDenoted : numeral.denoted? text.toList = some (positional base ds))
      (hText : text.toList = mark ++ ds) (hBase : 0 < base) (hDigits : Digits p ds)
      (hReads : ∀ d, p d = true → ReadsDigit base d) :
      ∃ n, Number.ofLiteral text numeral = .ok n ∧ n.DenotedBy numeral text.toList := by
    refine ⟨_, Number.ofLiteral_of_digits hNotation hText hBase hDigits.1
      (fun d hd => hReads d (hDigits.2 d hd)), ?_⟩
    unfold Number.DenotedBy
    rw [hDenoted]
    exact Number.holds_ofWide _
  generalize hText : text.toList = w at h hInteger hFloat ⊢
  -- the mark of the notation is in front of the digits, and decimals have none
  cases h with
  | @binary ds h =>
    exact hInteger ['0', 'b'] rfl rfl rfl (by decide) h
      fun _ => Numeral.readsDigit_of_among (by decide)
  | @octal ds h =>
    exact hInteger ['0'] rfl rfl rfl (by decide) h
      fun _ => Numeral.readsDigit_of_among (by decide)
  | decimal h =>
    exact hInteger [] rfl rfl rfl (by decide) h.all_isDigit
      fun _ => Numeral.readsDigit_of_isDigit
  | @hexadecimal ds h =>
    exact hInteger ['0', 'x'] rfl rfl rfl (by decide) h
      fun _ => Numeral.readsDigit_of_among (by decide)
  | wholeAndFraction | fraction | scientific => exact hFloat rfl rfl

/-- A text that the scanner takes to its end, and that it names a notation for, is a word. -/
theorem Numeral.word_of_scan {text : String}
    (hScan : Numeral.scan text.toList = (text.utf8ByteSize, some numeral)) :
    Word numeral text.toList := by
  have hWord := (Numeral.scan_eq_some_iff text.toList numeral).1 (congrArg Prod.snd hScan)
  -- a text has no more characters than bytes
  have hAll : text.toList.length ≤ text.utf8ByteSize := by
    rw [utf8ByteSize_eq]
    exact length_le_byteLength _
  rwa [hScan, List.take_of_length_le hAll] at hWord

/-! ## Integers as they are shown -/

/-- Zero in octal is shown as `0`, and behind the mark of an octal literal nothing is left of it. -/
theorem Number.ofLiteral_octalZero :
    Number.ofLiteral (Number.whole 0 .octal).text .octal =
      .error SyntaxFault.invalidNumberLiteral := by
  have hBehind : charsFrom? "0" 1 = some [] := charsFrom?_eq_some_iff_toList.2 ⟨['0'], rfl, rfl⟩
  have hText : (Number.whole 0 .octal).text = "0" := rfl
  rw [hText, Number.ofLiteral, Number.ofLiteral?]
  simp only [Numeral.base?, hBehind, Option.bind_some, readNatural?, Option.map_none]

/-- **An integer that is shown and read again** as a literal of its notation is the same integer, in
all notations and from zero up to the largest integer. The one exception is zero in octal: it is
shown as `0`, and nothing is left of that behind the mark of an octal literal. -/
theorem Number.ofLiteral_text {value : Int32}
    (hNotation : numeral ∈ [.binary, .octal, .decimal, .hexadecimal]) (hValue : 0 ≤ value) :
    Number.ofLiteral (Number.whole value numeral).text numeral =
      if numeral = .octal ∧ value = 0 then .error SyntaxFault.invalidNumberLiteral
      else .ok (Number.whole value numeral) := by
  obtain ⟨hSame, hSize⟩ := ofNat_natAbs hValue
  split
  · rename_i hZero
    obtain ⟨rfl, rfl⟩ := hZero
    exact Number.ofLiteral_octalZero
  · rename_i hOther
    have hReads : numeral.ReadsBack value.toInt.natAbs := by
      have hCases : numeral = .binary ∨ numeral = .octal ∨ numeral = .decimal ∨
        numeral = .hexadecimal := by simpa using hNotation
      rcases hCases with rfl | rfl | rfl | rfl
      · exact .inl rfl
      · refine .inr (.inr (.inr ⟨rfl, Nat.pos_of_ne_zero fun hNull => hOther ⟨rfl, ?_⟩⟩))
        -- the size is not zero, as the number is not
        rw [hNull] at hSame
        exact hSame.symm
      · exact .inr (.inl rfl)
      · exact .inr (.inr (.inl rfl))
    have hText : (Number.whole value numeral).text =
        String.ofList (numeral.sizeText value.toInt.natAbs) := by
      rw [← intText_toList numeral hValue, String.ofList_toList]
      rfl
    rw [hText, Number.ofLiteral_sizeText hReads hSize, hSame]
    rfl

/-- The largest integer in hexadecimal, and the smallest one in octal. -/
theorem Number.ofLiteral_text_extremes :
    Number.ofLiteral (Number.whole Int32.maxValue .hexadecimal).text .hexadecimal =
        .ok (Number.whole Int32.maxValue .hexadecimal) ∧
      Number.ofLiteral (Number.whole 0 .octal).text .octal =
        .error SyntaxFault.invalidNumberLiteral := by
  exact ⟨Number.ofLiteral_text (by simp) (by decide), Number.ofLiteral_text (by simp) (by decide)⟩

/-- Zero in octal is a literal, and shown so that it is not read again. -/
theorem Number.not_ofLiteral_text_octalZero :
    Number.ofLiteral "00" .octal = .ok (Number.whole 0 .octal) ∧
      ¬ Number.ofLiteral (Number.whole 0 .octal).text .octal = .ok (Number.whole 0 .octal) := by
  have hLiteral : charsFrom? "00" 1 = some ['0'] :=
    charsFrom?_eq_some_iff_toList.2 ⟨['0'], rfl, rfl⟩
  constructor
  · rw [Number.ofLiteral, Number.ofLiteral?]
    simp only [Numeral.base?, hLiteral, Option.bind_some]
    rfl
  · rw [Number.ofLiteral_octalZero]
    rintro ⟨⟩

end Reckon
