import Reckon.Object
import Reckon.Proofs.Evaluation
import Reckon.Proofs.Literals
import Reckon.Proofs.Reading

/-!
# Values as they are written

Arrays of integers are shown in the way in which a script writes them (`Value.Legible`). Reading the
text of such a value gives the tokens of one expression that writes the value down
(`Value.WrittenAs`): a literal for each number, with an operator in front if it is negative, and a
bracket with a list for each array. The reader takes the text of a value wherever an operand is
expected, and leaves what is behind it.
-/

namespace Reckon

/-! ## Values that are read as they are shown -/

/-- Integers that are read as they are shown. Zero in octal is shown like zero in decimal, and no
literal has the size of the lowest integer. -/
inductive Number.Legible : Number → Prop
  | unsigned {value : Int32} {numeral : Numeral} (hSign : 0 ≤ value)
      (hNotation : numeral = .binary ∨ numeral = .decimal ∨ numeral = .hexadecimal) :
      Legible (.int value numeral false)
  | octal {value : Int32} (hSign : 0 < value) : Legible (.int value .octal false)
  | negative {value : Int32} (hSign : value < 0) (hRange : Int32.minValue < value) :
      Legible (.int value .decimal false)

/-- Such integers, and arrays of such values, one inside the other. -/
inductive Value.Legible : Value → Prop
  | number {n : Number} (h : n.Legible) : Legible (.number n)
  | array {items : List Value} (h : ∀ v ∈ items, v.Legible) : Legible (.array items)

/-- The items of a legible array are legible. -/
theorem Value.Legible.items {items : List Value} (h : (Value.array items).Legible) :
    ∀ v ∈ items, v.Legible := by
  cases h with
  | array hItems => exact hItems

/-- An integer that is not negative is shown by its size, without a sign. -/
theorem intText_toList {value : Int32} (numeral : Numeral) (hSign : 0 ≤ value) :
    (intText value numeral).toList = numeral.sizeText value.toInt.natAbs := by
  have hInt : ¬ value.toInt < 0 := by
    rw [Int32.le_iff_toInt_le] at hSign
    exact Int.not_lt.2 hSign
  rw [intText, if_neg hInt, String.toList_ofList]

/-- The size of an integer that is not negative. -/
theorem ofNat_natAbs {value : Int32} (hSign : 0 ≤ value) :
    Int32.ofNat value.toInt.natAbs = value ∧ value.toInt.natAbs < 2 ^ 31 := by
  rw [Int32.le_iff_toInt_le] at hSign
  have hNat : (value.toInt.natAbs : Int) = value.toInt := Int.natAbs_of_nonneg hSign
  have hMax := value.toInt_lt
  refine ⟨?_, by omega⟩
  rw [← Int32.toInt_inj, Int32.toInt_ofNat_of_lt (by omega), hNat]

/-- A legible number is shown as a literal that has its value, or as a sign and such a literal. -/
theorem Number.Legible.text {n : Number} (h : n.Legible) :
    (∃ numeral size, numeral.ReadsBack size ∧ size < 2 ^ 31 ∧
      n.text.toList = numeral.sizeText size ∧ n = .int (Int32.ofNat size) numeral false) ∨
    ∃ size, size < 2 ^ 31 ∧ n.text.toList = '-' :: Numeral.decimal.sizeText size ∧
      Number.unary .minus (.int (Int32.ofNat size) .decimal false) = .ok n := by
  cases h with
  -- no sign, so the literal has the size of the integer
  | @unsigned value numeral hSign hNotation =>
    obtain ⟨hValue, hSize⟩ := ofNat_natAbs hSign
    refine .inl ⟨numeral, _, ?_, hSize, intText_toList numeral hSign, by rw [hValue]⟩
    exact hNotation.imp_right fun hOther => hOther.imp_right .inl
  | @octal value hSign =>
    obtain ⟨hValue, hSize⟩ := ofNat_natAbs (Int32.le_of_lt hSign)
    have hPos : 0 < value.toInt.natAbs := by
      rw [Int32.lt_iff_toInt_lt] at hSign
      -- zero is the one octal that is not shown as an octal
      have hZero : (0 : Int32).toInt = 0 := rfl
      omega
    exact .inl ⟨.octal, _, .inr (.inr (.inr ⟨rfl, hPos⟩)), hSize,
      intText_toList .octal (Int32.le_of_lt hSign), by rw [hValue]⟩
  | @negative value hSign hRange =>
    rw [Int32.lt_iff_toInt_lt] at hSign hRange
    have hZero : (0 : Int32).toInt = 0 := rfl
    have hLow : Int32.minValue.toInt = -2 ^ 31 := rfl
    refine .inr ⟨value.toInt.natAbs, by omega, ?_, ?_⟩
    · rw [Number.text, intText, if_pos (by omega), String.toList_ofList]
    · -- the sign gives the value back, and it is in range
      have hSize : (Int32.ofNat value.toInt.natAbs).toInt = value.toInt.natAbs :=
        Int32.toInt_ofNat_of_lt (by omega)
      have hNegated : -((value.toInt.natAbs : Nat) : Int) = value.toInt := by omega
      have hBack : Int32.ofInt value.toInt = value := Int32.ofInt_toInt value
      show Except.ok (Number.ofExact (-(Int32.ofNat value.toInt.natAbs).toInt)) = _
      rw [hSize, hNegated, Number.ofExact, hBack]
      simp

/-! ## Expressions that write values down -/

mutual

/-- The expression writes the value down in the script. -/
def Value.WrittenAs (script : String) : Value → Expr → Prop
  | .number n, e =>
    (∃ numeral span, e = .number numeral span ∧
      Number.ofLiteral (span.text script) numeral = .ok n) ∨
    ∃ sign span m, e = .prefixed ⟨.minus, Operator.isPrefix_minus⟩ sign (.number .decimal span) ∧
      Number.ofLiteral (span.text script) .decimal = .ok m ∧ m.unary .minus = .ok n
  | .array items, e =>
    ∃ o c contents, e = .array o c contents ∧ Value.WrittenInside script items contents
  | _, _ => False

/-- What stands between brackets writes the values down. -/
def Value.WrittenInside (script : String) : List Value → Contents → Prop
  | [], contents => contents = .empty
  | v :: vs, contents => ∃ first e, v.WrittenAs script first ∧
      Value.WrittenBehind script vs first e ∧ contents = .list e

/-- A list that begins with `front` goes on with the values. -/
def Value.WrittenBehind (script : String) : List Value → Expr → Expr → Prop
  | [], front, e => e = front
  | v :: vs, front, e =>
    ∃ span r, v.WrittenAs script r ∧ Value.WrittenBehind script vs (.comma span front r) e

end

/-- An expression that may be an item of a list and no spread. -/
structure Expr.IsItem (e : Expr) : Prop where
  fits : e.Fits
  level : e.level ≤ 2
  plain : e.SpreadsAreItems false

mutual

/-- What writes a value down binds tightly and is no spread: it is a literal, perhaps with a sign,
or an array. -/
theorem Value.WrittenAs.isItem {script : String} :
    ∀ {v : Value} {e : Expr}, v.WrittenAs script e → e.IsItem
  | .number _, _, .inl ⟨_, _, hEq, _⟩ => by
    subst hEq
    exact ⟨trivial, Nat.le_succ 1, trivial⟩
  | .number _, _, .inr ⟨_, _, _, hEq, _⟩ => by
    subst hEq
    exact ⟨⟨Nat.le_succ 1, trivial⟩, Nat.le_refl 2, by decide, trivial⟩
  | .array _, _, ⟨_, _, _, hEq, hInside⟩ => by
    subst hEq
    obtain ⟨hFits, hPlain⟩ := Value.WrittenInside.isList hInside
    exact ⟨hFits, Nat.le_succ 1, hPlain⟩

/-- What stands between the brackets fits together, as a list of items or as nothing. -/
theorem Value.WrittenInside.isList {script : String} :
    ∀ {vs : List Value} {contents : Contents}, Value.WrittenInside script vs contents →
      contents.Fits ∧ contents.SpreadsAreItems
  | [], _, hEq => by
    have hEmpty : _ = Contents.empty := hEq
    subst hEmpty
    exact ⟨trivial, trivial⟩
  | _ :: _, _, ⟨_, _, hFirst, hBehind, hEq⟩ => by
    subst hEq
    have hItem := hFirst.isItem
    exact Value.WrittenBehind.isList hBehind hItem.fits hItem.plain.asItem

/-- A list to which items are added stays a list of items. -/
theorem Value.WrittenBehind.isList {script : String} :
    ∀ {vs : List Value} {front e : Expr}, Value.WrittenBehind script vs front e →
      front.Fits → front.SpreadsAreItems true → e.Fits ∧ e.SpreadsAreItems true
  | [], _, _, hEq, hFits, hPlain => by
    have hSame : _ = _ := hEq
    subst hSame
    exact ⟨hFits, hPlain⟩
  | _ :: _, _, _, ⟨_, r, hLast, hBehind⟩, hFits, hPlain => by
    have hItem := hLast.isItem
    -- an item binds more tightly than the comma in front of it
    have hLevel : r.level ≤ Operator.comma.rightBound := Nat.le_trans hItem.level (by decide)
    exact Value.WrittenBehind.isList hBehind ⟨⟨Expr.level_le _, hFits⟩, hLevel, hItem.fits⟩
      ⟨hPlain, hItem.plain.asItem⟩

end

/-! ## The text of a value -/

/-- How a list goes on behind its first item. -/
def Value.charsBehind (vs : List Value) : List Char :=
  vs.flatMap fun v => ',' :: ' ' :: v.text.toList

/-- The text between the brackets of an array. -/
def Value.charsInside : List Value → List Char
  | [] => []
  | v :: vs => v.text.toList ++ Value.charsBehind vs

/-- An array is shown between braces, with commas and blanks between its items. -/
theorem Value.toList_array_text (items : List Value) :
    (Value.array items).text.toList = '\x7b' :: (Value.charsInside items ++ ['\x7d']) := by
  have hBehind (v : Value) (vs : List Value) :
      (", ".intercalate (Value.texts (v :: vs))).toList =
        v.text.toList ++ Value.charsBehind vs := by
    -- the first item stands alone, and each of the others brings its comma along
    induction vs generalizing v with
    | nil => simp [Value.texts, Value.charsBehind]
    | cons w vs ih =>
      have hRest := ih w
      simp only [Value.texts, String.intercalate_cons_cons, String.toList_append] at hRest ⊢
      rw [hRest]
      simp [Value.charsBehind]
  have hInside : (", ".intercalate (Value.texts items)).toList = Value.charsInside items := by
    cases items with
    | nil => rfl
    | cons v vs => exact hBehind v vs
  rw [Value.text, String.toList_append, String.toList_append, hInside]
  rfl

/-- What is behind an item ends a numeral. -/
theorem Value.ends_charsBehind (vs : List Value) (rest : List Char) :
    Numeral.Ends (Value.charsBehind vs ++ ('\x7d' :: rest)) := by
  intro c cs hEq
  cases vs with
  | nil => exact .inr (List.cons.inj hEq).1.symm
  | cons v vs => exact .inl (List.cons.inj hEq).1.symm

/-- A literal begins with a digit, in every notation that is read back. -/
theorem exists_lead_sizeText {numeral : Numeral} {size : Nat} (h : numeral.ReadsBack size) :
    ∃ d < 10, ∃ cs, numeral.sizeText size = Nat.digitChar d :: cs := by
  rcases h with rfl | rfl | rfl | ⟨rfl, hSize⟩
  · exact ⟨0, by decide, _, rfl⟩
  · obtain ⟨c, cs, hDigits⟩ :=
      List.exists_cons_of_ne_nil (Nat.toDigits_ne_nil (n := size) (b := 10))
    have hMem : c ∈ Nat.toDigits 10 size := by
      rw [hDigits]
      exact List.mem_cons_self ..
    obtain ⟨d, hd, rfl⟩ := exists_digit_of_mem (by decide) hMem
    exact ⟨d, hd, cs, hDigits⟩
  · exact ⟨0, by decide, _, rfl⟩
  · exact ⟨0, by decide, _, if_neg (by omega)⟩

/-- No value is shown with a blank in front. -/
theorem Value.Legible.head?_ne {v : Value} (h : v.Legible) (rest : List Char) :
    (v.text.toList ++ rest).head? ≠ some ' ' := by
  cases h with
  | @number n hn =>
    rcases hn.text with ⟨numeral, size, hReads, -, hText, -⟩ | ⟨size, -, hText, -⟩
    · obtain ⟨d, hd, cs, hLead⟩ := exists_lead_sizeText hReads
      have hDigit : ∀ d < 10, Nat.digitChar d ≠ ' ' := by decide
      have hChars : (Value.number n).text.toList = Nat.digitChar d :: cs := by
        rw [Value.text, hText, hLead]
      rw [hChars]
      simp [hDigit d hd]
    · have hChars : (Value.number n).text.toList = '-' :: Numeral.decimal.sizeText size := by
        rw [Value.text, hText]
      rw [hChars]
      simp
  | array _ =>
    rw [Value.toList_array_text]
    simp

/-! ## Reading the text of a value -/

/-- A span selects the characters that it has ahead, as many as it is long. -/
theorem Span.text_of_charsFrom {script : String} {k : Nat} {cs rest : List Char}
    (h : charsFrom script k = cs ++ rest) (hSome : cs ≠ []) :
    (⟨k, k + byteLength cs⟩ : Span).text script = String.ofList cs := by
  have hChars : charsFrom? script k = some (cs ++ rest) := by
    unfold charsFrom at h
    cases hFound : charsFrom? script k with
    | none =>
      -- there are characters ahead, so the offset is a boundary of the script
      rw [hFound] at h
      exact absurd (List.append_eq_nil_iff.1 h.symm).1 hSome
    | some found =>
      rw [hFound] at h
      exact congrArg some h
  obtain ⟨pre, hScript, hBytes⟩ := charsFrom?_eq_some_iff_toList.1 hChars
  exact Covers.text ⟨pre, rest, hScript, hBytes, rfl⟩

/-- The draft with more tokens. -/
def Draft.adding (d : Draft) (ts : List Token) : Draft :=
  { d with tokens := ts.reverse ++ d.tokens }

theorem Draft.adding_adding (d : Draft) (ts us : List Token) :
    (d.adding ts).adding us = d.adding (ts ++ us) := by
  simp [Draft.adding]

/-- An operator that is the same in front of its operand as behind one. -/
theorem Draft.add_operator (d : Draft) {op : Operator} (hSame : op.inFront = op) (span : Span) :
    d.add ⟨.operator op, span⟩ = d.adding [⟨.operator op, span⟩] := by
  unfold Draft.add Draft.adding
  simp [hSame]

/-- Where an operand is expected, `-` is a sign. -/
theorem Draft.add_sign {d : Draft} (hExpects : expectsOperand d.tokens.head? = true) (span : Span) :
    d.add ⟨.operator .sub, span⟩ = d.adding [⟨.operator .minus, span⟩] := by
  unfold Draft.add Draft.adding
  simp [hExpects, Operator.inFront]

namespace Reader

/-- The reader stands in the script, with these characters ahead. -/
structure At (r : Reader) (script : String) (cs : List Char) : Prop where
  stands : r.StandsIn script
  unread : r.unread = cs

variable {script : String}

/-- A lexeme that is at no fault becomes a token of the statement. -/
theorem gather_of_lexeme {r : Reader} {c : Char} {cs rest : List Char} {kind : TokenKind}
    (hAt : r.At script (c :: (cs ++ rest))) (hKind : classify c (cs ++ rest) = (kind, cs.length))
    (hWritten : kind.isWritten)
    (hSound : ∀ span, operandFault? r.options r.last ⟨kind, span⟩ = none)
    (d : Draft) :
    ∃ r' : Reader, r'.At script rest ∧ r'.last = some kind ∧ r.gather d =
      r'.gather (d.add ⟨kind, ⟨r.cursor, r.cursor + byteLength (c :: cs)⟩⟩) := by
  -- the lexeme is cut off where what is behind it begins
  have hCut : cutLexeme r.cursor c (cs ++ rest) =
      ⟨⟨kind, ⟨r.cursor, r.cursor + byteLength (c :: cs)⟩⟩, c :: cs, rest⟩ := by
    simp only [cutLexeme, hKind, List.take_left', List.drop_left']
  have hStands := hAt.stands.take hAt.unread
  rw [hCut] at hStands
  generalize hToken : (⟨kind, ⟨r.cursor, r.cursor + byteLength (c :: cs)⟩⟩ : Token) = token at *
  have hTake : r.take ⟨token, c :: cs, rest⟩ = (some (.ok (.token token)),
      { r.move ⟨token, c :: cs, rest⟩ (r.position.right token.span.length) with
        last := some kind }) := by
    have hTokenKind : token.kind = kind := by rw [← hToken]
    have hJudge : r.judge ⟨token, c :: cs, rest⟩ = .ok (.token token) := by
      unfold judge
      rw [← hToken, hSound]
    unfold take
    dsimp only
    rw [hTokenKind]
    -- what can be part of a statement is no white space, no terminator and no stray character
    split
    · cases hWritten
    · cases hWritten
    · cases hWritten
    · rw [hJudge]
  rw [hTake] at hStands
  exact ⟨_, ⟨hStands, rfl⟩, rfl, gather_of_token hAt.unread (by rw [hCut]; exact hTake)⟩

/-- An operator of one character. -/
theorem gather_of_operator {r : Reader} {c : Char} {rest : List Char} {op : Operator}
    (hAt : r.At script (c :: rest)) (hKind : classify c rest = (.operator op, 0))
    (hWritten : (TokenKind.operator op).isWritten) (d : Draft) :
    ∃ r' : Reader, ∃ span, r'.At script rest ∧ r'.last = some (.operator op) ∧
      r.gather d = r'.gather (d.add ⟨.operator op, span⟩) := by
  -- an operator is no operand, so nothing is missing in front of it
  have hSound : ∀ span, operandFault? r.options r.last ⟨.operator op, span⟩ = none := by
    intro span
    simp [operandFault?, TokenKind.isOperand]
  have hWhole : r.At script (c :: ([] ++ rest)) := hAt
  obtain ⟨r', hNext, hLast, hGather⟩ := gather_of_lexeme hWhole hKind hWritten hSound d
  exact ⟨r', _, hNext, hLast, hGather⟩

/-- A blank in front of something else. -/
theorem gather_of_blank {r : Reader} {rest : List Char} (hAt : r.At script (' ' :: rest))
    (hOther : rest.head? ≠ some ' ') (d : Draft) :
    ∃ r' : Reader, r'.At script rest ∧ r'.last = r.last ∧ r.gather d = r'.gather d := by
  have hRun : runLength (· == ' ') rest = 0 := by
    cases rest with
    | nil => rfl
    | cons c cs =>
      have hNot : (c == ' ') = false := by simpa using hOther
      simp [runLength, hNot]
  have hCut : cutLexeme r.cursor ' ' rest =
      ⟨⟨.space .blank, ⟨r.cursor, r.cursor + byteLength [' ']⟩⟩, [' '], rest⟩ := by
    have hKind : classify ' ' rest = (.space .blank, 0) := by
      rw [← hRun]
      rfl
    simp only [cutLexeme, hKind, List.take_zero, List.drop_zero]
  have hStands := hAt.stands.take hAt.unread
  have hTake : r.take (cutLexeme r.cursor ' ' rest) =
      (none, (r.take (cutLexeme r.cursor ' ' rest)).2) := by
    rw [hCut]
    rfl
  -- a blank is no token, and the reader remembers what it has taken before
  refine ⟨_, ⟨hStands, ?_⟩, ?_, gather_of_space hAt.unread hTake⟩
  · rw [take_unread, hCut]
  · rw [hCut]
    rfl

/-- A literal, where an operand is expected. -/
theorem gather_of_literal {r : Reader} {numeral : Numeral} {size : Nat} {rest : List Char}
    (hReads : numeral.ReadsBack size) (hAt : r.At script (numeral.sizeText size ++ rest))
    (hEnds : Numeral.Ends rest) (hLast : r.last.any TokenKind.isOperand = false) (d : Draft) :
    ∃ r' : Reader, ∃ span, r'.At script rest ∧
      span.text script = String.ofList (numeral.sizeText size) ∧
      r.gather d = r'.gather (d.adding [⟨.number (some numeral), span⟩]) := by
  obtain ⟨k, hk, cs, hLead⟩ := exists_lead_sizeText hReads
  have hScan := Numeral.scan_sizeText hReads hEnds
  rw [hLead] at hAt hScan ⊢
  have hKind : classify k.digitChar (cs ++ rest) = (.number (some numeral), cs.length) := by
    have hDigit : classify k.digitChar (cs ++ rest) =
        (.number (Numeral.scan (k.digitChar :: (cs ++ rest))).2,
          (Numeral.scan (k.digitChar :: (cs ++ rest))).1 - 1) := by
      -- the digits are ten, and a numeral begins with each of them
      interval_cases k <;> rfl
    rw [List.cons_append] at hScan
    rw [hDigit, hScan]
    rfl
  have hSound : ∀ span, operandFault? r.options r.last ⟨.number (some numeral), span⟩ = none := by
    intro span
    simp [operandFault?, hLast]
  obtain ⟨r', hNext, -, hGather⟩ := gather_of_lexeme hAt hKind rfl hSound d
  refine ⟨r', _, hNext, ?_, hGather⟩
  exact Span.text_of_charsFrom (hAt.stands.trans hAt.unread) (List.cons_ne_nil _ _)

/-- A number, where an operand is expected. -/
theorem gather_of_number {r : Reader} {n : Number} {rest : List Char} (hn : n.Legible)
    (hAt : r.At script ((Value.number n).text.toList ++ rest)) (hEnds : Numeral.Ends rest)
    (hLast : r.last.any TokenKind.isOperand = false) {d : Draft}
    (hExpects : Draft.expectsOperand d.tokens.head? = true) :
    ∃ e, ∃ r' : Reader, (Value.number n).WrittenAs script e ∧ r'.At script rest ∧
      r.gather d = r'.gather (d.adding e.tokens) := by
  rw [Value.text] at hAt
  rcases hn.text with ⟨numeral, size, hReads, hSize, hText, hValue⟩ | ⟨size, hSize, hText, hSigned⟩
  · rw [hText] at hAt
    obtain ⟨r', span, hNext, hSpan, hGather⟩ := gather_of_literal hReads hAt hEnds hLast d
    refine ⟨.number numeral span, r', .inl ⟨numeral, span, rfl, ?_⟩, hNext, hGather⟩
    rw [hSpan, Number.ofLiteral_sizeText hReads hSize, hValue]
  · -- the sign comes first, and the size behind it
    have hReads : Numeral.decimal.ReadsBack size := .inr (.inl rfl)
    obtain ⟨k, hk, cs, hLead⟩ := exists_lead_sizeText hReads
    rw [hText, List.cons_append] at hAt
    have hKind : classify '-' (Numeral.decimal.sizeText size ++ rest) = (.operator .sub, 0) := by
      rw [hLead]
      -- `-` is an operator of its own in front of a digit
      interval_cases k <;> rfl
    obtain ⟨r₁, sign, hMid, hOperator, hFirst⟩ := gather_of_operator hAt hKind rfl d
    obtain ⟨r', span, hNext, hSpan, hSecond⟩ := gather_of_literal hReads hMid hEnds
      (by rw [hOperator]; rfl) (d.adding [⟨.operator .minus, sign⟩])
    refine ⟨.prefixed ⟨.minus, Operator.isPrefix_minus⟩ sign (.number .decimal span), r',
      .inr ⟨sign, span, _, rfl, ?_, hSigned⟩, hNext, ?_⟩
    · rw [hSpan, Number.ofLiteral_sizeText hReads hSize]
    · rw [hFirst, Draft.add_sign hExpects, hSecond, Draft.adding_adding]
      rfl

mutual

/-- **Reading the text of a value** gives the tokens of an expression that writes it down, and
leaves what is behind. -/
theorem gather_of_value : ∀ {v : Value}, v.Legible → ∀ {r : Reader} {d : Draft} {rest : List Char},
    r.At script (v.text.toList ++ rest) → Numeral.Ends rest →
    r.last.any TokenKind.isOperand = false → Draft.expectsOperand d.tokens.head? = true →
    ∃ e, ∃ r' : Reader, v.WrittenAs script e ∧ r'.At script rest ∧
      r.gather d = r'.gather (d.adding e.tokens)
  | .number n, hv, r, d, rest, hAt, hEnds, hLast, hExpects => by
    cases hv with
    | number hn => exact gather_of_number hn hAt hEnds hLast hExpects
  | .array items, hv, r, d, rest, hAt, _, _, _ => by
    -- a bracket, what stands inside, and the other bracket
    rw [Value.toList_array_text, List.cons_append, List.append_assoc] at hAt
    obtain ⟨r₁, o, hInside, hOpener, hFirst⟩ := gather_of_operator hAt rfl rfl d
    obtain ⟨contents, r₂, hWritten, hClosing, hSecond⟩ := gather_inside hv.items hInside
      (d := d.adding [⟨.operator (.opener .array), o⟩]) (by rw [hOpener]; rfl) rfl
    obtain ⟨r', c, hNext, -, hThird⟩ := gather_of_operator hClosing rfl rfl
      ((d.adding [⟨.operator (.opener .array), o⟩]).adding contents.tokens)
    refine ⟨.array o c contents, r', ⟨o, c, contents, rfl, hWritten⟩, hNext, ?_⟩
    rw [hFirst, Draft.add_operator _ rfl, hSecond, hThird, Draft.add_operator _ rfl,
      Draft.adding_adding, Draft.adding_adding]
    rfl
  | .nil, hv, _, _, _, _, _, _, _ | .function _, hv, _, _, _, _, _, _, _
  | .cycle, hv, _, _, _, _, _, _, _ => by cases hv

/-- The text between the brackets of an array. -/
theorem gather_inside : ∀ {vs : List Value}, (∀ v ∈ vs, v.Legible) →
    ∀ {r : Reader} {d : Draft} {rest : List Char},
      r.At script (Value.charsInside vs ++ ('\x7d' :: rest)) →
      r.last.any TokenKind.isOperand = false → Draft.expectsOperand d.tokens.head? = true →
      ∃ contents, ∃ r' : Reader, Value.WrittenInside script vs contents ∧
        r'.At script ('\x7d' :: rest) ∧ r.gather d = r'.gather (d.adding contents.tokens)
  | [], _, r, d, _, hAt, _, _ => ⟨.empty, r, rfl, hAt, rfl⟩
  | v :: vs, hvs, r, d, rest, hAt, hLast, hExpects => by
    rw [Value.charsInside, List.append_assoc] at hAt
    have hEnds := Value.ends_charsBehind vs rest
    obtain ⟨first, r₁, hWritten, hMid, hFirst⟩ :=
      gather_of_value (hvs v (List.mem_cons_self ..)) hAt hEnds hLast hExpects
    obtain ⟨e, ts, r', hBehind, hTokens, hNext, hRest⟩ :=
      gather_behind (fun w hw => hvs w (List.mem_cons_of_mem v hw)) hMid first
        (d := d.adding first.tokens)
    refine ⟨.list e, r', ⟨first, e, hWritten, hBehind, rfl⟩, hNext, ?_⟩
    rw [hFirst, hRest, Draft.adding_adding, ← hTokens]
    rfl

/-- The text of a list behind its first item. -/
theorem gather_behind : ∀ {vs : List Value}, (∀ v ∈ vs, v.Legible) →
    ∀ {r : Reader} {d : Draft} {rest : List Char},
      r.At script (Value.charsBehind vs ++ ('\x7d' :: rest)) → ∀ front : Expr,
      ∃ e ts, ∃ r' : Reader, Value.WrittenBehind script vs front e ∧ e.tokens = front.tokens ++ ts ∧
        r'.At script ('\x7d' :: rest) ∧ r.gather d = r'.gather (d.adding ts)
  | [], _, r, d, _, hAt, front => ⟨front, [], r, rfl, (List.append_nil _).symm, hAt, rfl⟩
  | v :: vs, hvs, r, d, rest, hAt, front => by
    have hv := hvs v (List.mem_cons_self ..)
    have hText : Value.charsBehind (v :: vs) ++ ('\x7d' :: rest) =
        ',' :: ' ' :: (v.text.toList ++ (Value.charsBehind vs ++ ('\x7d' :: rest))) := by
      simp [Value.charsBehind]
    -- a comma, a blank, the next item, and then the rest of the list behind a longer front
    rw [hText] at hAt
    obtain ⟨r₁, span, hBlank, hComma, hFirst⟩ := gather_of_operator hAt rfl rfl d
    obtain ⟨r₂, hItem, hSame, hSecond⟩ := gather_of_blank hBlank (hv.head?_ne _)
      (d.adding [⟨.operator .comma, span⟩])
    obtain ⟨item, r₃, hWritten, hMid, hThird⟩ := gather_of_value hv hItem
      (d := d.adding [⟨.operator .comma, span⟩]) (Value.ends_charsBehind vs rest)
      (by rw [hSame, hComma]; rfl) rfl
    obtain ⟨e, ts, r', hBehind, hTokens, hNext, hRest⟩ :=
      gather_behind (fun w hw => hvs w (List.mem_cons_of_mem v hw)) hMid (.comma span front item)
        (d := (d.adding [⟨.operator .comma, span⟩]).adding item.tokens)
    refine ⟨e, ⟨.operator .comma, span⟩ :: (item.tokens ++ ts), r',
      ⟨span, item, hWritten, hBehind⟩, ?_, hNext, ?_⟩
    · rw [hTokens]
      simp [Expr.tokens]
    · rw [hFirst, Draft.add_operator _ rfl, hSecond, hThird, hRest, Draft.adding_adding,
        Draft.adding_adding]
      rfl

end

end Reader

end Reckon
