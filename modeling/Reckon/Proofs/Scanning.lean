import Reckon.Proofs.Lexemes

/-!
# How far a numeral reaches

The notations of numbers are six languages, and they overlap: `0` is a decimal and begins an octal,
a binary, a hexadecimal, a float and a numeral with an exponent. `Numeral.Word` says which words
each language has, digit by digit and without the automaton. A text is *viable* when a word of some
language begins with it.

The scanner is to take the longest viable text at the start of its input, and to name a notation
exactly when that text is itself a word. The proof goes through what each state has read
(`State.Spells`): a step of the automaton keeps that true, and whatever a state has read can be
completed to a word. The other way round the automaton follows every word to its end.

Main result: `Numeral.scan_longest`.
-/

namespace Reckon

namespace Numeral

/-! ## The six languages -/

/-- One or more digits of a sort. -/
def Digits (p : Char → Bool) (ds : List Char) : Prop := ds ≠ [] ∧ ∀ d ∈ ds, p d = true

/-- Whether the character is one of those listed. -/
def among (digits : List Char) (c : Char) : Bool := digits.contains c

/-- The digits of a binary number. -/
def binaryDigits : List Char := ['0', '1']

/-- The digits of an octal number. -/
def octalDigits : List Char := ['0', '1', '2', '3', '4', '5', '6', '7']

/-- Above `9` both small and capital letters are digits. -/
def hexadecimalDigits : List Char :=
  ['0', '1', '2', '3', '4', '5', '6', '7', '8', '9', 'a', 'b', 'c', 'd', 'e', 'f',
    'A', 'B', 'C', 'D', 'E', 'F']

/-- A whole number as it is written in decimal: `0`, or digits of which the first is not `0`. -/
inductive Whole : List Char → Prop
  | zero : Whole ['0']
  | digits {c : Char} {ds : List Char} (hFirst : '1' ≤ c ∧ c ≤ '9')
      (hRest : ∀ d ∈ ds, d.isDigit = true) : Whole (c :: ds)

/-- What stands in front of an exponent. Here a point needs no digit on either side. -/
inductive Mantissa : List Char → Prop
  | whole {w : List Char} (h : Whole w) : Mantissa w
  | point {w ds : List Char} (h : w = [] ∨ Whole w) (hDigits : ∀ d ∈ ds, d.isDigit = true) :
      Mantissa (w ++ '.' :: ds)

/-- The words of each notation. -/
inductive Word : Numeral → List Char → Prop
  | binary {ds : List Char} (h : Digits (among binaryDigits) ds) : Word .binary ('0' :: 'b' :: ds)
  | octal {ds : List Char} (h : Digits (among octalDigits) ds) : Word .octal ('0' :: ds)
  | decimal {w : List Char} (h : Whole w) : Word .decimal w
  | hexadecimal {ds : List Char} (h : Digits (among hexadecimalDigits) ds) :
      Word .hexadecimal ('0' :: 'x' :: ds)
  | wholeAndFraction {w ds : List Char} (h : Whole w) (hDigits : ∀ d ∈ ds, d.isDigit = true) :
      Word .float (w ++ '.' :: ds)
  | fraction {ds : List Char} (h : Digits Char.isDigit ds) : Word .float ('.' :: ds)
  | scientific {m sign ds : List Char} {e : Char} (hm : Mantissa m) (he : e = 'e' ∨ e = 'E')
      (hSign : sign = [] ∨ sign = ['+'] ∨ sign = ['-']) (h : Digits Char.isDigit ds) :
      Word .scientific (m ++ e :: (sign ++ ds))

/-- Whether a word of some notation begins with the text. -/
def Viable (w : List Char) : Prop := ∃ numeral rest, Word numeral (w ++ rest)

/-- Whether so many characters of a text are its longest viable beginning. -/
structure Longest (cs : List Char) (n : Nat) : Prop where
  le_length : n ≤ cs.length
  viable : Viable (cs.take n)
  le_of_viable : ∀ m ≤ cs.length, Viable (cs.take m) → m ≤ n

variable {s t : State} {w ds : List Char} {c : Char}

/-! ## The digits of the automaton -/

/-- What holds of the characters with the codes of a range holds of the characters in between. -/
theorem forall_between {P : Char → Prop} {a b : Char}
    (h : ∀ n ∈ List.range' a.toNat (b.toNat + 1 - a.toNat), P (Char.ofNat n)) (ha : a ≤ c)
    (hb : c ≤ b) : P c := by
  have hLow : a.toNat ≤ c.toNat := UInt32.le_iff_toNat_le.1 ha
  have hHigh : c.toNat ≤ b.toNat := UInt32.le_iff_toNat_le.1 hb
  have hCode := h c.toNat (List.mem_range'_1.2 ⟨hLow, by omega⟩)
  rwa [Char.ofNat_toNat] at hCode

theorem among_eq_true_iff {digits : List Char} : among digits c = true ↔ c ∈ digits := by
  rw [among, List.contains_eq_mem, decide_eq_true_eq]

/-- The automaton compares with the ends of ranges, and accepts the same characters. -/
theorem among_eq {digits : List Char} {p : Char → Bool} (hAll : digits.all p = true)
    (hOnly : ∀ c, p c = true → c ∈ digits) : among digits = p := by
  funext c
  rw [Bool.eq_iff_iff, among_eq_true_iff]
  exact ⟨List.all_eq_true.1 hAll c, hOnly c⟩

theorem among_binary : among binaryDigits = isBinaryDigit := by
  refine among_eq (by decide) fun c h => ?_
  simpa [isBinaryDigit, binaryDigits] using h

/-- The automaton takes the octal digits as a range. -/
theorem among_octal : among octalDigits = isOctalDigit := by
  refine among_eq (by decide) fun c h => ?_
  rw [isOctalDigit, Bool.and_eq_true, decide_eq_true_eq, decide_eq_true_eq] at h
  exact forall_between (P := (· ∈ octalDigits)) (by decide) h.1 h.2

/-- It takes the hexadecimal digits, as a range of digits and two of letters. -/
theorem among_hexadecimal : among hexadecimalDigits = isHexDigit := by
  refine among_eq (by decide) fun c h => ?_
  simp only [isHexDigit, Char.isDigit, Bool.or_eq_true, Bool.and_eq_true, decide_eq_true_eq] at h
  rcases h with (hDigit | hSmall) | hLarge
  · exact forall_between (P := (· ∈ hexadecimalDigits)) (a := '0') (b := '9') (by decide)
      hDigit.1 hDigit.2
  · exact forall_between (P := (· ∈ hexadecimalDigits)) (by decide) hSmall.1 hSmall.2
  · exact forall_between (P := (· ∈ hexadecimalDigits)) (by decide) hLarge.1 hLarge.2

/-! ## Where a text leads -/

namespace State

/-- The state that a text leads to; none when the automaton does not get to its end. -/
def lead (s : State) (w : List Char) : Option State := w.foldlM next s

@[simp] theorem lead_nil (s : State) : s.lead [] = some s := rfl

@[simp] theorem lead_cons (s : State) (c : Char) (w : List Char) :
    s.lead (c :: w) = (s.next c).bind fun t => t.lead w := rfl

/-- A text leads where its second part leads from where the first part has led. -/
theorem lead_append (s : State) (v w : List Char) :
    s.lead (v ++ w) = (s.lead v).bind fun t => t.lead w := by
  simp only [lead, List.foldlM_append]
  rfl

/-- What the scanner takes leads to the state it stops in. -/
theorem lead_run (s : State) (cs : List Char) :
    s.lead (cs.take (s.run cs).1) = some (s.run cs).2 := by
  induction cs generalizing s with
  | nil => rfl
  | cons c cs ih =>
    unfold run
    split
    · rename_i t hNext
      rw [List.take_succ_cons, lead_cons, hNext, Option.bind_some]
      exact ih t
    · rfl

/-- The automaton gets no further than the scanner takes. -/
theorem lead_of_run_lt {cs : List Char} {m : Nat} (hm : m ≤ cs.length) (hFar : (s.run cs).1 < m) :
    s.lead (cs.take m) = none := by
  induction cs generalizing s m with
  | nil => exact absurd hm (Nat.not_le.2 (Nat.lt_of_le_of_lt (Nat.zero_le _) hFar))
  | cons c cs ih =>
    obtain ⟨m, rfl⟩ := Nat.exists_eq_add_one_of_ne_zero (Nat.ne_zero_of_lt hFar)
    unfold run at hFar
    rw [List.take_succ_cons, lead_cons]
    split at hFar
    · rename_i t hNext
      rw [hNext, Option.bind_some]
      exact ih (Nat.le_of_succ_le_succ hm) (Nat.lt_of_succ_lt_succ hFar)
    · rename_i hNext
      rw [hNext, Option.bind_none]

/-! ## What a state has read -/

/-- What has been read when the automaton is in a state. -/
def Spells : State → List Char → Prop
  | start, w => w = []
  | zero, w => w = ['0']
  | digits, w => ∃ c ds, ('1' ≤ c ∧ c ≤ '9') ∧ (∀ d ∈ ds, d.isDigit = true) ∧ w = c :: ds
  | leadingPoint, w => w = ['.']
  | binaryMark, w => w = ['0', 'b']
  | hexMark, w => w = ['0', 'x']
  | binary, w => Word .binary w
  | octal, w => Word .octal w
  | hex, w => Word .hexadecimal w
  | fraction, w => Word .float w
  | exponentMark, w => ∃ m e, Mantissa m ∧ (e = 'e' ∨ e = 'E') ∧ w = m ++ [e]
  | exponentSign, w => ∃ m e sign, Mantissa m ∧ (e = 'e' ∨ e = 'E') ∧ (sign = '+' ∨ sign = '-') ∧
      w = m ++ [e, sign]
  | exponent, w => Word .scientific w

end State

theorem Digits.one {p : Char → Bool} (hc : p c = true) : Digits p [c] :=
  ⟨List.cons_ne_nil _ _, by simpa using hc⟩

/-- What holds of all the digits holds of one more, if it does. -/
theorem forall_mem_concat {p : Char → Bool} (h : ∀ d ∈ ds, p d = true) (hc : p c = true) :
    ∀ d ∈ ds ++ [c], p d = true := by
  intro d hd
  rcases List.mem_append.1 hd with hd | hd
  · exact h d hd
  · rw [List.mem_singleton.1 hd]
    exact hc

/-- Digits and one more of the same sort are digits. -/
theorem Digits.concat {p : Char → Bool} (h : Digits p ds) (hc : p c = true) :
    Digits p (ds ++ [c]) :=
  ⟨List.append_ne_nil_of_left_ne_nil h.1 _, forall_mem_concat h.2 hc⟩

/-- The mark of an exponent is a small or a capital letter. -/
theorem eq_of_isExponentMark (h : isExponentMark c = true) : c = 'e' ∨ c = 'E' := by
  simpa [isExponentMark] using h

/-- A digit other than `0` is one from `1` on. -/
theorem between_of_isDigit (h : c.isDigit = true) (hc : c ≠ '0') : '1' ≤ c ∧ c ≤ '9' := by
  rw [Char.isDigit, Bool.and_eq_true, decide_eq_true_eq, decide_eq_true_eq] at h
  refine ⟨?_, h.2⟩
  have hNe : c.val.toNat ≠ 48 := fun hSame => hc (Char.ext (UInt32.toNat_inj.1 hSame))
  have hLow : 48 ≤ c.val.toNat := UInt32.le_iff_toNat_le.1 h.1
  exact UInt32.le_iff_toNat_le.2 (show 49 ≤ c.val.toNat by omega)

/-- From `1` to `9` there are digits only. -/
theorem isDigit_of_between (h : '1' ≤ c ∧ c ≤ '9') : c.isDigit = true := by
  rw [Char.isDigit, Bool.and_eq_true, decide_eq_true_eq, decide_eq_true_eq]
  exact ⟨UInt32.le_trans (by decide) h.1, h.2⟩

/-- Whatever is a float with all its digits may be a mantissa. -/
theorem Word.mantissa (h : Word .float w) : Mantissa w := by
  cases h with
  | wholeAndFraction hWhole hDigits => exact .point (.inr hWhole) hDigits
  | fraction h => exact .point (.inl rfl) h.2

/-- One more digit behind the point. -/
theorem Word.float_concat (h : Word .float w) (hc : c.isDigit = true) :
    Word .float (w ++ [c]) := by
  cases h with
  | wholeAndFraction hWhole hDigits =>
    rw [List.append_assoc, List.cons_append]
    exact .wholeAndFraction hWhole (forall_mem_concat hDigits hc)
  | fraction h => exact .fraction (h.concat hc)

/-- An exponent needs no sign. -/
theorem Word.unsigned (hm : Mantissa w) {e : Char} (he : e = 'e' ∨ e = 'E') {ds : List Char}
    (h : Digits Char.isDigit ds) : Word .scientific (w ++ e :: ds) :=
  @Word.scientific w [] ds e hm he (.inl rfl) h

/-- An exponent may have one sign in front of its digits. -/
theorem Word.signed (hm : Mantissa w) {e : Char} (he : e = 'e' ∨ e = 'E') {ds : List Char}
    (hSign : c = '+' ∨ c = '-') (h : Digits Char.isDigit ds) :
    Word .scientific (w ++ e :: c :: ds) :=
  @Word.scientific w [c] ds e hm he (by simpa using hSign) h

/-- One more digit of the exponent. -/
theorem Word.scientific_concat (h : Word .scientific w) (hc : c.isDigit = true) :
    Word .scientific (w ++ [c]) := by
  cases h with
  | scientific hm he hSign h =>
    rw [List.append_assoc, List.cons_append, List.append_assoc]
    exact .scientific hm he hSign (h.concat hc)

namespace State

/-- The mark of an exponent behind a mantissa. -/
theorem spells_exponentMark (hm : Mantissa w) (hMark : isExponentMark c = true) :
    exponentMark.Spells (w ++ [c]) :=
  ⟨w, c, hm, eq_of_isExponentMark hMark, rfl⟩

/-- **A step keeps what a state has read.** -/
theorem Spells.next (h : s.Spells w) (hNext : s.next c = some t) : t.Spells (w ++ [c]) := by
  cases s with
  | start =>
    -- nothing has been read, so the character is all of the text
    obtain rfl : w = [] := h
    simp only [State.next] at hNext
    split_ifs at hNext with hZero hDigit hPoint
    all_goals cases hNext
    · exact congrArg (fun d => [d]) (eq_of_beq hZero)
    · have hNonzero : c ≠ '0' := fun hSame => hZero (beq_iff_eq.2 hSame)
      exact ⟨c, [], between_of_isDigit hDigit hNonzero, by simp, rfl⟩
    · exact congrArg (fun d => [d]) (eq_of_beq hPoint)
  | zero =>
    -- after a zero the notation is still open
    obtain rfl : w = ['0'] := h
    simp only [State.next] at hNext
    split_ifs at hNext with hPoint hBinary hHex hOctal hMark
    all_goals cases hNext
    · obtain rfl := eq_of_beq hPoint
      exact .wholeAndFraction .zero (by simp)
    · exact congrArg (fun d => ['0', d]) (eq_of_beq hBinary)
    · exact congrArg (fun d => ['0', d]) (eq_of_beq hHex)
    · exact .octal (.one (by rwa [among_octal]))
    · exact spells_exponentMark (.whole .zero) hMark
  | digits =>
    obtain ⟨first, ds, hFirst, hRest, rfl⟩ := h
    -- after another digit it can only be a decimal, or end as a float or with an exponent
    simp only [State.next] at hNext
    split_ifs at hNext with hDigit hPoint hMark
    all_goals cases hNext
    · exact ⟨first, ds ++ [c], hFirst, forall_mem_concat hRest hDigit, rfl⟩
    · obtain rfl := eq_of_beq hPoint
      exact .wholeAndFraction (.digits hFirst hRest) (by simp)
    · exact spells_exponentMark (.whole (.digits hFirst hRest)) hMark
  | leadingPoint =>
    obtain rfl : w = ['.'] := h
    -- a point with nothing in front of it becomes a float with a digit, and a mantissa without one
    simp only [State.next] at hNext
    split_ifs at hNext with hDigit hMark
    all_goals cases hNext
    · exact .fraction (.one hDigit)
    · exact spells_exponentMark (.point (w := []) (.inl rfl) (by simp)) hMark
  | binaryMark =>
    obtain rfl : w = ['0', 'b'] := h
    simp only [State.next] at hNext
    split_ifs at hNext with hDigit
    cases hNext
    exact .binary (.one (by rwa [among_binary]))
  | hexMark =>
    obtain rfl : w = ['0', 'x'] := h
    simp only [State.next] at hNext
    split_ifs at hNext with hDigit
    cases hNext
    exact .hexadecimal (.one (by rwa [among_hexadecimal]))
  | binary =>
    simp only [State.next] at hNext
    split_ifs at hNext with hDigit
    cases hNext
    cases h with
    | binary h => exact .binary (h.concat (by rwa [among_binary]))
  | octal =>
    simp only [State.next] at hNext
    split_ifs at hNext with hDigit
    cases hNext
    cases h with
    | octal h => exact .octal (h.concat (by rwa [among_octal]))
  | hex =>
    simp only [State.next] at hNext
    split_ifs at hNext with hDigit
    cases hNext
    cases h with
    | hexadecimal h => exact .hexadecimal (h.concat (by rwa [among_hexadecimal]))
  | fraction =>
    simp only [State.next] at hNext
    split_ifs at hNext with hDigit hMark
    all_goals cases hNext
    · exact h.float_concat hDigit
    · exact spells_exponentMark h.mantissa hMark
  | exponentMark =>
    obtain ⟨m, e, hm, he, rfl⟩ := h
    -- a sign may come only here, right behind the mark
    simp only [State.next, Bool.or_eq_true, beq_iff_eq] at hNext
    split_ifs at hNext with hSign hDigit
    all_goals cases hNext
    · exact ⟨m, e, c, hm, he, hSign, List.append_assoc ..⟩
    · rw [List.append_assoc]
      exact .unsigned hm he (.one hDigit)
  | exponentSign =>
    obtain ⟨m, e, sign, hm, he, hSign, rfl⟩ := h
    simp only [State.next] at hNext
    split_ifs at hNext with hDigit
    cases hNext
    rw [List.append_assoc]
    exact .signed hm he hSign (.one hDigit)
  | exponent =>
    simp only [State.next] at hNext
    split_ifs at hNext with hDigit
    cases hNext
    exact h.scientific_concat hDigit

/-- **What leads to a state is what the state has read.** -/
theorem Spells.of_lead {v : List Char} (h : s.Spells v) (hLead : s.lead w = some t) :
    t.Spells (v ++ w) := by
  induction w generalizing s v with
  | nil =>
    cases hLead
    rwa [List.append_nil]
  | cons c w ih =>
    obtain ⟨u, hNext, hRest⟩ := Option.bind_eq_some_iff.1 hLead
    have hSpells := ih (h.next hNext) hRest
    rwa [List.append_assoc, List.singleton_append] at hSpells

/-- So it is from the start, where nothing has been read. -/
theorem spells_of_lead (h : start.lead w = some t) : t.Spells w :=
  Spells.of_lead (s := start) (v := []) rfl h

/-- A state that names a notation has read a word of it. -/
theorem Spells.word {numeral : Numeral} (h : s.Spells w) (hNumeral : s.numeral = some numeral) :
    Word numeral w := by
  cases s with
  | zero =>
    cases hNumeral
    obtain rfl : w = ['0'] := h
    exact .decimal .zero
  | digits =>
    cases hNumeral
    obtain ⟨c, ds, hFirst, hRest, rfl⟩ := h
    exact .decimal (.digits hFirst hRest)
  | binary | octal | hex | fraction | exponent =>
    -- these states have read words of the notation that they name
    cases hNumeral
    exact h
  | start | leadingPoint | binaryMark | hexMark | exponentMark | exponentSign => cases hNumeral

/-- **Whatever has been read can be completed to a word.** -/
theorem Spells.viable (h : s.Spells w) : Viable w := by
  have hZeros (p : Char → Bool) (hp : p '0' = true) : Digits p ['0'] := .one hp
  cases s with
  | start =>
    obtain rfl : w = [] := h
    exact ⟨.decimal, ['0'], .decimal .zero⟩
  | leadingPoint =>
    obtain rfl : w = ['.'] := h
    exact ⟨.float, ['0'], .fraction (hZeros _ rfl)⟩
  | binaryMark =>
    obtain rfl : w = ['0', 'b'] := h
    exact ⟨.binary, ['0'], .binary (hZeros _ rfl)⟩
  | hexMark =>
    obtain rfl : w = ['0', 'x'] := h
    exact ⟨.hexadecimal, ['0'], .hexadecimal (hZeros _ rfl)⟩
  | exponentMark =>
    obtain ⟨m, e, hm, he, rfl⟩ := h
    refine ⟨.scientific, ['0'], ?_⟩
    rw [List.append_assoc]
    exact .unsigned hm he (hZeros _ rfl)
  | exponentSign =>
    obtain ⟨m, e, sign, hm, he, hSign, rfl⟩ := h
    refine ⟨.scientific, ['0'], ?_⟩
    rw [List.append_assoc]
    exact .signed hm he hSign (hZeros _ rfl)
  | zero | digits | binary | octal | hex | fraction | exponent =>
    -- a word already
    exact ⟨_, [], by rw [List.append_nil]; exact h.word rfl⟩

end State

/-! ## Where words lead -/

namespace State

/-- Characters that lead from a state to itself. -/
theorem lead_of_stays (hStay : ∀ d ∈ ds, s.next d = some s) : s.lead ds = some s := by
  -- one digit after the other, from the front
  induction ds with
  | nil => rfl
  | cons d ds ih =>
    obtain ⟨hFirst, hRest⟩ := List.forall_mem_cons.1 hStay
    rw [lead_cons, hFirst, Option.bind_some, ih hRest]

/-- Digits of which the first leads to a state that the others stay in. -/
theorem lead_of_digits {p : Char → Bool} (h : Digits p ds)
    (hFirst : ∀ d, p d = true → s.next d = some t)
    (hStay : ∀ d, p d = true → t.next d = some t) : s.lead ds = some t := by
  obtain ⟨d, ds, rfl⟩ := List.exists_cons_of_ne_nil h.1
  obtain ⟨hd, hRest⟩ := List.forall_mem_cons.1 h.2
  -- the first digit changes the state and the others do not
  rw [lead_cons, hFirst d hd, Option.bind_some]
  exact lead_of_stays fun d hMem => hStay d (hRest d hMem)

/-- A digit is no sign. -/
theorem next_exponentMark (hc : c.isDigit = true) : exponentMark.next c = some .exponent := by
  have hSign : (c == '+' || c == '-') = false := by
    rw [Bool.or_eq_false_iff, beq_eq_false_iff_ne, beq_eq_false_iff_ne]
    constructor <;> rintro rfl <;> cases hc
  simp only [next, hSign, hc, if_true, Bool.false_eq_true, if_false]

/-- A digit is neither a point nor a mark. -/
theorem next_zero (hc : isOctalDigit c = true) : zero.next c = some .octal := by
  have hOther (d : Char) (hd : isOctalDigit d = false) : (c == d) = false := by
    rw [beq_eq_false_iff_ne]
    rintro rfl
    rw [hd] at hc
    cases hc
  have hPoint := hOther '.' (by decide)
  have hBinary := hOther 'b' (by decide)
  have hHex := hOther 'x' (by decide)
  simp only [next, hPoint, hBinary, hHex, hc, if_true, Bool.false_eq_true, if_false]

/-- A digit from `1` on begins a whole number. -/
theorem next_start (hc : '1' ≤ c ∧ c ≤ '9') : start.next c = some .digits := by
  have hZero : (c == '0') = false := by
    rw [beq_eq_false_iff_ne]
    rintro rfl
    exact absurd hc.1 (by decide)
  simp only [next, hZero, isDigit_of_between hc, if_true, Bool.false_eq_true, if_false]

end State

/-- A whole number leads to a state that names a decimal, and goes on with a point and with the mark
of an exponent. -/
theorem Whole.exists_lead (h : Whole w) : ∃ t, State.start.lead w = some t ∧
    t.numeral = some .decimal ∧ t.next '.' = some .fraction ∧
      t.next 'e' = some .exponentMark ∧ t.next 'E' = some .exponentMark := by
  cases h with
  | zero => exact ⟨.zero, rfl, rfl, rfl, rfl, rfl⟩
  -- after the first digit the others stay in the same state
  | digits hFirst hRest =>
    refine ⟨.digits, ?_, rfl, rfl, rfl, rfl⟩
    rw [State.lead_cons, State.next_start hFirst, Option.bind_some]
    exact State.lead_of_stays fun d hd => if_pos (hRest d hd)

/-- A whole number with a point behind it, and any digits. -/
theorem Whole.lead_fraction (h : Whole w) (hDigits : ∀ d ∈ ds, d.isDigit = true) :
    State.start.lead (w ++ '.' :: ds) = some .fraction := by
  obtain ⟨t, hLead, -, hPoint, -⟩ := h.exists_lead
  rw [State.lead_append, hLead, Option.bind_some, State.lead_cons, hPoint, Option.bind_some]
  exact State.lead_of_stays fun d hd => if_pos (hDigits d hd)

/-- A mantissa leads to a state that goes on with the mark of an exponent. -/
theorem Mantissa.exists_lead (h : Mantissa w) : ∃ t, State.start.lead w = some t ∧
    t.next 'e' = some .exponentMark ∧ t.next 'E' = some .exponentMark := by
  cases h with
  | whole h =>
    obtain ⟨t, hLead, -, -, hMark⟩ := h.exists_lead
    exact ⟨t, hLead, hMark⟩
  | @point w ds h hDigits =>
    rcases h with rfl | hWhole
    · -- a point in front of the mark of an exponent needs no digit
      cases ds with
      | nil => exact ⟨.leadingPoint, rfl, rfl, rfl⟩
      | cons d ds =>
        refine ⟨.fraction, ?_, rfl, rfl⟩
        exact State.lead_of_digits (s := .leadingPoint) ⟨List.cons_ne_nil _ _, hDigits⟩
          (fun _ hd => if_pos hd) fun _ hd => if_pos hd
    · exact ⟨.fraction, hWhole.lead_fraction hDigits, rfl, rfl⟩

/-- **The automaton follows every word to its end**, and the state there names the notation. -/
theorem Word.exists_lead {numeral : Numeral} (h : Word numeral w) :
    ∃ t, State.start.lead w = some t ∧ t.numeral = some numeral := by
  cases h with
  | binary h =>
    rw [among_binary] at h
    exact ⟨.binary, State.lead_of_digits (s := .binaryMark) h (fun _ hd => if_pos hd)
      fun _ hd => if_pos hd, rfl⟩
  | octal h =>
    rw [among_octal] at h
    exact ⟨.octal, State.lead_of_digits (s := .zero) h (fun _ hd => State.next_zero hd)
      fun _ hd => if_pos hd, rfl⟩
  | decimal h =>
    obtain ⟨t, hLead, hNumeral, -⟩ := h.exists_lead
    exact ⟨t, hLead, hNumeral⟩
  | hexadecimal h =>
    rw [among_hexadecimal] at h
    exact ⟨.hex, State.lead_of_digits (s := .hexMark) h (fun _ hd => if_pos hd)
      fun _ hd => if_pos hd, rfl⟩
  | wholeAndFraction h hDigits => exact ⟨.fraction, h.lead_fraction hDigits, rfl⟩
  | fraction h =>
    exact ⟨.fraction, State.lead_of_digits (s := .leadingPoint) h (fun _ hd => if_pos hd)
      fun _ hd => if_pos hd, rfl⟩
  | @scientific m sign ds e hm he hSign h =>
    obtain ⟨t, hLead, hMark⟩ := hm.exists_lead
    have hNext : t.next e = some .exponentMark := by
      rcases he with rfl | rfl
      · exact hMark.1
      · exact hMark.2
    refine ⟨.exponent, ?_, rfl⟩
    rw [State.lead_append, hLead, Option.bind_some, State.lead_cons, hNext, Option.bind_some]
    have hExponent : State.exponentSign.lead ds = some .exponent :=
      State.lead_of_digits h (fun _ hd => if_pos hd) fun _ hd => if_pos hd
    -- with a sign the automaton takes one step more
    rcases hSign with rfl | rfl | rfl
    · exact State.lead_of_digits h (fun _ hd => State.next_exponentMark hd) fun _ hd => if_pos hd
    · exact hExponent
    · exact hExponent

/-! ## The scanner -/

/-- A text is viable exactly when the automaton gets to its end. -/
theorem viable_iff : Viable w ↔ (State.start.lead w).isSome := by
  constructor
  · rintro ⟨numeral, rest, hWord⟩
    -- a beginning of a word that leads somewhere leads somewhere
    obtain ⟨t, hLead, -⟩ := hWord.exists_lead
    rw [State.lead_append] at hLead
    obtain ⟨u, hFirst, -⟩ := Option.bind_eq_some_iff.1 hLead
    rw [hFirst]
    rfl
  · intro hLeads
    obtain ⟨t, hLead⟩ := Option.isSome_iff_exists.1 hLeads
    exact (State.spells_of_lead hLead).viable

/-- A text is a word exactly when the automaton gets to a state that names the notation. -/
theorem word_iff {numeral : Numeral} :
    Word numeral w ↔ ∃ t, State.start.lead w = some t ∧ t.numeral = some numeral := by
  constructor
  · exact Word.exists_lead
  · rintro ⟨t, hLead, hNumeral⟩
    exact (State.spells_of_lead hLead).word hNumeral

/-- What the scanner takes is the longest viable beginning of the text. -/
theorem longest_scan (cs : List Char) : Longest cs (scan cs).1 where
  le_length := State.run_le .start cs
  viable := by
    rw [viable_iff, scan, State.lead_run]
    rfl
  le_of_viable m hm hViable := by
    by_contra hFar
    rw [viable_iff, State.lead_of_run_lt hm (Nat.lt_of_not_le hFar)] at hViable
    cases hViable

/-- There is one longest viable beginning. -/
theorem Longest.eq {cs : List Char} {m n : Nat} (hm : Longest cs m) (hn : Longest cs n) : m = n :=
  Nat.le_antisymm (hn.le_of_viable m hm.le_length hm.viable)
    (hm.le_of_viable n hn.le_length hn.viable)

/-- The scanner names a notation exactly when what it takes is a word of it. -/
theorem scan_eq_some_iff (cs : List Char) (numeral : Numeral) :
    (scan cs).2 = some numeral ↔ Word numeral (cs.take (scan cs).1) := by
  rw [word_iff, scan, State.lead_run]
  simp

/-- **The scanner takes the longest viable beginning of any text**, as many bytes as characters, and
names a notation exactly when that is a word of it. No other answer would fit. A sequence of bytes
is a text whose characters have the codes of the bytes. -/
theorem scan_longest (cs : List Char) :
    (∀ n k, scan cs = (n, k) ↔
      Longest cs n ∧ ∀ numeral, k = some numeral ↔ Word numeral (cs.take n)) ∧
    byteLength (cs.take (scan cs).1) = (scan cs).1 := by
  constructor
  · intro n k
    constructor
    · intro hScan
      have hLongest := longest_scan cs
      have hNotation := scan_eq_some_iff cs
      rw [hScan] at hLongest hNotation
      exact ⟨hLongest, hNotation⟩
    · rintro ⟨hLongest, hNotation⟩
      obtain rfl : (scan cs).1 = n := (longest_scan cs).eq hLongest
      -- the answer is settled by the two properties, so it is the scanner's
      have hSame : (scan cs).2 = k := Option.ext fun numeral => by
        rw [scan_eq_some_iff, hNotation]
      rw [← hSame]
  · have hVisible : ∀ d ∈ cs.take (scan cs).1, isVisible d = true :=
      State.all_isVisible_take .start cs
    rw [byteLength_of_isVisible hVisible, List.length_take]
    exact Nat.min_eq_left (State.run_le .start cs)

/-- Where the text goes on, but not as a numeral: the mark of an exponent with a sign is viable,
no word, and as far as it goes. -/
example : scan "1.5e+x".toList = (5, none) := by decide

end Numeral

end Reckon
