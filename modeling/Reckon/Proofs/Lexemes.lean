import Reckon.Token
import Reckon.Proofs.Spans
import Mathlib

/-!
# What lexemes look like and where they end

Three facts about cutting a text into lexemes. The characters of a lexeme are of one sort, which its
kind tells (`spells_classify`): runs of white space are made of their own characters, and numerals,
names and operators of visible ASCII characters. A lexeme ends in front of a terminator, whatever
comes behind (`cutLexeme_beforeStop`), so the lexemes of a text are those of the stretches between
its terminators. And lexemes do not depend on where the text stands (`tokensFrom_shift`).
-/

namespace Reckon

/-! ## Visible characters -/

/-- An ASCII character that can be seen. -/
def isVisible (c : Char) : Bool := '!' ≤ c && c ≤ '~'

/-- What lies between visible characters is visible. -/
theorem isVisible_of_le {a b c : Char} (ha : '!' ≤ a) (hb : b ≤ '~') (hLow : a ≤ c)
    (hHigh : c ≤ b) : isVisible c = true := by
  rw [isVisible, Bool.and_eq_true, decide_eq_true_eq, decide_eq_true_eq]
  exact ⟨UInt32.le_trans ha hLow, UInt32.le_trans hHigh hb⟩

/-- Letters can be seen. -/
theorem isVisible_of_isAlpha {c : Char} (h : c.isAlpha = true) : isVisible c = true := by
  simp only [Char.isAlpha, Char.isUpper, Char.isLower, Bool.or_eq_true, Bool.and_eq_true,
    decide_eq_true_eq] at h
  rcases h with h | h
  · exact isVisible_of_le (by decide) (by decide) (a := 'A') (b := 'Z') h.1 h.2
  · exact isVisible_of_le (by decide) (by decide) (a := 'a') (b := 'z') h.1 h.2

theorem isVisible_of_isDigit {c : Char} (h : c.isDigit = true) : isVisible c = true := by
  rw [Char.isDigit, Bool.and_eq_true, decide_eq_true_eq, decide_eq_true_eq] at h
  exact isVisible_of_le (by decide) (by decide) (a := '0') (b := '9') h.1 h.2

/-- What begins a name may go on with it. -/
theorem isNamePart_of_isNameStart {c : Char} (h : isNameStart c = true) : isNamePart c = true := by
  rw [isNameStart, Bool.or_eq_true] at h
  rw [isNamePart, Char.isAlphanum, Bool.or_eq_true, Bool.or_eq_true]
  exact h.imp .inl id

/-- Whatever a name is made of can be seen. -/
theorem isVisible_of_isNamePart {c : Char} (h : isNamePart c = true) : isVisible c = true := by
  rw [isNamePart, Char.isAlphanum, Bool.or_eq_true, Bool.or_eq_true, beq_iff_eq] at h
  rcases h with (h | h) | rfl
  · exact isVisible_of_isAlpha h
  · exact isVisible_of_isDigit h
  · decide

section Visible

variable {c : Char} (h : isVisible c = true)

include h

/-- A visible character takes one byte. -/
theorem utf8Size_of_isVisible : c.utf8Size = 1 := by
  rw [isVisible, Bool.and_eq_true, decide_eq_true_eq, decide_eq_true_eq] at h
  have hVal : c.val ≤ 0x7f := UInt32.le_trans h.2 (by decide)
  exact if_pos hVal

/-- A visible character is none that cannot be seen. -/
theorem ne_of_isVisible {d : Char} (hd : isVisible d = false) : c ≠ d := by
  rintro rfl
  rw [hd] at h
  cases h

/-- A visible character ends no row. -/
theorem isLineBreak_of_isVisible : isLineBreak c = false := by
  have hReturn := ne_of_isVisible h (d := '\r') (by decide)
  have hFeed := ne_of_isVisible h (d := '\n') (by decide)
  simp [isLineBreak, hReturn, hFeed]

end Visible

/-- Visible characters take as many bytes as they are. -/
theorem byteLength_of_isVisible {cs : List Char} (h : ∀ d ∈ cs, isVisible d = true) :
    byteLength cs = cs.length := by
  induction cs with
  | nil => rfl
  | cons c cs ih =>
    obtain ⟨hFirst, hRest⟩ := List.forall_mem_cons.1 h
    rw [byteLength_cons, utf8Size_of_isVisible hFirst, ih hRest, List.length_cons, Nat.add_comm]

/-! ## Numerals -/

namespace Numeral

/-- No numeral goes on with a character that cannot be seen. -/
theorem State.next_of_not_isVisible {c : Char} (h : isVisible c = false) (s : State) :
    s.next c = none := by
  -- all that a state asks for is visible, so the character is none of it
  have hNot {p : Prop} (hp : p → isVisible c = true) : ¬ p := by
    intro hTrue
    rw [h] at hp
    cases hp hTrue
  have hOne (d : Char) (hd : isVisible d = true) : (c == d) = false :=
    beq_false_of_ne (ne_of_isVisible hd h).symm
  have hDigit : c.isDigit = false := Bool.eq_false_of_not_eq_true (hNot isVisible_of_isDigit)
  have hRange (a b : Char) (ha : '!' ≤ a) (hb : b ≤ '~') :
      (decide (a ≤ c) && decide (c ≤ b)) = false := by
    apply Bool.eq_false_of_not_eq_true
    rw [Bool.and_eq_true, decide_eq_true_eq, decide_eq_true_eq]
    exact hNot fun hc => isVisible_of_le ha hb hc.1 hc.2
  have hOctal : isOctalDigit c = false := hRange '0' '7' (by decide) (by decide)
  have hHex : isHexDigit c = false := by
    rw [isHexDigit, hDigit, hRange 'a' 'f' (by decide) (by decide),
      hRange 'A' 'F' (by decide) (by decide)]
    rfl
  have hBinary : isBinaryDigit c = false := by
    rw [isBinaryDigit, hOne '0' (by decide), hOne '1' (by decide)]
    rfl
  have hMark : isExponentMark c = false := by
    rw [isExponentMark, hOne 'e' (by decide), hOne 'E' (by decide)]
    rfl
  have hZero := hOne '0' (by decide)
  have hPoint := hOne '.' (by decide)
  have hB := hOne 'b' (by decide)
  have hX := hOne 'x' (by decide)
  have hPlus := hOne '+' (by decide)
  have hMinus := hOne '-' (by decide)
  -- whatever the state, it asks for characters of these sorts only
  cases s <;>
    simp [next, hDigit, hOctal, hHex, hBinary, hMark, hZero, hPoint, hB, hX, hPlus, hMinus]

/-- A digit or a point begins a numeral, so the scanner takes it and goes on behind it. -/
theorem exists_scan_cons {c : Char} (h : (c.isDigit || c == '.') = true) :
    ∃ t : State, ∀ cs, scan (c :: cs) = ((t.run cs).1 + 1, (t.run cs).2.numeral) := by
  have hNext : ∃ t, State.start.next c = some t := by
    simp only [State.next]
    split
    · exact ⟨_, rfl⟩
    split
    · exact ⟨_, rfl⟩
    · -- no digit, so a point
      rename_i hDigit
      rw [Bool.eq_false_of_not_eq_true hDigit, Bool.false_or] at h
      exact ⟨_, if_pos h⟩
  obtain ⟨t, ht⟩ := hNext
  exact ⟨t, fun cs => by rw [scan, State.run, ht]⟩

/-- No numeral goes on with a terminator. -/
theorem State.next_semicolon (s : State) : s.next ';' = none := by cases s <;> rfl

/-- What the scanner takes is visible. -/
theorem State.all_isVisible_take (s : State) (cs : List Char) :
    ∀ d ∈ cs.take (s.run cs).1, isVisible d = true := by
  induction cs generalizing s with
  | nil => simp
  | cons c cs ih =>
    unfold run
    split
    · rename_i t hNext
      rw [List.take_succ_cons, List.forall_mem_cons]
      refine ⟨?_, ih t⟩
      -- in front of any other character the scanner would have stopped
      by_contra hHidden
      rw [State.next_of_not_isVisible (Bool.eq_false_of_not_eq_true hHidden)] at hNext
      cases hNext
    · simp

/-- The scanner takes no more than there is. -/
theorem State.run_le (s : State) (cs : List Char) : (s.run cs).1 ≤ cs.length := by
  induction cs generalizing s with
  | nil => exact Nat.zero_le _
  | cons c cs ih =>
    unfold run
    split
    · exact Nat.succ_le_succ (ih _)
    · exact Nat.zero_le _

/-- The scanner takes the first character of a number, and what it takes behind it is visible,
too. -/
theorem State.isVisible_of_start {c : Char} (h : (c.isDigit || c == '.') = true) (cs : List Char) :
    ∀ d ∈ c :: cs.take ((start.run (c :: cs)).1 - 1), isVisible d = true := by
  have hTaken := start.all_isVisible_take (c :: cs)
  obtain ⟨t, hScan⟩ := exists_scan_cons h
  have hRun : (start.run (c :: cs)).1 = (t.run cs).1 + 1 := congrArg Prod.fst (hScan cs)
  rw [hRun, List.take_succ_cons] at hTaken
  rwa [hRun]

/-- The scanner stops at a character that no numeral goes on with as it stops at the end of the
text. -/
theorem State.run_append {d : Char} (hd : ∀ s : State, s.next d = none) (s : State)
    (cs behind : List Char) : s.run (cs ++ d :: behind) = s.run cs := by
  induction cs generalizing s with
  | nil => simp [run, hd]
  | cons c cs ih =>
    rw [List.cons_append]
    unfold run
    split
    · rw [ih]
    · rfl

end Numeral

/-! ## Runs and operators -/

/-- A run goes no further than a character that is none of it. -/
theorem runLength_append {p : Char → Bool} {d : Char} (hp : p d = false) (cs behind : List Char) :
    runLength p (cs ++ d :: behind) = runLength p cs := by
  unfold runLength
  induction cs with
  | nil => simp [hp]
  | cons c cs ih =>
    rw [List.cons_append, List.takeWhile_cons, List.takeWhile_cons]
    split
    · rw [List.length_cons, List.length_cons, ih]
    · rfl

theorem runLength_le (p : Char → Bool) (cs : List Char) : runLength p cs ≤ cs.length :=
  (List.takeWhile_prefix p).length_le

/-- As many characters as have a property from the start on do have it. -/
theorem all_take_runLength (p : Char → Bool) (cs : List Char) :
    (cs.take (runLength p cs)).all p := by
  rw [runLength, ← List.prefix_iff_eq_take.1 (List.takeWhile_prefix p)]
  exact List.all_takeWhile

/-- A run has the property with its first character. -/
theorem forall_mem_run {p : Char → Bool} {c : Char} (hc : p c = true) (cs : List Char) :
    ∀ d ∈ c :: cs.take (runLength p cs), p d = true :=
  List.forall_mem_cons.2 ⟨hc, List.all_eq_true.1 (all_take_runLength p cs)⟩

/-- The character behind a run is none of the run. -/
theorem head?_drop_runLength {p : Char → Bool} {cs : List Char} {d : Char}
    (h : (cs.drop (runLength p cs)).head? = some d) : p d = false := by
  have hRest : cs.drop (runLength p cs) = cs.dropWhile p := by
    have hSplit := List.takeWhile_append_dropWhile (p := p) (l := cs)
    calc cs.drop (runLength p cs)
        = (cs.takeWhile p ++ cs.dropWhile p).drop (cs.takeWhile p).length := by rw [hSplit]; rfl
      _ = cs.dropWhile p := List.drop_left
  rw [hRest] at h
  simpa [h] using List.head?_dropWhile_not p cs

/-- A spelling fits in front of a character that is none of it, or not at all. -/
theorem isPrefixOf_append {spelling : List Char} {d : Char} (hOther : d ∉ spelling)
    (cs behind : List Char) :
    spelling.isPrefixOf (cs ++ d :: behind) = spelling.isPrefixOf cs := by
  induction spelling generalizing cs with
  | nil => simp
  | cons e spelling ih =>
    obtain ⟨hFirst, hRest⟩ := not_or.1 (List.mem_cons.not.1 hOther)
    cases cs with
    | nil => simp [List.isPrefixOf, Ne.symm hFirst]
    | cons c cs => rw [List.cons_append, List.isPrefixOf, List.isPrefixOf, ih hRest]

/-- The operator at the start of a text does not depend on what comes behind a character that is
part of no longer operator. -/
theorem leadingOperator?_append {d : Char}
    (hSpelled : ∀ entry ∈ operatorSpellings, entry.1 = [d] ∨ d ∉ entry.1) (c : Char)
    (cs behind : List Char) :
    leadingOperator? (c :: (cs ++ d :: behind)) = leadingOperator? (c :: cs) := by
  unfold leadingOperator?
  refine List.find?_congr fun entry hEntry => ?_
  rcases hSpelled entry hEntry with hStop | hOther
  · -- for the character itself only the first character counts
    rw [hStop]
    simp [List.isPrefixOf]
  · rw [← List.cons_append]
    exact isPrefixOf_append hOther _ _

/-- The spelling of an operator stands where the operator does. -/
theorem isPrefix_of_leadingOperator? {cs spelling : List Char} {op : Operator}
    (h : leadingOperator? cs = some (spelling, op)) : spelling <+: cs := by
  unfold leadingOperator? at h
  have hFits := List.find?_some h
  exact List.isPrefixOf_iff_prefix.1 hFits

/-- The characters of an operator are those of its spelling. -/
theorem text_of_leadingOperator? {c : Char} {cs spelling : List Char} {op : Operator}
    (h : leadingOperator? (c :: cs) = some (spelling, op)) :
    c :: cs.take (spelling.length - 1) = spelling := by
  have hSpelled : ∀ entry ∈ operatorSpellings, entry.1 ≠ [] := by decide
  have hSome : spelling ≠ [] := hSpelled _ (List.mem_of_find?_eq_some h)
  -- so the character that was looked at is the first one of the spelling
  have hPrefix := List.prefix_iff_eq_take.1 (isPrefix_of_leadingOperator? h)
  obtain ⟨n, hn⟩ := Nat.exists_eq_succ_of_ne_zero (List.length_pos_iff.2 hSome).ne'
  rw [hn, List.take_succ_cons] at hPrefix
  rw [hn]
  exact hPrefix.symm

/-- The terminator has one spelling. -/
theorem eq_of_leadingOperator_semicolon {c : Char} {cs spelling : List Char}
    (h : leadingOperator? (c :: cs) = some (spelling, .semicolon)) :
    spelling = [';'] ∧ c = ';' := by
  have hOne : ∀ entry ∈ operatorSpellings, entry.2 = .semicolon → entry.1 = [';'] := by decide
  have hSpelling : spelling = [';'] := hOne _ (List.mem_of_find?_eq_some h) rfl
  have hPrefix := List.find?_some h
  subst hSpelling
  simp only [List.isPrefixOf, Bool.and_true, beq_iff_eq] at hPrefix
  exact ⟨rfl, hPrefix.symm⟩

/-! ## One lexeme -/

/-- What the characters of a lexeme of a kind look like. -/
def TokenKind.Spells (kind : TokenKind) (text : List Char) : Prop :=
  match kind with
  | .space .blank => ∀ d ∈ text, d = ' '
  | .space .tab => ∀ d ∈ text, d = '\t'
  | .space .newline => ∀ d ∈ text, isLineBreak d = true
  | .invalid _ => ∃ d, text = [d] ∧ d ≠ '\t' ∧ isLineBreak d = false
  | .operator .semicolon => text = [';']
  | _ => ∀ d ∈ text, isVisible d = true

/-- An operator that is no terminator is written with visible characters. -/
theorem TokenKind.spells_operator {op : Operator} {text : List Char} (hStop : op ≠ .semicolon)
    (hVisible : ∀ d ∈ text, isVisible d = true) : (TokenKind.operator op).Spells text := by
  unfold TokenKind.Spells
  split
  · rename_i hKind
    cases hKind
  · rename_i hKind
    cases hKind
  · rename_i hKind
    cases hKind
  · rename_i hKind
    cases hKind
  · rename_i hKind
    exact absurd (TokenKind.operator.inj hKind) hStop
  · exact hVisible

/-- **The characters of a lexeme are of one sort.** -/
theorem spells_classify (c : Char) (cs : List Char) :
    (classify c cs).1.Spells (c :: cs.take (classify c cs).2) := by
  unfold classify
  split
  · rename_i hBlank
    exact fun d hd => beq_iff_eq.1 (forall_mem_run (p := (· == ' ')) hBlank cs d hd)
  split
  · rename_i hTab
    exact fun d hd => beq_iff_eq.1 (forall_mem_run (p := (· == '\t')) hTab cs d hd)
  split
  · rename_i hBreak
    exact forall_mem_run hBreak cs
  rename_i _ hTab hBreak
  split
  · rename_i hStart
    exact Numeral.State.isVisible_of_start hStart cs
  split
  · -- the first character begins a name, and the others are part of one
    rename_i hName
    have hPart := forall_mem_run (isNamePart_of_isNameStart hName) cs
    exact fun d hd => isVisible_of_isNamePart (hPart d hd)
  split
  · -- the characters are those of the spelling
    rename_i spelling op hOp
    have hSpelled : ∀ entry ∈ operatorSpellings, entry.1.all isVisible = true := by decide
    have hVisible := List.all_eq_true.1 (hSpelled _ (List.mem_of_find?_eq_some hOp))
    dsimp only
    rw [text_of_leadingOperator? hOp]
    by_cases hStop : op = .semicolon
    · subst hStop
      exact (eq_of_leadingOperator_semicolon hOp).1
    · exact TokenKind.spells_operator hStop hVisible
  · -- a stray character is none of those above, so it is no white space
    exact ⟨c, rfl, by simpa using hTab, by simpa using hBreak⟩

/-- A lexeme that is no white space, no stray character and no terminator is visible. -/
theorem TokenKind.Spells.isVisible {kind : TokenKind} {text : List Char} (h : kind.Spells text)
    (hSpace : ∀ s, kind ≠ .space s) (hStray : ∀ s, kind ≠ .invalid s)
    (hStop : kind ≠ .operator .semicolon) : ∀ d ∈ text, isVisible d = true := by
  unfold TokenKind.Spells at h
  split at h
  · exact absurd rfl (hSpace _)
  · exact absurd rfl (hSpace _)
  · exact absurd rfl (hSpace _)
  · exact absurd rfl (hStray _)
  · exact absurd rfl hStop
  · exact h

/-- Line breaks are found in runs of line breaks only. -/
theorem TokenKind.Spells.eq_newline {kind : TokenKind} {text : List Char} {d : Char}
    (h : kind.Spells text) (hMem : d ∈ text) (hBreak : isLineBreak d = true) :
    kind = .space .newline := by
  have hNot (hOther : isLineBreak d = false) : kind = .space .newline := by
    rw [hBreak] at hOther
    cases hOther
  unfold TokenKind.Spells at h
  split at h
  · -- blanks and tabs break no row
    exact hNot (by rw [h d hMem]; rfl)
  · exact hNot (by rw [h d hMem]; rfl)
  · rfl
  · obtain ⟨e, rfl, -, hOther⟩ := h
    exact hNot (by rw [List.mem_singleton.1 hMem, hOther])
  · rw [h] at hMem
    exact hNot (by rw [List.mem_singleton.1 hMem]; rfl)
  · exact hNot (isLineBreak_of_isVisible (h d hMem))

/-- Behind a run of line breaks comes none. -/
theorem head?_of_classify_newline {c d : Char} {cs : List Char}
    (hKind : (classify c cs).1 = .space .newline)
    (hNext : (cs.drop (classify c cs).2).head? = some d) : isLineBreak d = false := by
  unfold classify at hKind hNext
  split at hKind
  · cases hKind
  split at hKind
  · cases hKind
  split at hKind
  · rename_i hBlank hTab hBreak
    rw [if_neg hBlank, if_neg hTab, if_pos hBreak] at hNext
    exact head?_drop_runLength hNext
  -- no other lexeme is one
  split at hKind
  · cases hKind
  split at hKind
  · cases hKind
  split at hKind <;> cases hKind

/-- A lexeme ends where the text ends. -/
theorem classify_le (c : Char) (cs : List Char) : (classify c cs).2 ≤ cs.length := by
  unfold classify
  split
  · exact runLength_le _ _
  split
  · exact runLength_le _ _
  split
  · exact runLength_le _ _
  split
  · have hRun := Numeral.State.run_le .start (c :: cs)
    unfold Numeral.scan
    rw [List.length_cons] at hRun
    dsimp only
    omega
  split
  · exact runLength_le _ _
  split
  · rename_i spelling op hOp
    -- a spelling that fits is no longer than the text
    have hLength := (isPrefix_of_leadingOperator? hOp).length_le
    rw [List.length_cons] at hLength
    dsimp only
    omega
  · exact Nat.zero_le _

/-- A lexeme does not depend on what comes behind a terminator, and if it is no run of blanks, not
on what comes behind a blank either. -/
theorem classify_append {c d : Char} (hStop : d = ';' ∨ d = ' ' ∧ c ≠ ' ') (cs behind : List Char) :
    classify c (cs ++ d :: behind) = classify c cs := by
  have hRun (s : Numeral.State) : s.next d = none := by
    rcases hStop with rfl | ⟨rfl, -⟩
    · exact Numeral.State.next_semicolon s
    · exact Numeral.State.next_of_not_isVisible (by decide) s
  have hSpelled : ∀ entry ∈ operatorSpellings, entry.1 = [d] ∨ d ∉ entry.1 := by
    rcases hStop with rfl | ⟨rfl, -⟩ <;> decide
  have hTab := runLength_append (p := (· == '\t')) (d := d)
    (by rcases hStop with rfl | ⟨rfl, -⟩ <;> rfl) cs behind
  have hBreak := runLength_append (p := isLineBreak) (d := d)
    (by rcases hStop with rfl | ⟨rfl, -⟩ <;> rfl) cs behind
  have hName := runLength_append (p := isNamePart) (d := d)
    (by rcases hStop with rfl | ⟨rfl, -⟩ <;> rfl) cs behind
  unfold classify Numeral.scan
  -- each case looks at what is in front of the character only
  rw [← List.cons_append, Numeral.State.run_append hRun, List.cons_append,
    leadingOperator?_append hSpelled, hTab, hBreak, hName]
  split
  · -- a run of blanks ends at a terminator
    rename_i hBlank
    rcases hStop with rfl | ⟨-, hOther⟩
    · rw [runLength_append (by decide)]
    · exact absurd (beq_iff_eq.1 hBlank) hOther
  · rfl

/-- **A lexeme ends in front of a terminator**, and what comes behind does not change it. -/
theorem cutLexeme_beforeStop (offset : Nat) (c : Char) (cs behind : List Char) :
    cutLexeme offset c (cs ++ ';' :: behind) =
      { cutLexeme offset c cs with rest := (cutLexeme offset c cs).rest ++ ';' :: behind } := by
  have hLe := classify_le c cs
  unfold cutLexeme
  rw [classify_append (.inl rfl)]
  dsimp only
  rw [List.take_append_of_le_length hLe, List.drop_append_of_le_length hLe]

/-! ## All lexemes of a text -/

/-- The token moved on by so many bytes. -/
def Token.shift (t : Token) (n : Nat) : Token := { t with span := t.span.shift n }

/-- A lexeme that is found further on has its token further on. -/
theorem cutLexeme_shift (offset n : Nat) (c : Char) (cs : List Char) :
    cutLexeme (offset + n) c cs =
      { cutLexeme offset c cs with token := (cutLexeme offset c cs).token.shift n } := by
  unfold cutLexeme Token.shift Span.shift
  rw [Nat.add_right_comm]

/-- **Lexemes do not depend on where the text stands.** -/
theorem tokensFrom_shift (offset n : Nat) (cs : List Char) :
    tokensFrom (offset + n) cs = (tokensFrom offset cs).map (·.shift n) := by
  fun_induction tokensFrom offset cs with
  | case1 offset => simp [tokensFrom]
  | case2 offset c cs cut ih =>
    rw [tokensFrom, List.map_cons, ← ih, cutLexeme_shift]
    rfl

end Reckon
