import Reckon.Proofs.Blame

/-!
# Tokens lose nothing and do not depend on each other

The tokens of a script cover it from its first byte to its last one, each behind the one before
(`Tiles`), and the loop that looks for one token after the other finds them and comes to an end
(`Finds`). The text of a token on its own is that token again. So it makes no difference what stands
between tokens: put together with single blanks in between, those that are no white space are cut
the same way again.

What a token is depends on its characters and not on its place, so the proofs speak of lexemes,
which have no place (`lexemes`), and places are added at the end (`laidOut`). A lexeme stands alone
when its characters are all of a text (`Lexeme.Alone`). Cutting the text short behind a lexeme
leaves the lexeme as it is (`classify_take`), for the scanner of numerals has seen its end already,
a run ends with the text, and an operator that does not fit into a text does not fit into less of
it.

Main result: `tokenize_lossless`.
-/

namespace Reckon

/-! ## A lexeme and no more text -/

/-- The scanner does not miss what it has not taken. -/
theorem Numeral.State.run_take (s : State) (cs : List Char) :
    s.run (cs.take (s.run cs).1) = s.run cs := by
  induction cs generalizing s with
  | nil => rfl
  | cons c cs ih =>
    rw [run]
    cases hNext : s.next c with
    | none => rfl
    | some t =>
      dsimp only
      rw [List.take_succ_cons, run, hNext]
      dsimp only
      rw [ih]

/-- A run is as long as it was when the text ends behind it. -/
theorem runLength_take (p : Char → Bool) (cs : List Char) :
    runLength p (cs.take (runLength p cs)) = runLength p cs := by
  have hAll : (cs.take (runLength p cs)).takeWhile p = cs.take (runLength p cs) :=
    List.takeWhile_eq_self_iff.2 (List.all_eq_true.1 (all_take_runLength p cs))
  rw [runLength, hAll, List.length_take]
  exact Nat.min_eq_left (runLength_le p cs)

/-- An operator that fits into a beginning of a text fits into the text. -/
theorem leadingOperator?_of_prefix {cs ds : List Char} {entry : List Char × Operator}
    (hPrefix : ds <+: cs) (hOp : leadingOperator? cs = some entry) (hFits : entry.1 <+: ds) :
    leadingOperator? ds = some entry := by
  unfold leadingOperator? at hOp ⊢
  obtain ⟨-, before, behind, hTable, hOthers⟩ := List.find?_eq_some_iff_append.1 hOp
  refine List.find?_eq_some_iff_append.2
    ⟨List.isPrefixOf_iff_prefix.2 hFits, before, behind, hTable, fun other hOther => ?_⟩
  have hNot := hOthers other hOther
  rw [Bool.not_eq_true', Bool.eq_false_iff, Ne, List.isPrefixOf_iff_prefix] at hNot ⊢
  exact fun hIn => hNot (hIn.trans hPrefix)

/-- Where no operator fits into a text, none fits into a beginning of it. -/
theorem leadingOperator?_eq_none_of_prefix {cs ds : List Char} (hPrefix : ds <+: cs)
    (hNone : leadingOperator? cs = none) : leadingOperator? ds = none := by
  unfold leadingOperator? at hNone ⊢
  rw [List.find?_eq_none] at hNone ⊢
  intro entry hEntry
  have hNot := hNone entry hEntry
  rw [List.isPrefixOf_iff_prefix] at hNot ⊢
  exact fun hIn => hNot (hIn.trans hPrefix)

/-- **A lexeme is the same when the text ends behind it.** -/
theorem classify_take (c : Char) (cs : List Char) :
    classify c (cs.take (classify c cs).2) = classify c cs := by
  generalize hEq : classify c cs = lexeme
  -- the text that is cut short has the same first character, so its case is the same
  unfold classify at hEq ⊢
  generalize (if c.toNat < 128 then Stray.unknown else .unicode) = stray at hEq ⊢
  split_ifs at hEq ⊢ with hBlank hTab hBreak hStart hName
  · -- a run of characters of one kind: blanks, tabs or line breaks
    subst hEq
    dsimp only
    rw [runLength_take]
  · subst hEq
    dsimp only
    rw [runLength_take]
  · subst hEq
    dsimp only
    rw [runLength_take]
  · -- the first character of a numeral is taken, so the scanner takes one more than the lexeme
    obtain ⟨t, hScan⟩ := Numeral.exists_scan_cons hStart
    have hSame : Numeral.scan (c :: cs.take ((Numeral.scan (c :: cs)).1 - 1)) =
        Numeral.scan (c :: cs) := by
      rw [hScan cs, Nat.add_sub_cancel, hScan, t.run_take]
    subst hEq
    dsimp only
    rw [hSame]
  · subst hEq
    dsimp only
    rw [runLength_take]
  · cases hOp : leadingOperator? (c :: cs) with
    | some entry =>
      obtain ⟨spelling, op⟩ := entry
      have hText := text_of_leadingOperator? hOp
      -- what fits into the text fits into its own spelling, and nothing before it in the table does
      have hAlone := leadingOperator?_of_prefix (isPrefix_of_leadingOperator? hOp) hOp
        (List.prefix_refl spelling)
      rw [hOp] at hEq
      subst hEq
      dsimp only
      rw [hText, hAlone]
    | none =>
      -- a stray character is a lexeme of its own, so nothing is left behind it
      have hAlone := leadingOperator?_eq_none_of_prefix (List.prefix_append [c] cs) hOp
      rw [hOp] at hEq
      subst hEq
      dsimp only
      rw [List.take_zero, hAlone]

/-! ## Lexemes without their places -/

/-- A lexeme as it is written: what it is and its characters. -/
structure Lexeme where
  kind : TokenKind
  text : List Char
  deriving DecidableEq, Repr

/-- The lexemes of a text. -/
def lexemes : List Char → List Lexeme
  | [] => []
  | c :: cs =>
    ⟨(classify c cs).1, c :: cs.take (classify c cs).2⟩ :: lexemes (cs.drop (classify c cs).2)
termination_by cs => cs.length
decreasing_by
  rw [List.length_drop, List.length_cons]
  omega

/-- Lexemes put behind an offset, each behind the one before. -/
def laidOut (offset : Nat) : List Lexeme → List Token
  | [] => []
  | l :: ls =>
    ⟨l.kind, ⟨offset, offset + byteLength l.text⟩⟩ :: laidOut (offset + byteLength l.text) ls

/-- The tokens of a text are its lexemes with their places. -/
theorem tokensFrom_eq_laidOut (offset : Nat) (cs : List Char) :
    tokensFrom offset cs = laidOut offset (lexemes cs) := by
  fun_induction tokensFrom offset cs with
  | case1 => simp [lexemes, laidOut]
  | case2 offset c cs cut ih =>
    rw [ih, lexemes, laidOut]
    rfl

/-- Lexemes put together make up the text. -/
theorem flatMap_text_lexemes (cs : List Char) : (lexemes cs).flatMap (·.text) = cs := by
  fun_induction lexemes cs with
  | case1 => rfl
  | case2 c cs ih =>
    rw [List.flatMap_cons, ih, List.cons_append, List.take_append_drop]

namespace Lexeme

/-- The lexeme is all of its text. -/
def Alone (l : Lexeme) : Prop := ∃ c cs, l.text = c :: cs ∧ classify c cs = (l.kind, cs.length)

variable {l : Lexeme}

/-- A lexeme that is all of its text is all that is cut from it. -/
theorem Alone.lexemes (h : l.Alone) : lexemes l.text = [l] := by
  obtain ⟨c, cs, hText, hClassify⟩ := h
  rw [hText, Reckon.lexemes, hClassify]
  dsimp only
  rw [List.take_length, List.drop_length, Reckon.lexemes, ← hText]

/-- A blank begins a run of blanks, and that is white space. -/
theorem ne_blank_of_classify {c : Char} {cs : List Char}
    (hSpace : (classify c cs).1.isSpace = false) : c ≠ ' ' := by
  rintro rfl
  have hKind : (classify ' ' cs).1 = .space .blank := rfl
  rw [hKind] at hSpace
  cases hSpace

/-- What stands behind a blank does not matter, unless the lexeme is a run of blanks. -/
theorem Alone.lexemes_append (h : l.Alone) (hSpace : l.kind.isSpace = false) (behind : List Char) :
    Reckon.lexemes (l.text ++ ' ' :: behind) = l :: Reckon.lexemes (' ' :: behind) := by
  obtain ⟨c, cs, hText, hClassify⟩ := h
  have hBlank : c ≠ ' ' := ne_blank_of_classify (by rw [hClassify]; exact hSpace)
  -- the blank ends the lexeme where its text ends
  rw [hText, List.cons_append, Reckon.lexemes, classify_append (.inr ⟨rfl, hBlank⟩), hClassify]
  dsimp only
  rw [List.take_left, List.drop_left, ← hText]

/-- A lexeme that is no white space does not begin with a blank. -/
theorem Alone.lexemes_blank (h : l.Alone) (hSpace : l.kind.isSpace = false) (behind : List Char) :
    Reckon.lexemes (' ' :: (l.text ++ behind)) =
      ⟨.space .blank, [' ']⟩ :: Reckon.lexemes (l.text ++ behind) := by
  obtain ⟨c, cs, hText, hClassify⟩ := h
  have hBlank : c ≠ ' ' := ne_blank_of_classify (by rw [hClassify]; exact hSpace)
  have hOne : classify ' ' (c :: (cs ++ behind)) = (.space .blank, 0) := by
    show (TokenKind.space .blank, runLength (· == ' ') (c :: (cs ++ behind))) = _
    simp [runLength, hBlank]
  rw [hText, List.cons_append, Reckon.lexemes, hOne]
  rfl

end Lexeme

/-- **A lexeme of a text is all of its own text.** -/
theorem alone_of_mem_lexemes {cs : List Char} {l : Lexeme} (h : l ∈ lexemes cs) : l.Alone := by
  fun_induction lexemes cs with
  | case1 => cases h
  | case2 c cs ih =>
    rcases List.mem_cons.1 h with rfl | hRest
    · refine ⟨c, cs.take (classify c cs).2, rfl, ?_⟩
      rw [classify_take, List.length_take, Nat.min_eq_left (classify_le c cs)]
    · exact ih hRest

/-! ## Single blanks -/

/-- Lexemes with single blanks in between. -/
def spaced (ls : List Lexeme) : List Char := [' '].intercalate (ls.map (·.text))

/-- **Lexemes that are no white space are cut the same way again from between blanks.** -/
theorem lexemes_spaced {ls : List Lexeme} (h : ∀ l ∈ ls, l.Alone ∧ l.kind.isSpace = false) :
    (lexemes (spaced ls)).filter (fun l => !l.kind.isSpace) = ls := by
  have hKeep {l : Lexeme} {ls : List Lexeme} (hSpace : l.kind.isSpace = false) :
      (l :: ls).filter (fun l => !l.kind.isSpace) = l :: ls.filter fun l => !l.kind.isSpace := by
    rw [List.filter_cons, hSpace]
    rfl
  induction ls with
  | nil => simp [spaced, lexemes]
  | cons l ls ih =>
    obtain ⟨⟨hAlone, hSpace⟩, hRest⟩ := List.forall_mem_cons.1 h
    cases ls with
    | nil =>
      have hText : spaced [l] = l.text := by simp [spaced]
      rw [hText, hAlone.lexemes, hKeep hSpace]
      rfl
    | cons next ls =>
      obtain ⟨⟨hNext, hWord⟩, -⟩ := List.forall_mem_cons.1 hRest
      have hText : spaced (l :: next :: ls) = l.text ++ ' ' :: spaced (next :: ls) := by
        simp [spaced]
      -- the next lexeme begins behind the blank
      obtain ⟨behind, hBehind⟩ : ∃ behind, spaced (next :: ls) = next.text ++ behind := by
        cases ls with
        | nil => exact ⟨[], by simp [spaced]⟩
        | cons more ls => exact ⟨' ' :: spaced (more :: ls), by simp [spaced]⟩
      rw [hText, hAlone.lexemes_append hSpace, hKeep hSpace]
      have hTail := ih hRest
      rw [hBehind] at hTail ⊢
      rw [hNext.lexemes_blank hWord, List.filter_cons]
      exact congrArg _ hTail

/-! ## Places -/

/-- Spans that cover everything from an offset to an offset, one behind the other, with no empty one
among them. -/
def Tiles : Nat → List Span → Nat → Prop
  | start, [], stop => start = stop
  | start, s :: ss, stop => s.start = start ∧ s.start < s.stop ∧ Tiles s.stop ss stop

/-- Lexemes that have characters cover the text from one end to the other. -/
theorem tiles_laidOut {ls : List Lexeme} (h : ∀ l ∈ ls, l.text ≠ []) (offset : Nat) :
    Tiles offset ((laidOut offset ls).map (·.span))
      (offset + byteLength (ls.flatMap (·.text))) := by
  induction ls generalizing offset with
  | nil => rfl
  | cons l ls ih =>
    obtain ⟨hSome, hRest⟩ := List.forall_mem_cons.1 h
    have hPos : byteLength l.text ≠ 0 := mt eq_nil_of_byteLength hSome
    refine ⟨rfl, by show offset < offset + _; omega, ?_⟩
    rw [List.flatMap_cons, byteLength_append, ← Nat.add_assoc]
    exact ih hRest _

/-- A token without its place. -/
def Token.lexeme (t : Token) (script : String) : Lexeme := ⟨t.kind, (t.span.text script).toList⟩

/-- Tokens select the lexemes that they have been made of. -/
theorem map_lexeme_laidOut {script : String} {pre : List Char} {ls : List Lexeme}
    (hScript : script.toList = pre ++ ls.flatMap (·.text)) :
    (laidOut (byteLength pre) ls).map (·.lexeme script) = ls := by
  induction ls generalizing pre with
  | nil => rfl
  | cons l ls ih =>
    rw [List.flatMap_cons] at hScript
    have hCovers : Span.Covers ⟨byteLength pre, byteLength pre + byteLength l.text⟩ script l.text :=
      ⟨pre, _, hScript, rfl, rfl⟩
    have hBehind : script.toList = (pre ++ l.text) ++ ls.flatMap (·.text) := by
      rw [hScript, List.append_assoc]
    have hRest := ih hBehind
    rw [byteLength_append] at hRest
    rw [laidOut, List.map_cons, hRest, Token.lexeme, hCovers.text, String.toList_ofList]

/-- The tokens of a script are its lexemes when they are read in their places. -/
theorem map_lexeme_tokenize (script : String) :
    (tokenize script).map (·.lexeme script) = lexemes script.toList := by
  unfold tokenize
  rw [tokensFrom_eq_laidOut]
  have hScript : script.toList = [] ++ (lexemes script.toList).flatMap (·.text) :=
    (flatMap_text_lexemes script.toList).symm
  exact map_lexeme_laidOut hScript

/-- The tokens that are found one after the other from an offset on, until there is only the end of
the text. -/
inductive Finds (script : String) : Nat → List Token → Prop
  | stop {offset : Nat} (hEnd : (tokenAt script offset).1.kind = .endOfText) :
      Finds script offset []
  | token {offset : Nat} {ts : List Token} (hSome : (tokenAt script offset).1.kind ≠ .endOfText)
      (hRest : Finds script (tokenAt script offset).2 ts) :
      Finds script offset ((tokenAt script offset).1 :: ts)

/-- No lexeme is the end of the text. -/
theorem classify_ne_endOfText (c : Char) (cs : List Char) : (classify c cs).1 ≠ .endOfText := by
  intro hEnd
  have hSpells := isWritten_classify c cs
  rw [hEnd] at hSpells
  simp [TokenKind.isWritten, TokenKind.isIdle] at hSpells

/-- The loop finds what is cut from the text behind the offset. -/
theorem finds_tokensFrom {script : String} {offset : Nat} {cs : List Char}
    (h : charsFrom script offset = cs) : Finds script offset (tokensFrom offset cs) := by
  fun_induction tokensFrom offset cs with
  | case1 offset =>
    refine .stop ?_
    unfold tokenAt
    rw [h]
  | case2 offset c cs cut ih =>
    have hToken : tokenAt script offset = (cut.token, cut.token.span.stop) := by
      unfold tokenAt
      rw [h]
    -- the next token is looked for where this one ends
    have hRest : charsFrom script cut.token.span.stop = cut.rest := by
      rw [← cutLexeme_append offset c cs] at h
      exact charsFrom_add h
    have hFinds := @Finds.token script offset (tokensFrom cut.token.span.stop cut.rest)
      (by rw [hToken]; exact classify_ne_endOfText c cs) (by rw [hToken]; exact ih hRest)
    rwa [hToken] at hFinds

/-! ## Scripts -/

/-- The tokens of a script that are no white space, with their texts in place of their places. -/
def words (script : String) : List (TokenKind × String) :=
  ((tokenize script).filter fun t => !t.kind.isSpace).map fun t => (t.kind, t.span.text script)

/-- The texts of these tokens with single blanks in between. -/
def respaced (script : String) : String := " ".intercalate ((words script).map (·.2))

/-- The words of a script are its lexemes, with their characters as texts. -/
theorem words_eq (script : String) :
    words script = ((lexemes script.toList).filter fun l => !l.kind.isSpace).map
      fun l => (l.kind, String.ofList l.text) := by
  unfold words
  rw [← map_lexeme_tokenize, List.filter_map, List.map_map]
  refine List.map_congr_left fun t _ => ?_
  show _ = (t.kind, String.ofList (t.span.text script).toList)
  rw [String.ofList_toList]

/-- The script with single blanks in between is made of its lexemes the same way. -/
theorem toList_respaced (script : String) :
    (respaced script).toList =
      spaced ((lexemes script.toList).filter fun l => !l.kind.isSpace) := by
  unfold respaced spaced
  rw [String.toList_intercalate, words_eq, List.map_map, List.map_map]
  refine congrArg _ (List.map_congr_left fun l _ => ?_)
  exact String.toList_ofList

/-- **Tokens lose nothing of a script and do not depend on each other.** Looking for one token after
the other comes to an end with the tokens of the script. They cover it without gaps from its first
byte to its last one, between places between characters. The text of each is the same token on its
own. And with single blanks in between, those that are no white space are found again. -/
theorem tokenize_lossless (script : String) :
    Finds script 0 (tokenize script) ∧
    Tiles 0 ((tokenize script).map (·.span)) script.utf8ByteSize ∧
    (∀ t ∈ tokenize script, t.span.Within script ∧
      tokenize (t.span.text script) = [⟨t.kind, ⟨0, (t.span.text script).utf8ByteSize⟩⟩]) ∧
    words (respaced script) = words script := by
  refine ⟨finds_tokensFrom (charsFrom_zero script), ?_, fun t ht => ⟨?_, ?_⟩, ?_⟩
  · have hSome : ∀ l ∈ lexemes script.toList, l.text ≠ [] := by
      intro l hl
      obtain ⟨c, cs, hText, -⟩ := alone_of_mem_lexemes hl
      simp [hText]
    have hTiles := tiles_laidOut hSome 0
    rwa [flatMap_text_lexemes, Nat.zero_add, ← utf8ByteSize_eq, ← tokensFrom_eq_laidOut] at hTiles
  · have hScript : script.toList = [] ++ (script.toList ++ []) := by simp
    exact (selects_of_mem_tokensFrom hScript rfl ht).within
  · have hMem : t.lexeme script ∈ lexemes script.toList := by
      rw [← map_lexeme_tokenize]
      exact List.mem_map_of_mem ht
    have hLexemes := (alone_of_mem_lexemes hMem).lexemes
    change lexemes (t.span.text script).toList = _ at hLexemes
    unfold tokenize
    rw [tokensFrom_eq_laidOut, hLexemes, utf8ByteSize_eq, laidOut, laidOut, Nat.zero_add]
    rfl
  · rw [words_eq (respaced script), toList_respaced, lexemes_spaced, ← words_eq]
    intro l hl
    obtain ⟨hMem, hSpace⟩ := List.mem_filter.1 hl
    exact ⟨alone_of_mem_lexemes hMem, by simpa using hSpace⟩

/-- Tokens with nothing between them: a malformed numeral, a numeral that ends where the next one
begins, and two characters that start no lexeme, the last one of two bytes. -/
def crowded : String := "a<<=0x;08\t$ü"

/-- The last character is a token of its own, here and alone. -/
theorem tokenize_lossless_crowded :
    ⟨.invalid .unicode, ⟨11, 13⟩⟩ ∈ tokenize crowded ∧ (Span.mk 11 13).Within crowded ∧
      tokenize ((Span.mk 11 13).text crowded) = [⟨.invalid .unicode, ⟨0, 2⟩⟩] := by
  have hMem : ⟨.invalid .unicode, ⟨11, 13⟩⟩ ∈ tokenize crowded := by decide +kernel
  have hBytes : ((Span.mk 11 13).text crowded).utf8ByteSize = 2 := by decide +kernel
  obtain ⟨hWithin, hAlone⟩ := (tokenize_lossless crowded).2.2.1 _ hMem
  rw [hBytes] at hAlone
  exact ⟨hMem, hWithin, hAlone⟩

end Reckon
