import Reckon.Proofs.Alignment
import Reckon.Proofs.Blame
import Reckon.Proofs.Wording

/-!
# How much is underlined

A diagnostic underlines what its failure points at with one caret for every byte of the span
(`Diagnostic.carets_eq`). The row above it is counted in columns, one for every character. So the
underline is as wide as the word above it where every character of the word takes one byte, and too
wide where one takes more.

A failure of a session points at a lexeme of the statement that fails, unless a function that was
called has pointed it somewhere else (`Session.PointedInCall`). Lexemes stand in one row, and hold
no tab. Numerals, names and operators are plain ASCII; the one lexeme that is not is a single stray
character from beyond ASCII, and for that the reader refuses the statement. Of all failures these
are the ones that are underlined too far.

## Results

* `Diagnostic.carets_eq`          — one caret is drawn for every byte of a span.
* `Failure.underlined_of_covers`  — the word a failure points at, with its columns and its carets.
* `Session.underlines_word`       — for every failure of a session: the carets are as many as the
                                    columns, unless the reader has met a character from beyond
                                    ASCII.
-/

namespace Reckon

/-! ## Bytes and characters -/

/-- A character takes one byte exactly if it is ASCII. -/
theorem utf8Size_eq_one_iff_ascii {ch : Char} : ch.utf8Size = 1 ↔ ch.toNat < 128 := by
  rw [Char.utf8Size_eq_one_iff, UInt32.le_iff_toNat_le]
  exact Nat.lt_succ_iff.symm

/-- A text takes as many bytes as it has characters if all of them are ASCII. -/
theorem byteLength_eq_length_iff {cs : List Char} :
    byteLength cs = cs.length ↔ ∀ ch ∈ cs, ch.toNat < 128 := by
  induction cs with
  | nil => simp
  | cons c cs ih =>
    have hFirst := c.utf8Size_pos
    have hRest := length_le_byteLength cs
    have hSplit : byteLength (c :: cs) = (c :: cs).length ↔
        c.utf8Size = 1 ∧ byteLength cs = cs.length := by
      rw [byteLength_cons, List.length_cons]
      omega
    -- both hold of the first character and of the others, or fail for one of them
    rw [hSplit, ih, utf8Size_eq_one_iff_ascii, List.forall_mem_cons]

/-- What can be seen of ASCII is ASCII. -/
theorem toNat_lt_of_isVisible {ch : Char} (h : isVisible ch = true) : ch.toNat < 128 :=
  utf8Size_eq_one_iff_ascii.1 (utf8Size_of_isVisible h)

/-! ## Lexemes in a row -/

/-- The text can stand in a row, and is shown there as it is. -/
def IsPlain (cs : List Char) : Prop := ∀ ch ∈ cs, ch ≠ '\t' ∧ isInline ch

/-- A stray character is a lexeme by itself, and comes from beyond ASCII or not. -/
theorem classify_eq_invalid {c : Char} {rest : List Char} {s : Stray}
    (h : (classify c rest).1 = .invalid s) :
    (classify c rest).2 = 0 ∧ s = if c.toNat < 128 then .unknown else .unicode := by
  revert h
  fun_cases classify c rest with
  | case7 =>
    intro h
    exact ⟨rfl, (TokenKind.invalid.inj h).symm⟩
  | _ =>
    intro h
    cases h

/-- A lexeme of a statement stands in one row and has no tab in it. Its characters are ASCII, unless
it is a stray character from beyond. -/
theorem plain_of_classify {c : Char} {rest : List Char}
    (hSpace : (classify c rest).1.isSpace = false) :
    IsPlain (c :: rest.take (classify c rest).2) ∧
      ((∀ ch ∈ c :: rest.take (classify c rest).2, ch.toNat < 128) ∨
        (classify c rest).1 = .invalid .unicode ∧ rest.take (classify c rest).2 = []) := by
  have hSpells := spells_classify c rest
  have hVisible {ch : Char} (h : isVisible ch = true) : ch ≠ '\t' ∧ isInline ch :=
    ⟨ne_of_isVisible h (by decide), by rw [isInline_eq_not, isLineBreak_of_isVisible h]; rfl⟩
  by_cases hStray : ∃ s, (classify c rest).1 = .invalid s
  · obtain ⟨s, hKind⟩ := hStray
    obtain ⟨hAlone, hSort⟩ := classify_eq_invalid hKind
    rw [hKind] at hSpells
    rw [hAlone, List.take_zero] at hSpells ⊢
    obtain ⟨d, hd, hTab, hBreak⟩ := hSpells
    obtain rfl := List.singleton_inj.1 hd
    refine ⟨List.forall_mem_singleton.2 ⟨hTab, by rw [isInline_eq_not, hBreak]; rfl⟩, ?_⟩
    split at hSort
    · rename_i hLow
      exact .inl (List.forall_mem_singleton.2 hLow)
    · exact .inr ⟨by rw [hKind, hSort], rfl⟩
  · by_cases hStop : (classify c rest).1 = .operator .semicolon
    · -- a terminator is no part of a statement, but it is plain all the same
      rw [hStop] at hSpells
      have hText : c :: rest.take (classify c rest).2 = [';'] := hSpells
      rw [hText]
      exact ⟨List.forall_mem_singleton.2 ⟨by decide, rfl⟩,
        .inl (List.forall_mem_singleton.2 (by decide))⟩
    · have hAll := hSpells.isVisible (fun s h => by rw [h] at hSpace; cases hSpace)
        (not_exists.1 hStray) hStop
      exact ⟨fun ch hMem => hVisible (hAll ch hMem),
        .inl fun ch hMem => toNat_lt_of_isVisible (hAll ch hMem)⟩

/-! ## Columns of a word -/

section Word

variable {tabWidth : Nat} {script : String} {pre word post : List Char}

/-- Without tabs nothing is blanked. -/
theorem blanked_of_isPlain (h : IsPlain word) : blanked tabWidth word = word := by
  induction word with
  | nil => rfl
  | cons c word ih =>
    obtain ⟨hFirst, hRest⟩ := List.forall_mem_cons.1 h
    rw [← List.singleton_append, blanked_append, ih hRest, blanked, List.flatMap_singleton,
      if_neg hFirst.1]

variable (hScript : script.toList = pre ++ (word ++ post)) (hSome : word ≠ [])
  (hPlain : IsPlain word)

include hScript hSome hPlain

/-- Behind a word the script goes on in the same row, one column further for every character. -/
theorem positionAt_word :
    positionAt tabWidth script (byteLength pre + byteLength word) =
      (positionAt tabWidth script (byteLength pre)).right word.length := by
  have hInline : ∀ ch ∈ word, isLineBreak ch = false := fun ch hMem => by
    have hIn := (hPlain ch hMem).2
    rwa [isInline_eq_not, Bool.not_eq_true'] at hIn
  -- neither end of the word goes through a line break
  have hFront : CleanCut pre (word ++ post) := by
    rintro ⟨-, hNext⟩
    obtain ⟨c, cs, rfl⟩ := List.exists_cons_of_ne_nil hSome
    obtain rfl : c = '\n' := by simpa using hNext
    cases hInline '\n' (List.mem_cons_self ..)
  have hBehind : CleanCut (pre ++ word) post := by
    rintro ⟨hLast, -⟩
    rw [List.getLast?_append_of_ne_nil _ hSome] at hLast
    cases hInline '\r' (List.mem_of_getLast? hLast)
  have hScript' : script.toList = (pre ++ word) ++ post := by rw [hScript, List.append_assoc]
  rw [← byteLength_append, positionAt_of_toList tabWidth hScript' hBehind,
    positionAt_of_toList tabWidth hScript hFront, placeAfter_append_columns tabWidth hInline,
    columns_eq_length, blanked_of_isPlain hPlain]

/-- The row that is shown has the word in these columns. -/
theorem rowTextAt_word :
    ((rowTextAt tabWidth script (byteLength pre)).toList.drop
      ((positionAt tabWidth script (byteLength pre)).col - 1)).take word.length = word := by
  obtain ⟨c, cs, rfl⟩ := List.exists_cons_of_ne_nil hSome
  have hFirst : isInline c := (hPlain c (List.mem_cons_self ..)).2
  have hBehind : script.toList = pre ++ c :: (cs ++ post) := hScript
  obtain ⟨hPlace, hRow⟩ := place_of_inline tabWidth hBehind hFirst
  have hRest : ∀ ch ∈ cs, isInline ch := fun ch hMem => (hPlain ch (List.mem_cons_of_mem _ hMem)).2
  have hShown : blanked tabWidth [c] ++ blanked tabWidth (untilBreak (cs ++ post)) =
      (c :: cs) ++ blanked tabWidth (untilBreak post) := by
    unfold untilBreak
    -- the row ends behind the word, since there is no line break in it
    rw [List.takeWhile_append_of_pos hRest, ← blanked_append, List.singleton_append,
      ← List.cons_append, blanked_append, blanked_of_isPlain hPlain]
  rw [hRow, hPlace, Nat.add_sub_cancel, List.drop_left, hShown, List.take_left]

end Word

/-! ## Carets -/

namespace Diagnostic

/-- How many carets stand in the line below the row in question. -/
def carets (d : Diagnostic) (color : Bool) : Nat :=
  ((d.lines color)[4]?.map fun line => line.toList.count '^').getD 0

/-- Ink adds no carets. -/
theorem count_paint (ink : Ink) (color : Bool) (text : String) :
    (ink.paint color text).toList.count '^' = text.toList.count '^' := by
  cases color with
  | false => rfl
  | true => cases ink <;> simp [Ink.paint, Ink.code, String.toList_append]

/-- Below the row stand the carets of the excerpt and those of the message. -/
theorem count_underline (color : Bool) (x : Excerpt) (message : String) :
    (underline color x message).toList.count '^' = x.carets + message.toList.count '^' := by
  have hCarets : (repeated (x.place.col - 1) ' ' ++
      Ink.boldRed.paint color (repeated x.carets '^')).toList.count '^' = x.carets := by
    rw [String.toList_append, List.count_append, count_paint, toList_repeated, toList_repeated,
      List.count_replicate, List.count_replicate]
    simp
  unfold underline
  dsimp only
  split
  · rename_i hEmpty
    rw [hCarets, String.isEmpty_iff.1 hEmpty]
    rfl
  · rw [String.toList_append, String.toList_append, List.count_append, List.count_append, hCarets,
      count_paint]
    rfl

/-- **One caret is drawn for every byte**, and at least one, if the word on the label has none. -/
theorem carets_eq {d : Diagnostic} {label : Label} {script : String} (hLabel : d.label = some label)
    (hSource : d.source = some script) (hWord : label.message.toList.count '^' = 0) (color : Bool) :
    d.carets color = max label.span.length 1 := by
  have hLine : (d.lines color)[4]? = some
      (repeated (toString (positionAt d.tabWidth script label.span.start).row).length ' ' ++ " " ++
        Ink.cyan.paint color "|" ++ " " ++
        underline color
          { place := positionAt d.tabWidth script label.span.start
            row := rowTextAt d.tabWidth script label.span.start
            carets := max label.span.length 1 } label.message) := by
    -- above it stand the heading, the place, an empty line of the frame and the row
    unfold lines location? excerpt?
    simp only [hLabel, hSource, Option.map_some]
    rfl
  unfold carets
  rw [hLine, Option.map_some, Option.getD_some]
  simp only [String.toList_append, List.count_append, count_paint, count_underline, hWord,
    toList_repeated]
  simp [List.count_replicate]

end Diagnostic

/-- No word on a label has a caret in it. -/
theorem Fault.count_label (f : Fault) : f.label.toList.count '^' = 0 := by
  unfold Fault.label
  split <;> decide

/-! ## What a failure points at -/

/-- How a failure that points at a word of a script is underlined. -/
structure Failure.Underlined (e : Failure) (tabWidth : Nat) (script : String) (span : Span)
    (word : List Char) : Prop where
  points : e.span = some span
  selects : span.text script = String.ofList word
  /-- The word takes a column for each of its characters. -/
  columns : positionAt tabWidth script span.stop =
    (positionAt tabWidth script span.start).right word.length
  /-- It is what the row that is shown has in these columns. -/
  echoed : ((rowTextAt tabWidth script span.start).toList.drop
    ((positionAt tabWidth script span.start).col - 1)).take word.length = word
  /-- It is underlined with a caret for each of its bytes. -/
  carets : ∀ color, (Diagnostic.ofFailure e script tabWidth).carets color = byteLength word

variable {e : Failure} {tabWidth : Nat} {script : String} {span : Span} {word : List Char}

/-- **A failure that points at a plain word is underlined with it.** -/
theorem Failure.underlined_of_covers (hSpan : e.span = some span)
    (hCovers : span.Covers script word) (hSome : word ≠ []) (hPlain : IsPlain word) :
    e.Underlined tabWidth script span word := by
  have hText := hCovers.text
  obtain ⟨pre, post, hScript, hStart, hStop⟩ := hCovers
  refine ⟨hSpan, hText, ?_, ?_, fun color => ?_⟩
  · rw [← hStop, ← hStart]
    exact positionAt_word hScript hSome hPlain
  · rw [← hStart]
    exact rowTextAt_word hScript hSome hPlain
  · have hBytes : byteLength word ≠ 0 := mt eq_nil_of_byteLength hSome
    have hLabel : (Diagnostic.ofFailure e script tabWidth).label = some ⟨span, e.fault.label⟩ := by
      unfold Diagnostic.ofFailure
      rw [hSpan, Option.map_some]
    rw [Diagnostic.carets_eq hLabel rfl e.fault.count_label color]
    unfold Span.length
    -- a word that has characters takes at least one byte
    dsimp only
    omega

/-- The underline is as wide as the word exactly where all characters of the word are ASCII. -/
theorem Failure.Underlined.carets_eq_columns_iff (h : e.Underlined tabWidth script span word)
    (color : Bool) :
    (Diagnostic.ofFailure e script tabWidth).carets color =
        (positionAt tabWidth script span.stop).col - (positionAt tabWidth script span.start).col ↔
      ∀ ch ∈ word, ch.toNat < 128 := by
  have hWidth : (positionAt tabWidth script span.stop).col -
      (positionAt tabWidth script span.start).col = word.length := by
    rw [h.columns]
    exact Nat.add_sub_cancel_left _ _
  rw [h.carets, hWidth, byteLength_eq_length_iff]

/-! ## Failures of sessions -/

/-- A fault is found by looking at the token. -/
theorem exists_fault_of_mem_allFaults {options : ReaderOptions} {before ts : List Token}
    {fault : Token × SyntaxFault} (h : fault ∈ allFaults options before ts) :
    ∃ front, fault? options front fault.1 = some fault.2 := by
  induction ts generalizing before with
  | nil => cases h
  | cons t ts ih =>
    rw [allFaults, List.mem_append, Option.mem_toList] at h
    rcases h with hFirst | hRest
    · obtain ⟨cause, hCause, rfl⟩ := Option.map_eq_some_iff.1 hFirst
      exact ⟨before, hCause⟩
    · exact ih hRest

/-- A stray character means the same wherever it stands. -/
theorem mem_signs_of_stray {previous : Option Token} {ts : List Token} {t : Token} {s : Stray}
    (ht : t ∈ ts) (hKind : t.kind = .invalid s) : t ∈ signs previous ts := by
  induction ts generalizing previous with
  | nil => cases ht
  | cons u ts ih =>
    rcases List.mem_cons.1 ht with rfl | hRest
    · have hSame : signed previous t = t := signed_of_not_operator previous (by rw [hKind]; rfl)
      rw [signs, hSame]
      exact List.mem_cons_self ..
    · exact List.mem_cons_of_mem _ (ih hRest)

namespace Session

variable {c d : Session} {p : Piece} {t : Token} {s : Stray}

/-- A statement with a stray character in it is not read. -/
theorem Located.not_read_of_stray (h : c.Located) (hp : c.statement? = some p) (ht : t ∈ p.tokens)
    (hKind : t.kind = .invalid s) : c.forward ≠ (.ok true, d) := by
  intro hRead
  obtain ⟨-, hWritten, -⟩ := h.tokens_of_forward hRead
  rcases h.statement with ⟨hNone, -⟩ | ⟨q, hq, ⟨first, more, -, hRefused⟩ | ⟨-, hTokens⟩⟩
  · rw [hRead] at hNone
    cases hNone
  · rw [hRead] at hRefused
    cases hRefused
  · obtain rfl : p = q := Option.some.inj (hp.symm.trans hq)
    rw [hRead] at hTokens
    -- it would be among the tokens at hand, which can all be written
    have hMem : t ∈ d.tokens := hTokens ▸ mem_signs_of_stray ht hKind
    have hOf := hWritten t hMem
    rw [hKind] at hOf
    cases hOf

/-- **What a stray character from beyond ASCII is to blame for** is that the reader refuses the
statement for it. -/
theorem Located.refused_of_stray (h : c.Located) (hp : c.statement? = some p) (ht : t ∈ p.tokens)
    (hKind : t.kind = .invalid .unicode) (hBlames : c.Blames p e t) :
    c.forward.1 = .error e ∧ e.fault = SyntaxFault.unicodeChar := by
  cases hBlames with
  | @unread cause more hFaults hCause hRefused =>
    have hFirst : (t, cause) ∈ allFaults c.options [] p.tokens := by
      rw [hFaults]
      exact List.mem_cons_self ..
    obtain ⟨front, hFault⟩ := exists_fault_of_mem_allFaults hFirst
    unfold fault? at hFault
    rw [hKind] at hFault
    obtain rfl : SyntaxFault.unicodeChar = cause := Option.some.inj hFault
    exact ⟨hRefused, hCause⟩
  | unbuilt hRead => exact absurd hRead (h.not_read_of_stray hp ht hKind)
  | unfinished hRead => exact absurd hRead (h.not_read_of_stray hp ht hKind)

/-- A failure that points at a token of the next statement is underlined there. -/
theorem Located.exists_underlined (h : c.Located) (hPinned : c.Pinned e) (tabWidth : Nat) :
    ∃ span word, e.Underlined tabWidth c.script span word ∧
      ((∀ ch ∈ word, ch.toNat < 128) ∨
        c.forward.1 = .error e ∧ e.fault = SyntaxFault.unicodeChar ∧ word.length = 1) := by
  obtain ⟨p, t, hp, ht, hBlames, hSpan, -⟩ := hPinned
  obtain ⟨hSpace, ch, rest, hKind, hCovers⟩ := h.exists_lexeme (List.mem_of_find?_eq_some hp) ht
  rw [hKind] at hSpace
  obtain ⟨hPlain, hSort⟩ := plain_of_classify hSpace
  refine ⟨t.span, _, Failure.underlined_of_covers hSpan hCovers (List.cons_ne_nil _ _) hPlain, ?_⟩
  rcases hSort with hAscii | ⟨hStray, hAlone⟩
  · exact .inl hAscii
  · obtain ⟨hRefused, hFault⟩ := h.refused_of_stray hp ht (hKind.trans hStray) hBlames
    exact .inr ⟨hRefused, hFault, by rw [hAlone]; rfl⟩

/-- **What a failure points at is underlined with as many carets as it takes columns, if it is
ASCII**, and it always is, unless the reader refuses a stray character. Whatever functions have been
bound and whatever has been done with the session before: when a text is evaluated and a failure
comes of it, some of its statements have been run to their ends, and the next one fails. Unless a
function that is called points the failure somewhere, it points at a word that stands in one row,
takes a column for each of its characters and is underlined with a caret for each of its bytes. -/
theorem underlines_word (options : ReaderOptions) (entropy : Entropy) (fs : List Function)
    (ops : List Operation) (text : String) {e : Failure}
    (hFails : ((((bare options entropy).bindAll fs).after ops).evaluate text).1 = .error e)
    (tabWidth : Nat) :
    let c := ((bare options entropy).bindAll fs).after ops
    let script := (c.evaluate text).2.script
    ∃ d, Relation.ReflTransGen Completes (c.load text) d ∧
      (d.PointedByCall e ∨ ∃ span word, e.Underlined tabWidth script span word ∧
        (∀ color, (Diagnostic.ofFailure e script tabWidth).carets color =
            (positionAt tabWidth script span.stop).col -
              (positionAt tabWidth script span.start).col ↔ ∀ ch ∈ word, ch.toNat < 128) ∧
        ((∀ ch ∈ word, ch.toNat < 128) ∨
          d.forward.1 = .error e ∧ e.fault = SyntaxFault.unicodeChar ∧ word.length = 1)) := by
  intro c script
  have hLocated : (c.load text).Located := (ready_history options entropy fs ops).load text
  rw [(evaluate_eq c text).1] at hFails
  obtain ⟨d, hReach, hHere, hSame, hWhere⟩ := hLocated.pinned_or_pointed hFails
  -- the text is loaded behind what was there, and the statements are run in that script
  have hScript : d.script = script := hSame.trans (evaluate_script c text).symm
  refine ⟨d, hReach, hWhere.symm.imp id fun hPinned => ?_⟩
  obtain ⟨span, word, hUnder, hSort⟩ := hHere.exists_underlined hPinned tabWidth
  rw [hScript] at hUnder
  exact ⟨span, word, hUnder, hUnder.carets_eq_columns_iff, hSort⟩

/-- Without functions there is none that could point a failure anywhere. -/
theorem not_pointedByCall_bare {options : ReaderOptions} {entropy : Entropy} {text : String}
    (hReach : Relation.ReflTransGen Completes ((bare options entropy).load text) d) :
    ¬ d.PointedByCall e := by
  have hBare : (bare options entropy).store.Within Function.Silent := Store.within_empty entropy
  have hLoaded : ((Operation.load text).apply (bare options entropy)).store.Within
      Function.Silent := within_apply hBare Function.inherited_silent trivial
  exact not_pointedByCall (within_of_completes hLoaded Function.inherited_silent hReach)

/-- Two rows. In the second one a number is to be shifted in its place, behind a tab. -/
def shiftedNumber : String := "1;\r\n\t2 <<= 2"

/-- The operator has three characters, which take three columns of the second row, and it is
underlined with three carets. -/
theorem underlines_word_shiftedNumber :
    let c := bare {} (.seeded 0)
    let e : Failure := { fault := RuntimeFault.assignLeftValue, span := some ⟨7, 10⟩ }
    let script := (c.evaluate shiftedNumber).2.script
    (c.evaluate shiftedNumber).1 = .error e ∧
      (∃ word, e.Underlined 4 script ⟨7, 10⟩ word ∧ ∀ ch ∈ word, ch.toNat < 128) ∧
      positionAt 4 script 7 = ⟨2, 7⟩ ∧
      ∀ color, (Diagnostic.ofFailure e script 4).carets color = 3 := by
  intro c e script
  have hFails : failure? (c.evaluate shiftedNumber).1 = some e := by decide +kernel
  rw [failure?_eq_some_iff] at hFails
  have hPlace : positionAt 4 script 7 = ⟨2, 7⟩ := by decide +kernel
  have hWidth : (positionAt 4 script 10).col - (positionAt 4 script 7).col = 3 := by decide +kernel
  obtain ⟨d, hReach, hWhere⟩ := underlines_word {} (.seeded 0) [] [] shiftedNumber hFails 4
  obtain ⟨span, word, hUnder, hCarets, hSort⟩ :=
    hWhere.resolve_left (not_pointedByCall_bare hReach)
  obtain rfl : ⟨7, 10⟩ = span := Option.some.inj hUnder.points
  have hAscii : ∀ ch ∈ word, ch.toNat < 128 := by
    rcases hSort with hAll | ⟨-, hFault, -⟩
    · exact hAll
    · cases hFault
  exact ⟨hFails, ⟨word, hUnder, hAscii⟩, hPlace,
    fun color => ((hCarets color).2 hAscii).trans hWidth⟩

/-- A stray character from beyond ASCII is refused by the reader, takes one column and is underlined
with two carets. -/
theorem not_underlined_to_width :
    let c := bare {} (.seeded 0)
    let r := c.evaluate "é"
    let e : Failure :=
      { fault := SyntaxFault.unicodeChar, span := some ⟨0, 2⟩, position := some ⟨1, 1⟩ }
    r.1 = .error e ∧
      (∀ d, Relation.ReflTransGen Completes (c.load "é") d → ¬ d.PointedByCall e) ∧
      (Diagnostic.ofFailure e r.2.script r.2.options.tabWidth).carets false = 2 ∧
      (positionAt r.2.options.tabWidth r.2.script 2).col -
        (positionAt r.2.options.tabWidth r.2.script 0).col = 1 := by
  intro c r e
  have hFails : failure? r.1 = some e := by decide +kernel
  rw [failure?_eq_some_iff] at hFails
  exact ⟨hFails, fun d hReach => not_pointedByCall_bare hReach, by decide +kernel,
    by decide +kernel⟩

end Session

end Reckon
