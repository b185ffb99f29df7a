import Reckon.Proofs.Reading
import Reckon.Proofs.Sessions

/-!
# Rows and columns

The row and column of an offset can be found in two ways: by looking at the whole script, as
`positionAt` does, and by counting along as the script is read, as a reader does. Both come to the
row and column behind the characters in front of the offset (`placeAfter`). For the script this
holds at every offset that does not lie between the two halves of a `\r\n`
(`positionAt_of_toList`), and a reader never stops there, since it passes over line breaks in whole
runs (`Reader.maintains_located`).

A session goes on with the row and column that it has come to, also when text is added to its script
in between. Main result: `Reader.position_eq_positionAt`.
-/

namespace Reckon

/-! ## Rows of a text -/

/-- The cut between the two texts does not go through a `\r\n`. -/
def CleanCut (pre post : List Char) : Prop :=
  ¬ (pre.getLast? = some '\r' ∧ post.head? = some '\n')

/-- A character that begins no `\r\n` makes a row of its own or goes on with the next one. -/
theorem rowsOf_cons {c : Char} {cs : List Char} (h : ¬ (c = '\r' ∧ cs.head? = some '\n')) :
    rowsOf (c :: cs) = if isLineBreak c then [c] :: rowsOf cs else consRow c (rowsOf cs) := by
  rw [rowsOf]
  rintro ds rfl rfl
  exact h ⟨rfl, rfl⟩

/-- What is left of a clean cut behind the first character, which begins no `\r\n` of its own. -/
theorem CleanCut.tail {c : Char} {cs post : List Char} (h : CleanCut (c :: cs) post)
    (hOther : ∀ ds, c = '\r' → cs = '\n' :: ds → False) :
    CleanCut cs post ∧ ¬ (c = '\r' ∧ (cs ++ post).head? = some '\n') := by
  cases cs with
  | nil =>
    refine ⟨by simp [CleanCut], ?_⟩
    rintro ⟨rfl, hNext⟩
    exact h ⟨rfl, hNext⟩
  | cons d cs =>
    refine ⟨by simpa [CleanCut] using h, ?_⟩
    rintro ⟨rfl, hNext⟩
    obtain rfl : d = '\n' := by simpa using hNext
    exact hOther cs rfl rfl

/-- The rows make up the text. -/
theorem flatten_rowsOf (cs : List Char) : (rowsOf cs).flatten = cs := by
  fun_induction rowsOf cs with
  | case1 => rfl
  | case2 cs ih => rw [List.flatten_cons, ih]; rfl
  | case3 c cs _ _ ih => rw [List.flatten_cons, ih]; rfl
  | case4 c cs _ _ ih =>
    cases hRows : rowsOf cs with
    | nil => rw [hRows] at ih; rw [← ih]; rfl
    | cons row rows => rw [hRows] at ih; rw [← ih]; rfl

/-- Rows put together, the last of them by itself, are the text. -/
theorem eq_of_rowsOf {cs last : List Char} {before : List (List Char)}
    (h : rowsOf cs = before ++ [last]) : cs = before.flatten ++ last := by
  rw [← flatten_rowsOf cs, h, List.flatten_append]
  simp

/-- Only a text without characters has an empty first row, and then no other row. -/
theorem rowsOf_eq_nil_cons {cs : List Char} {rows : List (List Char)}
    (h : rowsOf cs = [] :: rows) : rows = [] := by
  fun_induction rowsOf cs with
  | case1 => exact (List.cons.inj h).2.symm
  | case2 | case3 => exact absurd (List.cons.inj h).1 (List.cons_ne_nil _ _)
  | case4 c cs =>
    cases hRows : rowsOf cs with
    | nil => rw [hRows] at h; exact absurd (List.cons.inj h).1 (List.cons_ne_nil _ _)
    | cons row rows => rw [hRows] at h; exact absurd (List.cons.inj h).1 (List.cons_ne_nil _ _)

/-- Every text has a first row, if an empty one. -/
theorem exists_rowsOf_eq_cons (cs : List Char) : ∃ row rows, rowsOf cs = row :: rows := by
  fun_cases rowsOf cs with
  | case1 | case2 | case3 => exact ⟨_, _, rfl⟩
  | case4 c cs => cases hRows : rowsOf cs <;> exact ⟨_, _, rfl⟩

/-- **Texts put together:** the last row of the first one goes on with the first row of the
other one. -/
theorem exists_rowsOf_append {pre post : List Char} (hCut : CleanCut pre post) :
    ∃ before last next behind, rowsOf pre = before ++ [last] ∧ rowsOf post = next :: behind ∧
      rowsOf (pre ++ post) = before ++ (last ++ next) :: behind := by
  fun_induction rowsOf pre with
  | case1 =>
    obtain ⟨next, behind, hPost⟩ := exists_rowsOf_eq_cons post
    exact ⟨[], [], next, behind, rfl, hPost, hPost⟩
  | case2 cs ih =>
    -- a `\r\n` makes a row of its own
    have hRest : CleanCut cs post := by
      cases cs with
      | nil => simp [CleanCut]
      | cons c cs => simpa [CleanCut] using hCut
    obtain ⟨before, last, next, behind, hPre, hPost, hAll⟩ := ih hRest
    refine ⟨['\r', '\n'] :: before, last, next, behind, by rw [hPre]; rfl, hPost, ?_⟩
    show rowsOf ('\r' :: '\n' :: (cs ++ post)) = _
    rw [rowsOf, hAll]
    rfl
  | case3 c cs hOther hBreak ih =>
    -- any other line break does so, too, since no `\n` follows a `\r` across the cut
    obtain ⟨hRest, hPair⟩ := hCut.tail hOther
    obtain ⟨before, last, next, behind, hPre, hPost, hAll⟩ := ih hRest
    refine ⟨[c] :: before, last, next, behind, by rw [hPre]; rfl, hPost, ?_⟩
    rw [List.cons_append, rowsOf_cons hPair, if_pos hBreak, hAll]
    rfl
  | case4 c cs hOther hBreak ih =>
    obtain ⟨hRest, hPair⟩ := hCut.tail hOther
    obtain ⟨before, last, next, behind, hPre, hPost, hAll⟩ := ih hRest
    rw [List.cons_append, rowsOf_cons hPair, if_neg hBreak, hAll, hPre]
    -- the character goes in front of the first row, which may be the last one
    cases before with
    | nil => exact ⟨[], c :: last, next, behind, rfl, hPost, rfl⟩
    | cons row before => exact ⟨(c :: row) :: before, last, next, behind, rfl, hPost, rfl⟩

/-- A text without line breaks is one row. -/
theorem rowsOf_of_no_break {cs : List Char} (h : ∀ d ∈ cs, isLineBreak d = false) :
    rowsOf cs = [cs] := by
  induction cs with
  | nil => rfl
  | cons c cs ih =>
    obtain ⟨hFirst, hRest⟩ := List.forall_mem_cons.1 h
    have hReturn : c ≠ '\r' := by
      rintro rfl
      cases hFirst
    rw [rowsOf_cons fun hPair => hReturn hPair.1, if_neg (Bool.eq_false_iff.1 hFirst), ih hRest]
    rfl

/-- Behind line breaks the last row is empty. -/
theorem exists_rowsOf_of_breaks {cs : List Char} (hSome : cs ≠ [])
    (h : ∀ d ∈ cs, isLineBreak d = true) : ∃ row rows, rowsOf cs = row :: (rows ++ [[]]) := by
  fun_induction rowsOf cs with
  | case1 => exact absurd rfl hSome
  | case2 cs ih =>
    rcases List.eq_nil_or_concat cs with rfl | ⟨_, _, hMore⟩
    · exact ⟨['\r', '\n'], [], rfl⟩
    · have hNext := ih (by simp [hMore]) fun d hd => h d (by simp [hd])
      obtain ⟨row, rows, hRows⟩ := hNext
      exact ⟨['\r', '\n'], row :: rows, by rw [hRows]; rfl⟩
  | case3 c cs hOther hBreak ih =>
    cases cs with
    | nil => exact ⟨[c], [], rfl⟩
    | cons d cs =>
      obtain ⟨row, rows, hRows⟩ := ih (List.cons_ne_nil _ _) (List.forall_mem_cons.1 h).2
      exact ⟨[c], row :: rows, by rw [hRows]; rfl⟩
  | case4 c cs hOther hBreak ih => exact absurd (h c (List.mem_cons_self ..)) hBreak

/-! ## Finding an offset -/

/-- Behind some rows and the beginning of the next one stands the place in that row. -/
theorem placeIn_append (before : List (List Char)) (last next : List Char)
    {behind : List (List Char)} (hNext : next = [] → behind = []) :
    placeIn (before ++ (last ++ next) :: behind) (byteLength (before.flatten ++ last)) =
      ⟨before.length, last ++ next, byteLength last⟩ := by
  induction before with
  | nil =>
    rw [List.nil_append, List.flatten_nil, List.nil_append]
    cases behind with
    | nil => rfl
    | cons row rows =>
      -- the row goes on, so the place lies inside it
      have hInside : byteLength last < byteLength (last ++ next) := by
        have hMore : byteLength next ≠ 0 := fun hZero => by
          cases hNext (eq_nil_of_byteLength hZero)
        rw [byteLength_append]
        omega
      rw [placeIn, if_pos hInside]
      · rfl
      · rintro ⟨⟩
  | cons row before ih =>
    -- the first row is passed over
    rw [List.cons_append, List.flatten_cons, List.append_assoc, byteLength_append]
    rw [placeIn, if_neg (by omega), Nat.add_sub_cancel_left, ih]
    · rfl
    · simp

/-- The characters within the bytes of a beginning are those of the beginning. -/
theorem charsWithin_append (cs ds : List Char) :
    charsWithin (cs ++ ds) (byteLength cs) = some cs := by
  induction cs with
  | nil => cases ds <;> rfl
  | cons c cs ih =>
    have hPos := c.utf8Size_pos
    obtain ⟨n, hn⟩ : ∃ n, byteLength (c :: cs) = n + 1 :=
      ⟨byteLength (c :: cs) - 1, by rw [byteLength_cons]; omega⟩
    -- the first character takes some of the bytes, and the others take the rest
    rw [List.cons_append, hn, charsWithin, ← hn, byteLength_cons, if_pos (by omega),
      Nat.add_sub_cancel_left, ih]
    · rfl
    · rintro ⟨⟩

/-- More text behind it does not change the beginning of a row. -/
theorem charsWithin_longer {cs : List Char} {k : Nat} (hLe : k ≤ byteLength cs) (ds : List Char) :
    charsWithin (cs ++ ds) k = charsWithin cs k := by
  induction cs generalizing k with
  | nil =>
    obtain rfl : k = 0 := Nat.le_zero.1 hLe
    cases ds <;> rfl
  | cons c cs ih =>
    cases k with
    | zero => rfl
    | succ k =>
      rw [byteLength_cons] at hLe
      rw [List.cons_append, charsWithin, charsWithin, ih (by omega)]
      · rintro ⟨⟩
      · rintro ⟨⟩

/-- More text behind the rows does not change the place of an offset inside them. -/
theorem placeIn_longer (before : List (List Char)) (last : List Char) {next : List Char}
    (hNext : next ≠ []) (behind : List (List Char)) {k : Nat}
    (hLe : k ≤ byteLength (before.flatten ++ last)) :
    (placeIn (before ++ (last ++ next) :: behind) k).before =
        (placeIn (before ++ [last]) k).before ∧
      charsWithin (placeIn (before ++ (last ++ next) :: behind) k).row
        (placeIn (before ++ (last ++ next) :: behind) k).bytes =
      charsWithin (placeIn (before ++ [last]) k).row (placeIn (before ++ [last]) k).bytes := by
  induction before generalizing k with
  | nil =>
    -- the last row is looked at in either case, and the offset lies in it
    have hHere : placeIn ([] ++ (last ++ next) :: behind) k = ⟨0, last ++ next, k⟩ := by
      cases behind with
      | nil => rfl
      | cons row rows =>
        have hMore : byteLength next ≠ 0 := fun hZero => hNext (eq_nil_of_byteLength hZero)
        rw [List.nil_append, placeIn, if_pos]
        · rw [byteLength_append]
          rw [List.flatten_nil, List.nil_append] at hLe
          omega
        · rintro ⟨⟩
    rw [hHere]
    exact ⟨rfl, charsWithin_longer hLe next⟩
  | cons row before ih =>
    rw [List.flatten_cons, List.append_assoc, byteLength_append] at hLe
    rw [List.cons_append, List.cons_append, placeIn, placeIn]
    · by_cases hRow : k < byteLength row
      · rw [if_pos hRow, if_pos hRow]
        exact ⟨rfl, rfl⟩
      · -- the offset lies in a later row in either case
        obtain ⟨hBefore, hChars⟩ := ih (k := k - byteLength row) (by omega)
        rw [if_neg hRow, if_neg hRow]
        exact ⟨congrArg (· + 1) hBefore, hChars⟩
    · simp
    · simp

/-- **Another statement behind the script changes no row and column in it.** -/
theorem positionAt_append (tabWidth : Nat) {script : String} {k : Nat}
    (hLe : k ≤ script.utf8ByteSize) (more : String) :
    positionAt tabWidth (script ++ ";" ++ more) k = positionAt tabWidth script k := by
  have hCut : CleanCut script.toList (';' :: more.toList) := by
    rintro ⟨-, hNext⟩
    cases hNext
  obtain ⟨before, last, next, behind, hPre, hPost, hAll⟩ := exists_rowsOf_append hCut
  -- the terminator goes on with the last row, so an offset at the end of it is still in that row
  have hNext : next ≠ [] := by
    rintro rfl
    rw [rowsOf_eq_nil_cons hPost] at hPost
    have hFlat := flatten_rowsOf (';' :: more.toList)
    rw [hPost] at hFlat
    cases hFlat
  rw [utf8ByteSize_eq, eq_of_rowsOf hPre] at hLe
  obtain ⟨hBefore, hChars⟩ := placeIn_longer before last hNext behind hLe
  have hScript : (script ++ ";" ++ more).toList = script.toList ++ ';' :: more.toList := by
    rw [String.toList_append, String.toList_append]
    simp
  unfold positionAt
  dsimp only
  rw [hScript, hAll, hPre, hBefore, hChars]

/-- The row and column behind a text. -/
def placeAfter (tabWidth : Nat) (cs : List Char) : Position :=
  ⟨(rowsOf cs).length, columns tabWidth ((rowsOf cs).getLastD []) + 1⟩

/-- Behind a text one stands in its last row. -/
theorem placeAfter_eq {tabWidth : Nat} {cs : List Char} {before : List (List Char)}
    {last : List Char} (h : rowsOf cs = before ++ [last]) :
    placeAfter tabWidth cs = ⟨before.length + 1, columns tabWidth last + 1⟩ := by
  unfold placeAfter
  rw [h]
  simp

/-- **The row and column of an offset are those behind the text in front of it**, unless the offset
lies inside a line break. -/
theorem positionAt_of_toList (tabWidth : Nat) {script : String} {pre post : List Char}
    (hScript : script.toList = pre ++ post) (hCut : CleanCut pre post) :
    positionAt tabWidth script (byteLength pre) = placeAfter tabWidth pre := by
  obtain ⟨before, last, next, behind, hPre, hPost, hAll⟩ := exists_rowsOf_append hCut
  have hBytes : pre = before.flatten ++ last := eq_of_rowsOf hPre
  have hNext : next = [] → behind = [] := by
    rintro rfl
    exact rowsOf_eq_nil_cons hPost
  unfold positionAt
  rw [placeAfter_eq hPre, hScript, hAll, hBytes, placeIn_append before last next hNext]
  dsimp only
  rw [charsWithin_append]
  rfl

/-! ## Counting along -/

/-- Columns of two texts add up. -/
theorem columns_append (tabWidth : Nat) (cs ds : List Char) :
    columns tabWidth (cs ++ ds) = columns tabWidth cs + columns tabWidth ds := by
  induction cs with
  | nil => simp [columns]
  | cons c cs ih =>
    show columnWidth tabWidth c + columns tabWidth (cs ++ ds) = _
    rw [ih, ← Nat.add_assoc]
    rfl

/-- Characters of one width. -/
theorem columns_of_width {tabWidth width : Nat} {cs : List Char}
    (h : ∀ d ∈ cs, columnWidth tabWidth d = width) :
    columns tabWidth cs = cs.length * width := by
  induction cs with
  | nil => simp [columns]
  | cons c cs ih =>
    obtain ⟨hFirst, hRest⟩ := List.forall_mem_cons.1 h
    show columnWidth tabWidth c + columns tabWidth cs = _
    rw [hFirst, ih hRest, List.length_cons, Nat.succ_mul, Nat.add_comm]

/-- Text without line breaks goes on in the same row. -/
theorem placeAfter_append_columns (tabWidth : Nat) {pre cs : List Char}
    (h : ∀ d ∈ cs, isLineBreak d = false) :
    placeAfter tabWidth (pre ++ cs) = (placeAfter tabWidth pre).right (columns tabWidth cs) := by
  -- the text does not begin with the second half of a line break
  have hCut : CleanCut pre cs := by
    rintro ⟨-, hNext⟩
    have hFeed := h '\n' (List.mem_of_mem_head? hNext)
    cases hFeed
  obtain ⟨before, last, next, behind, hPre, hPost, hAll⟩ := exists_rowsOf_append hCut
  rw [rowsOf_of_no_break h] at hPost
  obtain ⟨rfl, rfl⟩ := List.cons.inj hPost
  rw [placeAfter_eq hPre, placeAfter_eq hAll, columns_append]
  unfold Position.right
  dsimp only
  rw [Nat.add_right_comm]

/-- Line breaks lead to the start of a later row. -/
theorem placeAfter_append_breaks (tabWidth : Nat) {pre cs : List Char} (hSome : cs ≠ [])
    (h : ∀ d ∈ cs, isLineBreak d = true) (hCut : CleanCut pre cs) :
    placeAfter tabWidth (pre ++ cs) =
      ⟨(placeAfter tabWidth pre).row + ((rowsOf cs).length - 1), 1⟩ := by
  obtain ⟨before, last, next, behind, hPre, hPost, hAll⟩ := exists_rowsOf_append hCut
  obtain ⟨row, rows, hRows⟩ := exists_rowsOf_of_breaks hSome h
  rw [hRows] at hPost
  obtain ⟨rfl, rfl⟩ := List.cons.inj hPost
  -- the row behind the last line break has nothing in it yet
  have hLast : rowsOf (pre ++ cs) = (before ++ (last ++ row) :: rows) ++ [[]] := by
    rw [hAll, List.append_assoc, List.cons_append]
  rw [placeAfter_eq hPre, placeAfter_eq hLast, hRows]
  simp [columns]
  omega

/-! ## A reader that counts along -/

/-- The failure is noticed at a lexeme, and tells the row and column at which the lexeme begins. -/
def Failure.Located (e : Failure) (tabWidth : Nat) (script : String) : Prop :=
  ∃ span, e.span = some span ∧ e.position = some (positionAt tabWidth script span.start)

namespace Reader

variable {r : Reader} {script : String}

/-- The reader stands behind a part of the script, at the row and column behind it. -/
def Located (r : Reader) (script : String) : Prop :=
  ∃ pre, script.toList = pre ++ r.unread ∧ byteLength pre = r.cursor ∧ CleanCut pre r.unread ∧
    r.position = placeAfter r.options.tabWidth pre

/-- A reader that counts along is where the script says it is. -/
theorem Located.position_eq (h : r.Located script) :
    r.position = positionAt r.options.tabWidth script r.cursor := by
  obtain ⟨pre, hScript, hBytes, hCut, hPosition⟩ := h
  rw [hPosition, ← hBytes, positionAt_of_toList _ hScript hCut]

/-- A reader begins at the first row and column. -/
theorem located_new (script : String) (options : ReaderOptions) :
    (Reader.new script options).Located script :=
  ⟨[], (charsFrom_zero script).symm, rfl, by simp [CleanCut], rfl⟩

theorem take_options (r : Reader) (cut : Cut) : (r.take cut).2.options = r.options := by
  unfold take
  split <;> rfl

/-- Counting a lexeme is going through its characters. -/
theorem position_take {pre : List Char} {cut : Cut} (hSpells : cut.token.kind.Spells cut.text)
    (hSome : cut.text ≠ []) (hLength : cut.token.span.length = byteLength cut.text)
    (hCut : CleanCut pre cut.text) (hPosition : r.position = placeAfter r.options.tabWidth pre) :
    (r.take cut).2.position = placeAfter r.options.tabWidth (pre ++ cut.text) := by
  -- a lexeme without line breaks whose characters are equally wide
  have hRow (width : Nat) (hBreaks : ∀ d ∈ cut.text, isLineBreak d = false)
      (hWidth : ∀ d ∈ cut.text, columnWidth r.options.tabWidth d = width) :
      placeAfter r.options.tabWidth (pre ++ cut.text) =
        r.position.right (cut.text.length * width) := by
    rw [placeAfter_append_columns _ hBreaks, columns_of_width hWidth, hPosition]
  have hOneWide {d : Char} (hTab : d ≠ '\t') : columnWidth r.options.tabWidth d = 1 := by
    rw [columnWidth, if_neg (by simpa using hTab)]
  unfold take
  split
  · rename_i s hKind
    rw [hKind] at hSpells
    cases s with
    | blank =>
      have hBlank : ∀ d ∈ cut.text, d = ' ' := hSpells
      rw [hRow 1 (fun d hd => by rw [hBlank d hd]; rfl) (fun d hd => by rw [hBlank d hd]; rfl),
        Nat.mul_one]
      rfl
    | tab =>
      have hTab : ∀ d ∈ cut.text, d = '\t' := hSpells
      rw [hRow r.options.tabWidth (fun d hd => by rw [hTab d hd]; rfl)
        (fun d hd => by rw [hTab d hd]; rfl)]
      rfl
    | newline =>
      -- a reader counts the rows of the run by themselves
      have hBreaks : ∀ d ∈ cut.text, isLineBreak d = true := hSpells
      rw [placeAfter_append_breaks _ hSome hBreaks hCut, ← hPosition]
      rfl
  · -- a stray character takes one column, however many bytes it has
    rename_i s hKind
    rw [hKind] at hSpells
    obtain ⟨d, hText, hTab, hBreak⟩ := hSpells
    rw [hRow 1 (by simpa [hText] using hBreak) (by simpa [hText] using hOneWide hTab), hText]
    rfl
  · rename_i hKind
    rw [hKind] at hSpells
    have hText : cut.text = [';'] := hSpells
    have hNoBreak : ∀ d ∈ cut.text, isLineBreak d = false := by
      rw [hText]
      exact List.forall_mem_singleton.2 rfl
    rw [hRow 1 hNoBreak (by rw [hText]; simp [columnWidth]), hText]
    rfl
  · -- the characters of a number, a name or an operator take a byte and a column each
    rename_i hSpace hStray hStop
    have hVisible : ∀ d ∈ cut.text, isVisible d = true := hSpells.isVisible hSpace hStray hStop
    rw [hRow 1 (fun d hd => isLineBreak_of_isVisible (hVisible d hd))
      (fun d hd => hOneWide (ne_of_isVisible (hVisible d hd) (by decide))), Nat.mul_one,
      ← byteLength_of_isVisible hVisible, ← hLength]
    rfl

/-- No lexeme ends inside a `\r\n`. -/
theorem cleanCut_cutLexeme (pre : List Char) (offset : Nat) (c : Char) (cs : List Char) :
    CleanCut (pre ++ (cutLexeme offset c cs).text) (cutLexeme offset c cs).rest := by
  rintro ⟨hLast, hNext⟩
  have hSome : (cutLexeme offset c cs).text ≠ [] := List.cons_ne_nil _ _
  rw [List.getLast?_append_of_ne_nil _ hSome] at hLast
  -- a lexeme with a line break in it is a run of line breaks, behind which comes no other one
  have hKind := (spells_classify c cs).eq_newline (List.mem_of_getLast? hLast) rfl
  have hOther := head?_of_classify_newline hKind hNext
  cases hOther

/-- Taking a lexeme, a reader counts along. -/
theorem Located.take {c : Char} {cs : List Char} (h : r.Located script)
    (hUnread : r.unread = c :: cs) :
    (r.take (cutLexeme r.cursor c cs)).2.Located script := by
  obtain ⟨pre, hScript, hBytes, hCut, hPosition⟩ := h
  rw [hUnread] at hScript hCut
  have hAppend := cutLexeme_append r.cursor c cs
  have hStop : (cutLexeme r.cursor c cs).token.span.length =
      byteLength (cutLexeme r.cursor c cs).text := by
    simp only [cutLexeme, Span.length, Nat.add_sub_cancel_left]
  refine ⟨pre ++ (cutLexeme r.cursor c cs).text, ?_, ?_, ?_, ?_⟩
  · rw [take_unread, List.append_assoc, hAppend, hScript]
  · rw [take_cursor, byteLength_append, hBytes]
    rfl
  · rw [take_unread]
    exact cleanCut_cutLexeme pre r.cursor c cs
  · rw [take_options]
    exact position_take (spells_classify c cs) (List.cons_ne_nil _ _) hStop hCut hPosition

/-- What a reader refuses it refuses at the row and column where the lexeme begins. -/
theorem Located.failure {c : Char} {cs : List Char} {e : Failure} (h : r.Located script)
    (hTake : (r.take (cutLexeme r.cursor c cs)).1 = some (.error e)) :
    e.Located r.options.tabWidth script := by
  have hStart : (cutLexeme r.cursor c cs).token.span.start = r.cursor := rfl
  -- a failure tells where the reader stands, and that is where the lexeme begins
  have hRefusal (cause : SyntaxFault) :
      (r.refusal (cutLexeme r.cursor c cs) cause).Located r.options.tabWidth script :=
    ⟨_, rfl, by rw [hStart, ← h.position_eq]; rfl⟩
  unfold Reader.take at hTake
  split at hTake
  · cases hTake
  · cases hTake
    exact hRefusal _
  · cases hTake
  · simp only [Option.some.injEq, judge] at hTake
    split at hTake
    · cases hTake
      exact hRefusal _
    · cases hTake

/-- **A reader counts along**, and what it refuses it refuses where it stands. -/
theorem maintains_located (script : String) (options : ReaderOptions) :
    Maintains (fun r => r.Located script ∧ r.options = options) (fun _ => True)
      (·.Located options.tabWidth script) where
  next hr hUnread := ⟨hr.1.take hUnread, (take_options _ _).trans hr.2⟩
  token _ _ _ := trivial
  failure hr _ hTake := by
    rw [← hr.2]
    exact hr.1.failure hTake
  meaning _ := trivial
  -- the place of a failure does not change when others are counted
  count he _ := he

/-- A reader that is put where another one stands has the same ahead. -/
theorem Located.resume (h : r.Located script) :
    (Reader.resume script r.cursor r.position r.options).Located script := by
  obtain ⟨pre, hScript, hBytes, hCut, hPosition⟩ := h
  have hUnread : charsFrom script r.cursor = r.unread := by
    rw [← hBytes, charsFrom_of_toList hScript]
  refine ⟨pre, ?_, hBytes, ?_, hPosition⟩
  · show script.toList = pre ++ charsFrom script r.cursor
    rw [hUnread, hScript]
  · show CleanCut pre (charsFrom script r.cursor)
    rwa [hUnread]

/-- Another statement behind the script changes no position in it. -/
theorem Located.append {cursor : Nat} {position : Position} {options : ReaderOptions}
    (h : (Reader.resume script cursor position options).Located script) (text : String) :
    (Reader.resume (script ++ ";" ++ text) cursor position options).Located
      (script ++ ";" ++ text) := by
  obtain ⟨pre, hScript, hBytes, hCut, hPosition⟩ := h
  change script.toList = pre ++ charsFrom script cursor at hScript
  change byteLength pre = cursor at hBytes
  change CleanCut pre (charsFrom script cursor) at hCut
  have hAll : (script ++ ";" ++ text).toList =
      pre ++ (charsFrom script cursor ++ ';' :: text.toList) := by
    rw [String.toList_append, String.toList_append, hScript]
    simp
  have hUnread := charsFrom_of_toList hAll
  rw [hBytes] at hUnread
  refine ⟨pre, ?_, hBytes, ?_, hPosition⟩
  · show _ = pre ++ charsFrom (script ++ ";" ++ text) cursor
    rw [hUnread, hAll]
  · -- the terminator is no line feed
    show CleanCut pre (charsFrom (script ++ ";" ++ text) cursor)
    rw [hUnread]
    cases hRest : charsFrom script cursor with
    | nil => simp [CleanCut]
    | cons c cs => rwa [hRest] at hCut

end Reader

/-! ## A session that counts along -/

namespace Session

variable {c d : Session}

/-- The session stands behind a part of its script, at the row and column behind it. -/
def Located (c : Session) : Prop := c.reader.Located c.script

/-- Whether an operation counts the rows that it passes. A text that is evaluated is dropped at its
first failure, and nobody counts the rows of what is dropped. -/
def Operation.counts : Operation → Bool
  | evaluate _ => false
  | _ => true

/-- An operation that does not move the session. -/
theorem Located.of_eq (h : c.Located) (hScript : d.script = c.script)
    (hCursor : d.cursor = c.cursor)
    (hPosition : d.position = c.position) (hOptions : d.options = c.options) : d.Located := by
  unfold Located reader at h ⊢
  rw [hScript, hCursor, hPosition, hOptions]
  exact h

/-- A session begins with a reader at the first row and column. -/
theorem located_bare (options : ReaderOptions) (entropy : Entropy) :
    (bare options entropy).Located := Reader.located_new "" options

/-- Text that is loaded takes the place of the script, or comes behind it. -/
theorem Located.load (h : c.Located) (text : String) : (c.load text).Located := by
  unfold Session.load
  split
  · exact Reader.located_new text c.options
  · exact Reader.Located.append h text

/-- Reading a statement, a session counts along, and what it refuses it refuses where it stands. -/
theorem Located.forward (h : c.Located) :
    c.forward.2.Located ∧
      ∀ e, c.forward.1 = .error e → e.Located c.options.tabWidth c.script := by
  obtain ⟨⟨hNext, hOptions⟩, -, hFailure⟩ :=
    (Reader.maintains_located c.script c.options).nextStatement ⟨h, rfl⟩
  have hGoesOn := hNext.resume
  rw [hOptions] at hGoesOn
  unfold Session.forward
  dsimp only
  generalize c.reader.nextStatement = answer at hFailure hGoesOn
  obtain ⟨answer, r⟩ := answer
  split
  · rename_i e hRefused
    refine ⟨hGoesOn, fun e' hEq => ?_⟩
    cases hEq
    exact hFailure e hRefused
  · exact ⟨hGoesOn, fun e hEq => by cases hEq⟩
  · exact ⟨hGoesOn, fun e hEq => by cases hEq⟩

/-- **Every operation that counts rows keeps the session where it has counted to.** -/
theorem Located.apply {op : Operation} (h : c.Located) (hOp : op.counts = true) :
    (op.apply c).Located := by
  cases op with
  | load text => exact h.load text
  | forward => exact h.forward.1
  | compile =>
    show c.compile.2.Located
    unfold Session.compile
    split
    · split <;> exact h.of_eq rfl rfl rfl rfl
    · exact h
  | execute =>
    show c.execute.2.Located
    unfold Session.execute
    split
    · dsimp only [settle]
      split <;> exact h.of_eq rfl rfl rfl rfl
    · exact h
  | evaluate text => cases hOp
  | bindFunction f => exact h.of_eq rfl rfl rfl rfl
  | lookup name => exact h
  | teardown => exact Reader.located_new "" c.options

theorem Located.after {ops : List Operation} (h : c.Located)
    (hOps : ∀ op ∈ ops, op.counts = true) : (c.after ops).Located :=
  after_of_operations (fun op hOp _ h => h.apply (hOps op hOp)) h

theorem Located.bindAll (h : c.Located) (fs : List Function) : (c.bindAll fs).Located :=
  bindAll_of_bindFunction (fun _ _ _ h => h.of_eq rfl rfl rfl rfl) h

end Session

namespace Reader

/-- A reader that has advanced so many times. -/
def advanced (r : Reader) (n : Nat) : Reader := (fun r => r.advance.2)^[n] r

theorem Located.advanced {r : Reader} {script : String} (h : r.Located script) (n : Nat) :
    (r.advanced n).Located script ∧ (r.advanced n).options = r.options := by
  induction n with
  | zero => exact ⟨h, rfl⟩
  | succ n ih =>
    unfold Reader.advanced at ih ⊢
    rw [Function.iterate_succ_apply']
    exact ((maintains_located script r.options).advance ih).1

/-- **Counting along and looking at the whole script come to the same row and column**, wherever a
reader stands on its way through a script, and every fault that it finds tells those of the lexeme
that it is about. So does a session, whatever has been loaded into it and read. -/
theorem position_eq_positionAt (options : ReaderOptions) :
    (∀ (script : String) (n : Nat),
      let r := (Reader.new script options).advanced n
      r.position = positionAt options.tabWidth script r.cursor ∧
        ∀ e, r.advance.1 = .error e → e.Located options.tabWidth script) ∧
    ∀ (entropy : Entropy) (fs : List Function) (ops : List Session.Operation),
      (∀ op ∈ ops, op.counts = true) →
      let c := ((Session.bare options entropy).bindAll fs).after ops
      c.position = positionAt options.tabWidth c.script c.cursor ∧
        ∀ e, c.forward.1 = .error e → e.Located options.tabWidth c.script := by
  constructor
  · intro script n
    have hHere := (located_new script options).advanced n
    have hPosition := hHere.1.position_eq
    rw [hHere.2] at hPosition
    exact ⟨hPosition, ((maintains_located script options).advance hHere).2.2⟩
  · intro entropy fs ops hOps
    have hHere := ((Session.located_bare options entropy).bindAll fs).after hOps
    have hOptions : (((Session.bare options entropy).bindAll fs).after ops).options = options :=
      (Session.after_options _ ops).trans (Session.bindAll_options _ fs)
    have hPosition := hHere.position_eq
    have hFailure := hHere.forward.2
    change _ = positionAt (((Session.bare options entropy).bindAll fs).after ops).options.tabWidth
      _ _ at hPosition
    rw [hOptions] at hPosition hFailure
    exact ⟨hPosition, hFailure⟩

/-- Two operands side by side, with a tab between them, and a line break. -/
def tabbed : List Session.Operation := [.load "1\t2\r\n;ü", .forward, .load "x"]

/-- The fault was noticed at the operand behind the tab. The text that comes later is put behind the
letter in the second row, which has not been read and is refused in its turn. -/
theorem position_tabbed :
    (∀ op ∈ tabbed, op.counts = true) ∧
      let c := ((Session.bare {} (.seeded 0)).bindAll []).after tabbed
      c.position = positionAt 4 c.script c.cursor ∧ c.position = ⟨2, 2⟩ ∧
        ∃ e, c.forward.1 = .error e ∧ e.Located 4 c.script ∧ e.position = some ⟨2, 2⟩ := by
  have hOps : ∀ op ∈ tabbed, op.counts = true := by decide
  obtain ⟨hPosition, hFailure⟩ := (position_eq_positionAt {}).2 (.seeded 0) [] tabbed hOps
  let e : Failure := ⟨SyntaxFault.unicodeChar, some ⟨6, 8⟩, some ⟨2, 2⟩, 1⟩
  have hRefused :
      (((Session.bare {} (.seeded 0)).bindAll []).after tabbed).forward.1 = .error e := by
    decide +kernel
  exact ⟨hOps, hPosition, by decide +kernel, e, hRefused, hFailure e hRefused, rfl⟩

end Reader

end Reckon
