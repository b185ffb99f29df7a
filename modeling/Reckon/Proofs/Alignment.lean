import Reckon.Diagnostic.Text
import Reckon.Proofs.Places

/-!
# The underline stands under what it points at

A diagnostic shows the row that its label begins in, and draws carets on the line below. The row is
shown with blanks in place of its tabs, and the carets begin at the column that the label begins at.
So the column has to count what is shown in front of that character and nothing else: not the bytes
it takes, not the rows before it, and for every tab as many blanks as it is shown with.

What is in front of the character is described here without cutting the script into rows: the
characters behind the last line break (`sinceBreak`), with tabs replaced (`blanked`), and the number
of line breaks (`lineBreaks`). The cut that the row and the column are both read off has just these
parts (`exists_rows`), so the two agree.

On a terminal the codes for colors take no room. `Ink.shown` is what is left without them, and the
two lines are compared by what is shown of them.

## Results

* `exists_rows`             — the cut into rows, told by line breaks.
* `columns_eq_length`       — columns count characters as they are shown.
* `Diagnostic.pointsBehind` — the first caret stands under the column that the label begins at.
* `aligned`                 — row, column, echoed row and caret of any character of any script.
-/

namespace Reckon

/-! ## Line breaks -/

/-- How many line breaks a text has; `\r\n` is one. -/
def lineBreaks : List Char → Nat
  | [] => 0
  | '\r' :: '\n' :: cs => lineBreaks cs + 1
  | c :: cs => (if c = '\r' ∨ c = '\n' then 1 else 0) + lineBreaks cs

/-- Whether a character belongs to no line break. -/
def isInline (c : Char) : Bool := c != '\r' && c != '\n'

/-- The characters up to the first line break. -/
def untilBreak (cs : List Char) : List Char := cs.takeWhile isInline

/-- The characters behind the last line break. -/
def sinceBreak (cs : List Char) : List Char := (cs.reverse.takeWhile isInline).reverse

/-- A text with so many blanks in place of every tab. -/
def blanked (tabWidth : Nat) (cs : List Char) : List Char :=
  cs.flatMap fun c => if c = '\t' then List.replicate tabWidth ' ' else [c]

theorem isInline_eq_not (c : Char) : isInline c = !isLineBreak c := by
  simp [isInline, isLineBreak, bne, Bool.not_or]

/-- Characters of a line, and behind them a line break. -/
def IsRow (row : List Char) : Prop :=
  ∃ line ending, row = line ++ ending ∧ (∀ c ∈ line, isInline c) ∧
    ending ≠ [] ∧ ∀ c ∈ ending, isInline c = false

/-- **The rows of a text** are as many as it has line breaks, and one more for what stands behind
them. -/
theorem exists_rows (cs : List Char) :
    ∃ before last, rowsOf cs = before ++ [last] ∧ before.length = lineBreaks cs ∧
      (∀ row ∈ before, IsRow row) ∧ ∀ c ∈ last, isInline c := by
  fun_induction rowsOf cs with
  | case1 => exact ⟨[], [], rfl, rfl, by simp, by simp⟩
  | case2 cs ih =>
    obtain ⟨before, last, hRows, hCount, hBefore, hLast⟩ := ih
    have hRow : IsRow ['\r', '\n'] := ⟨[], ['\r', '\n'], rfl, by simp, by simp, by simp [isInline]⟩
    refine ⟨['\r', '\n'] :: before, last, by rw [hRows]; rfl, ?_,
      List.forall_mem_cons.2 ⟨hRow, hBefore⟩, hLast⟩
    rw [lineBreaks, List.length_cons, hCount]
  | case3 c cs hPair hBreak ih =>
    obtain ⟨before, last, hRows, hCount, hBefore, hLast⟩ := ih
    have hEnds : isInline c = false := by rw [isInline_eq_not, hBreak]; rfl
    have hRow : IsRow [c] := ⟨[], [c], rfl, by simp, by simp, by simpa using hEnds⟩
    refine ⟨[c] :: before, last, by rw [hRows]; rfl, ?_,
      List.forall_mem_cons.2 ⟨hRow, hBefore⟩, hLast⟩
    have hSome : c = '\r' ∨ c = '\n' := by simpa [isLineBreak] using hBreak
    rw [lineBreaks, if_pos hSome, List.length_cons, hCount, Nat.add_comm]
    exact hPair
  | case4 c cs hPair hBreak ih =>
    obtain ⟨before, last, hRows, hCount, hBefore, hLast⟩ := ih
    have hInline : isInline c = true := by
      rw [isInline_eq_not, Bool.not_eq_true', ← Bool.not_eq_true]
      exact hBreak
    have hNone : ¬ (c = '\r' ∨ c = '\n') := by simpa [isLineBreak] using hBreak
    have hBreaks : lineBreaks (c :: cs) = lineBreaks cs := by
      rw [lineBreaks, if_neg hNone, Nat.zero_add]
      exact hPair
    -- the character goes in front of the first row, which is the last one if there is no other
    cases before with
    | nil =>
      refine ⟨[], c :: last, by rw [hRows]; rfl, by rw [hBreaks]; exact hCount, by simp, ?_⟩
      exact List.forall_mem_cons.2 ⟨hInline, hLast⟩
    | cons row before =>
      obtain ⟨⟨line, ending, hEq, hLine, hSome, hEnding⟩, hRest⟩ := List.forall_mem_cons.1 hBefore
      have hRow : IsRow (c :: row) :=
        ⟨c :: line, ending, by rw [hEq]; rfl, List.forall_mem_cons.2 ⟨hInline, hLine⟩, hSome,
          hEnding⟩
      refine ⟨(c :: row) :: before, last, by rw [hRows]; rfl, ?_,
        List.forall_mem_cons.2 ⟨hRow, hRest⟩, hLast⟩
      rw [hBreaks]
      exact hCount

/-- The last row holds what stands behind the last line break. -/
theorem sinceBreak_of_rows {cs last : List Char} {before : List (List Char)}
    (hRows : rowsOf cs = before ++ [last]) (hBefore : ∀ row ∈ before, IsRow row)
    (hLast : ∀ c ∈ last, isInline c) : sinceBreak cs = last := by
  unfold sinceBreak
  rw [eq_of_rowsOf hRows, List.reverse_append, List.takeWhile_append_of_pos (by simpa using hLast)]
  -- in front of the last row there is nothing, or a line break
  have hStops : before.flatten.reverse.takeWhile isInline = [] := by
    rcases List.eq_nil_or_concat before with rfl | ⟨rows, row, rfl⟩
    · rfl
    · obtain ⟨line, ending, rfl, -, hSome, hEnding⟩ := hBefore row (by simp)
      obtain ⟨front, c, rfl⟩ := (List.eq_nil_or_concat ending).resolve_left hSome
      have hBreak : isInline c = false := hEnding c (by simp)
      simp [hBreak]
  rw [hStops, List.append_nil, List.reverse_reverse]

/-- The first row holds what stands in front of the first line break, and then that line break. -/
theorem untilBreak_of_rows {cs row : List Char} {behind : List (List Char)}
    (hRows : rowsOf cs = row :: behind) : row.filter isInline = untilBreak cs := by
  obtain ⟨before, last, hAll, -, hBefore, hLast⟩ := exists_rows cs
  rw [hRows] at hAll
  unfold untilBreak
  cases before with
  | nil =>
    obtain ⟨rfl, rfl⟩ := List.cons.inj hAll
    have hText := flatten_rowsOf cs
    rw [hRows, List.flatten_singleton] at hText
    rw [← hText, List.filter_eq_self.2 hLast, List.takeWhile_eq_self_iff.2 hLast]
  | cons first before =>
    obtain ⟨rfl, rfl⟩ := List.cons.inj hAll
    obtain ⟨line, ending, rfl, hLine, hSome, hEnding⟩ := hBefore row (List.mem_cons_self ..)
    have hText := flatten_rowsOf cs
    rw [hRows, List.flatten_cons, List.append_assoc] at hText
    obtain ⟨c, ending, rfl⟩ := List.exists_cons_of_ne_nil hSome
    have hBreak : isInline c = false := hEnding c (List.mem_cons_self ..)
    have hNone : (c :: ending).filter isInline = [] :=
      List.filter_eq_nil_iff.2 fun d hd => by simp [hEnding d hd]
    rw [← hText, List.filter_append, List.filter_eq_self.2 hLine, hNone,
      List.takeWhile_append_of_pos hLine]
    simp [hBreak]

/-! ## What is shown of a row -/

/-- Tabs are expanded into as many blanks as they are wide. -/
theorem flatMap_expandTab (tabWidth : Nat) (cs : List Char) :
    cs.flatMap (expandTab tabWidth) = blanked tabWidth cs := by
  unfold blanked
  refine congrArg (cs.flatMap ·) (funext fun c => ?_)
  by_cases hTab : c = '\t' <;> simp [expandTab, hTab]

/-- Blanks take the place of tabs one character at a time. -/
theorem blanked_append (tabWidth : Nat) (cs ds : List Char) :
    blanked tabWidth (cs ++ ds) = blanked tabWidth cs ++ blanked tabWidth ds :=
  List.flatMap_append

/-- **Columns count characters as they are shown.** -/
theorem columns_eq_length (tabWidth : Nat) (cs : List Char) :
    columns tabWidth cs = (blanked tabWidth cs).length := by
  induction cs with
  | nil => rfl
  | cons c cs ih =>
    show columnWidth tabWidth c + columns tabWidth cs = _
    rw [← List.singleton_append (x := c), blanked_append, List.length_append, ih]
    by_cases hTab : c = '\t' <;> simp [columnWidth, blanked, hTab]

/-- Blanks are no line breaks, so none comes in with them. -/
theorem isInline_of_mem_blanked {tabWidth : Nat} {cs : List Char} (h : ∀ c ∈ cs, isInline c) :
    ∀ c ∈ blanked tabWidth cs, isInline c := by
  intro c hc
  obtain ⟨d, hd, hShown⟩ := List.mem_flatMap.1 hc
  split at hShown
  · rw [List.eq_of_mem_replicate hShown]
    rfl
  · rw [List.mem_singleton.1 hShown]
    exact h d hd

/-! ## What is shown of a line -/

namespace Ink

/-- A text without its codes for colors. A code goes from an escape character to the next `m`, and
the text may begin inside one. -/
def uncoded (inside : Bool) : List Char → List Char
  | [] => []
  | c :: cs =>
    if inside then uncoded (c != 'm') cs
    else if c = '\x1b' then uncoded true cs
    else c :: uncoded false cs

/-- What is shown of a text: all of it, but on a terminal with colors not the codes. -/
def shown (color : Bool) (cs : List Char) : List Char :=
  if color then uncoded false cs else cs

variable {color : Bool} {cs : List Char}

/-- A text that has no escape character is shown as it is. -/
theorem shown_append (h : '\x1b' ∉ cs) (ds : List Char) :
    shown color (cs ++ ds) = cs ++ shown color ds := by
  cases color with
  | false => rfl
  | true =>
    show uncoded false (cs ++ ds) = cs ++ uncoded false ds
    induction cs with
    | nil => rfl
    | cons c cs ih =>
      have hFirst : c ≠ '\x1b' := fun hEq => h (List.mem_cons.2 (.inl hEq.symm))
      have hRest : '\x1b' ∉ cs := fun hMem => h (List.mem_cons_of_mem _ hMem)
      rw [List.cons_append, uncoded, if_neg (by simp), if_neg hFirst, ih hRest, List.cons_append]

/-- So is a text with nothing behind it. -/
theorem shown_eq_self (h : '\x1b' ∉ cs) : shown color cs = cs := by
  have hAll : shown color (cs ++ []) = cs ++ shown color [] := shown_append h []
  rw [List.append_nil] at hAll
  rw [hAll]
  cases color <;> exact List.append_nil cs

/-- Of a painted text only the text is shown. -/
theorem shown_paint (ink : Ink) {text : String} (h : '\x1b' ∉ text.toList) (ds : List Char) :
    shown color ((ink.paint color text).toList ++ ds) = text.toList ++ shown color ds := by
  cases color with
  | false => rfl
  | true =>
    -- the text stands between the code of the ink and the code that ends it
    have hCodes : (ink.paint true text).toList ++ ds =
        "\x1b[".toList ++ ink.code.toList ++ "m".toList ++
          (text.toList ++ ("\x1b[0m".toList ++ ds)) := by
      simp [paint, String.toList_append]
    have hBehind : shown true ("\x1b[0m".toList ++ ds) = shown true ds := rfl
    have hInFront (rest : List Char) : shown true
        ("\x1b[".toList ++ ink.code.toList ++ "m".toList ++ rest) = shown true rest := by
      cases ink <;> rfl
    rw [hCodes, hInFront, shown_append h, hBehind]

end Ink

namespace Diagnostic

/-- The number of a row is made of digits. -/
theorem escape_not_mem_toString (n : Nat) : '\x1b' ∉ (toString n).toList := by
  intro hMem
  rw [Nat.toString_eq_repr, Nat.toList_repr] at hMem
  -- an escape character is no digit
  have hDigit := Nat.isDigit_of_mem_toDigits (by omega) (by omega) hMem
  revert hDigit
  decide

theorem toList_repeated (n : Nat) (c : Char) : (repeated n c).toList = List.replicate n c :=
  String.toList_ofList

/-- What stands between the margin and the row, or the underline. -/
def barred (color : Bool) (cs : List Char) : List Char :=
  " ".toList ++ ((Ink.cyan.paint color "|").toList ++ (" ".toList ++ cs))

/-- Of what stands between the margin and the row, two blanks and a bar are shown. -/
theorem shown_barred (color : Bool) (cs : List Char) :
    Ink.shown color (barred color cs) = [' ', '|', ' '] ++ Ink.shown color cs := by
  unfold barred
  rw [Ink.shown_append (by decide), Ink.shown_paint _ (by decide), Ink.shown_append (by decide)]
  rfl

/-- The first caret of a diagnostic stands under the first of the characters `behind`, which stand
behind those `inFront` in the row that is shown. -/
def PointsBehind (d : Diagnostic) (color : Bool) (inFront behind : List Char) : Prop :=
  ∃ rowLead underLead carets : List Char,
    (d.lines color)[3]? = some (String.ofList (rowLead ++ (inFront ++ behind))) ∧
    (d.lines color)[4]? = some (String.ofList (underLead ++ carets)) ∧
    (Ink.shown color underLead).length = (Ink.shown color rowLead).length + inFront.length ∧
    '^' ∉ Ink.shown color underLead ∧ (Ink.shown color carets).head? = some '^'

/-- The row of a label and its underline are the fourth and the fifth line. A word on the label
stands behind the carets, and all else above or below. -/
theorem exists_lines {d : Diagnostic} {label : Label} {script : String}
    (hLabel : d.label = some label) (hSource : d.source = some script) {place : Position}
    (hPlace : positionAt d.tabWidth script label.span.start = place) (color : Bool) :
    ∃ heading arrow bar word more, d.lines color = heading :: arrow :: bar ::
      (Ink.cyan.paint color (toString place.row) ++ " " ++ Ink.cyan.paint color "|" ++ " " ++
        rowTextAt d.tabWidth script label.span.start) ::
      (repeated (toString place.row).length ' ' ++ " " ++ Ink.cyan.paint color "|" ++ " " ++
        (repeated (place.col - 1) ' ' ++
          Ink.boldRed.paint color (repeated (max label.span.length 1) '^') ++ word)) :: more := by
  unfold lines location? excerpt?
  simp only [hLabel, hSource, Option.map_some]
  unfold excerptLines underline
  simp only [hPlace]
  split
  · exact ⟨_, _, _, "", _, by rw [String.append_empty]; rfl⟩
  · exact ⟨_, _, _, " " ++ Ink.boldRed.paint color label.message, _, by
      simp only [String.append_assoc]; rfl⟩

/-- **The carets begin at the column of the label.** What stands in front of them is as wide as what
stands in front of the row, and one blank wider for every column before that of the label. -/
theorem pointsBehind {d : Diagnostic} {label : Label} {script : String}
    {inFront behind : List Char} (hLabel : d.label = some label) (hSource : d.source = some script)
    (hRow : (rowTextAt d.tabWidth script label.span.start).toList = inFront ++ behind)
    (hCol : (positionAt d.tabWidth script label.span.start).col = inFront.length + 1)
    (color : Bool) : d.PointsBehind color inFront behind := by
  obtain ⟨heading, arrow, bar, word, more, hLines⟩ := exists_lines hLabel hSource rfl color
  rw [hCol, Nat.add_sub_cancel] at hLines
  generalize hNumber : toString (positionAt d.tabWidth script label.span.start).row = number
    at hLines
  have hPlain : '\x1b' ∉ number.toList := by
    rw [← hNumber]
    exact escape_not_mem_toString _
  have hShownRow : Ink.shown color ((Ink.cyan.paint color number).toList ++ barred color []) =
      number.toList ++ [' ', '|', ' '] := by
    rw [Ink.shown_paint _ hPlain, shown_barred, Ink.shown_eq_self (by simp), List.append_nil]
  have hShownUnder : Ink.shown color (List.replicate number.length ' ' ++
      barred color (List.replicate inFront.length ' ')) =
      List.replicate number.length ' ' ++
        ([' ', '|', ' '] ++ List.replicate inFront.length ' ') := by
    rw [Ink.shown_append (by simp), shown_barred, Ink.shown_eq_self (by simp)]
  rw [PointsBehind, hLines]
  refine ⟨(Ink.cyan.paint color number).toList ++ barred color [],
    List.replicate number.length ' ' ++ barred color (List.replicate inFront.length ' '),
    (Ink.boldRed.paint color (repeated (max label.span.length 1) '^')).toList ++ word.toList,
    ?_, ?_, ?_, ?_, ?_⟩
  · refine congrArg some (String.toList_injective ?_)
    rw [String.toList_ofList]
    simp only [String.toList_append, hRow, barred, List.append_assoc, List.append_nil]
  · refine congrArg some (String.toList_injective ?_)
    rw [String.toList_ofList]
    simp only [String.toList_append, toList_repeated, barred, List.append_assoc]
  · rw [hShownUnder, hShownRow]
    simp only [List.length_append, List.length_replicate, String.length_toList,
      Nat.add_assoc]
  · rw [hShownUnder]
    simp
  · rw [Ink.shown_paint _ (by simp [toList_repeated]), toList_repeated]
    obtain ⟨n, hn⟩ : ∃ n, max label.span.length 1 = n + 1 := ⟨max label.span.length 1 - 1, by omega⟩
    rw [hn]
    rfl

end Diagnostic

/-! ## Any character of a script -/

/-- How a character of a script is found and shown: `pre` is the text in front of it, and `post` the
text behind it. -/
structure Aligned (tabWidth : Nat) (script : String) (pre : List Char) (c : Char)
    (post : List Char) : Prop where
  /-- The row is one more than the line breaks in front of the character. -/
  row : (positionAt tabWidth script (byteLength pre)).row = lineBreaks pre + 1
  /-- The column is one more than the characters shown in front of it in its row. -/
  col : (positionAt tabWidth script (byteLength pre)).col =
    (blanked tabWidth (sinceBreak pre)).length + 1
  /-- So many characters of the row that is shown are those, with blanks in place of tabs. -/
  inFront : (rowTextAt tabWidth script (byteLength pre)).toList.take
      ((positionAt tabWidth script (byteLength pre)).col - 1) = blanked tabWidth (sinceBreak pre)
  /-- From there on the row shows the character and what is left of its row. -/
  behind : (rowTextAt tabWidth script (byteLength pre)).toList.drop
      ((positionAt tabWidth script (byteLength pre)).col - 1) =
    blanked tabWidth [c] ++ blanked tabWidth (untilBreak post)
  /-- The row that is shown is one line. -/
  oneLine : ∀ d ∈ (rowTextAt tabWidth script (byteLength pre)).toList, d ≠ '\r' ∧ d ≠ '\n'
  /-- A label that begins at the character has its first caret under it. -/
  caret : ∀ (d : Diagnostic) (label : Label) (color : Bool), d.label = some label →
    d.source = some script → d.tabWidth = tabWidth → label.span.start = byteLength pre →
      d.PointsBehind color (blanked tabWidth (sinceBreak pre))
        (blanked tabWidth [c] ++ blanked tabWidth (untilBreak post))

/-- The row that is shown, and the row and column, in terms of line breaks. -/
theorem place_of_inline (tabWidth : Nat) {script : String} {pre post : List Char} {c : Char}
    (hScript : script.toList = pre ++ c :: post) (hInline : isInline c) :
    positionAt tabWidth script (byteLength pre) =
        ⟨lineBreaks pre + 1, (blanked tabWidth (sinceBreak pre)).length + 1⟩ ∧
      (rowTextAt tabWidth script (byteLength pre)).toList =
        blanked tabWidth (sinceBreak pre) ++
          (blanked tabWidth [c] ++ blanked tabWidth (untilBreak post)) := by
  -- the character is not the second half of a line break
  have hCut : CleanCut pre (c :: post) := by
    rintro ⟨-, hNext⟩
    obtain rfl : c = '\n' := by simpa using hNext
    cases hInline
  obtain ⟨before, last, next, behind, hPre, hPost, hAll⟩ := exists_rowsOf_append hCut
  obtain ⟨rows, front, hRows, hCount, hEnded, hPlain⟩ := exists_rows pre
  -- the two cuts of the text in front are the same, so its last row is the one in front
  obtain ⟨rfl, hFront⟩ : before = rows ∧ [last] = [front] :=
    List.append_inj' (hPre.symm.trans hRows) rfl
  obtain rfl : last = front := List.singleton_inj.1 hFront
  have hSince : sinceBreak pre = last := sinceBreak_of_rows hRows hEnded hPlain
  have hNext : next.filter isInline = c :: untilBreak post := by
    rw [untilBreak_of_rows hPost, untilBreak, List.takeWhile_cons_of_pos hInline, untilBreak]
  constructor
  · rw [positionAt_of_toList tabWidth hScript hCut, placeAfter_eq hPre, hCount, columns_eq_length,
      hSince]
  · have hMore : next = [] → behind = [] := by
      rintro rfl
      exact rowsOf_eq_nil_cons hPost
    have hInlines : (fun d => !isLineBreak d) = isInline :=
      funext fun d => (isInline_eq_not d).symm
    unfold rowTextAt shownRow
    rw [String.toList_ofList, hScript, hAll, eq_of_rowsOf hPre,
      placeIn_append before last next hMore]
    dsimp only
    rw [hInlines, List.filter_append, List.filter_eq_self.2 hPlain, hNext, flatMap_expandTab,
      blanked_append, ← List.singleton_append (x := c), blanked_append, ← eq_of_rowsOf hPre, hSince]

/-- **Row, column, echoed row and caret agree** on every character that is no line break, in every
script and for every tab width. -/
theorem aligned (tabWidth : Nat) {script : String} {pre post : List Char} {c : Char}
    (hScript : script.toList = pre ++ c :: post) (hInline : c ≠ '\r' ∧ c ≠ '\n') :
    Aligned tabWidth script pre c post := by
  have hc : isInline c := by simpa [isInline] using hInline
  obtain ⟨hPlace, hText⟩ := place_of_inline tabWidth hScript hc
  refine ⟨by rw [hPlace], by rw [hPlace], ?_, ?_, ?_, ?_⟩
  · rw [hPlace, hText, Nat.add_sub_cancel]
    exact List.take_left' rfl
  · rw [hPlace, hText, Nat.add_sub_cancel]
    exact List.drop_left' rfl
  · -- the characters are those of one row, with blanks among them
    rw [hText, ← blanked_append, ← blanked_append]
    intro d hd
    have hInlines : ∀ x ∈ sinceBreak pre ++ ([c] ++ untilBreak post), isInline x := by
      intro x hx
      rcases List.mem_append.1 hx with hFront | hRest
      · exact List.mem_takeWhile_imp (List.mem_reverse.1 hFront)
      · rcases List.mem_append.1 hRest with hHere | hBehind
        · rw [List.mem_singleton.1 hHere]
          exact hc
        · exact List.mem_takeWhile_imp hBehind
    have hShown := isInline_of_mem_blanked hInlines d hd
    simpa [isInline] using hShown
  · intro d label color hLabel hSource hTab hStart
    subst hTab
    refine Diagnostic.pointsBehind hLabel hSource ?_ ?_ color
    · rw [hStart, hText]
    · rw [hStart, hPlace]

/-- A script of two rows, the second with a tab and with a character of two bytes. The label on its
last character is found in the second row at the seventh column. -/
theorem aligned_behindTab :
    "x\r\n\té $".toList = ['x', '\r', '\n', '\t', 'é', ' '] ++ '$' :: [] ∧
      ('$' ≠ '\r' ∧ '$' ≠ '\n') ∧
      positionAt 4 "x\r\n\té $" 7 = ⟨2, 7⟩ ∧
      Aligned 4 "x\r\n\té $" ['x', '\r', '\n', '\t', 'é', ' '] '$' [] :=
  ⟨by decide, by decide, by decide, aligned 4 (by decide) (by decide)⟩

end Reckon
