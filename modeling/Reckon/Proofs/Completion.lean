import Mathlib
import Reckon.Proofs.Reading
import Reckon.Proofs.Sessions

/-!
# When a session is complete

A session says that it is complete when it has nothing to compile or run and its unread text
consists of certain characters. Reading on finds out whether there is a statement in that text. The
two agree on every text without a form feed (`Session.exhausted_iff`). A form feed counts as filler
although it is a stray character for the reader, so a session whose unread text is a form feed says
that it is complete, and reading on fails. Text with any other lexeme of its own in it is never
replaced, form feeds or not.
-/

namespace Reckon

namespace Session

/-- Reading on finds no statement exactly when the unread text is white space and terminators. -/
theorem forward_eq_false_iff (c : Session) :
    c.forward.1 = .ok false ↔ c.unread.all isIdleChar := by
  have hAnswer : c.forward.1 = .ok false ↔ c.reader.nextStatement.1 = .ok none := by
    unfold forward
    dsimp only
    split <;> simp_all [fail]
  rw [hAnswer, Reader.nextStatement_eq_none_iff]
  exact tokensFrom_isIdle_iff c.cursor c.unread

/-- The form feed is all that may fill a complete script and is not idle. -/
theorem isFiller_eq (ch : Char) : isFiller ch = (isIdleChar ch || ch == '\x0c') := by
  -- both are disjunctions of the same comparisons
  unfold isFiller isIdleChar isLineBreak
  generalize (ch == ' ') = blank, (ch == '\t') = tab, (ch == '\n') = feed, (ch == '\r') = back,
    (ch == '\x0c') = page, (ch == ';') = stop
  revert blank tab feed back page stop
  decide

theorem complete_eq {c : Session} (hUnbuilt : c.phase ≠ .unbuilt) (hWaiting : c.phase ≠ .waiting) :
    c.complete = c.unread.all isFiller := by
  unfold complete
  split
  · exact absurd ‹_› hUnbuilt
  · exact absurd ‹_› hWaiting
  · rfl

/-- Whatever the phase is, only filler is left in a session that is complete. -/
theorem all_isFiller_of_complete {c : Session} (h : c.complete = true) :
    c.unread.all isFiller := by
  unfold complete at h
  split at h
  · cases h
  · cases h
  · exact h

/-- What is left to read is the rest of the script, from the cursor on. -/
theorem exists_append_of_unread (c : Session) (hSome : c.unread ≠ []) :
    ∃ pre, c.script.toList = pre ++ c.unread ∧ byteLength pre = c.cursor := by
  cases hRest : charsFrom? c.script c.cursor with
  | none =>
    -- no characters are read from within a character
    refine absurd ?_ hSome
    unfold unread charsFrom
    rw [hRest]
    rfl
  | some cs =>
    have hUnread : c.unread = cs := by
      unfold unread charsFrom
      rw [hRest]
      rfl
    rw [hUnread]
    exact charsFrom?_eq_some_iff_toList.1 hRest

/-- Without form feeds a text is filler exactly when it is idle. -/
theorem all_isIdleChar_iff (cs : List Char) :
    cs.all isIdleChar ↔ cs.all isFiller ∧ '\x0c' ∉ cs := by
  simp only [List.all_eq_true, isFiller_eq, Bool.or_eq_true, beq_iff_eq]
  constructor
  · intro h
    refine ⟨fun ch hch => .inl (h ch hch), fun hPage => ?_⟩
    exact absurd (h _ hPage) (by decide)
  · intro ⟨h, hPage⟩ ch hch
    rcases h ch hch with hIdle | rfl
    · exact hIdle
    · exact absurd hch hPage

/-- In text that is filler the only lexemes that are not idle are form feeds. -/
theorem text_of_all_isFiller {script : String} {pre cs post : List Char} {offset : Nat} {t : Token}
    (hScript : script.toList = pre ++ (cs ++ post)) (hBytes : byteLength pre = offset)
    (hFiller : cs.all isFiller) (ht : t ∈ tokensFrom offset cs) (hBusy : t.kind.isIdle = false) :
    t.span.text script = "\x0c" := by
  obtain ⟨ch, rest, hSuffix, hKind, hCovers⟩ := exists_lexeme_of_mem_tokensFrom hScript hBytes ht
  have hMem : ch ∈ cs := hSuffix.subset (List.mem_cons_self ..)
  have hFirst := List.all_eq_true.1 hFiller ch hMem
  rw [hKind, isIdle_classify] at hBusy
  rw [isFiller_eq, hBusy, Bool.false_or, beq_iff_eq] at hFirst
  -- a form feed is a lexeme of its own
  subst hFirst
  exact hCovers.text

/-- **A session is exhausted when it is complete and no form feed is left.** With nothing to compile
or run, reading on finds no statement exactly then, and exactly when only white space and
terminators are left to read. In every phase, as long as any other lexeme is left that is no form
feed, new text is put behind the script. -/
theorem exhausted_iff (c : Session) :
    (c.phase ≠ .unbuilt → c.phase ≠ .waiting →
      (c.forward.1 = .ok false ↔ c.complete = true ∧ '\x0c' ∉ c.unread) ∧
        (c.forward.1 = .ok false ↔ ∀ t ∈ tokensFrom c.cursor c.unread, t.kind.isIdle)) ∧
      ∀ t ∈ tokensFrom c.cursor c.unread, t.kind.isIdle = false → t.span.text c.script ≠ "\x0c" →
        ∀ text, c.load text = { c with script := c.script ++ ";" ++ text } := by
  refine ⟨fun hUnbuilt hWaiting => ⟨?_, ?_⟩, ?_⟩
  · rw [forward_eq_false_iff, all_isIdleChar_iff, complete_eq hUnbuilt hWaiting]
  · rw [forward_eq_false_iff, tokensFrom_isIdle_iff]
  · intro t ht hBusy hOther text
    -- there is something left to read, so the cursor stands between characters
    have hSome : c.unread ≠ [] := by
      intro hNone
      rw [hNone, tokensFrom] at ht
      cases ht
    obtain ⟨pre, hScript, hBytes⟩ := c.exists_append_of_unread hSome
    have hRest : c.script.toList = pre ++ (c.unread ++ []) := by rwa [List.append_nil]
    have hOpen : ¬ c.complete = true := fun hComplete =>
      hOther (text_of_all_isFiller hRest hBytes (all_isFiller_of_complete hComplete) ht hBusy)
    exact if_neg hOpen

/-- The lexemes of `a ;`, with a form feed in front of the terminator, are a name, a blank, a stray
character and a terminator. -/
theorem tokensFrom_nameAndFeed :
    tokensFrom 0 ['a', ' ', '\x0c', ';'] =
      [⟨.identifier, ⟨0, 1⟩⟩, ⟨.space .blank, ⟨1, 2⟩⟩, ⟨.invalid .unknown, ⟨2, 3⟩⟩,
        ⟨.operator .semicolon, ⟨3, 4⟩⟩] := by
  cbv

/-- With a name and a form feed left to read a session is not complete, and new text is put behind
them. -/
theorem exhausted_nameAndFeed :
    let c := (bare {} (.seeded 0)).load "a \x0c;"
    (c.phase ≠ .unbuilt ∧ c.phase ≠ .waiting ∧ '\x0c' ∈ c.unread ∧
      ⟨.identifier, ⟨0, 1⟩⟩ ∈ tokensFrom c.cursor c.unread ∧
      (⟨0, 1⟩ : Span).text c.script ≠ "\x0c") ∧
    ((c.forward.1 = .ok false ↔ c.complete = true ∧ '\x0c' ∉ c.unread) ∧
      (c.forward.1 = .ok false ↔ ∀ t ∈ tokensFrom c.cursor c.unread, t.kind.isIdle)) ∧
    ∀ text, c.load text = { c with script := "a \x0c;" ++ ";" ++ text } := by
  intro c
  have hUnbuilt : c.phase ≠ .unbuilt := by decide
  have hWaiting : c.phase ≠ .waiting := by decide
  have hUnread : c.unread = ['a', ' ', '\x0c', ';'] := by decide
  have hCursor : c.cursor = 0 := by decide
  have hName : ⟨.identifier, ⟨0, 1⟩⟩ ∈ tokensFrom c.cursor c.unread := by
    rw [hUnread, hCursor, tokensFrom_nameAndFeed]
    exact List.mem_cons_self ..
  have hText : (⟨0, 1⟩ : Span).text c.script ≠ "\x0c" := by decide
  exact ⟨⟨hUnbuilt, hWaiting, by rw [hUnread]; decide, hName, hText⟩,
    (exhausted_iff c).1 hUnbuilt hWaiting, (exhausted_iff c).2 _ hName rfl hText⟩

/-- The form feed is a stray character for the reader. -/
theorem tokensFrom_formFeed : tokensFrom 0 ['\x0c'] = [⟨.invalid .unknown, ⟨0, 1⟩⟩] := by cbv

/-- A form feed is left to read in a session that says it is complete. Reading on finds it, and
loading another text replaces it. -/
theorem complete_of_formFeed :
    ∃ c : Session, c.Reachable ∧ (c.phase ≠ .unbuilt ∧ c.phase ≠ .waiting) ∧
      tokensFrom c.cursor c.unread = [⟨.invalid .unknown, ⟨0, 1⟩⟩] ∧
      c.complete = true ∧ c.forward.1 ≠ .ok false ∧ (c.load "1").script = "1" := by
  refine ⟨(bare {} (.seeded 0)).load "\x0c", ?_, by decide, ?_, by decide, ?_, by decide⟩
  · exact .apply (.bare {} (.seeded 0)) (.load "\x0c") trivial
  · exact tokensFrom_formFeed
  · rw [Ne, forward_eq_false_iff]
    decide

end Session

end Reckon
