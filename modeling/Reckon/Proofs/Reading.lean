import Reckon.Statement
import Reckon.Proofs.Lexemes

/-!
# What a reader finds

A reader cuts its text into the lexemes of `tokensFrom`, whatever it makes of each of them
(`Reader.advance_ahead`). White space and terminators make up no statement: a reader finds none
exactly when nothing else is ahead (`Reader.nextStatement_eq_none_iff`), and whether that is so can
be seen from the characters (`tokensFrom_isIdle_iff`).

What a statement can consist of is listed by `TokenKind.isWritten`. The brackets of a call have no
lexeme of their own, and a terminator ends a statement and is no part of it.
-/

namespace Reckon

/-! ## Idle text -/

namespace TokenKind

/-- White space. -/
def isSpace : TokenKind → Bool
  | space _ => true
  | _ => false

/-- White space, or the end of a statement. -/
def isIdle : TokenKind → Bool
  | space _ | operator .semicolon => true
  | _ => false

theorem isIdle_of_isSpace {kind : TokenKind} (h : kind.isSpace) : kind.isIdle := by
  cases kind <;> first | rfl | simp [isSpace] at h

end TokenKind

/-- Whether a character belongs to white space or ends a statement. -/
def isIdleChar (c : Char) : Bool := c == ' ' || c == '\t' || isLineBreak c || c == ';'

/-- A lexeme is idle if its first character is. -/
theorem isIdle_classify (c : Char) (cs : List Char) :
    (classify c cs).1.isIdle = isIdleChar c := by
  by_cases hEnd : c = ';'
  · subst hEnd
    rfl
  -- the cases are those of `classify`: blanks, tabs and line breaks come first
  unfold classify
  split
  · simp_all [TokenKind.isIdle, isIdleChar]
  split
  · simp_all [TokenKind.isIdle, isIdleChar]
  split
  · simp_all [TokenKind.isIdle, isIdleChar]
  have hIdle : isIdleChar c = false := by simp_all [isIdleChar]
  rw [hIdle]
  split
  · rfl
  split
  · rfl
  split
  · -- an operator that begins otherwise is no terminator
    rename_i spelling op hOp
    by_cases hSemicolon : op = .semicolon
    · subst hSemicolon
      exact absurd (eq_of_leadingOperator_semicolon hOp).2 hEnd
    · cases op <;> first | rfl | exact absurd rfl hSemicolon
  · rfl

/-- If a lexeme is idle, so are all of its characters. -/
theorem all_isIdleChar_take {c : Char} (hc : isIdleChar c) (cs : List Char) :
    (cs.take (classify c cs).2).all isIdleChar := by
  have hRun (p : Char → Bool) (hp : ∀ d, p d → isIdleChar d) :
      (cs.take (runLength p cs)).all isIdleChar := by
    have hAll := all_take_runLength p cs
    rw [List.all_eq_true] at hAll ⊢
    exact fun d hd => hp d (hAll d hd)
  by_cases hEnd : c = ';'
  · subst hEnd
    rfl
  unfold classify
  split
  · exact hRun _ fun d hd => by simp only [isIdleChar, hd, Bool.true_or]
  split
  · exact hRun _ fun d hd => by simp only [isIdleChar, hd, Bool.true_or, Bool.or_true]
  split
  · exact hRun _ fun d hd => by simp only [isIdleChar, hd, Bool.true_or, Bool.or_true]
  · -- no other lexeme is idle
    simp_all [isIdleChar]

/-- All lexemes of a text are idle exactly when all of its characters are. -/
theorem tokensFrom_isIdle_iff (offset : Nat) (cs : List Char) :
    (∀ t ∈ tokensFrom offset cs, t.kind.isIdle) ↔ cs.all isIdleChar := by
  fun_induction tokensFrom offset cs with
  | case1 offset => simp
  | case2 offset c cs cut ih =>
    have hFirst : cut.token.kind.isIdle = isIdleChar c := isIdle_classify c cs
    -- the first lexeme is idle if its first character is, and the others by induction
    rw [List.forall_mem_cons, ih, hFirst, List.all_cons, Bool.and_eq_true]
    refine and_congr_right fun hc => ?_
    -- the characters of the first lexeme are idle in any case
    have hText := all_isIdleChar_take hc cs
    have hSplit : cs = cs.take (classify c cs).2 ++ cut.rest := (List.take_append_drop _ cs).symm
    rw [hSplit, List.all_append, hText, Bool.true_and]

/-- A token of a part of a script covers the characters of a lexeme, which begins somewhere in that
part. -/
theorem exists_lexeme_of_mem_tokensFrom {script : String} {pre cs post : List Char} {offset : Nat}
    {t : Token} (hScript : script.toList = pre ++ (cs ++ post)) (hBytes : byteLength pre = offset)
    (ht : t ∈ tokensFrom offset cs) :
    ∃ c rest, (c :: rest) <:+ cs ∧ t.kind = (classify c rest).1 ∧
      t.span.Covers script (c :: rest.take (classify c rest).2) := by
  fun_induction tokensFrom offset cs generalizing pre with
  | case1 offset => cases ht
  | case2 offset c cs cut =>
    rename_i ih
    have hSplit : cut.text ++ cut.rest = c :: cs := cutLexeme_append offset c cs
    rw [← hSplit, List.append_assoc] at hScript
    rcases List.mem_cons.1 ht with rfl | hRest
    · exact ⟨c, cs, List.suffix_rfl, rfl, pre, cut.rest ++ post, hScript, hBytes, rfl⟩
    · -- the others come from what is left behind the lexeme
      rw [← List.append_assoc] at hScript
      have hThere : byteLength (pre ++ cut.text) = cut.token.span.stop := by
        rw [byteLength_append, hBytes]
        rfl
      obtain ⟨d, rest, hSuffix, hLexeme⟩ := ih hScript hThere hRest
      exact ⟨d, rest, hSuffix.trans ⟨cut.text, hSplit⟩, hLexeme⟩

/-! ## The end of a draft -/

/-- What a draft comes to: its first failure, with the number of all of them; nothing, if the text
ends before anything is in it; or else its tokens. -/
theorem Draft.finish_cases (d : Draft) (terminated : Bool) :
    (∃ first, d.failure = some first ∧
      d.finish terminated = .error { first with count := d.faults }) ∨
    (d.failure = none ∧ d.tokens = [] ∧ terminated = false ∧ d.finish terminated = .ok none) ∨
    (d.failure = none ∧ d.finish terminated = .ok (some d.tokens.reverse)) := by
  unfold Draft.finish
  cases hFailure : d.failure with
  | some first => exact .inl ⟨first, rfl, rfl⟩
  | none =>
    by_cases hNothing : (!terminated && d.tokens.isEmpty) = true
    · obtain ⟨hEnds, hEmpty⟩ := (Bool.and_eq_true _ _).mp hNothing
      have hEnd : terminated = false := by simpa using hEnds
      exact .inr (.inl ⟨rfl, List.isEmpty_iff.1 hEmpty, hEnd, if_pos hNothing⟩)
    · exact .inr (.inr ⟨rfl, if_neg hNothing⟩)

namespace Reader

/-- The lexemes ahead of a reader. -/
def ahead (r : Reader) : List Token := tokensFrom r.cursor r.unread

theorem ahead_of_nil {r : Reader} (h : r.unread = []) : r.ahead = [] := by
  simp [ahead, h, tokensFrom]

/-- A reader that takes a lexeme has the others ahead. -/
theorem ahead_take {r : Reader} {c : Char} {cs : List Char} (h : r.unread = c :: cs) :
    r.ahead = (cutLexeme r.cursor c cs).token :: (r.take (cutLexeme r.cursor c cs)).2.ahead := by
  simp only [ahead, h, tokensFrom, take_unread, take_cursor]

/-- What is passed on the way to an answer: white space and no more before the end of the text, a
terminator before the end of a statement, and something else before a token or a fault. -/
def Passes (passed : List Token) (answer : Except Failure Advance) : Prop :=
  match answer with
  | .ok .endOfInput => ∀ t ∈ passed, t.kind.isSpace
  | .ok .endOfStatement => ∀ t ∈ passed, t.kind.isIdle
  | _ => ∃ t ∈ passed, t.kind.isIdle = false

/-- White space in front makes no difference. -/
theorem Passes.cons {passed : List Token} {t : Token} (hSpace : t.kind.isSpace) :
    ∀ {answer : Except Failure Advance}, Passes passed answer → Passes (t :: passed) answer
  | .ok .endOfInput, h => List.forall_mem_cons.2 ⟨hSpace, h⟩
  | .ok .endOfStatement, h => List.forall_mem_cons.2 ⟨TokenKind.isIdle_of_isSpace hSpace, h⟩
  | .ok (.token _), ⟨u, hu, hIdle⟩ | .error _, ⟨u, hu, hIdle⟩ =>
    ⟨u, List.mem_cons_of_mem _ hu, hIdle⟩

/-- What taking a lexeme answers, if it answers anything. -/
theorem passes_take {r r' : Reader} {cut : Cut} {answer : Except Failure Advance}
    (h : r.take cut = (some answer, r')) : Passes [cut.token] answer := by
  unfold take at h
  split at h
  · cases h
  · rename_i s hKind
    cases h
    exact ⟨cut.token, List.mem_singleton_self _, by rw [hKind]; rfl⟩
  · rename_i hKind
    cases h
    intro t ht
    rw [List.mem_singleton.1 ht, hKind]
    rfl
  · -- what is judged is neither white space nor a terminator
    rename_i hSpace _ hSemicolon
    have hIdle : cut.token.kind.isIdle = false := by
      generalize cut.token.kind = kind at hSpace hSemicolon ⊢
      unfold TokenKind.isIdle
      split
      · exact absurd rfl (hSpace _)
      · exact absurd rfl hSemicolon
      · rfl
    simp only [Prod.mk.injEq, Option.some.injEq] at h
    obtain ⟨rfl, -⟩ := h
    unfold judge
    split
    · exact ⟨cut.token, List.mem_singleton_self _, hIdle⟩
    · exact ⟨cut.token, List.mem_singleton_self _, hIdle⟩

/-- No lexeme is the end of the text. -/
theorem take_ne_endOfInput (r : Reader) (cut : Cut) : (r.take cut).1 ≠ some (.ok .endOfInput) := by
  unfold take judge
  split
  · simp
  · simp
  · simp
  · dsimp only
    split <;> simp

/-- What is passed over without an answer is white space. -/
theorem isSpace_of_take {r r' : Reader} {cut : Cut} (h : r.take cut = (none, r')) :
    cut.token.kind.isSpace := by
  unfold take at h
  split at h
  · rename_i s hKind
    rw [hKind]
    rfl
  all_goals cases h

/-- Advancing passes some of the lexemes ahead, and the others are ahead then. -/
theorem advance_ahead (r : Reader) :
    ∃ passed, r.ahead = passed ++ r.advance.2.ahead ∧ Passes passed r.advance.1 ∧
      (r.advance.1 = .ok .endOfInput → r.advance.2.ahead = []) := by
  fun_induction advance r with
  | case1 r h => exact ⟨[], rfl, by simp [Passes], fun _ => ahead_of_nil h⟩
  | case2 r c cs h answer r' ht =>
    have hAhead := ahead_take h
    rw [ht] at hAhead
    refine ⟨[(cutLexeme r.cursor c cs).token], hAhead, passes_take ht, fun hEnd => ?_⟩
    have hTake := take_ne_endOfInput r (cutLexeme r.cursor c cs)
    rw [ht] at hTake
    exact absurd (congrArg some hEnd) hTake
  | case3 r c cs h r' ht ih =>
    -- white space is passed and the search goes on
    have hAhead := ahead_take h
    rw [ht] at hAhead
    obtain ⟨passed, hRest, hPasses, hEnd⟩ := ih
    refine ⟨(cutLexeme r.cursor c cs).token :: passed, ?_, ?_, hEnd⟩
    · rw [hAhead, List.cons_append, ← hRest]
    · exact Passes.cons (isSpace_of_take ht) hPasses

/-- A draft with a token or a fault in it becomes a statement or a failure. -/
theorem gather_ne_of_begun (r : Reader) (d : Draft) (hd : d.tokens ≠ [] ∨ d.failure ≠ none) :
    (r.gather d).1 ≠ .ok none ∧ (r.gather d).1 ≠ .ok (some []) := by
  have hFinish (d : Draft) (terminated : Bool) (hd : d.tokens ≠ [] ∨ d.failure ≠ none) :
      d.finish terminated ≠ .ok none ∧ d.finish terminated ≠ .ok (some []) := by
    rcases d.finish_cases terminated with ⟨first, -, hEq⟩ | ⟨hNone, hEmpty, -⟩ | ⟨hNone, hEq⟩
    · simp [hEq]
    · -- such a draft has neither tokens nor a fault
      exact absurd hd (by simp [hNone, hEmpty])
    · have hTokens : d.tokens ≠ [] := by simpa [hNone] using hd
      simp [hEq, hTokens]
  fun_induction gather r d with
  | case1 r d r' h => exact hFinish d false hd
  | case2 r d r' h => exact hFinish d true hd
  | case3 r d t r' h ih => exact ih (.inl (by simp [Draft.add]))
  | case4 r d e r' h ih =>
    refine ih (.inr ?_)
    cases hFailure : d.failure <;> simp [Draft.refuse, hFailure]

/-- Idle lexemes ahead give no statement or an empty one, behind which nothing else is ahead either.
Anything else gives a statement with tokens or a failure. -/
theorem statement_idle (r : Reader) :
    (r.statement.1 = .ok none ∧ ∀ t ∈ r.ahead, t.kind.isIdle) ∨
      (r.statement.1 = .ok (some []) ∧
        ((∀ t ∈ r.ahead, t.kind.isIdle) ↔ ∀ t ∈ r.statement.2.ahead, t.kind.isIdle)) ∨
      ((r.statement.1 ≠ .ok none ∧ r.statement.1 ≠ .ok (some [])) ∧
        ¬ ∀ t ∈ r.ahead, t.kind.isIdle) := by
  obtain ⟨passed, hAhead, hPasses, hEnd⟩ := r.advance_ahead
  have hBusy (h : ∃ t ∈ passed, t.kind.isIdle = false) : ¬ ∀ t ∈ r.ahead, t.kind.isIdle := by
    obtain ⟨t, ht, hIdle⟩ := h
    intro hAll
    have hSame := hAll t (hAhead ▸ List.mem_append_left _ ht)
    simp [hIdle] at hSame
  unfold statement gather
  split
  · -- the text ends behind white space
    rename_i r' h
    rw [h] at hPasses hEnd hAhead
    refine .inl ⟨rfl, fun t ht => ?_⟩
    rw [hAhead, hEnd rfl, List.append_nil] at ht
    exact TokenKind.isIdle_of_isSpace (hPasses t ht)
  · -- the statement ends at once
    rename_i r' h
    rw [h] at hPasses hAhead
    refine .inr (.inl ⟨rfl, ?_⟩)
    rw [hAhead, List.forall_mem_append]
    exact and_iff_right hPasses
  · -- there is a token
    rename_i t r' h
    rw [h] at hPasses
    exact .inr (.inr ⟨gather_ne_of_begun _ _ (.inl (by simp [Draft.add])), hBusy hPasses⟩)
  · -- there is a fault
    rename_i e r' h
    rw [h] at hPasses
    exact .inr (.inr ⟨gather_ne_of_begun _ _ (.inr (by simp [Draft.refuse])), hBusy hPasses⟩)

/-- **A reader finds no statement exactly when only white space and terminators are ahead.** -/
theorem nextStatement_eq_none_iff (r : Reader) :
    r.nextStatement.1 = .ok none ↔ ∀ t ∈ r.ahead, t.kind.isIdle := by
  fun_induction nextStatement r with
  | case1 r r' h ih =>
    -- an empty statement is passed over
    have hStatement := r.statement_idle
    rw [h] at hStatement
    rcases hStatement with ⟨hNone, -⟩ | ⟨-, hSame⟩ | ⟨⟨-, hEmpty⟩, -⟩
    · simp at hNone
    · exact ih.trans hSame.symm
    · exact absurd rfl hEmpty
  | case2 r h =>
    rcases r.statement_idle with ⟨hNone, hIdle⟩ | ⟨hEmpty, -⟩ | ⟨⟨hNone, -⟩, hIdle⟩
    · exact iff_of_true hNone hIdle
    · exact (h r.statement.2 (Prod.ext hEmpty rfl)).elim
    · exact iff_of_false hNone hIdle

end Reader

/-! ## What holds of statements -/

namespace Reader

/-- A property of readers that every lexeme maintains, with what it gives for the tokens that are
found on the way and for the failures. Neither may depend on what an operator means, or on how many
faults are counted. -/
structure Maintains (P : Reader → Prop) (T : Token → Prop) (E : Failure → Prop) : Prop where
  next {r : Reader} {c : Char} {cs : List Char} (hr : P r) (hUnread : r.unread = c :: cs) :
    P (r.take (cutLexeme r.cursor c cs)).2
  token {r : Reader} {c : Char} {cs : List Char} {t : Token} (hr : P r)
    (hUnread : r.unread = c :: cs)
    (hTake : (r.take (cutLexeme r.cursor c cs)).1 = some (.ok (.token t))) : T t
  failure {r : Reader} {c : Char} {cs : List Char} {e : Failure} (hr : P r)
    (hUnread : r.unread = c :: cs)
    (hTake : (r.take (cutLexeme r.cursor c cs)).1 = some (.error e)) : E e
  meaning {op : Operator} {span : Span} (ht : T ⟨.operator op, span⟩) :
    T ⟨.operator op.inFront, span⟩
  count {e : Failure} (he : E e) (n : Nat) : E { e with count := n }

variable {P : Reader → Prop} {T : Token → Prop} {E : Failure → Prop}

/-- What every lexeme maintains, advancing maintains. -/
theorem Maintains.advance (h : Maintains P T E) {r : Reader} (hr : P r) :
    P r.advance.2 ∧ (∀ t, r.advance.1 = .ok (.token t) → T t) ∧
      ∀ e, r.advance.1 = .error e → E e := by
  fun_induction Reader.advance r with
  | case1 r hUnread =>
    -- the end of the text is neither a token nor a failure
    refine ⟨hr, ?_, ?_⟩
    · intro t hEq
      cases hEq
    · intro e hEq
      cases hEq
  | case2 r c cs hUnread answer r' ht =>
    have hNext := h.next hr hUnread
    have hToken (t : Token) (hTake : (r.take (cutLexeme r.cursor c cs)).1 = _) : T t :=
      h.token hr hUnread hTake
    have hFailure (e : Failure) (hTake : (r.take (cutLexeme r.cursor c cs)).1 = _) : E e :=
      h.failure hr hUnread hTake
    rw [ht] at hNext hToken hFailure
    exact ⟨hNext, fun t hEq => hToken t (congrArg some hEq),
      fun e hEq => hFailure e (congrArg some hEq)⟩
  | case3 r c cs hUnread r' ht ih =>
    -- white space is passed over
    have hNext := h.next hr hUnread
    rw [ht] at hNext
    exact ih hNext

/-- A token that is added may get another meaning. -/
theorem Maintains.add (h : Maintains P T E) {d : Draft} {t : Token} (ht : T t)
    (hd : ∀ u ∈ d.tokens, T u) : ∀ u ∈ (d.add t).tokens, T u := by
  refine List.forall_mem_cons.2 ⟨?_, hd⟩
  obtain ⟨kind, span⟩ := t
  cases kind with
  | operator op =>
    dsimp only
    split
    · exact h.meaning ht
    · exact ht
  | _ => exact ht

/-- A failure that is noted is kept if it is the first one. -/
theorem Maintains.refuse {d : Draft} {e : Failure} (he : E e)
    (hd : ∀ first, d.failure = some first → E first) :
    ∀ first, (d.refuse e).failure = some first → E first := by
  intro first hFirst
  unfold Draft.refuse at hFirst
  cases hBefore : d.failure with
  | none =>
    rw [hBefore] at hFirst
    cases hFirst
    exact he
  | some before =>
    rw [hBefore] at hFirst
    cases hFirst
    exact hd _ hBefore

/-- What every lexeme maintains, gathering a statement maintains. -/
theorem Maintains.gather (h : Maintains P T E) {r : Reader} {d : Draft} (hr : P r)
    (hTokens : ∀ t ∈ d.tokens, T t) (hFailure : ∀ first, d.failure = some first → E first) :
    P (r.gather d).2 ∧ (∀ ts, (r.gather d).1 = .ok (some ts) → ∀ t ∈ ts, T t) ∧
      ∀ e, (r.gather d).1 = .error e → E e := by
  have hFinish (terminated : Bool) {d : Draft} (hTokens : ∀ t ∈ d.tokens, T t)
      (hFailure : ∀ first, d.failure = some first → E first) :
      (∀ ts, d.finish terminated = .ok (some ts) → ∀ t ∈ ts, T t) ∧
        ∀ e, d.finish terminated = .error e → E e := by
    -- a draft ends with its first failure or with its tokens
    rcases d.finish_cases terminated with ⟨first, hFirst, hEnd⟩ | ⟨-, -, -, hEnd⟩ | ⟨-, hEnd⟩ <;>
      rw [hEnd]
    · refine ⟨by simp, ?_⟩
      intro e hEq
      cases hEq
      exact h.count (hFailure first hFirst) _
    · exact ⟨by simp, by simp⟩
    · refine ⟨?_, by simp⟩
      intro ts hEq t ht
      cases hEq
      exact hTokens t (List.mem_reverse.1 ht)
  fun_induction Reader.gather r d with
  | case1 r d r' ha =>
    have hNext := (h.advance hr).1
    rw [ha] at hNext
    exact ⟨hNext, hFinish false hTokens hFailure⟩
  | case2 r d r' ha =>
    have hNext := (h.advance hr).1
    rw [ha] at hNext
    exact ⟨hNext, hFinish true hTokens hFailure⟩
  | case3 r d t r' ha ih =>
    obtain ⟨hNext, hToken, -⟩ := h.advance hr
    rw [ha] at hNext hToken
    exact ih hNext (h.add (hToken t rfl) hTokens) hFailure
  | case4 r d e r' ha ih =>
    obtain ⟨hNext, -, hRefused⟩ := h.advance hr
    rw [ha] at hNext hRefused
    exact ih hNext hTokens (Maintains.refuse (hRefused e rfl) hFailure)

/-- **What every lexeme maintains, statements maintain.** -/
theorem Maintains.statement (h : Maintains P T E) {r : Reader} (hr : P r) :
    P r.statement.2 ∧ (∀ ts, r.statement.1 = .ok (some ts) → ∀ t ∈ ts, T t) ∧
      ∀ e, r.statement.1 = .error e → E e :=
  h.gather hr (fun t ht => absurd ht List.not_mem_nil) fun first hFirst => by cases hFirst

/-- What every lexeme maintains, the search for a statement maintains. -/
theorem Maintains.nextStatement (h : Maintains P T E) {r : Reader} (hr : P r) :
    P r.nextStatement.2 ∧ (∀ ts, r.nextStatement.1 = .ok (some ts) → ∀ t ∈ ts, T t) ∧
      ∀ e, r.nextStatement.1 = .error e → E e := by
  fun_induction Reader.nextStatement r with
  | case1 r r' hEmpty ih =>
    have hNext := (h.statement hr).1
    rw [hEmpty] at hNext
    exact ih hNext
  | case2 r => exact h.statement hr

end Reader

/-! ## What a statement consists of -/

/-- What can be part of a statement: well-formed numerals, names and operators. A call is written
with the brackets of a group. -/
def TokenKind.isWritten : TokenKind → Bool
  | .number numeral => numeral.isSome
  | .identifier => true
  | .operator (.opener b) | .operator (.closer b) => b != .call
  | .operator .semicolon => false
  | .operator _ => true
  | .endOfText | .space _ | .invalid _ => false

/-- A lexeme that is neither idle nor at fault can be part of a statement. -/
theorem isWritten_classify (c : Char) (cs : List Char) :
    (classify c cs).1.isWritten ∨ (classify c cs).1.isIdle ∨
      (classify c cs).1 = .number none ∨ ∃ s, (classify c cs).1 = .invalid s := by
  -- the table of spellings is finite
  have hSpelled : ∀ entry ∈ operatorSpellings,
      (TokenKind.operator entry.2).isWritten ∨ (TokenKind.operator entry.2).isIdle := by decide
  unfold classify
  split
  · exact .inr (.inl rfl)
  split
  · exact .inr (.inl rfl)
  split
  · exact .inr (.inl rfl)
  split
  · dsimp only
    cases (Numeral.scan (c :: cs)).2 with
    | none => exact .inr (.inr (.inl rfl))
    | some numeral => exact .inl rfl
  split
  · exact .inl rfl
  split
  · rename_i spelling op hOp
    exact (hSpelled _ (List.mem_of_find?_eq_some hOp)).imp id .inl
  · exact .inr (.inr (.inr ⟨_, rfl⟩))

namespace Reader

/-- A token that is found can be part of a statement. -/
theorem isWritten_take {r : Reader} {offset : Nat} {c : Char} {cs : List Char} {t : Token}
    (h : (r.take (cutLexeme offset c cs)).1 = some (.ok (.token t))) : t.kind.isWritten := by
  have hKind : (cutLexeme offset c cs).token.kind = (classify c cs).1 := rfl
  have hClassify := isWritten_classify c cs
  rw [← hKind] at hClassify
  unfold take at h
  split at h
  · cases h
  · cases h
  · cases h
  rename_i hSpace hInvalid hSemicolon
  simp only [Option.some.injEq, judge] at h
  split at h
  · cases h
  rename_i hSound
  cases h
  rcases hClassify with hWritten | hIdle | hNone | ⟨s, hStray⟩
  · exact hWritten
  · -- white space and terminators give no token
    generalize (cutLexeme offset c cs).token.kind = kind at hSpace hSemicolon hIdle
    unfold TokenKind.isIdle at hIdle
    split at hIdle
    · exact absurd rfl (hSpace _)
    · exact absurd rfl hSemicolon
    · cases hIdle
  · simp [operandFault?, hNone] at hSound
  · exact absurd hStray (hInvalid s)

/-- Tokens that are found can be part of a statement, also when they mean something else there. -/
theorem maintains_isWritten :
    Maintains (fun _ => True) (fun t => t.kind.isWritten) (fun _ => True) where
  next _ _ := trivial
  token _ _ hTake := isWritten_take hTake
  failure _ _ _ := trivial
  meaning {op _} ht := by cases op <;> exact ht
  count _ _ := trivial

/-- **A statement consists of what can be part of one.** -/
theorem isWritten_statement {r r' : Reader} {ts : List Token}
    (h : r.statement = (.ok (some ts), r')) : ∀ t ∈ ts, t.kind.isWritten :=
  (maintains_isWritten.statement trivial).2.1 ts (congrArg Prod.fst h)

/-! ## Lexeme by lexeme -/

/-- Advancing by the characters that are ahead. -/
theorem advance_eq (r : Reader) :
    r.advance =
      match r.unread with
      | [] => (.ok .endOfInput, r)
      | c :: cs =>
        match r.take (cutLexeme r.cursor c cs) with
        | (some answer, r') => (answer, r')
        | (none, r') => r'.advance := by
  fun_cases advance r with
  | case1 h => rw [h]
  | case2 c cs h answer r' ht =>
    rw [h]
    dsimp only
    rw [ht]
  | case3 c cs h r' ht =>
    rw [h]
    dsimp only
    rw [ht]

/-- Gathering by the answer of the next advance. -/
theorem gather_eq (r : Reader) (d : Draft) :
    r.gather d =
      match r.advance with
      | (.ok .endOfInput, r') => (d.finish false, r')
      | (.ok .endOfStatement, r') => (d.finish true, r')
      | (.ok (.token t), r') => r'.gather (d.add t)
      | (.error e, r') => r'.gather (d.refuse e) := by
  fun_cases gather r d <;> rename_i h <;> rw [h]

section

variable {r r' : Reader} {d : Draft} {c : Char} {cs : List Char}

/-- A token is added to the statement. -/
theorem gather_of_token {t : Token} (h : r.unread = c :: cs)
    (ht : r.take (cutLexeme r.cursor c cs) = (some (.ok (.token t)), r')) :
    r.gather d = r'.gather (d.add t) := by
  rw [gather_eq, advance_eq, h]
  dsimp only
  rw [ht]

/-- A fault is noted, and the statement is read on. -/
theorem gather_of_fault {e : Failure} (h : r.unread = c :: cs)
    (ht : r.take (cutLexeme r.cursor c cs) = (some (.error e), r')) :
    r.gather d = r'.gather (d.refuse e) := by
  rw [gather_eq, advance_eq, h]
  dsimp only
  rw [ht]

/-- A terminator ends the statement. -/
theorem gather_of_stop (h : r.unread = c :: cs)
    (ht : r.take (cutLexeme r.cursor c cs) = (some (.ok .endOfStatement), r')) :
    r.gather d = (d.finish true, r') := by
  rw [gather_eq, advance_eq, h]
  dsimp only
  rw [ht]

/-- White space is passed over. -/
theorem gather_of_space (h : r.unread = c :: cs)
    (ht : r.take (cutLexeme r.cursor c cs) = (none, r')) : r.gather d = r'.gather d := by
  rw [gather_eq, advance_eq, h]
  dsimp only
  rw [ht, ← gather_eq]

/-- The end of the script ends the statement. -/
theorem gather_of_nil (h : r.unread = []) : r.gather d = (d.finish false, r) := by
  rw [gather_eq, advance_eq, h]

end

end Reader

end Reckon
