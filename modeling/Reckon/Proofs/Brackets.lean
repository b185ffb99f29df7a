import Reckon.Proofs.Carrying
import Reckon.Proofs.Passes

/-!
# Brackets

A statement is put into postfix order exactly when its brackets match, whatever operators and
operands stand between them. What it means that they match is said by a stack of brackets alone
(`openBehind`): an opener goes on top, and a closer has to end the bracket on top. The first closer
that does not is what is wrong with the statement, and if there is none, the innermost bracket that
nobody has closed (`Misplaced`).

The pass keeps its openers on one stack with the operators that wait for their operands, and takes
operators off it by their priorities. It never takes an operator from below an opener, and no opener
but for a closer, so the openers among what waits are the brackets that are open
(`Pass.openings`).

Main result: `Postfix.brackets_decide`.
-/

namespace Reckon

/-- What may be put into postfix order: well-formed numerals, names and all operators. -/
def TokenKind.isPart : TokenKind → Bool
  | .number numeral => numeral.isSome
  | .identifier | .operator _ => true
  | .endOfText | .space _ | .invalid _ => false

/-- A bracket that no closer has ended yet. -/
structure OpenBracket where
  bracket : Bracket
  span : Span
  deriving DecidableEq, Repr

/-- Whether a closer ends the bracket: one of its own kind does, and `)` ends a call as well as a
group. -/
def OpenBracket.endedBy (o : OpenBracket) (b : Bracket) : Bool :=
  o.bracket == b || (o.bracket == .call && b == .group)

namespace Postfix

open Pass

/-! ## The stack of brackets -/

/-- What a token does to the brackets that are open, the innermost one first; none for a closer that
is out of place. -/
def behindToken (previous : Option TokenKind) (t : Token) (os : List OpenBracket) :
    Option (List OpenBracket) :=
  match t.kind with
  | .operator (.opener b) => some (⟨openedBehind previous b, t.span⟩ :: os)
  | .operator (.closer b) =>
    match os with
    | o :: os => if o.endedBy b then some os else none
    | [] => none
  | _ => some os

/-- The brackets that are open behind tokens, when some are open in front of them. -/
def behindTokens : Option TokenKind → List Token → List OpenBracket → Option (List OpenBracket)
  | _, [], os => some os
  | previous, t :: ts, os => (behindToken previous t os).bind (behindTokens (some t.kind) ts)

/-- The brackets that are open behind the tokens of a statement, the innermost one first; none as
soon as a closer is out of place. -/
def openBehind (ts : List Token) : Option (List OpenBracket) := behindTokens none ts []

/-- What is wrong with the brackets of a statement, and where. -/
inductive Misplaced (ts : List Token) : SyntaxFault → Span → Prop
  /-- The first closer that is out of place has no open bracket left. -/
  | unopened {pre post : List Token} {b : Bracket} {span : Span}
      (hSplit : ts = pre ++ ⟨.operator (.closer b), span⟩ :: post)
      (hPre : openBehind pre = some []) : Misplaced ts .noLeftBracket span
  /-- The first closer that is out of place meets a bracket that it does not end. -/
  | crossed {pre post : List Token} {b : Bracket} {span : Span} {o : OpenBracket}
      {os : List OpenBracket} (hSplit : ts = pre ++ ⟨.operator (.closer b), span⟩ :: post)
      (hPre : openBehind pre = some (o :: os)) (hOther : o.endedBy b = false) :
      Misplaced ts .crossedBrackets span
  /-- No closer is out of place, and this is the innermost bracket that is left open. -/
  | unclosed {o : OpenBracket} {os : List OpenBracket} (hOpen : openBehind ts = some (o :: os)) :
      Misplaced ts .noRightBracket o.span

/-- If the stack cannot be followed to the end, a closer is to blame, and it is the first one. -/
theorem exists_closer_of_behindTokens {previous : Option TokenKind} {ts : List Token}
    {os : List OpenBracket} (h : behindTokens previous ts os = none) :
    ∃ pre b span post os', ts = pre ++ ⟨.operator (.closer b), span⟩ :: post ∧
      behindTokens previous pre os = some os' ∧
        ∀ o rest, os' = o :: rest → o.endedBy b = false := by
  -- the first token that the stack cannot take is the closer
  induction ts generalizing previous os with
  | nil => cases h
  | cons t ts ih =>
    rw [behindTokens] at h
    cases hToken : behindToken previous t os with
    | some next =>
      rw [hToken] at h
      obtain ⟨pre, b, span, post, os', rfl, hPre, hOther⟩ := ih h
      exact ⟨t :: pre, b, span, post, os', rfl, by rw [behindTokens, hToken]; exact hPre, hOther⟩
    | none =>
      obtain ⟨kind, span⟩ := t
      unfold behindToken at hToken
      dsimp only at hToken
      split at hToken
      · cases hToken
      · rename_i b
        refine ⟨[], b, span, ts, os, rfl, rfl, ?_⟩
        rintro o rest rfl
        dsimp only at hToken
        split at hToken
        · cases hToken
        · rename_i hOther
          exact Bool.eq_false_of_not_eq_true hOther
      · cases hToken

/-- **A statement whose brackets do not match has something wrong with them.** -/
theorem exists_misplaced {ts : List Token} (h : openBehind ts ≠ some []) :
    ∃ fault span, Misplaced ts fault span := by
  cases hOpen : openBehind ts with
  | some os =>
    -- the innermost open bracket comes first, and it is the one to be named
    cases os with
    | nil => exact absurd hOpen h
    | cons o os => exact ⟨_, _, .unclosed hOpen⟩
  | none =>
    obtain ⟨pre, b, span, post, os, hSplit, hPre, hOther⟩ := exists_closer_of_behindTokens hOpen
    cases os with
    | nil => exact ⟨_, _, .unopened hSplit hPre⟩
    | cons o os => exact ⟨_, _, .crossed hSplit hPre (hOther o os rfl)⟩

/-! ## Openers among what waits -/

namespace Pass

/-- The openers among what waits, as open brackets. -/
def openings (waiting : List Waiting) : List OpenBracket :=
  waiting.filterMap fun w =>
    match w.op with
    | .opener b => some ⟨b, w.span⟩
    | _ => none

@[simp] theorem openings_opener (b : Bracket) (span : Span) (waiting : List Waiting) :
    openings (⟨.opener b, span⟩ :: waiting) = ⟨b, span⟩ :: openings waiting := rfl

theorem exists_of_isOpener {op : Operator} (h : op.isOpener = true) : ∃ b, op = .opener b := by
  cases op <;> first | exact ⟨_, rfl⟩ | cases h

theorem isOpener_eq_false {op : Operator} (h : ∀ b, op = .opener b → False) :
    op.isOpener = false := by
  cases op <;> first | rfl | exact absurd rfl (h _)

theorem openings_operator {w : Waiting} (hw : w.op.isOpener = false) (waiting : List Waiting) :
    openings (w :: waiting) = openings waiting := by
  obtain ⟨op, span⟩ := w
  cases op <;> first | rfl | cases hw

/-- **Operators are taken off down to the next opener at most.** -/
theorem openings_releasing (op : Operator) (depth : Nat) (emitted : List Instruction)
    (waiting : List Waiting) :
    openings (releasing op depth emitted waiting).2 = openings waiting := by
  -- what is taken off above the opener is no opener
  induction waiting generalizing emitted with
  | nil => rfl
  | cons w waiting ih =>
    unfold releasing
    split
    · rename_i hRelease
      have hOther : w.op.isOpener = false := by
        simpa using (Bool.and_eq_true_iff.1 hRelease).1
      rw [ih, openings_operator hOther]
    · rfl

theorem endedBy_eq_isSome (o : OpenBracket) (b : Bracket) :
    o.endedBy b = (matching? o.bracket b).isSome := by
  unfold OpenBracket.endedBy matching?
  split_ifs with hSame hCall
  · simp [hSame]
  · simp [hCall]
  · simpa [hSame] using hCall

/-- What is to become of a closer when brackets are open. -/
def Closes (b : Bracket) (span : Span) (answer : Except Failure Pass) :
    List OpenBracket → Prop
  | [] => answer = .error (.atSpan SyntaxFault.noLeftBracket span)
  | o :: os =>
    if o.endedBy b then ∃ q, answer = .ok q ∧ openings q.waiting = os
    else answer = .error (.atSpan SyntaxFault.crossedBrackets span)

/-- **What a closer does goes by the brackets that are open.** -/
theorem closes_closing (b : Bracket) (span : Span) (depth : Nat) (emitted : List Instruction)
    (waiting : List Waiting) :
    Closes b span (closing b span depth emitted waiting) (openings waiting) := by
  fun_induction closing b span depth emitted waiting with
  | case1 => rfl
  | case2 emitted opened place waiting hNone =>
    have hOther : (OpenBracket.mk opened place).endedBy b = false := by
      rw [endedBy_eq_isSome, hNone]
      rfl
    simp [Closes, hOther]
  | case3 emitted opened place waiting closed hMatch =>
    have hEnds : (OpenBracket.mk opened place).endedBy b = true := by
      rw [endedBy_eq_isSome, hMatch]
      rfl
    rw [openings_opener, Closes, if_pos hEnds]
    exact ⟨_, rfl, rfl⟩
  | case4 emitted op place waiting hOther ih =>
    -- an operator in between makes no difference
    rwa [openings_operator (isOpener_eq_false hOther)]

/-! ## The pass -/

variable {p : Pass} {previous : Option TokenKind}

/-- **A token does to the openers what it does to the brackets.** -/
theorem take_of_behindToken {t : Token} {os : List OpenBracket} (hPart : t.kind.isPart = true)
    (h : behindToken previous t (openings p.waiting) = some os) :
    ∃ q, p.take previous t = .ok q ∧ openings q.waiting = os := by
  obtain ⟨kind, span⟩ := t
  unfold behindToken at h
  unfold take
  dsimp only at h hPart ⊢
  -- the cases are those of `take`
  split
  · cases h
    exact ⟨_, rfl, rfl⟩
  · cases h
    exact ⟨_, rfl, rfl⟩
  · cases h
    have hOpened : openedBehind previous .group =
        if opensCall previous then .call else .group := by simp [openedBehind]
    exact ⟨_, rfl, by rw [hOpened]; rfl⟩
  · -- only the bracket of a group can become that of a call
    rename_i b hGroup
    cases h
    have hOpened : openedBehind previous b = b := if_neg fun hCall => hGroup hCall.1
    exact ⟨_, rfl, by rw [hOpened]; rfl⟩
  · rename_i b
    have hClosing := closes_closing b span p.depth p.emitted p.waiting
    cases hOpen : openings p.waiting with
    | nil =>
      rw [hOpen] at h
      cases h
    | cons o os' =>
      rw [hOpen] at h hClosing
      dsimp only [Closes] at h hClosing
      split at h
      · rename_i hEnds
        cases h
        rwa [if_pos hEnds] at hClosing
      · cases h
  · cases h
    exact ⟨_, rfl, rfl⟩
  · -- an operator is no bracket, and what it takes off is none either
    rename_i op _ hOpener hCloser _
    have hSame : openings p.waiting = os := by
      cases op <;> first | exact Option.some.inj h | exact absurd rfl (hOpener _) |
        exact absurd rfl (hCloser _)
    refine ⟨_, rfl, ?_⟩
    unfold operator
    rw [openings_operator (isOpener_eq_false hOpener), openings_releasing, hSame]
  -- nothing else is a part of a statement
  · cases hPart
  · cases hPart
  · cases hPart
  · cases hPart

/-- As far as no closer is out of place, the pass goes on. -/
theorem takeAll_of_behindTokens {ts : List Token} {os : List OpenBracket}
    (hParts : ∀ t ∈ ts, t.kind.isPart = true)
    (h : behindTokens previous ts (openings p.waiting) = some os) :
    ∃ q, p.takeAll previous ts = .ok q ∧ openings q.waiting = os := by
  induction ts generalizing p previous with
  | nil =>
    cases h
    exact ⟨p, rfl, rfl⟩
  | cons t ts ih =>
    obtain ⟨hPart, hRest⟩ := List.forall_mem_cons.1 hParts
    rw [behindTokens, Option.bind_eq_some_iff] at h
    obtain ⟨next, hToken, hBehind⟩ := h
    obtain ⟨q, hTake, rfl⟩ := take_of_behindToken hPart hToken
    obtain ⟨q', hAll, hOpen⟩ := ih hRest hBehind
    exact ⟨q', by rw [takeAll, hTake]; exact hAll, hOpen⟩

/-- What is to become of a statement that ends when brackets are open. -/
def Finishes (answer : Except Failure (List Instruction)) : List OpenBracket → Prop
  | [] => ∃ code, answer = .ok code
  | o :: _ => answer = .error (.atSpan SyntaxFault.noRightBracket o.span)

/-- At the end the innermost bracket that is open is complained about. -/
theorem finishes_finishing (depth : Nat) (emitted : List Instruction) (waiting : List Waiting) :
    Finishes (finishing depth emitted waiting) (openings waiting) := by
  induction waiting generalizing emitted with
  | nil => exact ⟨_, rfl⟩
  | cons w waiting ih =>
    obtain ⟨op, span⟩ := w
    unfold finishing
    split
    · rename_i hOpener
      obtain ⟨b, rfl⟩ := exists_of_isOpener hOpener
      rfl
    · rename_i hOperator
      rw [openings_operator (Bool.eq_false_of_not_eq_true hOperator)]
      exact ih _

end Pass

/-! ## Statements -/

variable {ts : List Token}

/-- The pass gets to a closer if the brackets can be followed up to it. What it makes of the closer
is what it makes of the statement, if it refuses it. -/
theorem ofTokens_of_closer {pre post : List Token} {b : Bracket} {span : Span}
    {os : List OpenBracket} {e : Failure} (hParts : ∀ t ∈ ts, t.kind.isPart = true)
    (hSplit : ts = pre ++ ⟨.operator (.closer b), span⟩ :: post) (hPre : openBehind pre = some os)
    (hRefuses : ∀ answer, Closes b span answer os → answer = .error e) :
    ofTokens ts = .error e := by
  -- the pass comes to the closer with the stack that `openBehind` gives
  subst hSplit
  obtain ⟨q, hTake, hOpen⟩ := takeAll_of_behindTokens (p := {})
    (fun t ht => hParts t (List.mem_append_left _ ht)) hPre
  have hClosing := closes_closing b span q.depth q.emitted q.waiting
  rw [hOpen] at hClosing
  have hRefused : q.take (lastKind none pre) ⟨.operator (.closer b), span⟩ = .error e :=
    hRefuses _ hClosing
  unfold ofTokens
  rw [takeAll_append, hTake]
  simp only [takeAll, hRefused]

/-- When no closer is out of place, the brackets that are left open decide. -/
theorem finishes_ofTokens {os : List OpenBracket} (hParts : ∀ t ∈ ts, t.kind.isPart = true)
    (h : openBehind ts = some os) : Finishes (ofTokens ts) os := by
  obtain ⟨q, hTake, rfl⟩ := takeAll_of_behindTokens (p := {}) hParts h
  unfold ofTokens
  rw [hTake]
  exact finishes_finishing q.depth q.emitted q.waiting

/-- **What is wrong with the brackets is what is reported.** -/
theorem Misplaced.ofTokens {fault : SyntaxFault} {span : Span} (h : Misplaced ts fault span)
    (hParts : ∀ t ∈ ts, t.kind.isPart = true) :
    ofTokens ts = .error (.atSpan fault span) := by
  cases h with
  | unopened hSplit hPre => exact ofTokens_of_closer hParts hSplit hPre fun _ hCloses => hCloses
  | crossed hSplit hPre hOther =>
    refine ofTokens_of_closer hParts hSplit hPre fun _ hCloses => ?_
    rwa [Closes, hOther] at hCloses
  | unclosed hOpen => exact finishes_ofTokens hParts hOpen

/-- **Brackets alone decide whether a statement can be put into postfix order.** It can if and only
if they match. Otherwise the failure is that of the first closer that is out of place, or of the
innermost bracket that is left open, and no other. -/
theorem brackets_decide (hParts : ∀ t ∈ ts, t.kind.isPart = true) :
    ((∃ code, ofTokens ts = .ok code) ↔ openBehind ts = some []) ∧
      ∀ e, ofTokens ts = .error e ↔
        ∃ fault span, Misplaced ts fault span ∧ e = .atSpan fault span := by
  have hRefused (h : openBehind ts ≠ some []) :
      ∃ fault span, Misplaced ts fault span ∧ ofTokens ts = .error (.atSpan fault span) := by
    obtain ⟨fault, span, hMisplaced⟩ := exists_misplaced h
    exact ⟨fault, span, hMisplaced, hMisplaced.ofTokens hParts⟩
  -- whatever is not matched has been refused, so neither answer leaves room for the other
  refine ⟨⟨?_, finishes_ofTokens hParts⟩, fun e => ⟨?_, ?_⟩⟩
  · rintro ⟨code, hCode⟩
    by_contra hOpen
    obtain ⟨fault, span, -, hError⟩ := hRefused hOpen
    rw [hCode] at hError
    cases hError
  · intro hError
    have hOpen : openBehind ts ≠ some [] := by
      intro hBalanced
      obtain ⟨code, hCode⟩ := finishes_ofTokens hParts hBalanced
      rw [hCode] at hError
      cases hError
    obtain ⟨fault, span, hMisplaced, hSame⟩ := hRefused hOpen
    rw [hError] at hSame
    exact ⟨fault, span, hMisplaced, Except.error.inj hSame⟩
  · rintro ⟨fault, span, hMisplaced, rfl⟩
    exact hMisplaced.ofTokens hParts

/-- The tokens of `f(a * {1 - 2)]`: the `)` meets the bracket of the array. -/
def crossing : List Token :=
  [⟨.identifier, ⟨0, 1⟩⟩, ⟨.operator (.opener .group), ⟨1, 2⟩⟩, ⟨.identifier, ⟨2, 3⟩⟩,
    ⟨.operator .mul, ⟨4, 5⟩⟩, ⟨.operator (.opener .array), ⟨6, 7⟩⟩,
    ⟨.number (some .decimal), ⟨7, 8⟩⟩, ⟨.operator .sub, ⟨9, 10⟩⟩,
    ⟨.number (some .decimal), ⟨11, 12⟩⟩, ⟨.operator (.closer .group), ⟨12, 13⟩⟩,
    ⟨.operator (.closer .index), ⟨13, 14⟩⟩]

/-- Two operators and a call wait around the bracket that is crossed, and another closer that is out
of place comes behind. -/
theorem brackets_decide_crossing :
    (∀ t ∈ crossing, t.kind.isPart = true) ∧
      ofTokens crossing = .error (.atSpan SyntaxFault.crossedBrackets ⟨12, 13⟩) := by
  have hParts : ∀ t ∈ crossing, t.kind.isPart = true := by decide
  have hSplit : crossing =
      crossing.take 8 ++ ⟨.operator (.closer .group), ⟨12, 13⟩⟩ :: crossing.drop 9 := rfl
  have hOpen : openBehind (crossing.take 8) = some [⟨.array, ⟨6, 7⟩⟩, ⟨.call, ⟨1, 2⟩⟩] := rfl
  have hMisplaced : Misplaced crossing .crossedBrackets ⟨12, 13⟩ := .crossed hSplit hOpen rfl
  exact ⟨hParts, ((brackets_decide hParts).2 _).2 ⟨_, _, hMisplaced, rfl⟩⟩

end Postfix

end Reckon
