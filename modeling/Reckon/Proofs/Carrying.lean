import Reckon.Proofs.Heights
import Reckon.Proofs.Reading

/-!
# Spans are carried along

To compile a statement is to look at what its tokens are and never at where they stand. Spans are
copied from tokens to instructions and into failures, and that is all that becomes of them. So the
same statement at another place compiles to the same program at that place, or fails with the same
failure (`Program.ofTokens_moved`), whatever the relation is between the spans here and there. With
the relation that holds of a span and itself, for the spans of the tokens only, this says that every
instruction points at a token (`Program.span_mem_of_ofTokens`).
-/

namespace Reckon

variable {R : Span → Span → Prop}

/-! ## The same thing at another place -/

/-- The same token at a related span. -/
def Token.Moved (R : Span → Span → Prop) (t u : Token) : Prop := u.kind = t.kind ∧ R t.span u.span

/-- The same instruction at a related span. -/
def Instruction.Moved (R : Span → Span → Prop) (i j : Instruction) : Prop :=
  j.kind = i.kind ∧ j.depth = i.depth ∧ R i.span j.span

/-- The same failure, pointing at a related span or nowhere. Rows and columns are another matter. -/
structure Failure.Moved (R : Span → Span → Prop) (e e' : Failure) : Prop where
  fault : e'.fault = e.fault
  count : e'.count = e.count
  span : Option.Rel R e.span e'.span

/-- Answers of which both are results, and related, or both are the same failure. -/
inductive Answers {α β : Type} (R : Span → Span → Prop) (A : α → β → Prop) :
    Except Failure α → Except Failure β → Prop
  | ok {a : α} {b : β} (h : A a b) : Answers R A (.ok a) (.ok b)
  | error {e e' : Failure} (h : e.Moved R e') : Answers R A (.error e) (.error e')

theorem Answers.atSpan {α β : Type} {A : α → β → Prop} {span span' : Span} (hSpan : R span span')
    (fault : Fault) : Answers R A (.error (.atSpan fault span)) (.error (.atSpan fault span')) :=
  .error ⟨rfl, rfl, .some hSpan⟩

/-! ## Postfix order -/

namespace Postfix

/-- The same operator, waiting at a related span. -/
def Waiting.Moved (R : Span → Span → Prop) (v w : Waiting) : Prop := w.op = v.op ∧ R v.span w.span

namespace Pass

/-- The same state of the pass over a statement at another place. -/
structure Moved (R : Span → Span → Prop) (p q : Pass) : Prop where
  emitted : List.Forall₂ (Instruction.Moved R) p.emitted q.emitted
  waiting : List.Forall₂ (Waiting.Moved R) p.waiting q.waiting
  depth : q.depth = p.depth

variable {p q : Pass} {span span' : Span}

theorem moved_start : Moved R {} {} := ⟨.nil, .nil, rfl⟩

theorem Moved.emit (h : p.Moved R q) (kind : InstructionKind) (hSpan : R span span') :
    (p.emit kind span).Moved R (q.emit kind span') :=
  ⟨.cons ⟨rfl, h.depth, hSpan⟩ h.emitted, h.waiting, h.depth⟩

/-- The opener is emitted and waits at the same place, and both passes go one bracket deeper. -/
theorem Moved.opening (h : p.Moved R q) (b : Bracket) (hSpan : R span span') :
    (p.opening b span).Moved R (q.opening b span') :=
  ⟨(h.emit _ hSpan).emitted, .cons ⟨rfl, hSpan⟩ h.waiting, congrArg (· + 1) h.depth⟩

/-- To close a bracket is to go back through what waits, and the spans play no part in how far. -/
theorem moved_closing {emitted emitted' : List Instruction} {waiting waiting' : List Waiting}
    (hWaiting : List.Forall₂ (Waiting.Moved R) waiting waiting')
    (hEmitted : List.Forall₂ (Instruction.Moved R) emitted emitted') (b : Bracket) (depth : Nat)
    (hSpan : R span span') :
    Answers R (Moved R) (closing b span depth emitted waiting)
      (closing b span' depth emitted' waiting') := by
  -- the induction is on what waits, and what is emitted grows on both sides alike
  induction hWaiting generalizing emitted emitted' with
  | nil => exact .atSpan hSpan _
  | @cons v w waiting waiting' hFirst hRest ih =>
    obtain ⟨_, place⟩ := v
    obtain ⟨op, place'⟩ := w
    obtain ⟨hOp, hPlace⟩ := hFirst
    dsimp only at hOp hPlace
    subst hOp
    cases op with
    | opener opened =>
      -- here the search ends, whether the brackets match or not
      unfold closing
      cases matching? opened b with
      | none => exact .atSpan hSpan _
      | some closed => exact .ok ⟨.cons ⟨rfl, rfl, hSpan⟩ hEmitted, hRest, rfl⟩
    | _ =>
      -- an operator is emitted, and the search goes on
      exact ih (.cons ⟨rfl, rfl, hPlace⟩ hEmitted)

/-- An operator releases the same operators there, for only their priorities are compared. -/
theorem moved_releasing {emitted emitted' : List Instruction} {waiting waiting' : List Waiting}
    (hWaiting : List.Forall₂ (Waiting.Moved R) waiting waiting')
    (hEmitted : List.Forall₂ (Instruction.Moved R) emitted emitted') (op : Operator)
    (depth : Nat) :
    List.Forall₂ (Instruction.Moved R) (releasing op depth emitted waiting).1
        (releasing op depth emitted' waiting').1 ∧
      List.Forall₂ (Waiting.Moved R) (releasing op depth emitted waiting).2
        (releasing op depth emitted' waiting').2 := by
  induction hWaiting generalizing emitted emitted' with
  | nil => exact ⟨hEmitted, .nil⟩
  | @cons v w waiting waiting' hFirst hRest ih =>
    unfold releasing
    rw [hFirst.1]
    split
    · exact ih (.cons ⟨rfl, rfl, hFirst.2⟩ hEmitted)
    · exact ⟨hEmitted, .cons hFirst hRest⟩

/-- The operator waits behind what it has released. -/
theorem Moved.operator (h : p.Moved R q) (op : Operator) (hSpan : R span span') :
    (p.operator op span).Moved R (q.operator op span') := by
  obtain ⟨hEmitted, hWaiting⟩ := moved_releasing h.waiting h.emitted op p.depth
  -- what was released goes first, and then the operator waits in its turn
  unfold Pass.operator
  rw [h.depth]
  exact ⟨hEmitted, .cons ⟨rfl, hSpan⟩ hWaiting, rfl⟩

/-- A token is taken in the same way at another place, or refused there for the same reason. -/
theorem Moved.take {t u : Token} (h : p.Moved R q) (previous : Option TokenKind)
    (hToken : t.Moved R u) : Answers R (Moved R) (p.take previous t) (q.take previous u) := by
  obtain ⟨_, span⟩ := t
  obtain ⟨kind, span'⟩ := u
  obtain ⟨hKind, hSpan⟩ := hToken
  dsimp only at hKind hSpan
  subst hKind
  -- the cases are those of `take`
  cases kind with
  | number numeral =>
    cases numeral with
    | none => exact .atSpan hSpan _
    | some numeral => exact .ok (h.emit _ hSpan)
  | identifier => exact .ok (h.emit _ hSpan)
  | operator op =>
    cases op with
    | opener b => cases b <;> exact .ok (h.opening _ hSpan)
    | closer b =>
      have hClosed := moved_closing h.waiting h.emitted b p.depth hSpan
      -- both passes are inside as many brackets
      unfold Pass.take
      rw [h.depth]
      exact hClosed
    | semicolon => exact .ok h
    | _ => exact .ok (h.operator _ hSpan)
  | endOfText | space | invalid => exact .atSpan hSpan _

/-- So is any number of tokens. The kind of the token in front is the same as well. -/
theorem Moved.takeAll {ts us : List Token} (h : p.Moved R q) (previous : Option TokenKind)
    (hTokens : List.Forall₂ (Token.Moved R) ts us) :
    Answers R (Moved R) (p.takeAll previous ts) (q.takeAll previous us) := by
  induction hTokens generalizing p q previous with
  | nil => exact .ok h
  | @cons t u ts us hFirst hRest ih =>
    -- either both passes go on or both fail
    have hTaken := h.take previous hFirst
    unfold Pass.takeAll
    rw [hFirst.1]
    generalize p.take previous t = answer, q.take previous u = answer' at hTaken
    cases hTaken with
    | ok hNext => exact ih hNext _
    | error hFailure => exact .error hFailure

/-- What waits at the end is emitted, or is a bracket that nobody has closed. -/
theorem moved_finishing {emitted emitted' : List Instruction} {waiting waiting' : List Waiting}
    (hWaiting : List.Forall₂ (Waiting.Moved R) waiting waiting')
    (hEmitted : List.Forall₂ (Instruction.Moved R) emitted emitted') (depth : Nat) :
    Answers R (List.Forall₂ (Instruction.Moved R)) (finishing depth emitted waiting)
      (finishing depth emitted' waiting') := by
  induction hWaiting generalizing emitted emitted' with
  | nil => exact .ok (List.rel_reverse hEmitted)
  | @cons v w waiting waiting' hFirst hRest ih =>
    unfold finishing
    rw [hFirst.1]
    -- a bracket that was never closed is pointed at, anything else is emitted
    split
    · exact .atSpan hFirst.2 _
    · exact ih (.cons ⟨rfl, rfl, hFirst.2⟩ hEmitted)

end Pass

/-- **The same statement at another place has the same postfix sequence there.** -/
theorem ofTokens_moved {ts us : List Token} (hTokens : List.Forall₂ (Token.Moved R) ts us) :
    Answers R (List.Forall₂ (Instruction.Moved R)) (ofTokens ts) (ofTokens us) := by
  have hTaken := Pass.moved_start.takeAll none hTokens
  unfold ofTokens
  generalize Pass.takeAll {} none ts = answer, Pass.takeAll {} none us = answer' at hTaken
  cases hTaken with
  -- both passes are done, and have the same instructions and operators to hand over
  | @ok p q hEnd =>
    show Answers R _ p.finish q.finish
    unfold Pass.finish
    rw [hEnd.depth]
    exact Pass.moved_finishing hEnd.waiting hEnd.emitted _
  | error hFailure => exact .error hFailure

/-! ## A statement with a token has an instruction -/

namespace Pass

/-- Something has been emitted or waits. -/
def Begun (p : Pass) : Prop := p.emitted ≠ [] ∨ p.waiting ≠ []

/-- A bracket that has been closed is among what was emitted. -/
theorem begun_closing {b : Bracket} {span : Span} {depth : Nat} {emitted : List Instruction}
    {waiting : List Waiting} {p : Pass} (h : closing b span depth emitted waiting = .ok p) :
    p.Begun := by
  -- the search for the opener goes on behind an operator, and ends at an opener or at the end
  fun_induction closing b span depth emitted waiting with
  | case1 => cases h
  | case2 => cases h
  | case3 => cases h; exact .inl (List.cons_ne_nil _ _)
  | case4 _ _ _ _ _ ih => exact ih h

/-- A token that can be written leaves something behind, emitted or waiting. -/
theorem begun_take {p q : Pass} {previous : Option TokenKind} {t : Token}
    (h : p.take previous t = .ok q) (ht : t.kind.isWritten = true) : q.Begun := by
  unfold Pass.take at h
  -- only a terminator leaves nothing, and no statement has one in it
  split at h
  · cases h; exact .inl (List.cons_ne_nil _ _)
  · cases h; exact .inl (List.cons_ne_nil _ _)
  · cases h; exact .inl (List.cons_ne_nil _ _)
  · cases h; exact .inl (List.cons_ne_nil _ _)
  · exact begun_closing h
  · rename_i hKind
    rw [hKind] at ht
    cases ht
  · cases h; exact .inr (List.cons_ne_nil _ _)
  · cases h
  all_goals cases h

/-- A pass over some tokens has begun. -/
theorem begun_takeAll {ts : List Token} {p q : Pass} {previous : Option TokenKind}
    (hWritten : ∀ t ∈ ts, t.kind.isWritten = true) (hSome : ts ≠ [] ∨ p.Begun)
    (h : p.takeAll previous ts = .ok q) : q.Begun := by
  induction ts generalizing p previous with
  | nil =>
    cases h
    exact hSome.resolve_left (absurd rfl)
  | cons t ts ih =>
    obtain ⟨hFirst, hRest⟩ := List.forall_mem_cons.1 hWritten
    unfold Pass.takeAll at h
    split at h
    · cases h
    · rename_i hTake
      exact ih hRest (.inr (begun_take hTake hFirst)) h

/-- A pass that has begun gives some instructions in the end. -/
theorem ne_nil_of_finishing {depth : Nat} {emitted code : List Instruction}
    {waiting : List Waiting} (hSome : emitted ≠ [] ∨ waiting ≠ [])
    (h : finishing depth emitted waiting = .ok code) : code ≠ [] := by
  induction waiting generalizing emitted with
  | nil =>
    cases h
    simpa using hSome
  | cons w waiting ih =>
    unfold finishing at h
    split at h
    · cases h
    · exact ih (.inl (List.cons_ne_nil _ _)) h

end Pass

/-- **A statement with a token in it has an instruction.** -/
theorem ne_nil_of_ofTokens {ts : List Token} {code : List Instruction} (hSome : ts ≠ [])
    (hWritten : ∀ t ∈ ts, t.kind.isWritten = true) (h : ofTokens ts = .ok code) : code ≠ [] := by
  unfold ofTokens at h
  split at h
  · cases h
  · rename_i p hTaken
    exact Pass.ne_nil_of_finishing (Pass.begun_takeAll hWritten (.inl hSome) hTaken) h

end Postfix

/-! ## Programs -/

namespace Program

namespace Heights

variable {i j : Instruction} {span span' : Span}

/-- How many values are inside a bracket is told from heights, and only the complaint has a
place. -/
theorem moved_valuesInside (h : Heights) (hSpan : R span span') :
    Answers R (· = ·) (h.valuesInside span) (h.valuesInside span') := by
  unfold valuesInside
  split
  · exact .atSpan hSpan _
  split
  · split
    · exact .atSpan hSpan _
    · exact .ok rfl
  · exact .ok rfl

/-- To close a bracket leads to the same heights, or fails in the same way there. -/
theorem moved_closing (h : Heights) (b : Bracket) (hSpan : R span span') :
    Answers R (· = ·) (h.closing b span) (h.closing b span') := by
  have hInside := moved_valuesInside h hSpan
  unfold Heights.closing
  cases h.outer with
  | nil => exact .atSpan hSpan _
  | cons level outer =>
    dsimp only
    generalize h.valuesInside span = answer, h.valuesInside span' = answer' at hInside
    cases hInside with
    | error hFailure => exact .error hFailure
    | @ok inside _ hSame =>
      -- the heights are the same, so the same is found wrong with them
      subst hSame
      -- groups and arrays ask for nothing more; an index and a call want something in front of them
      cases b with
      | group | array => exact .ok rfl
      | index =>
        dsimp only
        split
        · exact .atSpan hSpan _
        split
        · exact .atSpan hSpan _
        · exact .ok rfl
      | call =>
        dsimp only
        split
        · exact .atSpan hSpan _
        · exact .ok rfl

/-- The heights behind an instruction depend on its kind. -/
theorem moved_step (h : Heights) (hInstruction : i.Moved R j) :
    Answers R (· = ·) (h.step i) (h.step j) := by
  obtain ⟨hKind, -, hSpan⟩ := hInstruction
  unfold Heights.step
  rw [hKind]
  cases i.kind with
  | number | name => exact .ok rfl
  | operator op =>
    cases op with
    | opener b => exact .ok rfl
    | closer b => exact moved_closing h b hSpan
    | comma =>
      dsimp only [Heights.comma]
      split
      · exact .atSpan hSpan _
      · exact .ok rfl
    | semicolon => exact .ok rfl
    -- what is left needs operands, one or two of them
    | _ =>
      dsimp only [Heights.prefixed, Heights.binary]
      split
      · split
        · exact .atSpan hSpan _
        · exact .ok rfl
      · split
        · exact .atSpan hSpan _
        · exact .ok rfl

/-- **The heights are the same everywhere**, and they fail at related places. -/
theorem moved_play {code code' : List Instruction} (h : Heights)
    (hCode : List.Forall₂ (Instruction.Moved R) code code') :
    Answers R (· = ·) (h.play code) (h.play code') := by
  induction hCode generalizing h with
  | nil => exact .ok rfl
  | @cons i j code code' hFirst hRest ih =>
    have hStep := moved_step h hFirst
    unfold Heights.play
    generalize h.step i = answer, h.step j = answer' at hStep
    cases hStep with
    | error hFailure => exact .error hFailure
    | ok hSame =>
      subst hSame
      exact ih _

end Heights

/-- The same program at another place. -/
structure Moved (R : Span → Span → Prop) (p q : Program) : Prop where
  valueRoom : q.valueRoom = p.valueRoom
  movedRoom : q.movedRoom = p.movedRoom
  bracketRoom : q.bracketRoom = p.bracketRoom
  code : List.Forall₂ (Instruction.Moved R) p.code q.code

/-- The last instruction here is the last one there. -/
theorem moved_getLast? {code code' : List Instruction}
    (hCode : List.Forall₂ (Instruction.Moved R) code code') :
    Option.Rel (Instruction.Moved R) code.getLast? code'.getLast? := by
  induction hCode with
  | nil => exact .none
  -- if there is nothing behind the first instruction, it is the last one itself
  | @cons i j code code' hFirst hRest ih =>
    rw [List.getLast?_cons, List.getLast?_cons]
    generalize code.getLast? = last, code'.getLast? = last' at ih
    cases ih with
    | none => exact .some hFirst
    | some hLast => exact .some hLast

/-- A sequence that is fit to be run is so at another place, and takes the same room there. -/
theorem ofPostfix_moved {code code' : List Instruction} (hSome : code ≠ [])
    (hCode : List.Forall₂ (Instruction.Moved R) code code') :
    Answers R (Program.Moved R) (ofPostfix code) (ofPostfix code') := by
  have hPlay := Heights.moved_play {} hCode
  -- the last instruction is pointed at, and there is one
  have hLast : R ((code.getLast?.map (·.span)).getD ⟨0, 0⟩)
      ((code'.getLast?.map (·.span)).getD ⟨0, 0⟩) := by
    have hRel := moved_getLast? hCode
    have hThere : code.getLast? ≠ none := mt List.getLast?_eq_none_iff.1 hSome
    generalize code.getLast? = last, code'.getLast? = last' at hRel hThere
    cases hRel with
    | none => exact absurd rfl hThere
    | some hMoved => exact hMoved.2.2
  unfold ofPostfix
  generalize Heights.play {} code = answer, Heights.play {} code' = answer' at hPlay
  cases hPlay with
  | error hFailure => exact .error hFailure
  | @ok h _ hSame =>
    subst hSame
    dsimp only
    split
    · exact .ok ⟨rfl, rfl, rfl, hCode⟩
    · exact .atSpan hLast _

/-- **The same statement at another place compiles to the same program there**, or fails in the same
way. -/
theorem ofTokens_moved {ts us : List Token} (hSome : ts ≠ [])
    (hWritten : ∀ t ∈ ts, t.kind.isWritten = true)
    (hTokens : List.Forall₂ (Token.Moved R) ts us) :
    Answers R (Program.Moved R) (ofTokens ts) (ofTokens us) := by
  have hCode := Postfix.ofTokens_moved hTokens
  -- a sequence without instructions would be pointed at nowhere
  have hNonempty (code : List Instruction) (h : Postfix.ofTokens ts = .ok code) :=
    Postfix.ne_nil_of_ofTokens hSome hWritten h
  unfold ofTokens
  generalize Postfix.ofTokens ts = answer, Postfix.ofTokens us = answer' at hCode hNonempty
  cases hCode with
  | error hFailure => exact .error hFailure
  | ok hSame => exact ofPostfix_moved (hNonempty _ rfl) hSame

/-- **Every instruction of a program points at a token.** -/
theorem span_mem_of_ofTokens {ts : List Token} {p : Program} (h : ofTokens ts = .ok p) :
    ∀ i ∈ p.code, ∃ t ∈ ts, i.span = t.span := by
  -- the statement is put at its own place, with the spans of its tokens only
  have hTokens : List.Forall₂ (Token.Moved fun s s' => s' = s ∧ ∃ t ∈ ts, s = t.span) ts ts :=
    List.forall₂_same.2 fun t ht => ⟨rfl, rfl, t, ht, rfl⟩
  have hCode := Postfix.ofTokens_moved hTokens
  unfold ofTokens at h
  cases hEq : Postfix.ofTokens ts with
  | error e => rw [hEq] at h; cases h
  | ok code =>
    rw [hEq] at h hCode
    cases hCode with
    | ok hSame =>
      obtain ⟨-, -, -, -, rfl⟩ := exists_play_of_ofPostfix h
      exact fun i hi => (List.forall₂_same.1 hSame i hi).2.2.2

end Program

end Reckon
