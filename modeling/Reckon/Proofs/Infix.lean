import Reckon.Proofs.Precedence

/-!
# Expressions from left to right

Where a token may stand depends on whether an operand ends in front of it (`Postfix.wellPlaced`).
The tokens of every expression are placed so.

An expression can also be built up along its tokens. Behind some tokens an operand may be awaited
(`Awaits`), or the last operand is there and may be taken further by a bracket (`Complete`). An
operand that comes completes what was awaited; an operator that comes takes as much of what stands
in front of it as binds more tightly, which is found on the right edge of the tree.
-/

namespace Reckon

/-- Whether an operand can end with the token: with a number, a name or a closing bracket. -/
def TokenKind.endsOperand : TokenKind → Bool
  | .number _ | .identifier | .operator (.closer _) => true
  | _ => false

namespace Postfix

open Pass

/-! ## Where tokens may stand -/

/-- Whether an operand ends in front. -/
def behindOperand (previous : Option TokenKind) : Bool := previous.any TokenKind.endsOperand

/-- Whether a token may stand behind another one. An operand begins where none ends. An index stands
behind an operand, and a `(` behind one that can be called. -/
def placed (previous : Option TokenKind) : TokenKind → Bool
  | .number _ | .identifier | .operator (.opener .array) => !behindOperand previous
  | .operator (.opener .group) => opensCall previous || !behindOperand previous
  | .operator (.opener _) => behindOperand previous
  | .operator op => !op.isPrefix || !behindOperand previous
  | _ => true

/-- Whether each token may stand behind the one in front of it. -/
def wellPlaced : Option TokenKind → List Token → Bool
  | _, [] => true
  | previous, t :: ts => placed previous t.kind && wellPlaced (some t.kind) ts

theorem behindOperand_of_opensCall {previous : Option TokenKind} (h : opensCall previous) :
    behindOperand previous := by
  unfold opensCall at h
  split at h
  · rfl
  · rfl
  · rfl
  · cases h

theorem lastKind_cons (previous : Option TokenKind) (t : Token) (ts : List Token) :
    lastKind previous (t :: ts) = lastKind (some t.kind) ts := by
  have hLast := lastKind_append_cons previous [] ts t
  rwa [List.nil_append] at hLast

theorem lastKind_append_append (previous : Option TokenKind) (ts us : List Token) :
    lastKind previous (ts ++ us) = lastKind (lastKind previous ts) us := by
  cases us with
  | nil => simp [lastKind]
  | cons u us => rw [lastKind_append_cons, lastKind_cons]

theorem wellPlaced_append (previous : Option TokenKind) (ts us : List Token) :
    wellPlaced previous (ts ++ us) =
      (wellPlaced previous ts && wellPlaced (lastKind previous ts) us) := by
  induction ts generalizing previous with
  | nil => rfl
  | cons t ts ih => rw [List.cons_append, wellPlaced, ih, wellPlaced, lastKind_cons, Bool.and_assoc]

/-- Each of the tokens stands where it may. -/
theorem placed_of_wellPlaced {previous : Option TokenKind} {pre post : List Token} {t : Token}
    (h : wellPlaced previous (pre ++ t :: post)) : placed (lastKind previous pre) t.kind := by
  rw [wellPlaced_append, wellPlaced, Bool.and_eq_true, Bool.and_eq_true] at h
  exact h.2.1

/-! ## The tokens of an expression -/

/-- Behind an expression an operand ends. -/
theorem behindOperand_lastKind (previous : Option TokenKind) :
    ∀ e : Expr, behindOperand (lastKind previous e.tokens)
  | .number _ _ | .name _ => rfl
  | .prefixed op span e => by
    rw [Expr.tokens, lastKind_cons]
    exact behindOperand_lastKind _ e
  | .binary _ _ l r | .comma _ l r => by
    rw [Expr.tokens, lastKind_append_cons]
    exact behindOperand_lastKind _ r
  | .call _ _ _ _ | .index _ _ _ _ => by
    rw [Expr.tokens, lastKind_enclose]
    rfl
  | .group o c contents => by
    have hLast := lastKind_enclose previous [] .group o c contents.tokens
    rw [List.nil_append] at hLast
    rw [Expr.tokens, hLast]
    rfl
  | .array o c contents => by
    have hLast := lastKind_enclose previous [] .array o c contents.tokens
    rw [List.nil_append] at hLast
    rw [Expr.tokens, hLast]
    rfl

/-- Brackets that may open where they stand are well placed if what stands between them is. -/
theorem wellPlaced_enclose {previous : Option TokenKind} {b : Bracket} (o c : Span)
    {ts : List Token} (hOpen : placed previous (.operator (.opener b.written)))
    (hInside : wellPlaced (some (.operator (.opener b.written))) ts) :
    wellPlaced previous (encloseTokens b o c ts) := by
  rw [encloseTokens, wellPlaced, hOpen, wellPlaced_append, hInside]
  rfl

end Postfix

open Postfix Postfix.Pass

/-- No operand ends with an operator that stands in front of one. -/
theorem behindOperand_operator {op : Operator} (hLow : 2 ≤ op.priority) :
    behindOperand (some (.operator op)) = false := by
  cases op <;> first | rfl | simp [Operator.priority] at hLow

/-- An operator may stand between operands wherever it comes. -/
theorem placed_operator {op : Operator} (hLow : 3 ≤ op.priority) (previous : Option TokenKind) :
    placed previous (.operator op) := by
  cases op <;> first | rfl | simp [Operator.priority] at hLow

/-- An operator that stands in front of an operand may stand where no operand ends. -/
theorem placed_of_isPrefix {op : Operator} (hOp : op.isPrefix) (previous : Option TokenKind) :
    placed previous (.operator op) = !behindOperand previous := by
  cases op <;> simp_all [placed, Operator.isPrefix, Operator.priority]

mutual

/-- **The tokens of an expression stand where they may.** -/
theorem Expr.Fits.wellPlaced : ∀ {e : Expr}, e.Fits → ∀ {previous : Option TokenKind},
    behindOperand previous = false → Postfix.wellPlaced previous e.tokens
  | .number _ _, _, previous, hPrevious | .name _, _, previous, hPrevious => by
    simp [Expr.tokens, Postfix.wellPlaced, placed, hPrevious]
  | .prefixed op span e, h, previous, hPrevious => by
    have hTwo := op.priority_eq
    rw [Expr.tokens, Postfix.wellPlaced, placed_of_isPrefix op.2, hPrevious, Bool.not_false,
      Bool.true_and]
    exact h.2.wellPlaced (behindOperand_operator (Nat.le_of_eq hTwo.symm))
  | .binary op span l r, h, previous, hPrevious => by
    obtain ⟨⟨-, hl⟩, -, hr⟩ := h
    have hLow := op.priority_bounds.1
    rw [Expr.tokens, wellPlaced_append, hl.wellPlaced hPrevious, Postfix.wellPlaced,
      placed_operator hLow, Bool.true_and, Bool.true_and]
    exact hr.wellPlaced (behindOperand_operator (by omega))
  | .comma span l r, h, previous, hPrevious => by
    obtain ⟨⟨-, hl⟩, -, hr⟩ := h
    rw [Expr.tokens, wellPlaced_append, hl.wellPlaced hPrevious, Postfix.wellPlaced,
      placed_operator (by decide), Bool.true_and, Bool.true_and]
    exact hr.wellPlaced rfl
  | .group o c contents, h, previous, hPrevious => by
    have hContents : contents.Fits := h
    exact wellPlaced_enclose o c (by simp [Bracket.written, placed, hPrevious])
      (hContents.wellPlaced rfl)
  | .array o c contents, h, previous, hPrevious => by
    have hContents : contents.Fits := h
    exact wellPlaced_enclose o c (by simp [Bracket.written, placed, hPrevious])
      (hContents.wellPlaced rfl)
  | .call f o c contents, h, previous, hPrevious => by
    obtain ⟨⟨hCallee, hf⟩, hContents⟩ := h
    rw [Expr.tokens, wellPlaced_append, hf.wellPlaced hPrevious, Bool.true_and]
    exact wellPlaced_enclose o c (by simp [Bracket.written, placed, opensCall_lastKind hCallee])
      (hContents.wellPlaced rfl)
  | .index e o c i, h, previous, hPrevious => by
    obtain ⟨⟨-, he⟩, hi⟩ := h
    rw [Expr.tokens, wellPlaced_append, he.wellPlaced hPrevious, Bool.true_and]
    exact wellPlaced_enclose o c (behindOperand_lastKind previous e) (hi.wellPlaced rfl)

/-- The same between brackets. -/
theorem Contents.Fits.wellPlaced : ∀ {contents : Contents}, contents.Fits →
    ∀ {previous : Option TokenKind}, behindOperand previous = false →
      Postfix.wellPlaced previous contents.tokens
  | .empty, _, _, _ => rfl
  | .list e, h, previous, hPrevious => by
    have he : e.Fits := h
    exact he.wellPlaced hPrevious

end

/-! ## Growing an expression -/

namespace Expr

/-- An operator with two operands that fit it. -/
theorem Fits.exists_join {op : Operator} (span : Span) (hLow : 3 ≤ op.priority)
    (hHigh : op.priority ≤ 15) {l r : Expr} (hl : l.Fits) (hr : r.Fits)
    (hLeft : l.level ≤ op.leftBound) (hRight : r.level ≤ 2) :
    ∃ e : Expr, e.Fits ∧ e.level = op.priority ∧
      e.tokens = l.tokens ++ ⟨.operator op, span⟩ :: r.tokens := by
  -- a comma has a constructor of its own
  by_cases hComma : op = .comma
  · subst hComma
    have hFourteen : Operator.comma.rightBound = 14 := rfl
    exact ⟨.comma span l r, ⟨⟨hLeft, hl⟩, by omega, hr⟩, rfl, rfl⟩
  · have hBinary : op.isBinary := by
      cases op <;> first | rfl | exact absurd rfl hComma | simp [Operator.priority] at hLow hHigh
    have hBounds := BinaryOperator.bounds ⟨op, hBinary⟩
    have hRight' : r.level ≤ op.rightBound := by
      dsimp only at hBounds
      omega
    exact ⟨.binary ⟨op, hBinary⟩ span l r, ⟨⟨hLeft, hl⟩, hRight', hr⟩, rfl, rfl⟩

/-- The same as an expression grows. -/
theorem Fits.exists_whole {op : Operator} (span : Span) (hLow : 3 ≤ op.priority)
    (hHigh : op.priority ≤ 15) {e u : Expr} (he : e.Fits) (hu : u.Fits) (hLevel : u.level ≤ 2)
    (hLeft : e.level ≤ op.leftBound) :
    ∃ e' : Expr, e'.Fits ∧ e'.level ≤ max e.level op.priority ∧
      e'.tokens = e.tokens ++ ⟨.operator op, span⟩ :: u.tokens := by
  obtain ⟨e', he', hSame, hTokens⟩ := he.exists_join span hLow hHigh hu hLeft hLevel
  exact ⟨e', he', by omega, hTokens⟩

/-- To the left of an operator between operands may stand what a prefix operator makes. -/
theorem two_le_leftBound {op : Operator} (hLow : 3 ≤ op.priority) : 2 ≤ op.leftBound := by
  unfold Operator.leftBound
  split <;> omega

/-- What binds less tightly than the left side of an operator allows leaves it to its own right
side. -/
theorem priority_le_rightBound {op around : Operator} (hLow : 3 ≤ op.priority)
    (h : op.leftBound < around.priority) : op.priority ≤ around.rightBound := by
  unfold Operator.leftBound at h
  unfold Operator.rightBound
  -- the levels differ by one or are the same, as the operators group to the left or to the right
  split at h
  · split <;> omega
  · rename_i hGroups
    split
    · rename_i hAround
      have hSame : around.priority ≠ op.priority := by
        intro hEq
        -- operators of one level group alike
        unfold Operator.groupsLeft at hGroups hAround
        rw [hEq] at hAround
        exact hGroups hAround
      omega
    · omega

/-- An operator and an operand can be added behind an expression: the operator takes as much of the
right edge as binds more tightly. -/
theorem Fits.exists_extension {op : Operator} (span : Span) (hLow : 3 ≤ op.priority)
    (hHigh : op.priority ≤ 15) {u : Expr} (hu : u.Fits) (hLevel : u.level ≤ 2) :
    ∀ {e : Expr}, e.Fits → ∃ e' : Expr, e'.Fits ∧ e'.level ≤ max e.level op.priority ∧
      e'.tokens = e.tokens ++ ⟨.operator op, span⟩ :: u.tokens
  | .binary around place l r, h => by
    by_cases hLeft : around.1.priority ≤ op.leftBound
    · exact h.exists_whole span hLow hHigh hu hLevel hLeft
    -- the operator binds more tightly and goes on in the right operand
    obtain ⟨hl, hRight, hr⟩ := h
    obtain ⟨r', hr', hGrown, hTokens⟩ := Fits.exists_extension span hLow hHigh hu hLevel hr
    have hRight' : r'.level ≤ around.1.rightBound := by
      have hOp := priority_le_rightBound hLow (Nat.lt_of_not_le hLeft)
      omega
    refine ⟨.binary around place l r', ⟨hl, hRight', hr'⟩, Nat.le_max_left _ _, ?_⟩
    rw [tokens, hTokens, tokens, List.append_assoc, List.cons_append]
  | .comma place l r, h => by
    by_cases hLeft : Operator.comma.priority ≤ op.leftBound
    · exact h.exists_whole span hLow hHigh hu hLevel hLeft
    obtain ⟨hl, hRight, hr⟩ := h
    obtain ⟨r', hr', hGrown, hTokens⟩ := Fits.exists_extension span hLow hHigh hu hLevel hr
    have hRight' : r'.level ≤ Operator.comma.rightBound := by
      have hOp := priority_le_rightBound hLow (Nat.lt_of_not_le hLeft)
      omega
    refine ⟨.comma place l r', ⟨hl, hRight', hr'⟩, Nat.le_max_left _ _, ?_⟩
    rw [tokens, hTokens, tokens, List.append_assoc, List.cons_append]
  | .prefixed around place e, h => by
    have hTwo : (prefixed around place e).level = 2 := around.priority_eq
    have hLeft := two_le_leftBound hLow
    exact h.exists_whole span hLow hHigh hu hLevel (by omega)
  | .number _ _, h | .name _, h | .group _ _ _, h | .array _ _ _, h | .call _ _ _ _, h
  | .index _ _ _ _, h => by
    have hLeft := two_le_leftBound hLow
    refine h.exists_whole span hLow hHigh hu hLevel (?_ : 1 ≤ _)
    omega

end Expr

/-! ## From left to right -/

/-- Where a `(` behind an operand opens a call, the operand can be called. -/
theorem Expr.isCallee_of_opensCall {u : Expr} (hLevel : u.level ≤ 1) {previous : Option TokenKind}
    (h : opensCall (lastKind previous u.tokens)) : u.isCallee := by
  cases u with
  | number numeral span => cases h
  | prefixed op span e =>
    have hTwo : (Expr.prefixed op span e).level = 2 := op.priority_eq
    omega
  | binary op span l r =>
    have hThree : 3 ≤ (Expr.binary op span l r).level := op.priority_bounds.1
    omega
  | comma span l r => simp [Expr.level, Operator.priority] at hLevel
  | array o c contents =>
    have hLast := lastKind_enclose previous [] .array o c contents.tokens
    rw [List.nil_append] at hLast
    rw [Expr.tokens, hLast] at h
    cases h
  | name | group | call | index => rfl

namespace Postfix

/-- An operand may follow: whichever it is, the tokens and those of the operand make up an
expression. -/
def Awaits (ts : List Token) : Prop :=
  ∀ u : Expr, u.Fits → u.level ≤ 2 → ∃ e : Expr, e.Fits ∧ e.tokens = ts ++ u.tokens

/-- The tokens end with an operand, and a bracket behind it may take it further. -/
def Complete (ts : List Token) : Prop :=
  ∃ before, ∃ u : Expr, Awaits before ∧ u.Fits ∧ u.level ≤ 1 ∧ ts = before ++ u.tokens

variable {ts : List Token}

theorem awaits_nil : Awaits [] := fun u hu _ => ⟨u, hu, rfl⟩

/-- An operand comes. -/
theorem Awaits.complete (h : Awaits ts) {u : Expr} (hu : u.Fits) (hLevel : u.level ≤ 1) :
    Complete (ts ++ u.tokens) := ⟨ts, u, h, hu, hLevel, rfl⟩

/-- A prefix operator comes, and its operand is still awaited. -/
theorem Awaits.prefixed (h : Awaits ts) {op : Operator} (hOp : op.isPrefix) (span : Span) :
    Awaits (ts ++ [⟨.operator op, span⟩]) := by
  intro u hu hLevel
  -- the operator and its operand are what was awaited before it
  have hTwo := PrefixOperator.priority_eq ⟨op, hOp⟩
  have hBound := PrefixOperator.rightBound_eq ⟨op, hOp⟩
  obtain ⟨e, he, hTokens⟩ := h (.prefixed ⟨op, hOp⟩ span u)
    ⟨by rw [hBound]; exact hLevel, hu⟩ (Nat.le_of_eq hTwo)
  refine ⟨e, he, ?_⟩
  rw [hTokens, Expr.tokens, List.append_assoc, List.singleton_append]

/-- Nothing is missing behind the last operand. -/
theorem Complete.exists_expr (h : Complete ts) : ∃ e : Expr, e.Fits ∧ e.tokens = ts := by
  obtain ⟨before, u, hBefore, hu, hLevel, rfl⟩ := h
  exact hBefore u hu (by omega)

/-- An operator comes behind an operand, and another operand is awaited. -/
theorem Complete.operator (h : Complete ts) {op : Operator} (hLow : 3 ≤ op.priority)
    (hHigh : op.priority ≤ 15) (span : Span) : Awaits (ts ++ [⟨.operator op, span⟩]) := by
  intro u hu hLevel
  obtain ⟨e, he, rfl⟩ := h.exists_expr
  obtain ⟨e', he', -, hTokens⟩ := Expr.Fits.exists_extension span hLow hHigh hu hLevel he
  refine ⟨e', he', ?_⟩
  rw [hTokens, List.append_assoc, List.singleton_append]

/-- An index takes the operand further. -/
theorem Complete.index (h : Complete ts) {i : Expr} (hi : i.Fits) (o c : Span) :
    Complete (ts ++ encloseTokens .index o c i.tokens) := by
  obtain ⟨before, u, hBefore, hu, hLevel, rfl⟩ := h
  refine ⟨before, .index u o c i, hBefore, ⟨⟨hLevel, hu⟩, hi⟩, Nat.le_refl 1, ?_⟩
  rw [Expr.tokens, List.append_assoc]

/-- A call takes the operand further, if the operand can be called. -/
theorem Complete.call (h : Complete ts) (hCall : opensCall (lastKind none ts))
    {contents : Contents} (hContents : contents.Fits) (o c : Span) :
    Complete (ts ++ encloseTokens .call o c contents.tokens) := by
  obtain ⟨before, u, hBefore, hu, hLevel, rfl⟩ := h
  rw [lastKind_append_append] at hCall
  have hCallee := Expr.isCallee_of_opensCall hLevel hCall
  refine ⟨before, .call u o c contents, hBefore, ⟨⟨hCallee, hu⟩, hContents⟩, Nat.le_refl 1, ?_⟩
  rw [Expr.tokens, List.append_assoc]

end Postfix

end Reckon
