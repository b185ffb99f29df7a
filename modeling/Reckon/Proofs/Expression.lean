import Reckon.Postfix
import Mathlib.Tactic

/-!
# Expressions

The expressions of the language as trees. A tree can be written down in two ways: as the tokens of a
statement (`Expr.tokens`) and in postfix order (`Expr.code`). Every node carries the spans of the
lexemes it is written with, so both say where each of their parts comes from.

Tokens show no structure but brackets. A tree whose parts all bind as tightly as the places where
they stand ask for (`Expr.Fits`) can be read back; `Expr.grouped` puts every other part into
brackets.
-/

namespace Reckon

/-- An operator that stands in front of its operand. -/
abbrev PrefixOperator := { op : Operator // op.isPrefix }

/-- An operator that stands between its operands. -/
abbrev BinaryOperator := { op : Operator // op.isBinary }

theorem Operator.isPrefix_spread : Operator.spread.isPrefix := rfl

theorem Operator.isPrefix_minus : Operator.minus.isPrefix := rfl

theorem Operator.isBinary_add : Operator.add.isBinary := rfl

mutual

/-- An expression. A list of several items is a comma between its last item and the list in front
of it. -/
inductive Expr where
  | number (numeral : Numeral) (span : Span)
  | name (span : Span)
  | prefixed (op : PrefixOperator) (span : Span) (operand : Expr)
  | binary (op : BinaryOperator) (span : Span) (left right : Expr)
  | comma (span : Span) (left right : Expr)
  | group (opening closing : Span) (contents : Contents)
  | array (opening closing : Span) (contents : Contents)
  | call (callee : Expr) (opening closing : Span) (contents : Contents)
  | index (target : Expr) (opening closing : Span) (contents : Expr)

/-- What stands between brackets: nothing, or a list. -/
inductive Contents where
  | empty
  | list (e : Expr)

end

/-! ## Writing an expression down -/

/-- How a bracket is written: that of a call as that of a group. -/
def Bracket.written : Bracket → Bracket
  | .call => .group
  | b => b

/-- Tokens between the brackets of a construct. -/
def encloseTokens (b : Bracket) (opening closing : Span) (ts : List Token) : List Token :=
  ⟨.operator (.opener b.written), opening⟩ ::
    (ts ++ [⟨.operator (.closer b.written), closing⟩])

/-- A postfix sequence between the brackets of a construct, which stands at the given depth. -/
def encloseCode (b : Bracket) (opening closing : Span) (depth : Nat) (is : List Instruction) :
    List Instruction :=
  ⟨.operator (.opener b), opening, depth⟩ ::
    (is ++ [⟨.operator (.closer b), closing, depth⟩])

mutual

/-- The tokens of an expression, without any brackets but its own. -/
def Expr.tokens : Expr → List Token
  | .number numeral span => [⟨.number (some numeral), span⟩]
  | .name span => [⟨.identifier, span⟩]
  | .prefixed op span e => ⟨.operator op, span⟩ :: e.tokens
  | .binary op span l r => l.tokens ++ ⟨.operator op, span⟩ :: r.tokens
  | .comma span l r => l.tokens ++ ⟨.operator .comma, span⟩ :: r.tokens
  | .group o c contents => encloseTokens .group o c contents.tokens
  | .array o c contents => encloseTokens .array o c contents.tokens
  | .call f o c contents => f.tokens ++ encloseTokens .call o c contents.tokens
  | .index e o c i => e.tokens ++ encloseTokens .index o c i.tokens

/-- The tokens between brackets. -/
def Contents.tokens : Contents → List Token
  | .empty => []
  | .list e => e.tokens

end

mutual

/-- An expression in postfix order, inside so many brackets: each part after the parts it is made
of, and a comma after the item it stands in front of. -/
def Expr.code (depth : Nat) : Expr → List Instruction
  | .number numeral span => [⟨.number numeral, span, depth⟩]
  | .name span => [⟨.name, span, depth⟩]
  | .prefixed op span e => e.code depth ++ [⟨.operator op, span, depth⟩]
  | .binary op span l r => l.code depth ++ r.code depth ++ [⟨.operator op, span, depth⟩]
  | .comma span l r => l.code depth ++ r.code depth ++ [⟨.operator .comma, span, depth⟩]
  | .group o c contents => encloseCode .group o c depth (contents.code (depth + 1))
  | .array o c contents => encloseCode .array o c depth (contents.code (depth + 1))
  | .call f o c contents =>
    f.code depth ++ encloseCode .call o c depth (contents.code (depth + 1))
  | .index e o c i => e.code depth ++ encloseCode .index o c depth (i.code (depth + 1))

/-- What stands between brackets in postfix order. -/
def Contents.code (depth : Nat) : Contents → List Instruction
  | .empty => []
  | .list e => e.code depth

end

/-! ## Brackets where they are needed -/

namespace Operator

/-- The loosest level that may stand to the left of an operator. -/
def leftBound (op : Operator) : Nat := if op.groupsLeft then op.priority else op.priority - 1

/-- The loosest level that may stand to the right of an operator. -/
def rightBound (op : Operator) : Nat := if op.groupsLeft then op.priority - 1 else op.priority

end Operator

namespace Expr

/-- The level at which an expression binds: that of its outermost operator. Constructs that end with
a bracket bind tightest, as operands do. -/
def level : Expr → Nat
  | prefixed op _ _ => op.1.priority
  | binary op _ _ _ => op.1.priority
  | comma _ _ _ => Operator.comma.priority
  | _ => 1

/-- Whether an opener behind the expression opens a call. -/
def isCallee : Expr → Bool
  | name _ | group _ _ _ | call _ _ _ _ | index _ _ _ _ => true
  | _ => false

/-- The expression between brackets of its own. -/
def enclosed (spans : Expr → Span × Span) (e : Expr) : Expr :=
  group (spans e).1 (spans e).2 (.list e)

/-- The expression at a place that asks for a level, between brackets if it binds less tightly. -/
def atLevel (spans : Expr → Span × Span) (bound : Nat) (e : Expr) : Expr :=
  if e.level ≤ bound then e else e.enclosed spans

/-- The expression at the place of a function that is called. -/
def asCallee (spans : Expr → Span × Span) (e : Expr) : Expr :=
  if e.isCallee then e else e.enclosed spans

end Expr

mutual

/-- The expression with a group around every part that binds less tightly than its place allows. The
spans of the brackets that come in are given for each part. -/
def Expr.grouped (spans : Expr → Span × Span) : Expr → Expr
  | .number numeral span => .number numeral span
  | .name span => .name span
  | .prefixed op span e => .prefixed op span ((e.grouped spans).atLevel spans op.1.rightBound)
  | .binary op span l r =>
    .binary op span ((l.grouped spans).atLevel spans op.1.leftBound)
      ((r.grouped spans).atLevel spans op.1.rightBound)
  | .comma span l r =>
    .comma span ((l.grouped spans).atLevel spans Operator.comma.leftBound)
      ((r.grouped spans).atLevel spans Operator.comma.rightBound)
  | .group o c contents => .group o c (contents.grouped spans)
  | .array o c contents => .array o c (contents.grouped spans)
  | .call f o c contents =>
    .call ((f.grouped spans).asCallee spans) o c (contents.grouped spans)
  | .index e o c i => .index ((e.grouped spans).atLevel spans 1) o c (i.grouped spans)

/-- The same between brackets, where a list of any level may stand. -/
def Contents.grouped (spans : Expr → Span × Span) : Contents → Contents
  | .empty => .empty
  | .list e => .list (e.grouped spans)

end

mutual

/-- Every part binds as tightly as its place asks for. -/
def Expr.Fits : Expr → Prop
  | .number _ _ | .name _ => True
  | .prefixed op _ e => e.level ≤ op.1.rightBound ∧ e.Fits
  | .binary op _ l r =>
    (l.level ≤ op.1.leftBound ∧ l.Fits) ∧ (r.level ≤ op.1.rightBound ∧ r.Fits)
  | .comma _ l r =>
    (l.level ≤ Operator.comma.leftBound ∧ l.Fits) ∧
      (r.level ≤ Operator.comma.rightBound ∧ r.Fits)
  | .group _ _ contents | .array _ _ contents => contents.Fits
  | .call f _ _ contents => (f.isCallee ∧ f.Fits) ∧ contents.Fits
  | .index e _ _ i => (e.level ≤ 1 ∧ e.Fits) ∧ i.Fits

/-- The same between brackets. -/
def Contents.Fits : Contents → Prop
  | .empty => True
  | .list e => e.Fits

end

/-- All prefix operators bind equally tightly, just less than the brackets do. -/
theorem PrefixOperator.priority_eq (op : PrefixOperator) : op.1.priority = 2 := by
  simpa [Operator.isPrefix] using op.2

/-- The operators for two bind less tightly than a prefix operator and more tightly than a comma. -/
theorem BinaryOperator.priority_bounds (op : BinaryOperator) :
    3 ≤ op.1.priority ∧ op.1.priority ≤ 14 := by
  simpa [Operator.isBinary] using op.2

namespace Expr

/-- Only a list binds less tightly than all that makes one value. -/
theorem level_bounds (e : Expr) :
    1 ≤ e.level ∧ (e.level ≤ 14 ∨ e.level = 15 ∧ ∃ span l r, e = comma span l r) := by
  cases e with
  | prefixed op span e =>
    have hLevel := op.priority_eq
    simp only [level]
    omega
  | binary op span l r =>
    have hLevel := op.priority_bounds
    simp only [level]
    omega
  | comma span l r => exact ⟨by simp [level, Operator.priority], .inr ⟨rfl, span, l, r, rfl⟩⟩
  | _ => exact ⟨Nat.le_refl _, .inl (by simp [level])⟩

/-- Nothing binds more tightly than an operand. -/
theorem one_le_level (e : Expr) : 1 ≤ e.level := e.level_bounds.1

/-- Brackets around parts do not change how tightly the whole binds. -/
@[simp] theorem level_grouped (spans : Expr → Span × Span) (e : Expr) :
    (e.grouped spans).level = e.level := by
  -- the outermost operator is the same in every case
  cases e <;> rfl

/-- A part with brackets where its place asks for them is at the level of the place. -/
theorem level_atLevel (spans : Expr → Span × Span) {bound : Nat} (hBound : 1 ≤ bound) (e : Expr) :
    (e.atLevel spans bound).level ≤ bound := by
  unfold atLevel
  split
  · assumption
  · exact hBound

/-- At the place of a function stands what an opener behind it can call. -/
theorem isCallee_asCallee (spans : Expr → Span × Span) (e : Expr) :
    (e.asCallee spans).isCallee = true := by
  unfold asCallee
  split
  · assumption
  · rfl

/-- A callee never needs brackets for its level. -/
theorem level_of_isCallee {e : Expr} (h : e.isCallee) : e.level = 1 := by
  -- the callees are a name, a group, a call and an index, none of which has an outermost operator
  cases e <;> simp_all [isCallee, level]

/-- Nothing binds less tightly than a list. -/
theorem level_le (e : Expr) : e.level ≤ 15 := by
  have hLevel := e.level_bounds
  omega

theorem atLevel_of_le (spans : Expr → Span × Span) {e : Expr} {bound : Nat}
    (h : e.level ≤ bound) : e.atLevel spans bound = e := if_pos h

/-- Brackets around an expression leave it with parts that fit. -/
theorem Fits.atLevel {e : Expr} (h : e.Fits) (spans : Expr → Span × Span) (bound : Nat) :
    (e.atLevel spans bound).Fits := by
  unfold Expr.atLevel
  -- a group fits when its contents do, so both cases are the assumption
  split
  · exact h
  · exact h

/-- The same at the place of a function. -/
theorem Fits.asCallee {e : Expr} (h : e.Fits) (spans : Expr → Span × Span) :
    (e.asCallee spans).Fits := by
  unfold Expr.asCallee
  split
  · exact h
  · exact h

end Expr

/-- To the right of a prefix operator stands what binds as tightly as the operator. -/
theorem PrefixOperator.rightBound_eq (op : PrefixOperator) : op.1.rightBound = 2 := by
  simp [Operator.rightBound, Operator.groupsLeft, op.priority_eq]

/-- Both operands may bind as tightly as a bracket, and neither less tightly than the operator. -/
theorem BinaryOperator.bounds (op : BinaryOperator) :
    (2 ≤ op.1.leftBound ∧ op.1.leftBound ≤ op.1.priority) ∧
      2 ≤ op.1.rightBound ∧ op.1.rightBound ≤ op.1.priority := by
  have hLevel := op.priority_bounds
  -- the side an operator groups to is bounded by its own level, and the other side by one less
  unfold Operator.leftBound Operator.rightBound
  split <;> omega

mutual

/-- With brackets where they are needed, every part fits its place. -/
theorem Expr.grouped_fits (spans : Expr → Span × Span) : ∀ e : Expr, (e.grouped spans).Fits
  | .number _ _ | .name _ => trivial
  | .prefixed op _ e => by
    -- the place asks for a level of 1 at least, so a bracket would do
    have hBound := op.rightBound_eq
    exact ⟨Expr.level_atLevel spans (by omega) _, (e.grouped_fits spans).atLevel spans _⟩
  | .binary op _ l r => by
    have hBounds := op.bounds
    exact ⟨⟨Expr.level_atLevel spans (by omega) _, (l.grouped_fits spans).atLevel spans _⟩,
      Expr.level_atLevel spans (by omega) _, (r.grouped_fits spans).atLevel spans _⟩
  | .comma _ l r =>
    ⟨⟨Expr.level_atLevel spans (by decide) _, (l.grouped_fits spans).atLevel spans _⟩,
      Expr.level_atLevel spans (by decide) _, (r.grouped_fits spans).atLevel spans _⟩
  | .group _ _ contents | .array _ _ contents => contents.grouped_fits spans
  | .call f _ _ contents =>
    ⟨⟨Expr.isCallee_asCallee spans _, (f.grouped_fits spans).asCallee spans⟩,
      contents.grouped_fits spans⟩
  | .index e _ _ i =>
    ⟨⟨Expr.level_atLevel spans (Nat.le_refl 1) _, (e.grouped_fits spans).atLevel spans _⟩,
      i.grouped_fits spans⟩

/-- With brackets where they are needed, contents fit. -/
theorem Contents.grouped_fits (spans : Expr → Span × Span) :
    ∀ contents : Contents, (contents.grouped spans).Fits
  | .empty => trivial
  | .list e => e.grouped_fits spans

end

mutual

/-- No bracket comes in where every part fits already. -/
theorem Expr.Fits.grouped_eq (spans : Expr → Span × Span) :
    ∀ {e : Expr}, e.Fits → e.grouped spans = e
  | .number _ _, _ | .name _, _ => rfl
  | .prefixed op _ e, h => by
    obtain ⟨hLevel, he⟩ := h
    -- the operand binds tightly enough, so the test for brackets says no
    simp only [Expr.grouped, he.grouped_eq spans, Expr.atLevel, if_pos hLevel]
  | .binary op _ l r, h => by
    obtain ⟨⟨hLeft, hl⟩, hRight, hr⟩ := h
    simp only [Expr.grouped, hl.grouped_eq spans, hr.grouped_eq spans, Expr.atLevel, if_pos hLeft,
      if_pos hRight]
  | .comma _ l r, h => by
    obtain ⟨⟨hLeft, hl⟩, hRight, hr⟩ := h
    simp only [Expr.grouped, hl.grouped_eq spans, hr.grouped_eq spans, Expr.atLevel, if_pos hLeft,
      if_pos hRight]
  | .group _ _ contents, h => by
    have hContents : contents.Fits := h
    simp only [Expr.grouped, hContents.grouped_eq spans]
  | .array _ _ contents, h => by
    have hContents : contents.Fits := h
    simp only [Expr.grouped, hContents.grouped_eq spans]
  | .call f _ _ contents, h => by
    obtain ⟨⟨hCallee, hf⟩, hContents⟩ := h
    simp only [Expr.grouped, hf.grouped_eq spans, hContents.grouped_eq spans, Expr.asCallee,
      if_pos hCallee]
  | .index e _ _ i, h => by
    obtain ⟨⟨hLevel, he⟩, hi⟩ := h
    simp only [Expr.grouped, he.grouped_eq spans, hi.grouped_eq spans, Expr.atLevel, if_pos hLevel]

/-- The same between brackets. -/
theorem Contents.Fits.grouped_eq (spans : Expr → Span × Span) :
    ∀ {contents : Contents}, contents.Fits → contents.grouped spans = contents
  | .empty, _ => rfl
  | .list e, h => by
    have he : e.Fits := h
    simp only [Contents.grouped, he.grouped_eq spans]

end

end Reckon
