import Reckon.Postfix

/-!
# Programs

A `Program` is a postfix sequence that is fit to be run. `Program.ofPostfix` plays the sequence
through with nothing but heights: how many values stand on the stack, how many have been moved aside
by commas, and at which height each open bracket began. Missing operands, stray commas, and brackets
with the wrong number of values in them show up this way, and so does the room that running the
program takes.
-/

namespace Reckon

/-- A postfix sequence that has been checked, with the greatest height each stack reaches. -/
structure Program where
  /-- The most values on the stack at one time. -/
  valueRoom : Nat
  /-- The most values moved aside at one time. -/
  movedRoom : Nat
  /-- The most brackets open at one time. -/
  bracketRoom : Nat
  code : List Instruction
  deriving DecidableEq, Repr, Inhabited

namespace Program

/-- An open bracket: the height of the stack where it began, and how many values commas have moved
aside since. -/
structure Level where
  base : Nat := 0
  moved : Nat := 0
  deriving DecidableEq, Repr, Inhabited

/-- The heights after a part of a sequence. The statement itself is the outermost level, which
nothing closes; `outer` holds the levels around the present one, innermost first. -/
structure Heights where
  height : Nat := 0
  moved : Nat := 0
  level : Level := {}
  outer : List Level := []
  maxHeight : Nat := 0
  maxMoved : Nat := 0
  maxOpen : Nat := 0
  deriving DecidableEq, Repr, Inhabited

namespace Heights

/-- One more value on the stack. -/
def push (h : Heights) : Heights :=
  { h with height := h.height + 1, maxHeight := max h.maxHeight (h.height + 1) }

/-- A bracket opens at the present height. -/
def opening (h : Heights) : Heights :=
  { h with
    level := ⟨h.height, 0⟩
    outer := h.level :: h.outer
    maxOpen := max h.maxOpen (h.outer.length + 1) }

/-- A comma moves a value of its own level aside. -/
def comma (h : Heights) (span : Span) : Except Failure Heights :=
  if h.height ≤ h.level.base then .error (.atSpan SyntaxFault.tooManyCommas span)
  else .ok { h with
    height := h.height - 1
    moved := h.moved + 1
    level := { h.level with moved := h.level.moved + 1 }
    maxMoved := max h.maxMoved (h.moved + 1) }

/-- How many values stand between the brackets of the present level. At most one of them may still
be on the stack, and there has to be one behind the last comma. -/
def valuesInside (h : Heights) (span : Span) : Except Failure Nat :=
  if h.level.base + 1 < h.height then .error (.atSpan SyntaxFault.missingComma span)
  else if h.height ≤ h.level.base then
    if 0 < h.level.moved then .error (.atSpan SyntaxFault.tooManyCommas span) else .ok 0
  else .ok (h.level.moved + 1)

/-- A bracket closes. A group and an array leave a value. An index takes the place of the array in
front of it and a call that of the function, so either needs a value to stand there, and an index
needs one between its brackets too. -/
def closing (h : Heights) (b : Bracket) (span : Span) : Except Failure Heights :=
  match h.outer with
  | [] => .error (.atSpan SyntaxFault.invalidSyntax span)
  | level :: outer =>
    match h.valuesInside span with
    | .error e => .error e
    | .ok inside =>
      let below : Heights :=
        { h with
          height := h.level.base, moved := h.moved - h.level.moved, level := level, outer := outer }
      match b with
      | .group | .array => .ok below.push
      | .index =>
        if inside = 0 then .error (.atSpan IndexFault.noIndex span)
        else if below.height = 0 then .error (.atSpan IndexFault.missingArray span)
        else .ok below
      | .call =>
        if below.height = 0 then .error (.atSpan RuntimeFault.expectFunction span) else .ok below

/-- A prefix operator needs a value of its own level. -/
def prefixed (h : Heights) (span : Span) : Except Failure Heights :=
  if h.height ≤ h.level.base then .error (.atSpan SyntaxFault.missingOperand span) else .ok h

/-- A binary operator makes one value of two values of its own level. -/
def binary (h : Heights) (span : Span) : Except Failure Heights :=
  if h.height < h.level.base + 2 then .error (.atSpan SyntaxFault.missingOperand span)
  else .ok { h with height := h.height - 1 }

/-- Plays one instruction. -/
def step (h : Heights) (i : Instruction) : Except Failure Heights :=
  match i.kind with
  | .number _ | .name => .ok h.push
  | .operator (.opener _) => .ok h.opening
  | .operator (.closer b) => h.closing b i.span
  | .operator .comma => h.comma i.span
  | .operator .semicolon => .ok h
  | .operator op => if op.isPrefix then h.prefixed i.span else h.binary i.span

/-- Plays a sequence. -/
def play : Heights → List Instruction → Except Failure Heights
  | h, [] => .ok h
  | h, i :: is =>
    match h.step i with
    | .error e => .error e
    | .ok h' => h'.play is

end Heights

/-- Checks a postfix sequence. It has to leave exactly one value and no open bracket; where it does
not, the last instruction is pointed at. -/
def ofPostfix (code : List Instruction) : Except Failure Program :=
  match Heights.play {} code with
  | .error e => .error e
  | .ok h =>
    if h.height = 1 ∧ h.outer = [] then .ok ⟨h.maxHeight, h.maxMoved, h.maxOpen, code⟩
    else
      .error (.atSpan SyntaxFault.invalidSyntax ((code.getLast?.map (·.span)).getD ⟨0, 0⟩))

/-- Compiles the tokens of a statement. -/
def ofTokens (ts : List Token) : Except Failure Program :=
  match Postfix.ofTokens ts with
  | .error e => .error e
  | .ok code => ofPostfix code

end Program

end Reckon
