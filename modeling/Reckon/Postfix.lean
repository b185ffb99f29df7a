import Reckon.Fault
import Reckon.Token

/-!
# Postfix order

A statement is put into postfix order: operands stand before the operator that works on them, so a
machine with a stack can run the sequence from left to right. `Postfix.ofTokens` does this in one
pass. Operands are emitted at once; operators wait until one comes that binds less tightly. Openers
are emitted at once and wait as well, so the sequence shows where every bracket begins, and a closer
releases what waits back to its opener.

A `(` behind a name, a `)` or a `]` opens a call. The reader cannot tell calls from groups, so a `)`
closes whichever of the two is open.
-/

namespace Reckon

/-- What an element of a postfix sequence does. -/
inductive InstructionKind where
  | number (numeral : Numeral)
  | name
  | operator (op : Operator)
  deriving DecidableEq, Repr, Inhabited

/-- An element of a postfix sequence, with the lexeme it comes from and the number of brackets that
are open where it was emitted. That number has no bound, and is looked at only when the sequence is
printed. A word of 16 bits can stand for it as long as no more than 65535 brackets are open. -/
structure Instruction where
  kind : InstructionKind
  span : Span
  depth : Nat := 0
  deriving DecidableEq, Repr, Inhabited

namespace Instruction

/-- The operator, if the instruction is one. -/
def operator? (i : Instruction) : Option Operator :=
  match i.kind with
  | .operator op => some op
  | _ => none

/-- How the instruction is shown: an operand as it was written, an operator by its symbol. -/
def text (i : Instruction) (script : String) : String :=
  match i.kind with
  | .number _ | .name => i.span.text script
  | .operator op => op.symbol

end Instruction

namespace Postfix

/-- A sequence on one line, with blanks in between. -/
def text (is : List Instruction) (script : String) : String :=
  " ".intercalate (is.map (·.text script))

/-- An operator that has not been emitted yet. -/
structure Waiting where
  op : Operator
  span : Span
  deriving DecidableEq, Repr, Inhabited

/-- The state of the pass: what has been emitted and what waits, both latest first, and how many
brackets are open. -/
structure Pass where
  emitted : List Instruction := []
  waiting : List Waiting := []
  depth : Nat := 0
  deriving DecidableEq, Repr, Inhabited

namespace Pass

/-- Emits an instruction at the present depth. -/
def emit (p : Pass) (kind : InstructionKind) (span : Span) : Pass :=
  { p with emitted := ⟨kind, span, p.depth⟩ :: p.emitted }

/-- Emits an opener and lets it wait for its closer. -/
def opening (p : Pass) (b : Bracket) (span : Span) : Pass :=
  let q := p.emit (.operator (.opener b)) span
  { q with waiting := ⟨.opener b, span⟩ :: q.waiting, depth := p.depth + 1 }

/-- The construct that a closer ends when it meets an opener; none when the two do not belong
together. A `)` ends a call as well as a group. -/
def matching? (opened closed : Bracket) : Option Bracket :=
  if opened = closed then some opened
  else if opened = .call ∧ closed = .group then some .call
  else none

/-- Releases what waits inside the innermost open bracket and closes the bracket. -/
def closing (b : Bracket) (span : Span) (depth : Nat) :
    List Instruction → List Waiting → Except Failure Pass
  | _, [] => .error (.atSpan SyntaxFault.noLeftBracket span)
  | emitted, ⟨.opener opened, _⟩ :: waiting =>
    match matching? opened b with
    | none => .error (.atSpan SyntaxFault.crossedBrackets span)
    | some closed =>
      .ok ((Pass.mk emitted waiting (depth - 1)).emit (.operator (.closer closed)) span)
  | emitted, ⟨op, place⟩ :: waiting =>
    -- an operator inside the bracket has both its operands by now
    closing b span depth (⟨.operator op, place, depth⟩ :: emitted) waiting

/-- Whether a waiting operator is emitted before the operator `op` is put to wait. -/
def goesBefore (waiting op : Operator) : Bool :=
  waiting.priority < op.priority || (waiting.priority == op.priority && op.groupsLeft)

/-- Emits the operators that bind more tightly than `op`, back to the innermost open bracket. -/
def releasing (op : Operator) (depth : Nat) :
    List Instruction → List Waiting → List Instruction × List Waiting
  | emitted, [] => (emitted, [])
  | emitted, w :: waiting =>
    if !w.op.isOpener && goesBefore w.op op then
      releasing op depth (⟨.operator w.op, w.span, depth⟩ :: emitted) waiting
    else (emitted, w :: waiting)

/-- Lets an operator wait, behind what it releases. -/
def operator (p : Pass) (op : Operator) (span : Span) : Pass :=
  let r := releasing op p.depth p.emitted p.waiting
  { p with emitted := r.1, waiting := ⟨op, span⟩ :: r.2 }

/-- Whether a `(` behind the token opens a call. -/
def opensCall (previous : Option TokenKind) : Bool :=
  match previous with
  | some .identifier => true
  | some (.operator (.closer .group)) | some (.operator (.closer .index)) => true
  | _ => false

/-- Takes one token. Terminators are passed over; what is no part of a statement is refused. -/
def take (p : Pass) (previous : Option TokenKind) (t : Token) : Except Failure Pass :=
  match t.kind with
  | .number (some numeral) => .ok (p.emit (.number numeral) t.span)
  | .identifier => .ok (p.emit .name t.span)
  | .operator (.opener .group) =>
    .ok (p.opening (if opensCall previous then .call else .group) t.span)
  | .operator (.opener b) => .ok (p.opening b t.span)
  | .operator (.closer b) => closing b t.span p.depth p.emitted p.waiting
  | .operator .semicolon => .ok p
  | .operator op => .ok (p.operator op t.span)
  | .number none => .error (.atSpan SyntaxFault.invalidNumberLiteral t.span)
  | .endOfText | .space _ | .invalid _ => .error (.atSpan SyntaxFault.invalidSyntax t.span)

/-- Takes tokens one after the other. -/
def takeAll : Pass → Option TokenKind → List Token → Except Failure Pass
  | p, _, [] => .ok p
  | p, previous, t :: ts =>
    match p.take previous t with
    | .error e => .error e
    | .ok q => q.takeAll (some t.kind) ts

/-- Emits all that waits at the end. An opener that still waits has no closer. -/
def finishing (depth : Nat) : List Instruction → List Waiting → Except Failure (List Instruction)
  | emitted, [] => .ok emitted.reverse
  | emitted, w :: waiting =>
    if w.op.isOpener then .error (.atSpan SyntaxFault.noRightBracket w.span)
    else finishing depth (⟨.operator w.op, w.span, depth⟩ :: emitted) waiting

/-- The postfix sequence at the end of the pass. -/
def finish (p : Pass) : Except Failure (List Instruction) :=
  finishing p.depth p.emitted p.waiting

end Pass

/-- The tokens of a statement in postfix order. -/
def ofTokens (ts : List Token) : Except Failure (List Instruction) :=
  match Pass.takeAll {} none ts with
  | .error e => .error e
  | .ok p => p.finish

end Postfix

end Reckon
