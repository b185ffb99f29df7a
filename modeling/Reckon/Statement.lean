import Reckon.Fault
import Reckon.Token

/-!
# Reading statements

A `Reader` goes through a script token by token. It skips white space, keeps count of rows and
columns, and refuses characters that start no lexeme, malformed numerals, names that are too long
and two operands side by side. `Reader.advance` finds the next token, the end of the statement or
the end of the script; `Reader.statement` gathers the tokens up to a `;`.

A statement with faults is read to its end all the same, so that the next one starts behind the
`;`; the first fault is reported together with their number.
-/

namespace Reckon

/-- The limits a reader works with. -/
structure ReaderOptions where
  /-- How many columns a tab takes. -/
  tabWidth : Nat := 4
  /-- How many bytes the longest name may have. -/
  maxSymbolLength : Nat := 32
  deriving DecidableEq, Repr, Inhabited

/-- A reader at a place in a script: the byte offset, the text from there on, the row and column,
and the kind of the last token of the statement. -/
structure Reader where
  options : ReaderOptions
  cursor : Nat
  unread : List Char
  position : Position
  last : Option TokenKind
  deriving Repr

/-- What a reader finds next. -/
inductive Advance where
  | token (t : Token)
  | endOfStatement
  | endOfInput
  deriving DecidableEq, Repr, Inhabited

namespace Reader

/-- A reader at an offset of a script whose row and column are known, before a new statement. -/
def resume (script : String) (cursor : Nat) (position : Position) (options : ReaderOptions) :
    Reader :=
  ⟨options, cursor, charsFrom script cursor, position, none⟩

/-- A reader at the start of a script. -/
def new (script : String) (options : ReaderOptions) : Reader :=
  resume script 0 Position.start options

/-! ## One token -/

/-- The position behind white space. Line breaks lead to the start of a later row. -/
def afterSpace (tabWidth : Nat) (p : Position) (s : Space) (text : List Char) : Position :=
  match s with
  | .blank => { p with col := p.col + text.length }
  | .tab => { p with col := p.col + text.length * tabWidth }
  | .newline => ⟨p.row + ((rowsOf text).length - 1), 1⟩

/-- The fault of an operand that follows `previous`, if it is at fault. A malformed numeral is
noticed before a name that is too long, and either before a missing separator. -/
def operandFault? (options : ReaderOptions) (previous : Option TokenKind) (token : Token) :
    Option SyntaxFault :=
  if token.kind = .number none then some .invalidNumberLiteral
  else if token.kind = .identifier ∧ options.maxSymbolLength < token.span.length then
    some .symbolTooLong
  else if token.kind.isOperand ∧ previous.any TokenKind.isOperand then some .expectSeparator
  else none

/-- The fault of a character that starts no lexeme. -/
def strayFault : Stray → SyntaxFault
  | .unknown => .beyondCharset
  | .unicode => .unicodeChar

/-- A fault at a lexeme, with the row and column the lexeme starts at. -/
def refusal (r : Reader) (cut : Cut) (cause : SyntaxFault) : Failure :=
  { fault := cause, span := some cut.token.span, position := some r.position }

/-- The reader behind a lexeme, at a new row and column. -/
def move (r : Reader) (cut : Cut) (position : Position) : Reader :=
  { r with cursor := cut.token.span.stop, unread := cut.rest, position }

/-- What the reader makes of a number, a name or an operator. -/
def judge (r : Reader) (cut : Cut) : Except Failure Advance :=
  match operandFault? r.options r.last cut.token with
  | some cause => .error (r.refusal cut cause)
  | none => .ok (.token cut.token)

/-- Takes one lexeme. White space gives nothing. A stray character leaves the last token in place,
so operands on both of its sides count as neighbours. -/
def take (r : Reader) (cut : Cut) : Option (Except Failure Advance) × Reader :=
  match cut.token.kind with
  | .space s =>
    (none, r.move cut (afterSpace r.options.tabWidth r.position s cut.text))
  | .invalid s =>
    (some (.error (r.refusal cut (strayFault s))), r.move cut (r.position.right 1))
  | .operator .semicolon =>
    (some (.ok .endOfStatement), { r.move cut (r.position.right 1) with last := none })
  | kind =>
    (some (r.judge cut),
      { r.move cut (r.position.right cut.token.span.length) with last := some kind })

/-- Whatever a lexeme is, the reader goes on behind it. -/
theorem take_unread (r : Reader) (cut : Cut) : (r.take cut).2.unread = cut.rest := by
  unfold take
  split <;> rfl

/-- The reader's offset is that behind the lexeme. -/
theorem take_cursor (r : Reader) (cut : Cut) : (r.take cut).2.cursor = cut.token.span.stop := by
  unfold take
  split <;> rfl

/-- The next token, the end of the statement or the end of the script, or the fault that is met
first. -/
def advance (r : Reader) : Except Failure Advance × Reader :=
  match _h : r.unread with
  | [] => (.ok .endOfInput, r)
  | c :: cs =>
    match _ht : r.take (cutLexeme r.cursor c cs) with
    | (some answer, r') => (answer, r')
    | (none, r') => r'.advance
termination_by r.unread.length
decreasing_by
  have hr : r'.unread = (cutLexeme r.cursor c cs).rest := by
    rw [← take_unread r (cutLexeme r.cursor c cs), _ht]
  rw [hr, _h]
  exact cutLexeme_rest_lt r.cursor c cs

/-- Advancing leaves less of the script, or finds its end. -/
theorem advance_unread_lt (r : Reader) :
    (r.advance.1 = .ok .endOfInput ∧ r.advance.2.unread = []) ∨
      r.advance.2.unread.length < r.unread.length := by
  fun_induction advance r with
  | case1 r h => exact .inl ⟨rfl, h⟩
  | case2 r c cs h answer r' ht =>
    have hr := take_unread r (cutLexeme r.cursor c cs)
    rw [ht] at hr
    right
    rw [hr, h]
    exact cutLexeme_rest_lt r.cursor c cs
  | case3 r c cs h r' ht ih =>
    have hr := take_unread r (cutLexeme r.cursor c cs)
    rw [ht] at hr
    have hlt := cutLexeme_rest_lt r.cursor c cs
    rw [← hr, ← h] at hlt
    exact ih.imp id fun ih => Nat.lt_trans ih hlt

/-- The reader's text is the script from its offset on. -/
def StandsIn (r : Reader) (script : String) : Prop := charsFrom script r.cursor = r.unread

/-- A new reader stands in its script. -/
theorem standsIn_resume (script : String) (cursor : Nat) (position : Position)
    (options : ReaderOptions) : (resume script cursor position options).StandsIn script := rfl

/-- Taking the lexeme at its offset, a reader stays in its script. -/
theorem StandsIn.take {r : Reader} {script : String} {c : Char} {cs : List Char}
    (hr : r.StandsIn script) (h : r.unread = c :: cs) :
    (r.take (cutLexeme r.cursor c cs)).2.StandsIn script := by
  have hu := take_unread r (cutLexeme r.cursor c cs)
  have hc := take_cursor r (cutLexeme r.cursor c cs)
  unfold StandsIn at hr ⊢
  rw [hu, hc]
  have happ := cutLexeme_append r.cursor c cs
  rw [h, ← happ] at hr
  exact charsFrom_add hr

/-- Advancing, a reader stays in its script. -/
theorem StandsIn.advance {r : Reader} {script : String} (hr : r.StandsIn script) :
    r.advance.2.StandsIn script := by
  fun_induction Reader.advance r with
  | case1 => exact hr
  | case2 r c cs h answer r' ht =>
    have := hr.take h
    rwa [ht] at this
  | case3 r c cs h r' ht ih =>
    have := hr.take h
    rw [ht] at this
    exact ih this

end Reader

/-! ## A whole statement -/

/-- What has been read of a statement: its tokens, latest first, the first fault and the number of
faults. -/
structure Draft where
  tokens : List Token := []
  failure : Option Failure := none
  faults : Nat := 0
  deriving Repr, Inhabited

namespace Draft

/-- Whether an operand is expected behind the token: at the start, and behind every operator that
closes no bracket. -/
def expectsOperand (previous : Option Token) : Bool :=
  match previous with
  | none => true
  | some t => t.kind.operator?.any fun op => !op.isCloser

/-- Adds a token. Where an operand is expected, `+`, `-` and `*` become prefix operators. -/
def add (d : Draft) (t : Token) : Draft :=
  let kind := match t.kind with
    | .operator op =>
      .operator (if expectsOperand d.tokens.head? then op.inFront else op)
    | kind => kind
  { d with tokens := { t with kind } :: d.tokens }

/-- Notes a fault. Only the first one is kept. -/
def refuse (d : Draft) (e : Failure) : Draft :=
  { d with failure := d.failure.or (some e), faults := d.faults + 1 }

/-- The statement: its tokens, or the first fault with the number of faults. Text that has no token,
no fault and no terminator is no statement. -/
def finish (d : Draft) (terminated : Bool) : Except Failure (Option (List Token)) :=
  match d.failure with
  | some e => .error { e with count := d.faults }
  | none => if !terminated && d.tokens.isEmpty then .ok none else .ok (some d.tokens.reverse)

end Draft

namespace Reader

/-- Gathers the rest of a statement. -/
def gather (r : Reader) (d : Draft) : Except Failure (Option (List Token)) × Reader :=
  match _h : r.advance with
  | (.ok .endOfInput, r') => (d.finish false, r')
  | (.ok .endOfStatement, r') => (d.finish true, r')
  | (.ok (.token t), r') => r'.gather (d.add t)
  | (.error e, r') => r'.gather (d.refuse e)
termination_by r.unread.length
decreasing_by
  all_goals
    have hlt := advance_unread_lt r
    rw [_h] at hlt
    simpa using hlt

/-- Reads the tokens up to the next `;` or the end of the script. Nothing is read when only white
space is left; an empty statement has no tokens. -/
def statement (r : Reader) : Except Failure (Option (List Token)) × Reader := r.gather {}

/-- Gathering a statement, a reader stays in its script. -/
theorem StandsIn.gather {r : Reader} {script : String} (hr : r.StandsIn script) (d : Draft) :
    (r.gather d).2.StandsIn script := by
  fun_induction Reader.gather r d with
  | case1 r d r' h | case2 r d r' h =>
    have := hr.advance
    rwa [h] at this
  | case3 r d t r' h ih | case4 r d e r' h ih =>
    have := hr.advance
    rw [h] at this
    exact ih this

/-- Gathering a statement leaves less of the script, unless the script ends at once. -/
theorem gather_unread_lt (r : Reader) (d : Draft) :
    (r.gather d).2.unread.length < r.unread.length ∨
      ((r.gather d).1 = d.finish false ∧ (r.gather d).2.unread.length ≤ r.unread.length) := by
  fun_induction Reader.gather r d with
  | case1 r d r' h =>
    have hr := advance_unread_lt r
    rw [h] at hr
    rcases hr with hr | hr
    · have hu : r'.unread = [] := hr.2
      exact .inr ⟨rfl, by simp [hu]⟩
    · exact .inl hr
  | case2 r d r' h =>
    have hr := advance_unread_lt r
    rw [h] at hr
    exact .inl (by simpa using hr)
  | case3 r d t r' h ih | case4 r d e r' h ih =>
    have hr := advance_unread_lt r
    rw [h] at hr
    have hr : r'.unread.length < r.unread.length := by simpa using hr
    rcases ih with ih | ih
    · exact .inl (Nat.lt_trans ih hr)
    · exact .inl (Nat.lt_of_le_of_lt ih.2 hr)

/-- A statement that is there takes some of the script. -/
theorem statement_unread_lt {r r' : Reader} {ts : List Token}
    (h : r.statement = (.ok (some ts), r')) : r'.unread.length < r.unread.length := by
  have hr := gather_unread_lt r {}
  rw [show r.gather {} = _ from h] at hr
  simpa [Draft.finish] using hr

/-- Reading a statement, a reader stays in its script. -/
theorem StandsIn.statement {r : Reader} {script : String} (hr : r.StandsIn script) :
    r.statement.2.StandsIn script := hr.gather {}

/-- Reads statements until one has a token. -/
def nextStatement (r : Reader) : Except Failure (Option (List Token)) × Reader :=
  match _h : r.statement with
  | (.ok (some []), r') => r'.nextStatement
  | answer => answer
termination_by r.unread.length
decreasing_by exact statement_unread_lt _h

/-- A statement that has a token takes some of the script. -/
theorem nextStatement_unread_lt {r r' : Reader} {ts : List Token}
    (h : r.nextStatement = (.ok (some ts), r')) : r'.unread.length < r.unread.length := by
  fun_induction nextStatement r with
  | case1 r r'' hs ih => exact Nat.lt_trans (ih h) (statement_unread_lt hs)
  | case2 r hs => exact statement_unread_lt h

/-- Passing over empty statements, a reader stays in its script. -/
theorem StandsIn.nextStatement {r : Reader} {script : String} (hr : r.StandsIn script) :
    r.nextStatement.2.StandsIn script := by
  fun_induction Reader.nextStatement r with
  | case1 r r' hs ih =>
    have := hr.statement
    rw [hs] at this
    exact ih this
  | case2 r hs => exact hr.statement

end Reader

end Reckon
