import Reckon.Numeral
import Reckon.Operator
import Reckon.Source.Rows

/-!
# Tokens

A script falls into lexemes: runs of blanks, of tabs and of line breaks, numerals, identifiers,
operators, and single characters that are none of these. A `Token` is a lexeme with its kind and the
span it covers.

`classify` looks at the first character of a lexeme and finds its kind and how many of the
characters after the first belong to it. A lexeme therefore always has a character of its own, and
cutting a script into lexemes comes to an end. Of two operators that both fit, the longer one is
taken.
-/

namespace Reckon

/-- The three kinds of white space. -/
inductive Space where
  | blank
  | tab
  | newline
  deriving DecidableEq, Repr, Inhabited

/-- The characters that start no lexeme: an ASCII one, or one from beyond ASCII. -/
inductive Stray where
  | unknown
  | unicode
  deriving DecidableEq, Repr, Inhabited

/-- What a lexeme is. A numeral without a notation is malformed: it begins as a numeral does and
stops short of being one. -/
inductive TokenKind where
  | endOfText
  | space (s : Space)
  | number (numeral : Option Numeral)
  | identifier
  | operator (op : Operator)
  | invalid (s : Stray)
  deriving DecidableEq, Repr, Inhabited

namespace TokenKind

/-- Whether the lexeme is a number or a name. Two of these may not stand side by side. -/
def isOperand : TokenKind → Bool
  | number _ | identifier => true
  | _ => false

/-- The operator, if the lexeme is one. -/
def operator? : TokenKind → Option Operator
  | operator op => some op
  | _ => none

end TokenKind

/-- A lexeme of a script. -/
structure Token where
  kind : TokenKind
  span : Span
  deriving DecidableEq, Repr, Inhabited

/-! ## Operators as they are written -/

/-- The operators with their spellings. A spelling stands before every other spelling it begins
with, so the first one that fits is the longest. -/
def operatorSpellings : List (List Char × Operator) :=
  [(['<', '<', '='], .shlAssign), (['>', '>', '='], .shrAssign),
   (['+', '='], .addAssign), (['-', '='], .subAssign), (['%', '='], .modAssign),
   (['*', '='], .mulAssign), (['/', '='], .divAssign), (['&', '='], .andAssign),
   (['|', '='], .orAssign), (['^', '='], .xorAssign), (['<', '<'], .shl), (['>', '>'], .shr),
   (['<', '='], .le), (['>', '='], .ge), (['=', '='], .eq), (['!', '='], .ne),
   (['&', '&'], .and), (['|', '|'], .or),
   ([','], .comma), ([';'], .semicolon),
   (['('], .opener .group), ([')'], .closer .group),
   (['['], .opener .index), ([']'], .closer .index),
   (['\x7b'], .opener .array), (['\x7d'], .closer .array),
   (['+'], .add), (['-'], .sub), (['%'], .mod), (['*'], .mul), (['/'], .div),
   (['&'], .bitAnd), (['|'], .bitOr), (['^'], .bitXor), (['!'], .not), (['~'], .bitNot),
   (['>'], .gt), (['<'], .lt), (['='], .assign)]

/-- The longest operator that a text begins with, and its spelling. -/
def leadingOperator? (cs : List Char) : Option (List Char × Operator) :=
  operatorSpellings.find? fun spelling => spelling.1.isPrefixOf cs

/-! ## Lexemes -/

/-- Whether a name may begin with the character. -/
def isNameStart (c : Char) : Bool := c.isAlpha || c == '_'

/-- Whether a name may go on with the character. -/
def isNamePart (c : Char) : Bool := c.isAlphanum || c == '_'

/-- How many characters at the start of a text have a property. -/
def runLength (p : Char → Bool) (cs : List Char) : Nat := (cs.takeWhile p).length

/-- The kind of the lexeme that begins with `c`, and how many of the characters `cs` that follow
belong to it. -/
def classify (c : Char) (cs : List Char) : TokenKind × Nat :=
  if c == ' ' then (.space .blank, runLength (· == ' ') cs)
  else if c == '\t' then (.space .tab, runLength (· == '\t') cs)
  else if isLineBreak c then (.space .newline, runLength isLineBreak cs)
  else if c.isDigit || c == '.' then
    let s := Numeral.scan (c :: cs)
    (.number s.2, s.1 - 1)
  else if isNameStart c then (.identifier, runLength isNamePart cs)
  else
    match leadingOperator? (c :: cs) with
    | some (spelling, op) => (.operator op, spelling.length - 1)
    | none => (.invalid (if c.toNat < 128 then .unknown else .unicode), 0)

/-- A lexeme cut off the front of a text: the token, its characters and what is left. -/
structure Cut where
  token : Token
  text : List Char
  rest : List Char
  deriving Repr

/-- Cuts the lexeme that begins with `c` off the text `c :: cs`, which stands at a byte offset. -/
def cutLexeme (offset : Nat) (c : Char) (cs : List Char) : Cut :=
  let r := classify c cs
  let text := c :: cs.take r.2
  ⟨⟨r.1, ⟨offset, offset + byteLength text⟩⟩, text, cs.drop r.2⟩

/-- Less is left than there was before the lexeme. -/
theorem cutLexeme_rest_lt (offset : Nat) (c : Char) (cs : List Char) :
    (cutLexeme offset c cs).rest.length < (c :: cs).length := by
  simp only [cutLexeme, List.length_drop, List.length_cons]
  omega

/-- A lexeme and what is left of the text make up the text. -/
theorem cutLexeme_append (offset : Nat) (c : Char) (cs : List Char) :
    (cutLexeme offset c cs).text ++ (cutLexeme offset c cs).rest = c :: cs := by
  simp [cutLexeme]

/-- The tokens of a text that stands at a byte offset. -/
def tokensFrom (offset : Nat) : List Char → List Token
  | [] => []
  | c :: cs =>
    let cut := cutLexeme offset c cs
    cut.token :: tokensFrom cut.token.span.stop cut.rest
termination_by cs => cs.length
decreasing_by exact cutLexeme_rest_lt offset c cs

/-- The tokens of a script, white space included. -/
def tokenize (script : String) : List Token := tokensFrom 0 script.toList

/-- The token at a byte offset of a script, and the offset behind it. At the end of the script, and
at an offset that is none of its boundaries, there is only the end of the text. -/
def tokenAt (script : String) (offset : Nat) : Token × Nat :=
  match charsFrom script offset with
  | [] => (⟨.endOfText, ⟨offset, offset⟩⟩, offset)
  | c :: cs =>
    let token := (cutLexeme offset c cs).token
    (token, token.span.stop)

end Reckon
