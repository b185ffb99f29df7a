import Reckon.JsonValue
import Reckon.Program
import Reckon.Statement

/-!
# Listings

A `Listing` shows what a stage of compiling makes of a script, as one line of JSON for each
statement that has a token: the tokens, the postfix sequence, or the checked program with the room
it takes. Nothing is run. At the first failure a listing ends.
-/

namespace Reckon

/-- A stage of compiling. -/
inductive Stage where
  | tokens
  | rpn
  | stream
  deriving DecidableEq, Repr, Inhabited

namespace Stage

/-- The name of a stage. -/
def name : Stage → String
  | tokens => "tokens"
  | rpn => "rpn"
  | stream => "stream"

/-- All stages. -/
def all : List Stage := [tokens, rpn, stream]

/-- The stage of a name. -/
def find? (name : String) : Option Stage := all.find? fun s => s.name == name

end Stage

namespace Listing

/-! ## Tokens and instructions as JSON -/

/-- A name with one thing that belongs to it. -/
def tagged (tag : String) (v : JsonValue) : JsonValue := .object [(tag, v)]

/-- A span. -/
def spanJson (s : Span) : JsonValue :=
  .object [("start", .number s.start), ("end", .number s.stop)]

/-- A notation of numerals. -/
def numeralJson (n : Numeral) : JsonValue := .string n.name

/-- An operator by its name; brackets with their construct. -/
def operatorJson (op : Operator) : JsonValue :=
  match op with
  | .opener b | .closer b => tagged op.name (.string b.name)
  | _ => .string op.name

/-- A kind of white space. -/
def spaceJson : Space → JsonValue
  | .blank => .string "Blank"
  | .tab => .string "Tab"
  | .newline => .string "Newline"

/-- A kind of stray character. -/
def strayJson : Stray → JsonValue
  | .unknown => .string "Unknown"
  | .unicode => .string "Unicode"

/-- The kind of a token. -/
def tokenKindJson : TokenKind → JsonValue
  | .endOfText => .string "End"
  | .space s => tagged "Whitespace" (spaceJson s)
  | .number (some n) => tagged "Number" (numeralJson n)
  | .number none => tagged "Number" .null
  | .identifier => .string "Identifier"
  | .operator op => tagged "Operator" (operatorJson op)
  | .invalid s => tagged "Invalid" (strayJson s)

/-- A token. -/
def tokenJson (t : Token) : JsonValue :=
  .object [("kind", tokenKindJson t.kind), ("span", spanJson t.span)]

/-- The kind of an instruction. -/
def instructionKindJson : InstructionKind → JsonValue
  | .number n => tagged "Number" (numeralJson n)
  | .name => .string "Identifier"
  | .operator op => tagged "Operator" (operatorJson op)

/-- An instruction. -/
def instructionJson (i : Instruction) : JsonValue :=
  .object [("kind", instructionKindJson i.kind), ("span", spanJson i.span),
    ("depth", .number i.depth)]

/-! ## The stages -/

/-- The tokens of a statement. -/
def tokensJson (tokens : List Token) : JsonValue := .array (tokens.map tokenJson)

/-- A postfix sequence with its text. The fields of every object are in order. -/
def postfixJson (code : List Instruction) (script : String) : JsonValue :=
  JsonValue.sorted
    (.object [("rpn", .string (Postfix.text code script)),
      ("units", .array (code.map instructionJson))])

/-- A program with the room it takes. -/
def programJson (p : Program) : JsonValue :=
  .object [("max_element_frame", .number p.valueRoom),
    ("max_moved_value_frame", .number p.movedRoom),
    ("max_scope_frames", .number p.bracketRoom),
    ("units", .array (p.code.map instructionJson))]

/-- What a stage makes of a statement. -/
def statementJson (stage : Stage) (tokens : List Token) (script : String) :
    Except Failure JsonValue :=
  match stage with
  | .tokens => .ok (tokensJson tokens)
  | .rpn => (Postfix.ofTokens tokens).map (postfixJson · script)
  | .stream => (Program.ofTokens tokens).map programJson

/-- The lines for the statements a reader still has to read, and the failure that ends them, if one
does. -/
def linesFrom (stage : Stage) (script : String) (r : Reader) : List String × Option Failure :=
  match _h : r.nextStatement with
  | (.error e, _) => ([], some e)
  | (.ok none, _) => ([], none)
  | (.ok (some tokens), r') =>
    match statementJson stage tokens script with
    | .error e => ([], some e)
    | .ok v =>
      let rest := linesFrom stage script r'
      (v.text :: rest.1, rest.2)
termination_by r.unread.length
decreasing_by exact Reader.nextStatement_unread_lt _h

/-- The listing of a script. -/
def lines (stage : Stage) (script : String) (options : ReaderOptions) :
    List String × Option Failure :=
  linesFrom stage script (.new script options)

end Listing

end Reckon
