import Reckon.Fault

/-!
# The catalogue of codes

Every fault but those that host functions raise has a code that never changes, and every code an
explanation with an example. The catalogue is one list; codes and explanations are both looked up in
it.
-/

namespace Reckon

namespace Catalogue

/-- A fault with its code, a title, and the lines of the explanation below the title. -/
structure Entry where
  fault : Fault
  code : String
  title : String
  body : List String
  deriving Repr

/-- The explanation as it is shown: a heading, a blank line and the body. -/
def Entry.explanation (e : Entry) : String :=
  "".intercalate
    ((("## " ++ e.code ++ ": " ++ e.title) :: "" :: e.body).map fun line => line ++ "\n")

/-- The code of sessions. -/
def usageEntries : List Entry :=
  [⟨UsageFault.wrongPhase, "SE-U001", "operation not valid in the current state",
    ["A context runs each statement through `forward`, `parse` and `execute`",
     "in that order. Calling `parse` before a statement was read, or `execute`",
     "before it was parsed, raises this error. The context itself is unchanged."]⟩]

/-- The codes of reading and compiling. -/
def syntaxEntries : List Entry :=
  [⟨SyntaxFault.invalidSyntax, "SE-S001", "invalid syntax",
    ["The statement does not form a single expression. Usually an operator is",
     "missing its operands, or two expressions sit side by side.",
     "",
     "**Example:**",
     "",
     "    1 +"]⟩,
   ⟨SyntaxFault.undefinedIdentifier, "SE-S002", "undefined identifier",
    ["A name was used in a position that needs it to be bound already.",
     "Reading an unbound name on its own yields `nil`."]⟩,
   ⟨SyntaxFault.unicodeChar, "SE-S003", "unicode character",
    ["Scripts are ASCII. Any byte above 0x7F is rejected.",
     "",
     "**Example:**",
     "",
     "    a = 1 × 2",
     "",
     "Use `*` for multiplication."]⟩,
   ⟨SyntaxFault.invalidNumberLiteral, "SE-S004", "invalid number literal",
    ["Number literals are one of:",
     "",
     "    0b101     binary",
     "    017       octal (leading zero)",
     "    42        decimal",
     "    0x2a      hexadecimal",
     "    1.5  .5   float",
     "    1e3 2.5E-2  scientific",
     "",
     "Anything else starting with a digit or a dot, such as `0b2`, `1.2.3` or",
     "`1e`, is rejected."]⟩,
   ⟨SyntaxFault.expectSeparator, "SE-S005", "missing separator between operands",
    ["Two numbers or names follow each other with nothing in between.",
     "",
     "**Example:**",
     "",
     "    a b",
     "",
     "**Fix:** put an operator or a comma between them: `a + b`, `a, b`."]⟩,
   ⟨SyntaxFault.symbolTooLong, "SE-S006", "symbol too long",
    ["Identifiers are limited to 32 characters by default."]⟩,
   ⟨SyntaxFault.noLeftBracket, "SE-S007", "missing left bracket",
    ["A closing `)`, `]` or `\x7d` has no matching opening bracket.",
     "",
     "**Example:**",
     "",
     "    1 + 2)"]⟩,
   ⟨SyntaxFault.noRightBracket, "SE-S008", "missing right bracket",
    ["An opening `(`, `[` or `\x7b` is never closed before the end of the",
     "statement.",
     "",
     "**Example:**",
     "",
     "    sum(1, 2"]⟩,
   ⟨SyntaxFault.crossedBrackets, "SE-S009", "crossed brackets",
    ["A bracket is closed by a bracket of a different kind.",
     "",
     "**Example:**",
     "",
     "    \x7b1, 2)"]⟩,
   ⟨SyntaxFault.missingComma, "SE-S010", "missing comma",
    ["A bracketed list holds two expressions with no comma between them.",
     "",
     "**Example:**",
     "",
     "    \x7b(1) \x7b2\x7d\x7d"]⟩,
   ⟨SyntaxFault.tooManyCommas, "SE-S011", "too many commas",
    ["A list has a comma with nothing after it, or two commas in a row.",
     "",
     "**Example:**",
     "",
     "    \x7b1, 2,\x7d"]⟩,
   ⟨SyntaxFault.missingOperand, "SE-S012", "missing operand",
    ["An operator does not have enough values to work on.",
     "",
     "**Example:**",
     "",
     "    (* 2)"]⟩,
   ⟨SyntaxFault.beyondCharset, "SE-S013", "character outside the charset",
    ["The character is not part of any number, name or operator.",
     "",
     "**Example:**",
     "",
     "    a = $1"]⟩]

/-- The codes of types. -/
def typeEntries : List Entry :=
  [⟨TypeFault.nonCallableObject, "SE-T001", "object is not callable",
    ["Only functions can be called. Calling an unbound name, a number or an",
     "array raises this error at the closing parenthesis of the call.",
     "",
     "**Example:**",
     "",
     "    f(1, 2, 3)    -- f was never bound"]⟩,
   ⟨TypeFault.nonIndexableObject, "SE-T002", "object is not indexable",
    ["Only arrays can be indexed.",
     "",
     "**Example:**",
     "",
     "    3[0]"]⟩,
   ⟨TypeFault.nonExpandableObject, "SE-T003", "object cannot be expanded",
    ["The prefix `*` spreads the elements of an array into the surrounding",
     "list. Applying it to anything else is an error.",
     "",
     "**Example:**",
     "",
     "    sum(*1)"]⟩,
   ⟨TypeFault.mathAmongNonNumbers, "SE-T004", "math on a non-number",
    ["Arithmetic, comparison and logic operators work on numbers only.",
     "Unbound names read as `nil`.",
     "",
     "**Example:**",
     "",
     "    \x7b1\x7d + 1"]⟩,
   ⟨TypeFault.moduloWithFloat, "SE-T005", "modulo with a float",
    ["`%` and `%=` need two integers. Convert first with `int`."]⟩,
   ⟨TypeFault.bitwiseWithFloat, "SE-T006", "bitwise operation with a float",
    ["`& | ^ ~ << >>` need integers. Convert first with `int`."]⟩]

/-- The codes of indexing. -/
def indexEntries : List Entry :=
  [⟨IndexFault.noIndex, "SE-I001", "missing index",
    ["An index expression has nothing between its brackets.",
     "",
     "**Example:**",
     "",
     "    a[]"]⟩,
   ⟨IndexFault.missingArray, "SE-I002", "missing array",
    ["A `[` starts the statement, so there is nothing to index.",
     "",
     "**Example:**",
     "",
     "    [0]",
     "",
     "Use `\x7b \x7d` for array literals."]⟩,
   ⟨IndexFault.expectNonNegativeInteger, "SE-I003", "index must be a non-negative integer",
    ["Indexes start at 0. Floats and negative numbers are rejected.",
     "",
     "**Example:**",
     "",
     "    \x7b1, 2\x7d[-1]"]⟩,
   ⟨IndexFault.outOfRange, "SE-I004", "index out of range",
    ["The index is past the last element.",
     "",
     "**Example:**",
     "",
     "    \x7b1, 2, 3\x7d[5]"]⟩]

/-- The codes of running. -/
def runtimeEntries : List Entry :=
  [⟨RuntimeFault.expectFunction, "SE-R001", "missing function",
    ["A call has no callee in front of it."]⟩,
   ⟨RuntimeFault.badCallArgs, "SE-R002", "invalid call arguments",
    ["A function rejected its arguments as a whole."]⟩,
   ⟨RuntimeFault.badCallArgCount, "SE-R003", "wrong number of arguments",
    ["The function takes a fixed number of arguments, or at least one for",
     "`sum` and `mul`.",
     "",
     "**Example:**",
     "",
     "    sin(1, 2)"]⟩,
   ⟨RuntimeFault.badCallArgType, "SE-R004", "wrong argument type",
    ["Builtin functions take numbers. `factorial` takes a non-negative",
     "integer.",
     "",
     "**Example:**",
     "",
     "    sin(\x7b1\x7d)"]⟩,
   ⟨RuntimeFault.expandEmptyArray, "SE-R005", "cannot expand an empty array",
    ["**Example:**",
     "",
     "    sum(*\x7b\x7d)"]⟩,
   ⟨RuntimeFault.assignLeftValue, "SE-R006", "cannot assign to an unnamed value",
    ["The left side of `=` or a compound assignment must be a name or an",
     "element of a named array.",
     "",
     "**Example:**",
     "",
     "    1 = 2",
     "",
     "**Fix:**",
     "",
     "    a = 2"]⟩,
   ⟨RuntimeFault.mathWithNaNOrInf, "SE-R007", "NaN or Inf in a math operation",
    ["A value that is NaN, infinite or an overflowed integer (shown as `Inf`)",
     "cannot be used as an operand.",
     "",
     "**Example:**",
     "",
     "    (2147483647 + 1) * 2"]⟩,
   ⟨RuntimeFault.intDivOrModByZero, "SE-R008", "integer division or modulo by zero",
    ["Float division by zero yields `Inf`; integer division does not.",
     "",
     "**Example:**",
     "",
     "    1 / 0"]⟩,
   ⟨RuntimeFault.noAvailableId, "SE-R009", "no available object id",
    ["Every named value and array element uses one of 65535 ids. Ids return to",
     "the pool when values are released."]⟩,
   ⟨RuntimeFault.badAlloc, "SE-R010", "allocation failed",
    ["The runtime could not obtain memory for a value."]⟩,
   ⟨RuntimeFault.badSymbolInsertion, "SE-R011", "symbol insertion failed",
    ["A name could not be added to the symbol table because it is already",
     "present."]⟩]

/-- All entries, in the order of the codes. -/
def entries : List Entry :=
  usageEntries ++ syntaxEntries ++ typeEntries ++ indexEntries ++ runtimeEntries

/-- The entry of a code. -/
def find? (code : String) : Option Entry := entries.find? fun e => e.code == code

/-- The code of a fault. -/
def codeOf? (f : Fault) : Option String := (entries.find? fun e => e.fault == f).map (·.code)

/-- Faults that host functions raise have no code. -/
theorem codeOf?_custom (n : UInt32) : codeOf? (.custom n) = none := by
  simp [codeOf?, entries, usageEntries, syntaxEntries, typeEntries, indexEntries, runtimeEntries]

end Catalogue

end Reckon
