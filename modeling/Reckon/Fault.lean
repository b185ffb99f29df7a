import Reckon.Source

/-!
# Faults

What can go wrong, as causes. Each family of causes has one table of wordings, and `Fault.message`
puts the family in front. A `Failure` is a fault together with the place it was noticed at.
-/

namespace Reckon

/-- The one fault that belongs to no stage: an operation asked for at the wrong time. -/
inductive UsageFault where
  | wrongPhase
  deriving DecidableEq, Repr, Inhabited

/-- Faults of a statement's form. -/
inductive SyntaxFault where
  | invalidSyntax
  | undefinedIdentifier
  | unicodeChar
  | invalidNumberLiteral
  | expectSeparator
  | symbolTooLong
  | noLeftBracket
  | noRightBracket
  | crossedBrackets
  | missingComma
  | tooManyCommas
  | missingOperand
  | beyondCharset
  deriving DecidableEq, Repr, Inhabited

/-- Faults of a value being of the wrong sort. -/
inductive TypeFault where
  | nonCallableObject
  | nonIndexableObject
  | nonExpandableObject
  | mathAmongNonNumbers
  | moduloWithFloat
  | bitwiseWithFloat
  deriving DecidableEq, Repr, Inhabited

/-- Faults of indexing. -/
inductive IndexFault where
  | noIndex
  | missingArray
  | expectNonNegativeInteger
  | outOfRange
  deriving DecidableEq, Repr, Inhabited

/-- The remaining faults of execution. -/
inductive RuntimeFault where
  | expectFunction
  | badCallArgs
  | badCallArgCount
  | badCallArgType
  | expandEmptyArray
  | assignLeftValue
  | mathWithNaNOrInf
  | intDivOrModByZero
  | noAvailableId
  | badAlloc
  | badSymbolInsertion
  deriving DecidableEq, Repr, Inhabited

namespace UsageFault

/-- The wording of a usage fault. -/
def text : UsageFault → String
  | wrongPhase => "operation is not valid in the current context state"

end UsageFault

namespace SyntaxFault

/-- The wording of a syntax fault. -/
def text : SyntaxFault → String
  | invalidSyntax => "invalid syntax"
  | undefinedIdentifier => "undefined identifier"
  | unicodeChar => "unicode characters are not supported"
  | invalidNumberLiteral => "invalid number literal"
  | expectSeparator => "expected a separator between two operands"
  | symbolTooLong => "symbol is longer than the allowed maximum"
  | noLeftBracket => "missing left bracket"
  | noRightBracket => "missing right bracket"
  | crossedBrackets => "crossed brackets"
  | missingComma => "missing comma"
  | tooManyCommas => "too many commas"
  | missingOperand => "missing operand"
  | beyondCharset => "character outside the supported charset"

end SyntaxFault

namespace TypeFault

/-- The wording of a type fault. -/
def text : TypeFault → String
  | nonCallableObject => "object is not callable"
  | nonIndexableObject => "object is not indexable"
  | nonExpandableObject => "object cannot be expanded"
  | mathAmongNonNumbers => "math operation on a non-number"
  | moduloWithFloat => "modulo with a float operand"
  | bitwiseWithFloat => "bitwise operation with a float operand"

end TypeFault

namespace IndexFault

/-- The wording of an index fault. -/
def text : IndexFault → String
  | noIndex => "missing index"
  | missingArray => "missing array to index"
  | expectNonNegativeInteger => "index must be a non-negative integer"
  | outOfRange => "index out of range"

end IndexFault

namespace RuntimeFault

/-- The wording of a run-time fault. -/
def text : RuntimeFault → String
  | expectFunction => "missing function name or invalid function object"
  | badCallArgs => "invalid function call arguments"
  | badCallArgCount => "wrong number of function call arguments"
  | badCallArgType => "wrong function call argument type"
  | expandEmptyArray => "cannot expand an empty array"
  | assignLeftValue => "cannot assign to an unnamed value"
  | mathWithNaNOrInf => "NaN or Inf in a math operation"
  | intDivOrModByZero => "integer division or modulo by zero"
  | noAvailableId => "no available object id"
  | badAlloc => "allocation failed"
  | badSymbolInsertion => "symbol insertion failed"

end RuntimeFault

/-- A fault of any family. Host functions raise `custom` faults, which carry a code of theirs. -/
inductive Fault where
  | usage (cause : UsageFault)
  | grammar (cause : SyntaxFault)
  | typing (cause : TypeFault)
  | indexing (cause : IndexFault)
  | runtime (cause : RuntimeFault)
  | custom (code : UInt32)
  deriving DecidableEq, Repr, Inhabited

instance : Coe UsageFault Fault := ⟨.usage⟩
instance : Coe SyntaxFault Fault := ⟨.grammar⟩
instance : Coe TypeFault Fault := ⟨.typing⟩
instance : Coe IndexFault Fault := ⟨.indexing⟩
instance : Coe RuntimeFault Fault := ⟨.runtime⟩

namespace Fault

/-- The name of the family. -/
def category : Fault → String
  | usage _ => "UnknownError"
  | grammar _ => "SyntaxError"
  | typing _ => "TypeError"
  | indexing _ => "IndexError"
  | runtime _ => "RuntimeError"
  | custom _ => "CustomError"

/-- What went wrong, without the family. -/
def text : Fault → String
  | usage cause => cause.text
  | grammar cause => cause.text
  | typing cause => cause.text
  | indexing cause => cause.text
  | runtime cause => cause.text
  | custom code => "code " ++ toString code.toNat

/-- The whole message: the family, a colon and what went wrong. -/
def message (f : Fault) : String := f.category ++ ": " ++ f.text

end Fault

/-- A fault that was raised, and where. -/
structure Failure where
  fault : Fault
  /-- The offending lexeme of the script, when there is one. -/
  span : Option Span := none
  /-- The row and column the reader was at, for faults the reader raises. -/
  position : Option Position := none
  /-- How many faults the reader met in the statement; at least 1. -/
  count : Nat := 1
  deriving DecidableEq, Repr, Inhabited

namespace Failure

/-- A fault noticed at a span. -/
def atSpan (fault : Fault) (span : Span) : Failure := { fault, span := some span }

/-- Points the failure at a span unless it points somewhere already. -/
def orSpan (f : Failure) (span : Span) : Failure :=
  match f.span with
  | some _ => f
  | none => { f with span := some span }

/-- Whether the failure is of this fault. -/
def hasFault (f : Failure) (fault : Fault) : Bool := f.fault == fault

end Failure

end Reckon
