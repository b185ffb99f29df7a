/-!
# Operators

The operators of the expression language, with the two facts about each that decide how an
expression is read: its priority (1 binds tightest) and whether operators of that priority group
from the left. Brackets are operators too, one opener and one closer for each of four constructs.
-/

namespace Reckon

/-- The four bracketed constructs. A call is written with the brackets of a group; only what stands
before the bracket tells them apart. -/
inductive Bracket where
  | group
  | call
  | index
  | array
  deriving DecidableEq, Repr, Inhabited

namespace Bracket

/-- How the opener is written. -/
def openSymbol : Bracket → String
  | group | call => "("
  | index => "["
  | array => "\x7b"

/-- How the closer is written. -/
def closeSymbol : Bracket → String
  | group | call => ")"
  | index => "]"
  | array => "\x7d"

/-- The name of the construct. -/
def name : Bracket → String
  | group => "Group"
  | call => "Call"
  | index => "Index"
  | array => "Array"

/-- The four constructs. -/
def all : List Bracket := [group, call, index, array]

end Bracket

/-- An operator. `plus`, `minus` and `spread` are what `+`, `-` and `*` mean in front of an
operand. -/
inductive Operator where
  | opener (b : Bracket)
  | closer (b : Bracket)
  | plus
  | minus
  | spread
  | not
  | bitNot
  | mul
  | div
  | mod
  | add
  | sub
  | shl
  | shr
  | gt
  | ge
  | lt
  | le
  | eq
  | ne
  | bitAnd
  | bitXor
  | bitOr
  | and
  | or
  | assign
  | divAssign
  | mulAssign
  | modAssign
  | addAssign
  | subAssign
  | shlAssign
  | shrAssign
  | andAssign
  | xorAssign
  | orAssign
  | comma
  | semicolon
  deriving DecidableEq, Repr, Inhabited

namespace Operator

/-- The priority level of an operator; 1 binds tightest. Brackets are at level 1, prefix operators
at 2, assignments at 14 and the comma at 15. The statement terminator stands below them all. -/
def priority : Operator → Nat
  | opener _ | closer _ => 1
  | plus | minus | spread | not | bitNot => 2
  | mul | div => 3
  | mod => 4
  | add | sub => 5
  | shl | shr => 6
  | gt | ge | lt | le => 7
  | eq | ne => 8
  | bitAnd => 9
  | bitXor => 10
  | bitOr => 11
  | and => 12
  | or => 13
  | assign | divAssign | mulAssign | modAssign | addAssign | subAssign | shlAssign | shrAssign
  | andAssign | xorAssign | orAssign => 14
  | comma => 15
  | semicolon => 16

/-- Whether a run of operators of this priority groups from the left. Prefix operators and
assignments group from the right. -/
def groupsLeft (op : Operator) : Bool := op.priority != 2 && op.priority != 14

/-- Whether the operator stands in front of its one operand. -/
def isPrefix (op : Operator) : Bool := op.priority == 2

/-- Whether the operator makes one value of two. -/
def isBinary (op : Operator) : Bool := 3 ≤ op.priority && op.priority ≤ 14

/-- Whether the operator opens a bracket. -/
def isOpener : Operator → Bool
  | opener _ => true
  | _ => false

/-- Whether the operator closes a bracket. -/
def isCloser : Operator → Bool
  | closer _ => true
  | _ => false

/-- The operator that a compound assignment applies before it stores. -/
def compoundBase : Operator → Option Operator
  | divAssign => some div
  | mulAssign => some mul
  | modAssign => some mod
  | addAssign => some add
  | subAssign => some sub
  | shlAssign => some shl
  | shrAssign => some shr
  | andAssign => some bitAnd
  | xorAssign => some bitXor
  | orAssign => some bitOr
  | _ => none

/-- What `+`, `-` and `*` mean where an operand is expected; every other operator means the same
everywhere. -/
def inFront : Operator → Operator
  | add => plus
  | sub => minus
  | mul => spread
  | op => op

/-- How the operator is shown in a printed postfix sequence. The prefix forms carry an `x` and the
brackets of a call the word, so that no two operators look alike. -/
def symbol : Operator → String
  | opener .call => "call("
  | opener b => b.openSymbol
  | closer .call => ")call"
  | closer b => b.closeSymbol
  | plus => "+x"
  | minus => "-x"
  | spread => "*x"
  | not => "!"
  | bitNot => "~"
  | mul => "*"
  | div => "/"
  | mod => "%"
  | add => "+"
  | sub => "-"
  | shl => "<<"
  | shr => ">>"
  | gt => ">"
  | ge => ">="
  | lt => "<"
  | le => "<="
  | eq => "=="
  | ne => "!="
  | bitAnd => "&"
  | bitXor => "^"
  | bitOr => "|"
  | and => "&&"
  | or => "||"
  | assign => "="
  | divAssign => "/="
  | mulAssign => "*="
  | modAssign => "%="
  | addAssign => "+="
  | subAssign => "-="
  | shlAssign => "<<="
  | shrAssign => ">>="
  | andAssign => "&="
  | xorAssign => "^="
  | orAssign => "|="
  | comma => ","
  | semicolon => ";"

/-- The name of the operator. The two brackets are told apart further by what they enclose. -/
def name : Operator → String
  | opener _ => "Open"
  | closer _ => "Close"
  | plus => "Plus"
  | minus => "Minus"
  | spread => "Spread"
  | not => "Not"
  | bitNot => "BitNot"
  | mul => "Mul"
  | div => "Div"
  | mod => "Mod"
  | add => "Add"
  | sub => "Sub"
  | shl => "Shl"
  | shr => "Shr"
  | gt => "Gt"
  | ge => "Ge"
  | lt => "Lt"
  | le => "Le"
  | eq => "Eq"
  | ne => "Ne"
  | bitAnd => "BitAnd"
  | bitXor => "BitXor"
  | bitOr => "BitOr"
  | and => "And"
  | or => "Or"
  | assign => "Assign"
  | divAssign => "DivAssign"
  | mulAssign => "MulAssign"
  | modAssign => "ModAssign"
  | addAssign => "AddAssign"
  | subAssign => "SubAssign"
  | shlAssign => "ShlAssign"
  | shrAssign => "ShrAssign"
  | andAssign => "AndAssign"
  | xorAssign => "XorAssign"
  | orAssign => "OrAssign"
  | comma => "Comma"
  | semicolon => "Semicolon"

/-- Every operator. -/
def all : List Operator :=
  Bracket.all.map opener ++ Bracket.all.map closer ++
    [plus, minus, spread, not, bitNot, mul, div, mod, add, sub, shl, shr, gt, ge, lt, le, eq,
     ne, bitAnd, bitXor, bitOr, and, or, assign, divAssign, mulAssign, modAssign, addAssign,
     subAssign, shlAssign, shrAssign, andAssign, xorAssign, orAssign, comma, semicolon]

end Operator

end Reckon
