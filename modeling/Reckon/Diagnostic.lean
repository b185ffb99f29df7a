import Reckon.Diagnostic.Catalogue
import Reckon.Statement

/-!
# Diagnostics

A `Diagnostic` is what a person is told about a failure: the message and its code, the part of the
script it points at with a word on it, and perhaps notes and a suggestion. `Diagnostic.ofFailure`
describes a failure, and `Diagnostic.excerpt?` finds the row of the script to show and where in it
the underline stands.
-/

namespace Reckon

namespace Fault

/-- The word on the part of the script that a fault points at. -/
def label : Fault → String
  | typing .nonCallableObject => "called here"
  | indexing _ => "indexed here"
  | runtime .assignLeftValue => "assigned here"
  | _ => "here"

/-- What may be done about a fault. -/
def suggestion? : Fault → Option String
  | grammar .expectSeparator => some "put an operator or `,` between the two operands"
  | grammar .tooManyCommas => some "remove the extra `,`"
  | grammar .missingComma => some "separate list elements with `,`"
  | grammar .unicodeChar => some "scripts are plain ASCII"
  | typing .nonCallableObject => some "only functions can be called; is the name bound?"
  | typing .moduloWithFloat | typing .bitwiseWithFloat =>
    some "convert the operand with `int(...)` first"
  | indexing .missingArray => some "array literals use `\x7b \x7d`"
  | runtime .assignLeftValue => some "assign to a name, e.g. `a = ...`"
  | _ => none

end Fault

/-- A part of a script with a word on it. -/
structure Label where
  span : Span
  message : String
  deriving DecidableEq, Repr, Inhabited

/-- A failure as it is told. -/
structure Diagnostic where
  message : String
  code : Option String := none
  label : Option Label := none
  /-- The row and column the reader noticed the fault at, if it was the reader. -/
  position : Option Position := none
  notes : List String := []
  suggestion : Option String := none
  source : Option String := none
  tabWidth : Nat := ({} : ReaderOptions).tabWidth
  deriving DecidableEq, Repr, Inhabited

/-- A row of a script with an underline. -/
structure Excerpt where
  /-- Where the underline begins. -/
  place : Position
  /-- The row as it is shown. -/
  row : String
  /-- How many characters long the underline is: one for every byte of the span, and at least
  one. -/
  carets : Nat
  deriving DecidableEq, Repr, Inhabited

namespace Diagnostic

/-- The note on a statement with so many faults. -/
def countNotes (count : Nat) : List String :=
  if 1 < count then [toString count ++ " errors in this statement, showing the first"] else []

/-- Tells a failure that was raised while a script ran. -/
def ofFailure (f : Failure) (source : String) (tabWidth : Nat) : Diagnostic where
  message := f.fault.message
  code := Catalogue.codeOf? f.fault
  label := f.span.map fun span => ⟨span, f.fault.label⟩
  position := f.position
  notes := countNotes f.count
  suggestion := f.fault.suggestion?
  source := some source
  tabWidth

/-- The excerpt of the script that the label points into. -/
def excerpt? (d : Diagnostic) : Option Excerpt :=
  match d.label, d.source with
  | some label, some source => some
      { place := positionAt d.tabWidth source label.span.start
        row := rowTextAt d.tabWidth source label.span.start
        carets := max label.span.length 1 }
  | _, _ => none

/-- Where the label begins: where the reader says, or else where it lies in the script. -/
def location? (d : Diagnostic) : Option Position :=
  d.excerpt?.map fun e => d.position.getD e.place

end Diagnostic

end Reckon
