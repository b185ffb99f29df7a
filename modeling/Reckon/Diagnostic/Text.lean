import Reckon.Diagnostic

/-!
# Diagnostics as text

`Diagnostic.text` shows a diagnostic to a person: a heading, the row of the script with the part in
question underlined, then notes and the suggestion. On a terminal the parts have colors.
-/

namespace Reckon

/-- What is set apart by color, or by weight. -/
inductive Ink where
  | bold
  | boldRed
  | cyan
  | dim
  deriving DecidableEq, Repr, Inhabited

namespace Ink

/-- The terminal's number for an ink. -/
def code : Ink → String
  | bold => "1"
  | boldRed => "1;31"
  | cyan => "36"
  | dim => "2"

/-- A text in an ink, if colors are wanted. -/
def paint (ink : Ink) (color : Bool) (text : String) : String :=
  if color then "\x1b[" ++ ink.code ++ "m" ++ text ++ "\x1b[0m" else text

end Ink

namespace Diagnostic

/-- So many times the same character. -/
def repeated (n : Nat) (c : Char) : String := String.ofList (List.replicate n c)

/-- The line with the code and the message. -/
def headingLine (color : Bool) (d : Diagnostic) : String :=
  let heading := match d.code with
    | some code => "error[" ++ code ++ "]"
    | none => "error"
  Ink.boldRed.paint color heading ++ ": " ++ Ink.bold.paint color d.message

/-- The underline and the word on it, under the columns of the row. -/
def underline (color : Bool) (e : Excerpt) (message : String) : String :=
  let carets := repeated (e.place.col - 1) ' ' ++ Ink.boldRed.paint color (repeated e.carets '^')
  if message.isEmpty then carets else carets ++ " " ++ Ink.boldRed.paint color message

/-- The lines with the row in question. -/
def excerptLines (color : Bool) (location : Position) (e : Excerpt) (message : String) :
    List String :=
  let number := toString e.place.row
  let margin := repeated number.length ' '
  let pipe := Ink.cyan.paint color "|"
  ["  " ++ Ink.cyan.paint color "-->" ++ " " ++ location.text,
   margin ++ " " ++ pipe,
   Ink.cyan.paint color number ++ " " ++ pipe ++ " " ++ e.row,
   margin ++ " " ++ pipe ++ " " ++ underline color e message,
   margin ++ " " ++ pipe]

/-- A line below the excerpt. -/
def remark (color : Bool) (kind text : String) : String :=
  "  " ++ Ink.dim.paint color "=" ++ " " ++ kind ++ ": " ++ text

/-- The lines of a diagnostic. -/
def lines (color : Bool) (d : Diagnostic) : List String :=
  let excerpt := match d.excerpt?, d.location?, d.label with
    | some e, some location, some label => excerptLines color location e label.message
    | _, _, _ => []
  headingLine color d :: excerpt ++ d.notes.map (remark color "note") ++
    d.suggestion.toList.map (remark color "suggestion")

/-- The diagnostic as it is shown, each line with its end. -/
def text (color : Bool) (d : Diagnostic) : String :=
  "".intercalate ((lines color d).map fun line => line ++ "\n")

end Diagnostic

end Reckon
