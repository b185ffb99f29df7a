import Reckon.Source

/-!
# Rows and columns of a script

A script is cut into rows after every line break, where `\r\n`, `\r` and `\n` are one break each.
A tab takes as many columns as the tab width says, and every other character takes one.
`positionAt` finds the row and column of a byte offset and `rowTextAt` the row to show for it; both
look at the same cut, so a column counts characters of the row as it is shown.
-/

namespace Reckon

/-- Whether a character ends a row. -/
def isLineBreak (c : Char) : Bool := c == '\r' || c == '\n'

/-- Puts a character in front of the first row. -/
def consRow (c : Char) : List (List Char) → List (List Char)
  | [] => [[c]]
  | row :: rows => (c :: row) :: rows

/-- The rows of a text, each with the break that ends it. The last row ends with the text, so a text
that ends with a break has an empty last row. -/
def rowsOf : List Char → List (List Char)
  | [] => [[]]
  | '\r' :: '\n' :: cs => ['\r', '\n'] :: rowsOf cs
  | c :: cs => if isLineBreak c then [c] :: rowsOf cs else consRow c (rowsOf cs)

/-- An offset as a place in a row: how many rows stand before it, the row, and how many bytes into
the row it lies. -/
structure RowPlace where
  before : Nat
  row : List Char
  bytes : Nat
  deriving Repr

/-- The row that holds an offset. An offset past the end belongs to the last row. -/
def placeIn : List (List Char) → Nat → RowPlace
  | [], offset => ⟨0, [], offset⟩
  | [row], offset => ⟨0, row, offset⟩
  | row :: rows, offset =>
    if offset < byteLength row then ⟨0, row, offset⟩
    else
      let p := placeIn rows (offset - byteLength row)
      { p with before := p.before + 1 }

/-- The characters that take up the first `n` bytes, or all characters when there are fewer bytes;
none when a character straddles the boundary. -/
def charsWithin : List Char → Nat → Option (List Char)
  | [], _ => some []
  | _ :: _, 0 => some []
  | c :: cs, n => if c.utf8Size ≤ n then (charsWithin cs (n - c.utf8Size)).map (c :: ·) else none

/-- How many columns a character takes. -/
def columnWidth (tabWidth : Nat) (c : Char) : Nat := if c == '\t' then tabWidth else 1

/-- How many columns a run of characters takes. -/
def columns (tabWidth : Nat) (cs : List Char) : Nat :=
  cs.foldr (fun c n => columnWidth tabWidth c + n) 0

/-- The row and column of a byte offset. An offset inside a character is put at the start of its
row, and one past the end of the script at the end of the last row. -/
def positionAt (tabWidth : Nat) (script : String) (offset : Nat) : Position :=
  let p := placeIn (rowsOf script.toList) offset
  ⟨p.before + 1, columns tabWidth ((charsWithin p.row p.bytes).getD []) + 1⟩

/-- A character as it is shown: a tab as so many blanks. -/
def expandTab (tabWidth : Nat) (c : Char) : List Char :=
  if c == '\t' then List.replicate tabWidth ' ' else [c]

/-- A row as it is shown: without its line break and with its tabs expanded. -/
def shownRow (tabWidth : Nat) (row : List Char) : List Char :=
  (row.filter (fun c => !isLineBreak c)).flatMap (expandTab tabWidth)

/-- The text of the row that holds a byte offset, as it is shown. -/
def rowTextAt (tabWidth : Nat) (script : String) (offset : Nat) : String :=
  String.ofList (shownRow tabWidth (placeIn (rowsOf script.toList) offset).row)

end Reckon
