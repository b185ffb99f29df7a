import Reckon.Diagnostic
import Reckon.JsonValue

/-!
# Diagnostics as JSON

`Diagnostic.json` gives a diagnostic to another program: one line, with the fields of every object
in the order of their names. What a diagnostic does not have is left out, but there are always
notes, if only an empty list of them.
-/

namespace Reckon

namespace Diagnostic

/-- The label, with the row and column where it begins if they are known. -/
def labelJson (d : Diagnostic) (label : Label) : JsonValue :=
  let place := match d.location? with
    | some p => [("line", .number p.row), ("col", .number p.col)]
    | none => []
  .object ([("start", .number label.span.start), ("end", .number label.span.stop),
    ("message", .string label.message)] ++ place)

/-- A row and a column. -/
def positionJson (p : Position) : JsonValue :=
  .object [("row", .number p.row), ("col", .number p.col)]

/-- A field that may be left out. -/
def optional (key : String) (v : Option JsonValue) : List (String × JsonValue) :=
  v.toList.map fun v => (key, v)

/-- The diagnostic as an object. -/
def toJson (d : Diagnostic) : JsonValue :=
  .object ([("severity", .string "error"), ("message", .string d.message),
      ("notes", .array (d.notes.map .string))] ++
    optional "code" (d.code.map .string) ++
    optional "span" (d.label.map d.labelJson) ++
    optional "position" (d.position.map positionJson) ++
    optional "suggestion" (d.suggestion.map .string))

/-- The diagnostic as one line of JSON. -/
def json (d : Diagnostic) : String := d.toJson.sorted.text

end Diagnostic

end Reckon
