import Reckon.Diagnostic.Json
import Reckon.Diagnostic.Text
import Reckon.Listing
import Reckon.Session

/-!
# The command line

`Arguments` are what the command line asks for, and `Arguments.outcome` is the answer: what is
written, where, and whether the program succeeds. The texts it names run in one session, one after
the other; the value of the last statement is written. Instead of running, a stage of compiling can
be listed, or a code explained.
-/

namespace Reckon

/-- What a command line asks for. -/
structure Arguments where
  /-- Texts to be run, in order. -/
  sources : List String := []
  /-- A file to be run behind the texts. -/
  file : Option String := none
  /-- A stage to be listed instead of running. -/
  stage : Option Stage := none
  /-- Whether failures are told as JSON. -/
  json : Bool := false
  /-- A code to be explained. Nothing else is done then. -/
  explain : Option String := none
  deriving DecidableEq, Repr, Inhabited

/-- Why a file could not be read. -/
inductive FileFault where
  | missing
  | other (reason : String)
  deriving DecidableEq, Repr, Inhabited

/-- The wording of a file fault. -/
def FileFault.text : FileFault → String
  | missing => "No such file or directory (os error 2)"
  | other reason => reason

/-- What the command line stands in: the text of the file it names, standard input, whether failures
are shown in color, and where chance begins. -/
structure Surroundings where
  file : Except FileFault String := .ok ""
  input : String := ""
  color : Bool := false
  entropy : Entropy := .seeded 0
  deriving Inhabited

/-- What is written to standard output and standard error, and whether all went well. -/
structure Outcome where
  output : String := ""
  errors : String := ""
  success : Bool := true
  deriving DecidableEq, Repr, Inhabited

namespace Arguments

/-! ## Reading the arguments -/

/-- Whether an argument is an option. A lone `-` is a text. -/
def isOption (arg : String) : Bool := arg.startsWith "-" && arg != "-"

/-- An option and the value that is attached to it, if one is: behind a `=`, or, with a short
option, at once. -/
def splitOption (arg : String) : String × Option String :=
  let attached (cs : List Char) : Option String :=
    match cs with
    | [] => none
    | '=' :: cs => some (String.ofList cs)
    | cs => some (String.ofList cs)
  if arg.startsWith "--" then
    (String.ofList (arg.toList.takeWhile (· != '=')), attached (arg.toList.dropWhile (· != '=')))
  else (String.ofList (arg.toList.take 2), attached (arg.toList.drop 2))

/-- Takes in an option with its value. No option may be given twice. -/
def setOption? (a : Arguments) (option value : String) : Option Arguments :=
  match option with
  | "-f" | "--file" => if a.file.isSome then none else some { a with file := some value }
  | "--explain" => if a.explain.isSome then none else some { a with explain := some value }
  | "--emit" =>
    if a.stage.isSome then none
    else (Stage.find? value).map fun stage => { a with stage := some stage }
  | _ => none

/-- Takes in arguments one after the other. Behind `--` every argument is a text. -/
def parseOnto (a : Arguments) : List String → Option Arguments
  | [] => some a
  | arg :: args =>
    if arg = "--" then some { a with sources := a.sources ++ args }
    else if arg = "--json" then
      if a.json then none else parseOnto { a with json := true } args
    else if isOption arg then
      match splitOption arg, args with
      | (option, some value), args =>
        match a.setOption? option value with
        | some a => parseOnto a args
        | none => none
      | (_, none), [] => none
      | (option, none), value :: args =>
        -- what looks like an option is no value
        if isOption value then none
        else
          match a.setOption? option value with
          | some a => parseOnto a args
          | none => none
    else parseOnto { a with sources := a.sources ++ [arg] } args

/-- Reads arguments; there is nothing to be made of an unknown option. -/
def parse? (args : List String) : Option Arguments := parseOnto {} args

/-! ## Answering -/

/-- Whether the script comes from standard input: when the arguments name no other. -/
def readsInput (a : Arguments) : Bool := a.sources.isEmpty && a.file.isNone

/-- The texts to be loaded, in order, or a message about the file. -/
def texts (a : Arguments) (s : Surroundings) : Except String (List String) :=
  match a.file, s.file with
  | some path, .error fault => .error ("error reading " ++ path ++ ": " ++ fault.text)
  | some _, .ok text => .ok (a.sources ++ [text])
  | none, _ => .ok (if a.readsInput then [s.input] else a.sources)

/-- A session into which texts have been loaded. -/
def loaded (texts : List String) (entropy : Entropy) : Session :=
  texts.foldl Session.load (.new {} entropy)

/-- Lines as they are written. -/
def written (lines : List String) : String := "".intercalate (lines.map fun line => line ++ "\n")

/-- Tells a failure. -/
def report (a : Arguments) (color : Bool) (c : Session) (f : Failure) : String :=
  let d := Diagnostic.ofFailure f c.script c.options.tabWidth
  if a.json then written [d.json] else d.text color

/-- Explains a code. -/
def explaining (code : String) : Outcome :=
  match Catalogue.find? code with
  | some entry => { output := entry.explanation }
  | none => { errors := written ["unknown error code '" ++ code ++ "'"], success := false }

/-- Lists a stage. What was listed before a failure stays. -/
def listing (a : Arguments) (color : Bool) (stage : Stage) (c : Session) : Outcome :=
  let (lines, failure?) := Listing.lines stage c.script {}
  match failure? with
  | none => { output := written lines }
  | some f => { output := written lines, errors := a.report color c f, success := false }

/-- Runs what is loaded, and writes the value of the last statement, if there was any. -/
def running (a : Arguments) (color : Bool) (c : Session) : Outcome :=
  match c.runAll .nil with
  | (.ok _, c) => { output := written (c.value.toList.map Value.text) }
  | (.error f, c) => { errors := a.report color c f, success := false }

/-- What the program does. -/
def outcome (a : Arguments) (s : Surroundings) : Outcome :=
  match a.explain with
  | some code => explaining code
  | none =>
    match a.texts s with
    | .error message => { errors := written [message], success := false }
    | .ok texts =>
      let c := loaded texts s.entropy
      match a.stage with
      | some stage => a.listing s.color stage c
      | none => a.running s.color c

end Arguments

/-- The number the program ends with. -/
def Outcome.exitCode (o : Outcome) : UInt32 := if o.success then 0 else 1

end Reckon
