import Reckon.CommandLine

/-!
# The program

`main` looks up what the command line refers to, and writes what `Arguments.outcome` answers.
-/

namespace Reckon

/-- How the program is called. -/
def usage : String :=
  "usage: se [-f FILE] [--emit tokens|rpn|stream] [--json] [--explain CODE] [--] [SOURCE]..."

/-- Why a file could not be read, as the system says. -/
def fileFault : IO.Error → FileFault
  | .noFileOrDirectory _ _ _ => .missing
  | e => .other (toString e)

/-- Reads the file that the arguments name, if they name one. -/
def readFile? (a : Arguments) : IO (Except FileFault String) := do
  match a.file with
  | none => return .ok ""
  | some path =>
    try return .ok (← IO.FS.readFile path)
    catch e => return .error (fileFault e)

/-- Reads a stream to its end, behind the text that has been read already. -/
partial def readOnto (text : String) (stream : IO.FS.Stream) : IO String := do
  let line ← stream.getLine
  if line.isEmpty then return text else readOnto (text ++ line) stream

/-- A number that cannot be foretold. -/
def seed : IO Entropy := do
  let bytes ← IO.getRandomBytes 8
  return .seeded bytes.toUInt64LE!

/-- What the command line stands in. Nothing is read that is not needed. -/
def surroundings (a : Arguments) : IO Surroundings := do
  let color ← (← IO.getStderr).isTty
  if a.explain.isSome then return { color }
  let file ← readFile? a
  let input ← if a.readsInput then readOnto "" (← IO.getStdin) else pure ""
  return { file, input, color, entropy := ← seed }

/-- Answers the arguments. Arguments that cannot be read end the program with 2. -/
def answer (args : List String) : IO UInt32 := do
  match Arguments.parse? args with
  | none =>
    IO.eprintln usage
    return 2
  | some a =>
    let o := a.outcome (← surroundings a)
    IO.print o.output
    IO.eprint o.errors
    return o.exitCode

end Reckon

/-- Runs the program. -/
def main (args : List String) : IO UInt32 := Reckon.answer args
