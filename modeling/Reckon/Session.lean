import Reckon.Builtin
import Reckon.Machine
import Reckon.Statement
import Reckon.Store.Reclaim
import Reckon.Store.Snapshot

/-!
# Sessions

A `Session` runs a script one statement at a time against a store that lasts. Each statement is read
by `forward`, compiled by `compile` and run by `execute`, in that order; the `Phase` says what may
come next. `load` adds text to the script: text that has not been read is kept in front of it.

The result of the last statement that ran is held read-only until the next one runs, so binding its
name anew leaves it as it was. After a fault the session goes on with the next statement.
-/

namespace Reckon

/-- Where a session stands between reading, compiling and running. -/
inductive Phase where
  /-- Nothing is left to read. -/
  | unloaded
  /-- A statement has been read. -/
  | unbuilt
  /-- A program waits to be run. -/
  | waiting
  /-- The last statement ran to its end. -/
  | done
  /-- The last stage failed. -/
  | failed
  deriving DecidableEq, Repr, Inhabited

/-- A script on its way through a store. -/
structure Session where
  store : Store := .empty
  options : ReaderOptions := {}
  script : String := ""
  /-- How many bytes of the script have been read. -/
  cursor : Nat := 0
  position : Position := .start
  phase : Phase := .unloaded
  /-- The statement that waits to be compiled. -/
  tokens : List Token := []
  /-- The program that waits to be run. -/
  program : Option Program := none
  /-- What the last statement gave. -/
  result : Option Object := none
  deriving Inhabited

namespace Session

/-! ## Setting up -/

/-- A session that knows no names. -/
def bare (options : ReaderOptions) (entropy : Entropy := .seeded 0) : Session :=
  { options, store := .empty entropy }

/-- Binds a function to its name, in place of whatever the name stood for. -/
def bindFunction (c : Session) (f : Function) : Except Failure SlotId × Session :=
  let (answer, store) := c.store.define f.name (.function f)
  (answer, { c with store })

/-- Binds functions to their names. -/
def bindAll (c : Session) (fs : List Function) : Session :=
  fs.foldl (fun c f => (c.bindFunction f).2) c

/-- A session that knows the builtin functions. -/
def new (options : ReaderOptions) (entropy : Entropy := .seeded 0) : Session :=
  (bare options entropy).bindAll Builtin.all

/-! ## Reading -/

/-- The text that has not been read. -/
def unread (c : Session) : List Char := charsFrom c.script c.cursor

/-- Whether a character may stand in text that has no statement. -/
def isFiller (ch : Char) : Bool :=
  ch == ' ' || ch == '\t' || ch == '\n' || ch == '\r' || ch == '\x0c' || ch == ';'

/-- Whether no statement waits to be compiled or run, and none is left to read. -/
def complete (c : Session) : Bool :=
  match c.phase with
  | .unbuilt | .waiting => false
  | _ => c.unread.all isFiller

/-- Adds text to the script. A script that is complete is replaced; otherwise the text becomes the
statements behind what is there. -/
def load (c : Session) (text : String) : Session :=
  if c.complete then { c with script := text, cursor := 0, position := .start }
  else { c with script := c.script ++ ";" ++ text }

/-- Ends a stage with a failure. What waited to be compiled or run is dropped. -/
def fail (c : Session) (e : Failure) : Except Failure α × Session :=
  (.error e, { c with tokens := [], program := none, phase := .failed })

/-- The failure of an operation that the phase does not allow. -/
def misuse : Failure := { fault := UsageFault.wrongPhase }

/-- A reader at the unread text. -/
def reader (c : Session) : Reader := .resume c.script c.cursor c.position c.options

/-- Reads the next statement that is not empty, and says whether there was one. -/
def forward (c : Session) : Except Failure Bool × Session :=
  let r := c.reader.nextStatement
  let c := { c with
    tokens := [], program := none, cursor := r.2.cursor, position := r.2.position }
  match r.1 with
  | .error e => c.fail e
  | .ok none => (.ok false, { c with phase := .unloaded })
  | .ok (some tokens) => (.ok true, { c with tokens, phase := .unbuilt })

/-! ## Compiling and running -/

/-- Compiles the statement that was read. -/
def compile (c : Session) : Except Failure Unit × Session :=
  if c.phase = .unbuilt then
    match Program.ofTokens c.tokens with
    | .ok program => (.ok (), { c with tokens := [], program := some program, phase := .waiting })
    | .error e => c.fail e
  else (.error misuse, c)

/-- The store without the result of the statement before. -/
def storeWithoutResult (c : Session) : Store :=
  match c.result with
  | some previous => c.store.release previous
  | none => c.store

/-- Runs a program and takes a read-only handle on what it gives. Afterwards the store is swept. -/
def runProgram (p : Program) (script : String) (s : Store) : Except Failure Object × Store :=
  let (answer, s) := match p.run script s with
    -- a handle on the literal, not on the slot: the name may be bound anew before the next run
    | (.ok obj, s) => s.materialize obj (s.request obj false)
    | (.error e, s) => (.error e, s)
  (answer, s.sweep.2)

/-- Takes in what a run has given, in place of the result before. -/
def settle (c : Session) (answer : Except Failure Object) (store : Store) :
    Except Failure Object × Session :=
  match answer with
  | .ok obj => (.ok obj, { c with store, program := none, result := some obj, phase := .done })
  | .error e => { c with store, result := none }.fail e

/-- Runs the program that waits. Its result takes the place of the one before, which is given up
first. -/
def execute (c : Session) : Except Failure Object × Session :=
  match c.phase, c.program with
  | .waiting, some program =>
    let r := runProgram program c.script c.storeWithoutResult
    c.settle r.1 r.2
  | _, _ => (.error misuse, c)

/-- A statement that was read has taken some of the unread text. -/
theorem forward_unread_lt {c c' : Session} (h : c.forward = (.ok true, c')) :
    c'.unread.length < c.unread.length := by
  unfold forward at h
  have hs := (Reader.standsIn_resume c.script c.cursor c.position c.options).nextStatement
  change c.reader.nextStatement.2.StandsIn c.script at hs
  cases hn : c.reader.nextStatement with
  | mk answer r =>
    rw [hn] at h hs
    cases answer with
    | error e => simp [fail] at h
    | ok tokens? =>
      cases tokens? with
      | none => simp at h
      | some tokens =>
        simp only [Prod.mk.injEq, true_and] at h
        subst h
        have hlt := Reader.nextStatement_unread_lt hn
        unfold unread
        rw [hs]
        exact hlt

/-- Compiling reads nothing. -/
theorem compile_unread (c : Session) : c.compile.2.unread = c.unread := by
  unfold compile
  split
  · split <;> rfl
  · rfl

/-- Running reads nothing. -/
theorem execute_unread (c : Session) : c.execute.2.unread = c.unread := by
  unfold execute
  split
  · dsimp only [settle]
    split <;> rfl
  · rfl

/-- A copy of the last result. -/
def value (c : Session) : Option Value := c.result.map c.store.snapshot

/-- A copy of what a name stands for. -/
def lookup (c : Session) (name : String) : Option Value :=
  (c.store.lookup name).map fun id => c.store.snapshot (.writable id)

/-- Gives up every name, the result and the script, and counts the literals that go with them. -/
def teardown (c : Session) : Nat × Session :=
  let r := c.storeWithoutResult.teardown
  (r.1, { bare c.options with store := r.2 })

/-! ## Whole scripts -/

/-- Runs the statements that are left, and gives the value of the last one. -/
def runAll (c : Session) (last : Value) : Except Failure Value × Session :=
  match _hf : c.forward with
  | (.error e, c) => (.error e, c)
  | (.ok false, c) => (.ok last, c)
  | (.ok true, c₁) =>
    match _hc : c₁.compile with
    | (.error e, c) => (.error e, c)
    | (.ok (), c₂) =>
      match _he : c₂.execute with
      | (.error e, c) => (.error e, c)
      | (.ok _, c₃) => c₃.runAll (c₃.value.getD .nil)
termination_by c.unread.length
decreasing_by
  have h₁ := forward_unread_lt _hf
  have h₂ := compile_unread c₁
  have h₃ := execute_unread c₂
  rw [_hc] at h₂
  rw [_he] at h₃
  simp only at h₂ h₃
  rwa [h₃, h₂]

/-- Passes over all text that is left. -/
def skipRest (c : Session) : Session := { c with cursor := c.script.utf8ByteSize }

/-- Loads a text, runs its statements and gives the value of the last one; of a text without
statements the value is nil. When one fails the rest of the text is dropped. -/
def evaluate (c : Session) (text : String) : Except Failure Value × Session :=
  match (c.load text).runAll .nil with
  | (.ok v, c) => (.ok v, c)
  | (.error e, c) => (.error e, c.skipRest)

end Session

end Reckon
