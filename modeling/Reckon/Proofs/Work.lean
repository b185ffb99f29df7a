import Reckon.Proofs.Elsewhere
import Reckon.Proofs.Phases
import Reckon.Proofs.Pieces

/-!
# A session at work

A session reads a statement, compiles it and runs it before it reads the next one. What it reads
does not depend on what the statements before have done, so the work that a script makes can be laid
out beforehand (`workOf`) and done in one go (`Session.doWork`). A session comes to the same end
(`Session.doWork_eq_evaluate`).

In this form it is plain that work can be done in two parts (`Session.doWork_append`), that the rest
of a script makes no difference to the work in front of it (`Session.doWork_congr`), and that the
same work at another place comes to the same end (`Session.doWork_moved`).

Failures are moved to the other place, except for those that a function has pointed somewhere in the
very call that fails. Whether there is such a call can be told from the work
(`Session.PointedInWork`), and from the session that does it (`Session.PointedAhead`); the two agree
(`Session.Faces.pointedInWork_iff`).
-/

namespace Reckon

namespace Session

variable {c d : Session} {script script' : String} {s : Store} {result : Option Object}
  {last : Value} {work more : List (Except Failure (List Token))}

/-! ## Work, done in one go -/

/-- A store without the result that was retained. -/
def without (s : Store) (result : Option Object) : Store :=
  ({ store := s, result } : Session).storeWithoutResult

/-- Does the work in order, with what the statements before have left: the store, the result that is
retained and its value. -/
def doWork (script : String) : Store → Option Object → Value →
    List (Except Failure (List Token)) → Except Failure Value × Store × Option Object
  | s, result, last, [] => (.ok last, s, result)
  | s, result, _, .error e :: _ => (.error e, s, result)
  | s, result, _, .ok tokens :: work =>
    match Program.ofTokens tokens with
    | .error e => (.error e, s, result)
    | .ok p =>
      match runProgram p script (without s result) with
      | (.error e, t) => (.error e, t, none)
      | (.ok obj, t) => doWork script t (some obj) (t.snapshot obj) work

theorem Faces.of_eq (h : c.Faces work) (hReader : d.reader = c.reader)
    (hOptions : d.options = c.options) (hScript : d.script = c.script) : d.Faces work := by
  unfold Faces
  rw [hReader, hOptions, hScript]
  exact h

/-- Once a statement has been compiled its program is run, and the session settles with what comes
of it. -/
theorem execute_of_built (c : Session) (p : Program) :
    ({ c with tokens := [], program := some p, phase := .waiting } : Session).execute =
      Session.settle { c with tokens := [], program := some p, phase := .waiting }
        (runProgram p c.script c.storeWithoutResult).1
        (runProgram p c.script c.storeWithoutResult).2 :=
  execute_of_waiting rfl rfl

/-- A session that faces a statement reads it, and faces the rest behind it. -/
theorem Faces.read {tokens : List Token} (h : c.Faces (.ok tokens :: work)) :
    ∃ c₁, c.forward = (.ok true, c₁) ∧ c₁.phase = .unbuilt ∧ c₁.tokens = tokens ∧ c₁.Faces work ∧
      c₁.script = c.script ∧ c₁.store = c.store ∧ c₁.result = c.result := by
  obtain ⟨hAnswer, hTokens, hNext⟩ := h.forward
  obtain ⟨hScript, hStore, hResult⟩ := c.forward_unchanged
  have hRead : c.forward = (.ok true, c.forward.2) := Prod.ext hAnswer rfl
  exact ⟨_, hRead, unbuilt_of_forward hRead, hTokens, hNext, hScript, hStore, hResult⟩

/-- **A session does the work that it faces.** -/
theorem Faces.runAll (h : c.Faces work) (last : Value) :
    ((c.runAll last).1, (c.runAll last).2.store, (c.runAll last).2.result) =
      doWork c.script c.store c.result last work := by
  -- the induction is on the work, which the session takes off from the front
  induction work generalizing c last with
  | nil =>
    obtain ⟨hAnswer, -, -⟩ := h.forward
    obtain ⟨-, hStore, hResult⟩ := c.forward_unchanged
    have hEnd : c.forward = (.ok false, c.forward.2) := Prod.ext hAnswer rfl
    rw [runAll_of_end hEnd, hStore, hResult]
    rfl
  | cons answer work ih =>
    cases answer with
    | error e =>
      -- the statement cannot be read
      obtain ⟨hAnswer, -, -⟩ := h.forward
      obtain ⟨-, hStore, hResult⟩ := c.forward_unchanged
      have hRefused : c.forward = (.error e, c.forward.2) := Prod.ext hAnswer rfl
      rw [runAll_of_unread hRefused, hStore, hResult]
      rfl
    | ok tokens =>
      obtain ⟨c₁, hRead, hPhase, hTokens, hNext, hScript, hStore, hResult⟩ := h.read
      have hWithout : without c.store c.result = c₁.storeWithoutResult := by
        rw [← hStore, ← hResult]
        rfl
      unfold doWork
      rw [hWithout, ← hScript]
      rcases c₁.compile_cases with ⟨hOther, -⟩ | ⟨-, e, hp, hBuilt⟩ | ⟨-, p, hp, hBuilt⟩
      · exact absurd hPhase hOther
      · -- the statement is no program
        rw [hTokens] at hp
        rw [runAll_of_unbuilt hRead hBuilt, hp, ← hStore, ← hResult]
      · -- the program waits and is run
        rw [hTokens] at hp
        have hRan := c₁.execute_of_built p
        rw [runAll_of_built hRead hBuilt, hp, hRan]
        dsimp only
        rcases runProgram p c₁.script c₁.storeWithoutResult with ⟨e | obj, t⟩
        · rfl
        · -- the rest of the script is read as if nothing had happened
          let c₂ : Session := { c₁ with
            store := t, tokens := [], program := none, result := some obj, phase := .done }
          exact ih (c := c₂) (hNext.of_eq rfl rfl rfl) (c₂.value.getD .nil)

/-- **To evaluate a text is to do the work that it makes.** -/
theorem doWork_eq_evaluate (hComplete : c.complete = true) (text : String) :
    doWork text c.store c.result .nil (workOf c.options text) =
      ((c.evaluate text).1, (c.evaluate text).2.store, (c.evaluate text).2.result) := by
  have hRun := (faces_load hComplete text).runAll .nil
  have hLoad : c.load text = { c with script := text, cursor := 0, position := .start } :=
    if_pos hComplete
  have hSame : ((c.evaluate text).1, (c.evaluate text).2.store, (c.evaluate text).2.result) =
      (((c.load text).runAll .nil).1, ((c.load text).runAll .nil).2.store,
        ((c.load text).runAll .nil).2.result) := by
    -- text that is passed over does nothing
    unfold Session.evaluate
    rcases (c.load text).runAll .nil with ⟨_ | _, d⟩ <;> rfl
  rw [hSame, hRun, hLoad]

/-! ## The statements among it -/

/-- What a session reads has tokens, which can be written and select some of the script. -/
theorem Faces.tokens {ts : List Token} (h : c.Faces work) (hStands : c.reader.Stands c.script)
    (hMem : .ok ts ∈ work) :
    ts ≠ [] ∧ ∀ t ∈ ts, t.kind.isWritten ∧ t.span.Selects c.script := by
  induction work generalizing c with
  | nil => cases hMem
  | cons answer work ih =>
    obtain ⟨hAnswer, hTokens, hNext⟩ := h.forward
    obtain ⟨hThere, hSelects, -⟩ := (Reader.maintains_stands c.script).nextStatement hStands
    obtain ⟨-, hWritten, -⟩ := Reader.maintains_isWritten.nextStatement (r := c.reader) trivial
    rcases List.mem_cons.1 hMem with rfl | hRest
    · change c.forward.2.tokens = ts at hTokens
      rcases c.forward_cases with ⟨e, -, hEq⟩ | ⟨-, hEq⟩ | ⟨t, us, hRead, hEq⟩ <;>
        rw [hEq] at hAnswer hTokens
      · cases hAnswer
      · cases hAnswer
      · subst hTokens
        exact ⟨List.cons_ne_nil _ _, fun u hu =>
          ⟨hWritten _ hRead u hu, hSelects _ hRead u hu⟩⟩
    · -- a session that has read goes on at a boundary
      have hStandsNext : c.forward.2.reader.Stands c.forward.2.script := by
        have hResume (position : Position) := hThere.resume position c.options
        rcases c.forward_cases with ⟨e, -, hEq⟩ | ⟨-, hEq⟩ | ⟨t, us, -, hEq⟩ <;> rw [hEq] <;>
          exact hResume _
      have hTail := ih hNext hStandsNext hRest
      rwa [c.forward_unchanged.1] at hTail

/-- The statements that a script makes. -/
theorem tokens_of_mem_workOf {options : ReaderOptions} {ts : List Token}
    (h : .ok ts ∈ workOf options script) :
    ts ≠ [] ∧ ∀ t ∈ ts, t.kind.isWritten ∧ t.span.Selects script := by
  have hComplete : (bare options).complete = true := rfl
  -- any session will do that reads the script with these options
  have hLoad : (bare options).load script = { bare options with script } := if_pos hComplete
  have hFaces := faces_load hComplete script
  rw [hLoad] at hFaces
  exact hFaces.tokens ⟨[], (charsFrom_zero script).symm, rfl⟩ h

/-! ## Statements that have been run to their ends -/

/-- The session has read its next statement and run it to its end. -/
def Completes (c d : Session) : Prop :=
  ∃ c₁ c₂ obj, c.forward = (.ok true, c₁) ∧ c₁.compile = (.ok (), c₂) ∧ c₂.execute = (.ok obj, d)

/-- The next statement is read and compiled, and fails in a call whose function has pointed the
failure somewhere. -/
def PointedByCall (c : Session) (e : Failure) : Prop :=
  ∃ c₁ c₂, c.forward = (.ok true, c₁) ∧ c₁.compile = (.ok (), c₂) ∧ c₂.PointedInCall e

/-- Some of the statements ahead are run to their ends, and the next one fails in a call whose
function has pointed the failure somewhere. -/
def PointedAhead (c : Session) (e : Failure) : Prop :=
  ∃ d, Relation.ReflTransGen Completes c d ∧ d.PointedByCall e

section Functions

variable {P : Function → Prop} {e : Failure}

/-- Behind a statement the store has no functions that it could not have had before. -/
theorem within_completes (h : c.store.Within P) (hP : Function.Inherited P)
    (hDone : c.Completes d) : d.store.Within P := by
  obtain ⟨c₁, c₂, obj, hRead, hBuilt, hRan⟩ := hDone
  have hNext := within_forward h
  rw [hRead] at hNext
  have hReady := within_compile hNext
  rw [hBuilt] at hReady
  have hEnd := within_execute hReady hP
  rwa [hRan] at hEnd

/-- The same holds behind any number of statements. -/
theorem within_of_completes (h : c.store.Within P) (hP : Function.Inherited P)
    (hReach : Relation.ReflTransGen Completes c d) : d.store.Within P := by
  induction hReach with
  | refl => exact h
  | tail _ hDone ih => exact within_completes ih hP hDone

/-- The function that is called is one that the store knows, or comes out of calls of one. -/
theorem PointedByCall.raisedBy (h : c.PointedByCall e) (hc : c.store.Within P)
    (hP : Function.Inherited P) : e.RaisedBy P := by
  obtain ⟨c₁, c₂, hRead, hBuilt, p, -, hPointed⟩ := h
  have hNext := within_forward hc
  rw [hRead] at hNext
  have hReady := within_compile hNext
  rw [hBuilt] at hReady
  exact hPointed.raisedBy (Machine.within_start (within_storeWithoutResult hReady)) hP

/-- So is the function of a statement further on. -/
theorem PointedAhead.raisedBy (h : c.PointedAhead e) (hc : c.store.Within P)
    (hP : Function.Inherited P) : e.RaisedBy P := by
  obtain ⟨d, hReach, hPointed⟩ := h
  exact hPointed.raisedBy (within_of_completes hc hP hReach) hP

end Functions

/-! ## Calls in the work -/

/-- When the work is done it comes to a call whose function has pointed the failure somewhere. -/
inductive PointedInWork (script : String) (e : Failure) :
    Store → Option Object → List (Except Failure (List Token)) → Prop
  /-- It is the first statement that calls the function. -/
  | here {s : Store} {result : Option Object} {tokens : List Token} {p : Program}
      {work : List (Except Failure (List Token))} (hBuilt : Program.ofTokens tokens = .ok p)
      (h : Machine.PointedInCall script e { store := without s result } p.code) :
      PointedInWork script e s result (.ok tokens :: work)
  /-- The first statement is run to its end, and a later one calls the function. -/
  | later {s t : Store} {result : Option Object} {tokens : List Token} {p : Program} {obj : Object}
      {work : List (Except Failure (List Token))} (hBuilt : Program.ofTokens tokens = .ok p)
      (hRan : runProgram p script (without s result) = (.ok obj, t))
      (h : PointedInWork script e t (some obj) work) :
      PointedInWork script e s result (.ok tokens :: work)

section Pointing

variable {e : Failure} {tokens : List Token} {p : Program}

/-- It takes a statement with a call in it. -/
theorem PointedInWork.exists_call (h : PointedInWork script e s result work) :
    ∃ ts p, .ok ts ∈ work ∧ Program.ofTokens ts = .ok p ∧
      ∃ i ∈ p.code, i.kind = .operator (.closer .call) := by
  induction h with
  | here hBuilt h => exact ⟨_, _, List.mem_cons_self .., hBuilt, h.exists_call⟩
  | later hBuilt hRan h ih =>
    obtain ⟨ts, p, hts, hMade, hCall⟩ := ih
    exact ⟨ts, p, List.mem_cons_of_mem _ hts, hMade, hCall⟩

/-- A statement that is no program is not run. -/
theorem not_pointedInWork_of_unbuilt {e' : Failure} (hBuilt : Program.ofTokens tokens = .error e') :
    ¬ PointedInWork script e s result (.ok tokens :: work) := by
  intro h
  cases h with
  | here hOther | later hOther =>
    rw [hBuilt] at hOther
    cases hOther

/-- If the first statement fails, it is the one that calls the function. -/
theorem pointedInWork_cons_of_failed {e' : Failure} {t : Store}
    (hBuilt : Program.ofTokens tokens = .ok p)
    (hRan : runProgram p script (without s result) = (.error e', t)) :
    PointedInWork script e s result (.ok tokens :: work) ↔
      Machine.PointedInCall script e { store := without s result } p.code := by
  refine ⟨fun h => ?_, .here hBuilt⟩
  cases h with
  | here hOther h =>
    rw [hBuilt] at hOther
    cases hOther
    exact h
  | later hOther hDone =>
    rw [hBuilt] at hOther
    cases hOther
    rw [hRan] at hDone
    cases hDone

/-- If the first statement is run to its end, it is up to the others. -/
theorem pointedInWork_cons_of_done {obj : Object} {t : Store}
    (hBuilt : Program.ofTokens tokens = .ok p)
    (hRan : runProgram p script (without s result) = (.ok obj, t)) :
    PointedInWork script e s result (.ok tokens :: work) ↔
      PointedInWork script e t (some obj) work := by
  refine ⟨fun h => ?_, .later hBuilt hRan⟩
  cases h with
  | here hOther h =>
    rw [hBuilt] at hOther
    cases hOther
    -- a statement with such a call in it fails
    have hFails := runProgram_of_pointedInCall h
    rw [hRan] at hFails
    cases hFails
  | later hOther hDone h =>
    rw [hBuilt] at hOther
    cases hOther
    rw [hRan] at hDone
    cases hDone
    exact h

/-- Such a call is in the next statement, or behind it. -/
theorem pointedAhead_iff : c.PointedAhead e ↔
    c.PointedByCall e ∨ ∃ d, c.Completes d ∧ d.PointedAhead e := by
  constructor
  · rintro ⟨d, hReach, hPointed⟩
    rcases hReach.cases_head with rfl | ⟨c', hDone, hRest⟩
    · exact .inl hPointed
    · exact .inr ⟨c', hDone, d, hRest, hPointed⟩
  · rintro (hPointed | ⟨c', hDone, d, hRest, hPointed⟩)
    · exact ⟨c, .refl, hPointed⟩
    · exact ⟨d, .head hDone hRest, hPointed⟩

/-- A session that reads no statement runs none. -/
theorem not_pointedAhead_of_forward (h : c.forward.1 ≠ .ok true) : ¬ c.PointedAhead e := by
  rw [pointedAhead_iff]
  rintro (⟨c₁, c₂, hRead, -⟩ | ⟨d, ⟨c₁, c₂, obj, hRead, -⟩, -⟩) <;> exact h (by rw [hRead])

/-- The statement that has been read decides, when it is compiled and run. -/
theorem pointedAhead_of_forward {c₁ : Session} (hRead : c.forward = (.ok true, c₁)) :
    c.PointedAhead e ↔ ∃ c₂, c₁.compile = (.ok (), c₂) ∧
      (c₂.PointedInCall e ∨ ∃ obj d, c₂.execute = (.ok obj, d) ∧ d.PointedAhead e) := by
  rw [pointedAhead_iff]
  constructor
  · rintro (⟨_, c₂, hRead', hBuilt, hPointed⟩ | ⟨d, ⟨_, c₂, obj, hRead', hBuilt, hRan⟩, hRest⟩)
    · rw [hRead] at hRead'
      cases hRead'
      exact ⟨c₂, hBuilt, .inl hPointed⟩
    · rw [hRead] at hRead'
      cases hRead'
      exact ⟨c₂, hBuilt, .inr ⟨obj, d, hRan, hRest⟩⟩
  · rintro ⟨c₂, hBuilt, hPointed | ⟨obj, d, hRan, hRest⟩⟩
    · exact .inl ⟨c₁, c₂, hRead, hBuilt, hPointed⟩
    · exact .inr ⟨d, ⟨c₁, c₂, obj, hRead, hBuilt, hRan⟩, hRest⟩

/-- **Whether there is such a call ahead of a session** can be told from the work that it faces. -/
theorem Faces.pointedInWork_iff (h : c.Faces work) :
    PointedInWork c.script e c.store c.result work ↔ c.PointedAhead e := by
  -- the induction is on the work, which the session takes off from the front
  induction work generalizing c with
  | nil =>
    obtain ⟨hAnswer, -, -⟩ := h.forward
    exact iff_of_false (fun hOwn => nomatch hOwn)
      (not_pointedAhead_of_forward (by rw [hAnswer]; simp [answerOf]))
  | cons answer work ih =>
    cases answer with
    | error e' =>
      obtain ⟨hAnswer, -, -⟩ := h.forward
      exact iff_of_false (fun hOwn => nomatch hOwn)
        (not_pointedAhead_of_forward (by rw [hAnswer]; simp [answerOf]))
    | ok tokens =>
      obtain ⟨c₁, hRead, hPhase, hTokens, hNext, hScript, hStore, hResult⟩ := h.read
      have hWithout : without c.store c.result = c₁.storeWithoutResult := by
        rw [← hStore, ← hResult]
        rfl
      rw [pointedAhead_of_forward hRead, ← hScript]
      rcases c₁.compile_cases with ⟨hOther, -⟩ | ⟨-, e', hp, hBuilt⟩ | ⟨-, p, hp, hBuilt⟩
      · exact absurd hPhase hOther
      · -- the statement is no program
        rw [hTokens] at hp
        refine iff_of_false (not_pointedInWork_of_unbuilt hp) ?_
        rintro ⟨c₂, hOther, -⟩
        rw [hBuilt] at hOther
        cases hOther
      · -- the program waits and is run
        rw [hTokens] at hp
        have hRan := c₁.execute_of_built p
        -- a call points a failure in the program, or in what is read behind it
        simp only [hBuilt, Prod.mk.injEq, true_and, exists_eq_left', hRan]
        rcases hEnd : runProgram p c₁.script c₁.storeWithoutResult with ⟨e' | obj, t⟩
        · rw [pointedInWork_cons_of_failed hp (by rw [hWithout]; exact hEnd), hWithout]
          refine ⟨fun hHere => .inl ⟨p, rfl, hHere⟩, ?_⟩
          rintro (⟨_, hSame, hHere⟩ | ⟨obj, d, hDone, -⟩)
          · cases hSame
            exact hHere
          · cases hDone
        · rw [pointedInWork_cons_of_done hp (by rw [hWithout]; exact hEnd)]
          let c₂ : Session := { c₁ with
            store := t, tokens := [], program := none, result := some obj, phase := .done }
          have hRest : PointedInWork c₂.script e c₂.store c₂.result work ↔ c₂.PointedAhead e :=
            ih (hNext.of_eq rfl rfl rfl)
          refine hRest.trans ⟨fun hLater => .inr ⟨obj, c₂, rfl, hLater⟩, ?_⟩
          rintro (⟨_, hSame, hHere⟩ | ⟨obj', d, hDone, hLater⟩)
          · -- the program has been run to its end
            cases hSame
            have hFails : (runProgram p c₁.script c₁.storeWithoutResult).1 = .error e :=
              runProgram_of_pointedInCall hHere
            rw [hEnd] at hFails
            cases hFails
          · cases hDone
            exact hLater

end Pointing

/-! ## Two parts -/

/-- **Work can be done in two parts.** When the first one fails the other is not begun. -/
theorem doWork_append :
    doWork script s result last (work ++ more) =
      match doWork script s result last work with
      | (.ok v, t, result) => doWork script t result v more
      | (.error e, t, result) => (.error e, t, result) := by
  fun_induction doWork script s result last work with
  | case1 s result last => rfl
  | case2 s result last e work => rfl
  | case3 s result last tokens work e hp =>
    rw [List.cons_append, doWork, hp]
  | case4 s result last tokens work p hp e t hRan =>
    rw [List.cons_append, doWork, hp]
    dsimp only
    rw [hRan]
  | case5 s result last tokens work p hp obj t hRan ih =>
    rw [List.cons_append, doWork, hp]
    dsimp only
    rw [hRan]
    exact ih

/-- What came before is of no interest once there is some work. -/
theorem doWork_of_ne_nil (h : work ≠ []) (last last' : Value) :
    doWork script s result last work = doWork script s result last' work := by
  cases work with
  | nil => exact absurd rfl h
  | cons answer work => cases answer <;> rfl

/-! ## Another script -/

/-- A program depends on the script for what the tokens of its statement select. -/
theorem runProgram_eq_of_tokens {tokens : List Token} {p : Program}
    (hp : Program.ofTokens tokens = .ok p)
    (hText : ∀ t ∈ tokens, t.span.text script' = t.span.text script) :
    runProgram p script' s = runProgram p script s := by
  refine runProgram_congr fun i hi => ?_
  obtain ⟨t, ht, hSpan⟩ := Program.span_mem_of_ofTokens hp i hi
  rw [hSpan]
  exact hText t ht

/-- Work depends on the script for what its tokens select. -/
theorem doWork_congr
    (hText : ∀ ts, .ok ts ∈ work → ∀ t ∈ ts, t.span.text script' = t.span.text script) :
    doWork script' s result last work = doWork script s result last work := by
  fun_induction doWork script s result last work with
  | case1 s result last => rfl
  | case2 s result last e work => rfl
  | case3 s result last tokens work e hp => rw [doWork, hp]
  | case4 s result last tokens work p hp e t hRan =>
    rw [← runProgram_eq_of_tokens hp (hText tokens (List.mem_cons_self ..))] at hRan
    rw [doWork, hp]
    dsimp only
    rw [hRan]
  | case5 s result last tokens work p hp obj t hRan ih =>
    rw [← runProgram_eq_of_tokens hp (hText tokens (List.mem_cons_self ..))] at hRan
    rw [doWork, hp]
    dsimp only
    rw [hRan]
    exact ih fun ts hts => hText ts (List.mem_cons_of_mem _ hts)

variable {R : Span → Span → Prop}

/-- **The same work at another place comes to the same end.** A failure points to the other place,
unless a function has pointed it somewhere in the call that fails. -/
theorem doWork_moved {work' : List (Except Failure (List Token))}
    (hWork : List.Forall₂ (Answers R (List.Forall₂ (Token.Moved R))) work work')
    (hWritten : ∀ ts, .ok ts ∈ work → ts ≠ [] ∧ ∀ t ∈ ts, t.kind.isWritten)
    (hText : ∀ place place', R place place' → place'.text script' = place.text script) :
    (doWork script' s result last work').2 = (doWork script s result last work).2 ∧
      Outcomes R (PointedInWork script · s result work) (doWork script s result last work).1
        (doWork script' s result last work').1 := by
  induction hWork generalizing s result last with
  | nil => exact ⟨rfl, .ok last⟩
  | @cons answer answer' work work' hFirst hRest ih =>
    cases hFirst with
    | error hFailure => exact ⟨rfl, .moved (fun hOwn => nomatch hOwn) hFailure⟩
    | @ok ts us hTokens =>
      obtain ⟨hSome, hKinds⟩ := hWritten ts (List.mem_cons_self ..)
      have hRestWritten (ts : List Token) (hts : .ok ts ∈ work) :=
        hWritten ts (List.mem_cons_of_mem _ hts)
      -- the same program here and there, or the same failure
      have hMoved := Program.ofTokens_moved hSome hKinds hTokens
      unfold doWork
      cases hBuilt : Program.ofTokens ts with
      | error e =>
        rw [hBuilt] at hMoved
        generalize Program.ofTokens us = built' at hMoved
        cases hMoved with
        | error hFailure => exact ⟨rfl, .moved (not_pointedInWork_of_unbuilt hBuilt) hFailure⟩
      | ok p =>
        rw [hBuilt] at hMoved
        generalize Program.ofTokens us = built' at hMoved
        cases hMoved with
        | @ok _ q hProgram =>
          -- both runs start from the same store, and leave the same store
          obtain ⟨hSame, hAnswer⟩ := runProgram_moved (s := without s result) hProgram hText
          dsimp only
          rcases hRan : runProgram p script (without s result) with ⟨e | obj, t⟩
          · rw [hRan] at hSame hAnswer
            have hOwn (e : Failure) : PointedInWork script e s result (.ok ts :: work) ↔
                Machine.PointedInCall script e { store := without s result } p.code :=
              pointedInWork_cons_of_failed hBuilt hRan
            generalize runProgram q script' (without s result) = y at hSame hAnswer
            obtain ⟨answer', t'⟩ := y
            obtain rfl : t' = t := hSame
            cases hAnswer with
            | kept hHere => exact ⟨rfl, .kept ((hOwn e).2 hHere)⟩
            | moved hOther hFailure => exact ⟨rfl, .moved (mt (hOwn e).1 hOther) hFailure⟩
          · rw [hRan] at hSame hAnswer
            generalize runProgram q script' (without s result) = y at hSame hAnswer
            obtain ⟨answer', t'⟩ := y
            obtain rfl : t' = t := hSame
            cases hAnswer
            -- what is left starts from the same store, with the same result
            obtain ⟨hLeft, hOutcomes⟩ := @ih t' (some obj) (t'.snapshot obj) hRestWritten
            exact ⟨hLeft, hOutcomes.congr fun _ => pointedInWork_cons_of_done hBuilt hRan⟩

end Session

end Reckon
