import Reckon.Proofs.Carrying
import Reckon.Proofs.Completion
import Reckon.Proofs.Histories

/-!
# What a session goes through

A session keeps its phase, its statement, its program and its place in the script apart, and every
operation updates some of them. They fit together all the same (`Session.Orderly`): a statement
waits exactly in the one phase, a program exactly in the other, and the place is a boundary of the
script. The spans of what waits point into the script, which may have grown since, but only at its
end: what they select is what they selected when the statement was read
(`Session.ReadBy`). Whatever phase a text is evaluated in, the session is complete behind it.

Main result: `Session.conduct_after`, for every sequence of operations.
-/

namespace Reckon

/-! ## Where tokens are found -/

namespace Reader

variable {r : Reader} {script : String}

/-- The reader's text is the script from its offset on, which is a boundary. -/
def Stands (r : Reader) (script : String) : Prop :=
  ∃ pre, script.toList = pre ++ r.unread ∧ byteLength pre = r.cursor

/-- A reader that is put at an offset stands in the script when the offset is a boundary. -/
theorem stands_resume_iff {cursor : Nat} {position : Position} {options : ReaderOptions} :
    (Reader.resume script cursor position options).Stands script ↔
      (script.pos? ⟨cursor⟩).isSome := by
  rw [isSome_pos?_iff]
  constructor
  · rintro ⟨pre, hScript, hBytes⟩
    exact ⟨_, charsFrom?_eq_some_iff_toList.2 ⟨pre, hScript, hBytes⟩⟩
  · rintro ⟨cs, hcs⟩
    obtain ⟨pre, hScript, hBytes⟩ := charsFrom?_eq_some_iff_toList.1 hcs
    refine ⟨pre, ?_, hBytes⟩
    show script.toList = pre ++ charsFrom script cursor
    rw [← hBytes, charsFrom_of_toList hScript, hScript]

/-- A reader that is put where another one stands does so, too, wherever it counts from. -/
theorem Stands.resume (h : r.Stands script) (position : Position) (options : ReaderOptions) :
    (Reader.resume script r.cursor position options).Stands script := by
  obtain ⟨pre, hScript, hBytes⟩ := h
  exact stands_resume_iff.2 (isSome_pos?_iff.2
    ⟨_, charsFrom?_eq_some_iff_toList.2 ⟨pre, hScript, hBytes⟩⟩)

/-- A lexeme lies between what was read before it and what is left. -/
theorem Stands.covers {c : Char} {cs : List Char} (h : r.Stands script)
    (hUnread : r.unread = c :: cs) :
    (cutLexeme r.cursor c cs).token.span.Covers script (cutLexeme r.cursor c cs).text := by
  obtain ⟨pre, hScript, hBytes⟩ := h
  rw [hUnread, ← cutLexeme_append r.cursor c cs] at hScript
  exact ⟨pre, _, hScript, hBytes, rfl⟩

/-- **To take a lexeme is to stand behind it**, and its token selects it. -/
theorem Stands.take {c : Char} {cs : List Char} (h : r.Stands script)
    (hUnread : r.unread = c :: cs) :
    (r.take (cutLexeme r.cursor c cs)).2.Stands script ∧
      (cutLexeme r.cursor c cs).token.span.Selects script := by
  refine ⟨?_, _, List.cons_ne_nil _ _, h.covers hUnread⟩
  obtain ⟨pre, hScript, hBytes⟩ := h
  rw [hUnread, ← cutLexeme_append r.cursor c cs] at hScript
  refine ⟨pre ++ (cutLexeme r.cursor c cs).text, ?_, ?_⟩
  · rw [take_unread, List.append_assoc, hScript]
  · rw [take_cursor, byteLength_append, hBytes]
    rfl

/-- The token that is taken is that of the lexeme. -/
theorem eq_of_take {cut : Cut} {t : Token} (h : (r.take cut).1 = some (.ok (.token t))) :
    t = cut.token := by
  unfold Reader.take judge at h
  split at h
  · cases h
  · cases h
  · cases h
  · dsimp only at h
    split at h <;> cases h
    rfl

/-- Every token of a statement selects some of the script, whatever it means. -/
theorem maintains_stands (script : String) :
    Maintains (·.Stands script) (·.span.Selects script) (fun _ => True) where
  next hr hUnread := (hr.take hUnread).1
  token hr hUnread hTake := by
    rw [eq_of_take hTake]
    exact (hr.take hUnread).2
  failure _ _ _ := trivial
  meaning ht := ht
  count _ _ := trivial

/-- A statement that is given has a token. -/
theorem nextStatement_ne_nil (r : Reader) : r.nextStatement.1 ≠ .ok (some []) := by
  fun_induction Reader.nextStatement r with
  | case1 r r' hEmpty ih => exact ih
  | case2 r hSome => exact fun hEq => hSome _ (Prod.ext hEq rfl)

/-- The end of the script is found where nothing is unread. -/
theorem unread_of_nextStatement {r : Reader} (h : r.nextStatement.1 = .ok none) :
    r.nextStatement.2.unread = [] := by
  have hAdvance (r : Reader) (h : r.advance.1 = .ok .endOfInput) : r.advance.2.unread = [] := by
    fun_induction Reader.advance r with
    | case1 r hUnread => exact hUnread
    | case2 r c cs hUnread answer r' ht =>
      have hOther := take_ne_endOfInput r (cutLexeme r.cursor c cs)
      rw [ht] at hOther
      exact absurd (congrArg some h) hOther
    | case3 r c cs hUnread r' ht ih => exact ih h
  have hGather (r : Reader) (d : Draft) (h : (r.gather d).1 = .ok none) :
      (r.gather d).2.unread = [] := by
    fun_induction Reader.gather r d with
    | case1 r d r' ha =>
      have hEnd := hAdvance r
      rw [ha] at hEnd
      exact hEnd rfl
    | case2 r d r' ha =>
      -- a statement that has a terminator is one
      rcases d.finish_cases true with ⟨first, -, hEnd⟩ | ⟨-, -, hEnds, -⟩ | ⟨-, hEnd⟩
      · rw [hEnd] at h
        cases h
      · cases hEnds
      · rw [hEnd] at h
        cases h
    | case3 r d t r' ha ih => exact ih h
    | case4 r d e r' ha ih => exact ih h
  fun_induction Reader.nextStatement r with
  | case1 r r' hEmpty ih => exact ih h
  | case2 r hSome => exact hGather r {} h

end Reader

/-! ## The order of a session -/

namespace Session

variable {c d : Session}

/-- How the parts of a session fit together. -/
structure Orderly (c : Session) : Prop where
  /-- A statement waits in the phase between reading and compiling. -/
  unbuilt : c.phase = .unbuilt ↔ c.tokens ≠ []
  /-- A program waits in the phase between compiling and running. -/
  waiting : c.phase = .waiting ↔ c.program ≠ none
  /-- The session stands at a boundary of its script. -/
  stands : c.reader.Stands c.script

/-- An operation that leaves the statement, the program and the phase alone. -/
theorem Orderly.of_eq (h : c.Orderly) (hPhase : d.phase = c.phase) (hTokens : d.tokens = c.tokens)
    (hProgram : d.program = c.program) (hStands : d.reader.Stands d.script) : d.Orderly := by
  refine ⟨?_, ?_, hStands⟩
  · rw [hPhase, hTokens]
    exact h.unbuilt
  · rw [hPhase, hProgram]
    exact h.waiting

/-- When nothing waits any other phase will do. -/
theorem orderly_of_nothing (hTokens : c.tokens = []) (hProgram : c.program = none)
    (hUnbuilt : c.phase ≠ .unbuilt) (hWaiting : c.phase ≠ .waiting)
    (hStands : c.reader.Stands c.script) : c.Orderly :=
  ⟨iff_of_false hUnbuilt (by simp [hTokens]), iff_of_false hWaiting (by simp [hProgram]), hStands⟩

/-- A session that fails lets everything go that waited. -/
theorem Orderly.fail (hStands : c.reader.Stands c.script) (e : Failure) :
    (c.fail (α := α) e).2.Orderly :=
  orderly_of_nothing rfl rfl (fun h => by cases h) (fun h => by cases h) hStands

theorem orderly_bare (options : ReaderOptions) (entropy : Entropy) :
    (bare options entropy).Orderly :=
  orderly_of_nothing rfl rfl (fun h => by cases h) (fun h => by cases h) ⟨[], rfl, rfl⟩

/-- Text is loaded in place of the script, or behind it. -/
theorem Orderly.load (h : c.Orderly) (text : String) : (c.load text).Orderly := by
  unfold Session.load
  split
  · exact h.of_eq rfl rfl rfl ⟨[], (charsFrom_zero text).symm, rfl⟩
  · -- text put behind the script does not move its boundaries
    refine h.of_eq rfl rfl rfl (Reader.stands_resume_iff.2 (isSome_pos?_iff.2 ?_))
    obtain ⟨cs, hcs⟩ := isSome_pos?_iff.1 (Reader.stands_resume_iff.1 h.stands)
    obtain ⟨pre, hScript, hBytes⟩ := charsFrom?_eq_some_iff_toList.1 hcs
    refine ⟨cs ++ (";" ++ text).toList, charsFrom?_eq_some_iff_toList.2 ⟨pre, ?_, hBytes⟩⟩
    rw [String.append_assoc, String.toList_append, hScript, List.append_assoc]

/-- What reading the next statement comes to. -/
theorem forward_cases (c : Session) :
    (∃ e, c.reader.nextStatement.1 = .error e ∧ c.forward = (.error e, { c with
      tokens := [], program := none, cursor := c.reader.nextStatement.2.cursor,
      position := c.reader.nextStatement.2.position, phase := .failed })) ∨
    (c.reader.nextStatement.1 = .ok none ∧ c.forward = (.ok false, { c with
      tokens := [], program := none, cursor := c.reader.nextStatement.2.cursor,
      position := c.reader.nextStatement.2.position, phase := .unloaded })) ∨
    ∃ t ts, c.reader.nextStatement.1 = .ok (some (t :: ts)) ∧ c.forward = (.ok true, { c with
      tokens := t :: ts, program := none, cursor := c.reader.nextStatement.2.cursor,
      position := c.reader.nextStatement.2.position, phase := .unbuilt }) := by
  have hSome := Reader.nextStatement_ne_nil c.reader
  unfold Session.forward
  rcases hEq : c.reader.nextStatement with ⟨_ | _ | _ | ⟨t, ts⟩, r⟩
  · exact .inl ⟨_, rfl, rfl⟩
  · exact .inr (.inl ⟨rfl, rfl⟩)
  · exact absurd (congrArg Prod.fst hEq) hSome
  · exact .inr (.inr ⟨t, ts, rfl, rfl⟩)

/-- What is read is the statement that waits then. A program that waited is gone. -/
theorem Orderly.forward (h : c.Orderly) : c.forward.2.Orderly := by
  have hStands (position : Position) :=
    ((Reader.maintains_stands c.script).nextStatement h.stands).1.resume position c.options
  -- something waits if a statement has been read, and nothing does otherwise
  rcases c.forward_cases with ⟨e, -, hEq⟩ | ⟨-, hEq⟩ | ⟨t, ts, -, hEq⟩ <;> rw [hEq]
  · exact orderly_of_nothing rfl rfl (fun h => by cases h) (fun h => by cases h) (hStands _)
  · exact orderly_of_nothing rfl rfl (fun h => by cases h) (fun h => by cases h) (hStands _)
  · exact ⟨iff_of_true rfl (List.cons_ne_nil _ _), iff_of_false (fun h => by cases h) (by simp),
      hStands _⟩

/-- What compiling comes to. -/
theorem compile_cases (c : Session) :
    (c.phase ≠ .unbuilt ∧ c.compile = (.error misuse, c)) ∨
    (c.phase = .unbuilt ∧ ∃ e, Program.ofTokens c.tokens = .error e ∧ c.compile = c.fail e) ∨
    (c.phase = .unbuilt ∧ ∃ p, Program.ofTokens c.tokens = .ok p ∧ c.compile = (.ok (), { c with
      tokens := [], program := some p, phase := .waiting })) := by
  unfold Session.compile
  split
  · rename_i hPhase
    cases hEq : Program.ofTokens c.tokens with
    | error e => exact .inr (.inl ⟨hPhase, e, rfl, rfl⟩)
    | ok p => exact .inr (.inr ⟨hPhase, p, rfl, rfl⟩)
  · rename_i hPhase
    exact .inl ⟨hPhase, rfl⟩

/-- The statement that waited becomes the program that waits. -/
theorem Orderly.compile (h : c.Orderly) : c.compile.2.Orderly := by
  rcases c.compile_cases with ⟨-, hEq⟩ | ⟨-, e, -, hEq⟩ | ⟨-, p, -, hEq⟩ <;> rw [hEq]
  · exact h
  · exact .fail h.stands e
  · exact ⟨iff_of_false (fun h => by cases h) (by simp), iff_of_true rfl (by simp), h.stands⟩

/-- What running comes to, if the parts of the session fit together. -/
theorem Orderly.execute_cases (h : c.Orderly) :
    (c.phase ≠ .waiting ∧ c.execute = (.error misuse, c)) ∨
    ∃ p, c.phase = .waiting ∧ c.program = some p ∧
      c.execute = c.settle (runProgram p c.script c.storeWithoutResult).1
        (runProgram p c.script c.storeWithoutResult).2 := by
  by_cases hPhase : c.phase = .waiting
  · obtain ⟨p, hp⟩ := Option.ne_none_iff_exists'.1 (h.waiting.1 hPhase)
    exact .inr ⟨p, hPhase, hp, execute_of_waiting hPhase hp⟩
  · refine .inl ⟨hPhase, ?_⟩
    unfold Session.execute
    split
    · rename_i hEq _
      exact absurd hEq hPhase
    · rfl

/-- The program that waited is gone when it has run. -/
theorem Orderly.execute (h : c.Orderly) : c.execute.2.Orderly := by
  rcases h.execute_cases with ⟨-, hEq⟩ | ⟨p, hPhase, -, hEq⟩ <;> rw [hEq]
  · exact h
  · -- no statement waits while a program does
    have hTokens : c.tokens = [] := by
      by_contra hSome
      have hUnbuilt := h.unbuilt.2 hSome
      rw [hPhase] at hUnbuilt
      cases hUnbuilt
    cases (runProgram p c.script c.storeWithoutResult).1 with
    | ok obj =>
      exact orderly_of_nothing hTokens rfl (fun h => by cases h) (fun h => by cases h) h.stands
    | error e =>
      exact orderly_of_nothing rfl rfl (fun h => by cases h) (fun h => by cases h) h.stands

/-- So it is after any number of statements, since each of them goes through the three stages. -/
theorem Orderly.runAll (h : c.Orderly) (last : Value) : (c.runAll last).2.Orderly :=
  runAll_of_stages (fun _ h => h.forward) (fun _ h => h.compile) (fun _ h => h.execute) h last

/-- The end of the script is a boundary. -/
theorem Orderly.skipRest (h : c.Orderly) : c.skipRest.Orderly := by
  refine h.of_eq rfl rfl rfl (Reader.stands_resume_iff.2 (isSome_pos?_iff.2 ⟨[], ?_⟩))
  exact charsFrom?_eq_some_iff_toList.2
    ⟨c.script.toList, (List.append_nil _).symm, (utf8ByteSize_eq _).symm⟩

/-- Evaluating a text loads it, runs it, and drops the rest of the script if it fails. -/
theorem Orderly.evaluate (h : c.Orderly) (text : String) : (c.evaluate text).2.Orderly := by
  have hRan := (h.load text).runAll .nil
  unfold Session.evaluate
  generalize (c.load text).runAll .nil = answer at hRan
  obtain ⟨_ | _, d⟩ := answer
  · exact hRan.skipRest
  · exact hRan

/-- **Every operation keeps the order.** -/
theorem Orderly.apply (h : c.Orderly) (op : Operation) : (op.apply c).Orderly := by
  cases op with
  | load text => exact h.load text
  | forward => exact h.forward
  | compile => exact h.compile
  | execute => exact h.execute
  | evaluate text => exact h.evaluate text
  | bindFunction f => exact h.of_eq rfl rfl rfl h.stands
  | lookup name => exact h
  | teardown => exact (orderly_bare c.options (.seeded 0)).of_eq rfl rfl rfl ⟨[], rfl, rfl⟩

/-! ## Evaluating a text -/

/-- The phase in which an answer leaves a session that has run to the end of its script, or as far
as it could. -/
def phaseBehind {α : Type} : Except Failure α → Phase
  | .ok _ => .unloaded
  | .error _ => .failed

theorem phaseBehind_ne {α : Type} (answer : Except Failure α) :
    phaseBehind answer ≠ .unbuilt ∧ phaseBehind answer ≠ .waiting := by
  cases answer <;> simp [phaseBehind]

/-- A session whose script has come to an end has nothing left to read. -/
theorem unread_of_forward {d : Session} (h : c.forward = (.ok false, d)) :
    d.phase = .unloaded ∧ d.unread = [] := by
  have hStands : c.reader.nextStatement.2.StandsIn c.script :=
    (Reader.standsIn_resume c.script c.cursor c.position c.options).nextStatement
  rcases c.forward_cases with ⟨e, -, hEq⟩ | ⟨hNone, hEq⟩ | ⟨t, ts, -, hEq⟩ <;> rw [hEq] at h <;>
    cases h
  exact ⟨rfl, hStands.trans (Reader.unread_of_nextStatement hNone)⟩

/-- A statement that has been read waits to be compiled. -/
theorem unbuilt_of_forward {d : Session} (h : c.forward = (.ok true, d)) : d.phase = .unbuilt := by
  rcases c.forward_cases with ⟨e, -, hEq⟩ | ⟨-, hEq⟩ | ⟨t, ts, -, hEq⟩ <;> rw [hEq] at h <;> cases h
  rfl

/-- A statement that cannot be read fails the session. -/
theorem failed_of_forward {d : Session} {e : Failure} (h : c.forward = (.error e, d)) :
    d.phase = .failed := by
  rcases c.forward_cases with ⟨e', -, hEq⟩ | ⟨-, hEq⟩ | ⟨t, ts, -, hEq⟩ <;> rw [hEq] at h <;>
    cases h
  rfl

/-- So does one that cannot be compiled, if it waits. -/
theorem failed_of_compile {d : Session} {e : Failure} (hUnbuilt : c.phase = .unbuilt)
    (h : c.compile = (.error e, d)) : d.phase = .failed := by
  rcases c.compile_cases with ⟨hOther, -⟩ | ⟨-, e', -, hEq⟩ | ⟨-, p, -, hEq⟩
  · exact absurd hUnbuilt hOther
  · rw [hEq] at h
    cases h
    rfl
  · rw [hEq] at h
    cases h

/-- So does a program that cannot be run, if it waits. -/
theorem failed_of_execute {d : Session} {e : Failure} {p : Program} (hWaiting : c.phase = .waiting)
    (hp : c.program = some p) (h : c.execute = (.error e, d)) : d.phase = .failed := by
  rw [execute_of_waiting hWaiting hp] at h
  cases hAnswer : (runProgram p c.script c.storeWithoutResult).1 with
  | ok obj =>
    rw [hAnswer] at h
    cases h
  | error e' =>
    rw [hAnswer] at h
    cases h
    rfl

/-- A session that runs its script is done or has failed in the end, and all of the script has been
read if it is done. -/
theorem runAll_phase (c : Session) (last : Value) :
    (c.runAll last).2.phase = phaseBehind (c.runAll last).1 ∧
      ∀ v, (c.runAll last).1 = .ok v → (c.runAll last).2.unread = [] := by
  fun_induction Session.runAll c last with
  | case1 c last e d hRead => exact ⟨failed_of_forward hRead, fun v hv => by cases hv⟩
  | case2 c last d hRead =>
    obtain ⟨hPhase, hUnread⟩ := unread_of_forward hRead
    exact ⟨hPhase, fun _ _ => hUnread⟩
  | case3 c last d hRead e d' hBuilt =>
    exact ⟨failed_of_compile (unbuilt_of_forward hRead) hBuilt, fun v hv => by cases hv⟩
  | case4 c last d hRead d' hBuilt e d'' hRan =>
    obtain ⟨hPhase, p, hp⟩ := waiting_of_compile hBuilt
    exact ⟨failed_of_execute hPhase hp hRan, fun v hv => by cases hv⟩
  | case5 c last d hRead d' hBuilt obj d'' hRan ih => exact ih

/-- **Behind a text that was evaluated a session is complete**, whatever state it was in. -/
theorem complete_evaluate (c : Session) (text : String) :
    (c.evaluate text).2.complete = true ∧
      (c.evaluate text).2.phase = phaseBehind (c.evaluate text).1 := by
  obtain ⟨hPhase, hUnread⟩ := runAll_phase (c.load text) .nil
  -- nothing is left to read, and the phase is neither of those in which something waits
  have hDone {d : Session} {answer : Except Failure Value} (hPhase : d.phase = phaseBehind answer)
      (hRest : d.unread = []) : d.complete = true := by
    obtain ⟨hUnbuilt, hWaiting⟩ := phaseBehind_ne answer
    rw [← hPhase] at hUnbuilt hWaiting
    rw [complete_eq hUnbuilt hWaiting, hRest]
    rfl
  unfold Session.evaluate
  generalize (c.load text).runAll .nil = answer at hPhase hUnread
  obtain ⟨e | v, d⟩ := answer
  -- what was not read of a script that failed is skipped
  · have hRest : d.skipRest.unread = [] := by
      show charsFrom d.script d.script.utf8ByteSize = []
      rw [utf8ByteSize_eq]
      exact charsFrom_of_toList (List.append_nil _).symm
    exact ⟨hDone (d := d.skipRest) hPhase hRest, hPhase⟩
  · exact ⟨hDone hPhase (hUnread v rfl), hPhase⟩

/-! ## What waits -/

/-- Where what waits to be compiled or run points. -/
def pendingSpans (c : Session) : List Span :=
  c.tokens.map (·.span) ++ (c.program.elim [] (·.code)).map (·.span)

/-- Whether an operation may read statements. -/
def Operation.reads : Operation → Bool
  | forward | evaluate _ => true
  | _ => false

/-- The span is that of a token in the statement that was read last, and selects in the script what
it selected then. -/
def ReadBy (start : Session) (ops : List Operation) (span : Span) : Prop :=
  ∃ before after, ops = before ++ .forward :: after ∧ (∀ op ∈ after, op.reads = false) ∧
    (start.after before).forward.1 = .ok true ∧
    (∃ t ∈ (start.after before).forward.2.tokens, t.span = span) ∧
    span.text (start.after ops).script = span.text (start.after before).script ∧
    span.text (start.after before).script ≠ ""

/-- The last operation comes after all the others. -/
theorem after_concat (start : Session) (ops : List Operation) (op : Operation) :
    start.after (ops ++ [op]) = op.apply (start.after ops) := by
  unfold Session.after
  rw [List.foldl_append]
  rfl

/-- In a phase in which nothing waits there are no spans. -/
theorem Orderly.pendingSpans_eq_nil (h : c.Orderly) (hUnbuilt : c.phase ≠ .unbuilt)
    (hWaiting : c.phase ≠ .waiting) : c.pendingSpans = [] := by
  have hTokens : c.tokens = [] := not_not.1 (mt h.unbuilt.2 hUnbuilt)
  have hProgram : c.program = none := not_not.1 (mt h.waiting.2 hWaiting)
  unfold pendingSpans
  rw [hTokens, hProgram]
  rfl

/-- What waits in the one session has waited in the other one, and selects what it selected
there. -/
def Carries (c d : Session) : Prop :=
  ∀ span ∈ d.pendingSpans, span ∈ c.pendingSpans ∧ (span.Selects c.script →
    span.Selects d.script ∧ span.text d.script = span.text c.script)

/-- Over the same script it is enough that nothing new waits. -/
theorem carries_of_script (hScript : d.script = c.script)
    (hSpans : ∀ span ∈ d.pendingSpans, span ∈ c.pendingSpans) : c.Carries d := by
  intro span hSpan
  rw [hScript]
  exact ⟨hSpans span hSpan, fun hSelects => ⟨hSelects, rfl⟩⟩

/-- While something waits the session is not complete, so text is put behind the script, out of
reach for the spans. -/
theorem Orderly.carries_load (h : c.Orderly) (text : String) : c.Carries (c.load text) := by
  intro span hSpan
  have hSame : (c.load text).pendingSpans = c.pendingSpans := by
    unfold Session.load
    split <;> rfl
  rw [hSame] at hSpan
  refine ⟨hSpan, fun hSelects => ?_⟩
  -- a complete session has nothing that waits, and so no spans
  have hOpen : ¬ c.complete = true := by
    intro hComplete
    have hUnbuilt : c.phase ≠ .unbuilt := fun hPhase => by
      simp [Session.complete, hPhase] at hComplete
    have hWaiting : c.phase ≠ .waiting := fun hPhase => by
      simp [Session.complete, hPhase] at hComplete
    rw [h.pendingSpans_eq_nil hUnbuilt hWaiting] at hSpan
    cases hSpan
  have hScript : (c.load text).script = c.script ++ (";" ++ text) := by
    unfold Session.load
    rw [if_neg hOpen, ← String.append_assoc]
  rw [hScript]
  exact ⟨hSelects.append _, Span.text_append hSelects.stop_le _⟩

/-- Every instruction of the program points at a token of the statement. -/
theorem carries_compile (c : Session) : c.Carries c.compile.2 := by
  rcases c.compile_cases with ⟨-, hEq⟩ | ⟨-, e, -, hEq⟩ | ⟨-, p, hp, hEq⟩ <;> rw [hEq]
  · exact carries_of_script rfl fun _ hSpan => hSpan
  · exact carries_of_script rfl fun _ hSpan => absurd hSpan List.not_mem_nil
  · refine carries_of_script rfl fun span hSpan => ?_
    obtain ⟨i, hi, rfl⟩ := List.mem_map.1 hSpan
    obtain ⟨t, ht, hSame⟩ := Program.span_mem_of_ofTokens hp i hi
    exact List.mem_append_left _ (List.mem_map.2 ⟨t, ht, hSame.symm⟩)

/-- The program is gone when it has run. -/
theorem Orderly.carries_execute (h : c.Orderly) : c.Carries c.execute.2 := by
  rcases h.execute_cases with ⟨-, hEq⟩ | ⟨p, -, -, hEq⟩ <;> rw [hEq]
  · exact carries_of_script rfl fun _ hSpan => hSpan
  · cases (runProgram p c.script c.storeWithoutResult).1 with
    | ok obj =>
      refine carries_of_script rfl fun span hSpan => ?_
      have hToken : span ∈ c.tokens.map (·.span) := by simpa [pendingSpans, settle] using hSpan
      exact List.mem_append_left _ hToken
    | error e => exact carries_of_script rfl fun _ hSpan => absurd hSpan List.not_mem_nil

/-- An operation that reads nothing adds no spans, and what they select stays the same. -/
theorem Orderly.carries_apply {op : Operation} (h : c.Orderly) (hOp : op.reads = false) :
    c.Carries (op.apply c) := by
  cases op with
  | load text => exact h.carries_load text
  | forward => cases hOp
  | evaluate text => cases hOp
  | compile => exact c.carries_compile
  | execute => exact h.carries_execute
  | bindFunction f => exact carries_of_script rfl fun _ hSpan => hSpan
  | lookup name => exact carries_of_script rfl fun _ hSpan => hSpan
  | teardown =>
    -- nothing waits in the session that is left
    intro span hSpan
    cases hSpan

/-- Behind a statement that has just been read, what waits are its tokens. -/
theorem Orderly.selects_forward {span : Span} (h : c.Orderly)
    (hSpan : span ∈ c.forward.2.pendingSpans) :
    c.forward.1 = .ok true ∧ (∃ t ∈ c.forward.2.tokens, t.span = span) ∧
      span.Selects c.script := by
  obtain ⟨-, hSelects, -⟩ := (Reader.maintains_stands c.script).nextStatement h.stands
  rcases c.forward_cases with ⟨e, -, hEq⟩ | ⟨-, hEq⟩ | ⟨t, ts, hSome, hEq⟩ <;>
    rw [hEq] at hSpan ⊢
  · cases hSpan
  · cases hSpan
  · have hToken : span ∈ (t :: ts).map (·.span) := by simpa [pendingSpans] using hSpan
    obtain ⟨u, hu, rfl⟩ := List.mem_map.1 hToken
    exact ⟨rfl, ⟨u, hu, rfl⟩, hSelects _ hSome u hu⟩

/-- Nothing waits behind a text that was evaluated. -/
theorem Orderly.pendingSpans_evaluate (h : c.Orderly) (text : String) :
    (c.evaluate text).2.pendingSpans = [] := by
  obtain ⟨hUnbuilt, hWaiting⟩ := phaseBehind_ne (c.evaluate text).1
  rw [← (complete_evaluate c text).2] at hUnbuilt hWaiting
  exact (h.evaluate text).pendingSpans_eq_nil hUnbuilt hWaiting

/-- **Every span of what waits was read, and still selects what it selected then.** -/
theorem Orderly.readBy {start : Session} (h : start.Orderly) (hNothing : start.pendingSpans = [])
    (ops : List Operation) :
    (start.after ops).Orderly ∧ ∀ span ∈ (start.after ops).pendingSpans,
      start.ReadBy ops span ∧ span.Selects (start.after ops).script := by
  -- the operation that comes last either reads or leaves what waits where it is
  induction ops using List.reverseRecOn with
  | nil =>
    refine ⟨h, fun span hSpan => ?_⟩
    change span ∈ start.pendingSpans at hSpan
    rw [hNothing] at hSpan
    cases hSpan
  | append_singleton ops op ih =>
    obtain ⟨hHere, hPending⟩ := ih
    rw [after_concat]
    refine ⟨hHere.apply op, fun span hSpan => ?_⟩
    cases hReads : op.reads with
    | false =>
      obtain ⟨hBefore, hKeeps⟩ := hHere.carries_apply hReads span hSpan
      obtain ⟨⟨before, after, rfl, hAfter, hRead, hToken, hText, hSome⟩, hSelects⟩ :=
        hPending span hBefore
      obtain ⟨hSelects', hSame⟩ := hKeeps hSelects
      refine ⟨⟨before, after ++ [op], by simp, ?_, hRead, hToken, ?_, hSome⟩, hSelects'⟩
      · exact List.forall_mem_append.2 ⟨hAfter, List.forall_mem_singleton.2 hReads⟩
      · rw [after_concat, hSame, hText]
    | true =>
      cases op with
      | forward =>
        obtain ⟨hRead, hToken, hSelects⟩ := hHere.selects_forward hSpan
        have hScript := (start.after ops).forward_unchanged.1
        refine ⟨⟨ops, [], rfl, by simp, hRead, hToken, ?_, hSelects.text_ne⟩, ?_⟩
        · rw [after_concat]
          exact congrArg _ hScript
        · show span.Selects (start.after ops).forward.2.script
          rwa [hScript]
      | evaluate text =>
        change span ∈ ((start.after ops).evaluate text).2.pendingSpans at hSpan
        rw [hHere.pendingSpans_evaluate text] at hSpan
        cases hSpan
      | _ =>
        -- no other operation reads
        cases hReads

/-! ## Every sequence of operations -/

/-- A stage belongs to one phase. In that phase it succeeds and leads to the next one, or fails. In
any other phase it is refused and changes nothing. -/
def RunsFrom {α : Type} (c : Session) (stage : Except Failure α × Session) (phase next : Phase) :
    Prop :=
  if c.phase = phase then
    stage.2.phase = match stage.1 with
      | .ok _ => next
      | .error _ => .failed
  else stage = (.error misuse, c)

/-- Compiling belongs to a statement that has been read. -/
theorem runsFrom_compile (c : Session) : c.RunsFrom c.compile .unbuilt .waiting := by
  unfold RunsFrom
  rcases c.compile_cases with ⟨hPhase, hEq⟩ | ⟨hPhase, e, -, hEq⟩ | ⟨hPhase, p, -, hEq⟩
  · rw [if_neg hPhase, hEq]
  · rw [if_pos hPhase, hEq]
    rfl
  · rw [if_pos hPhase, hEq]

/-- Running belongs to a program that has been compiled. -/
theorem Orderly.runsFrom_execute (h : c.Orderly) : c.RunsFrom c.execute .waiting .done := by
  unfold RunsFrom
  rcases h.execute_cases with ⟨hPhase, hEq⟩ | ⟨p, hPhase, -, hEq⟩
  · rw [if_neg hPhase, hEq]
  · rw [if_pos hPhase, hEq]
    cases (runProgram p c.script c.storeWithoutResult).1 <;> rfl

/-- What can be said of a session whatever has been done with it. -/
structure Conduct (c : Session) : Prop where
  /-- A statement waits exactly in the phase between reading and compiling. -/
  unbuilt : c.phase = .unbuilt ↔ c.tokens ≠ []
  /-- A program waits exactly in the phase between compiling and running. -/
  waiting : c.phase = .waiting ↔ c.program ≠ none
  /-- The session stands at a boundary of its script. -/
  cursor : c.cursor ≤ c.script.utf8ByteSize ∧ (c.script.pos? ⟨c.cursor⟩).isSome
  compile : c.RunsFrom c.compile .unbuilt .waiting
  execute : c.RunsFrom c.execute .waiting .done
  /-- Behind any text that is evaluated next, the session is complete. -/
  evaluate : ∀ text, (c.evaluate text).2.complete = true ∧
    (c.evaluate text).2.phase = phaseBehind (c.evaluate text).1

/-- A session in order conducts itself. -/
theorem Orderly.conduct (h : c.Orderly) : c.Conduct := by
  refine ⟨h.unbuilt, h.waiting, ⟨?_, Reader.stands_resume_iff.1 h.stands⟩, c.runsFrom_compile,
    h.runsFrom_execute, c.complete_evaluate⟩
  -- the place is as far in the script as what was read before it is long
  obtain ⟨pre, hScript, hBytes⟩ := h.stands
  rw [utf8ByteSize_eq, hScript, byteLength_append]
  change byteLength pre = c.cursor at hBytes
  omega

/-- **The parts of a session fit together whatever has been done with it.** The phase tells what
waits, the place is a boundary of the script, stages are refused in the wrong phase, and a text can
be evaluated in every phase. Every span of what waits was read by the last operation that read
anything, and selects now what it selected then. -/
theorem conduct_after (options : ReaderOptions) (entropy : Entropy) (fs : List Function)
    (ops : List Operation) :
    let start := (bare options entropy).bindAll fs
    (start.after ops).Conduct ∧
      ∀ span ∈ (start.after ops).pendingSpans, start.ReadBy ops span := by
  intro start
  have hStart : start.Orderly ∧ start.pendingSpans = [] :=
    bindAll_of_bindFunction (P := fun c => c.Orderly ∧ c.pendingSpans = [])
      (fun f _ c h => ⟨h.1.of_eq rfl rfl rfl h.1.stands, h.2⟩)
      ⟨orderly_bare options entropy, rfl⟩
  obtain ⟨hOrderly, hPending⟩ := hStart.1.readBy hStart.2 ops
  exact ⟨hOrderly.conduct, fun span hSpan => (hPending span hSpan).1⟩

end Session

end Reckon
