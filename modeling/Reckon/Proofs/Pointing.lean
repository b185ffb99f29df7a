import Reckon.Proofs.Elsewhere
import Reckon.Proofs.Histories

/-!
# Where failures point

A statement is put in order, checked and run, and in each of the three a failure can come up. It
always points at a token of the statement.

* The pass and the check raise no failure that points nowhere (`Program.isSome_span_of_ofTokens`),
  and they know no spans but those of the tokens (`Program.exists_token_of_ofTokens`).
* When all instructions have been performed nothing can go wrong any more: the check has seen to it
  that there is one value left (`Session.steps_of_runProgram`). So a run that fails has failed at an
  instruction.
* A machine raises failures that point nowhere, and points them at the instruction that it is about.
  Only a function that is called can have pointed a failure somewhere before
  (`Machine.PointedInCall`). Functions that leave that alone are silent (`Function.Silent`), and the
  builtin ones are.
-/

namespace Reckon

/-! ## Functions -/

/-- A function whose failures point nowhere, like those of every function that can be had from
it. -/
def Function.Silent (f : Function) : Prop :=
  ∀ g, f.Yields g → ∀ sample args e, g.body sample args = .error e → e.span = none

/-- What is had from what is had from a silent function is had from the function itself. -/
theorem Function.inherited_silent : Function.Inherited Function.Silent := by
  intro f sample args g hf hReply k hk
  exact hf k ((Function.Yields.reply .self hReply).trans hk)

/-- Nothing that a silent function raises points anywhere. -/
theorem Failure.not_raisedBy_silent {e : Failure} : ¬ e.RaisedBy Function.Silent := by
  rintro ⟨hSpan, f, sample, args, hSilent, hRaised⟩
  exact hSpan (hSilent f .self sample args e hRaised)

namespace Builtin

/-- A complaint about an argument that is no number points nowhere. -/
theorem span_number {a : Argument} {e : Failure} (h : a.number = .error e) : e.span = none := by
  unfold Argument.number at h
  split at h
  · cases h
  · cases h
    rfl

/-- Nor does one about several arguments. -/
theorem span_numbers {args : List Argument} {e : Failure} (h : Argument.numbers args = .error e) :
    e.span = none := by
  unfold Argument.numbers at h
  induction args with
  | nil => cases h
  | cons a args ih =>
    -- the first argument that is no number is the one that is complained about
    rw [List.mapM_cons] at h
    cases hFirst : a.number with
    | error e' =>
      rw [hFirst] at h
      cases h
      exact span_number hFirst
    | ok n =>
      rw [hFirst] at h
      cases hRest : args.mapM Argument.number with
      | error e' =>
        rw [hRest] at h
        cases h
        exact ih hRest
      | ok ns =>
        rw [hRest] at h
        cases h

/-- A function of one number fails without pointing anywhere when what it does with the number fails
so. -/
theorem span_ofNumber {name : String} {f : Number → Except Failure Number}
    (hf : ∀ n e, f n = .error e → e.span = none) {sample : Float} {args : List Argument}
    {e : Failure} (h : (ofNumber name f).body sample args = .error e) : e.span = none := by
  unfold ofNumber at h
  dsimp only at h
  -- one argument, or a wrong number of them
  split at h
  -- the argument is a number, on which `f` may fail, or it is none
  · split at h
    · rename_i n _
      cases hEq : f n with
      | ok m =>
        rw [hEq] at h
        cases h
      | error e' =>
        rw [hEq] at h
        cases h
        exact hf n e hEq
    · rename_i hNumber
      cases h
      exact span_number hNumber
  · cases h
    rfl

/-- A fold over numbers fails without pointing anywhere. -/
theorem span_folding {name : String} {start : Float} {f : Float → Float → Float} {sample : Float}
    {args : List Argument} {e : Failure} (h : (folding name start f).body sample args = .error e) :
    e.span = none := by
  unfold folding at h
  dsimp only at h
  -- no argument at all, or arguments of which one may be no number
  split at h
  · cases h
    rfl
  · split at h
    · rename_i hNumbers
      cases h
      exact span_numbers hNumbers
    · cases h

/-- A factorial fails without pointing anywhere. -/
theorem span_factorial {sample : Float} {args : List Argument} {e : Failure}
    (h : factorial.body sample args = .error e) : e.span = none := by
  refine span_ofNumber (fun n e' hEq => ?_) h
  -- the number is a negative integer, or no integer at all
  split at hEq
  · split at hEq
    · cases hEq
    · cases hEq
      rfl
  · cases hEq
    rfl

/-- The builtin functions say what is wrong, and leave it to others to say where. -/
theorem silent_of_mem_all : ∀ f ∈ all, f.Silent := by
  have hSlotNumber (sample : Float) (args : List Argument) (e : Failure)
      (h : slotNumber.body sample args = .error e) : e.span = none := by
    unfold slotNumber at h
    dsimp only at h
    split at h
    · cases h
    · cases h
      rfl
  -- a function that is had from a builtin one is that function
  have hSelf (f : Function) (hf : f ∈ all)
      (hSpan : ∀ sample args e, f.body sample args = .error e → e.span = none) : f.Silent := by
    intro g hg
    rw [Session.eq_of_yields (Session.reply_builtin f hf) hg]
    exact hSpan
  intro f hf
  -- each builtin function is one of a few kinds, with a lemma for every kind
  refine hSelf f hf ?_
  simp only [all, List.mem_cons, List.not_mem_nil, or_false] at hf
  rcases hf with rfl | rfl | rfl | rfl | rfl | rfl | rfl | rfl | rfl | rfl | rfl | rfl | rfl |
    rfl | rfl
  · exact hSlotNumber
  all_goals first
    | exact fun _ _ _ => span_ofNumber fun _ _ h => by cases h
    | exact fun _ _ _ => span_factorial
    | exact fun _ _ _ => span_folding
    | exact fun _ _ _ h => by cases h

end Builtin

/-! ## Compiling -/

namespace Postfix

namespace Pass

variable {e : Failure} {depth : Nat} {emitted : List Instruction} {waiting : List Waiting}

/-- A closer that fits no opener is pointed at. -/
theorem isSome_span_of_closing {b : Bracket} {span : Span}
    (h : closing b span depth emitted waiting = .error e) : e.span.isSome := by
  fun_induction closing b span depth emitted waiting with
  | case1 | case2 =>
    -- there is no opener, or it is another one
    cases h
    rfl
  | case3 => cases h
  | case4 _ _ _ _ _ ih => exact ih h

/-- A token that the pass refuses is pointed at. -/
theorem isSome_span_of_take {p : Pass} {previous : Option TokenKind} {t : Token}
    (h : p.take previous t = .error e) : e.span.isSome := by
  unfold Pass.take at h
  split at h
  case h_5 => exact isSome_span_of_closing h
  -- what is refused elsewhere is the token itself
  all_goals cases h <;> rfl

/-- Whatever the pass refuses among the tokens is pointed at. -/
theorem isSome_span_of_takeAll {p : Pass} {previous : Option TokenKind} {ts : List Token}
    (h : p.takeAll previous ts = .error e) : e.span.isSome := by
  -- induction on the tokens: the first one that is refused ends the pass
  induction ts generalizing p previous with
  | nil => cases h
  | cons t ts ih =>
    unfold Pass.takeAll at h
    split at h
    · rename_i hTake
      cases h
      exact isSome_span_of_take hTake
    · exact ih h

/-- A bracket that is still open at the end is pointed at. -/
theorem isSome_span_of_finishing (h : finishing depth emitted waiting = .error e) :
    e.span.isSome := by
  induction waiting generalizing emitted with
  | nil => cases h
  | cons w waiting ih =>
    unfold finishing at h
    split at h
    · -- nobody has closed the bracket
      cases h
      rfl
    · exact ih h

end Pass

/-- Whatever is wrong with the order of a statement, the failure points somewhere. -/
theorem isSome_span_of_ofTokens {ts : List Token} {e : Failure} (h : ofTokens ts = .error e) :
    e.span.isSome := by
  unfold ofTokens at h
  split at h
  · rename_i hTaken
    cases h
    exact Pass.isSome_span_of_takeAll hTaken
  · exact Pass.isSome_span_of_finishing h

end Postfix

namespace Program

namespace Heights

variable {h : Heights} {span : Span} {e : Failure}

/-- A closer behind a wrong number of commas is pointed at. -/
theorem isSome_span_of_valuesInside (hError : h.valuesInside span = .error e) :
    e.span.isSome := by
  unfold valuesInside at hError
  split at hError
  -- two values stand side by side between the brackets
  · cases hError
    rfl
  · split at hError
    -- there is nothing behind the last comma, if there is a comma
    · split at hError <;> cases hError
      rfl
    · cases hError

/-- A closer that the check refuses is pointed at. -/
theorem isSome_span_of_closing {b : Bracket} (hError : h.closing b span = .error e) :
    e.span.isSome := by
  unfold Heights.closing at hError
  split at hError
  · cases hError
    rfl
  · split at hError
    · rename_i hInside
      cases hError
      exact isSome_span_of_valuesInside hInside
    · -- the index or the call may lack what stands in front of it
      dsimp only at hError
      split at hError
      · cases hError
      · cases hError
      · split at hError
        · cases hError
          rfl
        · split at hError <;> cases hError
          rfl
      · split at hError <;> cases hError
        rfl

/-- An instruction that the check refuses is pointed at. -/
theorem isSome_span_of_step {i : Instruction} (hError : h.step i = .error e) : e.span.isSome := by
  unfold Heights.step at hError
  split at hError
  · cases hError
  · cases hError
  · cases hError
  · exact isSome_span_of_closing hError
  · unfold Heights.comma at hError
    split at hError <;> cases hError
    rfl
  · cases hError
  · -- an operator lacks an operand
    unfold Heights.prefixed Heights.binary at hError
    split at hError <;> split at hError <;> cases hError <;> rfl

/-- A sequence that the check refuses has an instruction that is pointed at. -/
theorem isSome_span_of_play {code : List Instruction} (hError : h.play code = .error e) :
    e.span.isSome := by
  induction code generalizing h with
  | nil => cases hError
  | cons i code ih =>
    unfold Heights.play at hError
    split at hError
    · rename_i hStep
      cases hError
      exact isSome_span_of_step hStep
    · exact ih hError

end Heights

/-- Whatever is found wrong with a statement, the failure points somewhere. -/
theorem isSome_span_of_ofTokens {ts : List Token} {e : Failure} (h : ofTokens ts = .error e) :
    e.span.isSome := by
  unfold ofTokens at h
  split at h
  · rename_i hOrder
    cases h
    exact Postfix.isSome_span_of_ofTokens hOrder
  · unfold ofPostfix at h
    split at h
    · rename_i hPlay
      cases h
      exact Heights.isSome_span_of_play hPlay
    · -- the last instruction is pointed at, if nothing else is wrong
      split at h <;> cases h
      rfl

/-- **A statement that does not compile has a token that the failure points at.** -/
theorem exists_token_of_ofTokens {ts : List Token} {e : Failure} (hSome : ts ≠ [])
    (hWritten : ∀ t ∈ ts, t.kind.isWritten = true) (h : ofTokens ts = .error e) :
    ∃ t ∈ ts, e.span = some t.span := by
  -- the statement is put at its own place, with the spans of its tokens only
  have hTokens : List.Forall₂ (Token.Moved fun s s' => s' = s ∧ ∃ t ∈ ts, s = t.span) ts ts :=
    List.forall₂_same.2 fun t ht => ⟨rfl, rfl, t, ht, rfl⟩
  have hMoved := ofTokens_moved hSome hWritten hTokens
  have hThere := isSome_span_of_ofTokens h
  rw [h] at hMoved
  cases hMoved with
  | error hFailure =>
    have hSpan := hFailure.span
    obtain ⟨span, hEq⟩ := Option.isSome_iff_exists.1 hThere
    rw [hEq] at hSpan ⊢
    cases hSpan with
    | some hRel =>
      obtain ⟨-, t, ht, rfl⟩ := hRel
      exact ⟨t, ht, rfl⟩

/-- What compiles has been put in order before it was checked. -/
theorem exists_code_of_ofTokens {ts : List Token} {p : Program} (h : ofTokens ts = .ok p) :
    ∃ code, Postfix.ofTokens ts = .ok code ∧ ofPostfix code = .ok p := by
  unfold ofTokens at h
  split at h
  · cases h
  · rename_i code hOrder
    exact ⟨code, hOrder, h⟩

end Program

/-! ## Running -/

/-- A sequence that fails has an instruction that fails, and those in front of it have been
performed. -/
theorem Machine.exists_step_of_steps {m : Machine} {script : String} {code : List Instruction}
    {e : Failure} (h : (Machine.steps script m code).1 = .error e) :
    ∃ front i behind n e', code = front ++ i :: behind ∧
      Machine.steps script m front = (.ok (), n) ∧ (n.step script i).1 = .error e' ∧
      e = e'.orSpan i.span := by
  -- induction on the code, with the machine left open
  induction code generalizing m with
  | nil => cases h
  | cons j code ih =>
    unfold Machine.steps at h
    rcases hStep : m.step script j with ⟨e' | ⟨⟩, n⟩
    · rw [hStep] at h
      cases h
      exact ⟨[], j, code, m, e', rfl, rfl, by rw [hStep], rfl⟩
    · -- this instruction has been performed, so it is a later one
      rw [hStep] at h
      obtain ⟨front, i, behind, k, e', rfl, hFront, hFails, hSpan⟩ := ih h
      refine ⟨j :: front, i, behind, k, e', rfl, ?_, hFails, hSpan⟩
      rw [Machine.steps, hStep]
      exact hFront

namespace Session

variable {c d : Session} {p : Program} {script : String} {s : Store} {e : Failure}

/-- **A program that fails has failed at an instruction.** Behind the last one there is one value on
the stack, as the check has found, and nothing can go wrong any more. -/
theorem steps_of_runProgram {code : List Instruction} (hp : Program.ofPostfix code = .ok p)
    (h : (runProgram p script s).1 = .error e) :
    (Machine.steps script { store := s } p.code).1 = .error e := by
  obtain ⟨heights, hPlay, hHeight, hOuter, rfl⟩ := Program.exists_play_of_ofPostfix hp
  have hFollows := (Machine.follows_start False s).steps (by simp) script hPlay
  rw [runProgram_eq] at h
  unfold Program.run Machine.run at h
  rcases hEq : Machine.steps script { store := s } code with ⟨e' | ⟨⟩, m⟩
  · rw [hEq] at h
    cases h
    rfl
  · rw [hEq] at h hFollows
    dsimp only at h hFollows
    obtain ⟨obj, hObj⟩ := hFollows.inStep.finish hHeight hOuter
    rcases hEnd : m.finish with ⟨e' | obj', n⟩
    · rw [hEnd] at hObj
      cases hObj
    · rw [hEnd] at h
      cases h

/-- A statement that is refused when it is compiled has a token that the failure points at. -/
theorem exists_token_of_compile (hUnbuilt : c.phase = .unbuilt) (hSome : c.tokens ≠ [])
    (hWritten : ∀ t ∈ c.tokens, t.kind.isWritten = true) (h : c.compile.1 = .error e) :
    ∃ t ∈ c.tokens, e.span = some t.span := by
  unfold Session.compile at h
  rw [if_pos hUnbuilt] at h
  -- the statement is compiled now, so the answer is that of the pass and the check
  cases hEq : Program.ofTokens c.tokens with
  | ok p =>
    rw [hEq] at h
    cases h
  | error e' =>
    rw [hEq] at h
    cases h
    exact Program.exists_token_of_ofTokens hSome hWritten hEq

/-- **A statement that fails when it is run** has a token that the failure points at, unless a
function has pointed it somewhere else. -/
theorem exists_token_of_execute (hBuilt : c.compile = (.ok (), d)) (h : d.execute.1 = .error e) :
    (∃ t ∈ c.tokens, e.span = some t.span) ∨ d.PointedInCall e := by
  unfold Session.compile at hBuilt
  split at hBuilt
  · split at hBuilt
    · rename_i p hp
      cases hBuilt
      rw [execute_of_waiting rfl rfl] at h
      rw [settle_answer] at h
      obtain ⟨code, -, hChecked⟩ := Program.exists_code_of_ofTokens hp
      obtain ⟨front, i, behind, m, e', hCode, hReached, hFailed, hEnd⟩ :=
        Machine.exists_step_of_steps (steps_of_runProgram hChecked h)
      -- a failure that points nowhere is pointed at the instruction; any other is left as it is
      by_cases hSpan : e'.span = none
      · -- the instruction has come from a token
        obtain ⟨t, ht, hSame⟩ := Program.span_mem_of_ofTokens hp i (by simp [hCode])
        exact .inl ⟨t, ht, by rw [hEnd, Failure.span_orSpan hSpan, hSame]⟩
      · obtain ⟨hCall, hRaised⟩ := (Machine.raises_of_step hFailed).resolve_left hSpan
        rw [Failure.orSpan_of_span hSpan] at hEnd
        subst hEnd
        refine .inr ⟨p, rfl, ?_⟩
        -- the call is reached behind the instructions in front of it
        rw [hCode]
        exact (Machine.PointedInCall.here hCall hFailed hRaised hSpan).behind hReached
    · cases hBuilt
  · cases hBuilt

end Session

end Reckon
