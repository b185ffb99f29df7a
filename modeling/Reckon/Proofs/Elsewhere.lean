import Reckon.Proofs.Carrying
import Reckon.Proofs.Execution
import Reckon.Proofs.Faults
import Reckon.Proofs.Functions
import Reckon.Proofs.Lockstep
import Reckon.Session

/-!
# The same program at another place

A machine looks at the script for the texts of numbers and names, and at nothing else. So a program
that stands somewhere else in another script does the same there, as long as its spans select the
same texts (`Machine.steps_moved`). Its failures point elsewhere, too: the machine raises failures
that point nowhere (`Machine.raises_of_step`), and they are pointed at the instruction. The one
exception is a function that is called, raises a failure and has pointed it somewhere itself
(`Machine.PointedInCall`): such a failure is passed on as it is. `Outcomes` tells the two apart.
-/

namespace Reckon

/-! ## Where failures point -/

/-- The failure points somewhere, and it is a function with the property that has raised it. -/
def Failure.RaisedBy (P : Function → Prop) (e : Failure) : Prop :=
  e.span ≠ none ∧ ∃ f sample args, P f ∧ f.body sample args = .error e

/-- A failure that points nowhere is pointed at the instruction. -/
theorem Failure.span_orSpan {e : Failure} (h : e.span = none) (span : Span) :
    (e.orSpan span).span = some span := by
  unfold Failure.orSpan
  rw [h]

/-- A failure that points somewhere stays what it is. -/
theorem Failure.orSpan_of_span {e : Failure} (h : e.span ≠ none) (span : Span) :
    e.orSpan span = e := by
  unfold Failure.orSpan
  split
  · rfl
  · rename_i hNone
    exact absurd hNone h

variable {P : Function → Prop} {e : Failure}

namespace Machine

variable {m : Machine}

/-- Pushing a result fails only when there is none. -/
theorem eq_of_pushResult {answer : Except Failure Object}
    (h : (m.pushResult answer).1 = .error e) : answer = .error e := by
  cases answer with
  | ok obj => cases h
  | error e' => cases h; rfl

/-- Arithmetic fails without pointing anywhere. -/
theorem span_arithmeticResult {answer : Except Fault Number}
    (h : arithmeticResult answer = .error e) : e.span = none := by
  cases answer <;> cases h
  rfl

/-- What is no number is not pointed at. -/
theorem span_numberOf {obj : Object} (h : m.numberOf obj = .error e) : e.span = none := by
  unfold numberOf at h
  split at h <;> cases h
  rfl

/-- An operator for two numbers fails without pointing anywhere. -/
theorem span_applied {op : Operator} {lhs rhs : Object} (h : m.applied op lhs rhs = .error e) :
    e.span = none := by
  unfold applied at h
  split at h
  · rename_i hLhs
    cases h
    exact span_numberOf hLhs
  · rename_i hRhs
    cases h
    exact span_numberOf hRhs
  · exact span_arithmeticResult h

/-- A prefix operator fails without pointing anywhere. -/
theorem span_unary {op : Operator} (h : (m.unary op).1 = .error e) : e.span = none := by
  unfold unary at h
  split at h
  · cases h
    rfl
  · have hAnswer := eq_of_pushResult h
    split at hAnswer
    · exact span_arithmeticResult hAnswer
    · rename_i hOther
      cases hAnswer
      exact span_numberOf hOther

/-- An operator for two fails without pointing anywhere. -/
theorem span_binary {op : Operator} (h : (m.binary op).1 = .error e) : e.span = none := by
  unfold binary at h
  split at h
  · cases h
    rfl
  · cases h
    rfl
  · exact span_applied (eq_of_pushResult h)

/-- Binding a slot fails without pointing anywhere. -/
theorem span_assignSlot {id : SlotId} {obj : Object} (h : (m.assignSlot id obj).1 = .error e) :
    e.span = none := by
  unfold assignSlot at h
  split at h
  · cases h
  · rename_i hBind
    cases h
    exact (Store.plain_bind hBind).span

/-- An assignment fails without pointing anywhere. -/
theorem span_assign (h : m.assign.1 = .error e) : e.span = none := by
  -- the store may be full, or the target may be no slot
  unfold assign at h
  split at h
  · cases h
    rfl
  · cases h
    rfl
  · dsimp only at h
    split at h
    · cases h
    · exact span_assignSlot h
  · cases h
    rfl

/-- A compound assignment fails without pointing anywhere. -/
theorem span_compound {base : Operator} (h : (m.compound base).1 = .error e) : e.span = none := by
  unfold compound at h
  split at h
  -- no value, one value only, the arithmetic, the binding, or a target that is no slot
  · cases h
    rfl
  · cases h
    rfl
  · dsimp only at h
    split at h
    · rename_i hApplied
      cases h
      exact span_applied hApplied
    · split at h
      · exact span_assignSlot h
      · cases h
        rfl

/-- A comma fails without pointing anywhere. -/
theorem span_comma (h : m.comma.1 = .error e) : e.span = none := by
  unfold comma at h
  split at h <;> cases h
  rfl

/-- A spread fails without pointing anywhere. -/
theorem span_spread (h : m.spread.1 = .error e) : e.span = none := by
  unfold spread at h
  split at h
  · cases h
    rfl
  · dsimp only at h
    split at h
    · cases h
      rfl
    · split at h <;> cases h
      rfl

/-- Indexing fails without pointing anywhere. -/
theorem span_indexing {target index : Object} (h : (m.indexing target index).1 = .error e) :
    e.span = none := by
  unfold indexing at h
  split at h
  · rename_i hIndex
    cases h
    -- the index is negative, or no integer at all
    unfold indexOf at hIndex
    split at hIndex
    · split at hIndex <;> cases hIndex
      rfl
    · cases hIndex
      rfl
  · split at h
    · cases h
      rfl
    · split at h <;> cases h
      rfl

/-- The one operation in which others have a say is the call. -/
theorem raises_of_calling {callee : Object} {args : List Object}
    (h : (m.calling callee args).1 = .error e) :
    e.span = none ∨ ∃ f sample, m.store.payload? callee = some (.function f) ∧
      f.body sample (args.map m.store.argument) = .error e := by
  unfold calling at h
  split at h
  · rename_i f hPayload
    obtain ⟨sample, entropy, hCall⟩ := Store.exists_call_eq m.store f args
    rw [hCall] at h
    dsimp only [Function.call] at h
    split at h
    · cases hReply : f.body sample (args.map m.store.argument) with
      | ok reply =>
        rw [hReply] at h
        cases h
      | error e' =>
        rw [hReply] at h
        cases h
        -- it was the function that failed
        exact .inr ⟨f, sample, hPayload, hReply⟩
    · cases h
      exact .inl rfl
  · cases h
    exact .inl rfl

/-- An index that closes fails without pointing anywhere. -/
theorem span_closingIndex {items : List Object} (h : (m.closingIndex items).1 = .error e) :
    e.span = none := by
  unfold closingIndex at h
  split at h
  · cases h
    rfl
  · dsimp only at h
    split at h
    · cases h
      rfl
    · exact span_indexing (eq_of_pushResult h)

/-- An array that closes fails without pointing anywhere. -/
theorem span_closingArray {items : List Object} (h : (m.closingArray items).1 = .error e) :
    e.span = none := by
  unfold closingArray at h
  -- the store may have no room for the elements
  have hSlots := eq_of_pushResult h
  cases hMade : (slotsFor m.store [] items).1 with
  | ok slots =>
    rw [hMade] at hSlots
    cases hSlots
  | error e' =>
    rw [hMade] at hSlots
    cases hSlots
    exact (plain_slotsFor (Prod.ext hMade rfl)).span

/-- A run that leaves no single value fails without pointing anywhere. -/
theorem span_finish (h : m.finish.1 = .error e) : e.span = none := by
  unfold finish at h
  split at h
  · cases h
    rfl
  · dsimp only at h
    split at h <;> cases h
    rfl

/-- A call that closes fails without pointing anywhere, unless the function that it calls has raised
the failure. -/
theorem raises_of_closingCall {around : Frame} {outer : List Frame}
    (hOuter : m.outer = around :: outer)
    (h : ((m.leave around outer).2.closingCall (m.leave around outer).1).1 = .error e) :
    e.span = none ∨ m.CallRaises e := by
  unfold closingCall at h
  split at h
  · cases h
    exact .inl rfl
  · rename_i callee values hValues
    rcases raises_of_calling (eq_of_pushResult h) with hNone | ⟨f, sample, hPayload, hBody⟩
    · exact .inl hNone
    · exact .inr ⟨around, outer, callee, values, f, sample, hOuter, hValues, hPayload, hBody⟩

/-- The same of any bracket that closes. -/
theorem raises_of_closing {b : Bracket} (h : (m.closing b).1 = .error e) :
    e.span = none ∨ b = .call ∧ m.CallRaises e := by
  unfold closing at h
  cases hOuter : m.outer with
  | nil =>
    rw [hOuter] at h
    cases h
    exact .inl rfl
  | cons around outer =>
    rw [hOuter] at h
    -- a group cannot fail, and of the others only the call asks anybody else
    cases b with
    | group =>
      dsimp only at h
      unfold closingGroup at h
      split at h <;> cases h
    | index => exact .inl (span_closingIndex h)
    | call => exact (raises_of_closingCall hOuter h).imp id fun hRaises => ⟨rfl, hRaises⟩
    | array => exact .inl (span_closingArray h)

/-- **What a step raises points nowhere**, unless it closes a call and the function has raised
it. -/
theorem raises_of_step {script : String} {i : Instruction}
    (h : (m.step script i).1 = .error e) :
    e.span = none ∨ i.kind = .operator (.closer .call) ∧ m.CallRaises e := by
  unfold step at h
  split at h
  · exact .inl (span_arithmeticResult (eq_of_pushResult h))
  · split at h
    · cases h
    · rename_i hIntern
      cases h
      exact .inl (Store.plain_intern hIntern).span
  · rename_i op hKind
    -- the cases are those of `perform`
    unfold perform at h
    split at h
    · cases h
    · rcases raises_of_closing h with hNone | ⟨rfl, hRaises⟩
      · exact .inl hNone
      · exact .inr ⟨hKind, hRaises⟩
    · exact .inl (span_comma h)
    · exact .inl (span_spread h)
    · exact .inl (span_assign h)
    · cases h
    · split at h
      · exact .inl (span_compound h)
      · split at h
        · exact .inl (span_unary h)
        · exact .inl (span_binary h)

/-- The function that a call comes to is one of those within reach. -/
theorem Within.raisedBy (hm : m.Within P) (h : m.CallRaises e) (hSpan : e.span ≠ none) :
    e.RaisedBy P := by
  obtain ⟨around, outer, callee, values, f, sample, hOuter, hValues, hPayload, hBody⟩ := h
  obtain ⟨hCallee, -⟩ := (hm.leave hOuter).2.pop hValues
  exact ⟨hSpan, f, sample, _, hm.store.payload? hCallee hPayload, hBody⟩

end Machine

/-! ## Calls that point their failures -/

namespace Machine

variable {m n : Machine} {script : String} {i : Instruction} {code : List Instruction}

/-- The instructions come to a call, and the function that is called raises the failure and has
pointed it somewhere itself. -/
inductive PointedInCall (script : String) (e : Failure) : Machine → List Instruction → Prop
  /-- The first instruction closes the call. -/
  | here {m : Machine} {i : Instruction} {code : List Instruction}
      (hCall : i.kind = .operator (.closer .call)) (hFailed : (m.step script i).1 = .error e)
      (hRaised : m.CallRaises e) (hSpan : e.span ≠ none) : PointedInCall script e m (i :: code)
  /-- The first instruction is performed, and it is a later one that closes the call. -/
  | later {m n : Machine} {i : Instruction} {code : List Instruction}
      (hStep : m.step script i = (.ok (), n)) (h : PointedInCall script e n code) :
      PointedInCall script e m (i :: code)

/-- What the function has raised is what comes of the instructions. -/
theorem PointedInCall.steps (h : PointedInCall script e m code) :
    (Machine.steps script m code).1 = .error e := by
  induction h with
  | @here m i code hCall hFailed hRaised hSpan =>
    rw [Machine.steps, show m.step script i = (.error e, _) from Prod.ext hFailed rfl]
    exact congrArg Except.error (Failure.orSpan_of_span hSpan _)
  | later hStep h ih =>
    rw [Machine.steps, hStep]
    exact ih

/-- Behind an instruction that has been performed it is up to the others. -/
theorem pointedInCall_cons_of_step (hStep : m.step script i = (.ok (), n)) :
    PointedInCall script e m (i :: code) ↔ PointedInCall script e n code := by
  refine ⟨fun h => ?_, .later hStep⟩
  cases h with
  -- what has been performed has not failed
  | here hCall hFailed hRaised hSpan =>
    rw [hStep] at hFailed
    cases hFailed
  | later hOther h =>
    rw [hStep] at hOther
    cases hOther
    exact h

/-- The same holds behind all instructions that have been performed. -/
theorem PointedInCall.behind {front : List Instruction}
    (hFront : Machine.steps script m front = (.ok (), n)) (h : PointedInCall script e n code) :
    PointedInCall script e m (front ++ code) := by
  -- induction on the instructions in front, with the machine left open
  induction front generalizing m with
  | nil =>
    cases hFront
    exact h
  | cons j front ih =>
    unfold Machine.steps at hFront
    rcases hStep : m.step script j with ⟨e' | ⟨⟩, k⟩
    · rw [hStep] at hFront
      cases hFront
    · rw [hStep] at hFront
      exact .later hStep (ih hFront)

/-- It takes a call. -/
theorem PointedInCall.exists_call (h : PointedInCall script e m code) :
    ∃ i ∈ code, i.kind = .operator (.closer .call) := by
  induction h with
  | here hCall => exact ⟨_, List.mem_cons_self .., hCall⟩
  | later hStep h ih =>
    obtain ⟨i, hi, hCall⟩ := ih
    exact ⟨i, List.mem_cons_of_mem _ hi, hCall⟩

/-- The function that is called is one of those within reach. -/
theorem PointedInCall.raisedBy (h : PointedInCall script e m code) (hm : m.Within P)
    (hP : Function.Inherited P) : e.RaisedBy P := by
  induction h with
  | here hCall hFailed hRaised hSpan => exact hm.raisedBy hRaised hSpan
  | @later m n i code hStep h ih =>
    refine ih ?_
    have hNext := hm.step hP script i
    rwa [hStep] at hNext

end Machine

/-! ## Runs elsewhere -/

/-- What comes of the same thing here and there. The value is the same. A failure of its own kind is
the same altogether, and any other one is the same at a related span. -/
inductive Outcomes {α : Type} (R : Span → Span → Prop) (own : Failure → Prop) :
    Except Failure α → Except Failure α → Prop
  | ok (a : α) : Outcomes R own (.ok a) (.ok a)
  | kept {e : Failure} (hOwn : own e) : Outcomes R own (.error e) (.error e)
  | moved {e e' : Failure} (hOther : ¬ own e) (hMoved : e.Moved R e') :
      Outcomes R own (.error e) (.error e')

variable {R : Span → Span → Prop}

/-- The kinds of failure that are kept may be told in other words. -/
theorem Outcomes.congr {α : Type} {own own' : Failure → Prop} {here there : Except Failure α}
    (h : Outcomes R own here there) (hSame : ∀ e, own' e ↔ own e) :
    Outcomes R own' here there := by
  cases h with
  | ok a => exact .ok a
  | kept hOwn => exact .kept ((hSame _).2 hOwn)
  | moved hOther hMoved => exact .moved (mt (hSame _).1 hOther) hMoved

/-- A failure that points nowhere does so everywhere. -/
theorem Failure.moved_of_span (h : e.span = none) : e.Moved R e :=
  ⟨rfl, rfl, by rw [h]; exact .none⟩

/-- A failure that is pointed at an instruction points elsewhere with the instruction. -/
theorem Failure.moved_orSpan {span span' : Span} (h : e.span = none) (hSpan : R span span') :
    (e.orSpan span).Moved R (e.orSpan span') := by
  unfold Failure.orSpan
  rw [h]
  exact ⟨rfl, rfl, .some hSpan⟩

namespace Machine

variable {m : Machine} {script script' : String}

/-- A step depends on the kind of its instruction and the text that it selects. -/
theorem step_congr {i j : Instruction} (hKind : j.kind = i.kind)
    (hText : j.span.text script' = i.span.text script) : m.step script' j = m.step script i := by
  unfold step
  rw [hKind, hText]

/-- A program whose spans select the same texts in two scripts does the same with either. -/
theorem steps_congr {code : List Instruction}
    (hText : ∀ i ∈ code, i.span.text script' = i.span.text script) :
    steps script' m code = steps script m code := by
  -- induction on the code, with the machine left open
  induction code generalizing m with
  | nil => rfl
  | cons i code ih =>
    obtain ⟨hFirst, hRest⟩ := List.forall_mem_cons.1 hText
    unfold steps
    rw [step_congr rfl hFirst]
    split
    · exact ih hRest
    · rfl

/-- A run with either script is the same run. -/
theorem run_congr {code : List Instruction}
    (hText : ∀ i ∈ code, i.span.text script' = i.span.text script) (s : Store) :
    run code script' s = run code script s := by
  unfold run
  rw [steps_congr hText]

/-- **The same instructions elsewhere do the same**, step by step, and fail elsewhere. -/
theorem steps_moved {code code' : List Instruction}
    (hCode : List.Forall₂ (Instruction.Moved R) code code')
    (hText : ∀ s s', R s s' → s'.text script' = s.text script) :
    (steps script' m code').2 = (steps script m code).2 ∧
      Outcomes R (PointedInCall script · m code) (steps script m code).1
        (steps script' m code').1 := by
  induction hCode generalizing m with
  | nil => exact ⟨rfl, .ok ()⟩
  | @cons i j code code' hFirst hRest ih =>
    obtain ⟨hKind, -, hSpan⟩ := hFirst
    -- the machine does not see where the instruction stands, so it comes to the same
    unfold steps
    rw [step_congr hKind (hText _ _ hSpan)]
    rcases hStep : m.step script i with ⟨e | ⟨⟩, n⟩
    · have hFailed : (m.step script i).1 = .error e := by rw [hStep]
      refine ⟨rfl, ?_⟩
      by_cases hNone : e.span = none
      · refine .moved (fun hOwn => ?_) (Failure.moved_orSpan hNone hSpan)
        -- before it was pointed at the instruction, the failure was another one
        cases hOwn with
        | here hCall hOther hRaised hSome =>
          rw [hFailed] at hOther
          exact hSome (Except.error.inj hOther ▸ hNone)
        | later hOther =>
          rw [hStep] at hOther
          cases hOther
      · obtain ⟨hCall, hRaised⟩ := (raises_of_step hFailed).resolve_left hNone
        dsimp only
        rw [Failure.orSpan_of_span hNone, Failure.orSpan_of_span hNone]
        exact .kept (.here hCall hFailed hRaised hNone)
    · obtain ⟨hSame, hOutcomes⟩ := ih (m := n)
      exact ⟨hSame, hOutcomes.congr fun _ => pointedInCall_cons_of_step hStep⟩

/-- A run fails with what a function has raised in it. -/
theorem PointedInCall.run {code : List Instruction} {s : Store}
    (h : PointedInCall script e { store := s } code) : (run code script s).1 = .error e := by
  have hSteps := h.steps
  unfold Machine.run
  generalize Machine.steps script { store := s } code = x at hSteps
  obtain ⟨answer, n⟩ := x
  obtain rfl : answer = .error e := hSteps
  rfl

/-- **The same code elsewhere gives the same**, and leaves the same store. -/
theorem run_moved {code code' : List Instruction} {s : Store}
    (hCode : List.Forall₂ (Instruction.Moved R) code code')
    (hText : ∀ s s', R s s' → s'.text script' = s.text script) :
    (run code' script' s).2 = (run code script s).2 ∧
      Outcomes R (PointedInCall script · { store := s } code) (run code script s).1
        (run code' script' s).1 := by
  obtain ⟨hSame, hAnswer⟩ := steps_moved (m := { store := s }) hCode hText
  -- what a call raises ends the sequence, so it is not raised at the end of the run
  have hOnly (e : Failure) (hOwn : PointedInCall script e { store := s } code) := hOwn.steps
  unfold run
  generalize steps script { store := s } code = x, steps script' { store := s } code' = y
    at hSame hAnswer hOnly
  obtain ⟨answer, m⟩ := x
  obtain ⟨answer', n⟩ := y
  obtain rfl : n = m := hSame
  cases hAnswer with
  | kept hOwn => exact ⟨rfl, .kept hOwn⟩
  | moved hOther hMoved => exact ⟨rfl, .moved hOther hMoved⟩
  | ok _ =>
    -- the machines are the same, so they finish in the same way
    dsimp only
    cases hEnd : n.finish with
    | mk answer k =>
      cases answer with
      | ok obj => exact ⟨rfl, .ok obj⟩
      | error e =>
        -- what a statement does not leave behind cannot be pointed at
        have hSpan : e.span = none := span_finish (by rw [hEnd])
        exact ⟨rfl, .moved (fun hOwn => nomatch hOnly e hOwn) (Failure.moved_of_span hSpan)⟩

end Machine

namespace Session

variable {c : Session} {p q : Program} {script script' : String} {s : Store}

/-- A program whose spans select the same texts is run in the same way with either script. -/
theorem runProgram_congr (hText : ∀ i ∈ p.code, i.span.text script' = i.span.text script) :
    runProgram p script' s = runProgram p script s := by
  unfold runProgram Program.run
  rw [Machine.run_congr hText]

/-- A program fails with what a function has raised in it. -/
theorem runProgram_of_pointedInCall
    (h : Machine.PointedInCall script e { store := s } p.code) :
    (runProgram p script s).1 = .error e := by
  have hRun := h.run
  unfold runProgram Program.run
  generalize Machine.run p.code script s = x at hRun
  obtain ⟨answer, t⟩ := x
  obtain rfl : answer = .error e := hRun
  rfl

/-- **The same program elsewhere gives the same**, and leaves the same store. -/
theorem runProgram_moved (hProgram : p.Moved R q)
    (hText : ∀ s s', R s s' → s'.text script' = s.text script) :
    (runProgram q script' s).2 = (runProgram p script s).2 ∧
      Outcomes R (Machine.PointedInCall script · { store := s } p.code)
        (runProgram p script s).1 (runProgram q script' s).1 := by
  obtain ⟨hSame, hAnswer⟩ := Machine.run_moved (s := s) hProgram.code hText
  -- what a call raises ends the run, so it is not raised when the result is retained
  have hOnly (e : Failure) (hOwn : Machine.PointedInCall script e { store := s } p.code) :=
    hOwn.run
  unfold runProgram Program.run
  generalize Machine.run p.code script s = x, Machine.run q.code script' s = y
    at hSame hAnswer hOnly
  obtain ⟨answer, t⟩ := x
  obtain ⟨answer', u⟩ := y
  obtain rfl : u = t := hSame
  cases hAnswer with
  | kept hOwn => exact ⟨rfl, .kept hOwn⟩
  | moved hOther hMoved => exact ⟨rfl, .moved hOther hMoved⟩
  | ok obj =>
    dsimp only
    cases hMade : u.materialize obj (u.request obj false) with
    | mk answer v =>
      cases answer with
      | ok handle => exact ⟨rfl, .ok handle⟩
      | error e =>
        -- the store has no room for the value, and does not know where that has happened
        exact ⟨rfl, .moved (fun hOwn => nomatch hOnly e hOwn)
          (Failure.moved_of_span (Store.plain_materialize hMade).span)⟩

/-- The program that waits comes to a call, and the function that is called raises the failure and
has pointed it somewhere. -/
def PointedInCall (c : Session) (e : Failure) : Prop :=
  ∃ p, c.program = some p ∧
    Machine.PointedInCall c.script e { store := c.storeWithoutResult } p.code

end Session

end Reckon
