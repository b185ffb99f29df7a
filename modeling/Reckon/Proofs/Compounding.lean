import Reckon.Proofs.Acceptance
import Reckon.Proofs.Changes
import Reckon.Proofs.Precedence
import Reckon.Proofs.Sessions
import Reckon.Proofs.Spreading
import Reckon.Proofs.Surroundings
import Reckon.Proofs.Work

/-!
# Compound assignments

`a op= (e)` and `a = a op (e)` are different programs. The first has one instruction for the
operator and the assignment. The second has one for each, and it mentions the name twice, so there
is one more handle on the stack while `e` runs. They do the same all the same, also where they fail.

On the store, to assign with an operator is to apply the operator and to assign what it gives
(`Store.infixed_compound`). `Machine.ComesTo` says what a part of a statement comes to on the store
when nothing but handles on slots lies below it. What a group comes to does not depend on these
(`Contents.Fits.comesTo_group`), and both statements are made of the name, the group and operators
(`comesTo_binary`). Main results: `Session.execute_compound` and, for texts,
`Session.evaluate_compound`.
-/

namespace Reckon

open Program Machine

/-! ## On the store -/

namespace Store

variable {s : Store}

/-- Operators give numbers, which name no slot. -/
theorem slot_of_combined {op : Operator} {lhs rhs value : Object}
    (h : s.combined op lhs rhs = .ok value) : value.slot = 0 := by
  unfold combined at h
  split at h
  · cases h
  · cases h
  · unfold asObject at h
    split at h <;> cases h
    rfl

/-- The operator of a compound assignment is no assignment itself. -/
theorem infixed_base {op base : Operator} (hBase : op.compoundBase = some base) (lhs rhs : Object) :
    s.infixed base lhs rhs = (s.combined base lhs rhs, (s.release lhs).release rhs) := by
  obtain ⟨-, hLevel⟩ := Operator.isBinary_of_compoundBase hBase
  have hNone : base.compoundBase = none := by
    cases base <;> first | rfl | exact absurd rfl hLevel
  have hPlain : base ≠ .assign := by
    rintro rfl
    exact hLevel rfl
  exact s.infixed_of_plain hPlain hNone lhs rhs

/-- **A compound assignment is the operator, and then the assignment.** -/
theorem infixed_compound {op base : Operator} (hBase : op.compoundBase = some base) {id : SlotId}
    (hId : 0 < id) (obj : Object) :
    s.infixed op (.writable id) obj =
      (s.infixed base (.writable id) obj).andThen fun value t =>
        t.infixed .assign (.writable id) value := by
  rw [s.infixed_of_compoundBase hBase, infixed_base hBase]
  unfold compoundAssignment
  cases hValue : s.combined base (.writable id) obj with
  | error e => rfl
  | ok value =>
    -- the result names no slot, least of all the one that is assigned to
    have hOther : value.slot ≠ id := by
      rw [slot_of_combined hValue]
      exact Nat.ne_of_lt hId
    exact (if_neg hOther).symm

end Store

/-! ## What a part of a statement comes to -/

namespace Machine

/-- A run has come to an answer above values: the object is on top of them, or the run has failed
with the same fault, and this is the store when all has been given up. -/
def ComesTo (q : Except Failure Unit × Machine) (r : Answer Object) (below : List Object) : Prop :=
  match r with
  | (.ok obj, t) => q = (.ok (), { store := t, values := obj :: below })
  | (.error e, t) => ∃ e', q.1 = .error e' ∧ e'.fault = e.fault ∧ q.2.abandon = t

variable {s : Store} {below : List Object} {script script' : String}

/-- With nothing but handles on slots in hand there is nothing to give up. -/
theorem abandon_of_isWritable (hBelow : ∀ obj ∈ below, obj.isWritable) (s : Store) :
    abandon { store := s, values := below } = s := by
  unfold abandon
  refine releaseAll_of_isWritable (fun obj hObj => ?_) s
  simp [frames] at hObj
  exact hBelow obj hObj

/-- A step that replies with an answer comes to that answer: what is below stays, or is given up. -/
theorem comesTo_replied (hBelow : ∀ obj ∈ below, obj.isWritable) (s : Store)
    (r : Answer Object) : ComesTo (replied { store := s, values := below } r) r below := by
  obtain ⟨answer, t⟩ := r
  cases answer with
  | ok obj => rfl
  | error e => exact ⟨e, rfl, rfl, abandon_of_isWritable hBelow t⟩

/-- One step that comes to something makes a run of that instruction that does. -/
theorem ComesTo.single {m : Machine} {i : Instruction} {r : Answer Object}
    (h : ComesTo (m.step script i) r below) : ComesTo (steps script m [i]) r below := by
  unfold steps
  obtain ⟨answer, t⟩ := r
  cases answer with
  | ok obj =>
    have hReached : m.step script i = (.ok (), { store := t, values := obj :: below }) := h
    rw [hReached]
    rfl
  | error e =>
    obtain ⟨e', hError, hFault, hStore⟩ := h
    generalize m.step script i = q at hError hStore
    obtain ⟨answer, n⟩ := q
    subst hError
    -- the run may add the place of the instruction, which does not change the fault
    exact ⟨e'.orSpan i.span, rfl, (Failure.orSpan_fault _ _).trans hFault, hStore⟩

/-- **Code that follows code.** What comes next starts out with the value that has come up. -/
theorem ComesTo.append {m : Machine} {pre post : List Instruction} {r : Answer Object}
    {next : Object → Store → Answer Object} {beneath : List Object}
    (hPre : ComesTo (steps script m pre) r beneath)
    (hPost : ∀ obj t, r = (.ok obj, t) →
      ComesTo (steps script { store := t, values := obj :: beneath } post) (next obj t) below) :
    ComesTo (steps script m (pre ++ post)) (r.andThen next) below := by
  obtain ⟨answer, t⟩ := r
  rw [steps_append]
  cases answer with
  | ok obj =>
    have hReached : steps script m pre = (.ok (), { store := t, values := obj :: beneath }) := hPre
    rw [hReached]
    exact hPost obj t rfl
  | error e =>
    obtain ⟨e', hError, hFault, hStore⟩ := hPre
    generalize steps script m pre = q at hError hStore
    obtain ⟨answer, n⟩ := q
    subst hError
    exact ⟨e', rfl, hFault, hStore⟩

/-- What stands between brackets runs above the opened bracket, and then the bracket closes. -/
theorem steps_encloseCode (m : Machine) (b : Bracket) (o k : Span) (depth : Nat)
    (code : List Instruction) :
    steps script m (encloseCode b o k depth code) =
      match steps script (m.opening b) code with
      | (.ok (), n) => steps script n [⟨.operator (.closer b), k, depth⟩]
      | (.error e, n) => (.error e, n) :=
  steps_append script (m.opening b) code _

/-- The same code elsewhere comes to the same. -/
theorem ComesTo.moved {R : Span → Span → Prop} {m : Machine} {code code' : List Instruction}
    {r : Answer Object} (h : ComesTo (steps script m code) r below)
    (hCode : List.Forall₂ (Instruction.Moved R) code code')
    (hText : ∀ place place', R place place' → place'.text script' = place.text script) :
    ComesTo (steps script' m code') r below := by
  obtain ⟨hSame, hOutcomes⟩ := steps_moved hCode hText
  generalize steps script m code = q, steps script' m code' = q' at h hSame hOutcomes
  obtain ⟨_, n⟩ := q
  obtain ⟨_, n'⟩ := q'
  obtain rfl : n' = n := hSame
  obtain ⟨_ | _, t⟩ := r
  · obtain ⟨e', hError, hFault, hStore⟩ := h
    cases hOutcomes with
    | ok => cases hError
    | kept =>
      cases hError
      exact ⟨e', rfl, hFault, hStore⟩
    | @moved _ e hOther hMoved =>
      -- what is moved with the code is told at another place, and is of the same kind
      cases hError
      exact ⟨e, rfl, hMoved.fault.trans hFault, hStore⟩
  · cases h
    cases hOutcomes
    rfl

end Machine

/-- What stands between brackets runs as it would as a statement of its own. -/
theorem Contents.Fits.steps_opening {e : Contents} (he : e.Fits) (script : String) (depth : Nat)
    (s : Store) (below : List Object) :
    steps script (opening { store := s, values := below } .group) (e.code depth) =
      answerAtop (steps script { store := s } (e.code depth)) ⟨below, [{}]⟩ := by
  obtain ⟨mid, hPlay⟩ : ∃ mid, Heights.play {} (e.code depth) = .ok mid := by
    cases e with
    | empty => exact ⟨{}, rfl⟩
    | list e =>
      have hFits : e.Fits := he
      obtain ⟨mid, hPlay, -⟩ := hFits.takes depth (h := {}) rfl
      exact ⟨mid, hPlay⟩
  -- the level that the bracket opens starts out as a machine without anything below does
  have hStart : InStep { store := s } {} := ⟨rfl, rfl, rfl⟩
  rw [← hStart.steps_atop Heights.sound_start script hPlay]
  simp only [opening, atop, Frame.raised, List.nil_append, Nat.zero_add, List.map_nil]

/-- **What a group comes to does not depend on what waits below it.** -/
theorem Contents.Fits.comesTo_group {e : Contents} (he : e.Fits) (script : String) (o k : Span)
    (depth : Nat) (s : Store) :
    ∃ r, ∀ below, (∀ obj ∈ below, obj.isWritable) →
      ComesTo (steps script { store := s, values := below } ((Expr.group o k e).code depth)) r
        below := by
  have hAtop := he.steps_opening script (depth + 1) s
  rcases hAlone : steps script { store := s } (e.code (depth + 1)) with ⟨err | _, n⟩
  · refine ⟨(.error err, n.abandon), fun below hBelow => ?_⟩
    have hIdle : Setting.Idle ⟨below, [{}]⟩ := ⟨hBelow, by simp⟩
    rw [Expr.code, steps_encloseCode, hAtop, hAlone]
    exact ⟨err, rfl, rfl, abandon_atop hIdle⟩
  · refine ⟨n.store.lastOf (n.leave {} []).1, fun below hBelow => ?_⟩
    have hInside := hAtop below
    rw [hAlone] at hInside
    obtain ⟨items, t, hOuter, hLeave⟩ := he.leaves script (depth + 1) hInside
    -- the values of the group and the store are what they are without anything below
    obtain rfl : (n.leave {} []).1 = items :=
      (congrArg Prod.fst (leave_atop (w := ⟨below, [{}]⟩) {} [])).symm.trans
        (congrArg Prod.fst hLeave)
    obtain rfl : n.store = t := congrArg (·.2.store) hLeave
    have hClosing := closing_of_leave hOuter hLeave .group
    rw [closingGroup_eq_replied] at hClosing
    rw [Expr.code, steps_encloseCode, hInside]
    refine ComesTo.single ?_
    show ComesTo (closing _ .group) _ _
    rw [hClosing]
    exact comesTo_replied hBelow n.store _

/-! ## A name, an operator and an operand -/

/-- What an operator comes to between a name and an operand. -/
def Operator.onName (op : Operator) (script : String) (a : Span) (operand : Store → Answer Object)
    (s : Store) : Answer Object :=
  ((Expr.name a).eval script s).andThen fun lhs t =>
    (operand t).andThen fun rhs u => u.infixed op lhs rhs

/-- A name comes to a handle on its slot. -/
theorem isWritable_of_eval_name {script : String} {a : Span} {s t : Store} {obj : Object}
    (h : (Expr.name a).eval script s = (.ok obj, t)) : obj.isWritable := by
  rw [Expr.eval] at h
  obtain ⟨id, u, -, hObj⟩ := Answer.andThen_eq_ok h
  cases hObj
  rfl

/-- A name, an operand and the operator run to what they come to on the store, provided that the
operand does so on top of the name. -/
theorem comesTo_binary {script : String} (op : BinaryOperator) (place a : Span) {r : Expr}
    {operand : Store → Answer Object} {below : List Object}
    (hBelow : ∀ obj ∈ below, obj.isWritable)
    (hOperand : ∀ obj t, obj.isWritable →
      ComesTo (steps script { store := t, values := obj :: below } (r.code 0)) (operand t)
        (obj :: below)) (s : Store) :
    ComesTo (steps script { store := s, values := below }
      ((Expr.binary op place (.name a) r).code 0)) (op.1.onName script a operand s) below := by
  rw [Expr.code, List.append_assoc]
  have hName : ComesTo (steps script { store := s, values := below } ((Expr.name a).code 0))
      ((Expr.name a).eval script s) below := by
    refine ComesTo.single ?_
    rw [name_eq_replied]
    exact comesTo_replied hBelow s _
  refine hName.append fun lhs t hLhs => ?_
  refine (hOperand lhs t (isWritable_of_eval_name hLhs)).append fun rhs u _ => ComesTo.single ?_
  show ComesTo (perform ((gaining { store := u, values := below } _ u).gaining rhs u) op.1) _ _
  rw [perform_eq_replied _ u op.2]
  exact comesTo_replied hBelow u _

/-- **The name is read and written.** A compound assignment to a name comes to what assigning the
operator's result comes to: the slot of the name is the same both times, and what it holds is looked
up behind the operand. -/
theorem onName_compound {op base : Operator} (hBase : op.compoundBase = some base)
    {script script' : String} {a a₁ a₂ : Span} (ha₁ : a₁.text script' = a.text script)
    (ha₂ : a₂.text script' = a.text script) (operand : Store → Answer Object) {s : Store}
    {rest : Multiset Object} (hs : s.Keeps rest) :
    op.onName script a operand s =
      Operator.assign.onName script' a₁ (base.onName script' a₂ operand) s := by
  have hPositive := (hs.intern (a.text script)).2
  have hFound (id : SlotId) (h : (s.intern (a.text script)).1 = .ok id) :=
    hs.balanced.lookup_of_intern h
  unfold Operator.onName
  simp only [Expr.eval, ha₁, ha₂]
  generalize s.intern (a.text script) = answer at hPositive hFound
  obtain ⟨_ | id, t⟩ := answer
  · rfl
  · -- the name is in use by now, so to mention it again changes nothing
    have hAgain : t.intern (a.text script) = (.ok id, t) := by
      have hLookup : t.lookup (a.text script) = some id := hFound id rfl
      unfold Store.intern
      rw [hLookup]
    simp only [Answer.andThen, hAgain]
    cases operand t with
    | mk answer u =>
      cases answer with
      | error e => rfl
      | ok obj => exact Store.infixed_compound hBase (hPositive id rfl) obj

/-! ## Programs -/

/-- Both give the same, or both fail with the same fault, and they leave the same store. -/
inductive Answer.Agrees {α : Type} : Answer α → Answer α → Prop
  | refl (r : Answer α) : Agrees r r
  | error {e e' : Failure} (h : e'.fault = e.fault) (t : Store) :
      Agrees (.error e, t) (.error e', t)

/-- Agreement goes on from one answer to the next. -/
theorem Answer.Agrees.trans {α : Type} {r r' r'' : Answer α} (h : r.Agrees r')
    (h' : r'.Agrees r'') : r.Agrees r'' := by
  cases h with
  | refl => exact h'
  | error hFault t =>
    cases h' with
    | refl => exact .error hFault t
    | error hFault' => exact .error (hFault'.trans hFault) t

/-- Agreement goes both ways. -/
theorem Answer.Agrees.symm {α : Type} {r r' : Answer α} (h : r.Agrees r') : r'.Agrees r := by
  cases h with
  | refl => exact .refl r
  | error hFault t => exact .error hFault.symm t

/-- A statement gives what its code comes to with nothing below. -/
theorem Machine.ComesTo.run {code : List Instruction} {script : String} {s : Store}
    {r : Answer Object} (h : ComesTo (steps script { store := s } code) r []) :
    r.Agrees (run code script s) := by
  unfold Machine.run
  generalize steps script { store := s } code = q at h
  obtain ⟨answer, n⟩ := q
  obtain ⟨e | obj, t⟩ := r
  · obtain ⟨e', hError, hFault, rfl⟩ := h
    cases hError
    exact .error hFault _
  · cases h
    exact .refl _

/-- An expression that fits together is a program, once its tokens are written out. -/
theorem Expr.Fits.exists_ofTokens {e : Expr} (h : e.Fits) :
    ∃ p, Program.ofTokens e.tokens = .ok p ∧ p.code = e.code 0 := by
  obtain ⟨p, hp, hCode⟩ := h.exists_ofPostfix
  refine ⟨p, ?_, hCode⟩
  unfold Program.ofTokens
  rw [Postfix.ofTokens_of_fits h]
  exact hp

/-- The tokens of an operator between a name and an operand. -/
def Operator.tokensOnName (op : Operator) (a place : Span) (operand : List Token) : List Token :=
  ⟨.identifier, a⟩ :: ⟨.operator op, place⟩ :: operand

/-- The same tokens with the same words, in two scripts. -/
def SameWords (script script' : String) : List Token → List Token → Prop :=
  List.Forall₂ (Token.Moved fun place place' => place'.text script' = place.text script)

instance (script script' : String) (ts us : List Token) :
    Decidable (SameWords script script' ts us) :=
  have : DecidableRel (Token.Moved fun place place' => place'.text script' = place.text script) :=
    fun t u => inferInstanceAs
      (Decidable (u.kind = t.kind ∧ u.span.text script' = t.span.text script))
  inferInstanceAs (Decidable (List.Forall₂ _ ts us))

/-- Expressions with the same words have the same code, each with its own places. -/
theorem SameWords.code {script script' : String} {e e' : Expr} (he : e.Fits) (he' : e'.Fits)
    (h : SameWords script script' e.tokens e'.tokens) :
    List.Forall₂ (Instruction.Moved fun place place' => place'.text script' = place.text script)
      (e.code 0) (e'.code 0) := by
  have hMoved := Postfix.ofTokens_moved h
  rw [Postfix.ofTokens_of_fits he, Postfix.ofTokens_of_fits he'] at hMoved
  cases hMoved with
  | ok hCode => exact hCode

/-- An operator between a name and an operand that binds tightly enough fits together. -/
theorem Expr.fits_onName (op : BinaryOperator) (place a : Span) {r : Expr} (hr : r.Fits)
    (hLevel : r.level ≤ op.1.rightBound) : (Expr.binary op place (.name a) r).Fits := by
  have hBounds := op.bounds
  exact ⟨⟨by simp only [Expr.level]; omega, trivial⟩, hLevel, hr⟩

/-- The ten operators that are written together with an assignment are in the machine's own table,
each with the operator that it applies. -/
theorem Operator.compoundBase_of_mem {op base : Operator}
    (hPair : (op, base) ∈ [(Operator.divAssign, Operator.div), (.mulAssign, .mul),
      (.modAssign, .mod), (.addAssign, .add), (.subAssign, .sub), (.shlAssign, .shl),
      (.shrAssign, .shr), (.andAssign, .bitAnd), (.xorAssign, .bitXor), (.orAssign, .bitOr)]) :
    op.compoundBase = some base := by
  simp only [List.mem_cons, Prod.mk.injEq, List.not_mem_nil, or_false] at hPair
  rcases hPair with ⟨rfl, rfl⟩ | ⟨rfl, rfl⟩ | ⟨rfl, rfl⟩ | ⟨rfl, rfl⟩ | ⟨rfl, rfl⟩ | ⟨rfl, rfl⟩ |
    ⟨rfl, rfl⟩ | ⟨rfl, rfl⟩ | ⟨rfl, rfl⟩ | ⟨rfl, rfl⟩ <;> rfl

variable {op base : Operator} {e e' : Contents}
  {a place o k a₁ place₁ a₂ place₂ o' k' : Span}

/-- **`a op= (e)` and `a = a op (e)` are programs that agree.** -/
theorem exists_agrees_run {script script' : String} (hBase : op.compoundBase = some base)
    (he : e.Fits) (he' : e'.Fits)
    (ha₁ : a₁.text script' = a.text script) (ha₂ : a₂.text script' = a.text script)
    (hWords : SameWords script script' (Expr.group o k e).tokens (Expr.group o' k' e').tokens)
    {s : Store} {rest : Multiset Object} (hs : s.Keeps rest) :
    ∃ p q,
      Program.ofTokens (op.tokensOnName a place (Expr.group o k e).tokens) = .ok p ∧
      Program.ofTokens (Operator.assign.tokensOnName a₁ place₁
        (base.tokensOnName a₂ place₂ (Expr.group o' k' e').tokens)) = .ok q ∧
      Answer.Agrees (p.run script s) (q.run script' s) := by
  have hOp := Operator.isBinary_of_compound hBase
  obtain ⟨hBinary, -⟩ := Operator.isBinary_of_compoundBase hBase
  have hFits : (Expr.group o k e).Fits := he
  have hFits' : (Expr.group o' k' e').Fits := he'
  -- the operand binds tightly enough for any operator, and the operator for the assignment
  have hCompound := Expr.fits_onName ⟨op, hOp⟩ place a hFits
    (one_le_two.trans (BinaryOperator.bounds _).2.1)
  have hInner := Expr.fits_onName ⟨base, hBinary⟩ place₂ a₂ hFits'
    (one_le_two.trans (BinaryOperator.bounds _).2.1)
  have hOuter := Expr.fits_onName ⟨.assign, rfl⟩ place₁ a₁ hInner
    (BinaryOperator.priority_bounds ⟨base, hBinary⟩).2
  obtain ⟨p, hp, hpCode⟩ := hCompound.exists_ofTokens
  obtain ⟨q, hq, hqCode⟩ := hOuter.exists_ofTokens
  refine ⟨p, q, hp, hq, ?_⟩
  -- the operand comes to the same at both places, above one handle and above two
  choose operand hOperand using fun t => he.comesTo_group script o k 0 t
  have hOperand' (t : Store) (below : List Object) (hBelow : ∀ obj ∈ below, obj.isWritable) :
      ComesTo (steps script' { store := t, values := below } ((Expr.group o' k' e').code 0))
        (operand t) below :=
    (hOperand t below hBelow).moved (hWords.code hFits hFits') fun _ _ h => h
  have hNone : ∀ obj ∈ ([] : List Object), obj.isWritable := by simp
  have hLeft := comesTo_binary ⟨op, hOp⟩ place a hNone
    (fun obj t hObj => hOperand t [obj] (by simpa using hObj)) s
  have hRight := comesTo_binary ⟨.assign, rfl⟩ place₁ a₁ hNone (fun target t hTarget =>
    have hOne : ∀ obj ∈ [target], obj.isWritable := by simpa using hTarget
    comesTo_binary ⟨base, hBinary⟩ place₂ a₂ hOne
      (fun obj u hObj => hOperand' u [obj, target] (by simp [hObj, hTarget])) t) s
  -- what the two come to is the same by what the operators do on the store
  rw [onName_compound hBase ha₁ ha₂ operand hs, ← hpCode] at hLeft
  rw [← hqCode] at hRight
  exact hLeft.run.symm.trans hRight.run

namespace Session

variable {c d : Session} {s : Store}

/-- Runs that agree leave results that agree. -/
theorem agrees_runProgram {p q : Program} {script script' : String}
    (h : Answer.Agrees (p.run script s) (q.run script' s)) :
    Answer.Agrees (runProgram p script s) (runProgram q script' s) := by
  unfold runProgram
  generalize p.run script s = x, q.run script' s = y at h
  cases h with
  | refl => exact .refl _
  | error hFault t => exact .error hFault _

/-- The session after the statement that has been read is compiled. -/
theorem execute_of_unbuilt {ts : List Token} {p : Program} (hPhase : c.phase = .unbuilt)
    (hTokens : c.tokens = ts) (hp : Program.ofTokens ts = .ok p) :
    c.compile.1 = .ok () ∧
      c.compile.2.execute = settle { c with tokens := [], program := some p, phase := .waiting }
        (runProgram p c.script c.storeWithoutResult).1
        (runProgram p c.script c.storeWithoutResult).2 := by
  subst hTokens
  have hBuilt : c.compile =
      (.ok (), { c with tokens := [], program := some p, phase := .waiting }) := by
    unfold compile
    rw [if_pos hPhase, hp]
  rw [hBuilt]
  exact ⟨rfl, execute_of_waiting rfl rfl⟩

/-- **A compound assignment reads, works out and assigns.** Let one session have read `a op= (e)`,
and another one with the same store and the same result `a = a op (e)`, where `op=` is one of the
ten operators that are written together with an assignment. Both statements are programs. They give
the same value in the same store, or fail with the same fault and leave the same store. The
expression `e` may fail, spread arrays, call functions and assign to `a` itself. -/
theorem execute_compound (hc : c.Reachable) (hStore : d.store = c.store)
    (hResult : d.result = c.result)
    (hPair : (op, base) ∈ [(Operator.divAssign, Operator.div), (.mulAssign, .mul),
      (.modAssign, .mod), (.addAssign, .add), (.subAssign, .sub), (.shlAssign, .shl),
      (.shrAssign, .shr), (.andAssign, .bitAnd), (.xorAssign, .bitXor), (.orAssign, .bitOr)])
    (he : e.Fits) (he' : e'.Fits) (hPhase : c.phase = .unbuilt) (hPhase' : d.phase = .unbuilt)
    (hTokens : c.tokens = op.tokensOnName a place (Expr.group o k e).tokens)
    (hTokens' : d.tokens = Operator.assign.tokensOnName a₁ place₁
      (base.tokensOnName a₂ place₂ (Expr.group o' k' e').tokens))
    (ha₁ : a₁.text d.script = a.text c.script) (ha₂ : a₂.text d.script = a.text c.script)
    (hWords : SameWords c.script d.script (Expr.group o k e).tokens (Expr.group o' k' e').tokens) :
    c.compile.1 = .ok () ∧ d.compile.1 = .ok () ∧
      Answer.Agrees (c.compile.2.execute.1, c.compile.2.execute.2.store)
        (d.compile.2.execute.1, d.compile.2.execute.2.store) ∧
      d.compile.2.execute.2.value = c.compile.2.execute.2.value := by
  have hBase := Operator.compoundBase_of_mem hPair
  obtain ⟨p, q, hp, hq, hAgrees⟩ :=
    exists_agrees_run hBase he he' ha₁ ha₂ hWords hc.kept.storeWithoutResult.1
  obtain ⟨hBuilt, hRan⟩ := execute_of_unbuilt hPhase hTokens hp
  obtain ⟨hBuilt', hRan'⟩ := execute_of_unbuilt hPhase' hTokens' hq
  refine ⟨hBuilt, hBuilt', ?_⟩
  -- both give up the same result before they run
  have hWithout : d.storeWithoutResult = c.storeWithoutResult := by
    unfold storeWithoutResult
    rw [hStore, hResult]
  rw [hRan, hRan', hWithout]
  have hBoth := agrees_runProgram hAgrees
  generalize runProgram p c.script c.storeWithoutResult = x,
    runProgram q d.script c.storeWithoutResult = y at hBoth
  cases hBoth with
  | refl =>
    obtain ⟨_ | obj, t⟩ := x
    · exact ⟨.refl _, rfl⟩
    · exact ⟨.refl _, rfl⟩
  | error hFault t => exact ⟨.error hFault t, rfl⟩

/-- A session that knows `n` as 2 and has read a statement. -/
def reading (statement : String) : Session :=
  (((bare {} (.seeded 0)).load "n = 2").forward.2.compile.2.execute.2.load statement).forward.2

/-- The session has come about by operations. -/
theorem reachable_reading (statement : String) : (reading statement).Reachable := by
  have hAssigned := ((((Reachable.bare {} (.seeded 0)).apply (.load "n = 2") trivial).apply .forward
    trivial).apply .compile trivial).apply .execute trivial
  exact (hAssigned.apply (.load statement) trivial).apply .forward trivial

/-- The operand `(n = 3)`, which stands behind so many characters. -/
def assigningThree (start : Nat) : Expr :=
  .group ⟨start, start + 1⟩ ⟨start + 6, start + 7⟩
    (.list (.binary ⟨.assign, rfl⟩ ⟨start + 3, start + 4⟩ (.name ⟨start + 1, start + 2⟩)
      (.number .decimal ⟨start + 5, start + 6⟩)))

/-- The operand is an assignment between parentheses, and those hold anything together. -/
theorem fits_assigningThree (start : Nat) : (assigningThree start).Fits :=
  Expr.fits_onName ⟨.assign, rfl⟩ ⟨start + 3, start + 4⟩ ⟨start + 1, start + 2⟩
    (r := .number .decimal ⟨start + 5, start + 6⟩) trivial
    (one_le_two.trans (BinaryOperator.bounds _).2.1)

/-- The operand assigns to the name that stands in front of it, in the one statement and in the
other. -/
theorem execute_shiftingItself :
    let c := reading "n <<= (n = 3)"
    let d := reading "n = n << (n = 3)"
    (c.Reachable ∧ d.store = c.store ∧ d.result = c.result) ∧
      ((assigningThree 6).Fits ∧ (assigningThree 9).Fits ∧
        SameWords c.script d.script (assigningThree 6).tokens (assigningThree 9).tokens) ∧
      (c.phase = .unbuilt ∧ c.tokens =
        Operator.shlAssign.tokensOnName ⟨0, 1⟩ ⟨2, 5⟩ (assigningThree 6).tokens) ∧
      (d.phase = .unbuilt ∧ d.tokens = Operator.assign.tokensOnName ⟨0, 1⟩ ⟨2, 3⟩
        (Operator.shl.tokensOnName ⟨4, 5⟩ ⟨6, 8⟩ (assigningThree 9).tokens)) ∧
      c.compile.1 = .ok () ∧ d.compile.1 = .ok () ∧
      Answer.Agrees (c.compile.2.execute.1, c.compile.2.execute.2.store)
        (d.compile.2.execute.1, d.compile.2.execute.2.store) ∧
      d.compile.2.execute.2.value = c.compile.2.execute.2.value := by
  intro c d
  have hKept (statement : String) : (reading statement).store = (reading "").store ∧
      (reading statement).result = (reading "").result := by
    unfold reading
    simp only [forward_unchanged, load_unchanged, and_self]
  have hStore : d.store = c.store := (hKept _).1.trans (hKept _).1.symm
  have hResult : d.result = c.result := (hKept _).2.trans (hKept _).2.symm
  have hRead : c.phase = .unbuilt ∧ c.tokens =
      Operator.shlAssign.tokensOnName ⟨0, 1⟩ ⟨2, 5⟩ (assigningThree 6).tokens := by
    decide +kernel
  have hRead' : d.phase = .unbuilt ∧ d.tokens = Operator.assign.tokensOnName ⟨0, 1⟩ ⟨2, 3⟩
      (Operator.shl.tokensOnName ⟨4, 5⟩ ⟨6, 8⟩ (assigningThree 9).tokens) := by
    decide +kernel
  have hWords : SameWords c.script d.script (assigningThree 6).tokens
      (assigningThree 9).tokens := by
    decide +kernel
  have hBoth := execute_compound (reachable_reading _) hStore hResult (by decide)
    (fits_assigningThree 6) (fits_assigningThree 9) hRead.1 hRead'.1 hRead.2 hRead'.2
    (by decide +kernel) (by decide +kernel) hWords
  exact ⟨⟨reachable_reading _, hStore, hResult⟩,
    ⟨fits_assigningThree 6, fits_assigningThree 9, hWords⟩, hRead, hRead', hBoth⟩

/-- **The same for texts.** A session that evaluates one of the statements comes to what it comes to
with the other one. -/
theorem evaluate_compound {text text' : String} (hc : c.Reachable) (hComplete : c.complete = true)
    (hPair : (op, base) ∈ [(Operator.divAssign, Operator.div), (.mulAssign, .mul),
      (.modAssign, .mod), (.addAssign, .add), (.subAssign, .sub), (.shlAssign, .shl),
      (.shrAssign, .shr), (.andAssign, .bitAnd), (.xorAssign, .bitXor), (.orAssign, .bitOr)])
    (he : e.Fits) (he' : e'.Fits)
    (hWork : workOf c.options text = [.ok (op.tokensOnName a place (Expr.group o k e).tokens)])
    (hWork' : workOf c.options text' = [.ok (Operator.assign.tokensOnName a₁ place₁
      (base.tokensOnName a₂ place₂ (Expr.group o' k' e').tokens))])
    (ha₁ : a₁.text text' = a.text text) (ha₂ : a₂.text text' = a.text text)
    (hWords : SameWords text text' (Expr.group o k e).tokens (Expr.group o' k' e').tokens) :
    Answer.Agrees ((c.evaluate text).1, (c.evaluate text).2.store)
        ((c.evaluate text').1, (c.evaluate text').2.store) ∧
      (c.evaluate text').2.result = (c.evaluate text).2.result := by
  have hBase := Operator.compoundBase_of_mem hPair
  obtain ⟨p, q, hp, hq, hAgrees⟩ :=
    exists_agrees_run hBase he he' ha₁ ha₂ hWords hc.kept.storeWithoutResult.1
  have hBoth : Answer.Agrees (runProgram p text (without c.store c.result))
    (runProgram q text' (without c.store c.result)) := agrees_runProgram hAgrees
  have hLeft := doWork_eq_evaluate hComplete text
  have hRight := doWork_eq_evaluate hComplete text'
  rw [hWork, doWork, hp] at hLeft
  rw [hWork', doWork, hq] at hRight
  -- the statement is all the work there is
  dsimp only [doWork] at hLeft hRight
  generalize runProgram p text (without c.store c.result) = x,
    runProgram q text' (without c.store c.result) = y at hBoth hLeft hRight
  cases hBoth with
  | refl =>
    have hSame := hLeft.symm.trans hRight
    simp only [Prod.mk.injEq] at hSame
    rw [hSame.1, hSame.2.1, hSame.2.2]
    exact ⟨.refl _, rfl⟩
  | error hFault t =>
    simp only [Prod.mk.injEq] at hLeft hRight
    rw [← hLeft.1, ← hLeft.2.1, ← hLeft.2.2, ← hRight.1, ← hRight.2.1, ← hRight.2.2]
    exact ⟨.error hFault t, rfl⟩

end Session

end Reckon
