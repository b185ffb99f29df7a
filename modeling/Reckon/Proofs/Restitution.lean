import Reckon.Proofs.Blindness
import Reckon.Proofs.Sessions

/-!
# What a run gives back

Any sequence of instructions can be run, whether the check has passed it or not. It may fail at any
instruction, with values on the stack, moved aside, staged, or in the hands of an operation. This
module says what of all that is left in the store when the run is over, its result has been given up
and the store has been swept (`Machine.leftBy`).

Nothing is left, but for one case. An operator for two operands takes the right one off the stack
before it looks for the left one, and when there is none the right one is dropped: nobody gives it
up (`Machine.dropped`). The run fails there, so this happens once at most (`Machine.droppedIn`), and
not at all in a sequence that the check has passed. What the operand counts on and owns stays in the
books as if somebody still had it (`Machine.balanced_leftBy`).

Main result: `Machine.settled_leftBy_iff`.
-/

namespace Reckon

open Program

namespace Store

/-- Everything in the store is in the store's own care: a literal is counted by the slots that point
at it and by nobody else, and every slot that is in use belongs to a name or to an element of an
array. -/
structure Settled (s : Store) : Prop where
  counted : ∀ l lit, s.literal? l = some lit → lit.refs = s.slotsOn l
  owned : ∀ id slot, s.slot? id = some slot → ∃ o, s.Owns id o

variable {s : Store} {handles : Multiset LiteralId} {loose : Multiset SlotId}

/-- **A store is settled when nothing is held outside.** -/
theorem Balanced.settled_iff (hs : s.Balanced handles loose) :
    s.Settled ↔ handles = 0 ∧ loose = 0 := by
  constructor
  · intro hSettled
    constructor
    · refine Multiset.eq_zero_of_forall_notMem fun l hl => ?_
      -- whoever holds a literal counts on it, once more than the slots do
      obtain ⟨lit, hLit⟩ := Option.isSome_iff_exists.1 (hs.backed l (Multiset.mem_add.2 (.inr hl)))
      have hCount := hs.counted l lit hLit
      rw [Multiset.count_add, count_pointed, ← hSettled.counted l lit hLit] at hCount
      have hHeld := Multiset.count_pos.2 hl
      omega
    · -- a slot that is owned from outside has no other owner
      refine Multiset.eq_zero_of_forall_notMem fun id hId => ?_
      obtain ⟨slot, hSlot⟩ := Option.isSome_iff_exists.1 (hs.slot?_isSome_iff.2 (.inr hId))
      obtain ⟨o, hOwns⟩ := hSettled.owned id slot hSlot
      exact hs.not_owns_of_loose hId hOwns
  · rintro ⟨rfl, rfl⟩
    refine ⟨fun l lit hl => ?_, fun id slot hSlot => (hs.existsUnique_owner hSlot).exists⟩
    rw [hs.counted l lit hl, add_zero, count_pointed]

end Store

namespace Machine

variable {m n : Machine} {rest : Multiset Object}

/-! ## The operand that is dropped -/

/-- The operand that an instruction drops: the only value on the stack, if the operator needs
two. -/
def dropped (m : Machine) (i : Instruction) : Option Object :=
  match i.kind, m.values with
  | .operator op, [obj] => if op.isBinary then some obj else none
  | _, _ => none

/-- The operand that is dropped where a run fails. -/
def droppedIn (script : String) : Machine → List Instruction → Option Object
  | _, [] => none
  | m, i :: is =>
    match m.step script i with
    | (.ok (), n) => droppedIn script n is
    | (.error _, _) => m.dropped i

/-- An operand is dropped when it is the only one and the operator needs two. -/
theorem dropped_eq_some_iff {i : Instruction} {obj : Object} :
    m.dropped i = some obj ↔
      m.values = [obj] ∧ ∃ op : Operator, i.kind = .operator op ∧ op.isBinary := by
  unfold dropped
  split
  · rename_i op found hKind hValues
    rw [hKind, hValues]
    by_cases hBinary : op.isBinary <;> simp [hBinary]
  · rename_i hOther
    refine ⟨by simp, ?_⟩
    rintro ⟨hValues, op, hKind, -⟩
    exact absurd hValues (hOther op obj hKind)

/-- Nothing is dropped where an operator for two operands does not find a single one. -/
theorem dropped_eq_none_iff {i : Instruction} :
    m.dropped i = none ↔
      ∀ op : Operator, i.kind = .operator op → op.isBinary → m.values.length ≠ 1 := by
  rw [Option.eq_none_iff_forall_ne_some]
  constructor
  · intro hNone op hKind hBinary hOne
    obtain ⟨obj, hValues⟩ := List.length_eq_one_iff.1 hOne
    exact hNone obj (dropped_eq_some_iff.2 ⟨hValues, op, hKind, hBinary⟩)
  · intro hOne obj hSome
    obtain ⟨hValues, op, hKind, hBinary⟩ := dropped_eq_some_iff.1 hSome
    exact hOne op hKind hBinary (by rw [hValues]; rfl)

/-- An operator for two operands fails when it finds one, which is off the stack by then. -/
theorem step_of_dropped {i : Instruction} {obj : Object} (h : m.dropped i = some obj)
    (script : String) : m.step script i = (.error malformed, { m with values := [] }) := by
  obtain ⟨hValues, op, hKind, hBinary⟩ := dropped_eq_some_iff.1 h
  -- an assignment, a compound one and any other operator look for the right operand first
  have hAssign : m.assign = (.error malformed, { m with values := [] }) := by
    simp only [Machine.assign, hValues]
  have hCompound (base : Operator) :
      m.compound base = (.error malformed, { m with values := [] }) := by
    simp only [Machine.compound, hValues]
  have hPlain : m.binary op = (.error malformed, { m with values := [] }) := by
    simp only [Machine.binary, hValues]
  unfold Machine.step
  rw [hKind]
  show m.perform op = _
  rw [perform_of_isBinary hBinary, hAssign, hPlain]
  split
  · rfl
  · split
    · exact hCompound _
    · rfl

/-! ## The books -/

/-- **A step keeps the books, with what it drops in nobody's hands.** -/
theorem Keeps.step_dropping (hm : m.Keeps rest) (hWithin : m.Within Function.AvoidsZero)
    (script : String) (i : Instruction) :
    (m.step script i).2.Keeps ((m.dropped i).toList + rest) := by
  rcases hDropped : m.dropped i with _ | obj
  · rw [Option.toList_none, Multiset.coe_nil, zero_add]
    exact hm.step hWithin (dropped_eq_none_iff.1 hDropped) script
  · rw [step_of_dropped hDropped, Option.toList_some, Multiset.coe_singleton,
      Multiset.singleton_add]
    exact hm.pop (dropped_eq_some_iff.1 hDropped).1

/-- **So does a run**, whatever is run. -/
theorem Keeps.steps_dropping (hm : m.Keeps rest) (hWithin : m.Within Function.AvoidsZero)
    (script : String) (code : List Instruction) :
    (Machine.steps script m code).2.Keeps ((droppedIn script m code).toList + rest) := by
  induction code generalizing m with
  | nil => simpa [droppedIn, Machine.steps] using hm
  | cons i code ih =>
    have hNext := hm.step_dropping hWithin script i
    have hNextWithin := hWithin.step Function.inherited_avoidsZero script i
    simp only [Machine.steps, droppedIn]
    -- the rest of the run is a run, unless this step has failed
    rcases hEq : m.step script i with ⟨e | ⟨⟩, n⟩
    · rw [hEq] at hNext
      exact hNext
    · -- what goes on has dropped nothing
      rw [hEq] at hNext hNextWithin
      have hNone : m.dropped i = none := by
        refine Option.eq_none_iff_forall_ne_some.2 fun obj hSome => ?_
        rw [step_of_dropped hSome] at hEq
        cases hEq
      rw [hNone, Option.toList_none, Multiset.coe_nil, zero_add] at hNext
      exact ih hNext hNextWithin

/-- Where a run does not end with a single value it still holds what it has not given up. -/
theorem Keeps.finish_error {e : Failure} (hm : m.Keeps rest) (hEq : m.finish = (.error e, n)) :
    n.Keeps rest := by
  unfold Machine.finish at hEq
  rcases hOuter : m.outer with _ | ⟨around, outer⟩
  · simp only [hOuter] at hEq
    -- what a spread has set aside outside all brackets has been given up
    have hAside : ({ m with moved := [], frame := { m.frame with staged := [] } } : Machine).Keeps
        ((m.frame.waiting ++ m.moved.reverse : List Object) + rest) := by
      have hHeld : m.held = ({ m with moved := [], frame := { m.frame with staged := [] } } :
          Machine).held + (m.frame.waiting ++ m.moved.reverse : List Object) := by
        simp only [held, hOuter, List.flatMap_nil, Multiset.coe_nil, add_zero, ← Multiset.coe_add,
          Multiset.coe_reverse]
        simp only [Frame.waiting, List.flatMap_nil, Multiset.coe_nil, add_zero]
        abel
      unfold Keeps at hm ⊢
      rw [hHeld, add_assoc] at hm
      exact hm
    split at hEq
    · cases hEq
    · cases hEq
      exact hAside.releaseAll
  · simp only [hOuter] at hEq
    cases hEq
    exact hm

/-- **Running any sequence keeps the books**, with what it drops in nobody's hands. -/
theorem keeps_run {s : Store} {rest : Multiset Object} (hs : s.Keeps rest)
    (hWithin : s.Within Function.AvoidsZero) (code : List Instruction) (script : String) :
    (run code script s).2.KeepsAnswer (run code script s).1
      ((droppedIn script { store := s } code).toList + rest) := by
  have hRun := (keeps_start hs).steps_dropping (within_start hWithin) script code
  unfold run
  rcases hSteps : steps script { store := s } code with ⟨e | ⟨⟩, m⟩
  · rw [hSteps] at hRun
    exact hRun.abandon
  · rw [hSteps] at hRun
    rcases hFinish : m.finish with ⟨e | obj, n⟩
    · simp only [hFinish]
      exact (hRun.finish_error hFinish).abandon
    · simp only [hFinish]
      exact (hRun.finish hFinish).1

/-! ## What is left -/

/-- What is left of a store when a sequence has been run against it: the result has been given up,
and the store has been swept. -/
def leftBy (code : List Instruction) (script : String) (s : Store) : Store :=
  match run code script s with
  | (.ok obj, t) => (t.release obj).sweep.2
  | (.error _, t) => t.sweep.2

/-- **What a run leaves behind is what it has dropped.** -/
theorem keeps_leftBy {s : Store} (hs : s.Keeps 0) (hWithin : s.Within Function.AvoidsZero)
    (code : List Instruction) (script : String) :
    (leftBy code script s).Keeps (droppedIn script { store := s } code).toList := by
  have hRun := keeps_run hs hWithin code script
  rw [add_zero] at hRun
  unfold leftBy
  rcases hEq : run code script s with ⟨e | obj, t⟩
  · rw [hEq] at hRun
    exact (Store.Keeps.sweep hRun).1
  · rw [hEq] at hRun
    exact (Store.Keeps.release hRun).sweep.1

/-- A sequence that the check has passed drops nothing. -/
theorem droppedIn_eq_none {h h' : Heights} {code : List Instruction} (hStep : m.InStep h)
    (hs : h.Sound) (script : String) (hPlay : h.play code = .ok h') :
    droppedIn script m code = none := by
  induction code generalizing m h with
  | nil => rfl
  | cons i code ih =>
    simp only [Heights.play] at hPlay
    split at hPlay
    · cases hPlay
    · rename_i mid hMid
      have hAnswers := hStep.step hs script hMid
      simp only [droppedIn]
      rcases hEq : m.step script i with ⟨e | ⟨⟩, n⟩
      · exact dropped_eq_none_iff.2 (hStep.length_ne_one hMid)
      · rw [hEq] at hAnswers
        exact ih hAnswers (hs.step hMid) hPlay

/-- **Every run gives back everything, but for an operand that stood alone.** Whatever the sequence
is and wherever the run fails, what is left is in the store's own care if and only if the operand
that an operator for two has dropped, if there is one, counts on nothing and owns nothing. A
sequence that the check has passed drops none.

Functions that give back a handle on number 0 are left out. There is no such slot, and an assignment
through the handle drops a value that names no slot without giving it up (`Function.AvoidsZero`), so
with them a run could lose more than the one operand. -/
theorem settled_leftBy_iff {s : Store} (hs : s.Balanced 0 0)
    (hWithin : s.Within Function.AvoidsZero) (code : List Instruction) (script : String) :
    ((leftBy code script s).Settled ↔ ∀ obj, droppedIn script { store := s } code = some obj →
      obj.counts = 0 ∧ obj.owns = 0) ∧
    ∀ p, Program.ofPostfix code = .ok p → droppedIn script { store := s } code = none := by
  -- what is held when all is over is what has been dropped
  have hLeft := (keeps_leftBy ⟨hs, by simp⟩ hWithin code script).balanced
  refine ⟨?_, fun p hp => ?_⟩
  · rw [hLeft.settled_iff]
    rcases droppedIn script { store := s } code with _ | obj <;> simp
  · obtain ⟨h, hPlay, -, -, -⟩ := exists_play_of_ofPostfix hp
    exact droppedIn_eq_none ⟨rfl, rfl, rfl⟩ Heights.sound_start script hPlay

/-- A store that knows one function. -/
def knowingOne : Store := ((Store.empty (.seeded 0)).define "n" (.function Builtin.slotNumber)).2

/-- The beginning of the sequence for `({1},{*{2,3},n})`, and then a spread of the function. By then
an array and two elements of another one are aside, and two brackets are open. -/
def spreadingFunction : List Instruction :=
  [⟨.operator (.opener .group), ⟨0, 1⟩, 0⟩, ⟨.operator (.opener .array), ⟨1, 2⟩, 1⟩,
    ⟨.number .decimal, ⟨2, 3⟩, 2⟩, ⟨.operator (.closer .array), ⟨3, 4⟩, 1⟩,
    ⟨.operator .comma, ⟨4, 5⟩, 1⟩, ⟨.operator (.opener .array), ⟨5, 6⟩, 1⟩,
    ⟨.operator (.opener .array), ⟨7, 8⟩, 2⟩, ⟨.number .decimal, ⟨8, 9⟩, 3⟩,
    ⟨.operator .comma, ⟨9, 10⟩, 3⟩, ⟨.number .decimal, ⟨10, 11⟩, 3⟩,
    ⟨.operator (.closer .array), ⟨11, 12⟩, 2⟩, ⟨.operator .spread, ⟨6, 7⟩, 2⟩,
    ⟨.operator .comma, ⟨12, 13⟩, 2⟩, ⟨.name, ⟨13, 14⟩, 2⟩, ⟨.operator .spread, ⟨6, 7⟩, 2⟩]

/-- The run fails, and gives back all of it. -/
theorem settled_spreadingFunction :
    ((run spreadingFunction "({1},{*{2,3},n})" knowingOne).1.map fun _ => ()) =
        .error { fault := TypeFault.nonExpandableObject, span := some ⟨6, 7⟩ } ∧
      (leftBy spreadingFunction "({1},{*{2,3},n})" knowingOne).Settled := by
  have hTame : Builtin.slotNumber.Tame :=
    Session.tame_builtin Builtin.slotNumber (List.mem_cons_self ..)
  have hKeeps : knowingOne.Keeps 0 :=
    (Store.keeps_empty (.seeded 0)).define ⟨rfl, rfl, by simp⟩ "n"
  have hFits : (Object.function Builtin.slotNumber).Within Function.AvoidsZero := hTame.avoidsZero
  have hWithin : knowingOne.Within Function.AvoidsZero :=
    (Store.within_empty (.seeded 0)).define hFits "n"
  have hNone : (droppedIn "({1},{*{2,3},n})" { store := knowingOne } spreadingFunction).isNone := by
    decide +kernel
  refine ⟨by decide +kernel,
    (settled_leftBy_iff hKeeps.balanced hWithin spreadingFunction "({1},{*{2,3},n})").1.2 ?_⟩
  intro obj hSome
  rw [hSome] at hNone
  cases hNone

/-- A sequence for `{1}+`: the array stands alone. -/
def addingToNothing : List Instruction :=
  [⟨.operator (.opener .array), ⟨0, 1⟩, 0⟩, ⟨.number .decimal, ⟨1, 2⟩, 1⟩,
    ⟨.operator (.closer .array), ⟨2, 3⟩, 0⟩, ⟨.operator .add, ⟨3, 4⟩, 0⟩]

/-- The slot of its element is nobody's when the run is over. -/
theorem not_settled_addingToNothing :
    (Store.empty (.seeded 0)).Balanced 0 0 ∧
      ¬ (leftBy addingToNothing "{1}+" (Store.empty (.seeded 0))).Settled := by
  refine ⟨Store.balanced_empty (.seeded 0), fun hSettled => ?_⟩
  have hLeft := (keeps_leftBy (Store.keeps_empty (.seeded 0)) (Store.within_empty (.seeded 0))
    addingToNothing "{1}+").balanced
  have hSlots : (droppedIn "{1}+" { store := Store.empty (.seeded 0) } addingToNothing).map
      Object.ownedSlots = some [1] := by decide +kernel
  obtain ⟨obj, hDropped, hArray⟩ := Option.map_eq_some_iff.1 hSlots
  rw [hDropped, Option.toList_some, Multiset.coe_singleton, Multiset.singleton_bind,
    Multiset.singleton_bind] at hLeft
  obtain ⟨-, hOwns⟩ := hLeft.settled_iff.1 hSettled
  rw [← obj.coe_ownedSlots, hArray] at hOwns
  exact Multiset.singleton_ne_zero 1 hOwns

end Machine

end Reckon
