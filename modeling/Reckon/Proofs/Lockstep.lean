import Reckon.Proofs.Execution
import Reckon.Proofs.Faults
import Reckon.Proofs.Heights

/-!
# The check and the machine in lock step

A program that passed the check is run by a machine that never finds its stack too low. Step by step
the stack is as high as the check found it, and as many brackets are open and begin at the same
heights (`Machine.InStep`), whatever the values are. The checks that the machine makes for itself
therefore never fail, and the room that the check has measured is enough and is used up.

A called function may raise any fault, also one of those by which the machine reports a statement
that is not well formed. `Failure.Excused` and `Machine.CallRaises` set these apart.
-/

namespace Reckon

open Program

variable {P : Failure → Prop}

namespace Machine

/-! ## Machine and heights -/

/-- The machine stands where the check stands: the stack is as high, and as many levels are open and
begin at the same heights. -/
structure InStep (m : Machine) (h : Heights) : Prop where
  height : m.values.length = h.height
  base : m.frame.base = h.level.base
  outer : m.outer.map (·.base) = h.outer.map (·.base)

/-- Where a step may lead when the check finds the heights `h` behind it: to these heights, or to a
failure that is no fault of the statement's form, without rising anywhere. -/
def Answers (P : Failure → Prop) (m : Machine) (h : Heights)
    (r : Except Failure Unit × Machine) : Prop :=
  match r.1 with
  | .ok () => r.2.InStep h
  | .error e =>
    e.Excused P ∧ r.2.values.length ≤ m.values.length ∧ r.2.outer.length ≤ m.outer.length

variable {m n : Machine} {h : Heights}

/-- A result is put on a stack that is one lower, or does not come. -/
theorem answers_pushResult {answer : Except Failure Object} (hn : (n.push .nil).InStep h)
    (hValues : n.values.length ≤ m.values.length) (hOuter : n.outer.length ≤ m.outer.length)
    (hError : ∀ e, answer = .error e → e.Excused P) : Answers P m h (n.pushResult answer) := by
  cases answer with
  | ok obj => exact ⟨hn.height, hn.base, hn.outer⟩
  | error e => exact ⟨hError e rfl, hValues, hOuter⟩

/-- What a wider property excuses is excused. -/
theorem Answers.of_imp {Q : Failure → Prop} {r : Except Failure Unit × Machine}
    (hAnswers : Answers P m h r) (hQ : ∀ e, P e → Q e) : Answers Q m h r := by
  unfold Answers at hAnswers ⊢
  split at hAnswers
  · exact hAnswers
  · exact ⟨fun hStructural => hQ _ (hAnswers.1 hStructural), hAnswers.2⟩

/-- A failure that is not structural, on a stack that has not risen. -/
theorem answers_error {e : Failure} (hFault : e.fault.isStructural = false)
    (hValues : n.values.length ≤ m.values.length) (hOuter : n.outer.length ≤ m.outer.length) :
    Answers P m h (.error e, n) := ⟨.of_eq_false hFault, hValues, hOuter⟩

/-- Arithmetic fails for no structural reason, if its own faults are none. -/
theorem excused_arithmeticResult {answer : Except Fault Number} {e : Failure}
    (hFault : ∀ f, answer = .error f → f.isStructural = false)
    (h : arithmeticResult answer = .error e) : e.Excused P := by
  cases answer with
  | ok n => cases h
  | error f =>
    cases h
    exact .of_eq_false (hFault f rfl)

/-- What is no number is no structural fault. -/
theorem excused_numberOf {obj : Object} {e : Failure} (h : m.numberOf obj = .error e) :
    e.Excused P := by
  unfold numberOf at h
  split at h <;> cases h
  exact .of_eq_false rfl

/-- An operator for two that is no assignment fails for no structural reason. -/
theorem excused_applied {op : Operator} {lhs rhs : Object} {e : Failure} (hOp : op.isBinary)
    (hAssign : op.priority ≠ 14) (h : m.applied op lhs rhs = .error e) : e.Excused P := by
  unfold applied at h
  -- the left operand is no number, or the right one, or the arithmetic fails
  split at h
  · rename_i hLhs
    cases h
    exact excused_numberOf hLhs
  · rename_i hRhs
    cases h
    exact excused_numberOf hRhs
  · exact excused_arithmeticResult (fun f hf => Number.isStructural_binary hOp hAssign hf) h

/-! ### Operators -/

/-- Two values that the check has counted are there, and what is below them is lower by two. -/
theorem InStep.exists_two (hm : m.InStep h) (hValues : 2 ≤ h.height) :
    ∃ top below values, m.values = top :: below :: values ∧
      values.length + 1 = h.height - 1 ∧ values.length ≤ m.values.length := by
  have hHeight := hm.height
  cases hTop : m.values with
  | nil => simp only [hTop, List.length_nil] at hHeight; omega
  | cons top rest =>
    cases rest with
    | nil => simp only [hTop, List.length_singleton] at hHeight; omega
    | cons below values =>
      simp only [hTop, List.length_cons] at hHeight ⊢
      exact ⟨top, below, values, rfl, by omega, by omega⟩

/-- A value that the check has counted is there. -/
theorem InStep.exists_one (hm : m.InStep h) (hValue : 0 < h.height) :
    ∃ top values, m.values = top :: values ∧
      values.length + 1 = h.height ∧ values.length ≤ m.values.length := by
  have hHeight := hm.height
  cases hTop : m.values with
  | nil => simp only [hTop, List.length_nil] at hHeight; omega
  | cons top values =>
    simp only [hTop, List.length_cons] at hHeight ⊢
    exact ⟨top, values, rfl, hHeight, by omega⟩

/-- A prefix operator other than a spread answers with one value in the place of one. -/
theorem answers_unary {op : Operator} (hm : m.InStep h) (hOp : op.isPrefix)
    (hSpread : op ≠ .spread) (hValue : 0 < h.height) : Answers P m h (m.unary op) := by
  obtain ⟨obj, values, hTop, hHeight, hLow⟩ := hm.exists_one hValue
  unfold unary
  simp only [hTop]
  refine answers_pushResult ⟨hHeight, hm.base, hm.outer⟩ hLow (Nat.le_refl _) ?_
  intro e he
  split at he
  · exact excused_arithmeticResult (fun f hf => Number.isStructural_unary hOp hSpread hf) he
  · rename_i hNumber
    cases he
    exact excused_numberOf hNumber

/-- An operator for two answers with one value in the place of two. -/
theorem answers_binary {op : Operator} (hm : m.InStep h) (hOp : op.isBinary)
    (hAssign : op.priority ≠ 14) (hValue : 2 ≤ h.height) :
    Answers P m { h with height := h.height - 1 } (m.binary op) := by
  obtain ⟨rhs, lhs, values, hTop, hHeight, hLow⟩ := hm.exists_two hValue
  unfold binary
  simp only [hTop]
  exact answers_pushResult ⟨hHeight, hm.base, hm.outer⟩ hLow (Nat.le_refl _)
    fun e he => excused_applied hOp hAssign he

/-- Binding a slot answers with a handle on it. -/
theorem answers_assignSlot {id : SlotId} {obj : Object} (hn : (n.push .nil).InStep h)
    (hValues : n.values.length ≤ m.values.length) (hOuter : n.outer.length ≤ m.outer.length) :
    Answers P m h (n.assignSlot id obj) := by
  unfold assignSlot
  cases hBind : n.store.bind id obj with
  | mk answer s =>
    cases answer with
    | ok _ => exact ⟨hn.height, hn.base, hn.outer⟩
    | error e => exact answers_error (Store.plain_bind hBind).structural hValues hOuter

/-- An assignment answers with one value in the place of two, or fails because its target is no
slot. -/
theorem answers_assign (hm : m.InStep h) (hValue : 2 ≤ h.height) :
    Answers P m { h with height := h.height - 1 } m.assign := by
  obtain ⟨rhs, lhs, values, hTop, hHeight, hLow⟩ := hm.exists_two hValue
  have hPush (obj : Object) :
      ({ m with values }.push obj).InStep { h with height := h.height - 1 } :=
    ⟨hHeight, hm.base, hm.outer⟩
  unfold assign
  simp only [hTop]
  cases lhs with
  | writable id =>
    dsimp only
    split
    · exact hPush _
    · exact answers_assignSlot (hPush .nil) hLow (Nat.le_refl _)
  -- anything but a handle on a slot cannot be assigned to, which is no structural fault
  | _ => exact answers_error rfl hLow (Nat.le_refl _)

/-- A compound assignment answers with one value in the place of two. -/
theorem answers_compound {base : Operator} (hm : m.InStep h) (hBinary : base.isBinary)
    (hAssign : base.priority ≠ 14) (hValue : 2 ≤ h.height) :
    Answers P m { h with height := h.height - 1 } (m.compound base) := by
  obtain ⟨rhs, lhs, values, hTop, hHeight, hLow⟩ := hm.exists_two hValue
  unfold compound
  simp only [hTop]
  cases hResult : m.applied base lhs rhs with
  | error e => exact ⟨excused_applied hBinary hAssign hResult, hLow, Nat.le_refl _⟩
  | ok value =>
    cases lhs with
    | writable id => exact answers_assignSlot ⟨hHeight, hm.base, hm.outer⟩ hLow (Nat.le_refl _)
    | _ => exact answers_error rfl hLow (Nat.le_refl _)

/-! ### Lists -/

/-- How many values of the present level the machine has on its stack. -/
theorem InStep.pending_eq (hm : m.InStep h) : m.pending = h.height - h.level.base := by
  rw [pending, hm.height, hm.base]

/-- A comma answers by taking a value off the stack. -/
theorem answers_comma (hm : m.InStep h) (hValue : h.level.base < h.height) {h' : Heights}
    (hHeight : h'.height = h.height - 1) (hBase : h'.level.base = h.level.base)
    (hOuter : h'.outer = h.outer) : Answers P m h' m.comma := by
  have hLength := hm.height
  unfold comma
  cases hLevel : (m.values.take m.pending).reverse with
  | nil =>
    -- a level with a value above its base has a value pending
    have hNone := congrArg List.length hLevel
    rw [List.length_reverse, List.length_take, hm.pending_eq, List.length_nil] at hNone
    omega
  | cons oldest newer =>
    have hTaken := congrArg List.length hLevel
    rw [List.length_reverse, List.length_take, hm.pending_eq, List.length_cons] at hTaken
    refine ⟨?_, by rw [hBase]; exact hm.base, by rw [hOuter]; exact hm.outer⟩
    rw [hHeight]
    simp only [List.length_append, List.length_reverse, List.length_drop, hm.pending_eq]
    omega

/-- A spread answers with one value in the place of one, whatever it sets aside. -/
theorem answers_spread (hm : m.InStep h) (hValue : 0 < h.height) : Answers P m h m.spread := by
  obtain ⟨obj, values, hTop, hHeight, hLow⟩ := hm.exists_one hValue
  unfold spread
  simp only [hTop]
  -- what is spread may be no array or an empty one, neither of which is structural
  split
  · exact answers_error rfl hLow (Nat.le_refl _)
  · rename_i slots writable _
    split
    · exact answers_error rfl hLow (Nat.le_refl _)
    · rename_i last others _
      obtain ⟨hValues, hBase, hOuter⟩ := setAside_values
        { m with
          values
          store := (elements m.store writable [] slots).2.release obj } others
      refine ⟨?_, ?_, ?_⟩
      · simp only [push, hValues, List.length_cons]
        exact hHeight
      · simp only [push, hBase]
        exact hm.base
      · simp only [push, hOuter]
        exact hm.outer

/-! ### Brackets -/

/-- The level around a level that the check closes is there for the machine too. -/
theorem InStep.exists_outer (hm : m.InStep h) {level : Level} {outer : List Level}
    (hOuter : h.outer = level :: outer) :
    ∃ around frames, m.outer = around :: frames ∧ around.base = level.base ∧
      frames.map (·.base) = outer.map (·.base) := by
  have hBases := hm.outer
  rw [hOuter, List.map_cons, List.map_eq_cons_iff] at hBases
  obtain ⟨around, frames, hEq, hBase, hRest⟩ := hBases
  exact ⟨around, frames, hEq, hBase, hRest⟩

/-- Behind a level, the machine stands where the check does. -/
theorem InStep.leave (hm : m.InStep h) (hs : h.Sound) {level : Level} {outer : List Level}
    {around : Frame} {frames : List Frame} (hBase : around.base = level.base)
    (hRest : frames.map (·.base) = outer.map (·.base)) :
    (m.leave around frames).2.InStep (h.below level outer) := by
  have hHeight := hm.height
  have hLe := hs.base_le
  refine ⟨?_, hBase, hRest⟩
  simp only [Machine.leave, Heights.below, List.length_drop, hm.pending_eq]
  omega

/-- A level with a value on the stack hands over a value. -/
theorem InStep.leave_ne_nil (hm : m.InStep h) (hValue : h.level.base < h.height) (around : Frame)
    (frames : List Frame) : (m.leave around frames).1 ≠ [] := by
  have hHeight := hm.height
  intro hNil
  have hLength := congrArg List.length hNil
  simp only [Machine.leave, List.length_append, List.length_reverse, List.length_take,
    hm.pending_eq, List.length_nil] at hLength
  omega

/-- A group answers with one value. -/
theorem answers_closingGroup {items : List Object} (hn : n.InStep h) :
    Answers P m h.push (n.closingGroup items) := by
  have hHeight := hn.height
  unfold closingGroup
  split
  · exact ⟨by simp [push, Heights.push, hHeight], hn.base, hn.outer⟩
  · exact ⟨by simp [push, releaseAll, Heights.push, hHeight], hn.base, hn.outer⟩

/-- An array answers with one value, or there is no slot for an item. -/
theorem answers_closingArray {items : List Object} (hn : n.InStep h)
    (hValues : n.values.length ≤ m.values.length) (hOuter : n.outer.length ≤ m.outer.length) :
    Answers P m h.push (n.closingArray items) := by
  unfold closingArray
  cases hSlots : slotsFor n.store [] items with
  | mk answer s =>
    refine answers_pushResult ⟨?_, hn.base, hn.outer⟩ hValues hOuter ?_
    · simp [push, Heights.push, hn.height]
    · intro e he
      cases answer with
      | ok slots => cases he
      | error e' =>
        cases he
        exact .of_eq_false (plain_slotsFor hSlots).structural

/-- Indexing fails for no structural reason. -/
theorem excused_indexing {target index : Object} {e : Failure} {t : Machine}
    (hEq : n.indexing target index = (.error e, t)) : e.Excused P := by
  unfold indexing at hEq
  split at hEq
  · rename_i hIndex
    cases hEq
    -- the index is negative or no integer, or there is no array, or no such element
    unfold indexOf at hIndex
    split at hIndex
    · split at hIndex <;> cases hIndex
      exact .of_eq_false rfl
    · cases hIndex
      exact .of_eq_false rfl
  · split at hEq
    · cases hEq
      exact .of_eq_false rfl
    · split at hEq <;> cases hEq
      exact .of_eq_false rfl

/-- A call fails by itself for no structural reason: such a fault was raised by the function. -/
theorem excused_calling {callee : Object} {args : List Object} {e : Failure} {t : Machine}
    (hP : ∀ f sample, n.store.payload? callee = some (.function f) →
      f.body sample (args.map n.store.argument) = .error e → P e)
    (hEq : n.calling callee args = (.error e, t)) : e.Excused P := by
  unfold calling at hEq
  split at hEq
  · -- there is a function to call, and it fails or refuses the number of arguments
    rename_i f hf
    unfold Store.call at hEq
    generalize n.store.entropy.next = draw at hEq
    simp only [Prod.mk.injEq] at hEq
    obtain ⟨hAnswer, -⟩ := hEq
    unfold Function.call at hAnswer
    split at hAnswer
    · cases hBody : f.body draw.1 (args.map n.store.argument) with
      | ok reply => simp [hBody, Except.map] at hAnswer
      | error e' =>
        simp only [hBody, Except.map, Except.error.injEq] at hAnswer
        subst hAnswer
        exact fun _ => hP f _ hf hBody
    · simp only [Except.map, Except.error.injEq] at hAnswer
      subst hAnswer
      exact .of_eq_false rfl
  · cases hEq
    exact .of_eq_false rfl

/-- An index answers with an element in the place of the array. -/
theorem answers_closingIndex {items : List Object} (hn : n.InStep h) (hItems : items ≠ [])
    (hTarget : 0 < h.height) (hValues : n.values.length ≤ m.values.length)
    (hOuter : n.outer.length ≤ m.outer.length) : Answers P m h (n.closingIndex items) := by
  obtain ⟨target, values, hTop, hHeight, hLow⟩ := hn.exists_one hTarget
  unfold closingIndex
  split
  · rename_i hNil
    exact absurd (List.reverse_eq_nil_iff.1 hNil) hItems
  · rename_i index others _
    -- the array is still there behind the items, since the level has begun above it
    simp only [releaseAll, hTop]
    cases hIndexing : indexing { n with store := n.store.releaseAll others.reverse, values }
        target index with
    | mk answer t =>
      have hEq := indexing_eq { n with store := n.store.releaseAll others.reverse, values }
        target index
      rw [hIndexing] at hEq
      dsimp only at hEq ⊢
      rw [hEq]
      refine answers_pushResult ⟨hHeight, hn.base, hn.outer⟩ (Nat.le_trans hLow hValues) hOuter ?_
      intro e he
      subst he
      exact excused_indexing hIndexing

/-- A call answers with a result in the place of the function, or fails as the function has. -/
theorem answers_closingCall {items : List Object} (hn : n.InStep h)
    (hP : ∀ callee values f sample e, n.values = callee :: values →
      n.store.payload? callee = some (.function f) →
      f.body sample (items.map n.store.argument) = .error e → P e)
    (hTarget : 0 < h.height) (hValues : n.values.length ≤ m.values.length)
    (hOuter : n.outer.length ≤ m.outer.length) : Answers P m h (n.closingCall items) := by
  obtain ⟨callee, values, hTop, hHeight, hLow⟩ := hn.exists_one hTarget
  unfold closingCall
  simp only [hTop]
  cases hCalling : calling { n with values } callee items with
  | mk answer t =>
    have hEq := calling_eq { n with values } callee items
    rw [hCalling] at hEq
    dsimp only at hEq ⊢
    rw [hEq]
    refine answers_pushResult ⟨hHeight, hn.base, hn.outer⟩ (Nat.le_trans hLow hValues) hOuter ?_
    intro e he
    subst he
    exact excused_calling (n := { n with values })
      (fun f sample => hP callee values f sample e hTop) hCalling

/-- A group and an array answer with one value more than the level began at. -/
theorem answers_closingValue {b : Bracket} {level : Level} {outer : List Level} (hm : m.InStep h)
    (hs : h.Sound) (hOuter : h.outer = level :: outer) (hb : b = .group ∨ b = .array) :
    Answers P m (h.below level outer).push (m.closing b) := by
  obtain ⟨around, frames, hAround, hBase, hRest⟩ := hm.exists_outer hOuter
  have hn := hm.leave hs hBase hRest
  unfold closing
  simp only [hAround]
  rcases hb with rfl | rfl
  · exact answers_closingGroup hn
  · exact answers_closingArray hn (by simp [Machine.leave]) (by simp [Machine.leave, hAround])

/-- The call that closing the present level makes raises the failure: the value in front of the
level is a function, and given the values of the level it fails. -/
def CallRaises (m : Machine) (e : Failure) : Prop :=
  ∃ around outer callee values f sample,
    m.outer = around :: outer ∧ (m.leave around outer).2.values = callee :: values ∧
      m.store.payload? callee = some (.function f) ∧
      f.body sample ((m.leave around outer).1.map m.store.argument) = .error e

/-- An index and a call answer with as many values as the level began at. -/
theorem answers_closingTarget {b : Bracket} {level : Level} {outer : List Level} (hm : m.InStep h)
    (hs : h.Sound) (hOuter : h.outer = level :: outer) (hb : b = .index ∨ b = .call)
    (hTarget : 0 < h.level.base) (hIndex : b = .index → h.level.base < h.height) :
    Answers (fun e => b = .call ∧ m.CallRaises e) m (h.below level outer) (m.closing b) := by
  obtain ⟨around, frames, hAround, hBase, hRest⟩ := hm.exists_outer hOuter
  have hn := hm.leave hs hBase hRest
  have hLow : (m.leave around frames).2.values.length ≤ m.values.length := by
    simp [Machine.leave]
  have hFewer : (m.leave around frames).2.outer.length ≤ m.outer.length := by
    simp [Machine.leave, hAround]
  unfold closing
  simp only [hAround]
  rcases hb with rfl | rfl
  · -- the check has seen a value between the brackets
    exact answers_closingIndex hn (hm.leave_ne_nil (hIndex rfl) around frames) hTarget hLow hFewer
  · refine answers_closingCall hn ?_ hTarget hLow hFewer
    intro callee values f sample e hTop hFunction hBody
    exact ⟨rfl, around, frames, callee, values, f, sample, hAround, hTop, hFunction, hBody⟩

/-! ### Steps -/

/-- Every operator for two answers with one value in the place of two. -/
theorem answers_binary_operator {op : Operator} (hm : m.InStep h) (hOp : op.isBinary)
    (hValues : 2 ≤ h.height) :
    Answers P m { h with height := h.height - 1 } (m.perform op) := by
  rw [perform_of_isBinary hOp]
  split
  · exact answers_assign hm hValues
  · rename_i hAssign
    -- with a base it is a compound assignment, and otherwise it gives a result
    cases hBase : op.compoundBase with
    | some base =>
      obtain ⟨hBinary, hLevel⟩ := Operator.isBinary_of_compoundBase hBase
      exact answers_compound hm hBinary hLevel hValues
    | none =>
      have hLevel : op.priority ≠ 14 := by
        intro hLevel
        exact Operator.compoundBase_ne_none hLevel hAssign hBase
      exact answers_binary hm hOp hLevel hValues

/-- **One step.** Where the check goes on to the heights `h'`, the machine goes on to a state that
stands at them, or fails for no structural reason of its own. -/
theorem InStep.step {h' : Heights} {i : Instruction} (hm : m.InStep h) (hs : h.Sound)
    (script : String) (hStep : h.step i = .ok h') :
    Answers (fun e => i.kind = .operator (.closer .call) ∧ m.CallRaises e) m h'
      (m.step script i) := by
  have hStepped := Heights.stepped hStep
  have hLe := hs.base_le
  have hPush (obj : Object) : (m.push obj).InStep h.push :=
    ⟨by simp [push, Heights.push, hm.height], hm.base, hm.outer⟩
  unfold Machine.step
  generalize i.kind = kind at hStepped
  cases hStepped with
  | number numeral =>
    exact answers_pushResult (hPush .nil) (Nat.le_refl _) (Nat.le_refl _)
      fun e he => excused_arithmeticResult (fun f hf => Number.isStructural_ofLiteral hf) he
  | name =>
    dsimp only
    split
    · exact ⟨(hPush .nil).height, hm.base, hm.outer⟩
    · -- a new name finds no slot
      rename_i hIntern
      exact answers_error (Store.plain_intern hIntern).structural (Nat.le_refl _) (Nat.le_refl _)
  | opening b =>
    -- both new levels begin at the present height
    refine ⟨hm.height, hm.height, ?_⟩
    show (m.frame :: m.outer).map (·.base) = (h.level :: h.outer).map (·.base)
    rw [List.map_cons, List.map_cons, hm.base, hm.outer]
  | closingValue hOuter hb => exact answers_closingValue hm hs hOuter hb
  | closingTarget hOuter hb hTarget hIndex =>
    have hAnswers := answers_closingTarget hm hs hOuter hb hTarget hIndex
    exact hAnswers.of_imp fun e he => by rw [he.1]; exact ⟨rfl, he.2⟩
  | comma hValue => exact answers_comma hm hValue rfl rfl rfl
  | semicolon => exact hm
  -- a prefix operator is a spread or changes a number
  | prefixed hOp hValue =>
    dsimp only
    rw [perform_of_isPrefix hOp]
    split
    · -- a spread puts one value in the place of one
      exact answers_spread hm (by omega)
    · rename_i hSpread
      exact answers_unary hm hOp hSpread (by omega)
  | binary hOp hValues => exact answers_binary_operator hm hOp (by omega)

/-! ## Values moved aside -/

/-- Without spreads a machine has moved aside as many values as the check has, level by level, and
nothing is staged. -/
structure Counting (m : Machine) (h : Heights) : Prop where
  moved : m.moved.length = h.moved
  accepted : m.frame.accepted = h.level.moved
  staged : m.frame.staged = []
  outer : m.outer.map (fun f => (f.accepted, f.staged.length)) = h.outer.map fun l => (l.moved, 0)

theorem counting_start (s : Store) : Counting { store := s } {} := ⟨rfl, rfl, rfl, rfl⟩

/-- What leaves the lists alone leaves as much moved aside. -/
theorem Counting.of_lists {h' : Heights} (hm : m.Counting h) (hLists : n.lists = m.lists)
    (hMoved : h'.moved = h.moved) (hLevel : h'.level = h.level) (hOuter : h'.outer = h.outer) :
    n.Counting h' := by
  simp only [lists, Prod.mk.injEq] at hLists
  obtain ⟨hAside, hFrame, hFrames⟩ := hLists
  exact ⟨by rw [hAside, hMoved, hm.moved], by rw [hFrame, hLevel, hm.accepted],
    by rw [hFrame, hm.staged], by rw [hFrames, hOuter, hm.outer]⟩

/-- Behind a level as many values have been moved aside as before it. -/
theorem Counting.leave (hm : m.Counting h) {level : Level} {outer : List Level} {around : Frame}
    {frames : List Frame} (hAround : m.outer = around :: frames)
    (hOuter : h.outer = level :: outer) :
    (m.leave around frames).2.Counting (h.below level outer) := by
  have hLevels := hm.outer
  -- nothing was staged, so the level takes what it has moved aside and no more
  rw [hAround, hOuter, List.map_cons, List.map_cons, List.cons.injEq, Prod.mk.injEq] at hLevels
  refine ⟨?_, hLevels.1.1, List.eq_nil_of_length_eq_zero hLevels.1.2, hLevels.2⟩
  simp only [Machine.leave, Heights.below, hm.staged, List.flatMap_nil, List.reverse_nil,
    List.nil_append, List.length_drop, hm.moved, hm.accepted]

/-- **One step without spreads.** Whether it fails or not, as many values have been moved aside
behind it as the check has found. -/
theorem Counting.step {h' : Heights} {i : Instruction} (hc : m.Counting h) (hm : m.InStep h)
    (hSpread : i.kind ≠ .operator .spread) (script : String) (hStep : h.step i = .ok h') :
    (m.step script i).2.Counting h' := by
  have hStepped := Heights.stepped hStep
  unfold Machine.step
  generalize i.kind = kind at hStepped hSpread
  cases hStepped with
  | number numeral => exact hc.of_lists (lists_pushResult _ _) rfl rfl rfl
  | name =>
    dsimp only
    split <;> exact hc.of_lists rfl rfl rfl rfl
  | opening b =>
    refine ⟨hc.moved, rfl, rfl, ?_⟩
    show (m.frame :: m.outer).map _ = (h.level :: h.outer).map _
    rw [List.map_cons, List.map_cons, hc.accepted, hc.staged, hc.outer]
    rfl
  | closingValue hOuter hb =>
    obtain ⟨around, frames, hAround, -, -⟩ := hm.exists_outer hOuter
    exact (hc.leave hAround hOuter).of_lists (lists_closing _ hAround) rfl rfl rfl
  | closingTarget hOuter hb hTarget hIndex =>
    obtain ⟨around, frames, hAround, -, -⟩ := hm.exists_outer hOuter
    exact (hc.leave hAround hOuter).of_lists (lists_closing _ hAround) rfl rfl rfl
  | comma hValue =>
    have hLength := hm.height
    show m.comma.2.Counting _
    unfold Machine.comma
    cases hLevel : (m.values.take m.pending).reverse with
    | nil =>
      -- the check has seen a value of this level
      have hNone := congrArg List.length hLevel
      rw [List.length_reverse, List.length_take, hm.pending_eq, List.length_nil] at hNone
      omega
    | cons oldest newer =>
      -- nothing is staged, so the comma moves the oldest value and nothing else
      simp only [hc.staged, countDown, List.filter_nil, List.flatMap_nil, List.reverse_nil,
        List.nil_append, List.map_nil]
      exact ⟨by rw [List.length_cons, hc.moved], by rw [hc.accepted], rfl, hc.outer⟩
  | semicolon => exact hc
  | prefixed hOp hValue =>
    dsimp only
    rw [perform_of_isPrefix hOp, if_neg fun hEq => hSpread (by rw [hEq])]
    exact hc.of_lists (lists_unary _ _) rfl rfl rfl
  | binary hOp hValues =>
    dsimp only
    rw [perform_of_isBinary hOp]
    -- whichever operation it is, it leaves the lists alone
    split
    · exact hc.of_lists (lists_assign _) rfl rfl rfl
    · split
      · exact hc.of_lists (lists_compound _ _) rfl rfl rfl
      · exact hc.of_lists (lists_binary _ _) rfl rfl rfl

/-! ## Runs -/

/-- The stacks are no higher than the check has found them anywhere yet. -/
structure Fits (quiet : Prop) (m : Machine) (h : Heights) : Prop where
  values : m.values.length ≤ h.maxHeight
  outer : m.outer.length ≤ h.maxOpen
  moved : quiet → m.moved.length ≤ h.maxMoved

/-- What a run preserves. The values moved aside are compared only where there is no spread. -/
structure Follows (quiet : Prop) (m : Machine) (h : Heights) : Prop where
  inStep : m.InStep h
  peaked : h.Peaked
  counting : quiet → m.Counting h

variable {quiet : Prop}

theorem follows_start (quiet : Prop) (s : Store) : Follows quiet { store := s } {} :=
  ⟨⟨rfl, rfl, rfl⟩, Heights.peaked_start, fun _ => counting_start s⟩

theorem InStep.length_outer (hm : m.InStep h) : m.outer.length = h.outer.length := by
  simpa using congrArg List.length hm.outer

/-- A machine that is in step fits the room that has been measured so far. -/
theorem Follows.fits (hm : m.Follows quiet h) : m.Fits quiet h where
  values := by
    rw [hm.inStep.height]
    exact hm.peaked.height_le
  outer := by
    rw [hm.inStep.length_outer]
    exact hm.peaked.outer_le
  moved hQuiet := by
    rw [(hm.counting hQuiet).moved]
    exact hm.peaked.moved_le

/-- The room that has been measured never shrinks. -/
theorem Fits.of_play {h' : Heights} {code : List Instruction} (hm : m.Fits quiet h)
    (hPeaked : h.Peaked) (hPlay : h.play code = .ok h') : m.Fits quiet h' where
  values := hm.values.trans (Heights.peak_height.le_of_play hPeaked.sound hPeaked.height_le hPlay).2
  outer := hm.outer.trans (Heights.peak_open.le_of_play hPeaked.sound hPeaked.outer_le hPlay).2
  moved hQuiet :=
    (hm.moved hQuiet).trans (Heights.peak_moved.le_of_play hPeaked.sound hPeaked.moved_le hPlay).2

/-- A function that closing the level in front of the instruction calls has raised the failure,
which points at the instruction if it pointed nowhere. -/
def RaisedAt (m : Machine) (i : Instruction) (e : Failure) : Prop :=
  i.kind = .operator (.closer .call) ∧ ∃ e', m.CallRaises e' ∧ e = e'.orSpan i.span

/-- One step preserves `Follows` or fails within the same room. -/
theorem Follows.step {h' : Heights} {i : Instruction} (hm : m.Follows quiet h)
    (hSpread : quiet → i.kind ≠ .operator .spread) (script : String) (hStep : h.step i = .ok h') :
    match m.step script i with
    | (.ok (), m') => m'.Follows quiet h'
    | (.error e, m') => (e.orSpan i.span).Excused (m.RaisedAt i) ∧ m'.Fits quiet h' := by
  have hSound := hm.peaked.sound
  have hAnswers := hm.inStep.step hSound script hStep
  have hCounting : quiet → (m.step script i).2.Counting h' := fun hQuiet =>
    (hm.counting hQuiet).step hm.inStep (hSpread hQuiet) script hStep
  have hPeaked := hm.peaked.step hStep
  generalize m.step script i = r at hAnswers hCounting
  obtain ⟨answer, m'⟩ := r
  cases answer with
  | ok _ =>
    exact ⟨hAnswers, hPeaked, hCounting⟩
  | error e =>
    -- a failure leaves the stacks no higher than they were, which the maxima behind it allow
    obtain ⟨hExcused, hValues, hOuter⟩ := hAnswers
    have hFits := hm.fits.of_play hm.peaked (Heights.play_singleton hStep)
    refine ⟨?_, hValues.trans ?_, hOuter.trans ?_, ?_⟩
    · intro hStructural
      rw [Failure.orSpan_fault] at hStructural
      obtain ⟨hCall, hRaises⟩ := hExcused hStructural
      exact ⟨hCall, e, hRaises, rfl⟩
    · exact hFits.values
    · exact hFits.outer
    · intro hQuiet
      rw [(hCounting hQuiet).moved]
      exact hPeaked.moved_le

/-- **A run keeps in step with the check.** Where the check plays the sequence through, the machine
ends at the heights that it finds, or an instruction fails, for no structural reason of the
machine's own. -/
theorem Follows.steps {h' : Heights} {code : List Instruction} (hm : m.Follows quiet h)
    (hSpread : quiet → ∀ i ∈ code, i.kind ≠ .operator .spread) (script : String)
    (hPlay : h.play code = .ok h') :
    match Machine.steps script m code with
    | (.ok (), m') => m'.Follows quiet h'
    | (.error e, m') => m'.Fits quiet h' ∧ e.Excused fun e => ∃ pre i post n,
        code = pre ++ i :: post ∧ Machine.steps script m pre = (.ok (), n) ∧ n.RaisedAt i e := by
  -- induction on the code, with the machine and the heights left open
  induction code generalizing m h with
  | nil =>
    cases hPlay
    exact hm
  | cons i code ih =>
    simp only [Heights.play] at hPlay
    split at hPlay
    · simp at hPlay
    · rename_i mid hStep
      have hNext := hm.step (fun hQuiet => hSpread hQuiet i (List.mem_cons_self ..)) script hStep
      unfold Machine.steps
      cases hEq : m.step script i with
      | mk answer n =>
        rw [hEq] at hNext
        cases answer with
        | error e =>
          -- the instruction in front fails
          refine ⟨hNext.2.of_play (hm.peaked.step hStep) hPlay, fun hStructural => ?_⟩
          exact ⟨[], i, code, m, rfl, rfl, hNext.1 hStructural⟩
        | ok _ =>
          have hRest := ih hNext
            (fun hQuiet j hj => hSpread hQuiet j (List.mem_cons_of_mem _ hj)) hPlay
          dsimp only
          generalize Machine.steps script n code = r at hRest
          obtain ⟨answer, m'⟩ := r
          cases answer with
          | ok _ => exact hRest
          | error e =>
            -- a later one does, and the part in front of it grows by one instruction
            refine ⟨hRest.1, fun hStructural => ?_⟩
            obtain ⟨pre, j, post, k, hCode, hPre, hRaised⟩ := hRest.2 hStructural
            refine ⟨i :: pre, j, post, k, by rw [hCode]; rfl, ?_, hRaised⟩
            simp only [hEq]
            exact hPre

/-- A machine that stands at one value outside all brackets can finish. -/
theorem InStep.finish (hm : m.InStep h) (hHeight : h.height = 1) (hOuter : h.outer = []) :
    ∃ obj, m.finish.1 = .ok obj := by
  have hNone : m.outer = [] := by
    have hBases := hm.outer
    rw [hOuter, List.map_nil] at hBases
    exact List.map_eq_nil_iff.1 hBases
  obtain ⟨obj, hValues⟩ := List.length_eq_one_iff.1 (hm.height.trans hHeight)
  refine ⟨obj, ?_⟩
  unfold Machine.finish
  simp only [hNone, releaseAll, hValues]

end Machine

namespace Program

open Machine

/-- What a run has come to somewhere in a sequence that plays through. -/
theorem follows_of_prefix (quiet : Prop) {code pre : List Instruction} {h : Heights}
    (hPlay : Heights.play {} code = .ok h) (hPre : pre <+: code)
    (hSpread : quiet → ∀ i ∈ code, i.kind ≠ .operator .spread) (script : String) (s : Store) :
    ∃ mid, Heights.play {} pre = .ok mid ∧
      match steps script { store := s } pre with
      | (.ok (), m) => m.Follows quiet mid ∧ m.Fits quiet h
      | (.error _, m) => m.Fits quiet h := by
  -- the rest of the sequence plays through as well, so its maxima bound those of the first part
  obtain ⟨post, rfl⟩ := hPre
  obtain ⟨mid, hMid, hPost⟩ := Heights.play_append_eq_ok_iff.1 hPlay
  have hPeaked := Heights.peaked_start.play hMid
  have hSteps := (follows_start quiet s).steps
    (fun hQuiet i hi => hSpread hQuiet i (List.mem_append_left _ hi)) script hMid
  refine ⟨mid, hMid, ?_⟩
  generalize steps script { store := s } pre = r at hSteps
  obtain ⟨answer, m⟩ := r
  cases answer with
  | ok _ => exact ⟨hSteps, hSteps.fits.of_play hPeaked hPost⟩
  | error e => exact hSteps.1.of_play hPeaked hPost

/-- A run that succeeds performs every instruction. -/
theorem exists_steps_of_run {p : Program} {script : String} {s t : Store} {obj : Object}
    (hRun : p.run script s = (.ok obj, t)) :
    ∃ m, steps script { store := s } p.code = (.ok (), m) := by
  unfold Program.run Machine.run at hRun
  split at hRun
  · simp at hRun
  · rename_i m hSteps
    exact ⟨m, hSteps⟩

/-- On a run that succeeds the machine reaches the greatest height that the check has found. -/
theorem exists_prefix_of_peak (quiet : Prop) {now top : Heights → Nat}
    (hPeak : Heights.Peak now top) (hStart : now {} = 0 ∧ top {} = 0) {code : List Instruction}
    {h : Heights} (hPlay : Heights.play {} code = .ok h)
    (hSpread : quiet → ∀ i ∈ code, i.kind ≠ .operator .spread) {script : String} {s : Store}
    {last : Machine} (hSteps : steps script { store := s } code = (.ok (), last)) :
    ∃ pre m mid, pre <+: code ∧ steps script { store := s } pre = (.ok (), m) ∧
      m.Follows quiet mid ∧ now mid = top h := by
  -- the heights have a place where the maximum is reached, and the machine gets there
  have hFound : ∃ pre mid, pre <+: code ∧ Heights.play {} pre = .ok mid ∧ now mid = top h := by
    rcases hPeak.attained Heights.sound_start (by omega) hPlay with
      hLow | ⟨pre, post, mid, rfl, hPre, hTop⟩
    · -- a maximum that is never raised is reached before the first instruction
      exact ⟨[], {}, List.nil_prefix, rfl, by omega⟩
    · exact ⟨pre, mid, List.prefix_append _ _, hPre, hTop⟩
  obtain ⟨pre, mid, hPre, hMid, hTop⟩ := hFound
  obtain ⟨mid', hMid', hFollows⟩ := follows_of_prefix quiet hPlay hPre hSpread script s
  rw [hMid] at hMid'
  cases hMid'
  obtain ⟨post, rfl⟩ := hPre
  -- the whole run succeeds, so the first part of it does
  rw [steps_append] at hSteps
  cases hEq : steps script { store := s } pre with
  | mk answer m =>
    rw [hEq] at hSteps hFollows
    cases answer with
    | ok _ => exact ⟨pre, m, mid, List.prefix_append _ _, hEq, hFollows.1, hTop⟩
    | error e => simp at hSteps

/-- The promise of the check about runs of a program. The state of a run after the first part `pre`
of the code is what `steps` gives for it. -/
structure RunsInStep (p : Program) (script : String) (s : Store) : Prop where
  /-- Wherever the run gets to, the check has found the same stack height there, and as many levels
  that begin at the same heights. -/
  heights : ∀ pre m, pre <+: p.code → steps script { store := s } pre = (.ok (), m) →
    ∃ h, Heights.play {} pre = .ok h ∧ m.values.length = h.height ∧
      (m.frame :: m.outer).map (·.base) = (h.level :: h.outer).map (·.base)
  /-- When the run ends in one of the faults of the machine's own checks, a function that an
  instruction has called raised it. -/
  faults : ∀ e t, p.run script s = (.error e, t) → e.fault.isStructural = true →
    ∃ pre i post m, p.code = pre ++ i :: post ∧
      steps script { store := s } pre = (.ok (), m) ∧ m.RaisedAt i e
  /-- The room is enough, also where an instruction fails. -/
  room : ∀ pre answer m, pre <+: p.code → steps script { store := s } pre = (answer, m) →
    m.values.length ≤ p.valueRoom ∧ m.outer.length ≤ p.bracketRoom ∧
      ((∀ i ∈ p.code, i.kind ≠ .operator .spread) → m.moved.length ≤ p.movedRoom)
  /-- A run that succeeds takes all of the room. -/
  attained : ∀ obj t, p.run script s = (.ok obj, t) →
    (∃ pre m, pre <+: p.code ∧ steps script { store := s } pre = (.ok (), m) ∧
      m.values.length = p.valueRoom) ∧
    (∃ pre m, pre <+: p.code ∧ steps script { store := s } pre = (.ok (), m) ∧
      m.outer.length = p.bracketRoom) ∧
    ((∀ i ∈ p.code, i.kind ≠ .operator .spread) →
      ∃ pre m, pre <+: p.code ∧ steps script { store := s } pre = (.ok (), m) ∧
        m.moved.length = p.movedRoom)

/-- **The check and the machine agree.** Every sequence that the check accepts runs in step with it,
whatever the store and the script are. -/
theorem runsInStep_of_ofPostfix {code : List Instruction} {p : Program}
    (hp : ofPostfix code = .ok p) (script : String) (s : Store) :
    p.code = code ∧ p.RunsInStep script s := by
  obtain ⟨h, hPlay, hHeight, hOuter, rfl⟩ := exists_play_of_ofPostfix hp
  refine ⟨rfl, ⟨?_, ?_, ?_, ?_⟩⟩
  · -- heights
    intro pre m hPre hSteps
    obtain ⟨mid, hMid, hFollows⟩ := follows_of_prefix False hPlay hPre (by simp) script s
    rw [hSteps] at hFollows
    have hm := hFollows.1.inStep
    refine ⟨mid, hMid, hm.height, ?_⟩
    rw [List.map_cons, List.map_cons, hm.base, hm.outer]
  · -- faults
    intro e t hRun hStructural
    have hSteps := (follows_start False s).steps (by simp) script hPlay
    unfold Program.run Machine.run at hRun
    cases hEq : steps script { store := s } code with
    | mk answer m =>
      rw [hEq] at hSteps hRun
      cases answer with
      | error e' =>
        cases hRun
        exact hSteps.2 hStructural
      | ok _ =>
        -- the end of the statement is where the check found it to be
        obtain ⟨obj, hFinish⟩ := hSteps.inStep.finish hHeight hOuter
        dsimp only at hRun
        cases hEnd : m.finish with
        | mk answer n =>
          rw [hEnd] at hFinish hRun
          subst hFinish
          simp at hRun
  · -- room: what is moved aside is bounded only where there is no spread
    intro pre answer m hPre hSteps
    have hFits (quiet : Prop) (hQuiet : quiet → ∀ i ∈ code, i.kind ≠ .operator .spread) :
        m.Fits quiet h := by
      obtain ⟨mid, -, hFollows⟩ := follows_of_prefix quiet hPlay hPre hQuiet script s
      rw [hSteps] at hFollows
      cases answer with
      | ok _ => exact hFollows.2
      | error e => exact hFollows
    have hAll := hFits False (by simp)
    exact ⟨hAll.values, hAll.outer, fun hQuiet => (hFits True fun _ => hQuiet).moved trivial⟩
  · -- all of the room is taken: each maximum is reached at the end of some part of the code
    intro obj t hRun
    obtain ⟨last, hSteps⟩ := exists_steps_of_run hRun
    refine ⟨?_, ?_, fun hQuiet => ?_⟩
    · obtain ⟨pre, m, mid, hPre, hAt, hFollows, hTop⟩ :=
        exists_prefix_of_peak False Heights.peak_height ⟨rfl, rfl⟩ hPlay (by simp) hSteps
      exact ⟨pre, m, hPre, hAt, hFollows.inStep.height.trans hTop⟩
    · obtain ⟨pre, m, mid, hPre, hAt, hFollows, hTop⟩ :=
        exists_prefix_of_peak False Heights.peak_open ⟨rfl, rfl⟩ hPlay (by simp) hSteps
      exact ⟨pre, m, hPre, hAt, hFollows.inStep.length_outer.trans hTop⟩
    · obtain ⟨pre, m, mid, hPre, hAt, hFollows, hTop⟩ :=
        exists_prefix_of_peak True Heights.peak_moved ⟨rfl, rfl⟩ hPlay
          (fun _ => hQuiet) hSteps
      exact ⟨pre, m, hPre, hAt, (hFollows.counting trivial).moved.trans hTop⟩

/-- The code of the statement `f(x, y)`. -/
def codeOfCall : List Instruction :=
  [⟨.name, ⟨0, 1⟩, 0⟩, ⟨.operator (.opener .call), ⟨1, 2⟩, 0⟩, ⟨.name, ⟨2, 3⟩, 1⟩,
    ⟨.name, ⟨5, 6⟩, 1⟩, ⟨.operator .comma, ⟨3, 4⟩, 1⟩, ⟨.operator (.closer .call), ⟨6, 7⟩, 0⟩]

/-- The call takes room for three values, of which one is moved aside, and for one bracket. -/
theorem runsInStep_codeOfCall :
    ofPostfix codeOfCall = .ok ⟨3, 1, 1, codeOfCall⟩ ∧
      RunsInStep ⟨3, 1, 1, codeOfCall⟩ "f(x, y)" .empty := by
  have hp : ofPostfix codeOfCall = .ok ⟨3, 1, 1, codeOfCall⟩ := rfl
  exact ⟨hp, (runsInStep_of_ofPostfix hp "f(x, y)" .empty).2⟩

end Program

end Reckon
