import Reckon.Machine

/-!
# How a machine goes about an operation

The equations that the proofs about runs share: which operation an operator stands for, what a run
of a sequence made of two parts does, and which parts of the machine an operation leaves alone. All
operations but those of lists and brackets leave what was moved aside and all levels as they were
(`Machine.lists`).
-/

namespace Reckon

/-! ## Operators -/

namespace Operator

/-- A compound assignment applies an operator that is binary itself. -/
theorem isBinary_of_compoundBase {op base : Operator} (hBase : op.compoundBase = some base) :
    base.isBinary ∧ base.priority ≠ 14 := by
  cases op <;> simp [Operator.compoundBase] at hBase <;> subst hBase <;> decide

theorem isBinary_of_compound {op base : Operator} (hBase : op.compoundBase = some base) :
    op.isBinary := by
  cases op <;> first | rfl | cases hBase

/-- An operator at the level of the assignments is one. -/
theorem compoundBase_ne_none {op : Operator} (hLevel : op.priority = 14) (hAssign : op ≠ .assign) :
    op.compoundBase ≠ none := by
  cases op <;> simp_all [Operator.priority, Operator.compoundBase]

end Operator

namespace Machine

variable {m : Machine}

/-- A prefix operator is a spread or works on one number. -/
theorem perform_of_isPrefix {op : Operator} (hOp : op.isPrefix) :
    m.perform op = if op = .spread then m.spread else m.unary op := by
  -- the cases that are left have no rule for prefix operators
  cases op with
  | plus | minus | spread | not | bitNot => rfl
  | _ => simp [Operator.isPrefix, Operator.priority] at hOp

/-- A binary operator is an assignment, a compound assignment or works on two numbers. -/
theorem perform_of_isBinary {op : Operator} (hOp : op.isBinary) :
    m.perform op =
      if op = .assign then m.assign
      else
        match op.compoundBase with
        | some base => m.compound base
        | none => m.binary op := by
  cases op with
  | opener | closer | plus | minus | spread | not | bitNot | comma | semicolon =>
    simp [Operator.isBinary, Operator.priority] at hOp
  | _ => rfl

/-! ## Sequences -/

/-- **A sequence of two parts** is the first part, and the second one in the machine that the first
one leaves. -/
theorem steps_append (script : String) (m : Machine) (pre post : List Instruction) :
    steps script m (pre ++ post) =
      match steps script m pre with
      | (.ok (), m') => steps script m' post
      | (.error e, m') => (.error e, m') := by
  -- the machine is generalised, since the first instruction changes it
  induction pre generalizing m with
  | nil => rfl
  | cons i pre ih =>
    simp only [List.cons_append, steps]
    split
    · exact ih _
    · rfl

/-! ## What is left alone -/

/-- To move elements aside does not change the stack that they were taken from, nor the level's
place. -/
theorem setAside_values (m : Machine) (objs : List Object) :
    (m.setAside objs).values = m.values ∧ (m.setAside objs).frame.base = m.frame.base ∧
      (m.setAside objs).outer = m.outer := by
  unfold setAside
  dsimp only
  split
  · exact ⟨rfl, rfl, rfl⟩
  · split <;> exact ⟨rfl, rfl, rfl⟩

/-- Indexing and calling leave the stacks and levels alone. -/
theorem indexing_eq (n : Machine) (target index : Object) :
    (n.indexing target index).2 = { n with store := (n.indexing target index).2.store } := by
  unfold indexing
  split
  · rfl
  · split
    · rfl
    · split <;> rfl

/-- A call changes the store, and at that only the numbers that are drawn. -/
theorem calling_eq (n : Machine) (callee : Object) (args : List Object) :
    (n.calling callee args).2 = { n with store := (n.calling callee args).2.store } := by
  unfold calling
  split <;> rfl

/-- What a machine has moved aside, and its levels. Most operations leave all of it alone. -/
def lists (m : Machine) : List Object × Frame × List Frame := (m.moved, m.frame, m.outer)

@[simp] theorem lists_release (m : Machine) (obj : Object) : (m.release obj).lists = m.lists := rfl

@[simp] theorem lists_releaseAll (m : Machine) (objs : List Object) :
    (m.releaseAll objs).lists = m.lists := rfl

@[simp] theorem lists_pushResult (m : Machine) (answer : Except Failure Object) :
    (m.pushResult answer).2.lists = m.lists := by
  cases answer <;> rfl

/-- Operators work on the stack and leave all lists alone. -/
@[simp] theorem lists_unary (m : Machine) (op : Operator) : (m.unary op).2.lists = m.lists := by
  unfold unary
  split
  · rfl
  · exact lists_pushResult _ _

@[simp] theorem lists_binary (m : Machine) (op : Operator) : (m.binary op).2.lists = m.lists := by
  unfold binary
  split
  · rfl
  · rfl
  · exact lists_pushResult _ _

/-- An assignment does the same, whether it succeeds or not. -/
theorem lists_assignSlot (m : Machine) (id : SlotId) (obj : Object) :
    (m.assignSlot id obj).2.lists = m.lists := by
  unfold assignSlot
  split <;> rfl

@[simp] theorem lists_assign (m : Machine) : m.assign.2.lists = m.lists := by
  unfold assign
  split
  · rfl
  · rfl
  · dsimp only
    split
    · rfl
    · exact lists_assignSlot _ _ _
  · rfl

@[simp] theorem lists_compound (m : Machine) (base : Operator) :
    (m.compound base).2.lists = m.lists := by
  unfold compound
  split
  · rfl
  · rfl
  · dsimp only
    split
    · rfl
    · split
      · exact lists_assignSlot _ _ _
      · rfl

/-- Behind a bracket the level is left already, and an index takes no more than a value from the
stack. -/
theorem lists_closingIndex (m : Machine) (items : List Object) :
    (m.closingIndex items).2.lists = m.lists := by
  unfold closingIndex
  split
  · rfl
  · dsimp only
    split
    · rfl
    · rename_i index others _ target values _
      rw [lists_pushResult, lists_release, lists_release, indexing_eq]
      rfl

/-- A call takes the function from the stack, and nothing from the lists. -/
theorem lists_closingCall (m : Machine) (items : List Object) :
    (m.closingCall items).2.lists = m.lists := by
  unfold closingCall
  split
  · rfl
  · dsimp only
    rw [lists_pushResult, lists_release, lists_releaseAll, calling_eq]
    rfl

/-- **To close a bracket** is to leave its level. What is done with the values inside changes no
list. -/
theorem lists_closing {around : Frame} {outer : List Frame} (b : Bracket)
    (hOuter : m.outer = around :: outer) :
    (m.closing b).2.lists = (m.leave around outer).2.lists := by
  unfold closing
  simp only [hOuter]
  -- each of the four constructs works on the stack of the level around
  cases b with
  | group =>
    dsimp only
    unfold closingGroup
    split <;> rfl
  | index => exact lists_closingIndex _ _
  | call => exact lists_closingCall _ _
  | array => exact lists_pushResult _ _

end Machine

end Reckon
