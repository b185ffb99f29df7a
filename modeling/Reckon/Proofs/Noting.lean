import Reckon.Proofs.Histories

/-!
# Nothing reads the note

A store takes note when a literal is given up that nobody held on to. The note is there to be
reasoned about: no operation looks at it, and it is passed on and never taken back. So a store with
the note made gives the same answers as without it, and the note is the only difference afterwards.

`Store.noting b` makes the note as well if `b` says so. Every operation of the store, of a machine
and of a session has a lemma that carries `noting` from in front of the operation to behind it, and
each of them is an equation, so that the next one can be proved by rewriting.

## Results

* `Store.forgo_noting`       — the one operation that makes the note.
* `Machine.run_noting`       — a run gives the same answer.
* `Session.answers_noting`   — so do any operations on a session, one behind the other.
* `Session.after_noting`     — and they lead to the same session but for the note.
-/

namespace Reckon

/-! ## Stores -/

namespace Store

/-- The store with the note made as well, if it is to be made. -/
def noting (s : Store) (b : Bool) : Store := { s with overdrawn := s.overdrawn || b }

variable (s : Store) (b : Bool)

-- The note is a field of its own, so no other part of a store can tell that it has been made.
@[simp] theorem vacant_noting : (s.noting b).vacant = s.vacant := rfl

@[simp] theorem slots_noting : (s.noting b).slots = s.slots := rfl

@[simp] theorem freeIds_noting : (s.noting b).freeIds = s.freeIds := rfl

@[simp] theorem symbols_noting : (s.noting b).symbols = s.symbols := rfl

@[simp] theorem entropy_noting : (s.noting b).entropy = s.entropy := rfl

@[simp] theorem literal?_noting (l : LiteralId) : (s.noting b).literal? l = s.literal? l := rfl

@[simp] theorem slot?_noting (id : SlotId) : (s.noting b).slot? id = s.slot? id := rfl

@[simp] theorem target?_noting (id : SlotId) : (s.noting b).target? id = s.target? id := rfl

/-- To give up a literal is the one thing that may make the note itself. -/
@[simp] theorem forgo_noting (l : LiteralId) : (s.noting b).forgo l = (s.forgo l).noting b := by
  unfold Store.forgo
  rw [literal?_noting]
  cases s.literal? l with
  | none => rfl
  | some lit =>
    -- the note is made by this operation, or before, or both
    simp only [noting, Bool.or_right_comm]

@[simp] theorem retain_noting (l : LiteralId) : (s.noting b).retain l = (s.retain l).noting b := by
  unfold Store.retain
  rw [literal?_noting]
  cases s.literal? l <;> rfl

/-- A literal takes a vacant place, or a new one at the end. -/
@[simp] theorem addLiteral_noting (payload : Payload) :
    (s.noting b).addLiteral payload =
      ((s.addLiteral payload).1, (s.addLiteral payload).2.noting b) := by
  unfold Store.addLiteral
  -- whether there is a vacant place does not depend on the note
  simp only [vacant_noting]
  cases s.vacant <;> rfl

/-- An id comes from the free ones, or is the next one that was never used. -/
@[simp] theorem allocate_noting :
    (s.noting b).allocate = (s.allocate.1, s.allocate.2.noting b) := by
  unfold Store.allocate
  -- neither the free ids nor the number of slots can tell
  simp only [freeIds_noting, slots_noting]
  cases s.freeIds with
  | cons id freeIds => rfl
  | nil =>
    by_cases hFull : maxSlotId < s.slots.size
    · simp only [hFull, if_true]
    · simp only [hFull, if_false]
      rfl

/-- A slot that is freed gives up its literal, and this is where the note comes in. -/
@[simp] theorem freeSlot_noting (id : SlotId) :
    (s.noting b).freeSlot id = (s.freeSlot id).noting b := by
  unfold Store.freeSlot
  rw [slot?_noting]
  rcases s.slot? id with _ | ⟨_ | l⟩
  · rfl
  · rfl
  · exact congrArg (fun t : Store => { t with freeIds := id :: t.freeIds })
      (forgo_noting { s with slots := s.slots.setIfInBounds id none } b l)

/-- Slots are freed one by one, and the note is handed on from each to the next. -/
@[simp] theorem freeSlots_noting (ids : List SlotId) :
    (s.noting b).freeSlots ids = (s.freeSlots ids).noting b := by
  unfold Store.freeSlots
  induction ids generalizing s with
  -- the store is generalised, since every slot is freed in the store that the last one leaves
  | nil => rfl
  | cons id ids ih => rw [List.foldl_cons, List.foldl_cons, freeSlot_noting, ih]

/-- An array gives up its slots and a read-only handle its literal; nothing else has anything to
give up. -/
@[simp] theorem release_noting (obj : Object) :
    (s.noting b).release obj = (s.release obj).noting b := by
  cases obj with
  | array slots => exact freeSlots_noting s b slots
  | readOnly l => exact forgo_noting s b l
  | _ => rfl

@[simp] theorem releaseAll_noting (objects : List Object) :
    (s.noting b).releaseAll objects = (s.releaseAll objects).noting b := by
  unfold Store.releaseAll
  induction objects generalizing s with
  | nil => rfl
  | cons obj objects ih => rw [List.foldl_cons, List.foldl_cons, release_noting, ih]

/-- Only a read-only element takes hold of what it shows. -/
@[simp] theorem element_noting (id : SlotId) (writable : Bool) :
    (s.noting b).element id writable =
      ((s.element id writable).1, (s.element id writable).2.noting b) := by
  unfold Store.element
  rw [target?_noting]
  cases writable with
  | true => rfl
  | false =>
    cases s.target? id with
    | none => rfl
    | some l => exact congrArg (Object.readOnly l, ·) (retain_noting s b l)

/-- A handle that is to be writable gets a slot, and any other one shares its literal. -/
@[simp] theorem wrap_noting (target : Option LiteralId) (writable : Bool) :
    (s.noting b).wrap target writable =
      ((s.wrap target writable).1, (s.wrap target writable).2.noting b) := by
  unfold Store.wrap
  cases writable with
  | false => rfl
  | true =>
    rw [allocate_noting]
    obtain ⟨_ | id, t⟩ := s.allocate
    -- without a slot the literal is given up again, or there was none to begin with
    · cases target with
      | none => rfl
      | some l => exact congrArg (Except.error _, ·) (forgo_noting t b l)
    · rfl

/-- The literal of a new handle is shared or added, and the old handle is given up. -/
@[simp] theorem materialize_noting (obj : Object) (r : Request) :
    (s.noting b).materialize obj r =
      ((s.materialize obj r).1, (s.materialize obj r).2.noting b) := by
  -- the cases are those of the source, and each is a sequence of operations from above
  obtain ⟨source, writable⟩ := r
  unfold Store.materialize
  cases source with
  | nil => simp only [release_noting, wrap_noting]
  | shared l => simp only [retain_noting, release_noting, wrap_noting]
  | fresh kind => cases obj <;> simp only [addLiteral_noting, release_noting, wrap_noting]

@[simp] theorem request_noting (obj : Object) (writable : Bool) :
    (s.noting b).request obj writable = s.request obj writable := rfl

/-- An object is put into a slot, in place of what the slot showed before. -/
@[simp] theorem bind_noting (id : SlotId) (obj : Object) :
    (s.noting b).bind id obj = ((s.bind id obj).1, (s.bind id obj).2.noting b) := by
  unfold Store.bind
  rw [request_noting, materialize_noting]
  obtain ⟨e | handle, t⟩ := s.materialize obj (s.request obj false)
  · rfl
  · simp only [slot?_noting]
    cases t.slot? id with
    | none =>
      -- the slot is gone, and the new handle is given up
      cases handle with
      | readOnly l => exact congrArg (Except.error _, ·) (forgo_noting t b l)
      | _ => rfl
    | some slot =>
      obtain ⟨_ | old⟩ := slot
      · rfl
      -- what the slot showed before is given up
      · exact congrArg (Except.ok (), ·) (forgo_noting (t.setTarget id _) b old)

@[simp] theorem payload?_noting (obj : Object) : (s.noting b).payload? obj = s.payload? obj := rfl

@[simp] theorem array?_noting (obj : Object) : (s.noting b).array? obj = s.array? obj := rfl

@[simp] theorem lookup_noting (name : String) : (s.noting b).lookup name = s.lookup name := rfl

/-- A name that is known keeps its slot, and one that is new is given a slot of its own. -/
@[simp] theorem intern_noting (name : String) :
    (s.noting b).intern name = ((s.intern name).1, (s.intern name).2.noting b) := by
  unfold Store.intern
  rw [lookup_noting]
  cases s.lookup name with
  | some id => rfl
  | none =>
    rw [allocate_noting]
    obtain ⟨e | id, t⟩ := s.allocate
    · rfl
    · dsimp only
      rw [symbols_noting]
      cases t.symbols.insert name id with
      -- a name that cannot be introduced gives its slot back
      | error e => exact congrArg (Except.error e, ·) (freeSlot_noting t b id)
      | ok symbols => rfl

/-- A definition interns a name and binds its slot, and may fail at either. -/
@[simp] theorem define_noting (name : String) (obj : Object) :
    (s.noting b).define name obj = ((s.define name obj).1, (s.define name obj).2.noting b) := by
  unfold Store.define
  rw [intern_noting]
  obtain ⟨e | id, t⟩ := s.intern name
  · rfl
  · simp only [bind_noting]
    obtain ⟨e | ⟨⟩, u⟩ := t.bind id obj <;> rfl

/-- The sample for the function is drawn from the store, and the draws are the same. -/
@[simp] theorem call_noting (f : Function) (args : List Object) :
    (s.noting b).call f args = ((s.call f args).1, (s.call f args).2.noting b) := by
  unfold Store.call
  simp only [entropy_noting]
  generalize s.entropy.next = draw
  obtain ⟨sample, entropy⟩ := draw
  rfl

/-- A snapshot goes down through literals and slots, which are the same ones. -/
@[simp] theorem snapshot_noting (obj : Object) : (s.noting b).snapshot obj = s.snapshot obj := by
  -- the stores resemble each other, and that is all a snapshot depends on
  have hSame : s.Resembles (s.noting b) := ⟨rfl, fun _ => rfl, fun _ _ _ => rfl⟩
  have hLiteral := hSame.snapshotLiteral []
  unfold Store.snapshot
  cases obj with
  | array slots =>
    exact congrArg Value.array
      (snapshotSlots_of_targets (fun _ _ => rfl) fun _ _ l _ => hLiteral l)
  | readOnly l => exact hLiteral l
  | writable id => simp only [target?_noting, hLiteral]
  | _ => rfl

/-- The sweep goes through the same queue and finds the same literals. -/
@[simp] theorem sweepOnto_noting (n : Nat) :
    (s.noting b).sweepOnto n = ((s.sweepOnto n).1, (s.sweepOnto n).2.noting b) := by
  -- the induction is on the queue, which the sweep takes from the front
  induction s, n using Store.sweepOnto.induct with
  | case1 s n hQueue =>
    rw [sweepOnto_of_nil hQueue, sweepOnto_of_nil (s := s.noting b) hQueue]
  | case2 s n l queue hQueue _ payload hl ih =>
    rw [sweepOnto_of_unheld hQueue hl, sweepOnto_of_unheld (s := s.noting b) hQueue hl, ← ih,
      ← freeSlots_noting]
    rfl
  | case3 s n l queue hQueue _ hl ih =>
    rw [sweepOnto_of_held hQueue hl, sweepOnto_of_held (s := s.noting b) hQueue hl, ← ih]
    rfl

@[simp] theorem sweep_noting : (s.noting b).sweep = (s.sweep.1, s.sweep.2.noting b) :=
  sweepOnto_noting s b 0

/-- To tear a store down is to forget its names, free its slots and sweep. -/
@[simp] theorem teardown_noting :
    (s.noting b).teardown = (s.teardown.1, s.teardown.2.noting b) := by
  unfold Store.teardown
  -- the names are forgotten either way
  have hNameless : ({ s.noting b with symbols := {} } : Store) =
      Store.noting { s with symbols := {} } b := rfl
  simp only [hNameless, freeSlots_noting, sweep_noting]
  rfl

end Store

/-! ## Machines -/

namespace Machine

/-- The machine on the store with the note made as well. -/
def noting (m : Machine) (b : Bool) : Machine := { m with store := m.store.noting b }

variable (m : Machine) (b : Bool)

-- A machine has its note in the store, and all other parts of it are the same.
@[simp] theorem store_noting : (m.noting b).store = m.store.noting b := rfl

@[simp] theorem values_noting : (m.noting b).values = m.values := rfl

@[simp] theorem moved_noting : (m.noting b).moved = m.moved := rfl

@[simp] theorem frame_noting : (m.noting b).frame = m.frame := rfl

@[simp] theorem outer_noting : (m.noting b).outer = m.outer := rfl

@[simp] theorem pending_noting : (m.noting b).pending = m.pending := rfl

/-- A machine on a store with the note made is a machine with the note made. -/
@[simp] theorem mk_noting (s : Store) (values moved : List Object) (frame : Frame)
    (outer : List Frame) :
    mk (s.noting b) values moved frame outer = (mk s values moved frame outer).noting b := rfl

@[simp] theorem push_noting (obj : Object) :
    (m.noting b).push obj = (m.push obj).noting b := rfl

/-- An answer is pushed, or passed on as the failure that it is. -/
@[simp] theorem pushResult_noting (answer : Except Failure Object) :
    (m.noting b).pushResult answer =
      ((m.pushResult answer).1, (m.pushResult answer).2.noting b) := by
  cases answer <;> rfl

@[simp] theorem release_noting (obj : Object) :
    (m.noting b).release obj = (m.release obj).noting b := by
  simp [release]

/-- What is released goes back to the store, where the note is handed on. -/
@[simp] theorem releaseAll_noting (objs : List Object) :
    (m.noting b).releaseAll objs = (m.releaseAll objs).noting b := by
  simp [releaseAll]

/-! ### Lists -/

/-- A comma moves values aside, and the store is no part of that. -/
@[simp] theorem comma_noting : (m.noting b).comma = (m.comma.1, m.comma.2.noting b) := by
  unfold comma
  cases hItems : (m.values.take m.pending).reverse with
  | nil => simp [hItems]
  | cons oldest newer => simp [hItems]

/-- The elements of an array are taken out one by one, each with a hold of its own. -/
@[simp] theorem elements_noting (s : Store) (writable : Bool) (taken : List Object)
    (ids : List SlotId) :
    elements (s.noting b) writable taken ids =
      ((elements s writable taken ids).1, (elements s writable taken ids).2.noting b) := by
  induction ids generalizing s taken with
  | nil => rfl
  | cons id ids ih => simp [elements, ih]

/-- Elements are moved aside or staged, and the store is no part of that, either. -/
@[simp] theorem setAside_noting (objs : List Object) :
    (m.noting b).setAside objs = (m.setAside objs).noting b := by
  -- the elements are moved aside, or there are none, or they are staged
  by_cases hPending : m.pending = 0 <;> by_cases hObjs : objs.isEmpty <;>
    simp [setAside, hPending, hObjs]

/-- A spread takes the elements of an array before it gives the array up. -/
@[simp] theorem spread_noting : (m.noting b).spread = (m.spread.1, m.spread.2.noting b) := by
  unfold spread
  cases hValues : m.values with
  | nil => simp [hValues]
  | cons obj values =>
    cases hArray : m.store.array? obj with
    | none => simp [hValues, hArray]
    | some array =>
      -- an array without elements is refused, and of any other one the last element is pushed
      cases hTaken : (elements m.store array.2 [] array.1).1 with
      | nil => simp [hValues, hArray, hTaken]
      | cons last others => simp [hValues, hArray, hTaken]

/-- Every value of a new array is given a slot of its own, for as long as there are any. -/
@[simp] theorem slotsFor_noting (s : Store) (made : List SlotId) (objs : List Object) :
    slotsFor (s.noting b) made objs =
      ((slotsFor s made objs).1, (slotsFor s made objs).2.noting b) := by
  induction objs generalizing s made with
  | nil => rfl
  | cons obj objs ih =>
    simp only [slotsFor, Store.request_noting, Store.materialize_noting]
    obtain ⟨e | handle, t⟩ := s.materialize obj (s.request obj true)
    · simp
    · exact ih t _

/-! ### Closing brackets -/

@[simp] theorem indexOf_noting (index : Object) :
    (m.noting b).indexOf index = m.indexOf index := rfl

/-- An index selects an element, if the target is an array and the index is in range. -/
@[simp] theorem indexing_noting (target index : Object) :
    (m.noting b).indexing target index =
      ((m.indexing target index).1, (m.indexing target index).2.noting b) := by
  unfold indexing
  cases hIndex : m.indexOf index with
  | error e => simp [hIndex]
  | ok found =>
    cases hArray : m.store.array? target with
    | none => simp [hIndex, hArray]
    | some array =>
      -- whether the element is there, and whether the index has overflowed
      cases hElement : array.1[found.1]? <;> cases hOverflow : found.2 <;>
        simp [hIndex, hArray, hElement, hOverflow]

/-- What is called is a function or refused, and a function cannot look at the note. -/
@[simp] theorem calling_noting (callee : Object) (args : List Object) :
    (m.noting b).calling callee args =
      ((m.calling callee args).1, (m.calling callee args).2.noting b) := by
  unfold calling
  rcases hPayload : m.store.payload? callee with _ | _ | f | _ <;> simp [hPayload]

@[simp] theorem leave_noting (around : Frame) (outer : List Frame) :
    (m.noting b).leave around outer =
      ((m.leave around outer).1, (m.leave around outer).2.noting b) := rfl

/-- A group gives its last value and releases the others. -/
@[simp] theorem closingGroup_noting (items : List Object) :
    (m.noting b).closingGroup items =
      ((m.closingGroup items).1, (m.closingGroup items).2.noting b) := by
  unfold closingGroup
  cases items.reverse <;> simp

/-- Brackets of an index take the last value for the index, and what stands in front for the
target. -/
@[simp] theorem closingIndex_noting (items : List Object) :
    (m.noting b).closingIndex items =
      ((m.closingIndex items).1, (m.closingIndex items).2.noting b) := by
  unfold closingIndex
  cases items.reverse with
  | nil => simp
  | cons index others =>
    cases hValues : (m.releaseAll others.reverse).values <;> simp [hValues]

/-- A call takes what stands in front of the bracket for the function. -/
@[simp] theorem closingCall_noting (items : List Object) :
    (m.noting b).closingCall items =
      ((m.closingCall items).1, (m.closingCall items).2.noting b) := by
  unfold closingCall
  cases hValues : m.values <;> simp [hValues]

/-- An array takes all the values inside its brackets. -/
@[simp] theorem closingArray_noting (items : List Object) :
    (m.noting b).closingArray items =
      ((m.closingArray items).1, (m.closingArray items).2.noting b) := by
  simp [closingArray]

/-- To close a bracket is to leave its frame and to do what the bracket says. -/
@[simp] theorem closing_noting (k : Bracket) :
    (m.noting b).closing k = ((m.closing k).1, (m.closing k).2.noting b) := by
  unfold closing
  cases hOuter : m.outer with
  | nil => simp [hOuter]
  | cons around outer => cases k <;> simp [hOuter]

/-! ### Operators -/

@[simp] theorem numberOf_noting (obj : Object) : (m.noting b).numberOf obj = m.numberOf obj := rfl

@[simp] theorem applied_noting (op : Operator) (lhs rhs : Object) :
    (m.noting b).applied op lhs rhs = m.applied op lhs rhs := rfl

/-- An operator in front of its operand takes one value from the stack. -/
@[simp] theorem unary_noting (op : Operator) :
    (m.noting b).unary op = ((m.unary op).1, (m.unary op).2.noting b) := by
  unfold unary
  cases hValues : m.values <;> simp [hValues]

/-- An operator between its operands takes two. -/
@[simp] theorem binary_noting (op : Operator) :
    (m.noting b).binary op = ((m.binary op).1, (m.binary op).2.noting b) := by
  unfold binary
  -- there may be fewer than two values on the stack
  rcases hValues : m.values with _ | ⟨rhs, _ | ⟨lhs, values⟩⟩ <;> simp [hValues]

/-- To assign to a slot is to bind it. -/
@[simp] theorem assignSlot_noting (id : SlotId) (obj : Object) :
    (m.noting b).assignSlot id obj =
      ((m.assignSlot id obj).1, (m.assignSlot id obj).2.noting b) := by
  unfold assignSlot
  rw [store_noting, Store.bind_noting]
  obtain ⟨e | ⟨⟩, t⟩ := m.store.bind id obj <;> simp

/-- An assignment needs a slot on its left side, and changes nothing if that is its value. -/
@[simp] theorem assign_noting : (m.noting b).assign = (m.assign.1, m.assign.2.noting b) := by
  unfold assign
  rcases hValues : m.values with _ | ⟨rhs, _ | ⟨lhs, values⟩⟩
  · simp [hValues]
  · simp [hValues]
  · cases lhs with
    | writable id => by_cases hSame : rhs.slot = id <;> simp [hValues, hSame]
    | _ => simp [hValues]

/-- A compound assignment applies its operator first. -/
@[simp] theorem compound_noting (base : Operator) :
    (m.noting b).compound base = ((m.compound base).1, (m.compound base).2.noting b) := by
  unfold compound
  rcases hValues : m.values with _ | ⟨rhs, _ | ⟨lhs, values⟩⟩
  · simp [hValues]
  · simp [hValues]
  · cases hResult : m.applied base lhs rhs with
    | error e => simp [hValues, hResult]
    | ok value => cases lhs <;> simp [hValues, hResult]

/-- Whatever the operator is, it does the same with the note made. -/
@[simp] theorem perform_noting (op : Operator) :
    (m.noting b).perform op = ((m.perform op).1, (m.perform op).2.noting b) := by
  unfold perform
  cases op with
  | opener k => rfl
  | semicolon => rfl
  | closer k => exact closing_noting m b k
  | comma => exact comma_noting m b
  | spread => exact spread_noting m b
  | assign => exact assign_noting m b
  | _ =>
    -- what has no rule of its own is a compound assignment, a prefix or a binary operator
    first
      | exact compound_noting m b _
      | exact unary_noting m b _
      | exact binary_noting m b _

/-! ### Runs -/

/-- **A step gives the same answer**, and leaves the same machine but for the note. -/
@[simp] theorem step_noting (script : String) (i : Instruction) :
    (m.noting b).step script i = ((m.step script i).1, (m.step script i).2.noting b) := by
  unfold step
  cases i.kind with
  -- a number is pushed, an operator performed, and a name interned first
  | number numeral => simp
  | operator op => simp
  | name =>
    simp only [store_noting, Store.intern_noting]
    obtain ⟨e | id, t⟩ := m.store.intern (i.span.text script) <;> simp

/-- **So do any number of steps.** -/
@[simp] theorem steps_noting (script : String) (code : List Instruction) :
    (m.noting b).steps script code =
      ((m.steps script code).1, (m.steps script code).2.noting b) := by
  -- the machine is generalised, since every step starts where the one before has come to
  induction code generalizing m with
  | nil => rfl
  | cons i code ih =>
    simp only [steps, step_noting]
    obtain ⟨e | ⟨⟩, n⟩ := m.step script i
    · rfl
    · exact ih n

/-- At the end all that was set aside is released, and one value has to be left. -/
@[simp] theorem finish_noting : (m.noting b).finish = (m.finish.1, m.finish.2.noting b) := by
  unfold finish
  cases hOuter : m.outer with
  | cons around outer => simp [hOuter]
  | nil =>
    simp only [outer_noting, hOuter, frame_noting, moved_noting, releaseAll_noting]
    generalize m.releaseAll (m.frame.staged.flatMap (·.elements) ++ m.moved.reverse) = n
    rcases hValues : n.values with _ | ⟨result, _ | ⟨below, values⟩⟩ <;> simp [hValues]

/-- A run that has failed releases whatever is still on the stack. -/
@[simp] theorem abandon_noting : (m.noting b).abandon = m.abandon.noting b := by
  simp [abandon, frames]

/-- **A run gives the same answer**, and leaves the same store but for the note. -/
@[simp] theorem run_noting (code : List Instruction) (script : String) (s : Store) :
    run code script (s.noting b) =
      ((run code script s).1, (run code script s).2.noting b) := by
  have hStart : steps script { store := s.noting b } code =
      ((steps script { store := s } code).1, (steps script { store := s } code).2.noting b) :=
    steps_noting { store := s } b script code
  unfold run
  rw [hStart]
  obtain ⟨e | ⟨⟩, m⟩ := steps script { store := s } code
  -- the run has failed, or it comes to its end
  · simp
  · simp only [finish_noting]
    obtain ⟨e | result, n⟩ := m.finish <;> simp

end Machine

/-! ## Sessions -/

namespace Session

/-- The session on the store with the note made as well. -/
def noting (c : Session) (b : Bool) : Session := { c with store := c.store.noting b }

variable (c : Session) (b : Bool)

@[simp] theorem store_noting : (c.noting b).store = c.store.noting b := rfl

/-- A text takes the place of the script, or is put behind it, whatever the note says. -/
@[simp] theorem load_noting (text : String) : (c.noting b).load text = (c.load text).noting b := by
  have hComplete : (c.noting b).complete = c.complete := rfl
  unfold Session.load
  rw [hComplete]
  split <;> rfl

/-- Reading looks at the script alone. -/
@[simp] theorem forward_noting : (c.noting b).forward = (c.forward.1, c.forward.2.noting b) := by
  have hReader : (c.noting b).reader = c.reader := rfl
  unfold Session.forward
  rw [hReader]
  dsimp only
  rcases c.reader.nextStatement.1 with e | _ | tokens <;> rfl

/-- Compiling looks at the tokens alone. -/
@[simp] theorem compile_noting : (c.noting b).compile = (c.compile.1, c.compile.2.noting b) := by
  have hPhase : (c.noting b).phase = c.phase := rfl
  have hTokens : (c.noting b).tokens = c.tokens := rfl
  unfold Session.compile
  rw [hPhase, hTokens]
  split
  · cases Program.ofTokens c.tokens <;> rfl
  · rfl

/-- The result of the last run is given up before the next one. -/
@[simp] theorem storeWithoutResult_noting :
    (c.noting b).storeWithoutResult = c.storeWithoutResult.noting b := by
  have hResult : (c.noting b).result = c.result := rfl
  unfold Session.storeWithoutResult
  rw [hResult]
  cases c.result with
  | none => rfl
  | some previous => exact Store.release_noting c.store b previous

/-- A program is run, its value is materialized, and the store is swept. -/
@[simp] theorem runProgram_noting (p : Program) (script : String) (s : Store) :
    runProgram p script (s.noting b) =
      ((runProgram p script s).1, (runProgram p script s).2.noting b) := by
  unfold runProgram Program.run
  rw [Machine.run_noting]
  obtain ⟨e | obj, t⟩ := Machine.run p.code script s <;> simp

/-- The session keeps what a run has given as its result, or fails. -/
theorem settle_noting (answer : Except Failure Object) (s : Store) :
    (c.noting b).settle answer (s.noting b) =
      ((c.settle answer s).1, (c.settle answer s).2.noting b) := by
  cases answer <;> rfl

/-- **Running the program that waits gives the same answer.** -/
@[simp] theorem execute_noting : (c.noting b).execute = (c.execute.1, c.execute.2.noting b) := by
  have hPhase : (c.noting b).phase = c.phase := rfl
  have hProgram : (c.noting b).program = c.program := rfl
  have hScript : (c.noting b).script = c.script := rfl
  unfold Session.execute
  rw [hPhase, hProgram, hScript]
  split
  · simp only [storeWithoutResult_noting, runProgram_noting, settle_noting]
  · rfl

/-- The value of the result is a snapshot. -/
@[simp] theorem value_noting : (c.noting b).value = c.value := by
  have hResult : (c.noting b).result = c.result := rfl
  unfold Session.value
  rw [hResult]
  exact congrArg (c.result.map ·) (funext (c.store.snapshot_noting b))

@[simp] theorem lookup_noting (name : String) : (c.noting b).lookup name = c.lookup name := by
  unfold Session.lookup
  simp

@[simp] theorem bindFunction_noting (f : Function) :
    (c.noting b).bindFunction f = ((c.bindFunction f).1, (c.bindFunction f).2.noting b) := by
  unfold Session.bindFunction
  simp only [store_noting, Store.define_noting]
  rfl

@[simp] theorem teardown_noting :
    (c.noting b).teardown = (c.teardown.1, c.teardown.2.noting b) := by
  unfold Session.teardown
  simp only [storeWithoutResult_noting, Store.teardown_noting]
  rfl

/-- Statement by statement, the same is read, compiled and run. -/
@[simp] theorem runAll_noting (last : Value) :
    (c.noting b).runAll last = ((c.runAll last).1, (c.runAll last).2.noting b) := by
  fun_induction Session.runAll c last with
  | case1 c last e c₁ hRead => rw [runAll_of_unread (by rw [forward_noting, hRead])]
  | case2 c last c₁ hRead => rw [runAll_of_end (by rw [forward_noting, hRead])]
  | case3 c last c₁ hRead e c₂ hBuilt =>
    rw [runAll_of_unbuilt (by rw [forward_noting, hRead]) (by rw [compile_noting, hBuilt])]
  | case4 c last c₁ hRead c₂ hBuilt e c₃ hRan =>
    rw [runAll_of_built (by rw [forward_noting, hRead]) (by rw [compile_noting, hBuilt]),
      execute_noting, hRan]
  | case5 c last c₁ hRead c₂ hBuilt obj c₃ hRan ih =>
    rw [runAll_of_built (by rw [forward_noting, hRead]) (by rw [compile_noting, hBuilt]),
      execute_noting, hRan]
    simp only [value_noting]
    exact ih

/-- **So does the evaluation of a text.** -/
@[simp] theorem evaluate_noting (text : String) :
    (c.noting b).evaluate text = ((c.evaluate text).1, (c.evaluate text).2.noting b) := by
  unfold Session.evaluate
  simp only [load_noting, runAll_noting]
  obtain ⟨e | v, d⟩ := (c.load text).runAll .nil <;> rfl

/-! ### Operations -/

/-- What an operation says. -/
inductive Answer where
  | nothing
  | forward (answer : Except Failure Bool)
  | compile (answer : Except Failure Unit)
  | execute (answer : Except Failure Object)
  | evaluate (answer : Except Failure Value)
  | bindFunction (answer : Except Failure SlotId)
  | lookup (value : Option Value)
  | teardown (count : Nat)

/-- What an operation says to a session. -/
def Operation.answer (c : Session) : Operation → Answer
  | load _ => .nothing
  | forward => .forward c.forward.1
  | compile => .compile c.compile.1
  | execute => .execute c.execute.1
  | evaluate text => .evaluate (c.evaluate text).1
  | bindFunction f => .bindFunction (c.bindFunction f).1
  | lookup name => .lookup (c.lookup name)
  | teardown => .teardown c.teardown.1

/-- What operations say, one behind the other. -/
def answers (c : Session) : List Operation → List Answer
  | [] => []
  | op :: ops => op.answer c :: (op.apply c).answers ops

theorem Operation.answer_noting (op : Operation) : op.answer (c.noting b) = op.answer c := by
  cases op <;> simp [Operation.answer]

theorem Operation.apply_noting (op : Operation) :
    op.apply (c.noting b) = (op.apply c).noting b := by
  cases op <;> simp [Operation.apply]

/-- **Any operations give the same answers**, one behind the other. -/
theorem answers_noting (ops : List Operation) : (c.noting b).answers ops = c.answers ops := by
  induction ops generalizing c with
  | nil => rfl
  | cons op ops ih => rw [answers, answers, Operation.answer_noting, Operation.apply_noting, ih]

/-- They lead to the same session but for the note. -/
theorem after_noting (ops : List Operation) :
    (c.noting b).after ops = (c.after ops).noting b := by
  unfold Session.after
  induction ops generalizing c with
  | nil => rfl
  | cons op ops ih => rw [List.foldl_cons, List.foldl_cons, Operation.apply_noting, ih]

end Session

end Reckon
