import Reckon.Number.Literal
import Reckon.Program
import Reckon.Store

/-!
# Running programs

A `Machine` runs a postfix sequence against a store. Values stand on a stack. Inside brackets, a
comma moves the oldest value of its own level aside, and a closer collects what was moved aside
since its opener together with what is left on the stack.

A spread puts the last element of an array in the place of the array and the others in front of it.
When earlier values of the same level still wait for their comma, the others are *staged*: they are
moved aside only after those values, so that what is collected keeps the order of the list.

Every operation gives its answer and the machine as it is then. What an operation has taken off the
stack it gives back to the store before it fails, and after a failure `Machine.abandon` gives up
everything else.
-/

namespace Reckon

/-- Elements of a spread that wait for a number of commas before they are moved aside. -/
structure Staged where
  remaining : Nat
  elements : List Object

/-- A level of brackets: the height of the stack where it opened, how many values have been moved
aside or staged since, and what is staged. -/
structure Frame where
  bracket : Bracket := .group
  base : Nat := 0
  accepted : Nat := 0
  staged : List Staged := []

/-- The state of a run. Both stacks have their top first. The statement itself is the outermost
level, which nothing closes; `outer` holds the levels around the present one, innermost first. -/
structure Machine where
  store : Store
  values : List Object := []
  moved : List Object := []
  frame : Frame := {}
  outer : List Frame := []

namespace Machine

/-- A statement that is not well formed. -/
def malformed : Failure := { fault := SyntaxFault.invalidSyntax }

/-- Puts a value on the stack. -/
def push (m : Machine) (obj : Object) : Machine := { m with values := obj :: m.values }

/-- Puts a result on the stack, or fails as it did. -/
def pushResult (m : Machine) : Except Failure Object → Except Failure Unit × Machine
  | .ok obj => (.ok (), m.push obj)
  | .error e => (.error e, m)

/-- Gives up an object. -/
def release (m : Machine) (obj : Object) : Machine := { m with store := m.store.release obj }

/-- Gives up objects. -/
def releaseAll (m : Machine) (objs : List Object) : Machine :=
  { m with store := m.store.releaseAll objs }

/-- The number that an object turns out to be. -/
def numberOf (m : Machine) (obj : Object) : Except Failure Number :=
  match m.store.payload? obj with
  | some (.number n) => .ok n
  | _ => .error { fault := TypeFault.mathAmongNonNumbers }

/-- A result of arithmetic as an object. -/
def arithmeticResult : Except Fault Number → Except Failure Object
  | .ok n => .ok (.number n)
  | .error f => .error { fault := f }

/-! ## Brackets and lists -/

/-- Opens a level at the present height. -/
def opening (m : Machine) (b : Bracket) : Machine :=
  { m with frame := { bracket := b, base := m.values.length }, outer := m.frame :: m.outer }

/-- How many values of the present level are on the stack. -/
def pending (m : Machine) : Nat := m.values.length - m.frame.base

/-- The elements whose last comma has come, and what stays staged. -/
def countDown (staged : List Staged) : List Object × List Staged :=
  ((staged.filter (·.remaining ≤ 1)).flatMap (·.elements),
    (staged.filter (1 < ·.remaining)).map fun entry =>
      { entry with remaining := entry.remaining - 1 })

/-- Moves the oldest value of the present level aside, and the elements that waited for it. -/
def comma (m : Machine) : Except Failure Unit × Machine :=
  -- the top of the stack comes first, so the oldest value of the level is the last pending one
  match (m.values.take m.pending).reverse with
  | [] => (.error { fault := SyntaxFault.tooManyCommas }, m)
  | oldest :: newer =>
    let (ready, staged) := countDown m.frame.staged
    (.ok (), { m with
      values := newer.reverse ++ m.values.drop m.pending
      moved := ready.reverse ++ oldest :: m.moved
      frame := { m.frame with accepted := m.frame.accepted + 1, staged } })

/-- Handles on the elements in slots, taken in order and put in front of `taken`, so the last one
comes first. -/
def elements (s : Store) (writable : Bool) (taken : List Object) :
    List SlotId → List Object × Store
  | [] => (taken, s)
  | id :: ids =>
    let r := s.element id writable
    elements r.2 writable (r.1 :: taken) ids

/-- Moves elements of a spread aside, or stages them behind the values of the level that still wait
for their comma. The last element comes first. -/
def setAside (m : Machine) (objs : List Object) : Machine :=
  let frame := { m.frame with accepted := m.frame.accepted + objs.length }
  if m.pending = 0 then { m with moved := objs ++ m.moved, frame }
  else if objs.isEmpty then { m with frame }
  else { m with frame := { frame with staged := frame.staged ++ [⟨m.pending, objs.reverse⟩] } }

/-- Replaces an array on the stack by its elements. -/
def spread (m : Machine) : Except Failure Unit × Machine :=
  match m.values with
  | [] => (.error malformed, m)
  | obj :: values =>
    let m := { m with values }
    match m.store.array? obj with
    | none => (.error { fault := TypeFault.nonExpandableObject }, m.release obj)
    | some (slots, writable) =>
      -- the elements are taken before the array is given up, which may be all that holds them
      let r := elements m.store writable [] slots
      let m := { m with store := r.2.release obj }
      match r.1 with
      | [] => (.error { fault := RuntimeFault.expandEmptyArray }, m)
      | last :: others => (.ok (), (m.setAside others).push last)

/-- Gives every object a slot of its own. When there is none left, all that has been made and all
that is still to come is given up. -/
def slotsFor (s : Store) : List SlotId → List Object → Except Failure (List SlotId) × Store
  | made, [] => (.ok made.reverse, s)
  | made, obj :: objs =>
    match s.materialize obj (s.request obj true) with
    | (.ok handle, s) => slotsFor s (handle.slot :: made) objs
    | (.error e, s) => (.error e, (s.releaseAll objs).release (.array made.reverse))

/-- The position that an index asks for, and whether it has overflowed. -/
def indexOf (m : Machine) (index : Object) : Except Failure (Nat × Bool) :=
  match m.store.payload? index with
  | some (.number (.int value _ overflow)) =>
    if 0 ≤ value then .ok (value.toInt.toNat, overflow)
    else .error { fault := IndexFault.expectNonNegativeInteger }
  | _ => .error { fault := IndexFault.expectNonNegativeInteger }

/-- The element of an array at an index, as writable as the array was reached. The index is looked
at before the array. -/
def indexing (m : Machine) (target index : Object) : Except Failure Object × Machine :=
  match m.indexOf index with
  | .error e => (.error e, m)
  | .ok (position, overflow) =>
    match m.store.array? target with
    | none => (.error { fault := TypeFault.nonIndexableObject }, m)
    | some (slots, writable) =>
      match slots[position]?, overflow with
      | some id, false =>
        let (obj, store) := m.store.element id writable
        (.ok obj, { m with store })
      | _, _ => (.error { fault := IndexFault.outOfRange }, m)

/-- Calls what should be a function. -/
def calling (m : Machine) (callee : Object) (args : List Object) :
    Except Failure Object × Machine :=
  match m.store.payload? callee with
  | some (.function f) =>
    let (result, store) := m.store.call f args
    (result, { m with store })
  | _ => (.error { fault := TypeFault.nonCallableObject }, m)

/-- Ends the present level: the level around it becomes the present one, and the values of the list
between the brackets are handed over in order. -/
def leave (m : Machine) (around : Frame) (outer : List Frame) : List Object × Machine :=
  -- no comma will come for what is still staged, so it is moved aside now
  let moved := (m.frame.staged.flatMap (·.elements)).reverse ++ m.moved
  ((moved.take m.frame.accepted).reverse ++ (m.values.take m.pending).reverse,
    { m with
      values := m.values.drop m.pending
      moved := moved.drop m.frame.accepted
      frame := around
      outer })

/-- A group holds its last value. -/
def closingGroup (m : Machine) (items : List Object) : Except Failure Unit × Machine :=
  match items.reverse with
  | [] => (.ok (), m.push .nil)
  | last :: others => (.ok (), (m.releaseAll others.reverse).push last)

/-- The last value between the brackets is the index, and the value in front of them the array. -/
def closingIndex (m : Machine) (items : List Object) : Except Failure Unit × Machine :=
  match items.reverse with
  | [] => (.error { fault := IndexFault.noIndex }, m)
  | index :: others =>
    let m := m.releaseAll others.reverse
    match m.values with
    | [] => (.error { fault := IndexFault.missingArray }, m.release index)
    | target :: values =>
      -- the element has to be taken while the array is still held
      let (result, m) := { m with values }.indexing target index
      ((m.release index).release target).pushResult result

/-- The values between the brackets are the arguments, and the value in front of them the
function. -/
def closingCall (m : Machine) (items : List Object) : Except Failure Unit × Machine :=
  match m.values with
  | [] => (.error { fault := RuntimeFault.expectFunction }, m.releaseAll items)
  | callee :: values =>
    let (result, m) := { m with values }.calling callee items
    ((m.releaseAll items).release callee).pushResult result

/-- The values between the brackets become the elements of an array. -/
def closingArray (m : Machine) (items : List Object) : Except Failure Unit × Machine :=
  let (slots, store) := slotsFor m.store [] items
  { m with store }.pushResult (slots.map .array)

/-- Closes the present level. -/
def closing (m : Machine) (b : Bracket) : Except Failure Unit × Machine :=
  match m.outer with
  | [] => (.error malformed, m)
  | around :: outer =>
    let (items, m) := m.leave around outer
    match b with
    | .group => m.closingGroup items
    | .index => m.closingIndex items
    | .call => m.closingCall items
    | .array => m.closingArray items

/-! ## Operators -/

/-- Applies a prefix operator to the value on top. -/
def unary (m : Machine) (op : Operator) : Except Failure Unit × Machine :=
  match m.values with
  | [] => (.error malformed, m)
  | obj :: values =>
    let result := match m.numberOf obj with
      | .ok n => arithmeticResult (n.unary op)
      | .error e => .error e
    ({ m with values }.release obj).pushResult result

/-- Applies a binary operator to two objects. The left one is looked at first. -/
def applied (m : Machine) (op : Operator) (lhs rhs : Object) : Except Failure Object :=
  match m.numberOf lhs, m.numberOf rhs with
  | .error e, _ => .error e
  | .ok _, .error e => .error e
  | .ok a, .ok b => arithmeticResult (a.binary op b)

/-- Applies a binary operator to the two values on top. -/
def binary (m : Machine) (op : Operator) : Except Failure Unit × Machine :=
  match m.values with
  | [] => (.error malformed, m)
  | [_] => (.error malformed, { m with values := [] })
  | rhs :: lhs :: values =>
    let result := m.applied op lhs rhs
    (({ m with values }.release lhs).release rhs).pushResult result

/-- Points a slot at what an object holds and leaves the handle on the slot on the stack. -/
def assignSlot (m : Machine) (id : SlotId) (obj : Object) : Except Failure Unit × Machine :=
  match m.store.bind id obj with
  | (.ok (), store) => (.ok (), { m with store }.push (.writable id))
  | (.error e, store) => (.error e, { m with store })

/-- Assigns the value on top to the slot below it. Assigning a slot to itself changes nothing. -/
def assign (m : Machine) : Except Failure Unit × Machine :=
  match m.values with
  | [] => (.error malformed, m)
  | [_] => (.error malformed, { m with values := [] })
  | rhs :: .writable id :: values =>
    -- a handle that names a slot owns nothing, so there is nothing to give up here
    let m := { m with values }
    if rhs.slot = id then (.ok (), m.push (.writable id)) else m.assignSlot id rhs
  | rhs :: lhs :: values =>
    (.error { fault := RuntimeFault.assignLeftValue }, ({ m with values }.release lhs).release rhs)

/-- Applies the operator of a compound assignment and assigns the result to the slot on the left.
That there is a slot is noticed only after the arithmetic. -/
def compound (m : Machine) (base : Operator) : Except Failure Unit × Machine :=
  match m.values with
  | [] => (.error malformed, m)
  | [_] => (.error malformed, { m with values := [] })
  | rhs :: lhs :: values =>
    let result := m.applied base lhs rhs
    let m := { m with values }.release rhs
    match result with
    | .error e => (.error e, m.release lhs)
    | .ok value =>
      match lhs with
      | .writable id => m.assignSlot id value
      | lhs => (.error { fault := RuntimeFault.assignLeftValue }, m.release lhs)

/-! ## Runs -/

/-- Performs an operator. -/
def perform (m : Machine) (op : Operator) : Except Failure Unit × Machine :=
  match op with
  | .opener b => (.ok (), m.opening b)
  | .closer b => m.closing b
  | .comma => m.comma
  | .spread => m.spread
  | .assign => m.assign
  | .semicolon => (.ok (), m)
  | op =>
    match op.compoundBase with
    | some base => m.compound base
    | none => if op.isPrefix then m.unary op else m.binary op

/-- Performs an instruction. The text of numbers and names is looked up in the script. -/
def step (script : String) (m : Machine) (i : Instruction) : Except Failure Unit × Machine :=
  match i.kind with
  | .number numeral =>
    m.pushResult (arithmeticResult (Number.ofLiteral (i.span.text script) numeral))
  | .name =>
    match m.store.intern (i.span.text script) with
    | (.ok id, store) => (.ok (), { m with store }.push (.writable id))
    | (.error e, store) => (.error e, { m with store })
  | .operator op => m.perform op

/-- Performs instructions until one fails. A failure that points nowhere points at the instruction
then. -/
def steps (script : String) : Machine → List Instruction → Except Failure Unit × Machine
  | m, [] => (.ok (), m)
  | m, i :: is =>
    match m.step script i with
    | (.ok (), m) => steps script m is
    | (.error e, m) => (.error (e.orSpan i.span), m)

/-- Takes the one value that a whole statement leaves. What a spread outside all brackets has set
aside is given up. -/
def finish (m : Machine) : Except Failure Object × Machine :=
  match m.outer with
  | _ :: _ => (.error malformed, m)
  | [] =>
    let m := m.releaseAll (m.frame.staged.flatMap (·.elements) ++ m.moved.reverse)
    let m := { m with moved := [], frame := { m.frame with staged := [] } }
    match m.values with
    | [result] => (.ok result, { m with values := [] })
    | _ => (.error malformed, m)

/-- The levels that are open, outermost first. -/
def frames (m : Machine) : List Frame := m.outer.reverse ++ [m.frame]

/-- Gives up all that the machine still holds, oldest first: the stack, what was moved aside, and
what is staged. -/
def abandon (m : Machine) : Store :=
  m.store.releaseAll
    (m.values.reverse ++ m.moved.reverse ++
      m.frames.flatMap fun frame => frame.staged.flatMap (·.elements))

/-- Runs a postfix sequence against a store. The result belongs to the caller. -/
def run (code : List Instruction) (script : String) (s : Store) :
    Except Failure Object × Store :=
  match steps script { store := s } code with
  | (.error e, m) => (.error e, m.abandon)
  | (.ok (), m) =>
    match m.finish with
    | (.error e, m) => (.error e, m.abandon)
    | (.ok result, m) => (.ok result, m.store)

end Machine

/-- Runs a program against a store. The result belongs to the caller, who gives it up with the
store's `release`. -/
def Program.run (p : Program) (script : String) (s : Store) : Except Failure Object × Store :=
  Machine.run p.code script s

end Reckon
