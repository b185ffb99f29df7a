import Reckon.Proofs.Evaluation
import Reckon.Proofs.Lockstep

/-!
# Running an expression

The postfix order of an expression makes the machine do what evaluating its tree does. The code of a
part puts its value on the stack and leaves everything else as it was. The code of a list puts its
last item on the stack and moves the others aside, so that closing its brackets collects them in
order. Where the evaluation fails, the run fails with the same fault, and the store is the same
then.
-/

namespace Reckon

namespace Machine

/-! ## Realising an evaluation -/

/-- A step or a run of the machine does what an evaluation does: it reaches the machine that belongs
to the answer, or it fails with the same fault on the same store. -/
def Realizes {α : Type} (q : Except Failure Unit × Machine) (r : Answer α)
    (reached : α → Store → Machine) : Prop :=
  match r with
  | (.ok a, t) => q = (.ok (), reached a t)
  | (.error e, t) => ∃ e', q.1 = .error e' ∧ e'.fault = e.fault ∧ q.2.store = t

/-- The machine with a value that has been worked out in the meantime. -/
def gaining (m : Machine) (obj : Object) (t : Store) : Machine := { m with store := t }.push obj

variable {α β : Type} {m : Machine} {script : String}

/-- **One part of a sequence after the other.** If the first part fails the second one is not begun,
in the evaluation as in the run. -/
theorem Realizes.append {r : Answer α} {next : α → Store → Answer β} {mid : α → Store → Machine}
    {reached : β → Store → Machine} {pre post : List Instruction}
    (hPre : Realizes (steps script m pre) r mid)
    (hPost : ∀ a t, r = (.ok a, t) → Realizes (steps script (mid a t) post) (next a t) reached) :
    Realizes (steps script m (pre ++ post)) (r.andThen next) reached := by
  obtain ⟨answer, t⟩ := r
  rw [steps_append]
  cases answer with
  | ok a =>
    have hReached : steps script m pre = (.ok (), mid a t) := hPre
    rw [hReached]
    exact hPost a t rfl
  | error e =>
    -- the failure comes from the first part, and the fault and the store with it
    obtain ⟨e', hError, hFault, hStore⟩ := hPre
    refine ⟨e', ?_, hFault, ?_⟩
    · generalize steps script m pre = q at hError
      obtain ⟨answer, n⟩ := q
      subst hError
      rfl
    · generalize steps script m pre = q at hError hStore
      obtain ⟨answer, n⟩ := q
      subst hError
      exact hStore

/-- A sequence of one instruction is that instruction. Only the place of a failure is filled in. -/
theorem Realizes.single {r : Answer α} {reached : α → Store → Machine} {i : Instruction}
    (h : Realizes (m.step script i) r reached) : Realizes (steps script m [i]) r reached := by
  unfold steps
  obtain ⟨answer, t⟩ := r
  cases answer with
  | ok a =>
    have hReached : m.step script i = (.ok (), reached a t) := h
    rw [hReached]
    rfl
  | error e =>
    obtain ⟨e', hError, hFault, hStore⟩ := h
    generalize m.step script i = q at hError hStore
    obtain ⟨answer, n⟩ := q
    subst hError
    exact ⟨e'.orSpan i.span, rfl, (Failure.orSpan_fault _ _).trans hFault, hStore⟩

/-- Where something has been taken first, an evaluation goes on with it. -/
theorem Realizes.andThen_ok {r : Answer α} {reached : α → Store → Machine}
    {q : Except Failure Unit × Machine} {f : α → β} {reached' : β → Store → Machine}
    (h : Realizes q r reached) (hSame : ∀ a t, r = (.ok a, t) → reached a t = reached' (f a) t) :
    Realizes q (r.andThen fun a t => (.ok (f a), t)) reached' := by
  obtain ⟨answer, t⟩ := r
  cases answer with
  | ok a =>
    have hReached : q = (.ok (), reached a t) := h
    rw [hSame a t rfl] at hReached
    exact hReached
  | error e => exact h

/-- What comes of values that have been taken off the stack: a result is put there, a failure leaves
the rest as it is. -/
def replied (m : Machine) (r : Answer Object) : Except Failure Unit × Machine :=
  { m with store := r.2 }.pushResult r.1

/-- Whatever is replied realizes itself. -/
theorem realizes_replied (m : Machine) (r : Answer Object) :
    Realizes (m.replied r) r m.gaining := by
  obtain ⟨answer, t⟩ := r
  cases answer with
  | ok obj => rfl
  | error e => exact ⟨e, rfl, rfl, rfl⟩

/-! ## Operators -/

/-- A prefix operator replies with what it makes of the value on top. -/
theorem unary_eq_replied (m : Machine) (s : Store) (op : Operator) (obj : Object) :
    (m.gaining obj s).unary op = m.replied (s.prefixed op obj) := rfl

theorem applied_eq (m : Machine) (op : Operator) (lhs rhs : Object) :
    m.applied op lhs rhs = m.store.combined op lhs rhs := rfl

/-- A plain operator gives up both operands and replies with a number. -/
theorem binary_eq_replied (m : Machine) (s : Store) (op : Operator) (lhs rhs : Object) :
    ((m.gaining lhs s).gaining rhs s).binary op =
      m.replied (s.combined op lhs rhs, (s.release lhs).release rhs) := rfl

/-- To assign to a slot is to reply with the handle on it. -/
theorem assignSlot_eq_replied (m : Machine) (s : Store) (id : SlotId) (obj : Object) :
    { m with store := s }.assignSlot id obj = m.replied (s.assigned id obj) := by
  unfold assignSlot Store.assigned
  dsimp only
  cases s.bind id obj with
  | mk answer t => cases answer <;> rfl

/-- An assignment replies with what the evaluation of one gives. -/
theorem assign_eq_replied (m : Machine) (s : Store) (lhs rhs : Object) :
    ((m.gaining lhs s).gaining rhs s).assign = m.replied (s.assignment lhs rhs) := by
  cases lhs with
  | writable id =>
    unfold Store.assignment assign
    simp only [gaining, push]
    -- a slot that is assigned to itself is left alone
    split
    · rfl
    · exact assignSlot_eq_replied m s id rhs
  | _ => rfl

/-- So does a compound assignment. -/
theorem compound_eq_replied (m : Machine) (s : Store) (base : Operator) (lhs rhs : Object) :
    ((m.gaining lhs s).gaining rhs s).compound base =
      m.replied (s.compoundAssignment base lhs rhs) := by
  unfold Store.compoundAssignment compound
  simp only [gaining, push, applied_eq]
  -- the arithmetic comes first, and whether there is a slot on the left is looked at later
  cases s.combined base lhs rhs with
  | error e => rfl
  | ok value =>
    cases lhs with
    | writable id => exact assignSlot_eq_replied m (s.release rhs) id value
    | _ => rfl

/-- A binary operator makes one value of the two values on top. -/
theorem perform_eq_replied (m : Machine) (s : Store) {op : Operator} (hOp : op.isBinary)
    (lhs rhs : Object) :
    ((m.gaining lhs s).gaining rhs s).perform op = m.replied (s.infixed op lhs rhs) := by
  rw [perform_of_isBinary hOp]
  split
  · rename_i hAssign
    rw [hAssign]
    exact assign_eq_replied m s lhs rhs
  · rename_i hOther
    cases hBase : op.compoundBase with
    | some base =>
      rw [s.infixed_of_compoundBase hBase]
      exact compound_eq_replied m s base lhs rhs
    | none =>
      rw [s.infixed_of_plain hOther hBase]
      exact binary_eq_replied m s op lhs rhs

/-- An operator between its operands makes one value of the two on top. -/
theorem realizes_infixed (m : Machine) (s : Store) {op : Operator} (hOp : op.isBinary)
    (lhs rhs : Object) :
    Realizes (((m.gaining lhs s).gaining rhs s).perform op) (s.infixed op lhs rhs) m.gaining := by
  rw [perform_eq_replied m s hOp]
  exact realizes_replied m _

/-- A prefix operator other than a spread makes one value of the value on top. -/
theorem realizes_prefixed (m : Machine) (s : Store) {op : Operator} (hOp : op.isPrefix)
    (hSpread : op ≠ .spread) (obj : Object) :
    Realizes ((m.gaining obj s).perform op) (s.prefixed op obj) m.gaining := by
  rw [perform_of_isPrefix hOp, if_neg hSpread, unary_eq_replied]
  exact realizes_replied m _

/-! ## Lists -/

/-- The machine with the items of a list: the last one is on the stack, and the others are moved
aside or wait for the values in front of them. -/
def taking (m : Machine) (items : List Object) (t : Store) : Machine :=
  match items.reverse with
  | [] => { m with store := t }
  | last :: others => ({ m with store := t }.setAside others).push last

/-- A list of one item is the item on the stack. -/
theorem taking_singleton (m : Machine) (obj : Object) (t : Store) :
    m.taking [obj] t = m.gaining obj t := by
  simp only [taking, List.reverse_singleton, setAside, List.isEmpty_nil, if_true]
  split <;> rfl

/-- Of several items the last one is on the stack, and the others have been set aside. -/
theorem taking_eq {items others : List Object} {last : Object}
    (hItems : items.reverse = last :: others) (t : Store) :
    m.taking items t = ({ m with store := t }.setAside others).push last := by
  unfold taking
  rw [hItems]

/-- The machine takes the elements of an array in the same order. -/
theorem elements_eq (s : Store) (writable : Bool) (taken : List Object) (ids : List SlotId) :
    elements s writable taken ids =
      ((s.elements writable ids).1.reverse ++ taken, (s.elements writable ids).2) := by
  -- what is taken goes in front, so the elements come out in reverse order
  induction ids generalizing s taken with
  | nil => rfl
  | cons id ids ih =>
    rw [elements, ih]
    simp only [Store.elements, List.reverse_cons, List.append_assoc, List.singleton_append]

/-- A spread takes the elements of the array on top, or refuses what is no array and what is
empty. -/
theorem realizes_spread (m : Machine) (s : Store) (obj : Object) :
    Realizes (m.gaining obj s).spread (s.expanded obj) m.taking := by
  unfold Store.expanded spread
  simp only [gaining, push]
  cases s.array? obj with
  | none => exact ⟨_, rfl, rfl, rfl⟩
  | some array =>
    obtain ⟨slots, writable⟩ := array
    simp only [elements_eq, List.append_nil]
    cases hItems : (s.elements writable slots).1.reverse with
    | nil =>
      rw [if_pos (List.reverse_eq_nil_iff.1 hItems)]
      exact ⟨_, rfl, rfl, rfl⟩
    | cons last others =>
      have hSome : (s.elements writable slots).1 ≠ [] := by
        intro hNone
        simp [hNone] at hItems
      have hTaken := taking_eq (m := m) hItems ((s.elements writable slots).2.release obj)
      rw [if_neg hSome]
      exact congrArg (Prod.mk _) hTaken.symm

/-- A machine that stands at the beginning of a list. -/
structure Fresh (m : Machine) : Prop where
  values : m.values.length = m.frame.base
  staged : m.frame.staged = []

theorem fresh_start (s : Store) : Fresh { store := s } := ⟨rfl, rfl⟩

theorem fresh_opening (m : Machine) (b : Bracket) : (m.opening b).Fresh := ⟨rfl, rfl⟩

/-- At the beginning of a list nothing has to wait. -/
theorem Fresh.taking_eq (hm : m.Fresh) {items others : List Object} {last : Object}
    (hItems : items.reverse = last :: others) (t : Store) :
    m.taking items t = { m with
      store := t
      values := last :: m.values
      moved := others ++ m.moved
      frame := { m.frame with accepted := m.frame.accepted + others.length } } := by
  have hPending : pending { m with store := t } = 0 := by
    simp only [pending, hm.values, Nat.sub_self]
  rw [Machine.taking_eq hItems, setAside, if_pos hPending]
  rfl

/-- The comma between an item and the list in front of it puts them together. -/
theorem Fresh.comma (hm : m.Fresh) {front items : List Object} (hFront : front ≠ [])
    (hItems : items ≠ []) (s t : Store) :
    ((m.taking front s).taking items t).comma = (.ok (), m.taking (front ++ items) t) := by
  obtain ⟨last, others, hLast⟩ := List.exists_cons_of_ne_nil (mt List.reverse_eq_nil_iff.1 hFront)
  obtain ⟨last', others', hLast'⟩ :=
    List.exists_cons_of_ne_nil (mt List.reverse_eq_nil_iff.1 hItems)
  have hAll : (front ++ items).reverse = last' :: (others' ++ last :: others) := by
    rw [List.reverse_append, hLast, hLast', List.cons_append]
  rw [hm.taking_eq hLast, hm.taking_eq hAll, Machine.taking_eq hLast', setAside]
  -- the last of the front waits for this comma
  have hPending : m.values.length + 1 - m.frame.base = 1 := by
    have hValues := hm.values
    omega
  have hBoth : m.values.length + 1 + 1 - m.frame.base = 2 := by omega
  cases others' with
  | nil =>
    simp [Machine.comma, pending, push, hPending, hBoth, countDown, hm.staged, Nat.add_assoc]
  | cons obj objs =>
    -- and so do the elements in front of the last item
    simp [Machine.comma, pending, push, hPending, hBoth, countDown, hm.staged, Nat.add_assoc,
      Nat.add_comm, Nat.add_left_comm]

/-- Closing brackets collects the items between them. -/
theorem leave_taking (m : Machine) (b : Bracket) (items : List Object) (t : Store) :
    ((m.opening b).taking items t).leave m.frame m.outer = (items, { m with store := t }) := by
  cases hItems : items.reverse with
  | nil =>
    rw [List.reverse_eq_nil_iff.1 hItems]
    simp [taking, leave, pending, opening]
  | cons last others =>
    -- the last item is on the stack, and as many as were accepted lie on top of what was moved
    rw [(fresh_opening m b).taking_eq hItems, List.reverse_eq_cons_iff.1 hItems]
    simp [leave, pending, opening]

/-! ## Brackets -/

/-- A group replies with its last value. -/
theorem closingGroup_eq_replied (m : Machine) (s : Store) (items : List Object) :
    { m with store := s }.closingGroup items = m.replied (s.lastOf items) := by
  unfold closingGroup
  cases hItems : items.reverse with
  | nil =>
    rw [List.reverse_eq_nil_iff.1 hItems]
    rfl
  | cons last others =>
    rw [s.lastOf_eq hItems]
    rfl

/-- To close a group is to evaluate one. -/
theorem realizes_closingGroup (m : Machine) (s : Store) (items : List Object) :
    Realizes ({ m with store := s }.closingGroup items) (s.lastOf items) m.gaining := by
  rw [closingGroup_eq_replied]
  exact realizes_replied m _

theorem indexOf_eq (m : Machine) (index : Object) : m.indexOf index = m.store.positionOf index :=
  rfl

/-- To index is to take the element at the position, and nothing but the store is changed. -/
theorem indexing_eq_elementAt (m : Machine) (target index : Object) :
    m.indexing target index =
      ((m.store.elementAt target index).1,
        { m with store := (m.store.elementAt target index).2 }) := by
  unfold indexing Store.elementAt
  rw [indexOf_eq]
  cases m.store.positionOf index with
  | error e => rfl
  | ok position =>
    cases m.store.array? target with
    | none => rfl
    | some array =>
      obtain ⟨position, overflow⟩ := position
      obtain ⟨slots, writable⟩ := array
      dsimp only
      cases slots[position]? with
      | none => rfl
      | some id => cases overflow <;> rfl

/-- The brackets of an index reply with an element of what stands in front of them. -/
theorem closingIndex_eq_replied (m : Machine) (s : Store) (target : Object) {items : List Object}
    (hItems : items ≠ []) :
    (m.gaining target s).closingIndex items = m.replied (s.indexed target items) := by
  obtain ⟨index, others, hIndex⟩ :=
    List.exists_cons_of_ne_nil (mt List.reverse_eq_nil_iff.1 hItems)
  unfold closingIndex Store.indexed
  rw [hIndex, s.lastOf_eq hIndex]
  simp only [releaseAll, gaining, push, indexing_eq_elementAt, Answer.andThen]
  rfl

/-- To close an index is to evaluate one. -/
theorem realizes_closingIndex (m : Machine) (s : Store) (target : Object) {items : List Object}
    (hItems : items ≠ []) :
    Realizes ((m.gaining target s).closingIndex items) (s.indexed target items) m.gaining := by
  rw [closingIndex_eq_replied m s target hItems]
  exact realizes_replied m _

/-- To call is to invoke the function, and nothing but the store is changed. -/
theorem calling_eq_invoked (m : Machine) (callee : Object) (args : List Object) :
    m.calling callee args =
      ((m.store.invoked callee args).1,
        { m with store := (m.store.invoked callee args).2 }) := by
  unfold calling Store.invoked
  rcases m.store.payload? callee with _ | (n | f | slots) <;> rfl

/-- The brackets of a call reply with what the function in front of them gives. -/
theorem closingCall_eq_replied (m : Machine) (s : Store) (callee : Object) (args : List Object) :
    (m.gaining callee s).closingCall args = m.replied (s.called callee args) := by
  unfold closingCall Store.called
  simp only [gaining, push, calling_eq_invoked]
  rfl

/-- To close a call is to evaluate one. -/
theorem realizes_closingCall (m : Machine) (s : Store) (callee : Object) (args : List Object) :
    Realizes ((m.gaining callee s).closingCall args) (s.called callee args) m.gaining := by
  rw [closingCall_eq_replied]
  exact realizes_replied m _

/-- The brackets of an array reply with a new array. -/
theorem closingArray_eq_replied (m : Machine) (s : Store) (items : List Object) :
    { m with store := s }.closingArray items = m.replied (s.arrayOf items) := by
  rw [s.arrayOf_eq]
  rfl

/-- To close an array is to evaluate one. -/
theorem realizes_closingArray (m : Machine) (s : Store) (items : List Object) :
    Realizes ({ m with store := s }.closingArray items) (s.arrayOf items) m.gaining := by
  rw [closingArray_eq_replied]
  exact realizes_replied m _

/-- Items are taken inside the present level. -/
@[simp] theorem outer_taking (m : Machine) (items : List Object) (t : Store) :
    (m.taking items t).outer = m.outer := by
  unfold taking setAside
  dsimp only
  split
  · rfl
  · split
    · rfl
    · split <;> rfl

/-- What a list takes is in the store that the list has left. -/
@[simp] theorem store_taking (m : Machine) (items : List Object) (t : Store) :
    (m.taking items t).store = t := by
  unfold taking setAside
  dsimp only
  split
  · rfl
  · split
    · rfl
    · split <;> rfl

/-- Closing brackets does what the construct does with the items between them. -/
theorem closing_taking (m : Machine) (b : Bracket) (items : List Object) (t : Store) :
    ((m.opening b).taking items t).closing b =
      match b with
      | .group => { m with store := t }.closingGroup items
      | .index => { m with store := t }.closingIndex items
      | .call => { m with store := t }.closingCall items
      | .array => { m with store := t }.closingArray items := by
  have hOuter : ((m.opening b).taking items t).outer = m.frame :: m.outer := outer_taking _ _ _
  unfold closing
  cases b <;> simp only [hOuter, leave_taking]

/-- Code between brackets: the items are taken, and then the brackets are closed. -/
theorem Realizes.enclosed {b : Bracket} {code : List Instruction} {r : Answer (List Object)}
    {next : List Object → Store → Answer α} {reached : α → Store → Machine}
    (hItems : Realizes (steps script (m.opening b) code) r (m.opening b).taking)
    (hClosing : ∀ items t, r = (.ok items, t) →
      Realizes (((m.opening b).taking items t).closing b) (next items t) reached)
    (opening closing : Span) (depth : Nat) :
    Realizes (steps script m (encloseCode b opening closing depth code)) (r.andThen next)
      reached := by
  show Realizes (steps script (m.opening b) (code ++ [_])) _ _
  exact hItems.append fun items t hr => Realizes.single (hClosing items t hr)

/-! ## Trees -/

/-- A number evaluates to what its literal denotes. -/
theorem realizes_number (m : Machine) (script : String) (numeral : Numeral) (span : Span)
    (depth : Nat) :
    Realizes (m.step script ⟨.number numeral, span, depth⟩)
      (Store.asObject (Number.ofLiteral (span.text script) numeral), m.store) m.gaining :=
  realizes_replied m _

/-- A name evaluates to a handle on its slot. -/
theorem name_eq_replied (m : Machine) (script : String) (span : Span) (depth : Nat) :
    m.step script ⟨.name, span, depth⟩ = m.replied ((Expr.name span).eval script m.store) := by
  rw [Expr.eval]
  unfold step
  dsimp only
  cases m.store.intern (span.text script) with
  | mk answer t => cases answer <;> rfl

/-- The instruction for a name does so as well. -/
theorem realizes_name (m : Machine) (script : String) (span : Span) (depth : Nat) :
    Realizes (m.step script ⟨.name, span, depth⟩) ((Expr.name span).eval script m.store)
      m.gaining := by
  rw [name_eq_replied]
  exact realizes_replied m _

end Machine

open Machine

mutual

/-- **The code of an expression works out its value.** -/
theorem Expr.Fits.realizes_eval (script : String) :
    ∀ {e : Expr}, e.Fits → e.SpreadsAreItems false → e.level ≤ 14 → ∀ (depth : Nat) (m : Machine),
      Realizes (steps script m (e.code depth)) (e.eval script m.store) m.gaining
  | .number numeral span, _, _, _, depth, m => by
    rw [Expr.eval]
    exact .single (realizes_number m script numeral span depth)
  | .name span, _, _, _, depth, m => .single (realizes_name m script span depth)
  | .prefixed op span e, ⟨hLevel, he⟩, ⟨hSpread, hItems⟩, _, depth, m => by
    have hTwo := op.rightBound_eq
    have hPlain : op.1 ≠ .spread := fun hEq => by cases hSpread hEq
    -- the operand is worked out first, and then the operator makes one value of it
    rw [Expr.eval]
    refine (he.realizes_eval script hItems (by omega) depth m).append fun obj t _ => ?_
    exact .single (realizes_prefixed m t op.2 hPlain obj)
  | .binary op span l r, ⟨⟨hLeft, hl⟩, hRight, hr⟩, ⟨hLeftItems, hRightItems⟩, _, depth, m => by
    have hBounds := op.bounds
    have hPriority := op.priority_bounds
    rw [Expr.eval, Expr.code, List.append_assoc]
    -- the right operand is worked out while the left one waits on the stack
    refine (hl.realizes_eval script hLeftItems (by omega) depth m).append fun lhs t _ => ?_
    refine (hr.realizes_eval script hRightItems (by omega) depth (m.gaining lhs t)).append
      fun rhs u _ => ?_
    exact .single (realizes_infixed m u op.2 lhs rhs)
  -- a list is no value of its own
  | .comma _ _ _, _, _, hLevel, _, _ => by simp [Expr.level, Operator.priority] at hLevel
  | .group o c contents, h, hItems, _, depth, m => by
    have hFits : contents.Fits := h
    -- the items are taken behind the bracket, and closing it keeps the last one
    rw [Expr.eval]
    refine (hFits.realizes_items script hItems (depth + 1) (fresh_opening m .group)).enclosed
      (fun items t _ => ?_) o c depth
    rw [closing_taking]
    exact realizes_closingGroup m t items
  | .array o c contents, h, hItems, _, depth, m => by
    have hFits : contents.Fits := h
    -- the items are taken behind the bracket, and closing it makes an array of them
    rw [Expr.eval]
    refine (hFits.realizes_items script hItems (depth + 1) (fresh_opening m .array)).enclosed
      (fun items t _ => ?_) o c depth
    rw [closing_taking]
    exact realizes_closingArray m t items
  | .call f o c contents, ⟨⟨hCallee, hf⟩, hContents⟩, ⟨hCalleeItems, hItems⟩, _, depth, m => by
    have hLevel := Expr.level_of_isCallee hCallee
    -- the function waits below the brackets
    rw [Expr.eval]
    refine (hf.realizes_eval script hCalleeItems (by omega) depth m).append fun callee t _ => ?_
    refine (hContents.realizes_items script hItems (depth + 1)
      (fresh_opening (m.gaining callee t) .call)).enclosed (fun args u _ => ?_) o c depth
    rw [closing_taking]
    exact realizes_closingCall m u callee args
  | .index e o c i, ⟨⟨hLevel, he⟩, hi⟩, ⟨hTargetItems, hItems⟩, _, depth, m => by
    -- the array waits below the brackets
    rw [Expr.eval]
    refine (he.realizes_eval script hTargetItems (by omega) depth m).append fun target t _ => ?_
    refine (hi.realizes_items script hItems (depth + 1)
      (fresh_opening (m.gaining target t) .index)).enclosed (fun items u hOk => ?_) o c depth
    rw [closing_taking]
    exact realizes_closingIndex m u target (Expr.items_ne_nil hItems hOk)
termination_by e => (sizeOf e, 0)

/-- The code of an item takes what it contributes. -/
theorem Expr.Fits.realizes_item (script : String) :
    ∀ {e : Expr}, e.Fits → e.SpreadsAreItems true → e.level ≤ 14 → ∀ (depth : Nat) (m : Machine),
      Realizes (steps script m (e.code depth)) (e.item script m.store) m.taking
  | e, h, hItem, hLevel, depth, m => by
    rcases hItem.cases with hPlain | ⟨hOp, span, operand, rfl, hOperand⟩
    · -- a value is an item by itself
      rw [Expr.item_eq hPlain]
      exact (h.realizes_eval script hPlain hLevel depth m).andThen_ok
        fun obj t _ => (taking_singleton m obj t).symm
    · -- a spread takes the elements of its operand
      obtain ⟨hBound, hFits⟩ := h
      have hTwo := PrefixOperator.rightBound_eq ⟨.spread, hOp⟩
      rw [Expr.item]
      refine (hFits.realizes_eval script hOperand (by omega) depth m).append fun obj t _ => ?_
      exact .single (realizes_spread m t obj)
termination_by e => (sizeOf e, 1)

/-- The code of a list takes its items, one after the other. -/
theorem Expr.Fits.realizes_items (script : String) :
    ∀ {e : Expr}, e.Fits → e.SpreadsAreItems true → ∀ (depth : Nat) {m : Machine}, m.Fresh →
      Realizes (steps script m (e.code depth)) (e.items script m.store) m.taking
  | e, h, hItems, depth, m, hm => by
    rcases e.level_bounds.2 with hLevel | ⟨-, span, l, r, rfl⟩
    -- a list of one item, or a list in front of a comma and an item behind it
    · rw [Expr.items_eq hLevel]
      exact h.realizes_item script hItems hLevel depth m
    · obtain ⟨⟨-, hl⟩, hLast, hr⟩ := h
      obtain ⟨hFrontItems, hLastItem⟩ := hItems
      rw [Expr.items, Expr.code, List.append_assoc]
      refine (hl.realizes_items script hFrontItems depth hm).append fun front t hFront => ?_
      -- the item is worked out on top of the front, and the comma puts it behind it
      have hItem := hr.realizes_item script hLastItem hLast depth (m.taking front t)
      rw [store_taking] at hItem
      refine hItem.append fun items u hOk => ?_
      exact .single (hm.comma (Expr.items_ne_nil hFrontItems hFront)
        (Expr.item_ne_nil hLastItem hOk) t u)
termination_by e => (sizeOf e, 2)

/-- Between brackets there is a list or nothing. -/
theorem Contents.Fits.realizes_items (script : String) :
    ∀ {contents : Contents}, contents.Fits → contents.SpreadsAreItems → ∀ (depth : Nat)
      {m : Machine}, m.Fresh →
      Realizes (steps script m (contents.code depth)) (contents.items script m.store) m.taking
  | .empty, _, _, _, m, _ => by
    rw [Contents.items]
    rfl
  | .list e, h, hItems, depth, m, hm => by
    have he : e.Fits := h
    rw [Contents.items]
    exact he.realizes_items script hItems depth hm
termination_by contents => (sizeOf contents, 0)

end

end Reckon
