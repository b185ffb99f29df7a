import Reckon.Machine
import Reckon.Proofs.Expression

/-!
# Evaluating expressions

What an expression means, told by recursion over its tree: the parts are evaluated from left to
right, and then the construct itself is applied to what they gave. There are no stacks. The store
and the numbers do the work; an operation gives up the objects that it was handed, and after a
failure evaluation stops where it is.

A list of items between brackets is evaluated to all of its items (`Expr.items`). An item that is a
spread contributes the elements of an array. Where one value is wanted it is the last of the list.
-/

namespace Reckon

/-- An answer, with the store as it is then. -/
abbrev Answer (α : Type) := Except Failure α × Store

/-- Goes on with an answer, unless there is none. -/
def Answer.andThen {α β : Type} (r : Answer α) (next : α → Store → Answer β) : Answer β :=
  match r with
  | (.ok a, s) => next a s
  | (.error e, s) => (.error e, s)

/-- Going on twice can be told from the end or from the beginning. -/
theorem Answer.andThen_assoc {α β γ : Type} (r : Answer α) (f : α → Store → Answer β)
    (g : β → Store → Answer γ) :
    (r.andThen f).andThen g = r.andThen fun a s => (f a s).andThen g := by
  obtain ⟨answer, s⟩ := r
  cases answer <;> rfl

/-- What has gone on to an answer had one to go on from. -/
theorem Answer.andThen_eq_ok {α β : Type} {r : Answer α} {next : α → Store → Answer β} {b : β}
    {t : Store} (h : r.andThen next = (.ok b, t)) :
    ∃ a s, r = (.ok a, s) ∧ next a s = (.ok b, t) := by
  obtain ⟨answer, s⟩ := r
  cases answer with
  | ok a => exact ⟨a, s, rfl, h⟩
  | error e => cases h

/-- Going on without doing anything changes nothing. -/
theorem Answer.andThen_ok {α : Type} (r : Answer α) :
    (r.andThen fun a s => (.ok a, s)) = r := by
  obtain ⟨answer, s⟩ := r
  cases answer <;> rfl

namespace Store

/-! ## Numbers -/

/-- The number that an object turns out to be. -/
def numberOf (s : Store) (obj : Object) : Except Failure Number :=
  match s.payload? obj with
  | some (.number n) => .ok n
  | _ => .error { fault := TypeFault.mathAmongNonNumbers }

/-- A number as an object. -/
def asObject : Except Fault Number → Except Failure Object
  | .ok n => .ok (.number n)
  | .error f => .error { fault := f }

/-- A prefix operator on an object. -/
def prefixed (s : Store) (op : Operator) (obj : Object) : Answer Object :=
  let answer := match s.numberOf obj with
    | .ok n => asObject (n.unary op)
    | .error e => .error e
  (answer, s.release obj)

/-- What a binary operator makes of two objects. -/
def combined (s : Store) (op : Operator) (lhs rhs : Object) : Except Failure Object :=
  match s.numberOf lhs, s.numberOf rhs with
  | .error e, _ => .error e
  | .ok _, .error e => .error e
  | .ok m, .ok n => asObject (m.binary op n)

/-- Binds a slot and gives a handle on it. -/
def assigned (s : Store) (id : SlotId) (obj : Object) : Answer Object :=
  Answer.andThen (s.bind id obj) fun _ s => (.ok (.writable id), s)

/-- An assignment. The left side has to name a slot; a slot assigned to itself stays as it is. -/
def assignment (s : Store) (lhs rhs : Object) : Answer Object :=
  match lhs with
  | .writable id => if rhs.slot = id then (.ok (.writable id), s) else s.assigned id rhs
  | lhs => (.error { fault := RuntimeFault.assignLeftValue }, (s.release lhs).release rhs)

/-- A compound assignment: the operator first, then the assignment of what it makes. -/
def compoundAssignment (s : Store) (base : Operator) (lhs rhs : Object) : Answer Object :=
  match s.combined base lhs rhs, lhs with
  | .error e, lhs => (.error e, (s.release rhs).release lhs)
  | .ok value, .writable id => (s.release rhs).assigned id value
  | .ok _, lhs => (.error { fault := RuntimeFault.assignLeftValue }, (s.release rhs).release lhs)

/-- A binary operator on two objects. An assignment that is written together with an operator
applies that operator. -/
def infixed (s : Store) (op : Operator) (lhs rhs : Object) : Answer Object :=
  match op with
  | .assign => s.assignment lhs rhs
  | .divAssign => s.compoundAssignment .div lhs rhs
  | .mulAssign => s.compoundAssignment .mul lhs rhs
  | .modAssign => s.compoundAssignment .mod lhs rhs
  | .addAssign => s.compoundAssignment .add lhs rhs
  | .subAssign => s.compoundAssignment .sub lhs rhs
  | .shlAssign => s.compoundAssignment .shl lhs rhs
  | .shrAssign => s.compoundAssignment .shr lhs rhs
  | .andAssign => s.compoundAssignment .bitAnd lhs rhs
  | .xorAssign => s.compoundAssignment .bitXor lhs rhs
  | .orAssign => s.compoundAssignment .bitOr lhs rhs
  | op => (s.combined op lhs rhs, (s.release lhs).release rhs)

/-- The operators that are written together with an assignment are those that the machine applies
for them. -/
theorem infixed_of_compoundBase (s : Store) {op base : Operator}
    (hBase : op.compoundBase = some base) (lhs rhs : Object) :
    s.infixed op lhs rhs = s.compoundAssignment base lhs rhs := by
  -- ten operators have a base, and the base determines the operator
  cases op <;> cases hBase <;> rfl

/-- All others work on two numbers and assign nothing. -/
theorem infixed_of_plain (s : Store) {op : Operator} (hAssign : op ≠ .assign)
    (hBase : op.compoundBase = none) (lhs rhs : Object) :
    s.infixed op lhs rhs = (s.combined op lhs rhs, (s.release lhs).release rhs) := by
  cases op with
  | assign => exact absurd rfl hAssign
  | divAssign | mulAssign | modAssign | addAssign | subAssign | shlAssign | shrAssign | andAssign
      | xorAssign | orAssign => cases hBase
  | _ => rfl

/-! ## Lists -/

/-- Handles on the elements in slots, in order. -/
def elements (s : Store) (writable : Bool) : List SlotId → List Object × Store
  | [] => ([], s)
  | id :: ids =>
    let first := s.element id writable
    let others := first.2.elements writable ids
    (first.1 :: others.1, others.2)

/-- The elements of an array, of which there has to be one. -/
def expanded (s : Store) (obj : Object) : Answer (List Object) :=
  match s.array? obj with
  | none => (.error { fault := TypeFault.nonExpandableObject }, s.release obj)
  | some (slots, writable) =>
    let r := s.elements writable slots
    let s := r.2.release obj
    if r.1 = [] then (.error { fault := RuntimeFault.expandEmptyArray }, s) else (.ok r.1, s)

/-- What is expanded has elements. -/
theorem ne_nil_of_expanded {s t : Store} {obj : Object} {objs : List Object}
    (h : s.expanded obj = (.ok objs, t)) : objs ≠ [] := by
  unfold expanded at h
  split at h
  · cases h
  · dsimp only at h
    split at h
    · cases h
    · rename_i hSome
      cases h
      exact hSome

/-- The last item of a list; nothing if there is none. The other items are given up. -/
def lastOf (s : Store) (items : List Object) : Answer Object :=
  match items.getLast? with
  | some last => (.ok last, s.releaseAll items.dropLast)
  | none => (.ok .nil, s)

/-- The last item is the first one of the list turned around. -/
theorem lastOf_eq (s : Store) {items others : List Object} {last : Object}
    (h : items.reverse = last :: others) :
    s.lastOf items = (.ok last, s.releaseAll others.reverse) := by
  unfold lastOf
  rw [List.reverse_eq_cons_iff.1 h, List.getLast?_concat, List.dropLast_concat]

/-- The items in slots of their own, as far as there are any left. If they run out at an item, the
failure comes with the items behind it. -/
def housed (s : Store) : List Object → List SlotId × Option (Failure × List Object) × Store
  | [] => ([], none, s)
  | item :: items =>
    match s.materialize item (s.request item true) with
    | (.ok handle, s) =>
      let others := s.housed items
      (handle.slot :: others.1, others.2)
    | (.error e, s) => ([], some (e, items), s)

/-- The array that the items make up in slots of their own. If there are too few slots, the items
that have none are given up, and then the slots of the others. -/
def arrayOf (s : Store) (items : List Object) : Answer Object :=
  match s.housed items with
  | (slots, none, s) => (.ok (.array slots), s)
  | (slots, some (e, left), s) => (.error e, (s.releaseAll left).release (.array slots))

/-- The machine keeps the slots that it has made in front, the latest first, and ends up with those
that the items are housed in. -/
theorem slotsFor_eq (s : Store) (made : List SlotId) (items : List Object) :
    Machine.slotsFor s made items =
      match s.housed items with
      | (slots, none, t) => (.ok (made.reverse ++ slots), t)
      | (slots, some (e, left), t) =>
        (.error e, (t.releaseAll left).release (.array (made.reverse ++ slots))) := by
  -- the slot of each item goes in front of those that were made before
  induction items generalizing s made with
  | nil =>
    show (Except.ok made.reverse, s) = (Except.ok (made.reverse ++ []), s)
    rw [List.append_nil]
  | cons item items ih =>
    unfold Machine.slotsFor housed
    obtain ⟨e | handle, t⟩ := s.materialize item (s.request item true)
    · -- this item has got no slot, so there are those made before and no others
      show _ = (Except.error e, (t.releaseAll items).release (.array (made.reverse ++ [])))
      rw [List.append_nil]
    · dsimp only
      rw [ih]
      simp only [List.reverse_cons, List.append_assoc, List.singleton_append]
      rcases t.housed items with ⟨slots, _ | ⟨e, left⟩, u⟩ <;> rfl

/-- The array that items make up is the one that the machine makes of them. -/
theorem arrayOf_eq (s : Store) (items : List Object) :
    s.arrayOf items =
      ((Machine.slotsFor s [] items).1.map .array, (Machine.slotsFor s [] items).2) := by
  rw [slotsFor_eq]
  unfold arrayOf
  rcases s.housed items with ⟨slots, _ | ⟨e, left⟩, t⟩ <;> rfl

/-- The position that an index asks for, and whether it has overflowed. -/
def positionOf (s : Store) (index : Object) : Except Failure (Nat × Bool) :=
  match s.payload? index with
  | some (.number (.int value _ overflow)) =>
    if 0 ≤ value then .ok (value.toInt.toNat, overflow)
    else .error { fault := IndexFault.expectNonNegativeInteger }
  | _ => .error { fault := IndexFault.expectNonNegativeInteger }

/-- The element of an array at an index. The index is looked at before the array. -/
def elementAt (s : Store) (target index : Object) : Answer Object :=
  match s.positionOf index, s.array? target with
  | .error e, _ => (.error e, s)
  | .ok _, none => (.error { fault := TypeFault.nonIndexableObject }, s)
  | .ok (position, overflow), some (slots, writable) =>
    match slots[position]?, overflow with
    | some id, false =>
      let r := s.element id writable
      (.ok r.1, r.2)
    | _, _ => (.error { fault := IndexFault.outOfRange }, s)

/-- The element of an array at the last of the items, which are given up like the array. -/
def indexed (s : Store) (target : Object) (items : List Object) : Answer Object :=
  (s.lastOf items).andThen fun index s =>
    let r := s.elementAt target index
    (r.1, (r.2.release index).release target)

/-- Calls what should be a function. -/
def invoked (s : Store) (callee : Object) (args : List Object) : Answer Object :=
  match s.payload? callee with
  | some (.function f) => s.call f args
  | _ => (.error { fault := TypeFault.nonCallableObject }, s)

/-- A call. The function and its arguments are given up. -/
def called (s : Store) (callee : Object) (args : List Object) : Answer Object :=
  let r := s.invoked callee args
  (r.1, (r.2.releaseAll args).release callee)

end Store

/-! ## Trees -/

mutual

/-- The value of an expression. The text of numbers and names is looked up in the script. -/
def Expr.eval (script : String) : Expr → Store → Answer Object
  | .number numeral span, s => (Store.asObject (Number.ofLiteral (span.text script) numeral), s)
  | .name span, s =>
    Answer.andThen (s.intern (span.text script)) fun id s => (.ok (.writable id), s)
  | .prefixed op _ e, s => (e.eval script s).andThen fun obj s => s.prefixed op obj
  | .binary op _ l r, s =>
    (l.eval script s).andThen fun lhs s =>
      (r.eval script s).andThen fun rhs s => s.infixed op lhs rhs
  | .comma _ l r, s =>
    (l.items script s).andThen fun front s =>
      (r.item script s).andThen fun items s => s.lastOf (front ++ items)
  | .group _ _ contents, s => (contents.items script s).andThen fun items s => s.lastOf items
  | .array _ _ contents, s => (contents.items script s).andThen fun items s => s.arrayOf items
  | .call f _ _ contents, s =>
    (f.eval script s).andThen fun callee s =>
      (contents.items script s).andThen fun args s => s.called callee args
  | .index e _ _ i, s =>
    (e.eval script s).andThen fun target s =>
      (i.items script s).andThen fun items s => s.indexed target items
termination_by e => (sizeOf e, 0)

/-- The values that an expression contributes to a list as one item: those of an array behind a
spread, otherwise its own. -/
def Expr.item (script : String) : Expr → Store → Answer (List Object)
  | .prefixed ⟨.spread, _⟩ _ e, s => (e.eval script s).andThen fun obj s => s.expanded obj
  | e, s => (e.eval script s).andThen fun obj s => (.ok [obj], s)
termination_by e => (sizeOf e, 1)

/-- The values of an expression as a list of items. -/
def Expr.items (script : String) : Expr → Store → Answer (List Object)
  | .comma _ l r, s =>
    (l.items script s).andThen fun front s =>
      (r.item script s).andThen fun items s => (.ok (front ++ items), s)
  | e, s => e.item script s
termination_by e => (sizeOf e, 2)

/-- The values between brackets. -/
def Contents.items (script : String) : Contents → Store → Answer (List Object)
  | .empty, s => (.ok [], s)
  | .list e, s => e.items script s
termination_by contents => (sizeOf contents, 0)

end

/-- The value of a whole statement: that of its last item. -/
def Expr.result (script : String) (e : Expr) (s : Store) : Answer Object :=
  (e.items script s).andThen fun items s => s.lastOf items

/-! ## Spreads -/

mutual

/-- Spreads stand only where an item of a list stands. Whether the expression itself does is
given. -/
def Expr.SpreadsAreItems : Expr → Bool → Prop
  | .number _ _, _ | .name _, _ => True
  | .prefixed op _ e, asItem => (op.1 = .spread → asItem = true) ∧ e.SpreadsAreItems false
  | .binary _ _ l r, _ => l.SpreadsAreItems false ∧ r.SpreadsAreItems false
  | .comma _ l r, _ => l.SpreadsAreItems true ∧ r.SpreadsAreItems true
  | .group _ _ contents, _ | .array _ _ contents, _ => contents.SpreadsAreItems
  | .call f _ _ contents, _ => f.SpreadsAreItems false ∧ contents.SpreadsAreItems
  | .index e _ _ i, _ => e.SpreadsAreItems false ∧ i.SpreadsAreItems true

/-- The same between brackets. -/
def Contents.SpreadsAreItems : Contents → Prop
  | .empty => True
  | .list e => e.SpreadsAreItems true

end

namespace Expr

/-- What may stand anywhere may stand as an item. -/
theorem SpreadsAreItems.asItem {e : Expr} (h : e.SpreadsAreItems false) :
    e.SpreadsAreItems true := by
  -- only the spread itself asks where it stands
  cases e with
  | prefixed op span e => exact ⟨fun _ => rfl, h.2⟩
  | _ => exact h

/-- What may stand only as an item is a spread. -/
theorem SpreadsAreItems.cases {e : Expr} (h : e.SpreadsAreItems true) :
    e.SpreadsAreItems false ∨
      ∃ hOp span operand, e = prefixed ⟨.spread, hOp⟩ span operand ∧
        operand.SpreadsAreItems false := by
  cases e with
  | prefixed op span e =>
    obtain ⟨op, hOp⟩ := op
    by_cases hSpread : op = .spread
    · subst hSpread
      exact .inr ⟨hOp, span, e, rfl, h.2⟩
    · exact .inl ⟨fun hEq => absurd hEq hSpread, h.2⟩
  | _ => exact .inl h

/-- What binds less tightly than a prefix operator is no spread. -/
theorem SpreadsAreItems.of_level {e : Expr} (h : e.SpreadsAreItems true) (hLevel : 2 < e.level) :
    e.SpreadsAreItems false := by
  -- a spread binds as tightly as any prefix operator, so its level is 2
  rcases h.cases with hPlain | ⟨hOp, span, operand, rfl, -⟩
  · exact hPlain
  · simp [level, Operator.priority] at hLevel

/-- Brackets around an expression do not make a spread stand where none may. -/
theorem SpreadsAreItems.atLevel {e : Expr} {asItem : Bool} (h : e.SpreadsAreItems asItem)
    (spans : Expr → Span × Span) (bound : Nat) :
    (e.atLevel spans bound).SpreadsAreItems asItem := by
  unfold Expr.atLevel
  split
  · exact h
  -- inside the brackets the expression is an item, where more may stand than elsewhere
  · cases asItem with
    | false => exact h.asItem
    | true => exact h

/-- The same at the place of a function. -/
theorem SpreadsAreItems.asCallee {e : Expr} (h : e.SpreadsAreItems false)
    (spans : Expr → Span × Span) : (e.asCallee spans).SpreadsAreItems false := by
  unfold Expr.asCallee
  split
  · exact h
  · exact h.asItem

end Expr

mutual

/-- Brackets that come in leave the items where they are. -/
theorem Expr.SpreadsAreItems.grouped (spans : Expr → Span × Span) :
    ∀ {e : Expr} {asItem : Bool}, e.SpreadsAreItems asItem →
      (e.grouped spans).SpreadsAreItems asItem
  | .number _ _, _, _ | .name _, _, _ => trivial
  | .prefixed _ _ e, _, ⟨hSpread, he⟩ => ⟨hSpread, (he.grouped spans).atLevel spans _⟩
  | .binary _ _ l r, _, ⟨hl, hr⟩ =>
    ⟨(hl.grouped spans).atLevel spans _, (hr.grouped spans).atLevel spans _⟩
  | .comma _ l r, _, ⟨hl, hr⟩ =>
    ⟨(hl.grouped spans).atLevel spans _, (hr.grouped spans).atLevel spans _⟩
  | .group _ _ contents, _, h | .array _ _ contents, _, h => by
    have hContents : contents.SpreadsAreItems := h
    exact hContents.grouped spans
  | .call f _ _ contents, _, ⟨hf, hContents⟩ =>
    ⟨(hf.grouped spans).asCallee spans, hContents.grouped spans⟩
  | .index e _ _ i, _, ⟨he, hi⟩ => ⟨(he.grouped spans).atLevel spans _, hi.grouped spans⟩

/-- Brackets that come in leave the items between brackets where they are. -/
theorem Contents.SpreadsAreItems.grouped (spans : Expr → Span × Span) :
    ∀ {contents : Contents}, contents.SpreadsAreItems → (contents.grouped spans).SpreadsAreItems
  | .empty, _ => trivial
  | .list e, h => by
    have he : e.SpreadsAreItems true := h
    exact he.grouped spans

end

/-! ## Brackets that come in change no value -/

namespace Expr

variable {script : String} {e : Expr}

/-- What is no spread contributes its own value. -/
theorem item_eq (h : e.SpreadsAreItems false) (s : Store) :
    e.item script s = (e.eval script s).andThen fun obj s => (.ok [obj], s) := by
  unfold Expr.item
  split
  -- the first equation is for a spread, which the expression is not
  · cases h.1 rfl
  · rfl

/-- What is no list is a list of one item. -/
theorem items_eq (hLevel : e.level ≤ 14) (s : Store) : e.items script s = e.item script s := by
  unfold Expr.items
  split
  · simp [level, Operator.priority] at hLevel
  · rfl

/-- The last of the values is that of the expression. -/
theorem result_eq (h : e.SpreadsAreItems false) (s : Store) :
    e.result script s = e.eval script s := by
  unfold result
  -- a list has several items, and anything else is an item itself
  rcases e.level_bounds.2 with hLevel | ⟨-, span, l, r, rfl⟩
  · rw [items_eq hLevel, item_eq h, Answer.andThen_assoc]
    exact Answer.andThen_ok _
  · simp only [Expr.items, Expr.eval, Answer.andThen_assoc]
    rfl

/-- An item contributes something. -/
theorem item_ne_nil (h : e.SpreadsAreItems true) {s t : Store} {items : List Object}
    (hItem : e.item script s = (.ok items, t)) : items ≠ [] := by
  -- what is no spread contributes one value, and a spread fails on an empty array
  rcases h.cases with hPlain | ⟨hOp, span, operand, rfl, -⟩
  · rw [item_eq hPlain] at hItem
    obtain ⟨obj, u, -, hSingle⟩ := Answer.andThen_eq_ok hItem
    cases hSingle
    simp
  · rw [Expr.item] at hItem
    obtain ⟨obj, u, -, hExpanded⟩ := Answer.andThen_eq_ok hItem
    exact Store.ne_nil_of_expanded hExpanded

/-- A list of items contributes something. -/
theorem items_ne_nil (h : e.SpreadsAreItems true) {s t : Store} {items : List Object}
    (hItems : e.items script s = (.ok items, t)) : items ≠ [] := by
  rcases e.level_bounds.2 with hLevel | ⟨-, span, l, r, rfl⟩
  · rw [items_eq hLevel] at hItems
    exact item_ne_nil h hItems
  · rw [Expr.items] at hItems
    obtain ⟨front, u, -, hRest⟩ := Answer.andThen_eq_ok hItems
    obtain ⟨others, v, hItem, hAll⟩ := Answer.andThen_eq_ok hRest
    cases hAll
    -- already the last item contributes something
    exact List.append_ne_nil_of_right_ne_nil front (item_ne_nil h.2 hItem)

/-- An expression between brackets of its own has the value that it has without them. -/
theorem eval_enclosed (spans : Expr → Span × Span) (h : e.SpreadsAreItems false) :
    (e.enclosed spans).eval script = e.eval script := by
  funext s
  rw [← result_eq h]
  simp only [enclosed, Expr.eval, Contents.items]
  rfl

/-- Nor do brackets at a place that asks for a level change the value. -/
theorem eval_atLevel (spans : Expr → Span × Span) (h : e.SpreadsAreItems false) (bound : Nat) :
    (e.atLevel spans bound).eval script = e.eval script := by
  unfold atLevel
  split
  · rfl
  · exact eval_enclosed spans h

/-- The same at the place of a function. -/
theorem eval_asCallee (spans : Expr → Span × Span) (h : e.SpreadsAreItems false) :
    (e.asCallee spans).eval script = e.eval script := by
  unfold asCallee
  split
  · rfl
  · exact eval_enclosed spans h

/-- A spread is never put between brackets where an item stands. -/
theorem item_atLevel (spans : Expr → Span × Span) (h : e.SpreadsAreItems true) {bound : Nat}
    (hBound : 2 ≤ bound) : (e.atLevel spans bound).item script = e.item script := by
  unfold atLevel
  split
  · rfl
  -- brackets come in only around what binds less tightly than a spread
  · rename_i hLevel
    have hPlain := h.of_level (by omega)
    have hEnclosed : (e.enclosed spans).SpreadsAreItems false := h
    funext s
    rw [item_eq hEnclosed, item_eq hPlain, eval_enclosed spans hPlain]

end Expr

mutual

/-- **Brackets that come in change no value**, in whatever store. -/
theorem Expr.eval_grouped (script : String) (spans : Expr → Span × Span) :
    ∀ {e : Expr}, e.SpreadsAreItems false → (e.grouped spans).eval script = e.eval script
  | .number _ _, _ | .name _, _ => rfl
  | .prefixed op span e, ⟨_, he⟩ => by
    funext s
    simp only [Expr.grouped, Expr.eval, Expr.eval_atLevel spans (he.grouped spans),
      Expr.eval_grouped script spans he]
  | .binary op span l r, ⟨hl, hr⟩ => by
    funext s
    simp only [Expr.grouped, Expr.eval, Expr.eval_atLevel spans (hl.grouped spans),
      Expr.eval_atLevel spans (hr.grouped spans), Expr.eval_grouped script spans hl,
      Expr.eval_grouped script spans hr]
  | .comma span l r, ⟨hl, hr⟩ => by
    -- an item binds more tightly than the comma asks for, unless it is a list of its own
    have hLast : 2 ≤ Operator.comma.rightBound := by decide
    funext s
    rw [Expr.grouped, Expr.atLevel_of_le spans (l.level_grouped spans ▸ l.level_le)]
    simp only [Expr.eval, Expr.items_grouped script spans hl,
      Expr.item_atLevel spans (hr.grouped spans) hLast, Expr.item_grouped script spans hr]
  | .group _ _ contents, h => by
    have hContents : contents.SpreadsAreItems := h
    funext s
    simp only [Expr.grouped, Expr.eval, Contents.items_grouped script spans hContents]
  | .array _ _ contents, h => by
    have hContents : contents.SpreadsAreItems := h
    funext s
    simp only [Expr.grouped, Expr.eval, Contents.items_grouped script spans hContents]
  | .call f _ _ contents, ⟨hf, hContents⟩ => by
    funext s
    simp only [Expr.grouped, Expr.eval, Expr.eval_asCallee spans (hf.grouped spans),
      Expr.eval_grouped script spans hf, Contents.items_grouped script spans hContents]
  | .index e _ _ i, ⟨he, hi⟩ => by
    funext s
    simp only [Expr.grouped, Expr.eval, Expr.eval_atLevel spans (he.grouped spans),
      Expr.eval_grouped script spans he, Expr.items_grouped script spans hi]
termination_by e => (sizeOf e, 0)

/-- Nor do they change what an item contributes. -/
theorem Expr.item_grouped (script : String) (spans : Expr → Span × Span) :
    ∀ {e : Expr}, e.SpreadsAreItems true → (e.grouped spans).item script = e.item script
  | e, h => by
    funext s
    -- a spread stays a spread, and only its operand may get brackets
    rcases h.cases with hPlain | ⟨hOp, span, operand, rfl, hOperand⟩
    · rw [Expr.item_eq (hPlain.grouped spans), Expr.item_eq hPlain,
        Expr.eval_grouped script spans hPlain]
    · simp only [Expr.grouped, Expr.item, Expr.eval_atLevel spans (hOperand.grouped spans),
        Expr.eval_grouped script spans hOperand]
termination_by e => (sizeOf e, 1)

/-- Nor do they change what a list contributes. -/
theorem Expr.items_grouped (script : String) (spans : Expr → Span × Span) :
    ∀ {e : Expr}, e.SpreadsAreItems true → (e.grouped spans).items script = e.items script
  | e, h => by
    funext s
    -- one item only, or a comma between the last item and the list in front of it
    rcases e.level_bounds.2 with hLevel | ⟨-, span, l, r, rfl⟩
    · rw [Expr.items_eq (e.level_grouped spans ▸ hLevel), Expr.items_eq hLevel,
        Expr.item_grouped script spans h]
    · obtain ⟨hl, hr⟩ := h
      have hLast : 2 ≤ Operator.comma.rightBound := by decide
      rw [Expr.grouped, Expr.atLevel_of_le spans (l.level_grouped spans ▸ l.level_le)]
      simp only [Expr.items, Expr.items_grouped script spans hl,
        Expr.item_atLevel spans (hr.grouped spans) hLast, Expr.item_grouped script spans hr]
termination_by e => (sizeOf e, 2)

/-- Nor do they change what stands between brackets. -/
theorem Contents.items_grouped (script : String) (spans : Expr → Span × Span) :
    ∀ {contents : Contents}, contents.SpreadsAreItems →
      (contents.grouped spans).items script = contents.items script
  | .empty, _ => rfl
  | .list e, h => by
    have he : e.SpreadsAreItems true := h
    funext s
    simp only [Contents.grouped, Contents.items, Expr.items_grouped script spans he]
termination_by contents => (sizeOf contents, 0)

end

end Reckon
