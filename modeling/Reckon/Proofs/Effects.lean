import Reckon.Proofs.Changes

/-!
# What a step may change

An instruction that assigns may point its target somewhere else, an instruction that is a name may
bring the name in, and nothing else that can be seen comes of a step (`Instruction.permit`), whether
it fails or not.

For a machine there is one thing more to follow than for a store: a handle that names a slot.
`Machine.Alters` says that whoever holds such a handle had it before, or got it on a slot that a
name or an array has by then.

## Results

* `Keeps.alters_step`   — a step stays within the permit of its instruction, which is read off the
  instruction and the top of the stack.
* `Keeps.alters_steps`  — so does a run, with what its instructions permit taken together.
-/

namespace Reckon

open Program

/-! ## Machines -/

namespace Machine

variable {m n k : Machine} {P Q : Permit} {rest rest' rest'' : Multiset Object}

/-- The second machine comes from the first one within a permit, and `rest'`, in other hands now,
from `rest`. Whoever holds a handle that names a slot had it before, or the slot belongs to a name
or an array. -/
structure Alters (P : Permit) (rest rest' : Multiset Object) (m n : Machine) : Prop where
  store : m.store.Alters P n.store
  handles : ∀ id, .writable id ∈ n.held + rest' →
    .writable id ∈ m.held + rest ∨ ∃ o, n.store.Owns id o

/-- Permitted changes that follow each other make a permitted change. -/
theorem Alters.trans (hFirst : m.Alters P rest rest' n) (hSecond : n.Alters P rest' rest'' k) :
    m.Alters P rest rest'' k := by
  refine ⟨hFirst.store.trans hSecond.store, fun id hId => ?_⟩
  rcases hSecond.handles id hId with hMid | hOwned
  -- the handle was there at the start, or the slot has had an owner since
  · rcases hFirst.handles id hMid with hOld | ⟨o, hOwns⟩
    · exact .inl hOld
    · exact .inr ⟨o, hSecond.store.owns id o hOwns⟩
  · exact .inr hOwned

theorem Alters.mono (h : m.Alters P rest rest' n) (hLe : P.Le Q) : m.Alters Q rest rest' n :=
  ⟨h.store.mono hLe, h.handles⟩

/-- A change to the store, with nothing new in anybody's hands. -/
theorem alters_of_held (hStore : m.store.Alters P n.store)
    (hHeld : n.held + rest' ⊆ m.held + rest) : m.Alters P rest rest' n :=
  ⟨hStore, fun _ hId => .inl (hHeld hId)⟩

theorem Alters.refl (P : Permit) (rest : Multiset Object) (m : Machine) :
    m.Alters P rest rest m := alters_of_held (.refl P m.store) (Multiset.Subset.refl _)

/-! ### Stacks -/

/-- Taking a value off the stack is permitted. -/
theorem alters_pop {obj : Object} {values : List Object} (hValues : m.values = obj :: values) :
    m.Alters P rest (obj ::ₘ rest) { m with values } := by
  refine alters_of_held (.refl P m.store) ?_
  rw [held_pop hValues, Multiset.cons_add, Multiset.add_cons]
  exact Multiset.Subset.refl _

/-- Taking two values off the stack is permitted. -/
theorem alters_pop₂ {top below : Object} {values : List Object}
    (hValues : m.values = top :: below :: values) :
    m.Alters P rest (top ::ₘ below ::ₘ rest) { m with values } := by
  have hTop : m.Alters P rest (top ::ₘ rest) { m with values := below :: values } :=
    alters_pop hValues
  have hBelow : Machine.Alters P (top ::ₘ rest) (below ::ₘ top ::ₘ rest)
      { m with values := below :: values } { m with values } := alters_pop rfl
  rw [Multiset.cons_swap] at hBelow
  exact hTop.trans hBelow

/-- Pushing a value is permitted. -/
theorem alters_push (P : Permit) (obj : Object) (rest : Multiset Object) (m : Machine) :
    m.Alters P (obj ::ₘ rest) rest (m.push obj) := by
  refine alters_of_held (.refl P m.store) ?_
  rw [held_push, Multiset.cons_add, Multiset.add_cons]
  exact Multiset.Subset.refl _

/-- Something comes into somebody's hands. If it names a slot, somebody has such a handle already,
or a name or an array has the slot. -/
theorem alters_cons {obj : Object} (hObj : ∀ id, obj = .writable id →
    obj ∈ m.held + rest ∨ ∃ o, m.store.Owns id o) : m.Alters P rest (obj ::ₘ rest) m := by
  refine ⟨.refl P m.store, fun id hId => ?_⟩
  rw [Multiset.add_cons, Multiset.mem_cons] at hId
  rcases hId with rfl | hOld
  · exact hObj id rfl
  · exact .inl hOld

/-- What is in nobody's hands any more need not be followed. -/
theorem alters_drop (P : Permit) (m : Machine) (objs : Multiset Object) (rest : Multiset Object) :
    m.Alters P (objs + rest) rest m := by
  -- what is left in hand was in hand before
  refine alters_of_held (.refl P m.store) ?_
  rw [add_left_comm]
  exact Multiset.subset_of_le (Multiset.le_add_left _ _)

/-- Giving up an object changes nothing that can be seen. -/
theorem Keeps.alters_release {obj : Object} (hm : m.Keeps (obj ::ₘ rest)) :
    m.Alters P (obj ::ₘ rest) rest (m.release obj) := by
  unfold Keeps at hm
  rw [Multiset.add_cons] at hm
  refine alters_of_held (hm.carries_release.alters P) ?_
  rw [Multiset.add_cons]
  exact Multiset.subset_cons _ _

/-- Giving up many objects changes nothing that can be seen. -/
theorem Keeps.alters_releaseAll {objs : List Object} (hm : m.Keeps (objs + rest)) :
    m.Alters P (objs + rest) rest (m.releaseAll objs) := by
  unfold Keeps at hm
  rw [add_left_comm] at hm
  refine alters_of_held (hm.carries_releaseAll.alters P) ?_
  rw [add_left_comm]
  exact Multiset.subset_of_le (Multiset.le_add_left _ _)

/-- A result joins the stack, or nothing does. -/
theorem Alters.pushResult {answer : Except Failure Object}
    (hOk : ∀ obj, answer = .ok obj → m.Alters P rest (obj ::ₘ rest') n)
    (hError : ∀ e, answer = .error e → m.Alters P rest rest' n) :
    m.Alters P rest rest' (n.pushResult answer).2 := by
  -- the result goes from hand to stack; a failure leaves everything in place
  rcases answer with e | obj
  · exact hError e rfl
  · exact (hOk obj rfl).trans (alters_push P obj rest' n)

/-- A result that names no slot joins the stack. -/
theorem Alters.pushNew {answer : Except Failure Object} (h : m.Alters P rest rest' n)
    (hNone : ∀ obj, answer = .ok obj → ∀ id, obj ≠ .writable id) :
    m.Alters P rest rest' (n.pushResult answer).2 := by
  refine .pushResult (fun obj hObj => ?_) fun _ _ => h
  exact h.trans (alters_cons fun id hId => absurd hId (hNone obj hObj id))

/-- The result of arithmetic names no slot. -/
theorem ne_writable_of_arithmeticResult {answer : Except Fault Number} {obj : Object}
    (h : arithmeticResult answer = .ok obj) (id : SlotId) : obj ≠ .writable id := by
  rcases answer with f | x
  · cases h
  · cases h
    intro hEq
    cases hEq

/-- The result of an operator names no slot. -/
theorem ne_writable_of_applied {op : Operator} {lhs rhs obj : Object}
    (h : m.applied op lhs rhs = .ok obj) (id : SlotId) : obj ≠ .writable id := by
  unfold applied at h
  split at h
  · cases h
  · cases h
  · exact ne_writable_of_arithmeticResult h id

/-! ### Operators -/

/-- A prefix operator changes nothing that can be seen. -/
theorem Keeps.alters_unary (hm : m.Keeps rest) (op : Operator) :
    m.Alters P rest rest (m.unary op).2 := by
  unfold Machine.unary
  split
  · exact .refl P rest m
  · rename_i obj values hValues
    -- the operand is given up whether a number comes of it or not
    have hTaken : m.Alters P rest (obj ::ₘ rest) { m with values } := alters_pop hValues
    refine (hTaken.trans (hm.pop hValues).alters_release).pushNew fun x hx => ?_
    split at hx
    · exact ne_writable_of_arithmeticResult hx
    · cases hx

/-- Both operands are given up, the one below the top first. -/
theorem Keeps.alters_releaseBoth {top below : Object} {values : List Object} (hm : m.Keeps rest)
    (hValues : m.values = top :: below :: values) :
    m.Alters P rest rest (({ m with values }.release below).release top) := by
  have hPopped := hm.pop₂ hValues
  have hTaken : m.Alters P rest (top ::ₘ below ::ₘ rest) { m with values } := alters_pop₂ hValues
  -- the lower operand is given up first, so it has to be the first one in hand
  rw [Multiset.cons_swap] at hPopped hTaken
  exact (hTaken.trans hPopped.alters_release).trans hPopped.release.alters_release

/-- An operator that gives a result changes nothing that can be seen. -/
theorem Keeps.alters_binary (hm : m.Keeps rest) (hOne : m.values.length ≠ 1) (op : Operator) :
    m.Alters P rest rest (m.binary op).2 := by
  unfold Machine.binary
  split
  · exact .refl P rest m
  · rename_i obj hValues
    exact absurd (by rw [hValues]; rfl) hOne
  · rename_i rhs lhs values hValues
    exact (hm.alters_releaseBoth hValues).pushNew fun x hx => ne_writable_of_applied hx

/-- Assigning to a slot that may be pointed somewhere else. The handle on it goes back on the
stack. -/
theorem Keeps.alters_assignSlot {id : SlotId} {obj : Object} (hm : m.Keeps (obj ::ₘ rest))
    (hId : P.slots id) (hHandle : .writable id ∈ m.held + rest) :
    m.Alters P (obj ::ₘ rest) rest (m.assignSlot id obj).2 := by
  unfold Keeps at hm
  rw [Multiset.add_cons] at hm
  have hBound := hm.alters_bind hId
  have hLess : m.held + rest ⊆ m.held + obj ::ₘ rest := by
    rw [Multiset.add_cons]
    exact Multiset.subset_cons _ _
  unfold Machine.assignSlot
  -- the slot is bound, and the handle on it pushed; a failure leaves the handle where it was
  rcases hBind : m.store.bind id obj with ⟨e | ⟨⟩, s⟩
  · rw [hBind] at hBound
    exact alters_of_held hBound hLess
  · rw [hBind] at hBound
    refine alters_of_held hBound ?_
    rw [held_push, Multiset.cons_add]
    exact Multiset.cons_subset.2 ⟨hLess hHandle, hLess⟩

/-- An assignment may point its target somewhere else, and changes nothing else. -/
theorem Keeps.alters_assign (hm : m.Keeps rest) (hOne : m.values.length ≠ 1)
    (hSlots : ∀ rhs id values, m.values = rhs :: .writable id :: values → P.slots id) :
    m.Alters P rest rest m.assign.2 := by
  unfold Machine.assign
  split
  · exact .refl P rest m
  · rename_i obj hValues
    exact absurd (by rw [hValues]; rfl) hOne
  · rename_i rhs id values hValues
    have hPopped := hm.pop₂ hValues
    have hTaken : m.Alters P rest (rhs ::ₘ .writable id ::ₘ rest) { m with values } :=
      alters_pop₂ hValues
    dsimp only
    split
    · -- a slot that is assigned to itself: the handle goes back on the stack
      have hBoth : { m with values }.Alters P (rhs ::ₘ .writable id ::ₘ rest)
          (.writable id ::ₘ rest) { m with values } := alters_drop P _ {rhs} _
      exact (hTaken.trans hBoth).trans (alters_push P _ rest _)
    · -- the slot is bound to the right side, and its handle was on the stack
      have hAssigned := hPopped.alters_assignSlot (hSlots rhs id values hValues)
        (Multiset.mem_add.2 (.inr (Multiset.mem_cons_self _ _)))
      exact (hTaken.trans hAssigned).trans (alters_drop P _ {.writable id} rest)
  · -- what is assigned to is no slot, and both sides are given up
    rename_i rhs lhs values _ hValues
    exact hm.alters_releaseBoth hValues

/-- A compound assignment may point its target somewhere else, and changes nothing else. -/
theorem Keeps.alters_compound (hm : m.Keeps rest) (hOne : m.values.length ≠ 1) (base : Operator)
    (hSlots : ∀ rhs id values, m.values = rhs :: .writable id :: values → P.slots id) :
    m.Alters P rest rest (m.compound base).2 := by
  unfold Machine.compound
  split
  · exact .refl P rest m
  · rename_i obj hValues
    exact absurd (by rw [hValues]; rfl) hOne
  · rename_i rhs lhs values hValues
    -- the right operand is given up first, whether there is a value or not
    have hPopped := (hm.pop₂ hValues).release
    have hRight : m.Alters P rest (lhs ::ₘ rest) ({ m with values }.release rhs) :=
      (alters_pop₂ hValues).trans (hm.pop₂ hValues).alters_release
    dsimp only
    split
    · exact hRight.trans hPopped.alters_release
    · rename_i value hValue
      split
      · -- the value names no slot, and the handle on the target was on the stack
        rename_i id
        have hNew : ({ m with values }.release rhs).Alters P (.writable id ::ₘ rest)
            (value ::ₘ .writable id ::ₘ rest) ({ m with values }.release rhs) :=
          alters_cons fun k hk => absurd hk (ne_writable_of_applied hValue k)
        have hAssigned := (hPopped.cons (plain_of_applied hValue)).alters_assignSlot
          (hSlots rhs id values hValues) (Multiset.mem_add.2 (.inr (Multiset.mem_cons_self _ _)))
        exact ((hRight.trans hNew).trans hAssigned).trans (alters_drop P _ {.writable id} rest)
      · exact hRight.trans hPopped.alters_release

/-! ### Lists -/

/-- Opening a bracket changes nothing that can be seen. -/
theorem alters_opening (P : Permit) (rest : Multiset Object) (m : Machine) (b : Bracket) :
    m.Alters P rest rest (m.opening b) := by
  refine alters_of_held (.refl P m.store) ?_
  rw [held_opening]
  exact Multiset.Subset.refl _

/-- A comma changes nothing that can be seen. -/
theorem alters_comma (P : Permit) (rest : Multiset Object) (m : Machine) :
    m.Alters P rest rest m.comma.2 := by
  have hStore : m.comma.2.store = m.store := by
    unfold Machine.comma
    split <;> rfl
  refine alters_of_held (by rw [hStore]; exact .refl P m.store) ?_
  rw [held_comma]
  exact Multiset.Subset.refl _

/-- Setting objects aside changes nothing that can be seen. -/
theorem alters_setAside (P : Permit) (objs : List Object) (rest : Multiset Object) (m : Machine) :
    m.Alters P (objs + rest) rest (m.setAside objs) := by
  refine alters_of_held (by rw [setAside_store]; exact .refl P m.store) ?_
  rw [held_setAside, add_assoc, add_left_comm]
  exact Multiset.Subset.refl _

/-- The handles on elements that name slots: those taken before, and those on the elements of an
array that was reached through a slot. -/
theorem mem_elements {s : Store} {writable : Bool} {taken : List Object} {ids : List SlotId}
    {id : SlotId} (h : .writable id ∈ (elements s writable taken ids).1) :
    .writable id ∈ taken ∨ writable = true ∧ id ∈ ids := by
  -- induction on the slots, with the handles that were taken left open
  induction ids generalizing s taken with
  | nil => exact .inl h
  | cons k ids ih =>
    rcases ih h with hTaken | ⟨hWritable, hId⟩
    · rcases List.mem_cons.1 hTaken with hNew | hOld
      · obtain ⟨hWritable, rfl⟩ := Store.element_eq_writable hNew.symm
        exact .inr ⟨hWritable, List.mem_cons_self ..⟩
      · exact .inl hOld
    · exact .inr ⟨hWritable, List.mem_cons_of_mem _ hId⟩

/-- Handles on the elements of an array come into somebody's hands. -/
theorem alters_elements {obj : Object} {slots : List SlotId} {writable : Bool}
    (hArray : m.store.array? obj = some (slots, writable)) :
    m.Alters P rest ((Machine.elements m.store writable [] slots).1 + rest)
      { m with store := (Machine.elements m.store writable [] slots).2 } := by
  have hCarries := carries_elements m.store writable [] slots 0
  refine ⟨hCarries.alters P, fun id hId => ?_⟩
  rw [add_left_comm] at hId
  rcases Multiset.mem_add.1 hId with hNew | hOld
  · rcases mem_elements (Multiset.mem_coe.1 hNew) with hTaken | ⟨rfl, hSlot⟩
    · cases hTaken
    · obtain ⟨o, hOwns⟩ := Store.exists_owner_of_array? hArray hSlot
      exact .inr ⟨o, hCarries.owns hOwns⟩
  · exact .inl hOld

/-- Spreading an array changes nothing that can be seen. -/
theorem Keeps.alters_spread (hm : m.Keeps rest) : m.Alters P rest rest m.spread.2 := by
  unfold Machine.spread
  rcases hValues : m.values with _ | ⟨obj, values⟩
  · exact .refl P rest m
  · have hPopped := hm.pop hValues
    have hTaken : m.Alters P rest (obj ::ₘ rest) { m with values } := alters_pop hValues
    dsimp only
    split
    · exact hTaken.trans hPopped.alters_release
    · rename_i slots writable hArray
      -- the elements are in hand before the array is given up
      have hElements : Machine.Alters P (obj ::ₘ rest)
          ((Machine.elements m.store writable [] slots).1 + obj ::ₘ rest) { m with values }
          { m with values, store := (Machine.elements m.store writable [] slots).2 } :=
        alters_elements (m := { m with values }) hArray
      have hHeld := hPopped.elements hArray
      rw [Multiset.add_cons] at hElements
      have hKept : Machine.Keeps
          { m with values, store := (Machine.elements m.store writable [] slots).2 }
          (obj ::ₘ ((Machine.elements m.store writable [] slots).1 + rest)) := by
        unfold Keeps
        rw [Multiset.add_cons, add_left_comm]
        exact hHeld
      have hReleased := (hTaken.trans hElements).trans hKept.alters_release
      split
      · exact hReleased.trans (alters_drop P _ _ rest)
      · -- all elements but the last are set aside, and the last one is pushed
        rename_i last others hEq
        rw [hEq, ← Multiset.cons_coe, Multiset.cons_add, ← Multiset.add_cons] at hReleased
        exact (hReleased.trans (alters_setAside P others _ _)).trans (alters_push P last rest _)

/-! ### Brackets -/

/-- What stood between the brackets comes into hand, and nothing else changes. -/
theorem alters_leave {around : Frame} {outer : List Frame} (hOuter : m.outer = around :: outer) :
    m.Alters P rest ((m.leave around outer).1 + rest) (m.leave around outer).2 := by
  refine alters_of_held (.refl P m.store) ?_
  rw [← held_leave hOuter, add_assoc, add_left_comm]
  exact Multiset.Subset.refl _

/-- Of the items of a list the last one stays in hand, and the others are given up. -/
theorem Keeps.alters_releaseOthers {items others : List Object} {last : Object}
    (hm : m.Keeps (items + rest)) (hEq : items.reverse = last :: others) :
    m.Alters P (items + rest) (last ::ₘ rest) (m.releaseAll others.reverse) := by
  have hApart := hm.apart hEq
  rw [List.reverse_eq_cons_iff.1 hEq, ← Multiset.coe_add, add_assoc, Multiset.coe_singleton,
    Multiset.singleton_add]
  exact hApart.alters_releaseAll

/-- A group that closes changes nothing that can be seen. -/
theorem Keeps.alters_closingGroup {items : List Object} (hm : m.Keeps (items + rest)) :
    m.Alters P (items + rest) rest (m.closingGroup items).2 := by
  unfold Machine.closingGroup
  split
  · -- a group without items stands for nil
    have hNil : m.Alters P rest (.nil ::ₘ rest) m := alters_cons fun _ hId => by cases hId
    exact ((alters_drop P m items rest).trans hNil).trans (alters_push P .nil rest m)
  · rename_i hEq
    exact (hm.alters_releaseOthers hEq).trans (alters_push P _ rest _)

/-- The element that indexing gives names a slot only if the array was reached through one. -/
theorem alters_indexing (P : Permit) (rest : Multiset Object) (m : Machine)
    (target index : Object) :
    (∀ obj, (m.indexing target index).1 = .ok obj →
      m.Alters P rest (obj ::ₘ rest) (m.indexing target index).2) ∧
    ∀ e, (m.indexing target index).1 = .error e →
      m.Alters P rest rest (m.indexing target index).2 := by
  -- no index, no array, no such element: only where there is an element does one come into hand
  unfold Machine.indexing
  split
  · exact ⟨by simp, fun _ _ => .refl P rest m⟩
  · split
    · exact ⟨by simp, fun _ _ => .refl P rest m⟩
    · rename_i slots writable hArray
      split
      · rename_i id hId _
        have hCarries := Store.carries_element m.store id writable 0
        refine ⟨fun obj hObj => ?_, by simp⟩
        cases hObj
        have hTaken : m.Alters P rest rest { m with store := (m.store.element id writable).2 } :=
          alters_of_held (hCarries.alters P) (Multiset.Subset.refl _)
        -- a handle that names a slot names that of the element, which belongs to its array
        refine hTaken.trans (alters_cons fun k hk => .inr ?_)
        obtain ⟨rfl, rfl⟩ := Store.element_eq_writable hk
        obtain ⟨o, hOwns⟩ := Store.exists_owner_of_array? hArray (List.mem_of_getElem? hId)
        exact ⟨o, hCarries.owns hOwns⟩
      · exact ⟨by simp, fun _ _ => .refl P rest m⟩

/-- Indexing changes nothing that can be seen. -/
theorem Keeps.alters_closingIndex {items : List Object} (hm : m.Keeps (items + rest)) :
    m.Alters P (items + rest) rest (m.closingIndex items).2 := by
  unfold Machine.closingIndex
  split
  · exact alters_drop P m items rest
  · rename_i index others hEq
    have hIndex := hm.releaseOthers hEq
    have hOthers : m.Alters P (items + rest) (index ::ₘ rest) (m.releaseAll others.reverse) :=
      hm.alters_releaseOthers hEq
    dsimp only
    split
    · exact hOthers.trans hIndex.alters_release
    · rename_i target values hValues
      have hPopped := hIndex.pop hValues
      have hTaken : m.Alters P (items + rest) (target ::ₘ index ::ₘ rest)
          { m.releaseAll others.reverse with values } := hOthers.trans (alters_pop hValues)
      obtain ⟨hOk, hError⟩ := hPopped.indexing (Multiset.mem_cons_self target _) index
      obtain ⟨hGives, hFails⟩ := alters_indexing P (target ::ₘ index ::ₘ rest)
        { m.releaseAll others.reverse with values } target index
      refine .pushResult (fun obj hObj => ?_) fun e he => ?_
      · -- the element is in hand before the index and the array are given up
        have hBoth := hOk obj hObj
        have hAll := hTaken.trans (hGives obj hObj)
        rw [Multiset.cons_swap obj, Multiset.cons_swap obj, Multiset.cons_swap target] at hBoth hAll
        exact (hAll.trans hBoth.alters_release).trans hBoth.release.alters_release
      · have hBoth := hError e he
        have hAll := hTaken.trans (hFails e he)
        rw [Multiset.cons_swap] at hBoth hAll
        exact (hAll.trans hBoth.alters_release).trans hBoth.release.alters_release

/-- A tame function gives back a slot only if an argument names it. -/
theorem mem_of_calling {callee : Object} {args : List Object} {id : SlotId}
    (hStore : m.store.Within Function.Tame) (hCallee : callee.Within Function.Tame)
    (h : (m.calling callee args).1 = .ok (.writable id)) : .writable id ∈ args := by
  unfold Machine.calling at h
  split at h
  · -- the function is in the store, so it is one of those that are known
    rename_i f hf
    have hTame : f.NamesArguments := hStore.payload? hCallee hf f .self
    obtain ⟨sample, entropy, hCall⟩ := Store.exists_call_eq m.store f args
    rw [hCall] at h
    dsimp only [Function.call] at h
    split at h
    · rcases hBody : f.body sample (args.map m.store.argument) with e | reply
      · simp [hBody, Except.map] at h
      · simp only [hBody, Except.map, Except.ok.injEq] at h
        rcases reply with _ | _ | _ | k
        · cases h
        · cases h
        · cases h
        · cases h
          obtain ⟨hNonzero, a, hArgument, hSlot⟩ := hTame _ _ id hBody
          obtain ⟨arg, hArg, rfl⟩ := List.mem_map.1 hArgument
          -- an argument that has a number names that slot
          have hNumber : arg.slot = id := hSlot
          match arg, hArg, hNumber with
          | .writable k, hArg, hNumber =>
            obtain rfl : k = id := hNumber
            exact hArg
          | .nil, _, hZero | .number _, _, hZero | .function _, _, hZero | .array _, _, hZero
          | .readOnly _, _, hZero => exact absurd hZero.symm hNonzero
    · simp [Except.map] at h
  · cases h

/-- Calling may take draws and changes nothing else. -/
theorem alters_calling (P : Permit) (rest : Multiset Object) (m : Machine) (callee : Object)
    (args : List Object) : m.Alters P rest rest (m.calling callee args).2 := by
  unfold Machine.calling
  split
  · rename_i f hf
    obtain ⟨sample, entropy, hCall⟩ := Store.exists_call_eq m.store f args
    rw [hCall]
    exact alters_of_held ((Store.carries_withEntropy m.store entropy 0).alters P)
      (Multiset.Subset.refl _)
  · exact .refl P rest m

/-- Calling a function changes nothing that can be seen. -/
theorem Keeps.alters_closingCall {items : List Object} (hm : m.Keeps (items + rest))
    (hWithin : m.Within Function.Tame) :
    m.Alters P (items + rest) rest (m.closingCall items).2 := by
  unfold Machine.closingCall
  split
  · exact hm.alters_releaseAll
  · rename_i callee values hValues
    obtain ⟨hCallee, hRest⟩ := hWithin.pop hValues
    obtain ⟨hAvoids, hRestAvoids⟩ := hWithin.avoidsZero.pop hValues
    obtain ⟨hCalled, hPlain⟩ := (hm.pop hValues).calling hRestAvoids.store hAvoids items
    have hTaken : m.Alters P (items + rest) (callee ::ₘ (items + rest)) { m with values } :=
      alters_pop hValues
    have hDrawn := hTaken.trans (alters_calling P _ { m with values } callee items)
    rw [← Multiset.add_cons] at hCalled hDrawn
    refine .pushResult (fun obj hObj => ?_) fun e he => ?_
    · -- a slot that is given back is named by an argument, which is still in hand
      have hReply := hDrawn.trans <| alters_cons fun id (hId : obj = .writable id) => by
        subst hId
        have hArg := mem_of_calling hRest.store hCallee hObj
        exact .inl (Multiset.mem_add.2 (.inr (Multiset.mem_add.2 (.inl hArg))))
      have hHeld := hCalled.cons (hPlain obj hObj)
      rw [← Multiset.add_cons, Multiset.cons_swap] at hReply hHeld
      exact (hReply.trans hHeld.alters_releaseAll).trans hHeld.releaseAll.alters_release
    · exact (hDrawn.trans hCalled.alters_releaseAll).trans hCalled.releaseAll.alters_release

/-- Making an array changes nothing that can be seen. -/
theorem Keeps.alters_closingArray {items : List Object} (hm : m.Keeps (items + rest)) :
    m.Alters P (items + rest) rest (m.closingArray items).2 := by
  have hCarries := carries_slotsFor hm.emptyArray
  -- the items go into slots that are made for them, and the array is new, too
  have hMade : m.Alters P (items + rest) rest
      { m with store := (slotsFor m.store [] items).2 } := by
    refine alters_of_held (hCarries.alters P) ?_
    rw [add_left_comm]
    exact Multiset.subset_of_le (Multiset.le_add_left _ _)
  unfold Machine.closingArray
  refine hMade.pushNew fun obj hObj id hId => ?_
  rw [hId] at hObj
  -- the result is an array in hand, which is no handle
  rcases hSlots : (slotsFor m.store [] items).1 with e | slots <;>
    simp [hSlots, Except.map] at hObj

/-- Closing a bracket changes nothing that can be seen. -/
theorem Keeps.alters_closing (hm : m.Keeps rest) (hWithin : m.Within Function.Tame) (b : Bracket) :
    m.Alters P rest rest (m.closing b).2 := by
  unfold Machine.closing
  rcases hOuter : m.outer with _ | ⟨around, outer⟩
  · exact .refl P rest m
  · have hLeave := hm.leave hOuter
    have hLeft : m.Alters P rest ((m.leave around outer).1 + rest) (m.leave around outer).2 :=
      alters_leave hOuter
    -- the four kinds of brackets have a lemma each
    match b with
    | .group => exact hLeft.trans hLeave.alters_closingGroup
    | .index => exact hLeft.trans hLeave.alters_closingIndex
    | .call => exact hLeft.trans (hLeave.alters_closingCall (hWithin.leave hOuter).2)
    | .array => exact hLeft.trans hLeave.alters_closingArray

end Machine

/-! ## Steps -/

/-- Whether an instruction assigns to a slot, at once or after some arithmetic. -/
def Instruction.assigns (i : Instruction) : Bool :=
  match i.kind with
  | .operator op => op == .assign || op.compoundBase.isSome
  | _ => false

/-- What an instruction permits: an assignment its target, and a name itself. -/
def Instruction.permit (script : String) (m : Machine) (i : Instruction) : Permit where
  slots id := i.assigns = true ∧ ∃ rhs values, m.values = rhs :: .writable id :: values
  names name := i.kind = .name ∧ i.span.text script = name

namespace Machine

variable {m : Machine} {P : Permit} {rest : Multiset Object}

/-- **A step changes no more than its instruction permits**, whether it fails or not. -/
theorem Keeps.alters_step {i : Instruction} (hm : m.Keeps rest) (hWithin : m.Within Function.Tame)
    (hOne : ∀ op : Operator, i.kind = .operator op → op.isBinary → m.values.length ≠ 1)
    (script : String) : m.Alters (i.permit script m) rest rest (m.step script i).2 := by
  have hName (hKind : i.kind = .name) : (i.permit script m).names (i.span.text script) :=
    ⟨hKind, rfl⟩
  have hSlots (hAssigns : i.assigns = true) : ∀ rhs id values,
      m.values = rhs :: .writable id :: values → (i.permit script m).slots id :=
    fun rhs id values hValues => ⟨hAssigns, rhs, values, hValues⟩
  unfold Machine.step
  split
  · -- a number
    exact (Alters.refl _ rest m).pushNew fun x hx => ne_writable_of_arithmeticResult hx
  · -- a name, which may come in
    rename_i hKind
    have hInterned := hm.balanced.alters_intern (hName hKind)
    have hFound (id : SlotId) (hOk : (m.store.intern (i.span.text script)).1 = .ok id) :=
      hm.balanced.lookup_of_intern hOk
    rcases hEq : m.store.intern (i.span.text script) with ⟨e | id, s⟩
    · rw [hEq] at hInterned
      exact alters_of_held hInterned (Multiset.Subset.refl _)
    · rw [hEq] at hInterned hFound
      have hLeft : m.Alters (i.permit script m) rest rest { m with store := s } :=
        alters_of_held hInterned (Multiset.Subset.refl _)
      -- the handle names the slot of the name
      refine (hLeft.trans (alters_cons fun k hk => ?_)).trans (alters_push _ (.writable id) rest _)
      cases hk
      exact .inr ⟨.symbol _, hFound id rfl⟩
  · -- an operator: those with two operands may assign, and no others do
    rename_i op hKind
    by_cases hBinary : op.isBinary
    · have hNotOne := hOne op hKind hBinary
      rw [perform_of_isBinary hBinary]
      split
      · rename_i hAssign
        have hAssigns : i.assigns = true := by simp [Instruction.assigns, hKind, hAssign]
        exact hm.alters_assign hNotOne (hSlots hAssigns)
      · split
        · rename_i base hBase
          have hAssigns : i.assigns = true := by simp [Instruction.assigns, hKind, hBase]
          exact hm.alters_compound hNotOne base (hSlots hAssigns)
        · exact hm.alters_binary hNotOne op
    · by_cases hPrefix : op.isPrefix
      · rw [perform_of_isPrefix hPrefix]
        split
        · exact hm.alters_spread
        · exact hm.alters_unary op
      · match op, hBinary, hPrefix with
        | .opener b, _, _ => exact alters_opening _ rest m b
        | .closer b, _, _ => exact hm.alters_closing hWithin b
        | .comma, _, _ => exact alters_comma _ rest m
        | .semicolon, _, _ => exact .refl _ rest m

/-- **A run changes no more than its instructions permit**, whether it fails or not. -/
theorem Keeps.alters_steps {h h' : Heights} {code : List Instruction} (hm : m.Keeps rest)
    (hWithin : m.Within Function.Tame) (hStep : m.InStep h) (hs : h.Sound) (script : String)
    (hPlay : h.play code = .ok h') (hPermit : ∀ i ∈ code, ∀ n, (i.permit script n).Le P) :
    m.Alters P rest rest (Machine.steps script m code).2 := by
  -- the check goes along with the run, so no operator finds one value where it needs two
  induction code generalizing m h with
  | nil => exact .refl P rest m
  | cons i code ih =>
    simp only [Heights.play] at hPlay
    split at hPlay
    · cases hPlay
    · rename_i mid hMid
      have hOne := hStep.length_ne_one hMid
      have hNext := hm.step hWithin.avoidsZero hOne script
      have hNextWithin := hWithin.step Function.inherited_tame script i
      have hAnswers := hStep.step hs script hMid
      have hChanged := (hm.alters_step hWithin hOne script).mono
        (hPermit i (List.mem_cons_self ..) m)
      unfold Machine.steps
      rcases hEq : m.step script i with ⟨e | ⟨⟩, n⟩
      · -- the run ends here
        rw [hEq] at hChanged
        exact hChanged
      · rw [hEq] at hNext hNextWithin hAnswers hChanged
        exact hChanged.trans (ih hNext hNextWithin hAnswers (hs.step hMid) hPlay
          fun j hj => hPermit j (List.mem_cons_of_mem _ hj))

end Machine

/-- **Running a program changes no more than its instructions permit.** The run gives up what it
still holds, which nobody else can see. -/
theorem Program.alters_run {code : List Instruction} {p : Program} {s : Store} {P : Permit}
    {rest : Multiset Object} (hp : Program.ofPostfix code = .ok p) (hs : s.Keeps rest)
    (hWithin : s.Within Function.Tame) (script : String)
    (hPermit : ∀ i ∈ p.code, ∀ m, (i.permit script m).Le P) :
    s.Alters P (p.run script s).2 := by
  obtain ⟨h, hPlay, hHeight, hOuter, rfl⟩ := exists_play_of_ofPostfix hp
  have hStart := Machine.within_start hWithin
  have hFollows := (Machine.follows_start False s).steps (by simp) script hPlay
  obtain ⟨hKeeps, -⟩ := (Machine.keeps_start hs).steps hStart ⟨rfl, rfl, rfl⟩ Heights.sound_start
    script hPlay
  have hChanged := ((Machine.keeps_start hs).alters_steps hStart ⟨rfl, rfl, rfl⟩
    Heights.sound_start script hPlay hPermit).store
  unfold Program.run Machine.run
  rcases hEq : Machine.steps script { store := s } code with ⟨e | ⟨⟩, m⟩
  · -- after a failure all that is held is given up
    rw [hEq] at hKeeps hChanged
    obtain ⟨objs, hAbandon, hHeld⟩ := m.exists_abandon_eq
    have hAll : m.store.Keeps (objs + rest) := by
      rw [hHeld]
      exact hKeeps
    dsimp only
    rw [hAbandon]
    exact hChanged.trans (hAll.carries_releaseAll.alters P)
  · -- at the end there is one value, and what a spread has left aside is given up
    rw [hEq] at hFollows hKeeps hChanged
    obtain ⟨obj, hOk⟩ := hFollows.inStep.finish hHeight hOuter
    rcases hFinish : m.finish with ⟨answer, n⟩
    rw [hFinish] at hOk
    subst hOk
    obtain ⟨hValues, hOutside, hStore⟩ := Machine.finish_eq hFinish
    dsimp only
    rw [hFinish]
    dsimp only
    rw [hStore]
    exact hChanged.trans ((hKeeps.atEnd hValues hOutside).carries_releaseAll.alters P)

end Reckon
