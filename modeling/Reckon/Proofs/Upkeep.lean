import Reckon.Proofs.Functions
import Reckon.Proofs.Lockstep
import Reckon.Proofs.Reclaiming

/-!
# A run keeps the books

Whatever a run takes out of the store it holds until it gives it up: on its stack, moved aside,
staged, or in the hands of the operation that is going on. `Machine.Keeps` says that the books
balance with all of that held, and every operation preserves it, whether it fails or not. After a
failure everything is given up, so no run leaves anything behind but its result.
-/

namespace Reckon

open Program

namespace Machine

/-- The books balance with what the machine holds and with `rest`, which is in other hands. -/
def Keeps (m : Machine) (rest : Multiset Object) : Prop := m.store.Keeps (m.held + rest)

variable {m n : Machine} {rest : Multiset Object}

/-- A machine that holds nothing yet keeps the books that its store keeps. -/
theorem keeps_start {s : Store} (hs : s.Keeps rest) : Keeps { store := s } rest := by
  unfold Keeps
  rw [held_start, zero_add]
  exact hs

/-! ## Stacks -/

/-- What is taken off the stack is in hand. -/
theorem Keeps.pop {obj : Object} {values : List Object} (hm : m.Keeps rest)
    (hValues : m.values = obj :: values) : { m with values }.Keeps (obj ::ₘ rest) := by
  unfold Keeps at hm ⊢
  rw [held_pop hValues, Multiset.cons_add, ← Multiset.add_cons] at hm
  exact hm

/-- Two values that are taken off the stack are in hand. -/
theorem Keeps.pop₂ {top below : Object} {values : List Object} (hm : m.Keeps rest)
    (hValues : m.values = top :: below :: values) :
    { m with values }.Keeps (top ::ₘ below ::ₘ rest) := by
  have hTop := hm.pop hValues
  have hBelow := hTop.pop (m := { m with values := below :: values }) rfl
  rw [Multiset.cons_swap] at hBelow
  exact hBelow

/-- What is pushed goes from hand to the machine. -/
theorem Keeps.push {obj : Object} (hm : m.Keeps (obj ::ₘ rest)) : (m.push obj).Keeps rest := by
  unfold Keeps at hm ⊢
  rw [held_push, Multiset.cons_add, ← Multiset.add_cons]
  exact hm

/-- What owns nothing and counts on nothing can be taken into hand at any time. -/
theorem Keeps.cons {obj : Object} (hm : m.Keeps rest) (hObj : obj.Plain) :
    m.Keeps (obj ::ₘ rest) := by
  have hCons := Store.Keeps.cons hm hObj
  unfold Keeps
  rw [Multiset.add_cons]
  exact hCons

/-- What is given up was in hand before. -/
theorem Keeps.release {obj : Object} (hm : m.Keeps (obj ::ₘ rest)) :
    (m.release obj).Keeps rest := by
  unfold Keeps at hm
  rw [Multiset.add_cons] at hm
  exact Store.Keeps.release hm

/-- The same for many objects. -/
theorem Keeps.releaseAll {objs : List Object} (hm : m.Keeps (objs + rest)) :
    (m.releaseAll objs).Keeps rest := by
  unfold Keeps at hm
  rw [add_left_comm] at hm
  exact Store.Keeps.releaseAll hm

/-- A result joins the stack, with what it takes care of. -/
theorem Keeps.pushResult {answer : Except Failure Object}
    (hOk : ∀ obj, answer = .ok obj → m.Keeps (obj ::ₘ rest))
    (hError : ∀ e, answer = .error e → m.Keeps rest) : (m.pushResult answer).2.Keeps rest := by
  cases answer with
  | ok obj => exact (hOk obj rfl).push
  | error e => exact hError e rfl

/-- A result that owns nothing and counts on nothing joins the stack. -/
theorem Keeps.pushPlain {answer : Except Failure Object} (hm : m.Keeps rest)
    (hPlain : ∀ obj, answer = .ok obj → obj.Plain) : (m.pushResult answer).2.Keeps rest :=
  .pushResult (fun obj hObj => hm.cons (hPlain obj hObj)) fun _ _ => hm

/-- Arithmetic gives plain numbers. -/
theorem plain_of_arithmeticResult {answer : Except Fault Number} {obj : Object}
    (h : arithmeticResult answer = .ok obj) : obj.Plain := by
  cases answer with
  | error f => cases h
  | ok n =>
    cases h
    exact Object.plain_number n

/-- Operators for two give plain numbers. -/
theorem plain_of_applied {op : Operator} {lhs rhs obj : Object}
    (h : m.applied op lhs rhs = .ok obj) : obj.Plain := by
  unfold applied at h
  split at h
  · cases h
  · cases h
  · exact plain_of_arithmeticResult h

/-! ## Operators -/

/-- A prefix operator keeps the books: it gives its operand up and pushes a plain number. -/
theorem Keeps.unary (hm : m.Keeps rest) (op : Operator) : (m.unary op).2.Keeps rest := by
  unfold Machine.unary
  split
  · exact hm
  · rename_i obj values hValues
    refine (hm.pop hValues).release.pushPlain fun x hx => ?_
    split at hx
    · exact plain_of_arithmeticResult hx
    · cases hx

/-- An operator for two keeps the books, if it does not find one value only. -/
theorem Keeps.binary (hm : m.Keeps rest) (hOne : m.values.length ≠ 1) (op : Operator) :
    (m.binary op).2.Keeps rest := by
  unfold Machine.binary
  split
  · exact hm
  -- with one value only, the value would be taken off and nobody would give it up
  · rename_i obj hValues
    exact absurd (by rw [hValues]; rfl) hOne
  · rename_i rhs lhs values hValues
    have hPopped := hm.pop₂ hValues
    -- the left operand is given up first
    rw [Multiset.cons_swap] at hPopped
    exact hPopped.release.release.pushPlain fun x hx => plain_of_applied hx

/-- Assigning to a slot keeps the books: what was in hand goes into the slot, and a handle on the
slot is pushed. -/
theorem Keeps.assignSlot {id : SlotId} {obj : Object} (hm : m.Keeps (obj ::ₘ rest)) (hId : 0 < id) :
    (m.assignSlot id obj).2.Keeps rest := by
  have hBound : { m with store := (m.store.bind id obj).2 }.Keeps rest := by
    unfold Keeps at hm
    rw [Multiset.add_cons] at hm
    exact Store.Keeps.bind hm id
  unfold Machine.assignSlot
  cases hBind : m.store.bind id obj with
  | mk answer s =>
    rw [hBind] at hBound
    cases answer with
    | ok _ => exact (hBound.cons (Object.plain_writable hId)).push
    | error e => exact hBound

/-- A handle on the stack names a slot that can be there. -/
theorem Keeps.pos_of_writable {id : SlotId} (hm : m.Keeps rest) (hObj : .writable id ∈ rest) :
    0 < id := by
  refine Nat.pos_of_ne_zero fun hZero => ?_
  exact hm.named _ (Multiset.mem_add.2 (.inr hObj)) (by rw [hZero])

/-- What owns something or counts on something names no slot. -/
theorem Keeps.forget {obj : Object} (hm : m.Keeps (obj ::ₘ rest)) (hSlot : 0 < obj.slot) :
    m.Keeps rest := by
  cases obj with
  | writable id => exact hm.release
  | _ => simp [Object.slot] at hSlot

/-- An assignment keeps the books, if it does not find one value only. -/
theorem Keeps.assign (hm : m.Keeps rest) (hOne : m.values.length ≠ 1) :
    m.assign.2.Keeps rest := by
  unfold Machine.assign
  split
  · exact hm
  · rename_i obj hValues
    exact absurd (by rw [hValues]; rfl) hOne
  · rename_i rhs id values hValues
    have hPopped := hm.pop₂ hValues
    have hPos : 0 < id := hPopped.pos_of_writable (by simp)
    rw [Multiset.cons_swap] at hPopped
    -- the handle on the left takes care of nothing
    have hRhs := hPopped.forget hPos
    dsimp only
    split
    -- a slot that is assigned to itself: both handles are plain, and one of them is pushed
    · rename_i hSame
      have hRest := hRhs.forget (by rw [hSame]; exact hPos)
      exact (hRest.cons (Object.plain_writable hPos)).push
    · exact hRhs.assignSlot hPos
  -- the left operand is no handle on a slot, and both are given up
  · rename_i rhs lhs values _ hValues
    have hPopped := hm.pop₂ hValues
    rw [Multiset.cons_swap] at hPopped
    exact hPopped.release.release

/-- A compound assignment keeps the books, if it does not find one value only. -/
theorem Keeps.compound (hm : m.Keeps rest) (hOne : m.values.length ≠ 1) (base : Operator) :
    (m.compound base).2.Keeps rest := by
  unfold Machine.compound
  split
  · exact hm
  · rename_i obj hValues
    exact absurd (by rw [hValues]; rfl) hOne
  · rename_i rhs lhs values hValues
    have hPopped := (hm.pop₂ hValues).release
    dsimp only
    split
    · exact hPopped.release
    · rename_i value hValue
      split
      -- the result is plain, and the target takes it over
      · rename_i id
        have hPos : 0 < id := hPopped.pos_of_writable (by simp)
        exact ((hPopped.forget hPos).cons (plain_of_applied hValue)).assignSlot hPos
      · exact hPopped.release

/-! ## Lists -/

/-- Opening a bracket moves nothing that is held. -/
theorem Keeps.opening (hm : m.Keeps rest) (b : Bracket) : (m.opening b).Keeps rest := by
  unfold Keeps
  rw [held_opening]
  exact hm

/-- A comma moves a value from one place that is held to another. -/
theorem Keeps.comma (hm : m.Keeps rest) : m.comma.2.Keeps rest := by
  have hStore : m.comma.2.store = m.store := by
    unfold Machine.comma
    split <;> rfl
  unfold Keeps
  rw [held_comma, hStore]
  exact hm

/-- What is set aside goes from hand to the machine. -/
theorem Keeps.setAside {objs : List Object} (hm : m.Keeps (objs + rest)) :
    (m.setAside objs).Keeps rest := by
  unfold Keeps at hm ⊢
  rw [held_setAside, setAside_store, add_assoc, add_left_comm]
  exact hm

/-- The elements of an array are in hand before the array is given up. -/
theorem Keeps.elements {obj : Object} {slots : List SlotId} {writable : Bool}
    (hm : m.Keeps (obj ::ₘ rest)) (hArray : m.store.array? obj = some (slots, writable)) :
    (Machine.elements m.store writable [] slots).2.Keeps
      (obj ::ₘ ((Machine.elements m.store writable [] slots).1 + (m.held + rest))) := by
  have hIds := Store.Keeps.pos_of_array? hm (by simp) hArray
  have hStart : m.store.Keeps (([] : List Object) + (m.held + obj ::ₘ rest)) := by
    rw [Multiset.coe_nil, zero_add]
    exact hm
  have hTaken := keeps_elements hStart writable hIds
  rw [Multiset.add_cons, Multiset.add_cons] at hTaken
  exact hTaken

/-- Spreading an array keeps the books. -/
theorem Keeps.spread (hm : m.Keeps rest) : m.spread.2.Keeps rest := by
  unfold Machine.spread
  cases hValues : m.values with
  | nil => exact hm
  | cons obj values =>
    have hPopped := hm.pop hValues
    dsimp only
    split
    · exact hPopped.release
    · rename_i slots writable hArray
      have hReleased := (hPopped.elements hArray).release
      split
      · -- nothing was taken
        rename_i hEmpty
        rw [hEmpty, Multiset.coe_nil, zero_add] at hReleased
        exact hReleased
      · -- the last element goes on the stack and the others are set aside
        rename_i last others hEq
        rw [hEq, ← Multiset.cons_coe, Multiset.cons_add, add_left_comm, ← Multiset.add_cons,
          ← Multiset.add_cons] at hReleased
        have hAside := Keeps.setAside (m := { m with
          values, store := (Machine.elements m.store writable [] slots).2.release obj }) hReleased
        exact hAside.push

/-! ## Brackets -/

/-- What stood between the brackets is in hand when the bracket closes. -/
theorem Keeps.leave {around : Frame} {outer : List Frame} (hm : m.Keeps rest)
    (hOuter : m.outer = around :: outer) :
    (m.leave around outer).2.Keeps ((m.leave around outer).1 + rest) := by
  unfold Keeps at hm ⊢
  rw [← held_leave hOuter, add_assoc, add_left_comm] at hm
  exact hm

/-- The last item of a list is set apart from the others. -/
theorem Keeps.apart {items others : List Object} {last : Object} (hn : n.Keeps (items + rest))
    (hEq : items.reverse = last :: others) : n.Keeps (others.reverse + last ::ₘ rest) := by
  rw [List.reverse_eq_cons_iff.1 hEq, ← Multiset.coe_add, add_assoc, Multiset.coe_singleton,
    Multiset.singleton_add] at hn
  exact hn

/-- Of the items of a list the last one is in hand once the others have been given up. -/
theorem Keeps.releaseOthers {items others : List Object} {last : Object}
    (hn : n.Keeps (items + rest)) (hEq : items.reverse = last :: others) :
    (n.releaseAll others.reverse).Keeps (last ::ₘ rest) := (hn.apart hEq).releaseAll

/-- A group keeps the books: the last item is pushed and the others are given up. -/
theorem Keeps.closingGroup {items : List Object} (hn : n.Keeps (items + rest)) :
    (n.closingGroup items).2.Keeps rest := by
  unfold Machine.closingGroup
  split
  -- an empty group stands for nil, which is plain
  · rename_i hNil
    rw [List.reverse_eq_nil_iff.1 hNil, Multiset.coe_nil, zero_add] at hn
    exact (hn.cons Object.plain_nil).push
  · rename_i hEq
    exact (hn.releaseOthers hEq).push

/-- Indexing hands an element out and leaves everything else as it was. -/
theorem Keeps.indexing {target : Object} (hm : m.Keeps rest) (hTarget : target ∈ rest)
    (index : Object) :
    (∀ obj, (m.indexing target index).1 = .ok obj →
      (m.indexing target index).2.Keeps (obj ::ₘ rest)) ∧
    ∀ e, (m.indexing target index).1 = .error e → (m.indexing target index).2.Keeps rest := by
  unfold Machine.indexing
  split
  -- there is no such index, or no array, or no such element; else the element is handed out
  · exact ⟨by simp, fun _ _ => hm⟩
  · split
    · exact ⟨by simp, fun _ _ => hm⟩
    · rename_i slots writable hArray
      split
      · rename_i id hId _
        have hIds := Store.Keeps.pos_of_array? hm (Multiset.mem_add.2 (.inr hTarget)) hArray
        have hElement := Store.Keeps.element hm (hIds id (List.mem_of_getElem? hId)) writable
        refine ⟨fun obj hObj => ?_, by simp⟩
        cases hObj
        unfold Keeps
        rw [Multiset.add_cons]
        exact hElement
      · exact ⟨by simp, fun _ _ => hm⟩

/-- Indexing keeps the books: the element is pushed, and everything else in hand is given up. -/
theorem Keeps.closingIndex {items : List Object} (hn : n.Keeps (items + rest)) :
    (n.closingIndex items).2.Keeps rest := by
  unfold Machine.closingIndex
  split
  · rename_i hNil
    rw [List.reverse_eq_nil_iff.1 hNil, Multiset.coe_nil, zero_add] at hn
    exact hn
  · rename_i index others hEq
    have hIndex := hn.releaseOthers hEq
    dsimp only
    split
    · exact hIndex.release
    -- target, index and element are in hand now, and only the element stays
    · rename_i target values hValues
      have hPopped := hIndex.pop hValues
      obtain ⟨hOk, hError⟩ := hPopped.indexing (Multiset.mem_cons_self target _) index
      refine .pushResult (fun obj hObj => ?_) fun e he => ?_
      · have hBoth := hOk obj hObj
        rw [Multiset.cons_swap obj, Multiset.cons_swap obj, Multiset.cons_swap target] at hBoth
        exact hBoth.release.release
      · have hBoth := hError e he
        rw [Multiset.cons_swap] at hBoth
        exact hBoth.release.release

/-- Calling a function hands nothing out that anybody has to take care of. -/
theorem Keeps.calling {callee : Object} (hm : m.Keeps rest)
    (hStore : m.store.Within Function.AvoidsZero) (hCallee : callee.Within Function.AvoidsZero)
    (args : List Object) :
    (m.calling callee args).2.Keeps rest ∧
      ∀ obj, (m.calling callee args).1 = .ok obj → obj.Plain := by
  -- nothing changes but the entropy, unless there is no function to be called
  unfold Machine.calling
  split
  · -- the reply names a slot, or nothing that is counted
    rename_i f hf
    have hAvoids : f.AvoidsZero := hStore.payload? hCallee hf
    obtain ⟨sample, entropy, hCall⟩ := Store.exists_call_eq m.store f args
    rw [hCall]
    refine ⟨Store.Keeps.withEntropy hm entropy, fun obj hObj => ?_⟩
    dsimp only at hObj
    unfold Function.call at hObj
    split at hObj
    · cases hBody : f.body sample (args.map m.store.argument) with
      | error e => simp [hBody, Except.map] at hObj
      | ok reply =>
        simp only [hBody, Except.map, Except.ok.injEq] at hObj
        subst hObj
        cases reply with
        | slot id =>
          refine Object.plain_writable (Nat.pos_of_ne_zero ?_)
          rintro rfl
          exact hAvoids f .self _ _ hBody
        | nil => exact Object.plain_nil
        | number n => exact Object.plain_number n
        | function g => exact ⟨rfl, rfl, by simp [Object.ofReply]⟩
    · simp [Except.map] at hObj
  · exact ⟨hm, by simp⟩

/-- Calling a function keeps the books: the function and its arguments are given up, and the result
takes their place. -/
theorem Keeps.closingCall {items : List Object} (hn : n.Keeps (items + rest))
    (hWithin : n.Within Function.AvoidsZero) : (n.closingCall items).2.Keeps rest := by
  unfold Machine.closingCall
  split
  · exact hn.releaseAll
  · rename_i callee values hValues
    obtain ⟨hCallee, hRest⟩ := hWithin.pop hValues
    obtain ⟨hCalled, hPlain⟩ := (hn.pop hValues).calling hRest.store hCallee items
    rw [← Multiset.add_cons] at hCalled
    exact hCalled.releaseAll.release.pushPlain hPlain

/-- An array begins without elements. -/
theorem Keeps.emptyArray {items : List Object} (hn : n.Keeps (items + rest)) :
    n.store.Keeps (.array [] ::ₘ (items + (n.held + rest))) := by
  unfold Keeps at hn
  rw [add_left_comm] at hn
  exact hn.cons ⟨rfl, rfl, by simp⟩

/-- Making an array keeps the books: its items go into slots that it owns. -/
theorem Keeps.closingArray {items : List Object} (hn : n.Keeps (items + rest)) :
    (n.closingArray items).2.Keeps rest := by
  have hMade := keeps_slotsFor hn.emptyArray
  unfold Machine.closingArray
  -- without a slot for some item, everything that was taken is given up
  cases hEq : slotsFor n.store [] items with
  | mk answer t =>
    rw [hEq] at hMade
    cases answer with
    | error e => exact hMade
    | ok slots =>
      refine Keeps.push (m := { n with store := t }) ?_
      unfold Keeps
      rw [Multiset.add_cons]
      exact hMade

/-- Closing a bracket keeps the books, whatever kind it is. -/
theorem Keeps.closing (hm : m.Keeps rest) (hWithin : m.Within Function.AvoidsZero) (b : Bracket) :
    (m.closing b).2.Keeps rest := by
  unfold Machine.closing
  cases hOuter : m.outer with
  | nil => exact hm
  | cons around outer =>
    have hLeave := hm.leave hOuter
    have hWithinLeave := (hWithin.leave hOuter).2
    cases b with
    | group => exact hLeave.closingGroup
    | index => exact hLeave.closingIndex
    | call => exact hLeave.closingCall hWithinLeave
    | array => exact hLeave.closingArray

/-! ## Runs -/

/-- **A step keeps the books**, whether it fails or not, if a binary operator does not find a single
value. -/
theorem Keeps.step {i : Instruction} (hm : m.Keeps rest) (hWithin : m.Within Function.AvoidsZero)
    (hOne : ∀ op : Operator, i.kind = .operator op → op.isBinary → m.values.length ≠ 1)
    (script : String) : (m.step script i).2.Keeps rest := by
  unfold Machine.step
  split
  · exact hm.pushPlain fun x hx => plain_of_arithmeticResult hx
  · obtain ⟨hInterned, hPos⟩ := Store.Keeps.intern hm (i.span.text script)
    cases hEq : m.store.intern (i.span.text script) with
    | mk answer s =>
      rw [hEq] at hInterned hPos
      -- a name is looked up or brought in, and a handle on its slot is plain
      have hLeft : { m with store := s }.Keeps rest := hInterned
      cases answer with
      | ok id => exact (hLeft.cons (Object.plain_writable (hPos id rfl))).push
      | error e => exact hLeft
  · rename_i op hKind
    by_cases hBinary : op.isBinary
    · have hNotOne := hOne op hKind hBinary
      rw [perform_of_isBinary hBinary]
      split
      · exact hm.assign hNotOne
      · split
        · exact hm.compound hNotOne _
        · exact hm.binary hNotOne op
    · by_cases hPrefix : op.isPrefix
      · rw [perform_of_isPrefix hPrefix]
        split
        · exact hm.spread
        · exact hm.unary op
      · cases op with
        | opener b => exact hm.opening b
        | closer b => exact hm.closing hWithin b
        | comma => exact hm.comma
        | semicolon => exact hm
        | _ => simp [Operator.isBinary, Operator.isPrefix, Operator.priority] at hBinary hPrefix

/-- The check has seen two values in front of a binary operator. -/
theorem InStep.length_ne_one {h mid : Heights} {i : Instruction} (hStep : m.InStep h)
    (hMid : h.step i = .ok mid) (op : Operator) (hKind : i.kind = .operator op)
    (hBinary : op.isBinary) : m.values.length ≠ 1 := by
  have hStepped := Heights.stepped hMid
  rw [hKind] at hStepped
  rw [hStep.height]
  cases hStepped with
  | binary _ hValues => omega
  -- no other instruction that the heights speak of is an operator for two
  | opening | closingValue | closingTarget | comma | semicolon =>
    simp [Operator.isBinary, Operator.priority] at hBinary
  | prefixed hPrefix =>
    have hTwo : op.priority = 2 := by simpa [Operator.isPrefix] using hPrefix
    simp [Operator.isBinary, hTwo] at hBinary

/-- **A run that is in step with the check keeps the books.** -/
theorem Keeps.steps {h h' : Heights} {code : List Instruction} (hm : m.Keeps rest)
    (hWithin : m.Within Function.Tame) (hStep : m.InStep h) (hs : h.Sound) (script : String)
    (hPlay : h.play code = .ok h') :
    (Machine.steps script m code).2.Keeps rest ∧
      (Machine.steps script m code).2.Within Function.Tame := by
  -- induction on the code, with the machine and the heights left open
  induction code generalizing m h with
  | nil => exact ⟨hm, hWithin⟩
  | cons i code ih =>
    simp only [Heights.play] at hPlay
    split at hPlay
    · cases hPlay
    · rename_i mid hMid
      have hNext := hm.step hWithin.avoidsZero (hStep.length_ne_one hMid) script
      have hNextWithin := hWithin.step Function.inherited_tame script i
      have hAnswers := hStep.step hs script hMid
      unfold Machine.steps
      cases hEq : m.step script i with
      | mk answer n =>
        rw [hEq] at hNext hNextWithin hAnswers
        cases answer with
        | ok _ => exact ih hNext hNextWithin hAnswers (hs.step hMid) hPlay
        | error e => exact ⟨hNext, hNextWithin⟩

/-- What a run ends with: one value, which is the result, outside all brackets. -/
theorem finish_eq {obj : Object} {n : Machine} (hEq : m.finish = (.ok obj, n)) :
    m.values = [obj] ∧ m.outer = [] ∧
      n.store = m.store.releaseAll (m.frame.staged.flatMap (·.elements) ++ m.moved.reverse) := by
  unfold Machine.finish at hEq
  cases hOuter : m.outer with
  | cons around outer => simp [hOuter] at hEq
  | nil =>
    simp only [hOuter] at hEq
    split at hEq
    · rename_i result hResult
      cases hEq
      exact ⟨hResult, rfl, rfl⟩
    · cases hEq

/-- At the end the result is held, and what a spread has set aside outside all brackets. -/
theorem Keeps.atEnd {obj : Object} (hm : m.Keeps rest) (hValues : m.values = [obj])
    (hOuter : m.outer = []) :
    m.store.Keeps ((m.frame.staged.flatMap (·.elements) ++ m.moved.reverse : List Object) +
      obj ::ₘ rest) := by
  have hHeld : ((m.frame.staged.flatMap (·.elements) ++ m.moved.reverse : List Object) :
      Multiset Object) + obj ::ₘ rest = m.held + rest := by
    rw [held, hValues, hOuter, List.flatMap_nil, Multiset.coe_nil, ← Multiset.coe_add,
      Multiset.coe_reverse, Multiset.coe_singleton, ← Multiset.singleton_add obj]
    show m.frame.waiting + m.moved + ({obj} + rest : Multiset Object) = _
    abel
  rw [hHeld]
  exact hm

/-- The result is all that is left at the end. -/
theorem Keeps.finish {obj : Object} {n : Machine} (hm : m.Keeps rest)
    (hEq : m.finish = (.ok obj, n)) : n.store.Keeps (obj ::ₘ rest) ∧ m.values = [obj] := by
  obtain ⟨hValues, hOuter, hStore⟩ := finish_eq hEq
  rw [hStore]
  exact ⟨(hm.atEnd hValues hOuter).releaseAll, hValues⟩

/-- Nothing is left after a failure. -/
theorem Keeps.abandon (hm : m.Keeps rest) : m.abandon.Keeps rest := by
  obtain ⟨objs, hEq, hHeld⟩ := m.exists_abandon_eq
  unfold Keeps at hm
  rw [← hHeld] at hm
  -- all that the machine holds is given up, the stack first
  rw [hEq]
  exact Store.Keeps.releaseAll hm

end Machine

open Machine

/-- What a run leaves behind: its result if it succeeds, and nothing otherwise. -/
def Store.KeepsAnswer (t : Store) (answer : Except Failure Object) (rest : Multiset Object) :
    Prop :=
  match answer with
  | .ok obj => t.Keeps (obj ::ₘ rest)
  | .error _ => t.Keeps rest

/-- **Running a program keeps the books.** -/
theorem Program.keeps_run {code : List Instruction} {p : Program} {s : Store}
    {rest : Multiset Object} (hp : Program.ofPostfix code = .ok p) (hs : s.Keeps rest)
    (hWithin : s.Within Function.Tame) (script : String) :
    (p.run script s).2.KeepsAnswer (p.run script s).1 rest := by
  obtain ⟨h, hPlay, hHeight, hOuter, rfl⟩ := exists_play_of_ofPostfix hp
  have hFollows := (follows_start False s).steps (by simp) script hPlay
  -- the run and the check take the same steps, so at the end there is one value
  obtain ⟨hKeeps, -⟩ := (keeps_start hs).steps (within_start hWithin) ⟨rfl, rfl, rfl⟩
    Heights.sound_start script hPlay
  unfold Program.run Machine.run
  cases hEq : steps script { store := s } code with
  | mk answer m =>
    rw [hEq] at hFollows hKeeps
    cases answer with
    | error e => exact hKeeps.abandon
    | ok _ =>
      obtain ⟨obj, hOk⟩ := hFollows.inStep.finish hHeight hOuter
      dsimp only
      cases hFinish : m.finish with
      | mk answer n =>
        rw [hFinish] at hOk
        subst hOk
        exact (hKeeps.finish hFinish).1

end Reckon
