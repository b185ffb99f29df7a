import Reckon.Proofs.Held
import Reckon.Proofs.Matching

/-!
# Machines of the same shape

Two machines have the same shape when their stacks are as high, their levels were opened and filled
alike, and as many objects wait for as many commas in them. `Machine.Related` says so for a relation
between the objects that they hold. Operations that only move objects around go by the shape alone,
so they take machines of the same shape to such machines again, whatever the relation is.
-/

namespace Reckon

/-! ## Levels -/

/-- Elements that wait for as many commas, and are related. -/
structure Staged.Related (R : Object → Object → Prop) (e e' : Staged) : Prop where
  remaining : e.remaining = e'.remaining
  elements : List.Forall₂ R e.elements e'.elements

/-- Levels of the same shape, in which related elements are staged. -/
structure Frame.Related (R : Object → Object → Prop) (f f' : Frame) : Prop where
  bracket : f.bracket = f'.bracket
  base : f.base = f'.base
  accepted : f.accepted = f'.accepted
  staged : List.Forall₂ (Staged.Related R) f.staged f'.staged

/-- Machines of the same shape, which hold related objects. -/
structure Machine.Related (R : Object → Object → Prop) (m n : Machine) : Prop where
  values : List.Forall₂ R m.values n.values
  moved : List.Forall₂ R m.moved n.moved
  frame : m.frame.Related R n.frame
  outer : List.Forall₂ (Frame.Related R) m.outer n.outer

/-- What waits in levels of the same shape is related one by one. -/
theorem Frame.Related.waiting {R : Object → Object → Prop} {f f' : Frame} (h : f.Related R f') :
    List.Forall₂ R f.waiting f'.waiting := by
  obtain ⟨-, -, -, hStaged⟩ := h
  unfold Frame.waiting
  generalize f.staged = staged at hStaged
  generalize f'.staged = staged' at hStaged
  -- entry by entry: each has as many elements on both sides
  induction hStaged with
  | nil => exact .nil
  | cons hHead _ ih =>
    rw [List.flatMap_cons, List.flatMap_cons]
    exact List.rel_append hHead.elements ih

/-- Only the objects that wait in a level matter to its being related. -/
theorem Frame.Related.imp_waiting {R R' : Object → Object → Prop} {f f' : Frame}
    (h : f.Related R f')
    (hImp : ∀ obj ∈ f.waiting, ∀ obj' ∈ f'.waiting, R obj obj' → R' obj obj') :
    f.Related R' f' where
  bracket := h.bracket
  base := h.base
  accepted := h.accepted
  staged := forall₂_imp_mem h.staged fun e he e' he' hEntry =>
    ⟨hEntry.remaining, forall₂_imp_mem hEntry.elements fun obj hObj obj' hObj' =>
      hImp obj (List.mem_flatMap.2 ⟨e, he, hObj⟩) obj' (List.mem_flatMap.2 ⟨e', he', hObj'⟩)⟩

/-! ## Machines -/

namespace Machine

variable {R R' : Object → Object → Prop} {m n : Machine}

/-- Where the objects are that a machine holds. -/
theorem mem_held {obj : Object} : obj ∈ m.held ↔ obj ∈ m.values ∨ obj ∈ m.moved ∨
    obj ∈ m.frame.waiting ∨ ∃ f ∈ m.outer, obj ∈ f.waiting := by
  simp only [held, Multiset.mem_add, Multiset.mem_coe, List.mem_flatMap, or_assoc]

/-- Only what the machines hold matters. -/
theorem Related.imp_held (h : m.Related R n)
    (hImp : ∀ obj ∈ m.held, ∀ obj' ∈ n.held, R obj obj' → R' obj obj') : m.Related R' n where
  values := forall₂_imp_mem h.values fun obj hObj obj' hObj' =>
    hImp obj (mem_held.2 (.inl hObj)) obj' (mem_held.2 (.inl hObj'))
  moved := forall₂_imp_mem h.moved fun obj hObj obj' hObj' =>
    hImp obj (mem_held.2 (.inr (.inl hObj))) obj' (mem_held.2 (.inr (.inl hObj')))
  frame := h.frame.imp_waiting fun obj hObj obj' hObj' =>
    hImp obj (mem_held.2 (.inr (.inr (.inl hObj)))) obj' (mem_held.2 (.inr (.inr (.inl hObj'))))
  outer := forall₂_imp_mem h.outer fun f hf f' hf' hFrame =>
    hFrame.imp_waiting fun obj hObj obj' hObj' =>
      hImp obj (mem_held.2 (.inr (.inr (.inr ⟨f, hf, hObj⟩)))) obj'
        (mem_held.2 (.inr (.inr (.inr ⟨f', hf', hObj'⟩))))

theorem Related.push {obj obj' : Object} (h : m.Related R n) (hObj : R obj obj') :
    (m.push obj).Related R (n.push obj') :=
  ⟨.cons hObj h.values, h.moved, h.frame, h.outer⟩

/-- The stacks can be exchanged for related ones. -/
theorem Related.withValues {values values' : List Object} (h : m.Related R n)
    (hValues : List.Forall₂ R values values') :
    { m with values }.Related R { n with values := values' } :=
  ⟨hValues, h.moved, h.frame, h.outer⟩

/-- The values on top of both stacks, if there are any. -/
theorem Related.top (h : m.Related R n) :
    (m.values = [] ∧ n.values = []) ∨ ∃ obj obj' values values', m.values = obj :: values ∧
      n.values = obj' :: values' ∧ R obj obj' ∧ List.Forall₂ R values values' := by
  -- both stacks are empty, or each has a value on top
  have hValues := h.values
  generalize m.values = values at hValues
  generalize n.values = values' at hValues
  cases hValues with
  | nil => exact .inl ⟨rfl, rfl⟩
  | cons hObj hRest => exact .inr ⟨_, _, _, _, rfl, rfl, hObj, hRest⟩

/-- The two values on top of both stacks, if there are two. -/
theorem Related.top₂ (h : m.Related R n) :
    (m.values = [] ∧ n.values = []) ∨ (∃ obj obj', m.values = [obj] ∧ n.values = [obj']) ∨
      ∃ top top' below below' values values', m.values = top :: below :: values ∧
        n.values = top' :: below' :: values' ∧ R top top' ∧ R below below' ∧
        List.Forall₂ R values values' := by
  rcases h.top with hNone | ⟨top, top', values, values', hLeft, hRight, hTop, hRest⟩
  · exact .inl hNone
  -- below the top there is nothing on either side, or a value on each
  · cases hRest with
    | nil => exact .inr (.inl ⟨top, top', hLeft, hRight⟩)
    | cons hBelow hRest =>
      exact .inr (.inr ⟨top, top', _, _, _, _, hLeft, hRight, hTop, hBelow, hRest⟩)

theorem Related.pending (h : m.Related R n) : m.pending = n.pending := by
  unfold Machine.pending
  rw [h.values.length_eq, h.frame.base]

theorem Related.opening (h : m.Related R n) (b : Bracket) :
    (m.opening b).Related R (n.opening b) :=
  ⟨h.values, h.moved, ⟨rfl, h.values.length_eq, rfl, .nil⟩, .cons h.frame h.outer⟩

/-- Counting down goes by the numbers alone. -/
theorem related_countDown {staged staged' : List Staged}
    (h : List.Forall₂ (Staged.Related R) staged staged') :
    List.Forall₂ R (countDown staged).1 (countDown staged').1 ∧
      List.Forall₂ (Staged.Related R) (countDown staged).2 (countDown staged').2 := by
  induction h with
  | nil => exact ⟨.nil, .nil⟩
  | @cons e e' staged staged' hHead _ ih =>
    obtain ⟨hReady, hStaged⟩ := ih
    unfold countDown at hReady hStaged ⊢
    dsimp only at hReady hStaged ⊢
    rw [List.filter_cons, List.filter_cons, List.filter_cons, List.filter_cons, ← hHead.remaining]
    -- this comma is the last one that the elements wait for, or there are more to come
    by_cases hLast : e.remaining ≤ 1
    · have hNot : ¬ 1 < e.remaining := by omega
      simp only [hLast, hNot, decide_true, decide_false, if_true, Bool.false_eq_true, if_false,
        List.flatMap_cons]
      exact ⟨List.rel_append hHead.elements hReady, hStaged⟩
    · have hMore : 1 < e.remaining := by omega
      simp only [hLast, hMore, decide_true, decide_false, if_true, Bool.false_eq_true, if_false,
        List.map_cons, ← hHead.remaining]
      exact ⟨hReady, .cons ⟨rfl, hHead.elements⟩ hStaged⟩

/-- A comma gives the same answer, and moves related values aside. -/
theorem Related.comma (h : m.Related R n) :
    m.comma.1 = n.comma.1 ∧ m.comma.2.Related R n.comma.2 := by
  -- the values of the level, oldest first, and what lies below them
  have hLevel := List.forall₂_reverse_iff.2 (List.forall₂_take m.pending h.values)
  have hBelow := List.forall₂_drop m.pending h.values
  obtain ⟨hReady, hStaged⟩ := related_countDown h.frame.staged
  unfold Machine.comma
  rw [← h.pending]
  generalize (m.values.take m.pending).reverse = level at hLevel
  generalize (n.values.take m.pending).reverse = level' at hLevel
  -- the comma is for the oldest value of the level, if there is one
  cases hLevel with
  | nil => exact ⟨rfl, h⟩
  | cons hOldest hNewer =>
    refine ⟨rfl, List.rel_append (List.forall₂_reverse_iff.2 hNewer) hBelow, ?_, ?_, h.outer⟩
    · exact List.rel_append (List.forall₂_reverse_iff.2 hReady) (.cons hOldest h.moved)
    · exact ⟨h.frame.bracket, h.frame.base, by rw [h.frame.accepted], hStaged⟩

/-- Related objects can be set aside. -/
theorem Related.setAside {objs objs' : List Object} (h : m.Related R n)
    (hObjs : List.Forall₂ R objs objs') : (m.setAside objs).Related R (n.setAside objs') := by
  have hAccepted : m.frame.accepted + objs.length = n.frame.accepted + objs'.length := by
    rw [h.frame.accepted, hObjs.length_eq]
  have hEmpty : objs.isEmpty = objs'.isEmpty := by cases hObjs <;> rfl
  unfold Machine.setAside
  dsimp only
  rw [← h.pending, ← hEmpty]
  -- what is set aside is moved at once, or staged behind the values that wait
  split
  · exact ⟨h.values, List.rel_append hObjs h.moved,
      ⟨h.frame.bracket, h.frame.base, hAccepted, h.frame.staged⟩, h.outer⟩
  · split
    · exact ⟨h.values, h.moved, ⟨h.frame.bracket, h.frame.base, hAccepted, h.frame.staged⟩, h.outer⟩
    · refine ⟨h.values, h.moved, ⟨h.frame.bracket, h.frame.base, hAccepted, ?_⟩, h.outer⟩
      exact List.rel_append h.frame.staged
        (.cons ⟨rfl, List.forall₂_reverse_iff.2 hObjs⟩ .nil)

/-- Closing a bracket hands out related values, and leaves machines of the same shape. -/
theorem Related.leave {around around' : Frame} {outer outer' : List Frame} (h : m.Related R n)
    (hAround : around.Related R around') (hOuter : List.Forall₂ (Frame.Related R) outer outer') :
    List.Forall₂ R (m.leave around outer).1 (n.leave around' outer').1 ∧
      (m.leave around outer).2.Related R (n.leave around' outer').2 := by
  have hMoved := List.rel_append (List.forall₂_reverse_iff.2 h.frame.waiting) h.moved
  unfold Machine.leave
  dsimp only
  -- as many values are taken from what was moved aside and from the stack
  rw [← h.pending, ← h.frame.accepted]
  refine ⟨List.rel_append (List.forall₂_reverse_iff.2 (List.forall₂_take _ hMoved))
    (List.forall₂_reverse_iff.2 (List.forall₂_take _ h.values)), ?_, ?_, hAround, hOuter⟩
  · exact List.forall₂_drop _ h.values
  · exact List.forall₂_drop _ hMoved

end Machine

end Reckon
