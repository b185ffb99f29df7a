import Reckon.Proofs.Blindness
import Reckon.Proofs.Shapes
import Reckon.Proofs.Upkeep

/-!
# Two runs of one program

Two machines go through the same program, each on its own store. `Machine.Twin` says that they are
in the same state up to the numbers of slots and literals: a matching fits their stores, and what
they hold is alike, one by one, in levels of the same shape. Every instruction then gives the same
answer on both sides and keeps them so, unless one side runs out of slots, or the instruction calls
a function that can tell the sides apart. Main result: `Matching.Between.run`.
-/

namespace Reckon

open Matching Program

/-! ## Twins -/

/-- Two machines in the same state, up to the numbers of slots and literals. -/
structure Machine.Twin (r : Matching) (m n : Machine) : Prop where
  between : r.Between m.store n.store
  related : m.Related (Object.Alike r m.store n.store) n

/-- The same answer from machines that are twins afterwards. -/
def Twins (x y : Except Failure Unit × Machine) : Prop :=
  x.1 = y.1 ∧ ∃ r, Machine.Twin r x.2 y.2

namespace Machine

variable {r r' : Matching} {m n : Machine} {s' t' : Store} {obj obj' : Object}
  {rest rest' : Multiset Object}

/-- Machines that hold nothing yet are twins when their stores match. -/
theorem twin_start {s t : Store} (h : r.Between s t) : Twin r { store := s } { store := t } :=
  ⟨h, .nil, .nil, ⟨rfl, rfl, rfl, .nil⟩, .nil⟩

theorem Twin.twins {answer : Except Failure Unit} (h : Twin r m n) :
    Twins (answer, m) (answer, n) := ⟨rfl, r, h⟩

/-- Twins stay twins while their stores move on. -/
theorem Twin.advance (h : Twin r m n)
    (hNext : r.Advance m.store n.store (m.held + rest) (n.held + rest') r' s' t') :
    Twin r' { m with store := s' } { n with store := t' } := by
  -- the objects in hand stay alike, and the shape of the machines is the same
  have hRelated := h.related.imp_held fun obj hObj obj' hObj' => hNext.alike obj
    (Multiset.mem_add.2 (.inl hObj)) obj' (Multiset.mem_add.2 (.inl hObj'))
  exact ⟨hNext.between, hRelated.values, hRelated.moved, hRelated.frame, hRelated.outer⟩

/-- Twins stay twins while nothing that they use changes. -/
theorem Twin.carry (h : Twin r m n) (hs : m.store.Carries s' (m.held.bind Object.owns))
    (ht : n.store.Carries t' (n.held.bind Object.owns)) :
    Twin r { m with store := s' } { n with store := t' } := by
  have hNext := h.between.carried hs ht
  -- nothing is in hand apart from what the machines hold
  rw [← add_zero m.held, ← add_zero n.held] at hNext
  exact h.advance hNext

theorem Twin.push (h : Twin r m n) (hObj : obj.Alike r m.store n.store obj') :
    Twin r (m.push obj) (n.push obj') := ⟨h.between, h.related.push hObj⟩

/-- Twins exchange their stacks for stacks that are alike. -/
theorem Twin.withValues {values values' : List Object} (h : Twin r m n)
    (hValues : List.Forall₂ (Object.Alike r m.store n.store) values values') :
    Twin r { m with values } { n with values := values' } :=
  ⟨h.between, h.related.withValues hValues⟩

/-- Twins push results that are alike, or fail alike. -/
theorem Twin.pushResult {answer answer' : Except Failure Object} (h : Twin r m n)
    (hAnswer : Agree (Object.Alike r m.store n.store) answer answer') :
    Twins (m.pushResult answer) (n.pushResult answer') := by
  cases hAnswer with
  | ok hObj => exact (h.push hObj).twins
  | error e => exact h.twins

/-! ## Giving up -/

/-- Giving up objects that are alike changes nothing that is still in use, on either side. -/
theorem Keeps.advance_release (hm : m.Keeps (obj ::ₘ rest)) (hn : n.Keeps (obj' ::ₘ rest'))
    (h : r.Between m.store n.store) :
    r.Advance m.store n.store (m.held + rest) (n.held + rest') r (m.release obj).store
      (n.release obj').store := by
  unfold Keeps at hm hn
  rw [Multiset.add_cons] at hm hn
  exact h.carried hm.carries_release hn.carries_release

/-- The same for many objects. -/
theorem Keeps.advance_releaseAll {objs objs' : List Object} (hm : m.Keeps (objs + rest))
    (hn : n.Keeps (objs' + rest')) (h : r.Between m.store n.store) :
    r.Advance m.store n.store (m.held + rest) (n.held + rest') r (m.releaseAll objs).store
      (n.releaseAll objs').store := by
  unfold Keeps at hm hn
  rw [add_left_comm] at hm hn
  exact h.carried hm.carries_releaseAll hn.carries_releaseAll

theorem Twin.release (h : Twin r m n) (hm : m.Keeps (obj ::ₘ rest))
    (hn : n.Keeps (obj' ::ₘ rest')) : Twin r (m.release obj) (n.release obj') :=
  h.advance (hm.advance_release hn h.between)

theorem Twin.releaseAll {objs objs' : List Object} (h : Twin r m n) (hm : m.Keeps (objs + rest))
    (hn : n.Keeps (objs' + rest')) : Twin r (m.releaseAll objs) (n.releaseAll objs') :=
  h.advance (hm.advance_releaseAll hn h.between)

/-! ## Operators -/

/-- Objects that are alike are the same number, or neither is one. -/
theorem Twin.numberOf (h : Twin r m n) (hObj : obj.Alike r m.store n.store obj') :
    m.numberOf obj = n.numberOf obj' := by
  have hPayload := h.between.payload? hObj
  unfold Machine.numberOf
  generalize m.store.payload? obj = x at hPayload ⊢
  generalize n.store.payload? obj' = y at hPayload ⊢
  -- only the kind of payload matters, and it is the same on both sides
  cases hPayload with
  | none => rfl
  | some hAlike => cases hAlike <;> rfl

/-- Arithmetic gives plain numbers, which are alike everywhere. -/
theorem agree_arithmeticResult {s t : Store} (answer : Except Fault Number) :
    Agree (Object.Alike r s t) (arithmeticResult answer) (arithmeticResult answer) := by
  cases answer with
  | ok n => exact .ok (.number n)
  | error f => exact .error _

/-- Twins get the same result from operands that are alike, or fail in the same way. -/
theorem Twin.applied {lhs lhs' rhs rhs' : Object} {s t : Store} (h : Twin r m n) (op : Operator)
    (hLhs : lhs.Alike r m.store n.store lhs') (hRhs : rhs.Alike r m.store n.store rhs') :
    Agree (Object.Alike r s t) (m.applied op lhs rhs) (n.applied op lhs' rhs') := by
  unfold Machine.applied
  rw [← h.numberOf hLhs, ← h.numberOf hRhs]
  split
  · exact .error _
  · exact .error _
  · exact agree_arithmeticResult _

/-- Twins apply an operator to one value each. -/
theorem Twin.unary (h : Twin r m n) (hm : m.Keeps rest) (hn : n.Keeps rest') (op : Operator) :
    Twins (m.unary op) (n.unary op) := by
  unfold Machine.unary
  rcases h.related.top with ⟨hLeft, hRight⟩ |
    ⟨obj, obj', values, values', hLeft, hRight, hObj, hRest⟩
  · rw [hLeft, hRight]
    exact h.twins
  · rw [hLeft, hRight]
    dsimp only
    rw [← h.numberOf hObj]
    -- the operand is given up first, so the result comes to the machines behind that
    refine ((h.withValues hRest).release (hm.pop hLeft) (hn.pop hRight)).pushResult ?_
    split
    · exact agree_arithmeticResult _
    · exact .error _

/-- Twins apply an operator to two values each. -/
theorem Twin.binary (h : Twin r m n) (hm : m.Keeps rest) (hn : n.Keeps rest') (op : Operator) :
    Twins (m.binary op) (n.binary op) := by
  unfold Machine.binary
  rcases h.related.top₂ with ⟨hLeft, hRight⟩ | ⟨obj, obj', hLeft, hRight⟩ |
    ⟨rhs, rhs', lhs, lhs', values, values', hLeft, hRight, hRhs, hLhs, hRest⟩
  · rw [hLeft, hRight]
    exact h.twins
  -- a lone value is taken off on both sides, and lost
  · rw [hLeft, hRight]
    exact (h.withValues .nil).twins
  · rw [hLeft, hRight]
    have hPopped := hm.pop₂ hLeft
    have hPopped' := hn.pop₂ hRight
    -- the left operand is given up before the right one
    rw [Multiset.cons_swap] at hPopped hPopped'
    exact (((h.withValues hRest).release hPopped hPopped').release hPopped.release
      hPopped'.release).pushResult (h.applied op hLhs hRhs)

/-- Twins assign to slots that stand for each other. -/
theorem Twin.assignSlot {id id' : SlotId} (h : Twin r m n) (hm : m.Keeps (obj ::ₘ rest))
    (hn : n.Keeps (obj' ::ₘ rest')) (hObj : obj.Alike r m.store n.store obj')
    (hSlot : r.slots id id') : Twins (m.assignSlot id obj) (n.assignSlot id' obj') := by
  unfold Keeps at hm hn
  rw [Multiset.add_cons] at hm hn
  obtain ⟨hOk, hOk', r', hNext⟩ := h.between.bind hm hn hObj hSlot
  -- both objects find room, and in a matching that has grown
  have hBound : m.store.bind id obj = (.ok (), (m.store.bind id obj).2) := Prod.ext hOk rfl
  have hBound' : n.store.bind id' obj' = (.ok (), (n.store.bind id' obj').2) := Prod.ext hOk' rfl
  unfold Machine.assignSlot
  rw [hBound, hBound']
  exact ((h.advance hNext).push (.writable (hNext.le.1 _ _ hSlot))).twins

/-- Whether a value is a handle on the slot that is assigned to. -/
theorem slot_eq_iff {s t : Store} {handles handles' : Multiset LiteralId}
    {loose loose' : Multiset SlotId} {id id' : SlotId} (h : r.Between s t)
    (hs : s.Balanced handles loose) (ht : t.Balanced handles' loose')
    (hObj : obj.Alike r s t obj') (hSlot : r.slots id id') : obj.slot = id ↔ obj'.slot = id' := by
  obtain ⟨⟨o, hOwns⟩, ⟨o', hOwns'⟩⟩ := h.owned id id' hSlot
  obtain ⟨slot, hLive⟩ := hs.slot?_of_owns hOwns
  obtain ⟨slot', hLive'⟩ := ht.slot?_of_owns hOwns'
  -- slot 0 is never given out, and it is what an object that is no handle counts as
  have hNe : 0 ≠ id := Nat.ne_of_lt (hs.pos_of_slot? hLive)
  have hNe' : 0 ≠ id' := Nat.ne_of_lt (ht.pos_of_slot? hLive')
  cases hObj with
  | @writable k k' hk =>
    show k = id ↔ k' = id'
    constructor
    · rintro rfl
      exact h.slotsUnique.2 hk hSlot
    · rintro rfl
      exact h.slotsUnique.1 hk hSlot
  | _ => exact iff_of_false hNe hNe'

/-- Twins assign the value on top to the one below it. -/
theorem Twin.assign (h : Twin r m n) (hm : m.Keeps rest) (hn : n.Keeps rest') :
    Twins m.assign n.assign := by
  unfold Machine.assign
  rcases h.related.top₂ with ⟨hLeft, hRight⟩ | ⟨obj, obj', hLeft, hRight⟩ |
    ⟨rhs, rhs', lhs, lhs', values, values', hLeft, hRight, hRhs, hLhs, hRest⟩
  · rw [hLeft, hRight]
    exact h.twins
  · rw [hLeft, hRight]
    exact (h.withValues .nil).twins
  · rw [hLeft, hRight]
    have hPopped := hm.pop₂ hLeft
    have hPopped' := hn.pop₂ hRight
    rw [Multiset.cons_swap] at hPopped hPopped'
    cases hLhs with
    | @writable id id' hSlot =>
      dsimp only
      have hPos : 0 < id := hPopped.pos_of_writable (by simp)
      have hPos' : 0 < id' := hPopped'.pos_of_writable (by simp)
      -- both sides assign a slot to itself, or neither does
      by_cases hSame : rhs.slot = id
      · have hSame' := (slot_eq_iff h.between hm.balanced hn.balanced hRhs hSlot).1 hSame
        rw [if_pos hSame, if_pos hSame']
        exact ((h.withValues hRest).push (.writable hSlot)).twins
      · have hOther' := mt (slot_eq_iff h.between hm.balanced hn.balanced hRhs hSlot).2 hSame
        rw [if_neg hSame, if_neg hOther']
        exact (h.withValues hRest).assignSlot (hPopped.forget hPos) (hPopped'.forget hPos') hRhs
          hSlot
    | _ =>
      -- a value that is no handle on a slot cannot be assigned to
      exact (((h.withValues hRest).release hPopped hPopped').release hPopped.release
        hPopped'.release).twins

/-- Twins assign a result to the left operand. -/
theorem Twin.compound (h : Twin r m n) (hm : m.Keeps rest) (hn : n.Keeps rest') (base : Operator) :
    Twins (m.compound base) (n.compound base) := by
  unfold Machine.compound
  rcases h.related.top₂ with ⟨hLeft, hRight⟩ | ⟨obj, obj', hLeft, hRight⟩ |
    ⟨rhs, rhs', lhs, lhs', values, values', hLeft, hRight, hRhs, hLhs, hRest⟩
  · rw [hLeft, hRight]
    exact h.twins
  · rw [hLeft, hRight]
    exact (h.withValues .nil).twins
  · rw [hLeft, hRight]
    have hPopped := hm.pop₂ hLeft
    have hPopped' := hn.pop₂ hRight
    have hReleased := (h.withValues hRest).release hPopped hPopped'
    have hNext := hPopped.advance_release hPopped' h.between
    have hLhsAlike := hNext.alike lhs (by simp) lhs' (by simp) hLhs
    have hResult := h.applied (s := (m.release rhs).store) (t := (n.release rhs').store) base
      hLhs hRhs
    -- the results own nothing, so they can be taken into hand without more
    have hPlain : ∀ obj, m.applied base lhs rhs = .ok obj → obj.Plain := fun _ => plain_of_applied
    have hPlain' : ∀ obj, n.applied base lhs' rhs' = .ok obj → obj.Plain :=
      fun _ => plain_of_applied
    dsimp only
    generalize m.applied base lhs rhs = answer at hResult hPlain
    generalize n.applied base lhs' rhs' = answer' at hResult hPlain'
    cases hResult with
    | error e => exact (hReleased.release hPopped.release hPopped'.release).twins
    | @ok value value' hValue =>
      cases hLhsAlike with
      | @writable id id' hSlot =>
        have hPos : 0 < id := hPopped.release.pos_of_writable (by simp)
        have hPos' : 0 < id' := hPopped'.release.pos_of_writable (by simp)
        exact hReleased.assignSlot ((hPopped.release.forget hPos).cons (hPlain value rfl))
          ((hPopped'.release.forget hPos').cons (hPlain' value' rfl)) hValue hSlot
      | _ => exact (hReleased.release hPopped.release hPopped'.release).twins

/-! ## Lists -/

theorem Twin.opening (h : Twin r m n) (b : Bracket) : Twin r (m.opening b) (n.opening b) :=
  ⟨h.between, h.related.opening b⟩

/-- A comma leaves the store alone. -/
theorem comma_store (m : Machine) : m.comma.2.store = m.store := by
  unfold Machine.comma
  split <;> rfl

/-- Twins move the same value aside. -/
theorem Twin.comma (h : Twin r m n) : Twins m.comma n.comma := by
  obtain ⟨hAnswer, hRelated⟩ := h.related.comma
  refine ⟨hAnswer, r, ?_, ?_⟩
  · rw [comma_store, comma_store]
    exact h.between
  · rw [comma_store, comma_store]
    exact hRelated

/-- Twins set aside objects that are alike. -/
theorem Twin.setAside {objs objs' : List Object} (h : Twin r m n)
    (hObjs : List.Forall₂ (Object.Alike r m.store n.store) objs objs') :
    Twin r (m.setAside objs) (n.setAside objs') := by
  refine ⟨?_, ?_⟩
  · rw [setAside_store, setAside_store]
    exact h.between
  · rw [setAside_store, setAside_store]
    exact h.related.setAside hObjs

/-- Handles on elements that are alike are alike, in whatever stores. -/
theorem alike_elements {s t : Store} {writable : Bool} {taken taken' : List Object}
    {ids ids' : List SlotId} (hElements : List.Forall₂ (r.SameElement s t writable) ids ids')
    (hTaken : List.Forall₂ (fun obj obj' => ∀ s t, obj.Alike r s t obj') taken taken') :
    List.Forall₂ (fun obj obj' => ∀ s t, obj.Alike r s t obj') (elements s writable taken ids).1
      (elements t writable taken' ids').1 := by
  -- induction on the slots, with the stores left open, since each element changes them
  induction ids generalizing ids' s t taken taken' with
  | nil =>
    cases hElements
    exact hTaken
  | cons id ids ih =>
    cases hElements with
    | @cons _ id' _ ids' hHead hTail =>
      -- the slots that are still to come point where they did
      have hTail' := forall₂_imp_mem hTail fun k hk k' hk' hSame =>
        And.intro (hSame.1.mono (le_refl r)
          ((Store.carries_element s id writable ids).target k (.inr (Multiset.mem_coe.2 hk)))
          ((Store.carries_element t id' writable ids').target k' (.inr (Multiset.mem_coe.2 hk'))))
          hSame.2
      simp only [Machine.elements]
      exact ih hTail' (.cons (fun _ _ => hHead.element) hTaken)

/-- Twins spread arrays that are alike. -/
theorem Twin.spread (h : Twin r m n) (hm : m.Keeps rest) (hn : n.Keeps rest') :
    Twins m.spread n.spread := by
  unfold Machine.spread
  rcases h.related.top with ⟨hLeft, hRight⟩ |
    ⟨obj, obj', values, values', hLeft, hRight, hObj, hRest⟩
  · rw [hLeft, hRight]
    exact h.twins
  · rw [hLeft, hRight]
    have hPopped := hm.pop hLeft
    have hPopped' := hn.pop hRight
    have hArray := h.between.array? hObj
    dsimp only
    generalize hFound : m.store.array? obj = found at hArray
    generalize hFound' : n.store.array? obj' = found' at hArray
    cases hArray with
    | none => exact ((h.withValues hRest).release hPopped hPopped').twins
    | @some found found' hSame =>
      obtain ⟨slots, writable⟩ := found
      obtain ⟨slots', writable'⟩ := found'
      obtain ⟨hSlots, hWritable⟩ := hSame
      dsimp only at hSlots hWritable ⊢
      subst hWritable
      -- handles on the elements come first, and then the array is given up
      have hElements := alike_elements hSlots .nil
      have hTaken := hPopped.elements hFound
      have hTaken' := hPopped'.elements hFound'
      -- giving the array up concerns what is in hand, and the rest of it is what the machines hold
      have hSub (objs : List Object) (others : Multiset Object) :
          others.bind Object.owns ⊆ ((objs : Multiset Object) + others).bind Object.owns := by
        rw [Multiset.add_bind]
        exact Multiset.subset_of_le (Multiset.le_add_left _ _)
      have hNext := h.between.carried
        ((carries_elements m.store writable [] slots _).trans
          (hTaken.carries_release.mono (hSub _ _)))
        ((carries_elements n.store writable [] slots' _).trans
          (hTaken'.carries_release.mono (hSub _ _)))
      have hReleased := (h.withValues hRest).advance hNext
      generalize (Machine.elements m.store writable [] slots).1 = objs at hElements
      generalize (Machine.elements n.store writable [] slots').1 = objs' at hElements
      -- an empty array leaves nothing on the stack; otherwise the last element stays there
      cases hElements with
      | nil => exact hReleased.twins
      | cons hLast hOthers =>
        have hAside := hReleased.setAside (hOthers.imp fun _ _ hAlike => hAlike _ _)
        exact (hAside.push (hLast _ _)).twins

/-! ## Brackets -/

variable {items items' : List Object}

/-- Twins close a group: the last value stays, and nothing stands for an empty one. -/
theorem Twin.closingGroup (h : Twin r m n) (hm : m.Keeps (items + rest))
    (hn : n.Keeps (items' + rest'))
    (hItems : List.Forall₂ (Object.Alike r m.store n.store) items items') :
    Twins (m.closingGroup items) (n.closingGroup items') := by
  have hReversed := List.forall₂_reverse_iff.2 hItems
  unfold Machine.closingGroup
  rcases hEq : items.reverse with _ | ⟨last, others⟩ <;>
    -- both lists have a last value or neither has one
    rcases hEq' : items'.reverse with _ | ⟨last', others'⟩ <;> rw [hEq, hEq'] at hReversed
  · exact (h.push .nil).twins
  · cases hReversed
  · cases hReversed
  · -- the last value is in hand while the others are given up
    have hNext := (hm.apart hEq).advance_releaseAll (hn.apart hEq') h.between
    have hLast := hNext.alike last (by simp) last' (by simp) (List.forall₂_cons.1 hReversed).1
    exact ((h.advance hNext).push hLast).twins

/-- Objects that are alike are the same index, or neither is one. -/
theorem Twin.indexOf (h : Twin r m n) (hObj : obj.Alike r m.store n.store obj') :
    m.indexOf obj = n.indexOf obj' := by
  have hPayload := h.between.payload? hObj
  unfold Machine.indexOf
  generalize m.store.payload? obj = x at hPayload ⊢
  generalize n.store.payload? obj' = y at hPayload ⊢
  cases hPayload with
  | none => rfl
  | some hAlike => cases hAlike <;> rfl

/-- Indexing hands out elements that are alike, or fails in the same way. -/
theorem Twin.indexing {target target' index index' : Object} (h : Twin r m n)
    (hTarget : target.Alike r m.store n.store target')
    (hIndex : index.Alike r m.store n.store index') :
    Agree (fun obj obj' => ∀ s t, obj.Alike r s t obj') (m.indexing target index).1
        (n.indexing target' index').1 ∧
      Twin r (m.indexing target index).2 (n.indexing target' index').2 := by
  have hArray := h.between.array? hTarget
  unfold Machine.indexing
  rw [← h.indexOf hIndex]
  -- the index is no position, or a position that may be out of range or may have overflowed
  split
  · exact ⟨.error _, h⟩
  · rename_i position overflow _
    generalize m.store.array? target = found at hArray ⊢
    generalize n.store.array? target' = found' at hArray ⊢
    cases hArray with
    | none => exact ⟨.error _, h⟩
    | @some found found' hSame =>
      obtain ⟨slots, writable⟩ := found
      obtain ⟨slots', writable'⟩ := found'
      obtain ⟨hElements, hWritable⟩ := hSame
      dsimp only at hElements hWritable ⊢
      subst hWritable
      have hElement := rel_getElem? hElements position
      generalize slots[position]? = x at hElement ⊢
      generalize slots'[position]? = y at hElement ⊢
      cases hElement with
      | none => exact ⟨.error _, h⟩
      | @some id id' hSame =>
        -- a position that has overflowed is refused, even where there is an element at it
        cases overflow with
        | true => exact ⟨.error _, h⟩
        | false =>
          refine ⟨.ok fun _ _ => hSame.element, ?_⟩
          exact h.carry (Store.carries_element m.store id writable _)
            (Store.carries_element n.store id' writable _)

/-- While an index is looked up, the array and the index stay in hand. -/
theorem Keeps.exists_indexing {target index : Object}
    (hm : m.Keeps (target ::ₘ index ::ₘ rest)) :
    ∃ others, (m.indexing target index).2.Keeps (index ::ₘ target ::ₘ others) := by
  -- what was in hand still is, with the element on top where there is one
  obtain ⟨hOk, hError⟩ := hm.indexing (Multiset.mem_cons_self target _) index
  cases hAnswer : (m.indexing target index).1 with
  | ok obj =>
    refine ⟨obj ::ₘ rest, ?_⟩
    rw [Multiset.cons_swap target obj, Multiset.cons_swap index obj, Multiset.cons_swap index]
    exact hOk obj hAnswer
  | error e =>
    refine ⟨rest, ?_⟩
    rw [Multiset.cons_swap]
    exact hError e hAnswer

/-- Twins index into arrays that are alike. -/
theorem Twin.closingIndex (h : Twin r m n) (hm : m.Keeps (items + rest))
    (hn : n.Keeps (items' + rest'))
    (hItems : List.Forall₂ (Object.Alike r m.store n.store) items items') :
    Twins (m.closingIndex items) (n.closingIndex items') := by
  have hReversed := List.forall₂_reverse_iff.2 hItems
  unfold Machine.closingIndex
  rcases hEq : items.reverse with _ | ⟨index, others⟩ <;>
    rcases hEq' : items'.reverse with _ | ⟨index', others'⟩ <;> rw [hEq, hEq'] at hReversed
  · exact h.twins
  · cases hReversed
  · cases hReversed
  · -- the last item is the index, and stays in hand while the others are given up
    have hApart := hm.apart hEq
    have hApart' := hn.apart hEq'
    have hNext := hApart.advance_releaseAll hApart' h.between
    have hIndex := hNext.alike index (by simp) index' (by simp) (List.forall₂_cons.1 hReversed).1
    have hReleased : Twin r (m.releaseAll others.reverse) (n.releaseAll others'.reverse) :=
      h.advance hNext
    have hHeld := hApart.releaseAll
    have hHeld' := hApart'.releaseAll
    dsimp only
    rcases hReleased.related.top with ⟨hLeft, hRight⟩ |
      ⟨target, target', values, values', hLeft, hRight, hTarget, hRest⟩
    -- nothing is left to be indexed, and the index is given up
    · rw [hLeft, hRight]
      exact (hReleased.release hHeld hHeld').twins
    · rw [hLeft, hRight]
      obtain ⟨_, hIndexed⟩ := (hHeld.pop hLeft).exists_indexing
      obtain ⟨_, hIndexed'⟩ := (hHeld'.pop hRight).exists_indexing
      obtain ⟨hAnswer, hTwin⟩ := (hReleased.withValues hRest).indexing hTarget hIndex
      -- the index is given up, and then the array
      refine ((hTwin.release hIndexed hIndexed').release hIndexed.release
        hIndexed'.release).pushResult ?_
      exact hAnswer.imp fun _ _ hAlike => hAlike _ _

/-- Calls of functions that cannot tell the sides apart give results that are alike. -/
theorem Twin.calling {callee callee' : Object} (h : Twin r m n) (hm : m.Keeps (items + rest))
    (hn : n.Keeps (items' + rest')) (hCallee : callee.Alike r m.store n.store callee')
    (hItems : List.Forall₂ (Object.Alike r m.store n.store) items items')
    (hCalled : ∀ f, m.store.payload? callee = some (.function f) → f.Blind ∧ f.NamesArguments) :
    Agree (fun obj obj' => ∀ s t, obj.Alike r s t obj') (m.calling callee items).1
        (n.calling callee' items').1 ∧
      Twin r (m.calling callee items).2 (n.calling callee' items').2 := by
  have hPayload := h.between.payload? hCallee
  unfold Keeps at hm hn
  rw [add_left_comm] at hm hn
  unfold Machine.calling
  generalize m.store.payload? callee = x at hPayload hCalled ⊢
  generalize n.store.payload? callee' = y at hPayload ⊢
  cases hPayload with
  | none => exact ⟨.error _, h⟩
  | some hAlike =>
    cases hAlike with
    | number _ => exact ⟨.error _, h⟩
    | array _ => exact ⟨.error _, h⟩
    | function f =>
      obtain ⟨hBlind, hNames⟩ := hCalled f rfl
      have hAnswer := h.between.call hm hn hItems hBlind hNames
      -- the call changes nothing but the entropy, which no matching speaks of
      obtain ⟨sample, entropy, hCall⟩ := Store.exists_call_eq m.store f items
      obtain ⟨sample', entropy', hCall'⟩ := Store.exists_call_eq n.store f items'
      rw [hCall, hCall'] at hAnswer
      dsimp only
      rw [hCall, hCall']
      exact ⟨hAnswer, h.carry (Store.carries_withEntropy _ entropy _)
        (Store.carries_withEntropy _ entropy' _)⟩

/-- Twins call the functions in front of a bracket, unless these can tell them apart. -/
theorem Twin.closingCall (h : Twin r m n) (hm : m.Keeps (items + rest))
    (hn : n.Keeps (items' + rest')) (hWithin : m.Within Function.Tame)
    (hWithin' : n.Within Function.Tame)
    (hItems : List.Forall₂ (Object.Alike r m.store n.store) items items')
    (hBlind : ∀ callee f, m.values.head? = some callee →
      m.store.payload? callee = some (.function f) → f.Blind) :
    Twins (m.closingCall items) (n.closingCall items') := by
  unfold Machine.closingCall
  rcases h.related.top with ⟨hLeft, hRight⟩ |
    ⟨callee, callee', values, values', hLeft, hRight, hCallee, hRest⟩
  · rw [hLeft, hRight]
    exact (h.releaseAll hm hn).twins
  · rw [hLeft, hRight]
    -- what a tame function may do is passed on to what is left when it is taken off
    obtain ⟨hFits, hOthers⟩ := hWithin.pop hLeft
    obtain ⟨hFits', hOthers'⟩ := hWithin'.pop hRight
    have hPopped := hm.pop hLeft
    have hPopped' := hn.pop hRight
    obtain ⟨hAvoids, hOthersAvoid⟩ := hWithin.avoidsZero.pop hLeft
    obtain ⟨hAvoids', hOthersAvoid'⟩ := hWithin'.avoidsZero.pop hRight
    obtain ⟨hHeld, -⟩ := hPopped.calling hOthersAvoid.store hAvoids items
    obtain ⟨hHeld', -⟩ := hPopped'.calling hOthersAvoid'.store hAvoids' items'
    rw [← Multiset.add_cons] at hPopped hPopped' hHeld hHeld'
    obtain ⟨hAnswer, hTwin⟩ := (h.withValues hRest).calling hPopped hPopped' hCallee hItems
      fun f hf => ⟨hBlind callee f (by rw [hLeft]; rfl) hf, hOthers.store.payload? hFits hf f .self⟩
    -- the arguments are given up, then the function, and the result takes their place
    refine ((hTwin.releaseAll hHeld hHeld').release hHeld.releaseAll
      hHeld'.releaseAll).pushResult ?_
    exact hAnswer.imp fun _ _ hAlike => hAlike _ _

/-- When there are slots for an array, there are for its elements. -/
theorem afforded_slotsFor (h : Afforded (m.closingArray items).1) :
    Afforded (slotsFor m.store [] items).1 := by
  refine h.of_part fun e hEq => ?_
  unfold Machine.closingArray
  rw [hEq]
  rfl

/-- Twins make arrays of objects that are alike, if there are slots for them. -/
theorem Twin.closingArray (h : Twin r m n) (hm : m.Keeps (items + rest))
    (hn : n.Keeps (items' + rest'))
    (hItems : List.Forall₂ (Object.Alike r m.store n.store) items items')
    (hAfforded : Afforded (m.closingArray items).1)
    (hAfforded' : Afforded (n.closingArray items').1) :
    Twins (m.closingArray items) (n.closingArray items') := by
  -- the elements are put into slots of their own, which are matched in a larger matching
  obtain ⟨r', ids, ids', hOk, hOk', hTargets, hNext⟩ := h.between.slotsFor hm.emptyArray
    hn.emptyArray .nil hItems (afforded_slotsFor hAfforded) (afforded_slotsFor hAfforded')
  have hEq : slotsFor m.store [] items = (.ok ids, (slotsFor m.store [] items).2) :=
    Prod.ext hOk rfl
  have hEq' : slotsFor n.store [] items' = (.ok ids', (slotsFor n.store [] items').2) :=
    Prod.ext hOk' rfl
  unfold Machine.closingArray
  rw [hEq, hEq']
  exact ((h.advance hNext).push (.array hTargets)).twins

/-- The function that an instruction calls, if it is the end of a call. -/
def callee? (m : Machine) (i : Instruction) : Option Function :=
  match i.kind with
  | .operator (.closer .call) =>
    match (m.values.drop m.pending).head?.bind m.store.payload? with
    | some (.function f) => some f
    | _ => none
  | _ => none

/-- Twins close brackets alike. -/
theorem Twin.closing (h : Twin r m n) (hm : m.Keeps rest) (hn : n.Keeps rest')
    (hWithin : m.Within Function.Tame) (hWithin' : n.Within Function.Tame) (b : Bracket)
    (hBlind : b = .call → ∀ f, (m.values.drop m.pending).head?.bind m.store.payload? =
      some (.function f) → f.Blind)
    (hAfforded : Afforded (m.closing b).1) (hAfforded' : Afforded (n.closing b).1) :
    Twins (m.closing b) (n.closing b) := by
  have hFrames := h.related.outer
  unfold Machine.closing at hAfforded hAfforded' ⊢
  -- both sides have an open bracket or neither has one
  rcases hOuter : m.outer with _ | ⟨around, outer⟩ <;>
    rcases hOuter' : n.outer with _ | ⟨around', outer'⟩ <;> rw [hOuter, hOuter'] at hFrames
  · exact h.twins
  · cases hFrames
  · cases hFrames
  · obtain ⟨hAround, hRest⟩ := List.forall₂_cons.1 hFrames
    obtain ⟨hItems, hRelated⟩ := h.related.leave hAround hRest
    have hLeft : Twin r (m.leave around outer).2 (n.leave around' outer').2 := ⟨h.between, hRelated⟩
    have hHeld := hm.leave hOuter
    have hHeld' := hn.leave hOuter'
    simp only [hOuter] at hAfforded
    simp only [hOuter'] at hAfforded'
    -- what stood between the brackets is in hand now
    cases b with
    | group => exact hLeft.closingGroup hHeld hHeld' hItems
    | index => exact hLeft.closingIndex hHeld hHeld' hItems
    | call =>
      refine hLeft.closingCall hHeld hHeld' (hWithin.leave hOuter).2 (hWithin'.leave hOuter').2
        hItems fun callee f hCallee hf => hBlind rfl f ?_
      have hTop : (m.values.drop m.pending).head? = some callee := hCallee
      rw [hTop]
      exact hf
    | array => exact hLeft.closingArray hHeld hHeld' hItems hAfforded hAfforded'

/-! ## Runs -/

/-- Looking a name up, or introducing it. -/
theorem Twin.intern (h : Twin r m n) (hm : m.Keeps rest) (hn : n.Keeps rest') (name : String)
    (hAfforded : Afforded (m.store.intern name).1) (hAfforded' : Afforded (n.store.intern name).1) :
    ∃ r' id id', m.store.intern name = (.ok id, (m.store.intern name).2) ∧
      n.store.intern name = (.ok id', (n.store.intern name).2) ∧
      Twin r' ({ m with store := (m.store.intern name).2 }.push (.writable id))
        ({ n with store := (n.store.intern name).2 }.push (.writable id')) := by
  obtain ⟨r', id, id', hOk, hOk', hSlot, hNext⟩ :=
    h.between.intern hm hn name hAfforded hAfforded'
  -- the slots of the name are matched now, and handles on them are alike
  exact ⟨r', id, id', Prod.ext hOk rfl, Prod.ext hOk' rfl,
    (h.advance hNext).push (.writable hSlot)⟩

/-- **Twins take the same step.** -/
theorem Twin.step {script : String} {i : Instruction} (h : Twin r m n) (hm : m.Keeps rest)
    (hn : n.Keeps rest') (hWithin : m.Within Function.Tame) (hWithin' : n.Within Function.Tame)
    (hBlind : ∀ f, m.callee? i = some f → f.Blind)
    (hAfforded : Afforded (m.step script i).1) (hAfforded' : Afforded (n.step script i).1) :
    Twins (m.step script i) (n.step script i) := by
  -- a number, a name or an operator
  rcases hKind : i.kind with numeral | _ | op
  · unfold Machine.step
    simp only [hKind]
    exact h.pushResult (agree_arithmeticResult _)
  -- a step that fails at its name fails for want of a slot only if the name does
  · have hName {m : Machine} (hStep : Afforded (m.step script i).1) :
        Afforded (m.store.intern (i.span.text script)).1 := by
      refine hStep.of_part fun e hEq => ?_
      unfold Machine.step
      simp only [hKind]
      rw [hEq]
    obtain ⟨r', id, id', hEq, hEq', hNext⟩ :=
      h.intern hm hn (i.span.text script) (hName hAfforded) (hName hAfforded')
    unfold Machine.step
    simp only [hKind]
    rw [hEq, hEq']
    exact hNext.twins
  · have hPerform (m : Machine) : m.step script i = m.perform op := by
      unfold Machine.step
      simp only [hKind]
    rw [hPerform, hPerform] at *
    by_cases hBinary : op.isBinary
    · rw [perform_of_isBinary hBinary, perform_of_isBinary hBinary]
      -- the operators for two are the plain assignment, the compound ones, and those that give a
      -- result
      split
      · exact h.assign hm hn
      · split
        · exact h.compound hm hn _
        · exact h.binary hm hn op
    · by_cases hPrefix : op.isPrefix
      · rw [perform_of_isPrefix hPrefix, perform_of_isPrefix hPrefix]
        -- the prefix operators are the spread and those that change a number
        split
        · exact h.spread hm hn
        · exact h.unary hm hn op
      · cases op with
        | opener b => exact (h.opening b).twins
        | closer b =>
          refine h.closing hm hn hWithin hWithin' b (fun hCall f hf => hBlind f ?_) hAfforded
            hAfforded'
          unfold callee?
          rw [hKind, hCall]
          simp only [hf]
        | comma => exact h.comma
        | semicolon => exact h.twins
        -- what is left is none of the others
        | _ => simp [Operator.isBinary, Operator.isPrefix, Operator.priority] at hBinary hPrefix

/-- All functions that a run of the instructions calls have a property. -/
def CallsOnly (P : Function → Prop) (script : String) : Machine → List Instruction → Prop
  | _, [] => True
  | m, i :: code => (∀ f, m.callee? i = some f → P f) ∧
    ((m.step script i).1 = .ok () → CallsOnly P script (m.step script i).2 code)

/-- Where all functions have a property that they pass on, no others are called. -/
theorem callsOnly_of_within {P Q : Function → Prop} (h : m.Within P) (hP : Function.Inherited P)
    (hQ : ∀ f, P f → Q f) (script : String) (code : List Instruction) :
    m.CallsOnly Q script code := by
  -- induction on the code: the property is passed on by every step
  induction code generalizing m with
  | nil => trivial
  | cons i code ih =>
    refine ⟨fun f hf => ?_, fun _ => ih (h.step hP script i)⟩
    unfold callee? at hf
    split at hf
    · split at hf
      · rename_i hCallee
        cases hf
        -- the function lies on the stack, so the machine holds it
        obtain ⟨obj, hObj, hPayload⟩ := Option.bind_eq_some_iff.1 hCallee
        have hHeld : obj ∈ m.held := by
          unfold held
          simp only [Multiset.mem_add, Multiset.mem_coe]
          exact .inl (.inl (.inl (List.mem_of_mem_drop (List.mem_of_mem_head? hObj))))
        exact hQ f (h.store.payload? (h.held obj hHeld) hPayload)
      · cases hf
    · cases hf

/-- A step that fails ends the run with its failure. -/
theorem afforded_step {script : String} {i : Instruction} {code : List Instruction}
    (h : Afforded (Machine.steps script m (i :: code)).1) : Afforded (m.step script i).1 := by
  intro e he
  have hEq : m.step script i = (.error e, (m.step script i).2) := Prod.ext he rfl
  rw [← Failure.orSpan_fault e i.span]
  refine h _ ?_
  rw [Machine.steps, hEq]

/-- Twins go through a sequence together. -/
theorem Twin.steps {script : String} {heights heights' : Heights} {code : List Instruction}
    (h : Twin r m n) (hm : m.Keeps rest) (hn : n.Keeps rest') (hWithin : m.Within Function.Tame)
    (hWithin' : n.Within Function.Tame) (hStep : m.InStep heights) (hStep' : n.InStep heights)
    (hSound : heights.Sound) (hPlay : heights.play code = .ok heights')
    (hBlind : m.CallsOnly Function.Blind script code)
    (hAfforded : Afforded (Machine.steps script m code).1)
    (hAfforded' : Afforded (Machine.steps script n code).1) :
    Twins (Machine.steps script m code) (Machine.steps script n code) := by
  -- induction on the code, with the machines, the matching and the heights left open
  induction code generalizing r m n heights with
  | nil => exact h.twins
  | cons i code ih =>
    simp only [Heights.play] at hPlay
    split at hPlay
    · cases hPlay
    · rename_i mid hMid
      obtain ⟨hNow, hLater⟩ := hBlind
      obtain ⟨hSame, r', hTwin⟩ := h.step hm hn hWithin hWithin' hNow (afforded_step hAfforded)
        (afforded_step hAfforded')
      -- the invariants of either side hold behind the step
      have hHeld := hm.step hWithin.avoidsZero (hStep.length_ne_one hMid) script
      have hHeld' := hn.step hWithin'.avoidsZero (hStep'.length_ne_one hMid) script
      have hFits := hWithin.step Function.inherited_tame script i
      have hFits' := hWithin'.step Function.inherited_tame script i
      have hAnswers := hStep.step hSound script hMid
      have hAnswers' := hStep'.step hSound script hMid
      unfold Machine.steps at hAfforded hAfforded' ⊢
      rcases hEq : m.step script i with ⟨answer, m₁⟩
      rcases hEq' : n.step script i with ⟨answer', n₁⟩
      rw [hEq] at hSame hTwin hHeld hFits hAnswers hLater hAfforded
      rw [hEq'] at hSame hTwin hHeld' hFits' hAnswers' hAfforded'
      dsimp only at hSame
      subst hSame
      cases answer with
      | ok _ =>
        exact ih hTwin hHeld hHeld' hFits hFits' hAnswers hAnswers' (hSound.step hMid) hPlay
          (hLater rfl) hAfforded hAfforded'
      -- the first failure ends both
      | error e => exact hTwin.twins

/-- After a failure everything is given up on both sides. -/
theorem Twin.abandon (h : Twin r m n) (hm : m.Keeps rest) (hn : n.Keeps rest') :
    r.Between m.abandon n.abandon := by
  obtain ⟨objs, hEq, hHeld⟩ := m.exists_abandon_eq
  obtain ⟨objs', hEq', hHeld'⟩ := n.exists_abandon_eq
  unfold Keeps at hm hn
  rw [← hHeld] at hm
  -- everything that either side holds is in one list, which is given up as a whole
  rw [← hHeld'] at hn
  rw [hEq, hEq']
  exact h.between.carry hm.carries_releaseAll hn.carries_releaseAll

/-- At the end both sides are left with results that are alike. -/
theorem Twin.finish {m' n' : Machine} (h : Twin r m n) (hm : m.Keeps rest) (hn : n.Keeps rest')
    (hEq : m.finish = (.ok obj, m')) (hEq' : n.finish = (.ok obj', n')) :
    r.Between m'.store n'.store ∧ obj.Alike r m'.store n'.store obj' := by
  obtain ⟨hValues, hOuter, hStore⟩ := finish_eq hEq
  obtain ⟨hValues', hOuter', hStore'⟩ := finish_eq hEq'
  -- the results are in hand while all that was moved aside is given up
  have hNext := h.between.carried (hm.atEnd hValues hOuter).carries_releaseAll
    (hn.atEnd hValues' hOuter').carries_releaseAll
  have hResult := h.related.values
  rw [hValues, hValues'] at hResult
  rw [hStore, hStore']
  exact ⟨hNext.between, hNext.alike obj (by simp) obj' (by simp) (List.forall₂_cons.1 hResult).1⟩

/-- A sequence that fails ends the whole run with its failure. -/
theorem afforded_steps {code : List Instruction} {script : String} {s : Store}
    (h : Afforded (Machine.run code script s).1) :
    Afforded (Machine.steps script { store := s } code).1 := by
  refine h.of_part fun e hEq => ?_
  unfold Machine.run
  rw [hEq]

end Machine

open Machine

/-- **Two runs of one program**, on stores between which a matching fits, give the same failure or
results that are alike, and a matching fits the stores that they leave. -/
theorem Matching.Between.run {r : Matching} {s t : Store} {rest rest' : Multiset Object}
    {code : List Instruction} {p : Program} {script : String} (h : r.Between s t)
    (hp : Program.ofPostfix code = .ok p) (hs : s.Keeps rest) (ht : t.Keeps rest')
    (hWithin : s.Within Function.Tame) (hWithin' : t.Within Function.Tame)
    (hBlind : Machine.CallsOnly Function.Blind script { store := s } p.code)
    (hAfforded : Afforded (p.run script s).1) (hAfforded' : Afforded (p.run script t).1) :
    ∃ r' : Matching, r'.Between (p.run script s).2 (p.run script t).2 ∧
      Agree (Object.Alike r' (p.run script s).2 (p.run script t).2) (p.run script s).1
        (p.run script t).1 := by
  obtain ⟨heights, hPlay, hHeight, hOuter, rfl⟩ := exists_play_of_ofPostfix hp
  obtain ⟨hSame, r', hTwin⟩ := (twin_start h).steps (keeps_start hs) (keeps_start ht)
    (within_start hWithin) (within_start hWithin') ⟨rfl, rfl, rfl⟩ ⟨rfl, rfl, rfl⟩
    Heights.sound_start hPlay hBlind (afforded_steps hAfforded) (afforded_steps hAfforded')
  -- the invariants of either run
  have hHeld := ((keeps_start hs).steps (within_start hWithin) ⟨rfl, rfl, rfl⟩ Heights.sound_start
    script hPlay).1
  have hHeld' := ((keeps_start ht).steps (within_start hWithin') ⟨rfl, rfl, rfl⟩ Heights.sound_start
    script hPlay).1
  have hFollows := (follows_start False s).steps (by simp) script hPlay
  have hFollows' := (follows_start False t).steps (by simp) script hPlay
  unfold Program.run Machine.run
  rcases hEq : steps script { store := s } code with ⟨answer, m⟩
  rcases hEq' : steps script { store := t } code with ⟨answer', n⟩
  rw [hEq] at hSame hTwin hHeld hFollows
  rw [hEq'] at hSame hTwin hHeld' hFollows'
  dsimp only at hSame
  subst hSame
  -- the answers are the same: a failure, or one value that is left on either stack
  cases answer with
  | error e => exact ⟨r', hTwin.abandon hHeld hHeld', .error e⟩
  | ok _ =>
    obtain ⟨obj, hOk⟩ := hFollows.inStep.finish hHeight hOuter
    obtain ⟨obj', hOk'⟩ := hFollows'.inStep.finish hHeight hOuter
    have hFinish : m.finish = (.ok obj, m.finish.2) := Prod.ext hOk rfl
    have hFinish' : n.finish = (.ok obj', n.finish.2) := Prod.ext hOk' rfl
    obtain ⟨hBetween, hResult⟩ := hTwin.finish hHeld hHeld' hFinish hFinish'
    dsimp only
    rw [hFinish, hFinish']
    exact ⟨r', hBetween, .ok hResult⟩

end Reckon
