import Reckon.Machine
import Mathlib.Tactic

/-!
# What the machine holds

Whatever is on the stack, was moved aside or is staged is held by the machine, which has to give it
up or hand it on in the end. `Machine.held` collects all of it without any order. The operations on
stacks and levels only move objects around: each has a lemma that says what it adds and what it
hands over.
-/

namespace Reckon

/-- What is staged in a level. -/
def Frame.waiting (f : Frame) : List Object := f.staged.flatMap (·.elements)

namespace Machine

/-- All objects that the machine holds. -/
def held (m : Machine) : Multiset Object :=
  m.values + m.moved + m.frame.waiting + m.outer.flatMap Frame.waiting

theorem held_start (s : Store) : held { store := s } = 0 := by
  simp [held, Frame.waiting]

/-- What is given up after a failure is all that the machine holds. -/
theorem exists_abandon_eq (m : Machine) :
    ∃ objs : List Object,
      m.abandon = m.store.releaseAll objs ∧ (objs : Multiset Object) = m.held := by
  -- the levels are given up from the outermost one on, and without order that is all of them
  refine ⟨_, rfl, ?_⟩
  have hFrames : (m.frames.flatMap Frame.waiting : Multiset Object) =
      m.frame.waiting + m.outer.flatMap Frame.waiting := by
    have hPerm : m.frames.Perm (m.frame :: m.outer) :=
      (List.perm_append_comm.trans ((List.reverse_perm m.outer).append_left [m.frame]))
    rw [Multiset.coe_eq_coe.2 (hPerm.flatMap_right Frame.waiting), List.flatMap_cons,
      ← Multiset.coe_add]
  show ((m.values.reverse ++ m.moved.reverse ++ m.frames.flatMap Frame.waiting : List Object) :
    Multiset Object) = m.held
  rw [← Multiset.coe_add, ← Multiset.coe_add, Multiset.coe_reverse, Multiset.coe_reverse, hFrames,
    held, add_assoc (m.values + m.moved : Multiset Object)]

/-! ## The stack -/

@[simp] theorem held_push (m : Machine) (obj : Object) : (m.push obj).held = obj ::ₘ m.held := by
  simp only [held, push, ← Multiset.cons_coe, Multiset.cons_add]

/-- What is popped was held. -/
theorem held_pop {m : Machine} {obj : Object} {values : List Object}
    (h : m.values = obj :: values) : m.held = obj ::ₘ { m with values }.held := by
  simp only [held, h, ← Multiset.cons_coe, Multiset.cons_add]

/-! ## Levels -/

/-- A new level has nothing staged, and the one around it keeps what it has. -/
theorem held_opening (m : Machine) (b : Bracket) : (m.opening b).held = m.held := by
  simp only [held, opening, List.flatMap_cons, ← Multiset.coe_add]
  simp [Frame.waiting]

/-- Counting down keeps every element: it is ready now or stays staged. -/
theorem countDown_eq (staged : List Staged) :
    ((countDown staged).1 + (countDown staged).2.flatMap (·.elements) : Multiset Object) =
      staged.flatMap (·.elements) := by
  -- each entry is ready or stays staged, and either way its elements are counted once
  induction staged with
  | nil => rfl
  | cons entry staged ih =>
    by_cases hReady : entry.remaining ≤ 1
    · have hNot : ¬ 1 < entry.remaining := by omega
      simp only [countDown, List.filter_cons, hReady, hNot, decide_true, decide_false, if_true,
        Bool.false_eq_true, if_false, List.flatMap_cons, ← Multiset.coe_add] at ih ⊢
      rw [add_assoc, ih]
    · have hLate : 1 < entry.remaining := by omega
      simp only [countDown, List.filter_cons, hReady, hLate, decide_true, decide_false, if_true,
        Bool.false_eq_true, if_false, List.map_cons, List.flatMap_cons, ← Multiset.coe_add] at ih ⊢
      rw [add_left_comm, ih]

/-- A comma moves the oldest value and what waited for it aside. Both were held before. -/
theorem held_comma (m : Machine) : m.comma.2.held = m.held := by
  unfold comma
  cases hLevel : (m.values.take m.pending).reverse with
  | nil => rfl
  | cons oldest newer =>
    -- of the values of the level the oldest one is the last in the list
    have hTaken : m.values.take m.pending = newer.reverse ++ [oldest] := by
      rw [← List.reverse_reverse (m.values.take m.pending), hLevel, List.reverse_cons]
    have hValues : m.values = newer.reverse ++ [oldest] ++ m.values.drop m.pending := by
      rw [← hTaken, List.take_append_drop]
    have hStaged := countDown_eq m.frame.staged
    simp only [held, Frame.waiting]
    rw [← hStaged]
    conv_rhs => rw [hValues]
    simp only [← Multiset.coe_add, ← Multiset.cons_coe, Multiset.coe_reverse, Multiset.coe_nil,
      ← Multiset.singleton_add, add_zero]
    abel

/-- What is set aside is held from now on, moved aside or staged. -/
theorem held_setAside (m : Machine) (objs : List Object) :
    (m.setAside objs).held = objs + m.held := by
  unfold setAside
  dsimp only
  -- the three cases of the definition: nothing is pending, there are no elements, or they are
  -- staged
  split
  · simp only [held, Frame.waiting, ← Multiset.coe_add]
    abel
  · split
    · rename_i hEmpty
      rw [List.isEmpty_iff.1 hEmpty]
      simp [held, Frame.waiting]
    · simp only [held, Frame.waiting, List.flatMap_append, List.flatMap_cons, List.flatMap_nil,
        List.append_nil, ← Multiset.coe_add, Multiset.coe_reverse]
      abel

/-- What a level hands over when it ends, and what is left. -/
theorem held_leave {m : Machine} {around : Frame} {outer : List Frame}
    (h : m.outer = around :: outer) :
    ((m.leave around outer).1 + (m.leave around outer).2.held : Multiset Object) = m.held := by
  -- both stacks are cut in two, and the level hands the upper parts over
  have hSplit (n : Nat) (objs : List Object) :
      (objs.take n + objs.drop n : Multiset Object) = objs := by
    rw [Multiset.coe_add, List.take_append_drop]
  have hValues := hSplit m.pending m.values
  have hAside := hSplit m.frame.accepted (m.frame.waiting.reverse ++ m.moved)
  rw [← Multiset.coe_add, Multiset.coe_reverse] at hAside
  simp only [leave, held, h, List.flatMap_cons, ← Multiset.coe_add, Multiset.coe_reverse]
  show (m.frame.waiting.reverse ++ m.moved).take m.frame.accepted + m.values.take m.pending +
    (m.values.drop m.pending + (m.frame.waiting.reverse ++ m.moved).drop m.frame.accepted +
      around.waiting + outer.flatMap Frame.waiting : Multiset Object) = _
  calc _ = (m.values.take m.pending + m.values.drop m.pending : Multiset Object) +
        ((m.frame.waiting.reverse ++ m.moved).take m.frame.accepted +
          (m.frame.waiting.reverse ++ m.moved).drop m.frame.accepted) +
        (around.waiting + outer.flatMap Frame.waiting) := by abel
    _ = m.values + (m.frame.waiting + m.moved) +
        (around.waiting + outer.flatMap Frame.waiting) := by rw [hValues, hAside]
    _ = _ := by abel

end Machine

end Reckon
