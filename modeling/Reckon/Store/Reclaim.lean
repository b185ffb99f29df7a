import Reckon.Store

/-!
# Reclaiming literals

`Store.sweep` empties the queue of literals whose count fell to zero. A literal that somebody holds
on to again is passed over; any other is reclaimed, and the slots it owned are taken back, which may
queue more literals. Each round either reclaims a literal or shortens the queue, so there is a last
one. `Store.teardown` gives everything up, arrays that contain themselves included.
-/

namespace Reckon

namespace Store

/-! ## Taking slots back keeps every literal -/

/-- A hold is given up without reclaiming the literal. -/
theorem liveLiterals_forgo (s : Store) (l : LiteralId) :
    (s.forgo l).liveLiterals = s.liveLiterals := by
  unfold forgo
  split
  -- an entry is written where one was before
  · rename_i lit h
    obtain ⟨hl, heq⟩ := literal?_eq_some_iff.1 h
    have hpos : 0 < s.literals.countP Option.isSome :=
      Array.countP_pos_iff.2 ⟨_, Array.getElem_mem hl, by simp [heq]⟩
    simp only [liveLiterals, Array.setIfInBounds, hl, dif_pos, Array.countP_set, heq,
      Option.isSome_some, if_true]
    exact Nat.sub_add_cancel hpos
  · rfl

/-- A slot is taken back, and what it points at loses a hold and no more. -/
theorem liveLiterals_freeSlot (s : Store) (id : SlotId) :
    (s.freeSlot id).liveLiterals = s.liveLiterals := by
  unfold freeSlot
  split
  · rfl
  · rename_i slot _
    cases slot.target with
    | none => rfl
    | some l => exact liveLiterals_forgo _ l

/-- Any number of slots is taken back the same way. -/
theorem liveLiterals_freeSlots (s : Store) (ids : List SlotId) :
    (s.freeSlots ids).liveLiterals = s.liveLiterals := by
  unfold freeSlots
  induction ids generalizing s with
  | nil => rfl
  | cons id ids ih => rw [List.foldl_cons, ih, liveLiterals_freeSlot]

/-! ## The sweep -/

/-- Takes a literal out of the store. What it owned is still to be taken back. -/
def vacate (s : Store) (l : LiteralId) : Store :=
  { s with literals := s.literals.setIfInBounds l none, vacant := l :: s.vacant }

/-- One literal less is left. -/
theorem liveLiterals_vacate {s : Store} {l : LiteralId} {lit : Literal}
    (h : s.literal? l = some lit) : (s.vacate l).liveLiterals + 1 = s.liveLiterals := by
  obtain ⟨hl, heq⟩ := literal?_eq_some_iff.1 h
  have hpos : 0 < s.literals.countP Option.isSome :=
    Array.countP_pos_iff.2 ⟨_, Array.getElem_mem hl, by simp [heq]⟩
  simp only [liveLiterals, vacate, Array.setIfInBounds, hl, dif_pos, Array.countP_set, heq,
    Option.isSome_some, if_true, Option.isSome_none, Bool.false_eq_true, if_false]
  omega

/-- Goes through the queue, with so many literals reclaimed already. -/
def sweepOnto (s : Store) (reclaimed : Nat) : Nat × Store :=
  match _hq : s.queue with
  | [] => (reclaimed, s)
  | l :: queue =>
    let s' := { s with queue }
    match _hl : s'.literal? l with
    | some ⟨payload, 0⟩ => ((s'.vacate l).freeSlots payload.slots).sweepOnto (reclaimed + 1)
    | _ => s'.sweepOnto reclaimed
termination_by (s.liveLiterals, s.queue.length)
decreasing_by
  · refine Prod.Lex.left _ _ ?_
    rw [liveLiterals_freeSlots]
    exact Nat.lt_of_succ_le (Nat.le_of_eq (liveLiterals_vacate _hl))
  · rw [_hq]
    exact Prod.Lex.right _ (by simp)

/-- An empty queue ends the round. -/
theorem sweepOnto_of_nil {s : Store} (hQueue : s.queue = []) (reclaimed : Nat) :
    s.sweepOnto reclaimed = (reclaimed, s) := by
  unfold Store.sweepOnto
  split
  · rfl
  · rename_i hCons
    rw [hQueue] at hCons
    cases hCons

/-- A literal that nobody holds on to is reclaimed, and what it owned is taken back. -/
theorem sweepOnto_of_unheld {s : Store} {l : LiteralId} {queue : List LiteralId}
    {payload : Payload} (hQueue : s.queue = l :: queue) (hl : s.literal? l = some ⟨payload, 0⟩)
    (reclaimed : Nat) :
    s.sweepOnto reclaimed =
      ((Store.vacate { s with queue } l).freeSlots payload.slots).sweepOnto (reclaimed + 1) := by
  rw [Store.sweepOnto]
  split
  · rename_i hNil
    rw [hQueue] at hNil
    cases hNil
  · rename_i l' queue' hCons
    rw [hQueue] at hCons
    cases hCons
    dsimp only
    split
    · rename_i payload' hl'
      have hSame : s.literal? l = some ⟨payload', 0⟩ := hl'
      rw [hl] at hSame
      cases hSame
      rfl
    · rename_i hOther
      exact absurd hl (hOther payload)

/-- A literal that somebody holds on to again is passed over. -/
theorem sweepOnto_of_held {s : Store} {l : LiteralId} {queue : List LiteralId}
    (hQueue : s.queue = l :: queue) (hl : ∀ payload, s.literal? l ≠ some ⟨payload, 0⟩)
    (reclaimed : Nat) : s.sweepOnto reclaimed = Store.sweepOnto { s with queue } reclaimed := by
  rw [Store.sweepOnto]
  split
  · rename_i hNil
    rw [hQueue] at hNil
    cases hNil
  · rename_i l' queue' hCons
    rw [hQueue] at hCons
    cases hCons
    dsimp only
    split
    · rename_i payload' hl'
      exact absurd hl' (hl payload')
    · rfl

/-- Reclaims the queued literals that nobody holds on to, and counts them. -/
def sweep (s : Store) : Nat × Store := s.sweepOnto 0

/-- Gives up every name and every literal, and counts the literals. What is left after the sweep are
arrays that contain themselves. -/
def teardown (s : Store) : Nat × Store :=
  let nameless : Store := { s with symbols := {} }
  let r := (nameless.freeSlots (s.symbols.entries.map (·.2))).sweep
  (r.1 + r.2.liveLiterals, { empty s.entropy with overdrawn := r.2.overdrawn })

end Store

end Reckon
