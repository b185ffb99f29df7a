import Reckon.Proofs.Sweeping
import Reckon.Proofs.Tandem

/-!
# What may change in a store

Most of what an operation does to the store cannot be seen from names and arrays: counts change,
literals and slots are made, and what somebody had in hand is given up. What can be seen is of two
kinds. A slot that a name or an array has may be pointed somewhere else, and a name may come in.

A `Permit` says which slots and which names these may be, and `Store.Alters` that one store comes
from another within a permit.

## Results

* `Carries.alters`          — an operation that keeps all that is in use needs no permit.
* `Keeps.alters_bind`       — binding needs one for its slot, `Balanced.alters_intern` for its name.
* `Alters.snapshotLiteral`  — a literal shows what it showed if no slot that can be reached from it
  was permitted to change, whatever is shared and whatever lies inside itself.
-/

namespace Reckon

/-- What may change: the slots that may be pointed somewhere else, and the names that may come
in. -/
structure Permit where
  slots : SlotId → Prop
  names : String → Prop

namespace Permit

/-- What the first permit lets change, the second one does. -/
structure Le (P Q : Permit) : Prop where
  slots : ∀ id, P.slots id → Q.slots id
  names : ∀ name, P.names name → Q.names name

end Permit

namespace Store

variable {s t u : Store} {P Q : Permit} {loose : Multiset SlotId} {handles : Multiset LiteralId}
  {objs : Multiset Object}

/-- The second store comes from the first one within a permit. Names and arrays keep their slots,
and the slots point where they did, unless they are permitted to be pointed somewhere else. A slot
of a new name points at nothing then. -/
structure Alters (P : Permit) (s t : Store) : Prop where
  /-- Names and elements of arrays keep their slots. -/
  owns : ∀ id o, s.Owns id o → t.Owns id o
  /-- Literals hold what they held. -/
  holds : ∀ l payload, s.holds? l = some payload → t.holds? l = some payload
  /-- A slot that somebody has points where it did. -/
  target : ∀ id o, s.Owns id o → ¬ P.slots id → t.target? id = s.target? id
  /-- A name was there before, or it may come in and has an empty slot. -/
  named : ∀ name id, t.lookup name = some id → s.lookup name = some id ∨
    s.lookup name = none ∧ P.names name ∧ (¬ P.slots id → t.target? id = none)

theorem Alters.refl (P : Permit) (s : Store) : s.Alters P s :=
  ⟨fun _ _ h => h, fun _ _ h => h, fun _ _ _ _ => rfl, fun _ _ h => .inl h⟩

/-- What a permit allows, a wider permit allows, too. -/
theorem Alters.mono (h : s.Alters P t) (hLe : P.Le Q) : s.Alters Q t where
  owns := h.owns
  holds := h.holds
  target id o hOwns hNot := h.target id o hOwns fun hSlot => hNot (hLe.slots id hSlot)
  named name id hName := by
    rcases h.named name id hName with hOld | ⟨hNew, hPermitted, hEmpty⟩
    · exact .inl hOld
    · refine .inr ⟨hNew, hLe.names name hPermitted, fun hNot => hEmpty fun hSlot => ?_⟩
      exact hNot (hLe.slots id hSlot)

/-- One change after another, within the same permit. -/
theorem Alters.trans (hFirst : s.Alters P t) (hSecond : t.Alters P u) : s.Alters P u where
  owns id o hOwns := hSecond.owns id o (hFirst.owns id o hOwns)
  holds l payload h := hSecond.holds l payload (hFirst.holds l payload h)
  target id o hOwns hNot :=
    (hSecond.target id o (hFirst.owns id o hOwns) hNot).trans (hFirst.target id o hOwns hNot)
  named name id hName := by
    rcases hSecond.named name id hName with hMid | ⟨hNone, hPermitted, hEmpty⟩
    · rcases hFirst.named name id hMid with hOld | ⟨hNew, hPermitted, hEmpty⟩
      · exact .inl hOld
      · -- the name has come in before, and its slot is its own since then
        refine .inr ⟨hNew, hPermitted, fun hNot => ?_⟩
        rw [hSecond.target id (.symbol name) hMid hNot]
        exact hEmpty hNot
    · refine .inr ⟨?_, hPermitted, hEmpty⟩
      -- a name that was there before would be there still
      refine Option.eq_none_iff_forall_ne_some.2 fun k hOld => ?_
      have hKept : t.lookup name = some k := hFirst.owns k (.symbol name) hOld
      rw [hNone] at hKept
      cases hKept

/-- Where everything in use stays, nothing has to be permitted. -/
theorem Carries.alters (h : s.Carries t loose) (P : Permit) : s.Alters P t where
  owns _ _ hOwns := h.owns hOwns
  holds := h.holds
  target id o hOwns _ := h.target id (.inl ⟨o, hOwns⟩)
  named name id hName := by
    rw [h.lookup] at hName
    exact .inl hName

/-! ## The two kinds of change -/

/-- A slot for which there is a permit is pointed somewhere else. -/
theorem alters_setTarget (s : Store) {id : SlotId} (hId : P.slots id)
    (target : Option LiteralId) : s.Alters P (s.setTarget id target) where
  owns _ _ h := h
  holds _ _ h := h
  target k o _ hNot := by
    -- a slot for which there is no permit is another one
    have hOther : id ≠ k := fun hEq => hNot (hEq ▸ hId)
    refine target?_of_slot? ?_
    unfold slot?
    show ((s.slots.setIfInBounds id (some ⟨target⟩))[k]?).join = _
    rw [Array.getElem?_setIfInBounds_ne hOther]
  named _ _ h := .inl h

/-- A handle owns no slot, so giving it up is a matter of counts only. -/
theorem carries_release_handle (s : Store) (target : Option LiteralId) (loose : Multiset SlotId) :
    s.Carries (s.release (handleOf target)) loose := by
  rcases target with _ | l
  · exact .refl s loose
  · exact carries_forgo s l loose

/-- A slot that is gone cannot be bound, and what was to go into it is given up. -/
theorem bind_of_gone {id : SlotId} (hGone : s.slot? id = none) (obj : Object) :
    s.bind id obj = (.error { fault := RuntimeFault.assignLeftValue },
      (s.take obj).2.release (handleOf (s.take obj).1)) := by
  -- taking the object makes literals at most, so the slot does not come back
  have hStill : (s.take obj).2.slot? id = none := by
    rw [slot?_of_eq (slots_take s obj).1]
    exact hGone
  have hMade : s.materialize obj (s.request obj false) =
      (.ok (handleOf (s.take obj).1), (s.take obj).2) := by
    rw [materialize_request]
    rcases (s.take obj).1 with _ | l <;> rfl
  unfold Store.bind
  simp only [hMade, hStill]
  rcases (s.take obj).1 with _ | l <;> rfl

/-- Binding points a slot somewhere else, if it is there, and changes nothing else. -/
theorem Keeps.alters_bind {obj : Object} {id : SlotId} (hs : s.Keeps (obj ::ₘ objs))
    (hId : P.slots id) : s.Alters P (s.bind id obj).2 := by
  have hTaken := hs.carries_take.alters P
  by_cases hLive : (s.slot? id).isSome
  · obtain ⟨slot, hSlot⟩ := Option.isSome_iff_exists.1 hLive
    rw [bind_eq hSlot]
    have hSet := (s.take obj).2.alters_setTarget hId (s.take obj).1
    -- what the slot pointed at before is given up, and only its count is changed by that
    have hGivenUp :=
      carries_release_handle ((s.take obj).2.setTarget id (s.take obj).1) slot.target 0
    exact (hTaken.trans hSet).trans (hGivenUp.alters P)
  · have hNone : s.slot? id = none := by simpa using hLive
    rw [bind_of_gone hNone]
    exact hTaken.trans ((carries_release_handle _ _ 0).alters P)

/-- Interning finds a name, lacks a slot, or brings a name in. -/
theorem Balanced.intern_cases (hs : s.Balanced handles loose) (name : String) :
    (∃ id, s.lookup name = some id ∧ s.intern name = (.ok id, s)) ∨
    (∃ e, s.intern name = (.error e, s)) ∨
    ∃ id u, s.lookup name = none ∧ s.intern name = (.ok id, u) ∧
      Matching.Introduces s name loose id u := by
  rcases hName : s.lookup name with _ | id
  · right
    rcases hAllocate : s.allocate with ⟨e | id, u⟩
    · -- there is no slot left for the name
      left
      obtain rfl := allocate_error hAllocate
      refine ⟨e, ?_⟩
      unfold Store.intern
      simp only [hName, hAllocate]
    · right
      have hMade : s.intern name =
          (.ok id, { u with symbols := ⟨s.symbols.entries ++ [(name, id)]⟩ }) := by
        have hNone : s.symbols.find? name = none := hName
        unfold Store.intern
        simp only [hName, hAllocate, Symbols.insert, (hs.carries_allocate hAllocate).symbols, hNone]
      have hAfforded : Afforded (s.intern name).1 := by
        rw [hMade]
        intro e he
        cases he
      obtain ⟨k, hOk, hIntroduces⟩ := Matching.exists_introduces hs hName hAfforded
      exact ⟨k, (s.intern name).2, rfl, Prod.ext hOk rfl, hIntroduces⟩
  · left
    refine ⟨id, rfl, ?_⟩
    unfold Store.intern
    simp only [hName]

/-- A name for which there is a permit comes in. -/
theorem alters_of_introduces {name : String} {id : SlotId} (hNew : s.lookup name = none)
    (h : Matching.Introduces s name loose id t) (hName : P.names name) : s.Alters P t where
  owns := h.upholds.owns
  holds := h.upholds.holds
  target k o hOwns _ := h.upholds.target k o hOwns
  named other k hOther := by
    rw [h.lookup] at hOther
    split at hOther
    · rename_i hEq
      cases hOther
      rw [hEq]
      exact .inr ⟨hNew, hName, fun _ => h.empty⟩
    · exact .inl hOther

/-- Interning a name for which there is a permit changes no more than that. -/
theorem Balanced.alters_intern {name : String} (hs : s.Balanced handles loose)
    (hName : P.names name) : s.Alters P (s.intern name).2 := by
  rcases hs.intern_cases name with ⟨id, -, hEq⟩ | ⟨e, hEq⟩ | ⟨id, u, hNew, hEq, hIntroduces⟩
  · rw [hEq]
    exact .refl P s
  · rw [hEq]
    exact .refl P s
  · rw [hEq]
    exact alters_of_introduces hNew hIntroduces hName

/-- The slot that interning gives is that of the name. -/
theorem Balanced.lookup_of_intern {name : String} {id : SlotId} (hs : s.Balanced handles loose)
    (hOk : (s.intern name).1 = .ok id) : (s.intern name).2.lookup name = some id := by
  rcases hs.intern_cases name with ⟨k, hFound, hEq⟩ | ⟨e, hEq⟩ | ⟨k, u, -, hEq, hIntroduces⟩
  · rw [hEq] at hOk ⊢
    cases hOk
    exact hFound
  · rw [hEq] at hOk
    cases hOk
  · rw [hEq] at hOk ⊢
    cases hOk
    rw [hIntroduces.lookup, if_pos rfl]

/-- The elements of an array that a handle on a slot leads to belong to it. -/
theorem exists_owner_of_array? {obj : Object} {slots : List SlotId} {id : SlotId}
    (hArray : s.array? obj = some (slots, true)) (hId : id ∈ slots) : ∃ o, s.Owns id o := by
  unfold array? at hArray
  split at hArray
  · rename_i found hPayload
    simp only [Option.some.injEq, Prod.mk.injEq] at hArray
    obtain ⟨rfl, hWritable⟩ := hArray
    -- only a handle on a slot lets its elements be written to, and its literal is in the store
    match obj, hWritable with
    | .writable k, _ =>
      obtain ⟨lit, hLit, hHolds⟩ := Option.map_eq_some_iff.1 hPayload
      obtain ⟨l, -, hl⟩ := Option.bind_eq_some_iff.1 hLit
      obtain ⟨position, hPosition⟩ := List.mem_iff_getElem?.1 hId
      refine ⟨.element l position, lit, hl, ?_⟩
      rw [hHolds]
      exact hPosition
  · cases hArray

/-- A handle on an element names its slot if it names one at all. -/
theorem element_eq_writable {id k : SlotId} {writable : Bool}
    (h : (s.element id writable).1 = .writable k) : writable = true ∧ k = id := by
  unfold Store.element at h
  split at h
  · rename_i hWritable
    cases h
    exact ⟨hWritable, rfl⟩
  · split at h <;> cases h

/-! ## What shows -/

/-- A slot that can be reached from a literal: of an element of its array, or of an array further
on. -/
def Leads (s : Store) (l : LiteralId) (id : SlotId) : Prop :=
  ∃ k payload, Relation.ReflTransGen s.PointsTo l k ∧ s.holds? k = some payload ∧
    id ∈ payload.slots

/-- A slot that can be reached from a literal is an element of some literal. -/
theorem Leads.exists_owner {l : LiteralId} {id : SlotId} (h : s.Leads l id) :
    ∃ k position, s.Owns id (.element k position) := by
  obtain ⟨k, payload, -, hHolds, hId⟩ := h
  obtain ⟨position, hPosition⟩ := List.mem_iff_getElem?.1 hId
  exact ⟨k, position, owns_element_iff.2 ⟨payload, hHolds, hPosition⟩⟩

/-- **A change shows only where it can be reached.** A literal shows as it did if no slot that can
be reached from it was permitted to be pointed somewhere else. -/
theorem Alters.snapshotLiteral (h : s.Alters P t) (hs : s.Balanced handles loose)
    (path : List LiteralId) {l : LiteralId} {payload : Payload} (hHolds : s.holds? l = some payload)
    (hFrame : ∀ id, s.Leads l id → ¬ P.slots id) :
    t.snapshotLiteral path l = s.snapshotLiteral path l := by
  by_cases hPath : path.contains l = true
  · rw [snapshotLiteral_of_visited hPath, snapshotLiteral_of_visited hPath]
  · have hUnvisited : path.contains l = false := by simpa using hPath
    have hSame := h.holds l payload hHolds
    obtain ⟨lit, hl, hLit⟩ := Option.map_eq_some_iff.1 hHolds
    unfold holds? at hSame hHolds
    rw [snapshotLiteral_of_unvisited hUnvisited, snapshotLiteral_of_unvisited hUnvisited, hSame,
      hHolds]
    rcases payload with n | f | slots
    · rfl
    · rfl
    · -- the path grows, and there are only so many literals to pass
      have hFewer := unvisited_cons_lt hl hUnvisited
      refine congrArg Value.array
        (snapshotSlots_of_targets (fun id hId => ?_) fun id hId k hTarget => ?_)
      · -- an element of this array points where it did
        have hLeads : s.Leads l id := ⟨l, .array slots, .refl, hHolds, hId⟩
        obtain ⟨k, position, hOwns⟩ := hLeads.exists_owner
        exact h.target id _ hOwns (hFrame id hLeads)
      · -- what can be reached from there can be reached from here
        obtain ⟨litk, hk⟩ := hs.live_of_target? hTarget
        have hPoints : s.PointsTo l k := ⟨lit, hl, id, by rw [hLit]; exact hId, hTarget⟩
        refine h.snapshotLiteral hs (l :: path) (holds?_of_literal? hk) fun j hj => hFrame j ?_
        obtain ⟨i, found, hReaches, hFound, hj⟩ := hj
        exact ⟨i, found, .head hPoints hReaches, hFound, hj⟩
termination_by s.unvisited path

/-- What a slot shows that points where it did. -/
theorem Alters.snapshot_writable (h : s.Alters P t) (hs : s.Balanced handles loose) {id : SlotId}
    (hTarget : t.target? id = s.target? id)
    (hFrame : ∀ l, s.target? id = some l → ∀ k, s.Leads l k → ¬ P.slots k) :
    t.snapshot (.writable id) = s.snapshot (.writable id) := by
  simp only [snapshot, hTarget]
  rcases hPoints : s.target? id with _ | l
  · rfl
  · obtain ⟨lit, hl⟩ := hs.live_of_target? hPoints
    exact h.snapshotLiteral hs [] (holds?_of_literal? hl) (hFrame l hPoints)

end Store

end Reckon
