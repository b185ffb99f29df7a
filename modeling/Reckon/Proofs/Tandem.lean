import Reckon.Proofs.Matching

/-!
# Two stores in tandem

An operation on objects that are alike, in stores between which a matching fits, gives the same
answer on both sides, and a larger matching fits afterwards (`Matching.Advance`): new literals
stand for each other, and so do the slots of new names and of the elements of new arrays. The one
exception is that one of the stores may have no slot left when the other has.
-/

namespace Reckon

open Matching

/-- No slot was missing. -/
def Afforded {α : Type} (answer : Except Failure α) : Prop :=
  ∀ e, answer = .error e → e.fault ≠ .runtime .noAvailableId

/-- A part whose failure is that of the whole lacks no slot if the whole does not. -/
theorem Afforded.of_part {α β γ : Type} {answer : Except Failure α} {part : Except Failure β × γ}
    (h : Afforded answer) (hFails : ∀ e, part = (.error e, part.2) → answer = .error e) :
    Afforded part.1 :=
  fun e he => h e (hFails e (Prod.ext he rfl))

/-- Slots are given out as long as there are any. -/
theorem Store.exists_allocate {s : Store} (h : Afforded s.allocate.1) :
    ∃ id t, s.allocate = (.ok id, t) := by
  unfold Store.allocate at h ⊢
  split
  · exact ⟨_, _, rfl⟩
  -- no slot is free, and no new one can be made either
  · split
    · rename_i hFree hFull
      simp only [hFree, hFull, if_true] at h
      exact absurd rfl (h _ rfl)
    · exact ⟨_, _, rfl⟩

/-- An object that finds a slot had one to be found. -/
theorem Store.exists_allocate_of_materialize {s : Store} {obj : Object}
    (h : Afforded (s.materialize obj (s.request obj true)).1) :
    ∃ id t, (s.take obj).2.allocate = (.ok id, t) := by
  refine Store.exists_allocate (h.of_part fun e hEq => ?_)
  rw [Store.materialize_error_eq hEq]

namespace Matching

variable {r r' r'' : Matching} {s s' s'' t t' t'' : Store} {obj obj' : Object}

/-! ## Making things -/

/-- Two relations that are unique on either side are so together, if they have nothing in common. -/
theorem biUnique_or {α β : Type} {R R' : α → β → Prop} (hR : Relator.BiUnique R)
    (hR' : Relator.BiUnique R') (hLeft : ∀ a b c, R a b → ¬ R' a c)
    (hRight : ∀ a b c, R a c → ¬ R' b c) : Relator.BiUnique fun a b => R a b ∨ R' a b := by
  refine ⟨fun a b c hac hbc => ?_, fun a b c hab hac => ?_⟩
  -- the mixed cases are those that the relations must not have in common
  · rcases hac with hac | hac <;> rcases hbc with hbc | hbc
    · exact hR.1 hac hbc
    · exact absurd hbc (hRight a b c hac)
    · exact absurd hac (hRight b a c hbc)
    · exact hR'.1 hac hbc
  · rcases hab with hab | hab <;> rcases hac with hac | hac
    · exact hR.2 hab hac
    · exact absurd hac (hLeft a b c hab)
    · exact absurd hab (hLeft a c b hac)
    · exact hR'.2 hab hac

/-- Pairing two lists without repetitions is unique on either side. -/
theorem biUnique_zip {α β : Type} {xs : List α} {ys : List β} (hxs : xs.Nodup) (hys : ys.Nodup) :
    Relator.BiUnique fun a b => (a, b) ∈ xs.zip ys := by
  -- a place in the lists determines both items, and either item determines its place
  refine ⟨fun a b c hac hbc => ?_, fun a b c hab hac => ?_⟩
  · obtain ⟨i, hi⟩ := List.mem_iff_getElem?.1 hac
    obtain ⟨j, hj⟩ := List.mem_iff_getElem?.1 hbc
    obtain ⟨ha, hc⟩ := List.getElem?_zip_eq_some.1 hi
    obtain ⟨hb, hc'⟩ := List.getElem?_zip_eq_some.1 hj
    have hSame : i = j := by
      obtain ⟨hSize, -⟩ := List.getElem?_eq_some_iff.1 hc
      exact (List.getElem?_inj hSize hys).1 (hc.trans hc'.symm)
    rw [hSame] at ha
    exact Option.some.inj (ha.symm.trans hb)
  · obtain ⟨i, hi⟩ := List.mem_iff_getElem?.1 hab
    obtain ⟨j, hj⟩ := List.mem_iff_getElem?.1 hac
    obtain ⟨ha, hb⟩ := List.getElem?_zip_eq_some.1 hi
    obtain ⟨ha', hc⟩ := List.getElem?_zip_eq_some.1 hj
    have hSame : i = j := by
      obtain ⟨hSize, -⟩ := List.getElem?_eq_some_iff.1 ha
      exact (List.getElem?_inj hSize hxs).1 (ha.trans ha'.symm)
    rw [hSame] at hb
    exact Option.some.inj (hb.symm.trans hc)

/-- The matching with some more pairs of slots and of literals. -/
def adding (r : Matching) (slots : List (SlotId × SlotId))
    (literals : List (LiteralId × LiteralId)) : Matching where
  slots id id' := r.slots id id' ∨ (id, id') ∈ slots
  literals l l' := r.literals l l' ∨ (l, l') ∈ literals

theorem le_adding (r : Matching) (slots : List (SlotId × SlotId))
    (literals : List (LiteralId × LiteralId)) : r ≤ r.adding slots literals :=
  ⟨fun _ _ h => .inl h, fun _ _ h => .inl h⟩

/-- A matching still fits with more pairs, when they were matched with nothing before and what they
come with is alike. -/
theorem Between.adding {slots : List (SlotId × SlotId)} {literals : List (LiteralId × LiteralId)}
    (h : r.Between s t) (hs : s.Upholds s') (ht : t.Upholds t')
    (hSlots : Relator.BiUnique fun id id' => (id, id') ∈ slots)
    (hLiterals : Relator.BiUnique fun l l' => (l, l') ∈ literals)
    (hUnowned : ∀ q ∈ slots, (∀ o, ¬ s.Owns q.1 o) ∧ ∀ o, ¬ t.Owns q.2 o)
    (hAbsent : ∀ q ∈ literals, s.holds? q.1 = none ∧ t.holds? q.2 = none)
    (hOwned : ∀ q ∈ slots, (∃ o, s'.Owns q.1 o) ∧ ∃ o, t'.Owns q.2 o)
    (hTarget : ∀ q ∈ slots, r.SameTarget s' t' q.1 q.2)
    (hHolds : ∀ q ∈ literals, ∃ payload payload', s'.holds? q.1 = some payload ∧
      t'.holds? q.2 = some payload' ∧ payload.Alike (r.adding slots literals).slots payload')
    (hNames : ∀ name, Option.Rel (r.adding slots literals).slots (s'.lookup name)
      (t'.lookup name)) : (r.adding slots literals).Between s' t' where
  slotsUnique := by
    -- what is new had no owner, and what was matched had one
    refine biUnique_or h.slotsUnique hSlots (fun id id' k hSlot hIn => ?_)
      fun id k id' hSlot hIn => ?_
    · obtain ⟨⟨o, ho⟩, -⟩ := h.owned id id' hSlot
      exact (hUnowned _ hIn).1 o ho
    · obtain ⟨-, ⟨o, ho⟩⟩ := h.owned id id' hSlot
      exact (hUnowned _ hIn).2 o ho
  literalsUnique := by
    -- what is new held nothing before, and what was matched held something
    refine biUnique_or h.literalsUnique hLiterals (fun l l' k hl hIn => ?_) fun l k l' hl hIn => ?_
    · obtain ⟨p, -, hp, -⟩ := h.holds l l' hl
      rw [(hAbsent _ hIn).1] at hp
      cases hp
    · obtain ⟨-, p', -, hp', -⟩ := h.holds l l' hl
      rw [(hAbsent _ hIn).2] at hp'
      cases hp'
  owned id id' hSlot := by
    rcases hSlot with hOld | hIn
    · obtain ⟨⟨o, ho⟩, ⟨o', ho'⟩⟩ := h.owned id id' hOld
      exact ⟨⟨o, hs.owns id o ho⟩, ⟨o', ht.owns id' o' ho'⟩⟩
    · exact hOwned _ hIn
  target id id' hSlot := by
    rcases hSlot with hOld | hIn
    · obtain ⟨⟨o, ho⟩, ⟨o', ho'⟩⟩ := h.owned id id' hOld
      exact (h.target id id' hOld).mono (le_adding _ _ _) (hs.target id o ho) (ht.target id' o' ho')
    · exact (hTarget _ hIn).mono (le_adding _ _ _) rfl rfl
  holds l l' hl := by
    rcases hl with hOld | hIn
    · obtain ⟨p, p', hp, hp', hAlike⟩ := h.holds l l' hOld
      exact ⟨p, p', hs.holds l p hp, ht.holds l' p' hp', hAlike.mono fun _ _ hSlot => .inl hSlot⟩
    · exact hHolds _ hIn
  names := hNames

theorem biUnique_singleton {α β : Type} (a : α) (b : β) :
    Relator.BiUnique fun x y => (x, y) ∈ [(a, b)] :=
  biUnique_zip (List.nodup_singleton a) (List.nodup_singleton b)

/-- New literals with the same in them stand for each other, and so do the slots that they own. -/
theorem Between.addLiteral {p p' : Payload} {handles handles' : Multiset LiteralId}
    {loose loose' : Multiset SlotId} (h : r.Between s t)
    (hs : s.Balanced handles (p.slots + loose)) (ht : t.Balanced handles' (p'.slots + loose'))
    (hp : p.Alike (r.SameTarget s t) p') :
    ∃ r', r ≤ r' ∧ r'.Between (s.addLiteral p).2 (t.addLiteral p').2 ∧
      r'.literals (s.addLiteral p).1 (t.addLiteral p').1 := by
  have hCarries := hs.carries_addLiteral p
  have hCarries' := ht.carries_addLiteral p'
  have hMade := hs.holds?_addLiteral p
  have hMade' := ht.holds?_addLiteral p'
  have hMem {q : SlotId × SlotId} (hq : q ∈ p.slots.zip p'.slots) :
      q.1 ∈ p.slots ∧ q.2 ∈ p'.slots := List.of_mem_zip hq
  refine ⟨r.adding (p.slots.zip p'.slots) [((s.addLiteral p).1, (t.addLiteral p').1)],
    le_adding _ _ _, h.adding hCarries.upholds hCarries'.upholds
      -- the slots of the payloads are paired, and the two literals
      (biUnique_zip hs.nodup_of_loose ht.nodup_of_loose) (biUnique_singleton _ _) ?_ ?_ ?_ ?_ ?_ ?_,
    .inr (List.mem_singleton_self _)⟩
  · -- slots that are owned from outside are not matched
    intro q hq
    obtain ⟨hIn, hIn'⟩ := hMem hq
    exact ⟨fun o => hs.not_owns_of_loose (Multiset.mem_add.2 (.inl (Multiset.mem_coe.2 hIn))),
      fun o => ht.not_owns_of_loose (Multiset.mem_add.2 (.inl (Multiset.mem_coe.2 hIn')))⟩
  · intro q hq
    rw [List.mem_singleton.1 hq]
    unfold Store.holds?
    rw [(hs.literal?_addLiteral p).1, (ht.literal?_addLiteral p').1]
    exact ⟨rfl, rfl⟩
  · -- from now on they belong to the new literals
    intro q hq
    obtain ⟨hIn, hIn'⟩ := hMem hq
    obtain ⟨position, hPosition⟩ := List.mem_iff_getElem?.1 hIn
    obtain ⟨position', hPosition'⟩ := List.mem_iff_getElem?.1 hIn'
    exact ⟨⟨_, Store.owns_element_iff.2 ⟨p, hMade, hPosition⟩⟩,
      ⟨_, Store.owns_element_iff.2 ⟨p', hMade', hPosition'⟩⟩⟩
  -- the slots pointed at the same before, and still do
  · intro q hq
    obtain ⟨hIn, hIn'⟩ := hMem hq
    cases hp with
    | array hSlots =>
      refine ((List.forall₂_iff_zip.1 hSlots).2 hq).mono (le_refl r) ?_ ?_
      · exact hCarries.target _ (.inr (Multiset.mem_add.2 (.inl (Multiset.mem_coe.2 hIn))))
      · exact hCarries'.target _ (.inr (Multiset.mem_add.2 (.inl (Multiset.mem_coe.2 hIn'))))
    | _ => cases hq
  -- what the literals hold is alike by the pairs that have come in
  · intro q hq
    rw [List.mem_singleton.1 hq]
    refine ⟨p, p', hMade, hMade', ?_⟩
    cases hp with
    | number n => exact .number n
    | function f => exact .function f
    | array hSlots =>
      exact .array (List.forall₂_iff_zip.2 ⟨hSlots.length_eq, fun hIn => .inr hIn⟩)
  · intro name
    rw [hCarries.lookup, hCarries'.lookup]
    exact rel_mono (fun _ _ hSlot => .inl hSlot) (h.names name)

/-! ## Taking and binding -/

variable {objs objs' : Multiset Object}

/-- What an object holds comes into literals that stand for each other. -/
theorem Between.take (h : r.Between s t) (hs : s.Keeps (obj ::ₘ objs))
    (ht : t.Keeps (obj' ::ₘ objs')) (hObj : obj.Alike r s t obj') :
    ∃ r', Option.Rel r'.literals (s.take obj).1 (t.take obj').1 ∧
      r.Advance s t objs objs' r' (s.take obj).2 (t.take obj').2 := by
  have hCarries := hs.carries_take.mono (Store.owns_subset_cons obj objs)
  have hCarries' := ht.carries_take.mono (Store.owns_subset_cons obj' objs')
  have hCarried := h.carried hCarries hCarries'
  have hBalanced := hs.balanced
  have hBalanced' := ht.balanced
  rw [Multiset.cons_bind, Multiset.cons_bind] at hBalanced hBalanced'
  -- a plain value goes into a literal of its own on either side
  have hFresh {p p' : Payload} (hp : p.Alike (r.SameTarget s t) p')
      (hOwns : obj.owns = p.slots) (hOwns' : obj'.owns = p'.slots)
      (hTake : s.take obj = (some (s.addLiteral p).1, (s.addLiteral p).2))
      (hTake' : t.take obj' = (some (t.addLiteral p').1, (t.addLiteral p').2)) :
      ∃ r', Option.Rel r'.literals (s.take obj).1 (t.take obj').1 ∧
        r.Advance s t objs objs' r' (s.take obj).2 (t.take obj').2 := by
    rw [hOwns] at hBalanced
    rw [hOwns'] at hBalanced'
    obtain ⟨r', hr, hBetween, hLiteral⟩ := h.addLiteral hBalanced hBalanced' hp
    rw [hTake] at hCarries ⊢
    rw [hTake'] at hCarries' ⊢
    exact ⟨r', .some hLiteral, hBetween.advance hr (fun id hId => hCarries.target id (.inr hId))
      -- the slots in hand that the new literals have not taken over stay where they point
      fun id hId => hCarries'.target id (.inr hId)⟩
  cases hObj with
  | nil => exact ⟨r, .none, hCarried⟩
  | number n => exact hFresh (.number n) rfl rfl rfl rfl
  | function f => exact hFresh (.function f) rfl rfl rfl rfl
  | array hSlots => exact hFresh (.array hSlots) rfl rfl rfl rfl
  | readOnly hLiteral => exact ⟨r, .some hLiteral, hCarried⟩
  | @writable id id' hSlot =>
    refine ⟨r, ?_, hCarried⟩
    -- taking from a handle on a slot gives the target of the slot, if there is one
    have hTaken (u : Store) (k : SlotId) : (u.take (.writable k)).1 = u.target? k := by
      cases hTarget : u.target? k with
      | none => rw [Store.take_writable_none hTarget]
      | some l => rw [Store.take_writable hTarget]
    rw [hTaken, hTaken]
    exact h.target id id' hSlot

/-- Slots that stand for each other may be pointed at literals that do. -/
theorem Between.setTarget {id id' : SlotId} {slot slot' : Slot} {target target' : Option LiteralId}
    (h : r.Between s t) (hSlot : r.slots id id') (hLive : s.slot? id = some slot)
    (hLive' : t.slot? id' = some slot') (hTarget : Option.Rel r.literals target target') :
    r.Between (s.setTarget id target) (t.setTarget id' target') where
  slotsUnique := h.slotsUnique
  literalsUnique := h.literalsUnique
  owned := h.owned
  target k k' hk := by
    have hSet := Store.target?_setTarget hLive target
    have hSet' := Store.target?_setTarget hLive' target'
    unfold SameTarget
    rw [hSet, hSet']
    by_cases hEq : k = id
    · -- only its counterpart stands for the slot
      have hEq' : k' = id' := h.slotsUnique.2 hk (hEq ▸ hSlot)
      rw [if_pos hEq, if_pos hEq']
      exact hTarget
    · have hNe' : k' ≠ id' := fun hEq' => hEq (h.slotsUnique.1 hk (hEq' ▸ hSlot))
      rw [if_neg hEq, if_neg hNe']
      exact h.target k k' hk
  holds := h.holds
  names := h.names

/-- Giving up a handle on a literal changes nothing that is in use. -/
theorem carries_release_handleOf (s : Store) (target : Option LiteralId) (loose : Multiset SlotId) :
    s.Carries (s.release (Store.handleOf target)) loose := by
  cases target with
  | none => exact .refl s loose
  | some l => exact Store.carries_forgo s l loose

/-- **Binding** slots that stand for each other to objects that are alike. -/
theorem Between.bind {id id' : SlotId} (h : r.Between s t) (hs : s.Keeps (obj ::ₘ objs))
    (ht : t.Keeps (obj' ::ₘ objs')) (hObj : obj.Alike r s t obj') (hSlot : r.slots id id') :
    (s.bind id obj).1 = .ok () ∧ (t.bind id' obj').1 = .ok () ∧
      ∃ r', r.Advance s t objs objs' r' (s.bind id obj).2 (t.bind id' obj').2 := by
  obtain ⟨r', hTarget, hTaken⟩ := h.take hs ht hObj
  obtain ⟨⟨o, hOwns⟩, ⟨o', hOwns'⟩⟩ := h.owned id id' hSlot
  obtain ⟨slot, hLive⟩ := hs.balanced.slot?_of_owns hOwns
  obtain ⟨slot', hLive'⟩ := ht.balanced.slot?_of_owns hOwns'
  -- both slots are live, so binding takes the object over and then points the slot there
  rw [Store.bind_eq hLive, Store.bind_eq hLive']
  refine ⟨rfl, rfl, r', hTaken.trans ?_⟩
  have hLive₁ : (s.take obj).2.slot? id = some slot := by
    rw [Store.slot?_of_eq (Store.slots_take s obj).1, hLive]
  have hLive₁' : (t.take obj').2.slot? id' = some slot' := by
    rw [Store.slot?_of_eq (Store.slots_take t obj').1, hLive']
  have hSet := hTaken.between.setTarget (hTaken.le.1 _ _ hSlot) hLive₁ hLive₁' hTarget
  -- the slot is owned in the store, so it is none of those in hand
  have hOther : ∀ k ∈ objs.bind Object.owns,
      ((s.take obj).2.setTarget id (s.take obj).1).target? k = (s.take obj).2.target? k := by
    intro k hk
    rw [Store.target?_setTarget hLive₁, if_neg]
    rintro rfl
    exact hs.release.balanced.not_owns_of_loose hk (hs.carries_release.owns hOwns)
  have hOther' : ∀ k ∈ objs'.bind Object.owns,
      ((t.take obj').2.setTarget id' (t.take obj').1).target? k = (t.take obj').2.target? k := by
    intro k hk
    rw [Store.target?_setTarget hLive₁', if_neg]
    rintro rfl
    exact ht.release.balanced.not_owns_of_loose hk (ht.carries_release.owns hOwns')
  -- the slots are pointed at the new literals, and then what they pointed at is given up
  exact (hSet.advance (le_refl r') hOther hOther').trans
    (hSet.carried (carries_release_handleOf _ _ _) (carries_release_handleOf _ _ _))

/-! ## New slots -/

/-- Objects that are alike are put into new slots that point at the same, if there are slots. -/
theorem Between.materialize (h : r.Between s t) (hs : s.Keeps (obj ::ₘ objs))
    (ht : t.Keeps (obj' ::ₘ objs')) (hObj : obj.Alike r s t obj')
    (hAfforded : Afforded (s.materialize obj (s.request obj true)).1)
    (hAfforded' : Afforded (t.materialize obj' (t.request obj' true)).1) :
    ∃ r' id id', (s.materialize obj (s.request obj true)).1 = .ok (.writable id) ∧
      (t.materialize obj' (t.request obj' true)).1 = .ok (.writable id') ∧
      r'.SameTarget (s.materialize obj (s.request obj true)).2
        (t.materialize obj' (t.request obj' true)).2 id id' ∧
      r.Advance s t objs objs' r' (s.materialize obj (s.request obj true)).2
        (t.materialize obj' (t.request obj' true)).2 := by
  obtain ⟨r', hTarget, hTaken⟩ := h.take hs ht hObj
  obtain ⟨id, u, hAllocate⟩ := Store.exists_allocate_of_materialize hAfforded
  obtain ⟨id', u', hAllocate'⟩ := Store.exists_allocate_of_materialize hAfforded'
  have hHandle := (Store.keeps_handleOf_iff.1 hs.take).1
  have hHandle' := (Store.keeps_handleOf_iff.1 ht.take).1
  obtain ⟨hMade, hLive⟩ := hHandle.allocate_ok hAllocate
  obtain ⟨hMade', hLive'⟩ := hHandle'.allocate_ok hAllocate'
  rw [Store.materialize_writable_eq hAllocate, Store.materialize_writable_eq hAllocate']
  refine ⟨r', id, id', rfl, rfl, ?_, ?_⟩
  · unfold SameTarget
    rw [Store.target?_setTarget hLive, Store.target?_setTarget hLive', if_pos rfl, if_pos rfl]
    exact hTarget
  -- the literal is made first, then a slot is taken, and then it is pointed at the literal
  · refine hTaken.trans (hTaken.between.carried ?_ ?_)
    · exact (hHandle.carries_allocate hAllocate).trans (hMade.carries_setTarget _)
    · exact (hHandle'.carries_allocate hAllocate').trans (hMade'.carries_setTarget _)

/-- When the first object has got a slot, the rest is done behind that. -/
theorem slotsFor_cons {made : List SlotId} {given : List Object} {handle : Object}
    (hMade : (s.materialize obj (s.request obj true)).1 = .ok handle) :
    Machine.slotsFor s made (obj :: given) =
      Machine.slotsFor (s.materialize obj (s.request obj true)).2 (handle.slot :: made) given := by
  have hEq : s.materialize obj (s.request obj true) =
      (.ok handle, (s.materialize obj (s.request obj true)).2) := Prod.ext hMade rfl
  rw [Machine.slotsFor, hEq]

/-- Slots for all objects are there only if there is one for the first. -/
theorem afforded_of_slotsFor {made : List SlotId} {given : List Object}
    (h : Afforded (Machine.slotsFor s made (obj :: given)).1) :
    Afforded (s.materialize obj (s.request obj true)).1 := by
  refine h.of_part fun e hEq => ?_
  rw [Machine.slotsFor, hEq]

/-- Slots for objects that are alike point at literals that stand for each other. -/
theorem Between.slotsFor {made made' : List SlotId} {given given' : List Object}
    (h : r.Between s t) (hs : s.Keeps (.array made ::ₘ (given + objs)))
    (ht : t.Keeps (.array made' ::ₘ (given' + objs')))
    (hMade : List.Forall₂ (r.SameTarget s t) made made')
    (hGiven : List.Forall₂ (Object.Alike r s t) given given')
    (hAfforded : Afforded (Machine.slotsFor s made given).1)
    (hAfforded' : Afforded (Machine.slotsFor t made' given').1) :
    ∃ r' ids ids', (Machine.slotsFor s made given).1 = .ok ids ∧
      (Machine.slotsFor t made' given').1 = .ok ids' ∧
      List.Forall₂ (r'.SameTarget (Machine.slotsFor s made given).2
        (Machine.slotsFor t made' given').2) ids ids' ∧
      r.Advance s t objs objs' r' (Machine.slotsFor s made given).2
        (Machine.slotsFor t made' given').2 := by
  -- induction on the objects, with the stores and the matching left open
  induction given generalizing given' r s t made made' with
  | nil =>
    cases hGiven
    exact ⟨r, made.reverse, made'.reverse, rfl, rfl, List.forall₂_reverse_iff.2 hMade,
      le_refl r, h, fun _ _ _ _ hAlike => hAlike⟩
  | cons obj given ih =>
    cases hGiven with
    | @cons _ obj' _ given' hObj hGiven =>
      -- the first object is put into a slot, with the array and the others still in hand
      have hNext := hs.given_cons
      have hNext' := ht.given_cons
      obtain ⟨r₁, id, id', hOk, hOk', hTarget, hAdvance⟩ := h.materialize hNext hNext' hObj
        (afforded_of_slotsFor hAfforded) (afforded_of_slotsFor hAfforded')
      rw [slotsFor_cons hOk] at hAfforded ⊢
      rw [slotsFor_cons hOk'] at hAfforded' ⊢
      -- the slots that were made before and the objects still to come are as alike as they were
      have hMade₁ : List.Forall₂ (r₁.SameTarget (s.materialize obj (s.request obj true)).2
          (t.materialize obj' (t.request obj' true)).2) made made' := by
        have hArray := hAdvance.alike _ (Multiset.mem_cons_self _ _) _ (Multiset.mem_cons_self _ _)
          (.array hMade)
        cases hArray with
        | array hSlots => exact hSlots
      have hGiven₁ := forall₂_imp_mem hGiven fun x hx y hy => hAdvance.alike x
        (Multiset.mem_cons_of_mem (Multiset.mem_add.2 (.inl hx))) y
        (Multiset.mem_cons_of_mem (Multiset.mem_add.2 (.inl hy)))
      have hRest {made : List SlotId} {given : List Object} {objs : Multiset Object} :
          objs ⊆ (.array made ::ₘ ((given : Multiset Object) + objs)) := fun x hx =>
        Multiset.mem_cons_of_mem (Multiset.mem_add.2 (.inr hx))
      obtain ⟨r₂, ids, ids', hIds, hIds', hTargets, hLast⟩ := ih hAdvance.between
        (hNext.materialize_among (Prod.ext hOk rfl)) (hNext'.materialize_among (Prod.ext hOk' rfl))
        (.cons hTarget hMade₁) hGiven₁ hAfforded hAfforded'
      exact ⟨r₂, ids, ids', hIds, hIds', hTargets, (hAdvance.subset hRest hRest).trans hLast⟩

/-! ## Names -/

/-- A name that was new has got an empty slot of its own, and nothing else has changed. -/
structure Introduces (s : Store) (name : String) (loose : Multiset SlotId) (id : SlotId)
    (u : Store) : Prop where
  lookup : ∀ other, u.lookup other = if other = name then some id else s.lookup other
  upholds : s.Upholds u
  unowned : ∀ o, ¬ s.Owns id o
  empty : u.target? id = none
  loose : ∀ k ∈ loose, u.target? k = s.target? k

/-- Bringing in a new name succeeds when there is a slot for it, and gives it one of its own. -/
theorem exists_introduces {name : String} {handles : Multiset LiteralId} {loose : Multiset SlotId}
    (hs : s.Balanced handles loose) (hNew : s.lookup name = none)
    (hAfforded : Afforded (s.intern name).1) :
    ∃ id, (s.intern name).1 = .ok id ∧ Introduces s name loose id (s.intern name).2 := by
  have hAllocated : Afforded s.allocate.1 := by
    intro e he
    have hEq : s.allocate = (.error e, s.allocate.2) := Prod.ext he rfl
    refine hAfforded e ?_
    unfold Store.intern
    simp only [hNew]
    rw [hEq]
  obtain ⟨id, u, hAllocate⟩ := Store.exists_allocate hAllocated
  have hCarries := hs.carries_allocate hAllocate
  obtain ⟨hMade, hSlot⟩ := hs.allocate_ok hAllocate
  have hNone : s.symbols.find? name = none := hNew
  have hIntern : s.intern name =
      (.ok id, { u with symbols := ⟨s.symbols.entries ++ [(name, id)]⟩ }) := by
    unfold Store.intern
    -- the entry goes to the end, so the other names are found as before
    simp only [hNew, hAllocate, Symbols.insert, hCarries.symbols, hNone]
  have hLookup : ∀ other, Symbols.find? ⟨s.symbols.entries ++ [(name, id)]⟩ other =
      if other = name then some id else s.lookup other := by
    intro other
    have hEntries : (s.symbols.entries.find? fun entry => entry.1 == other).map (·.2) =
        s.lookup other := rfl
    unfold Symbols.find?
    rw [List.find?_append]
    by_cases hOther : other = name
    · subst hOther
      simp [Option.map_eq_none_iff.1 hNew]
    · have hNe : ¬ name = other := fun hEq => hOther hEq.symm
      simp [hOther, hNe, hEntries]
  rw [hIntern]
  refine ⟨id, rfl, hLookup, ⟨?_, hCarries.holds, hCarries.upholds.target⟩, ?_, ?_, ?_⟩
  · -- owners keep what they have, since the name was not in use
    intro k o hOwns
    cases o with
    | symbol other =>
      have hOther : s.lookup other = some k := hOwns
      refine (hLookup other).trans ?_
      rw [if_neg, hOther]
      rintro rfl
      rw [hNew] at hOther
      cases hOther
    | element l position => exact hCarries.owns hOwns
  · intro o hOwns
    exact hMade.not_owns_of_loose (Multiset.mem_cons_self id loose) (hCarries.owns hOwns)
  · show u.target? id = none
    unfold Store.target?
    rw [hSlot]
    rfl
  · exact fun k hk => hCarries.target k (.inr hk)

/-- Looking a name up, or bringing it in, gives slots that stand for each other. -/
theorem Between.intern {objs objs' : Multiset Object} (h : r.Between s t) (hs : s.Keeps objs)
    (ht : t.Keeps objs') (name : String) (hAfforded : Afforded (s.intern name).1)
    (hAfforded' : Afforded (t.intern name).1) :
    ∃ r' id id', (s.intern name).1 = .ok id ∧ (t.intern name).1 = .ok id' ∧ r'.slots id id' ∧
      r.Advance s t objs objs' r' (s.intern name).2 (t.intern name).2 := by
  have hNames := h.names name
  generalize hFound : s.lookup name = found at hNames
  generalize hFound' : t.lookup name = found' at hNames
  -- the name is known on both sides or on neither
  cases hNames with
  | @some id id' hSlot =>
    have hIntern : s.intern name = (.ok id, s) := by simp only [Store.intern, hFound]
    have hIntern' : t.intern name = (.ok id', t) := by simp only [Store.intern, hFound']
    rw [hIntern, hIntern']
    exact ⟨r, id, id', rfl, rfl, hSlot, le_refl r, h, fun _ _ _ _ hAlike => hAlike⟩
  | none =>
    obtain ⟨id, hOk, hNew⟩ := exists_introduces hs.balanced hFound hAfforded
    obtain ⟨id', hOk', hNew'⟩ := exists_introduces ht.balanced hFound' hAfforded'
    -- the slots of the name are matched from now on
    have hBetween : (r.adding [(id, id')] []).Between (s.intern name).2 (t.intern name).2 := by
      refine h.adding hNew.upholds hNew'.upholds (biUnique_singleton id id') ?_ ?_ ?_ ?_ ?_ ?_ ?_
      · exact ⟨fun _ _ _ hIn => absurd hIn List.not_mem_nil,
          fun _ _ _ hIn => absurd hIn List.not_mem_nil⟩
      · intro q hq
        -- the slot is new on either side, so it was matched with nothing
        rw [List.mem_singleton.1 hq]
        exact ⟨hNew.unowned, hNew'.unowned⟩
      · exact fun q hq => absurd hq List.not_mem_nil
      · intro q hq
        rw [List.mem_singleton.1 hq]
        exact ⟨⟨.symbol name, (hNew.lookup name).trans (if_pos rfl)⟩,
          ⟨.symbol name, (hNew'.lookup name).trans (if_pos rfl)⟩⟩
      · intro q hq
        rw [List.mem_singleton.1 hq]
        unfold SameTarget
        rw [hNew.empty, hNew'.empty]
        exact .none
      · exact fun q hq => absurd hq List.not_mem_nil
      · intro other
        rw [hNew.lookup, hNew'.lookup]
        split
        · exact .some (.inr (List.mem_singleton_self _))
        · exact rel_mono (fun _ _ hSlot => .inl hSlot) (h.names other)
    exact ⟨r.adding [(id, id')] [], id, id', hOk, hOk', .inr (List.mem_singleton_self _),
      hBetween.advance (le_adding _ _ _) hNew.loose hNew'.loose⟩

end Matching

end Reckon
