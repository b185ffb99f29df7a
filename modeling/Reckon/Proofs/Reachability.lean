import Reckon.Proofs.Reclaiming

/-!
# What can be reached

The store is a graph. A literal that holds an array points, through the slots of its elements, at
other literals; a script gets at literals through names, and whoever holds a read-only handle gets
at its literal. What can be reached from there can still be used.

The counts know only who holds on to a literal directly. A literal that is counted may therefore be
out of reach: an array inside itself is counted for ever. This is the only way to lose one. Main
result: `Store.Balanced.reaches_of_acyclic` says that whatever is counted can be reached, if no
array lies inside itself.
-/

namespace Reckon

namespace Store

/-! ## The graph -/

/-- Whether an element of the array in the first literal points at the second one. -/
def PointsTo (s : Store) (l k : LiteralId) : Prop :=
  ∃ lit, s.literal? l = some lit ∧ ∃ id ∈ lit.payload.slots, s.target? id = some k

/-- The literals that can be reached from names and from literals that are in hand. -/
inductive Reaches (s : Store) (inHand : LiteralId → Prop) : LiteralId → Prop
  | hand {l : LiteralId} (hHand : inHand l) : Reaches s inHand l
  | name {name : String} {id : SlotId} {l : LiteralId} (hName : s.lookup name = some id)
      (hTarget : s.target? id = some l) : Reaches s inHand l
  | element {k l : LiteralId} (hReaches : Reaches s inHand k) (hPoints : s.PointsTo k l) :
      Reaches s inHand l

/-- The slots that can be reached: those of names, and those of the elements of arrays that can be
reached. -/
def ReachesSlot (s : Store) (inHand : LiteralId → Prop) (id : SlotId) : Prop :=
  (∃ name, s.lookup name = some id) ∨
    ∃ l lit, s.Reaches inHand l ∧ s.literal? l = some lit ∧ id ∈ lit.payload.slots

variable {s : Store} {handles : Multiset LiteralId} {loose : Multiset SlotId}
  {inHand : LiteralId → Prop}

/-- A slot that can be reached belongs to a name or to an array. -/
theorem ReachesSlot.exists_owner {id : SlotId} (h : s.ReachesSlot inHand id) :
    ∃ o, s.Owns id o := by
  rcases h with ⟨name, hName⟩ | ⟨l, lit, -, hl, hId⟩
  · exact ⟨.symbol name, hName⟩
  · obtain ⟨position, hPosition⟩ := List.mem_iff_getElem?.1 hId
    exact ⟨.element l position, lit, hl, hPosition⟩

/-- What a slot points at can be reached if the slot can. -/
theorem ReachesSlot.target {id : SlotId} {l : LiteralId} (h : s.ReachesSlot inHand id)
    (hTarget : s.target? id = some l) : s.Reaches inHand l := by
  rcases h with ⟨name, hName⟩ | ⟨k, lit, hReaches, hk, hId⟩
  · exact .name hName hTarget
  · exact .element hReaches ⟨lit, hk, id, hId, hTarget⟩

/-! ## Holders and owners -/

/-- What is among the literals that slots point at is the target of some slot. -/
theorem exists_target_of_mem_pointed {l : LiteralId} (h : l ∈ s.pointed) :
    ∃ id, s.target? id = some l := by
  unfold pointed at h
  obtain ⟨entry, hEntry, hl⟩ := Multiset.mem_bind.1 h
  obtain ⟨id, hId⟩ := List.mem_iff_getElem?.1 (Multiset.mem_coe.1 hEntry)
  rw [Array.getElem?_toList] at hId
  refine ⟨id, ?_⟩
  unfold target? slot?
  rw [hId]
  simpa [Slot.pointed] using hl

/-- The target of a slot is among the literals that slots point at. -/
theorem mem_pointed_of_target? {id : SlotId} {l : LiteralId} (h : s.target? id = some l) :
    l ∈ s.pointed := by
  obtain ⟨slot, hSlot, hTarget⟩ := Option.bind_eq_some_iff.1 h
  refine Multiset.mem_bind.2 ⟨some slot, ?_, by simp [Slot.pointed, hTarget]⟩
  rw [Multiset.mem_coe, List.mem_iff_getElem?]
  exact ⟨id, by rw [Array.getElem?_toList]; exact getElem?_of_slot? hSlot⟩

/-- A literal that is counted is held by a handle or by a slot. -/
theorem Balanced.exists_holder {l : LiteralId} {lit : Literal} (hs : s.Balanced handles loose)
    (hl : s.literal? l = some lit) (hRefs : lit.refs ≠ 0) :
    l ∈ handles ∨ ∃ id, s.target? id = some l := by
  -- the count is the number of holders, so there is one
  have hHeld : l ∈ s.pointed + handles := by
    rw [← Multiset.count_ne_zero, ← hs.counted l lit hl]
    exact hRefs
  rcases Multiset.mem_add.1 hHeld with hPointed | hHandle
  · exact .inr (exists_target_of_mem_pointed hPointed)
  · exact .inl hHandle

/-- The slots that are owned are those that have an owner. -/
theorem Balanced.mem_owned_iff {id : SlotId} (hs : s.Balanced handles loose) :
    id ∈ s.owned ↔ ∃ o, s.Owns id o := by
  rw [← slots_claims, Multiset.mem_coe, List.mem_map]
  constructor
  · rintro ⟨⟨o, id'⟩, hClaim, rfl⟩
    exact ⟨o, hs.mem_claims_iff.1 hClaim⟩
  · rintro ⟨o, hOwns⟩
    exact ⟨(o, id), hs.mem_claims_iff.2 hOwns, rfl⟩

/-- A slot is in use exactly when it has an owner, in the store or outside. -/
theorem Balanced.slot?_isSome_iff {id : SlotId} (hs : s.Balanced handles loose) :
    (s.slot? id).isSome ↔ (∃ o, s.Owns id o) ∨ id ∈ loose := by
  have hSingle := hs.single id
  rw [← hs.mem_owned_iff, ← Multiset.mem_add, ← Multiset.count_pos, hSingle]
  split
  · rename_i hLive
    exact iff_of_true hLive Nat.one_pos
  · rename_i hGone
    exact iff_of_false hGone (Nat.lt_irrefl 0)

/-- A slot that has an owner is in use. -/
theorem Balanced.slot?_of_owns {id : SlotId} {o : Owner} (hs : s.Balanced handles loose)
    (hOwns : s.Owns id o) : ∃ slot, s.slot? id = some slot :=
  Option.isSome_iff_exists.1 (hs.slot?_isSome_iff.2 (.inl ⟨o, hOwns⟩))

/-! ## Losing nothing -/

/-- Without an array inside itself, going back from a literal to those that point at it comes to an
end. -/
theorem wellFounded_pointsTo (hAcyclic : ∀ l, ¬ Relation.TransGen s.PointsTo l l) :
    WellFounded fun a b : Fin s.literals.size => Relation.TransGen s.PointsTo a b := by
  -- the literals of a store are finitely many, so a strict order among them is well-founded
  have hTrans : IsTrans (Fin s.literals.size) fun a b => Relation.TransGen s.PointsTo a b :=
    ⟨fun _ _ _ => Relation.TransGen.trans⟩
  have hIrrefl : Std.Irrefl fun a b : Fin s.literals.size => Relation.TransGen s.PointsTo a b :=
    ⟨fun a => hAcyclic a⟩
  exact Finite.wellFounded_of_trans_of_irrefl _

/-- Whether every array points only at literals of lower numbers, as arrays do that were made after
their elements. -/
def descends (s : Store) : Bool :=
  s.literals.toList.zipIdx.all fun (entry, l) =>
    ((entry.map (·.payload.slots)).getD []).all fun id => (s.target? id).all (· < l)

/-- No array lies inside itself where every array points at lower numbers. -/
theorem acyclic_of_descends (h : s.descends = true) :
    ∀ l, ¬ Relation.TransGen s.PointsTo l l := by
  have hLower : ∀ l k, s.PointsTo l k → k < l := by
    rintro l k ⟨lit, hl, id, hId, hTarget⟩
    have hEntry : (some lit, l) ∈ s.literals.toList.zipIdx := by
      rw [List.mk_mem_zipIdx_iff_getElem?, Array.getElem?_toList]
      exact getElem?_of_literal? hl
    have hAll := List.all_eq_true.1 (List.all_eq_true.1 h _ hEntry) id hId
    rw [hTarget] at hAll
    simpa using hAll
  intro l hCycle
  have hDown : ∀ k, Relation.TransGen s.PointsTo l k → k < l := by
    intro k hk
    induction hk with
    | single hStep => exact hLower _ _ hStep
    | tail _ hStep ih => exact Nat.lt_trans (hLower _ _ hStep) ih
  exact Nat.lt_irrefl l (hDown l hCycle)

/-- **What is counted can be reached** if no array lies inside itself: a literal is held by a handle
or by a slot, the slot belongs to a name or to an array, and the array can be reached by then. -/
theorem Balanced.reaches_of_acyclic (hs : s.Balanced handles 0)
    (hAcyclic : ∀ l, ¬ Relation.TransGen s.PointsTo l l)
    (hHeld : ∀ l lit, s.literal? l = some lit → lit.refs ≠ 0) :
    ∀ l lit, s.literal? l = some lit → s.Reaches (· ∈ handles) l := by
  intro l lit hl
  -- the induction goes from a literal to the arrays that it is an element of
  obtain ⟨hSize, -⟩ := literal?_eq_some_iff.1 hl
  induction hIndex : (⟨l, hSize⟩ : Fin s.literals.size)
    using (wellFounded_pointsTo hAcyclic).induction generalizing l lit with
  | _ index ih =>
    rcases hs.exists_holder hl (hHeld l lit hl) with hHandle | ⟨id, hTarget⟩
    · exact .hand hHandle
    · -- the slot has an owner, and the owner can be reached
      obtain ⟨slot, hSlot, -⟩ := Option.bind_eq_some_iff.1 hTarget
      obtain ⟨o, hOwns, -⟩ := hs.existsUnique_owner hSlot
      match o, hOwns with
      | .symbol name, hName => exact .name hName hTarget
      | .element k position, ⟨litk, hk, hPosition⟩ =>
        have hPoints : s.PointsTo k l :=
          ⟨litk, hk, id, List.mem_of_getElem? hPosition, hTarget⟩
        obtain ⟨hSizek, -⟩ := literal?_eq_some_iff.1 hk
        refine .element (ih ⟨k, hSizek⟩ ?_ k litk hk hSizek rfl) hPoints
        rw [← hIndex]
        exact .single hPoints

end Store

end Reckon
