import Reckon.Proofs.Bindings
import Reckon.Proofs.Reachability

/-!
# What stays in the store

While a statement runs, nothing that is in use goes away. Names keep their slots, literals keep
their payloads until the next sweep, and a slot that a name, an array or somebody outside the store
has points where it did, unless it is assigned to. `Store.Carries s t loose` says so for two
stores, of which the second comes from the first, and for the slots `loose` that are owned from
outside. Every operation has a lemma that says it carries what is not given up.
-/

namespace Reckon

namespace Store

variable {s t u : Store} {handles : Multiset LiteralId} {loose : Multiset SlotId}
  {objs : Multiset Object}

/-! ## Taking slots back -/

@[simp] theorem slot?_forgo (s : Store) (l : LiteralId) (id : SlotId) :
    (s.forgo l).slot? id = s.slot? id := slot?_of_eq (slots_forgo s l).1 id

/-- A slot that is taken back is gone, and the others are where they were. -/
theorem slot?_freeSlot (s : Store) (id k : SlotId) :
    (s.freeSlot id).slot? k = if k = id then none else s.slot? k := by
  unfold Store.freeSlot
  split
  · rename_i hGone
    split
    · rename_i hEq
      rw [hEq, hGone]
    · rfl
  · rename_i slot hSlot
    have hSet := slot?_of_set (t := { s with slots := s.slots.setIfInBounds id none })
      (getElem?_of_slot? hSlot) rfl k
    rcases slot with ⟨_ | l⟩
    · exact hSet
    · exact (slot?_forgo _ l k).trans hSet

/-- Slots that are taken back are gone, and all others are where they were. -/
theorem slot?_freeSlots (s : Store) (ids : List SlotId) (k : SlotId) :
    (s.freeSlots ids).slot? k = if k ∈ ids then none else s.slot? k := by
  unfold Store.freeSlots
  induction ids generalizing s with
  | nil => simp
  | cons id ids ih =>
    rw [List.foldl_cons, ih, slot?_freeSlot]
    by_cases hRest : k ∈ ids <;> by_cases hHead : k = id <;> simp [hRest, hHead]

/-- A slot that is the same points at the same literal. -/
theorem target?_of_slot? {id : SlotId} (h : t.slot? id = s.slot? id) :
    t.target? id = s.target? id := by
  unfold target?
  rw [h]

/-- Only the slot that is pointed somewhere else does so. -/
theorem target?_setTarget {id : SlotId} {slot : Slot} (hSlot : s.slot? id = some slot)
    (target : Option LiteralId) (k : SlotId) :
    (s.setTarget id target).target? k = if k = id then target else s.target? k := by
  unfold target?
  rw [slot?_of_set (t := s.setTarget id target) (getElem?_of_slot? hSlot) rfl]
  split <;> rfl

/-! ## Stores in which things stay -/

/-- A payload that a literal has. -/
def holds? (s : Store) (l : LiteralId) : Option Payload := (s.literal? l).map (·.payload)

/-- A literal that is there holds its payload. -/
theorem holds?_of_literal? {s : Store} {l : LiteralId} {lit : Literal}
    (hl : s.literal? l = some lit) : s.holds? l = some lit.payload := by
  unfold holds?
  rw [hl]
  rfl

/-- The second store has what is in use in the first one, the slots `loose` included. -/
structure Carries (s t : Store) (loose : Multiset SlotId) : Prop where
  symbols : t.symbols = s.symbols
  holds : ∀ l payload, s.holds? l = some payload → t.holds? l = some payload
  target : ∀ id, (∃ o, s.Owns id o) ∨ id ∈ loose → t.target? id = s.target? id

theorem Carries.refl (s : Store) (loose : Multiset SlotId) : s.Carries s loose :=
  ⟨rfl, fun _ _ h => h, fun _ _ => rfl⟩

/-- Whoever carries some slots carries fewer of them. -/
theorem Carries.mono {loose' : Multiset SlotId} (h : s.Carries t loose) (hSub : loose' ⊆ loose) :
    s.Carries t loose' :=
  ⟨h.symbols, h.holds, fun id hId => h.target id (hId.imp_right fun hMem => hSub hMem)⟩

/-- An array owns the slots that its payload lists. -/
theorem owns_element_iff {id : SlotId} {l : LiteralId} {position : Nat} :
    s.Owns id (.element l position) ↔
      ∃ payload, s.holds? l = some payload ∧ payload.slots[position]? = some id := by
  unfold holds?
  constructor
  · rintro ⟨lit, hl, hPosition⟩
    exact ⟨lit.payload, by rw [hl]; rfl, hPosition⟩
  · rintro ⟨payload, hPayload, hPosition⟩
    obtain ⟨lit, hl, rfl⟩ := Option.map_eq_some_iff.1 hPayload
    exact ⟨lit, hl, hPosition⟩

/-- Names have the same slots. -/
theorem Carries.lookup (h : s.Carries t loose) (name : String) :
    t.lookup name = s.lookup name := by
  unfold Store.lookup
  rw [h.symbols]

/-- Owners own the same slots. -/
theorem Carries.owns (h : s.Carries t loose) {id : SlotId} {o : Owner} (hOwns : s.Owns id o) :
    t.Owns id o := by
  cases o with
  | symbol name =>
    show t.lookup name = some id
    rw [h.lookup]
    exact hOwns
  | element l position =>
    obtain ⟨payload, hPayload, hPosition⟩ := owns_element_iff.1 hOwns
    exact owns_element_iff.2 ⟨payload, h.holds l payload hPayload, hPosition⟩

/-- Whoever owns slots in the store keeps them and what they point at, and literals keep what they
hold. There may be more names. -/
structure Upholds (s t : Store) : Prop where
  owns : ∀ id o, s.Owns id o → t.Owns id o
  holds : ∀ l payload, s.holds? l = some payload → t.holds? l = some payload
  target : ∀ id o, s.Owns id o → t.target? id = s.target? id

/-- A store that carries what is in use upholds what is owned in it. -/
theorem Carries.upholds (h : s.Carries t loose) : s.Upholds t :=
  ⟨fun _ _ hOwns => h.owns hOwns, h.holds, fun id o hOwns => h.target id (.inl ⟨o, hOwns⟩)⟩

/-- What is carried twice is carried. -/
theorem Carries.trans (hFirst : s.Carries t loose) (hSecond : t.Carries u loose) :
    s.Carries u loose where
  symbols := hSecond.symbols.trans hFirst.symbols
  holds l payload h := hSecond.holds l payload (hFirst.holds l payload h)
  target id hId := by
    refine (hSecond.target id ?_).trans (hFirst.target id hId)
    exact hId.imp_left fun ⟨o, hOwns⟩ => ⟨o, hFirst.owns hOwns⟩

/-- Changes to nothing but the counts, the lists of numbers and the like. -/
theorem carries_of_eq (hSymbols : t.symbols = s.symbols) (hLiterals : t.literals = s.literals)
    (hSlots : t.slots = s.slots) (loose : Multiset SlotId) : s.Carries t loose where
  symbols := hSymbols
  holds l payload h := by
    unfold holds? at h ⊢
    rw [literal?_of_eq hLiterals]
    exact h
  target id _ := target?_of_slot? (slot?_of_eq hSlots id)

/-- The numbers that are drawn are no part of what is carried. -/
theorem carries_withEntropy (s : Store) (entropy : Entropy) (loose : Multiset SlotId) :
    s.Carries { s with entropy } loose := by
  refine carries_of_eq ?_ ?_ ?_ loose <;> rfl

/-! ## Counts -/

/-- Counting a literal anew changes no payload. -/
theorem carries_of_recount {l : LiteralId} {lit : Literal} (refs : Nat)
    (hl : s.literal? l = some lit)
    (hLiterals : t.literals = s.literals.setIfInBounds l (some { lit with refs }))
    (hSymbols : t.symbols = s.symbols) (hSlots : t.slots = s.slots) (loose : Multiset SlotId) :
    s.Carries t loose where
  symbols := hSymbols
  holds k payload h := by
    unfold holds? at h ⊢
    rw [literal?_of_set (getElem?_of_literal? hl) hLiterals]
    split
    · rename_i hEq
      rw [hEq, hl] at h
      exact h
    · exact h
  target id _ := target?_of_slot? (slot?_of_eq hSlots id)

/-- One more holder makes no difference to what is carried. -/
theorem carries_retain (s : Store) (l : LiteralId) (loose : Multiset SlotId) :
    s.Carries (s.retain l) loose := by
  unfold Store.retain
  split
  · rename_i lit hl
    refine carries_of_recount (lit.refs + 1) hl ?_ ?_ ?_ loose <;> rfl
  · exact .refl s loose

/-- Nor does one fewer. A literal that nobody holds on to stays until the sweep. -/
theorem carries_forgo (s : Store) (l : LiteralId) (loose : Multiset SlotId) :
    s.Carries (s.forgo l) loose := by
  unfold Store.forgo
  split
  · rename_i lit hl
    refine carries_of_recount (lit.refs - 1) hl ?_ ?_ ?_ loose <;> rfl
  · exact .refl s loose

/-! ## Slots -/

/-- Somebody else's slot is another one. -/
theorem Balanced.ne_of_loose {id k : SlotId} (hs : s.Balanced handles (id ::ₘ loose))
    (hOther : (∃ o, s.Owns k o) ∨ k ∈ loose) : k ≠ id := by
  rintro rfl
  have hSingle := hs.single k
  -- the slot would have two owners, and it has one at most
  rw [Multiset.count_add, Multiset.count_cons_self] at hSingle
  rcases hOther with ⟨o, hOwns⟩ | hLoose
  · exact hs.ne_of_owns hOwns rfl
  · have hTwice := Multiset.count_pos.2 hLoose
    split at hSingle <;> omega

/-- What is owned from outside is owned by nothing in the store. -/
theorem Balanced.not_owns_of_loose {id : SlotId} {o : Owner} (hs : s.Balanced handles loose)
    (hLoose : id ∈ loose) : ¬ s.Owns id o := by
  obtain ⟨others, rfl⟩ := Multiset.exists_cons_of_mem hLoose
  exact fun hOwns => hs.ne_of_owns hOwns rfl

/-- Whoever owns slots from outside owns each of them once. -/
theorem Balanced.nodup_of_loose {ids : List SlotId} (hs : s.Balanced handles (ids + loose)) :
    ids.Nodup := by
  rw [List.nodup_iff_count_le_one]
  -- each slot of the list is counted among those that are owned from outside
  intro id
  have hSingle := hs.single id
  rw [Multiset.count_add, Multiset.count_add, Multiset.coe_count] at hSingle
  split at hSingle <;> omega

/-- To take a slot back carries all slots but that one. -/
theorem Balanced.carries_freeSlot {id : SlotId} (hs : s.Balanced handles (id ::ₘ loose)) :
    s.Carries (s.freeSlot id) loose where
  symbols := hs.resembles_freeSlot.symbols
  holds l payload h := by
    unfold holds? at h ⊢
    rw [hs.resembles_freeSlot.payload]
    exact h
  target k hk := by
    refine target?_of_slot? ?_
    rw [slot?_freeSlot, if_neg (hs.ne_of_loose hk)]

/-- To take several back carries all slots but those. -/
theorem Balanced.carries_freeSlots {ids : List SlotId} (hs : s.Balanced handles (ids + loose)) :
    s.Carries (s.freeSlots ids) loose := by
  unfold Store.freeSlots
  -- the slots that are still to be taken back are carried along until they are
  induction ids generalizing s with
  | nil => exact .refl s loose
  | cons id ids ih =>
    rw [← Multiset.cons_coe, Multiset.cons_add] at hs
    have hFirst := hs.carries_freeSlot.mono (Multiset.subset_of_le (Multiset.le_add_left loose ids))
    exact hFirst.trans (ih hs.freeSlot)

/-- Only a slot that is owned from outside is pointed somewhere else. -/
theorem Balanced.carries_setTarget {id : SlotId} (hs : s.Balanced handles (id ::ₘ loose))
    (target : Option LiteralId) : s.Carries (s.setTarget id target) loose where
  symbols := rfl
  holds _ _ h := h
  target k hk := by
    obtain ⟨slot, hSlot⟩ := hs.live_of_loose
    refine target?_of_slot? ?_
    rw [slot?_of_set (getElem?_of_slot? hSlot) rfl, if_neg (hs.ne_of_loose hk)]

/-- A slot that is given out was nobody's before. -/
theorem Balanced.carries_allocate {id : SlotId} (hs : s.Balanced handles loose)
    (hEq : s.allocate = (.ok id, t)) : s.Carries t loose := by
  have hOther : ∀ k, (∃ o, s.Owns k o) ∨ k ∈ loose → (s.slot? k).isSome :=
    fun k => hs.slot?_isSome_iff.2
  unfold Store.allocate at hEq
  split at hEq
  · -- a number that was given back belongs to no slot
    rename_i freeIds hFree
    cases hEq
    obtain ⟨-, hSize, hNone⟩ := hs.free.2 id (by rw [hFree]; exact List.mem_cons_self ..)
    refine ⟨rfl, fun _ _ h => h, fun k hk => target?_of_slot? ?_⟩
    rw [slot?_of_set (getElem?_of_slot?_none hSize hNone) rfl, if_neg]
    rintro rfl
    have hLive := hOther k hk
    rw [hNone] at hLive
    cases hLive
  · split at hEq
    · cases hEq
    · -- a new number is behind those of all slots
      cases hEq
      refine ⟨rfl, fun _ _ h => h, fun k hk => target?_of_slot? ?_⟩
      obtain ⟨slot, hSlot⟩ := Option.isSome_iff_exists.1 (hOther k hk)
      obtain ⟨hSize, -⟩ := Array.getElem?_eq_some_iff.1 (getElem?_of_slot? hSlot)
      unfold slot?
      rw [Array.getElem?_push, if_neg (Nat.ne_of_lt hSize)]

/-! ## Literals -/

/-- A new literal has a number that no literal had. -/
theorem Balanced.literal?_addLiteral (hs : s.Balanced handles loose) (payload : Payload) :
    s.literal? (s.addLiteral payload).1 = none ∧
      ∀ l, (s.addLiteral payload).2.literal? l =
        if l = (s.addLiteral payload).1 then some ⟨payload, 1⟩ else s.literal? l := by
  unfold Store.addLiteral
  split
  · rename_i l vacant hVacant
    obtain ⟨hSize, hNone⟩ := hs.vacant.2 l (by rw [hVacant]; exact List.mem_cons_self ..)
    exact ⟨hNone, literal?_of_set (getElem?_of_literal?_none hSize hNone) rfl⟩
  · refine ⟨by simp [literal?], fun l => ?_⟩
    unfold literal?
    rw [Array.getElem?_push]
    split <;> rfl

/-- A new literal changes neither the slots nor the names. -/
theorem slots_addLiteral (s : Store) (payload : Payload) :
    (s.addLiteral payload).2.slots = s.slots ∧ (s.addLiteral payload).2.symbols = s.symbols ∧
      (s.addLiteral payload).2.freeIds = s.freeIds := by
  unfold Store.addLiteral
  split <;> exact ⟨rfl, rfl, rfl⟩

/-- The new literal holds the payload. -/
theorem Balanced.holds?_addLiteral (hs : s.Balanced handles loose) (payload : Payload) :
    (s.addLiteral payload).2.holds? (s.addLiteral payload).1 = some payload := by
  unfold holds?
  rw [(hs.literal?_addLiteral payload).2, if_pos rfl]
  rfl

/-- A new literal takes nobody's place. -/
theorem Balanced.carries_addLiteral (hs : s.Balanced handles loose) (payload : Payload) :
    s.Carries (s.addLiteral payload).2 loose where
  symbols := (slots_addLiteral s payload).2.1
  holds l found h := by
    obtain ⟨hNone, hLiteral⟩ := hs.literal?_addLiteral payload
    unfold holds? at h ⊢
    rw [hLiteral, if_neg]
    · exact h
    -- its number was vacant, so no literal was there before
    · rintro rfl
      rw [hNone] at h
      cases h
  target id _ := target?_of_slot? (slot?_of_eq (slots_addLiteral s payload).1 id)

/-! ## Objects -/

/-- To give up one object carries what the others own. -/
theorem Keeps.carries_release {obj : Object} (hs : s.Keeps (obj ::ₘ objs)) :
    s.Carries (s.release obj) (objs.bind Object.owns) := by
  cases obj with
  | array slots => exact (keeps_array_iff.1 hs).1.carries_freeSlots
  | readOnly l => exact carries_forgo s l _
  | _ => exact .refl s _

/-- What some objects own, they own beside one more. -/
theorem owns_subset_cons (obj : Object) (objs : Multiset Object) :
    objs.bind Object.owns ⊆ (obj ::ₘ objs).bind Object.owns := by
  rw [Multiset.cons_bind]
  exact Multiset.subset_of_le (Multiset.le_add_left _ _)

/-- To give up some objects carries what the others own. -/
theorem Keeps.carries_releaseAll {given : List Object} (hs : s.Keeps (given + objs)) :
    s.Carries (s.releaseAll given) (objs.bind Object.owns) := by
  unfold Store.releaseAll
  -- the induction is on what is given up; what is left to give up is among the others
  induction given generalizing s with
  | nil => exact .refl s _
  | cons obj given ih =>
    rw [← Multiset.cons_coe, Multiset.cons_add] at hs
    have hSub : objs.bind Object.owns ⊆ ((given : Multiset Object) + objs).bind Object.owns := by
      rw [Multiset.add_bind]
      exact Multiset.subset_of_le (Multiset.le_add_left _ _)
    exact (hs.carries_release.mono hSub).trans (ih hs.release)

/-- What an object holds, a literal holds from now on. The slots of an array are still there. -/
theorem Keeps.carries_take {obj : Object} (hs : s.Keeps (obj ::ₘ objs)) :
    s.Carries (s.take obj).2 ((obj ::ₘ objs).bind Object.owns) := by
  -- a plain value becomes a literal, and a handle shares the one that it is on
  have hFresh := fun payload => hs.balanced.carries_addLiteral payload
  cases obj with
  | nil => exact .refl s _
  | number n => exact hFresh (.number n)
  | function f => exact hFresh (.function f)
  | array slots => exact hFresh (.array slots)
  | readOnly l => exact (carries_retain s l _).trans (carries_forgo _ l _)
  | writable id =>
    cases hTarget : s.target? id with
    | none =>
      rw [take_writable_none hTarget]
      exact .refl s _
    | some l =>
      rw [take_writable hTarget]
      exact carries_retain s l _

/-- Taking moves no slot. -/
theorem slots_take (s : Store) (obj : Object) :
    (s.take obj).2.slots = s.slots ∧ (s.take obj).2.freeIds = s.freeIds := by
  have hRetain (l : LiteralId) :
      (s.retain l).slots = s.slots ∧ (s.retain l).freeIds = s.freeIds := by
    unfold Store.retain
    split <;> exact ⟨rfl, rfl⟩
  have hFresh (payload : Payload) := slots_addLiteral s payload
  cases obj with
  | nil => exact ⟨rfl, rfl⟩
  | number n => exact ⟨(hFresh _).1, (hFresh _).2.2⟩
  | function f => exact ⟨(hFresh _).1, (hFresh _).2.2⟩
  | array slots => exact ⟨(hFresh _).1, (hFresh _).2.2⟩
  | readOnly l =>
    obtain ⟨hSlots, hFree⟩ := slots_forgo (s.retain l) l
    exact ⟨hSlots.trans (hRetain l).1, hFree.trans (hRetain l).2⟩
  | writable id =>
    cases hTarget : s.target? id with
    | none =>
      rw [take_writable_none hTarget]
      exact ⟨rfl, rfl⟩
    | some l =>
      rw [take_writable hTarget]
      exact hRetain l

/-- Binding a slot that is there. -/
theorem bind_eq {id : SlotId} {slot : Slot} (hSlot : s.slot? id = some slot) (obj : Object) :
    s.bind id obj = (.ok (),
      ((s.take obj).2.setTarget id (s.take obj).1).release (handleOf slot.target)) := by
  -- what the object holds is taken first, and taking it moves no slot
  have hThere : (s.take obj).2.slot? id = some slot := by
    rw [slot?_of_eq (slots_take s obj).1]
    exact hSlot
  have hMade : s.materialize obj (s.request obj false) =
      (.ok (handleOf (s.take obj).1), (s.take obj).2) := by
    rw [materialize_request]
    cases (s.take obj).1 <;> rfl
  unfold Store.bind
  simp only [hMade, hThere]
  obtain ⟨previous⟩ := slot
  cases (s.take obj).1 <;> cases previous <;> rfl

/-- A writable handle on a new slot, when there is one left. -/
theorem materialize_writable_eq {id : SlotId} {t : Store} {obj : Object}
    (hEq : (s.take obj).2.allocate = (.ok id, t)) :
    s.materialize obj (s.request obj true) =
      (.ok (.writable id), t.setTarget id (s.take obj).1) := by
  rw [materialize_request]
  unfold Store.wrap
  simp only [if_true, hEq]

/-- Without a slot left nothing is made, and what was taken is given up. -/
theorem materialize_error_eq {e : Failure} {t : Store} {obj : Object}
    (hEq : (s.take obj).2.allocate = (.error e, t)) :
    s.materialize obj (s.request obj true) =
      (.error e, (s.take obj).2.release (handleOf (s.take obj).1)) := by
  rw [materialize_request]
  unfold Store.wrap
  simp only [if_true, hEq, allocate_error hEq]
  cases (s.take obj).1 <;> rfl

/-- A writable handle takes up a new slot, or fails and gives everything back. -/
theorem Keeps.carries_materialize {obj : Object} (hs : s.Keeps (obj ::ₘ objs)) :
    s.Carries (s.materialize obj (s.request obj true)).2 (objs.bind Object.owns) := by
  have hTaken := hs.carries_take.mono (owns_subset_cons obj objs)
  cases hAllocate : (s.take obj).2.allocate with
  | mk answer t =>
    -- whether there is a slot left
    cases answer with
    | ok id =>
      rw [materialize_writable_eq hAllocate]
      have hHandle := (keeps_handleOf_iff.1 hs.take).1
      obtain ⟨hMade, -⟩ := hHandle.allocate_ok hAllocate
      exact (hTaken.trans (hHandle.carries_allocate hAllocate)).trans (hMade.carries_setTarget _)
    | error e =>
      rw [materialize_error_eq hAllocate]
      exact hTaken.trans hs.take.carries_release

/-- An element is a handle on its slot, or one more holder of its literal. -/
theorem carries_element (s : Store) (id : SlotId) (writable : Bool) (loose : Multiset SlotId) :
    s.Carries (s.element id writable).2 loose := by
  unfold Store.element
  split
  · exact .refl s _
  · split
    · exact carries_retain s _ _
    · exact .refl s _

end Store

/-! ## Arrays -/

/-- To take the elements of an array carries everything. -/
theorem Machine.carries_elements (s : Store) (writable : Bool) (taken : List Object)
    (ids : List SlotId) (loose : Multiset SlotId) :
    s.Carries (elements s writable taken ids).2 loose := by
  induction ids generalizing s taken with
  | nil => exact .refl s loose
  | cons id ids ih => exact (Store.carries_element s id writable loose).trans (ih _ _)

/-- Giving objects slots of their own leaves what others hold, also when it fails. -/
theorem Machine.carries_slotsFor {s : Store} {objs : Multiset Object} {made : List SlotId}
    {given : List Object} (hs : s.Keeps (.array made ::ₘ (given + objs))) :
    s.Carries (slotsFor s made given).2 (objs.bind Object.owns) := by
  induction given generalizing s made with
  | nil => exact .refl s _
  | cons obj given ih =>
    have hNext := hs.given_cons
    have hSub : objs.bind Object.owns ⊆
        (.array made ::ₘ ((given : Multiset Object) + objs)).bind Object.owns := by
      rw [Multiset.cons_bind, Multiset.add_bind, ← add_assoc]
      exact Multiset.subset_of_le (Multiset.le_add_left _ _)
    have hCarries := hNext.carries_materialize.mono hSub
    unfold slotsFor
    cases hEq : s.materialize obj (s.request obj true) with
    | mk answer t =>
      rw [hEq] at hCarries
      cases answer with
      | ok handle => exact hCarries.trans (ih (hNext.materialize_among hEq))
      | error e =>
        -- the objects that are left are given up, and then the slots that were made
        have hLeft := hNext.materialize_error hEq
        rw [Store.keeps_array_iff, ← Multiset.coe_reverse made, ← Store.keeps_array_iff,
          ← Multiset.add_cons] at hLeft
        have hOwns : objs.bind Object.owns ⊆ (.array made.reverse ::ₘ objs).bind Object.owns :=
          Store.owns_subset_cons _ objs
        exact (hCarries.trans (hLeft.carries_releaseAll.mono hOwns)).trans
          hLeft.releaseAll.carries_release

end Reckon
