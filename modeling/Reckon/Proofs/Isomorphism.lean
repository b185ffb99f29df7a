import Reckon.Proofs.Matching
import Reckon.Proofs.Sweeping

/-!
# Isomorphic stores

Two stores are isomorphic when what can be reached from their names is the same but for the numbers:
there is a bijection between the slots and one between the literals, and they keep the names, what
slots point at, numbers, functions and the order of elements. What cannot be reached plays no part,
nor do the lists of numbers to be used again.

A matching that fits two stores says the same in a form that is easier to carry along a run, since
it may leave things out that can be reached no longer (`Matching.Isomorphism.between`,
`Matching.Between.isomorphic`). Copies of what it matches are equal, and it still fits when both
stores have been swept.
-/

namespace Reckon

namespace Matching

variable {r : Matching} {s s' t t' : Store} {handles handles' : Multiset LiteralId}
  {reclaimed reclaimed' : List LiteralId}

/-! ## Copies -/

/-- Literals that stand for each other lie on paths that do at the same places. -/
theorem Between.mem_path_iff (h : r.Between s t) {path path' : List LiteralId} {l l' : LiteralId}
    (hPath : List.Forall₂ r.literals path path') (hl : r.literals l l') :
    l ∈ path ↔ l' ∈ path' := by
  induction hPath with
  | nil => simp
  | @cons k k' _ _ hk _ ih =>
    -- the correspondence is one-to-one, so one is met where the other is
    have hEq : l = k ↔ l' = k' :=
      ⟨fun hSame => h.literalsUnique.2 hl (hSame ▸ hk),
        fun hSame => h.literalsUnique.1 hl (hSame ▸ hk)⟩
    rw [List.mem_cons, List.mem_cons, hEq, ih]

/-- Slots that point at the same have equal copies where literals do. -/
theorem snapshotSlots_eq {path path' : List LiteralId} {ids ids' : List SlotId}
    (hSlots : List.Forall₂ (r.SameTarget s t) ids ids')
    (hLiteral : ∀ id l l', id ∈ ids → s.target? id = some l → r.literals l l' →
      s.snapshotLiteral path l = t.snapshotLiteral path' l') :
    s.snapshotSlots path ids = t.snapshotSlots path' ids' := by
  induction hSlots with
  | nil => simp only [Store.snapshotSlots]
  | @cons id id' ids ids' hTarget _ ih =>
    have hRest := ih fun k l l' hk => hLiteral k l l' (List.mem_cons_of_mem _ hk)
    have hHead := hLiteral id
    unfold SameTarget at hTarget
    simp only [Store.snapshotSlots, hRest]
    generalize s.target? id = x at hTarget hHead
    generalize t.target? id' = y at hTarget
    -- the slots are both empty, or point at literals for which the copies are known to be equal
    cases hTarget with
    | none => rfl
    | some hl =>
      dsimp only
      rw [hHead _ _ (List.mem_cons_self ..) rfl hl]

/-- **Literals that stand for each other show the same**, whatever their numbers are. -/
theorem Between.snapshotLiteral (h : r.Between s t) {path path' : List LiteralId}
    (hPath : List.Forall₂ r.literals path path') {l l' : LiteralId} (hl : r.literals l l') :
    s.snapshotLiteral path l = t.snapshotLiteral path' l' := by
  by_cases hSeen : l ∈ path
  · -- both have been met on the way, so both copies end here
    rw [Store.snapshotLiteral_of_visited (List.contains_iff_mem.2 hSeen),
      Store.snapshotLiteral_of_visited
        (List.contains_iff_mem.2 ((h.mem_path_iff hPath hl).1 hSeen))]
  · have hSeen' : l' ∉ path' := fun hIn => hSeen ((h.mem_path_iff hPath hl).2 hIn)
    have hNew : path.contains l = false := by simpa using hSeen
    have hNew' : path'.contains l' = false := by simpa using hSeen'
    obtain ⟨p, p', hp, hp', hAlike⟩ := h.holds l l' hl
    obtain ⟨lit, hLive, -⟩ := Option.map_eq_some_iff.1 hp
    unfold Store.holds? at hp hp'
    rw [Store.snapshotLiteral_of_unvisited hNew, Store.snapshotLiteral_of_unvisited hNew', hp, hp']
    cases hAlike with
    | number n => rfl
    | function f => rfl
    | array hSlots =>
      -- there are fewer literals left that have not been met, which ends the recursion
      have hFewer := Store.unvisited_cons_lt hLive hNew
      have hTargets := hSlots.imp fun id id' hSlot => h.target id id' hSlot
      exact congrArg Value.array (snapshotSlots_eq hTargets fun _ k k' _ _ hk =>
        h.snapshotLiteral (.cons hl hPath) hk)
termination_by s.unvisited path

/-- Handles on literals that stand for each other show the same. -/
theorem Between.snapshot_handleOf (h : r.Between s t) {target target' : Option LiteralId}
    (hTarget : Option.Rel r.literals target target') :
    s.snapshot (Store.handleOf target) = t.snapshot (Store.handleOf target') := by
  cases hTarget with
  | none => rfl
  | some hl => exact h.snapshotLiteral .nil hl

/-! ## Parts of a matching -/

/-- A part of a one-to-one correspondence is one. -/
theorem biUnique_part {α β : Type} {R : α → β → Prop} (h : Relator.BiUnique R) (P : α → Prop)
    (Q : β → Prop) : Relator.BiUnique fun a b => R a b ∧ P a ∧ Q b :=
  ⟨fun _ _ _ ha hb => h.1 ha.1 hb.1, fun _ _ _ ha hb => h.2 ha.1 hb.1⟩

/-- Related values of which each has its property are related in the part. -/
theorem rel_part {α β : Type} {R : α → β → Prop} {P : α → Prop} {Q : β → Prop} {x : Option α}
    {y : Option β} (h : Option.Rel R x y) (hLeft : ∀ a, x = some a → P a)
    (hRight : ∀ b, y = some b → Q b) : Option.Rel (fun a b => R a b ∧ P a ∧ Q b) x y := by
  cases h with
  | none => exact .none
  | some hab => exact .some ⟨hab, hLeft _ rfl, hRight _ rfl⟩

/-- Payloads are alike by the slots of their elements, and so by a part that has all of these. -/
theorem payload_alike_part {R : SlotId → SlotId → Prop} {P Q : SlotId → Prop} {p p' : Payload}
    (h : p.Alike R p') (hLeft : ∀ id ∈ p.slots, P id) (hRight : ∀ id ∈ p'.slots, Q id) :
    p.Alike (fun id id' => R id id' ∧ P id ∧ Q id') p' := by
  cases h with
  | number n => exact .number n
  | function f => exact .function f
  | array hSlots =>
    exact .array (forall₂_imp_mem hSlots fun id hId id' hId' hSlot =>
      ⟨hSlot, hLeft id hId, hRight id' hId'⟩)

/-! ## Sweeps -/

/-- The part of a matching that is left in two stores. -/
def left (r : Matching) (s t : Store) : Matching where
  slots id id' := r.slots id id' ∧ (s.slot? id).isSome ∧ (t.slot? id').isSome
  literals l l' := r.literals l l' ∧ (s.literal? l).isSome ∧ (t.literal? l').isSome

/-- **A matching fits after the sweeps**, as far as its slots and literals are left. -/
theorem Between.swept (h : r.Between s t) (hLeft : s.Remains handles 0 reclaimed s')
    (hLeft' : t.Remains handles' 0 reclaimed' t') :
    (r.left s' t').Between s' t' := by
  -- what is left after a sweep is owned in the store that is left
  have hOwned {u u' : Store} {held : Multiset LiteralId} {gone : List LiteralId} {id : SlotId}
      (hu : u.Remains held 0 gone u') (hLive : (u'.slot? id).isSome) : ∃ o, u'.Owns id o :=
    (hu.balanced.slot?_isSome_iff.1 hLive).resolve_right (Multiset.notMem_zero id)
  have hThere {u u' : Store} {held : Multiset LiteralId} {gone : List LiteralId} {id : SlotId}
      {l : LiteralId} (hu : u.Remains held 0 gone u') (hLive : (u'.slot? id).isSome)
      (hTarget : u.target? id = some l) : (u'.literal? l).isSome := by
    rw [← hu.target? hLive] at hTarget
    exact Option.isSome_iff_exists.2 (hu.balanced.live_of_target? hTarget)
  refine ⟨biUnique_part h.slotsUnique _ _, biUnique_part h.literalsUnique _ _, ?_, ?_, ?_, ?_⟩
  · -- a slot that is left has an owner there
    rintro id id' ⟨-, hLive, hLive'⟩
    exact ⟨hOwned hLeft hLive, hOwned hLeft' hLive'⟩
  · -- a slot that is left points at a literal that is left
    rintro id id' ⟨hSlot, hLive, hLive'⟩
    unfold SameTarget
    rw [hLeft.target? hLive, hLeft'.target? hLive']
    exact rel_part (h.target id id' hSlot) (fun _ hl => hThere hLeft hLive hl)
      fun _ hl => hThere hLeft' hLive' hl
  · -- an array that is left has its elements
    rintro l l' ⟨hl, hLive, hLive'⟩
    obtain ⟨p, p', hp, hp', hAlike⟩ := h.holds l l' hl
    rw [← hLeft.holds? hLive] at hp
    rw [← hLeft'.holds? hLive'] at hp'
    exact ⟨p, p', hp, hp', payload_alike_part hAlike (fun _ hId => hLeft.slot?_of_holds? hp hId)
      fun _ hId => hLeft'.slot?_of_holds? hp' hId⟩
  · -- names keep their slots, and those are left
    intro name
    rw [hLeft.lookup, hLeft'.lookup]
    exact rel_part (h.names name) (fun _ hId => hLeft.slot?_of_lookup hId)
      fun _ hId => hLeft'.slot?_of_lookup hId

/-- What handles hold is left, so it is still matched. -/
theorem left_of_handles {target target' : Option LiteralId}
    (hTarget : Option.Rel r.literals target target')
    (hLeft : s.Remains (Store.handleOf target).counts 0 reclaimed s')
    (hLeft' : t.Remains (Store.handleOf target').counts 0 reclaimed' t') :
    Option.Rel (r.left s' t').literals target target' := by
  cases hTarget with
  | none => exact .none
  | some hl =>
    refine .some ⟨hl, hLeft.balanced.backed _ ?_, hLeft'.balanced.backed _ ?_⟩
    · exact Multiset.mem_add.2 (.inr (Multiset.mem_singleton_self _))
    · exact Multiset.mem_add.2 (.inr (Multiset.mem_singleton_self _))

end Matching

/-! ## Isomorphisms -/

/-- The slots and literals that can be reached from the names of two stores stand for each other,
one for one. -/
structure Matching.Isomorphism (r : Matching) (s t : Store) : Prop where
  slotsUnique : Relator.BiUnique r.slots
  literalsUnique : Relator.BiUnique r.literals
  /-- A slot is matched exactly if it can be reached from the names. -/
  slots : ∀ id, s.ReachesSlot (fun _ => False) id ↔ ∃ id', r.slots id id'
  slots' : ∀ id', t.ReachesSlot (fun _ => False) id' ↔ ∃ id, r.slots id id'
  /-- A literal is matched exactly if it can be reached from the names. -/
  literals : ∀ l, s.Reaches (fun _ => False) l ↔ ∃ l', r.literals l l'
  literals' : ∀ l', t.Reaches (fun _ => False) l' ↔ ∃ l, r.literals l l'
  names : ∀ name, Option.Rel r.slots (s.lookup name) (t.lookup name)
  target : ∀ id id', r.slots id id' → Option.Rel r.literals (s.target? id) (t.target? id')
  payload : ∀ l l', r.literals l l' → Option.Rel (Payload.Alike r.slots) (s.holds? l) (t.holds? l')

/-- What can be reached from the names of the two stores is the same but for the numbers. -/
def Store.Isomorphic (s t : Store) : Prop := ∃ r : Matching, r.Isomorphism s t

/-- What can be reached from the names is there. -/
theorem Store.Balanced.exists_holds {s : Store} {handles : Multiset LiteralId}
    {loose : Multiset SlotId} {l : LiteralId} (hs : s.Balanced handles loose)
    (hReaches : s.Reaches (fun _ => False) l) : ∃ payload, s.holds? l = some payload := by
  have hLive : ∀ id, s.target? id = some l → ∃ payload, s.holds? l = some payload := by
    intro id hTarget
    obtain ⟨lit, hl⟩ := hs.live_of_target? hTarget
    exact ⟨lit.payload, by rw [Store.holds?, hl]; rfl⟩
  cases hReaches with
  | hand hHand => exact hHand.elim
  | name _ hTarget => exact hLive _ hTarget
  | element _ hPoints =>
    -- an array points at what is there
    obtain ⟨_, _, id, _, hTarget⟩ := hPoints
    exact hLive id hTarget

namespace Matching

variable {r : Matching} {s t : Store} {handles handles' : Multiset LiteralId}
  {loose loose' : Multiset SlotId}

/-- What is related to something is something. -/
theorem exists_of_rel {α β : Type} {R : α → β → Prop} {x : Option α} {y : Option β} {a : α}
    (h : Option.Rel R x y) (hx : x = some a) : ∃ b, y = some b ∧ R a b := by
  subst hx
  cases h with
  | some hab => exact ⟨_, rfl, hab⟩

/-- An isomorphism fits the stores. -/
theorem Isomorphism.between (h : r.Isomorphism s t) (hs : s.Balanced handles loose) :
    r.Between s t where
  slotsUnique := h.slotsUnique
  literalsUnique := h.literalsUnique
  owned id id' hSlot := by
    have hReaches := (h.slots id).2 ⟨id', hSlot⟩
    have hReaches' := (h.slots' id').2 ⟨id, hSlot⟩
    exact ⟨hReaches.exists_owner, hReaches'.exists_owner⟩
  target := h.target
  holds l l' hl := by
    obtain ⟨p, hp⟩ := hs.exists_holds ((h.literals l).2 ⟨l', hl⟩)
    obtain ⟨p', hp', hAlike⟩ := exists_of_rel (h.payload l l' hl) hp
    exact ⟨p, p', hp, hp', hAlike⟩
  names := h.names

/-- Slots of payloads that are alike have counterparts. -/
theorem exists_slot_of_payload {p p' : Payload} (h : p.Alike r.slots p') {id : SlotId}
    (hId : id ∈ p.slots) : ∃ id' ∈ p'.slots, r.slots id id' := by
  cases h with
  | number n => cases hId
  | function f => cases hId
  | @array ids ids' hSlots =>
    obtain ⟨i, hi⟩ : ∃ i, ids[i]? = some id := List.mem_iff_getElem?.1 hId
    obtain ⟨id', hFound, hSlot⟩ := exists_of_rel (rel_getElem? hSlots i) hi
    -- elements correspond by their positions
    exact ⟨id', List.mem_of_getElem? hFound, hSlot⟩

/-- The counterparts of what can be reached can be reached. -/
theorem Between.reaches (h : r.Between s t) {l : LiteralId}
    (hReaches : s.Reaches (fun _ => False) l) :
    ∃ l', r.literals l l' ∧ t.Reaches (fun _ => False) l' := by
  induction hReaches with
  | hand hHand => exact hHand.elim
  -- reached from a name: the other store has the name, too
  | @name name id l hName hPoints =>
    obtain ⟨id', hName', hSlot⟩ := exists_of_rel (h.names name) hName
    obtain ⟨l', hPoints', hl⟩ := exists_of_rel (h.target id id' hSlot) hPoints
    exact ⟨l', hl, .name hName' hPoints'⟩
  -- reached from an array: its counterpart has an element at the same position
  | @element k l _ hPoints ih =>
    obtain ⟨k', hk, hReaches'⟩ := ih
    obtain ⟨lit, hLit, id, hId, hSlotPoints⟩ := hPoints
    obtain ⟨p, p', hp, hp', hAlike⟩ := h.holds k k' hk
    obtain ⟨lit', hLit', rfl⟩ := Option.map_eq_some_iff.1 hp'
    have hSame : p = lit.payload := by
      rw [Store.holds?, hLit] at hp
      exact (Option.some.inj hp).symm
    obtain ⟨id', hId', hSlot⟩ := exists_slot_of_payload hAlike (hSame ▸ hId)
    obtain ⟨l', hPoints', hl⟩ := exists_of_rel (h.target id id' hSlot) hSlotPoints
    exact ⟨l', hl, .element hReaches' ⟨lit', hLit', id', hId', hPoints'⟩⟩

/-- The counterparts of slots that can be reached can be reached. -/
theorem Between.reachesSlot (h : r.Between s t) {id : SlotId}
    (hReaches : s.ReachesSlot (fun _ => False) id) :
    ∃ id', r.slots id id' ∧ t.ReachesSlot (fun _ => False) id' := by
  rcases hReaches with ⟨name, hName⟩ | ⟨l, lit, hReached, hLit, hId⟩
  · obtain ⟨id', hName', hSlot⟩ := exists_of_rel (h.names name) hName
    exact ⟨id', hSlot, .inl ⟨name, hName'⟩⟩
  · obtain ⟨l', hl, hReached'⟩ := h.reaches hReached
    obtain ⟨p, p', hp, hp', hAlike⟩ := h.holds l l' hl
    obtain ⟨lit', hLit', rfl⟩ := Option.map_eq_some_iff.1 hp'
    rw [Store.holds?, hLit, Option.map_some, Option.some.injEq] at hp
    obtain ⟨id', hId', hSlot⟩ := exists_slot_of_payload hAlike (hp ▸ hId)
    exact ⟨id', hSlot, .inr ⟨l', lit', hReached', hLit', hId'⟩⟩

/-- The part of a matching that can be reached from the names. -/
def reached (r : Matching) (s t : Store) : Matching where
  slots id id' := r.slots id id' ∧ s.ReachesSlot (fun _ => False) id ∧
    t.ReachesSlot (fun _ => False) id'
  literals l l' := r.literals l l' ∧ s.Reaches (fun _ => False) l ∧ t.Reaches (fun _ => False) l'

/-- **Stores between which a matching fits are isomorphic.** -/
theorem Between.isomorphic (h : r.Between s t) : s.Isomorphic t := by
  refine ⟨r.reached s t, biUnique_part h.slotsUnique _ _, biUnique_part h.literalsUnique _ _,
    ?_, ?_, ?_, ?_, ?_, ?_, ?_⟩
  · -- what can be reached in one store has a counterpart which can be reached, either way
    refine fun id => ⟨fun hReached => ?_, fun ⟨_, hSlot⟩ => hSlot.2.1⟩
    obtain ⟨id', hSlot, hReached'⟩ := h.reachesSlot hReached
    exact ⟨id', hSlot, hReached, hReached'⟩
  · refine fun id' => ⟨fun hReached' => ?_, fun ⟨_, hSlot⟩ => hSlot.2.2⟩
    obtain ⟨id, hSlot, hReached⟩ := h.flip.reachesSlot hReached'
    exact ⟨id, hSlot, hReached, hReached'⟩
  · refine fun l => ⟨fun hReached => ?_, fun ⟨_, hl⟩ => hl.2.1⟩
    obtain ⟨l', hl, hReached'⟩ := h.reaches hReached
    exact ⟨l', hl, hReached, hReached'⟩
  · refine fun l' => ⟨fun hReached' => ?_, fun ⟨_, hl⟩ => hl.2.2⟩
    obtain ⟨l, hl, hReached⟩ := h.flip.reaches hReached'
    exact ⟨l, hl, hReached, hReached'⟩
  · intro name
    exact rel_part (h.names name) (fun _ hName => .inl ⟨name, hName⟩)
      fun _ hName => .inl ⟨name, hName⟩
  · rintro id id' ⟨hSlot, hReached, hReached'⟩
    exact rel_part (h.target id id' hSlot) (fun _ hPoints => hReached.target hPoints)
      fun _ hPoints => hReached'.target hPoints
  · -- the elements of an array that can be reached can be reached
    rintro l l' ⟨hl, hReached, hReached'⟩
    obtain ⟨p, p', hp, hp', hAlike⟩ := h.holds l l' hl
    obtain ⟨lit, hLit, rfl⟩ := Option.map_eq_some_iff.1 hp
    obtain ⟨lit', hLit', rfl⟩ := Option.map_eq_some_iff.1 hp'
    rw [hp, hp']
    exact .some (payload_alike_part hAlike (fun _ hId => .inr ⟨l, lit, hReached, hLit, hId⟩)
      fun _ hId => .inr ⟨l', lit', hReached', hLit', hId⟩)

end Matching

end Reckon
