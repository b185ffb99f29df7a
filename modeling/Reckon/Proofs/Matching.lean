import Reckon.Proofs.Persistence

/-!
# Stores that are alike

Two stores may keep the same things under other numbers. A `Matching` says which slots and which
literals of two stores stand for each other, and `Matching.Between` that it fits them: names have
slots that stand for each other, such slots point at literals that do, and such literals hold the
same numbers and functions, or arrays of slots that stand for each other. Slots that nothing owns
in the store are left out, and so is everything that is not in use.

What the two stores do not agree on makes no difference. Every operation on objects that are alike
gives alike objects, and stores between which a larger matching fits, since what the operation makes
is matched as well.
-/

namespace Reckon

/-- Which slots and which literals of two stores stand for each other. -/
structure Matching where
  slots : SlotId → SlotId → Prop
  literals : LiteralId → LiteralId → Prop

/-- The second matching has all that the first one has. -/
instance : LE Matching where
  le r r' := (∀ id id', r.slots id id' → r'.slots id id') ∧
    ∀ l l', r.literals l l' → r'.literals l l'

/-- The same number, the same function, or arrays of slots that are related. -/
inductive Payload.Alike (R : SlotId → SlotId → Prop) : Payload → Payload → Prop
  | number (n : Number) : Alike R (.number n) (.number n)
  | function (f : Function) : Alike R (.function f) (.function f)
  | array {ids ids' : List SlotId} (hSlots : List.Forall₂ R ids ids') :
      Alike R (.array ids) (.array ids')

namespace Matching

variable {r r' r'' : Matching} {s s' t t' : Store}

theorem le_refl (r : Matching) : r ≤ r := ⟨fun _ _ h => h, fun _ _ h => h⟩

theorem le_trans (hFirst : r ≤ r') (hSecond : r' ≤ r'') : r ≤ r'' :=
  ⟨fun id id' h => hSecond.1 id id' (hFirst.1 id id' h),
    fun l l' h => hSecond.2 l l' (hFirst.2 l l' h)⟩

/-- Two slots point at literals that stand for each other, or at nothing. -/
def SameTarget (r : Matching) (s t : Store) (id id' : SlotId) : Prop :=
  Option.Rel r.literals (s.target? id) (t.target? id')

/-- The matching fits the stores. -/
structure Between (r : Matching) (s t : Store) : Prop where
  slotsUnique : Relator.BiUnique r.slots
  literalsUnique : Relator.BiUnique r.literals
  /-- Only slots of names and of arrays in literals are matched. -/
  owned : ∀ id id', r.slots id id' → (∃ o, s.Owns id o) ∧ ∃ o, t.Owns id' o
  target : ∀ id id', r.slots id id' → r.SameTarget s t id id'
  holds : ∀ l l', r.literals l l' → ∃ payload payload', s.holds? l = some payload ∧
    t.holds? l' = some payload' ∧ payload.Alike r.slots payload'
  names : ∀ name, Option.Rel r.slots (s.lookup name) (t.lookup name)

end Matching

/-- Options that are related by less are related by more. -/
theorem rel_mono {α β : Type} {R R' : α → β → Prop} (h : ∀ a b, R a b → R' a b)
    {x : Option α} {y : Option β} (hxy : Option.Rel R x y) : Option.Rel R' x y := by
  cases hxy with
  | some hab => exact .some (h _ _ hab)
  | none => exact .none

/-- Lookups that go on from related places in related ways end in related places. -/
theorem rel_bind {α α' β β' : Type} {R : α → β → Prop} {R' : α' → β' → Prop} {f : α → Option α'}
    {g : β → Option β'} {x : Option α} {y : Option β} (hxy : Option.Rel R x y)
    (h : ∀ a b, R a b → Option.Rel R' (f a) (g b)) : Option.Rel R' (x.bind f) (y.bind g) := by
  cases hxy with
  | some hab => exact h _ _ hab
  | none => exact .none

/-- Related lists have related items at every index. -/
theorem rel_getElem? {α β : Type} {R : α → β → Prop} {xs : List α} {ys : List β}
    (h : List.Forall₂ R xs ys) (i : Nat) : Option.Rel R xs[i]? ys[i]? := by
  induction h generalizing i with
  | nil => exact .none
  | cons hHead _ ih =>
    cases i with
    | zero => exact .some hHead
    | succ i => exact ih i

/-- Payloads that are alike stay so when more slots are related. -/
theorem Payload.Alike.mono {R R' : SlotId → SlotId → Prop} (h : ∀ id id', R id id' → R' id id')
    {p p' : Payload} (hp : p.Alike R p') : p.Alike R' p' := by
  cases hp with
  | number n => exact .number n
  | function f => exact .function f
  | array hSlots => exact .array (hSlots.imp h)

/-- Objects that stand for each other. The slots of an array that is in no literal yet point at
literals that do. -/
inductive Object.Alike (r : Matching) (s t : Store) : Object → Object → Prop
  | nil : Alike r s t .nil .nil
  | number (n : Number) : Alike r s t (.number n) (.number n)
  | function (f : Function) : Alike r s t (.function f) (.function f)
  | array {ids ids' : List SlotId} (hSlots : List.Forall₂ (r.SameTarget s t) ids ids') :
      Alike r s t (.array ids) (.array ids')
  | readOnly {l l' : LiteralId} (hLiteral : r.literals l l') :
      Alike r s t (.readOnly l) (.readOnly l')
  | writable {id id' : SlotId} (hSlot : r.slots id id') : Alike r s t (.writable id) (.writable id')

namespace Matching

variable {r r' : Matching} {s s' t t' : Store}

/-! ## Turning around -/

/-- The matching the other way round. -/
def flip (r : Matching) : Matching where
  slots id id' := r.slots id' id
  literals l l' := r.literals l' l

/-- Relating options works both ways round. -/
theorem rel_flip {α β : Type} {R : α → β → Prop} {x : Option α} {y : Option β}
    (h : Option.Rel R x y) : Option.Rel (fun b a => R a b) y x := by
  cases h with
  | some hab => exact .some hab
  | none => exact .none

/-- Likeness of payloads works both ways round. -/
theorem payload_alike_flip {R : SlotId → SlotId → Prop} {p p' : Payload} (h : p.Alike R p') :
    p'.Alike (fun id' id => R id id') p := by
  cases h with
  | number n => exact .number n
  | function f => exact .function f
  | array hSlots => exact .array hSlots.flip

/-- A matching that fits two stores fits them the other way round. -/
theorem Between.flip (h : r.Between s t) : r.flip.Between t s where
  slotsUnique :=
    -- each half of the uniqueness is the other half of what it was
    ⟨fun _ _ _ ha hb => h.slotsUnique.2 ha hb, fun _ _ _ ha hb => h.slotsUnique.1 ha hb⟩
  literalsUnique :=
    ⟨fun _ _ _ ha hb => h.literalsUnique.2 ha hb, fun _ _ _ ha hb => h.literalsUnique.1 ha hb⟩
  owned id id' hSlot := (h.owned id' id hSlot).symm
  target id id' hSlot := rel_flip (h.target id' id hSlot)
  holds l l' hl := by
    obtain ⟨p, p', hp, hp', hAlike⟩ := h.holds l' l hl
    exact ⟨p', p, hp', hp, payload_alike_flip hAlike⟩
  names name := rel_flip (h.names name)

/-! ## What stays -/

/-- Slots that point at the same still do when more is matched, and when neither of them has
moved. -/
theorem SameTarget.mono (hr : r ≤ r') {id id' : SlotId} (h : r.SameTarget s t id id')
    (hs : s'.target? id = s.target? id) (ht : t'.target? id' = t.target? id') :
    r'.SameTarget s' t' id id' := by
  unfold SameTarget
  rw [hs, ht]
  exact rel_mono hr.2 h

/-- The matching still fits when what is in use stays. -/
theorem Between.carry {loose loose' : Multiset SlotId} (h : r.Between s t)
    (hs : s.Carries s' loose) (ht : t.Carries t' loose') : r.Between s' t' where
  slotsUnique := h.slotsUnique
  literalsUnique := h.literalsUnique
  -- ownership, targets and payloads stay, each in its own store
  owned id id' hSlot := by
    obtain ⟨⟨o, ho⟩, ⟨o', ho'⟩⟩ := h.owned id id' hSlot
    exact ⟨⟨o, hs.owns ho⟩, ⟨o', ht.owns ho'⟩⟩
  target id id' hSlot := by
    obtain ⟨hOwned, hOwned'⟩ := h.owned id id' hSlot
    exact (h.target id id' hSlot).mono (le_refl r) (hs.target id (.inl hOwned))
      (ht.target id' (.inl hOwned'))
  holds l l' hl := by
    obtain ⟨p, p', hp, hp', hAlike⟩ := h.holds l l' hl
    exact ⟨p, p', hs.holds l p hp, ht.holds l' p' hp', hAlike⟩
  names name := by
    rw [hs.lookup, ht.lookup]
    exact h.names name

end Matching

open Matching

/-- A relation between lists may be replaced for the items that the lists have. -/
theorem forall₂_imp_mem {α β : Type} {R R' : α → β → Prop} {xs : List α} {ys : List β}
    (hxy : List.Forall₂ R xs ys) (h : ∀ x ∈ xs, ∀ y ∈ ys, R x y → R' x y) :
    List.Forall₂ R' xs ys := by
  rw [List.forall₂_iff_zip] at hxy ⊢
  refine ⟨hxy.1, fun {x y} hMem => ?_⟩
  obtain ⟨hx, hy⟩ := List.of_mem_zip hMem
  exact h x hx y hy (hxy.2 hMem)

/-- Objects stay alike when their own slots point where they did. -/
theorem Object.Alike.mono {r r' : Matching} {s s' t t' : Store} {obj obj' : Object}
    (h : obj.Alike r s t obj') (hr : r ≤ r') (hs : ∀ id ∈ obj.owns, s'.target? id = s.target? id)
    (ht : ∀ id ∈ obj'.owns, t'.target? id = t.target? id) : obj.Alike r' s' t' obj' := by
  cases h with
  | nil => exact .nil
  | number n => exact .number n
  | function f => exact .function f
  -- the slots of an array in hand are not matched, so they have to stay where they point
  | array hSlots =>
    exact .array (forall₂_imp_mem hSlots fun id hId id' hId' hSame =>
      hSame.mono hr (hs id (Multiset.mem_coe.2 hId)) (ht id' (Multiset.mem_coe.2 hId')))
  | readOnly hLiteral => exact .readOnly (hr.2 _ _ hLiteral)
  | writable hSlot => exact .writable (hr.1 _ _ hSlot)

/-- Both stores have moved on: a larger matching fits them now, and objects in hand that were alike
are still. -/
structure Matching.Advance (r : Matching) (s t : Store) (objs objs' : Multiset Object)
    (r' : Matching) (s' t' : Store) : Prop where
  le : r ≤ r'
  between : r'.Between s' t'
  alike : ∀ obj ∈ objs, ∀ obj' ∈ objs', obj.Alike r s t obj' → obj.Alike r' s' t' obj'

namespace Matching

variable {r r' r'' : Matching} {s s' s'' t t' t'' : Store} {objs objs' : Multiset Object}

/-- Two advances make one. -/
theorem Advance.trans (hFirst : r.Advance s t objs objs' r' s' t')
    (hSecond : r'.Advance s' t' objs objs' r'' s'' t'') :
    r.Advance s t objs objs' r'' s'' t'' where
  le := le_trans hFirst.le hSecond.le
  between := hSecond.between
  alike obj hObj obj' hObj' h :=
    hSecond.alike obj hObj obj' hObj' (hFirst.alike obj hObj obj' hObj' h)

theorem Advance.subset {rest rest' : Multiset Object} (h : r.Advance s t objs objs' r' s' t')
    (hSub : rest ⊆ objs) (hSub' : rest' ⊆ objs') : r.Advance s t rest rest' r' s' t' :=
  ⟨h.le, h.between, fun obj hObj obj' hObj' => h.alike obj (hSub hObj) obj' (hSub' hObj')⟩

/-- A larger matching for stores in which slots in hand point where they did. -/
theorem Between.advance (h : r'.Between s' t') (hr : r ≤ r')
    (hs : ∀ id ∈ objs.bind Object.owns, s'.target? id = s.target? id)
    (ht : ∀ id ∈ objs'.bind Object.owns, t'.target? id = t.target? id) :
    r.Advance s t objs objs' r' s' t' :=
  ⟨hr, h, fun obj hObj obj' hObj' hAlike => hAlike.mono hr
    (fun id hId => hs id (Multiset.mem_bind.2 ⟨obj, hObj, hId⟩))
    fun id hId => ht id (Multiset.mem_bind.2 ⟨obj', hObj', hId⟩)⟩

/-- Nothing that is in use has changed. -/
theorem Between.carried (h : r.Between s t) (hs : s.Carries s' (objs.bind Object.owns))
    (ht : t.Carries t' (objs'.bind Object.owns)) : r.Advance s t objs objs' r s' t' :=
  (h.carry hs ht).advance (le_refl r) (fun id hId => hs.target id (.inr hId))
    fun id hId => ht.target id (.inr hId)

end Matching

namespace Matching

variable {r r' : Matching} {s s' t t' : Store} {obj obj' : Object}

/-! ## What objects turn out to be -/

/-- What a writable handle holds is what the target of its slot holds. -/
theorem payload?_writable (s : Store) (id : SlotId) :
    s.payload? (.writable id) = (s.target? id).bind s.holds? :=
  Option.map_bind

/-- Objects that are alike hold the same, with related slots in arrays: those of an array in a
literal are matched, and those of any other array are related one by one. -/
theorem Between.payload?_of {R : SlotId → SlotId → Prop} (h : r.Between s t)
    (hObj : obj.Alike r s t obj') (hSlots : ∀ id id', r.slots id id' → R id id')
    (hArray : ∀ ids ids', obj = .array ids → obj' = .array ids' → List.Forall₂ R ids ids') :
    Option.Rel (Payload.Alike R) (s.payload? obj) (t.payload? obj') := by
  -- what is in literals that stand for each other is alike with the slots that are matched
  have hLiteral (l l' : LiteralId) (hl : r.literals l l') :
      Option.Rel (Payload.Alike R) (s.holds? l) (t.holds? l') := by
    obtain ⟨p, p', hp, hp', hAlike⟩ := h.holds l l' hl
    rw [hp, hp']
    exact .some (hAlike.mono hSlots)
  cases hObj with
  | nil => exact .none
  | number n => exact .some (.number n)
  | function f => exact .some (.function f)
  | array _ => exact .some (.array (hArray _ _ rfl rfl))
  | @readOnly l l' hl => exact hLiteral l l' hl
  | @writable id id' hSlot =>
    -- a slot may point at nothing, and then the other one does so too
    rw [payload?_writable, payload?_writable]
    exact rel_bind (h.target id id' hSlot) hLiteral

/-- The elements of what objects hold point at the same. -/
theorem Between.payload? (h : r.Between s t) (hObj : obj.Alike r s t obj') :
    Option.Rel (Payload.Alike (r.SameTarget s t)) (s.payload? obj) (t.payload? obj') := by
  refine h.payload?_of hObj h.target fun ids ids' hIds hIds' => ?_
  subst hIds hIds'
  cases hObj with
  | array hSlots => exact hSlots

/-- Elements that point at the same, and are matched where handles on their slots can be had. -/
def SameElement (r : Matching) (s t : Store) (writable : Bool) (id id' : SlotId) : Prop :=
  r.SameTarget s t id id' ∧ (writable = true → r.slots id id')

/-- Arrays of the same elements, reached in the same way. -/
structure SameArray (r : Matching) (s t : Store) (found found' : List SlotId × Bool) : Prop where
  elements : List.Forall₂ (r.SameElement s t found.2) found.1 found'.1
  isWritable : found.2 = found'.2

/-- Where an object is an array, so is one that is alike, with the same elements reached in the same
way. -/
theorem Between.array? (h : r.Between s t) (hObj : obj.Alike r s t obj') :
    Option.Rel (r.SameArray s t) (s.array? obj) (t.array? obj') := by
  have hPayload := h.payload? hObj
  have hWritable : obj.isWritable = obj'.isWritable := by cases hObj <;> rfl
  -- what a writable handle leads to is in a literal, so its elements are matched
  have hMatched : obj.isWritable = true →
      Option.Rel (Payload.Alike r.slots) (s.payload? obj) (t.payload? obj') := by
    intro hIs
    refine h.payload?_of hObj (fun _ _ hSlot => hSlot) fun ids _ hIds _ => ?_
    rw [hIds] at hIs
    cases hIs
  unfold Store.array?
  generalize s.payload? obj = x at hPayload hMatched ⊢
  generalize t.payload? obj' = y at hPayload hMatched ⊢
  cases hPayload with
  | none => exact .none
  | some hAlike =>
    cases hAlike with
    | number n => exact .none
    | function f => exact .none
    | array hTargets =>
      refine .some ⟨?_, hWritable⟩
      -- by a writable handle the elements are reached by their slots, otherwise by their values
      by_cases hIs : obj.isWritable = true
      · cases hMatched hIs with
        | some hSame =>
          cases hSame with
          | array hSlots => exact hSlots.imp fun _ _ hSlot => ⟨h.target _ _ hSlot, fun _ => hSlot⟩
      · exact hTargets.imp fun _ _ hTarget => ⟨hTarget, fun hNot => absurd hNot hIs⟩

/-- Elements of arrays that are alike are alike, in whatever stores. -/
theorem SameElement.element {id id' : SlotId} {writable : Bool}
    (h : r.SameElement s t writable id id') :
    (s.element id writable).1.Alike r s' t' (t.element id' writable).1 := by
  obtain ⟨hTarget, hSlot⟩ := h
  unfold Store.element
  by_cases hWritable : writable = true
  · rw [if_pos hWritable, if_pos hWritable]
    exact .writable (hSlot hWritable)
  · rw [if_neg hWritable, if_neg hWritable]
    unfold SameTarget at hTarget
    generalize s.target? id = x at hTarget ⊢
    generalize t.target? id' = y at hTarget ⊢
    cases hTarget with
    | none => exact .nil
    | some hLiteral => exact .readOnly hLiteral

end Matching

end Reckon
