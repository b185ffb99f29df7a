import Reckon.Machine
import Reckon.Proofs.Owners

/-!
# What objects take care of

An object owns the slots of an array that is in no literal yet, and a read-only handle counts on its
literal. `Store.Keeps s objs` says that the books of the store balance when exactly the objects
`objs` are in somebody's hands. Every operation that takes objects over, hands objects out or gives
them up keeps the books.
-/

namespace Reckon

namespace Object

/-- The literals that an object counts on. -/
def counts : Object → Multiset LiteralId
  | readOnly l => {l}
  | _ => 0

/-- The slots that an object owns. -/
def owns : Object → Multiset SlotId
  | array slots => slots
  | _ => 0

/-- An object that is in nobody's care: it counts on nothing, owns nothing, and names no slot that
cannot be there. -/
structure Plain (obj : Object) : Prop where
  counts : obj.counts = 0
  owns : obj.owns = 0
  named : obj ≠ .writable 0

theorem plain_nil : Plain .nil := ⟨rfl, rfl, by simp⟩

theorem plain_number (n : Number) : Plain (.number n) := ⟨rfl, rfl, by simp⟩

/-- A handle on a slot is in nobody's care: it owns nothing, and the slot does not count it. -/
theorem plain_writable {id : SlotId} (h : 0 < id) : Plain (.writable id) :=
  ⟨rfl, rfl, by simpa using Nat.ne_of_gt h⟩

end Object

namespace Store

/-- The books balance with these objects held outside the store. No handle names number 0. -/
structure Keeps (s : Store) (objs : Multiset Object) : Prop where
  balanced : s.Balanced (objs.bind Object.counts) (objs.bind Object.owns)
  named : ∀ obj ∈ objs, obj ≠ .writable 0

variable {s : Store} {objs : Multiset Object}

/-- The books of an empty store balance with nothing in hand. -/
theorem keeps_empty (entropy : Entropy) : (empty entropy).Keeps 0 := by
  refine ⟨?_, by simp⟩
  simpa using balanced_empty entropy

/-- Only what the objects count on and own matters. -/
theorem Keeps.of_eq {objs' : Multiset Object} (hs : s.Keeps objs)
    (hCounts : objs'.bind Object.counts = objs.bind Object.counts)
    (hOwns : objs'.bind Object.owns = objs.bind Object.owns)
    (hNamed : ∀ obj ∈ objs', obj ≠ .writable 0) : s.Keeps objs' := by
  refine ⟨?_, hNamed⟩
  rw [hCounts, hOwns]
  exact hs.balanced

/-- An object that is in nobody's care may be in hand or not. -/
theorem Keeps.cons {obj : Object} (hs : s.Keeps objs) (hObj : obj.Plain) :
    s.Keeps (obj ::ₘ objs) := by
  refine hs.of_eq ?_ ?_ ?_
  · rw [Multiset.cons_bind, hObj.counts, zero_add]
  · rw [Multiset.cons_bind, hObj.owns, zero_add]
  · intro x hx
    rcases Multiset.mem_cons.1 hx with rfl | hx
    · exact hObj.named
    · exact hs.named x hx

/-- The store has changed, but not in anything that the books are about. -/
theorem Keeps.withEntropy (hs : s.Keeps objs) (entropy : Entropy) :
    Keeps { s with entropy } objs :=
  ⟨⟨hs.balanced.counted, hs.balanced.backed, hs.balanced.single, hs.balanced.queued,
    hs.balanced.vacant, hs.balanced.free, hs.balanced.zero, hs.balanced.names,
    hs.balanced.solvent⟩, hs.named⟩

/-! ## Giving objects up -/

/-- The slots of an array in hand are owned from outside. -/
theorem keeps_array_iff {slots : List SlotId} :
    s.Keeps (.array slots ::ₘ objs) ↔
      s.Balanced (objs.bind Object.counts) (slots + objs.bind Object.owns) ∧
        ∀ obj ∈ objs, obj ≠ .writable 0 := by
  have hCounts : (Object.array slots).counts = 0 := rfl
  have hOwns : (Object.array slots).owns = slots := rfl
  constructor
  · intro hs
    have hBalanced := hs.balanced
    rw [Multiset.cons_bind, Multiset.cons_bind, hCounts, hOwns, zero_add] at hBalanced
    exact ⟨hBalanced, fun obj hObj => hs.named obj (Multiset.mem_cons_of_mem hObj)⟩
  · rintro ⟨hBalanced, hNamed⟩
    refine ⟨?_, ?_⟩
    · rwa [Multiset.cons_bind, Multiset.cons_bind, hCounts, hOwns, zero_add]
    · intro obj hObj
      rcases Multiset.mem_cons.1 hObj with rfl | hObj
      · simp
      · exact hNamed obj hObj

/-- Giving an object up takes it out of hand. -/
theorem Keeps.release {obj : Object} (hs : s.Keeps (obj ::ₘ objs)) :
    (s.release obj).Keeps objs := by
  have hBalanced := hs.balanced
  rw [Multiset.cons_bind, Multiset.cons_bind] at hBalanced
  refine ⟨?_, fun x hx => hs.named x (Multiset.mem_cons_of_mem hx)⟩
  -- an array gives up its slots and a read-only handle its literal; the others have nothing to give
  cases obj with
  | array slots => exact (keeps_array_iff.1 hs).1.freeSlots
  | readOnly l =>
    have hHandle : s.Balanced (l ::ₘ objs.bind Object.counts) (objs.bind Object.owns) := by
      simpa [Object.counts, Object.owns] using hBalanced
    exact hHandle.forgo
  | _ => simpa [Object.counts, Object.owns, Store.release] using hBalanced

/-- The same for many objects. -/
theorem Keeps.releaseAll {given : List Object} (hs : s.Keeps (given + objs)) :
    (s.releaseAll given).Keeps objs := by
  unfold Store.releaseAll
  -- induction on the objects, with the store left open
  induction given generalizing s with
  | nil => simpa using hs
  | cons obj given ih =>
    rw [← Multiset.cons_coe, Multiset.cons_add] at hs
    exact ih hs.release

/-! ## Handles -/

/-- A handle that counts on the literal, if there is one. -/
def handleOf : Option LiteralId → Object
  | some l => .readOnly l
  | none => .nil

/-- The handle counts on the literal that it is for. -/
theorem counts_handleOf (target : Option LiteralId) :
    (handleOf target).counts = (target.toList : Multiset LiteralId) := by
  cases target <;> rfl

theorem owns_handleOf (target : Option LiteralId) : (handleOf target).owns = 0 := by
  cases target <;> rfl

/-- The handle is none on a slot. -/
theorem handleOf_ne (target : Option LiteralId) (id : SlotId) : handleOf target ≠ .writable id := by
  cases target <;> simp [handleOf]

/-- The books in terms of a handle that is about to go into a slot. -/
theorem keeps_handleOf_iff {target : Option LiteralId} :
    s.Keeps (handleOf target ::ₘ objs) ↔
      s.Balanced (target.toList + objs.bind Object.counts) (objs.bind Object.owns) ∧
        ∀ obj ∈ objs, obj ≠ .writable 0 := by
  constructor
  · intro hs
    have hBalanced := hs.balanced
    rw [Multiset.cons_bind, Multiset.cons_bind, counts_handleOf, owns_handleOf, zero_add]
      at hBalanced
    exact ⟨hBalanced, fun obj hObj => hs.named obj (Multiset.mem_cons_of_mem hObj)⟩
  · rintro ⟨hBalanced, hNamed⟩
    refine ⟨?_, ?_⟩
    · rwa [Multiset.cons_bind, Multiset.cons_bind, counts_handleOf, owns_handleOf, zero_add]
    · intro obj hObj
      rcases Multiset.mem_cons.1 hObj with rfl | hObj
      · exact handleOf_ne target 0
      · exact hNamed obj hObj

/-- A literal with what an object holds, which is counted on already. The object is given up: a
plain value goes into a new literal, and a handle shares the literal that it is on. -/
def take (s : Store) : Object → Option LiteralId × Store
  | .nil => (none, s)
  | .number n => (some (s.addLiteral (.number n)).1, (s.addLiteral (.number n)).2)
  | .function f => (some (s.addLiteral (.function f)).1, (s.addLiteral (.function f)).2)
  | .array slots => (some (s.addLiteral (.array slots)).1, (s.addLiteral (.array slots)).2)
  | .readOnly l => (some l, (s.retain l).forgo l)
  | .writable id =>
    match s.target? id with
    | some l => (some l, s.retain l)
    | none => (none, s)

/-- From a handle on a slot comes the literal that the slot points at. -/
theorem take_writable {id : SlotId} {l : LiteralId} (h : s.target? id = some l) :
    s.take (.writable id) = (some l, s.retain l) := by
  simp only [Store.take, h]

/-- From a handle on an empty slot comes none. -/
theorem take_writable_none {id : SlotId} (h : s.target? id = none) :
    s.take (.writable id) = (none, s) := by
  simp only [Store.take, h]

/-- Whatever a handle is asked for on, it comes from a literal that is counted already. -/
theorem materialize_request (s : Store) (obj : Object) (writable : Bool) :
    s.materialize obj (s.request obj writable) =
      (s.take obj).2.wrap (s.take obj).1 writable := by
  cases obj with
  | writable id =>
    simp only [Store.request, Store.take]
    cases s.target? id <;> rfl
  | _ => rfl

/-- What an object holds is taken over into a literal that is counted on. -/
theorem Keeps.take {obj : Object} (hs : s.Keeps (obj ::ₘ objs)) :
    (s.take obj).2.Keeps (handleOf (s.take obj).1 ::ₘ objs) := by
  have hBalanced := hs.balanced
  have hNamed := fun x hx => hs.named x (Multiset.mem_cons_of_mem hx)
  rw [Multiset.cons_bind, Multiset.cons_bind] at hBalanced
  -- a plain value goes into a new literal, with the slots that it owns
  have hFresh (payload : Payload) (hCounts : obj.counts = 0) (hOwns : obj.owns = payload.slots) :
      (s.addLiteral payload).2.Keeps (handleOf (some (s.addLiteral payload).1) ::ₘ objs) := by
    rw [hCounts, hOwns, zero_add] at hBalanced
    exact keeps_handleOf_iff.2 ⟨hBalanced.addLiteral, hNamed⟩
  cases obj with
  | nil => exact hs
  | number n => exact hFresh (.number n) rfl rfl
  | function f => exact hFresh (.function f) rfl rfl
  | array slots => exact hFresh (.array slots) rfl rfl
  | readOnly l =>
    have hHandle : s.Balanced (l ::ₘ objs.bind Object.counts) (objs.bind Object.owns) := by
      simpa [Object.counts, Object.owns] using hBalanced
    obtain ⟨lit, hl⟩ := hHandle.live_of_handle
    -- the literal is counted once more before the handle is given up
    exact keeps_handleOf_iff.2 ⟨(hHandle.retain hl).forgo, hNamed⟩
  -- the handle counts on nothing, so the literal is counted once more, for the new holder
  | writable id =>
    have hPlain : s.Balanced (objs.bind Object.counts) (objs.bind Object.owns) := by
      simpa [Object.counts, Object.owns] using hBalanced
    cases hTarget : s.target? id with
    | none =>
      rw [take_writable_none hTarget]
      exact keeps_handleOf_iff.2 ⟨by simpa using hPlain, hNamed⟩
    | some l =>
      obtain ⟨lit, hl⟩ := hPlain.live_of_target? hTarget
      rw [take_writable hTarget]
      exact keeps_handleOf_iff.2 ⟨hPlain.retain hl, hNamed⟩

/-- A read-only handle can always be had. -/
theorem Keeps.materialize_readOnly {obj : Object} (hs : s.Keeps (obj ::ₘ objs)) :
    ∃ target t, s.materialize obj (s.request obj false) = (.ok (handleOf target), t) ∧
      t.Keeps (handleOf target ::ₘ objs) := by
  -- the literal is counted on already, and the handle takes the count over
  refine ⟨(s.take obj).1, (s.take obj).2, ?_, hs.take⟩
  rw [materialize_request]
  cases (s.take obj).1 <;> rfl

/-- A slot that is made belongs to whoever asked for it. -/
theorem Keeps.materialize_writable {obj handle : Object} {t : Store}
    (hs : s.Keeps (obj ::ₘ objs))
    (hEq : s.materialize obj (s.request obj true) = (.ok handle, t)) :
    t.Keeps (.array [handle.slot] ::ₘ objs) := by
  obtain ⟨hBalanced, hNamed⟩ := keeps_handleOf_iff.1 hs.take
  rw [materialize_request] at hEq
  -- a handle on a slot was asked for, so a slot has to be found first
  unfold Store.wrap at hEq
  simp only [if_true] at hEq
  cases hAllocate : (s.take obj).2.allocate with
  | mk answer v =>
    rw [hAllocate] at hEq
    cases answer with
    | error e => cases hEq
    | ok id =>
      cases hEq
      obtain ⟨hMade, hSlot⟩ := hBalanced.allocate_ok hAllocate
      -- the slot is made first, and then the handle goes into it
      have hSet := hMade.setTarget hSlot
      exact keeps_array_iff.2 ⟨by simpa [Object.slot] using hSet, hNamed⟩

/-- A slot that is made joins those in hand. -/
theorem Keeps.materialize_among {obj handle : Object} {made : List SlotId} {t : Store}
    (hs : s.Keeps (obj ::ₘ .array made ::ₘ objs))
    (hEq : s.materialize obj (s.request obj true) = (.ok handle, t)) :
    t.Keeps (.array (handle.slot :: made) ::ₘ objs) := by
  obtain ⟨hBalanced, hNamed⟩ := keeps_array_iff.1 (hs.materialize_writable hEq)
  refine keeps_array_iff.2 ⟨?_, fun x hx => hNamed x (Multiset.mem_cons_of_mem hx)⟩
  -- two arrays in hand own what one array with all their slots would own
  simpa [Object.counts, Object.owns, ← Multiset.cons_coe] using hBalanced

/-- When there is no slot left, the object is given up. -/
theorem Keeps.materialize_error {obj : Object} {e : Failure} {t : Store}
    (hs : s.Keeps (obj ::ₘ objs))
    (hEq : s.materialize obj (s.request obj true) = (.error e, t)) : t.Keeps objs := by
  have hKeeps := hs.take
  rw [materialize_request] at hEq
  unfold Store.wrap at hEq
  simp only [if_true] at hEq
  cases hAllocate : (s.take obj).2.allocate with
  | mk answer v =>
    rw [hAllocate] at hEq
    cases answer with
    | ok id => cases hEq
    | error e' =>
      cases hEq
      rw [allocate_error hAllocate]
      -- the literal that was made is given up again
      generalize (s.take obj).1 = target at hKeeps
      cases target with
      | none => exact hKeeps.release
      | some l => exact hKeeps.release

/-! ## Binding -/

/-- Binding a slot gives the object up, whether there is a slot or not. -/
theorem Keeps.bind {obj : Object} (hs : s.Keeps (obj ::ₘ objs)) (id : SlotId) :
    (s.bind id obj).2.Keeps objs := by
  obtain ⟨target, t, hEq, hKeeps⟩ := hs.materialize_readOnly
  unfold Store.bind
  simp only [hEq]
  cases hSlot : t.slot? id with
  | none => cases target <;> exact hKeeps.release
  | some slot =>
    -- the handle goes into the slot, and what the slot pointed at is given up
    obtain ⟨hBalanced, hNamed⟩ := keeps_handleOf_iff.1 hKeeps
    have hSet := keeps_handleOf_iff.2 ⟨hBalanced.setTarget hSlot, hNamed⟩
    obtain ⟨previous⟩ := slot
    cases target <;> cases previous <;> exact hSet.release

/-! ## Names -/

/-- A slot that is owned in the store is there. -/
theorem Keeps.live_of_owned {id : SlotId} (hs : s.Keeps objs) (hId : id ∈ s.owned) :
    ∃ slot, s.slot? id = some slot := by
  have hSingle := hs.balanced.single id
  have hOwned := Multiset.count_pos.2 hId
  rw [Multiset.count_add] at hSingle
  split at hSingle
  · rename_i hLive
    exact Option.isSome_iff_exists.1 hLive
  · omega

/-- So is a slot that an object in hand owns. -/
theorem Keeps.live_of_owns {id : SlotId} {obj : Object} (hs : s.Keeps objs) (hObj : obj ∈ objs)
    (hId : id ∈ obj.owns) : ∃ slot, s.slot? id = some slot := by
  have hSingle := hs.balanced.single id
  have hOwned := Multiset.count_pos.2 (Multiset.mem_bind.2 ⟨obj, hObj, hId⟩)
  rw [Multiset.count_add] at hSingle
  split at hSingle
  · rename_i hLive
    exact Option.isSome_iff_exists.1 hLive
  · omega

/-- A name that is not found has no entry. -/
theorem Symbols.not_mem_of_find? {t : Symbols} {name : String} (h : t.find? name = none) :
    name ∉ t.entries.map (·.1) := by
  intro hMem
  obtain ⟨entry, hEntry, hName⟩ := List.mem_map.1 hMem
  have hNone := List.find?_eq_none.1 (Option.map_eq_none_iff.1 h) entry hEntry
  simp [hName] at hNone

/-- A new name takes over the slot that was made for it. -/
theorem Keeps.name {name : String} {id : SlotId} {symbols : Symbols}
    (hs : s.Keeps (.array [id] ::ₘ objs)) (hInsert : s.symbols.insert name id = .ok symbols) :
    Keeps { s with symbols } objs := by
  unfold Symbols.insert at hInsert
  split at hInsert
  · cases hInsert
  · rename_i hNone
    cases hInsert
    obtain ⟨hBalanced, hNamed⟩ := keeps_array_iff.1 hs
    refine ⟨⟨hBalanced.counted, hBalanced.backed, ?_, hBalanced.queued, hBalanced.vacant,
      hBalanced.free, hBalanced.zero, ?_, hBalanced.solvent⟩, hNamed⟩
    · -- the name owns the slot from now on
      intro k
      have hSingle := hBalanced.single k
      have hOwned : owned { s with symbols := ⟨s.symbols.entries ++ [(name, id)]⟩ } =
          s.owned + ([id] : List SlotId) := by
        simp only [owned, List.map_append, List.map_cons, List.map_nil, ← Multiset.coe_add]
        abel
      rw [hOwned, add_assoc]
      exact hSingle
    · -- and it was not in use
      simp only [List.map_append, List.map_cons, List.map_nil]
      refine List.nodup_append.2 ⟨hBalanced.names, List.nodup_singleton _, ?_⟩
      intro x hx y hy hxy
      rw [List.mem_singleton.1 hy] at hxy
      exact Symbols.not_mem_of_find? hNone (hxy ▸ hx)

/-- Looking a name up, or bringing it in, keeps the books. -/
theorem Keeps.intern (hs : s.Keeps objs) (name : String) :
    (s.intern name).2.Keeps objs ∧ ∀ id, (s.intern name).1 = .ok id → 0 < id := by
  unfold Store.intern
  split
  -- the name is there, so its slot is in use and not number 0
  · rename_i id hFound
    refine ⟨hs, fun k hk => ?_⟩
    cases hk
    have hMem : id ∈ s.symbols.entries.map (·.2) :=
      List.mem_map.2 ⟨(name, id), Symbols.mem_of_find? hFound, rfl⟩
    obtain ⟨slot, hSlot⟩ :=
      hs.live_of_owned (Multiset.mem_add.2 (.inl (Multiset.mem_coe.2 hMem)))
    exact hs.balanced.pos_of_slot? hSlot
  -- the name is new, and there may be no slot for it
  · cases hAllocate : s.allocate with
    | mk answer t =>
      cases answer with
      | error e =>
        obtain rfl := allocate_error hAllocate
        exact ⟨hs, by simp⟩
      | ok id =>
        obtain ⟨hBalanced, hSlot⟩ := hs.balanced.allocate_ok hAllocate
        -- until the name is there the slot is in hand, as an array of one
        have hMade : t.Keeps (.array [id] ::ₘ objs) :=
          keeps_array_iff.2 ⟨hBalanced, hs.named⟩
        dsimp only
        cases hInsert : t.symbols.insert name id with
        | error e => exact ⟨hMade.release, by simp⟩
        | ok symbols =>
          refine ⟨hMade.name hInsert, fun k hk => ?_⟩
          cases hk
          exact hBalanced.pos_of_slot? hSlot

/-- Defining a name for a plain object keeps the books. -/
theorem Keeps.define {obj : Object} (hs : s.Keeps objs) (hObj : obj.Plain) (name : String) :
    (s.define name obj).2.Keeps objs := by
  unfold Store.define
  have hIntern := (hs.intern name).1
  cases hEq : s.intern name with
  | mk answer t =>
    rw [hEq] at hIntern
    cases answer with
    | error e => exact hIntern
    | ok id =>
      -- the name has a slot, which takes the object over
      have hBind := (hIntern.cons hObj).bind id
      cases hBound : t.bind id obj with
      | mk answer u =>
        rw [hBound] at hBind
        cases answer with
        | error e => simpa only [hBound] using hBind
        | ok _ => simpa only [hBound] using hBind

/-! ## Arrays -/

/-- The elements of an array are slots that are there. -/
theorem Keeps.pos_of_array? {obj : Object} {slots : List SlotId} {writable : Bool}
    (hs : s.Keeps objs) (hObj : obj ∈ objs) (hArray : s.array? obj = some (slots, writable)) :
    ∀ id ∈ slots, 0 < id := by
  intro id hId
  -- the slots of an array in a literal are owned by it
  have hLiteral (l : LiteralId)
      (hl : (s.literal? l).map (·.payload) = some (.array slots)) : 0 < id := by
    obtain ⟨lit, hLit, hPayload⟩ := Option.map_eq_some_iff.1 hl
    obtain ⟨rest, hBag, -⟩ := exists_bag_set (getElem?_of_literal? hLit)
    have hOwned : id ∈ s.owned := by
      simp [owned, hBag, Literal.owned, hPayload, Payload.slots, hId]
    obtain ⟨slot, hSlot⟩ := hs.live_of_owned hOwned
    exact hs.balanced.pos_of_slot? hSlot
  have hPayload : s.payload? obj = some (.array slots) := by
    unfold array? at hArray
    split at hArray
    · rename_i slots' hEq
      cases hArray
      exact hEq
    · cases hArray
  cases obj with
  | array slots' =>
    cases hPayload
    obtain ⟨slot, hSlot⟩ := hs.live_of_owns hObj (Multiset.mem_coe.2 hId)
    exact hs.balanced.pos_of_slot? hSlot
  | readOnly l => exact hLiteral l hPayload
  -- a handle on a slot that points at an array
  | writable k =>
    simp only [Store.payload?] at hPayload
    cases hTarget : s.target? k with
    | none => simp [hTarget] at hPayload
    | some l => exact hLiteral l (by simpa [hTarget] using hPayload)
  | _ => simp [Store.payload?] at hPayload

/-- Taking a handle on an element keeps the books. -/
theorem Keeps.element {id : SlotId} (hs : s.Keeps objs) (hId : 0 < id) (writable : Bool) :
    (s.element id writable).2.Keeps ((s.element id writable).1 ::ₘ objs) := by
  unfold Store.element
  split
  -- a handle on the slot of the element is plain; otherwise its literal is counted on once more
  · exact hs.cons (Object.plain_writable hId)
  · split
    · rename_i l hTarget
      obtain ⟨lit, hl⟩ := hs.balanced.live_of_target? hTarget
      have hTaken : (s.retain l).Keeps (handleOf (some l) ::ₘ objs) :=
        keeps_handleOf_iff.2 ⟨hs.balanced.retain hl, hs.named⟩
      exact hTaken
    · exact hs.cons Object.plain_nil

end Store

/-- Taking handles on elements. -/
theorem Machine.keeps_elements {s : Store} {objs : Multiset Object} {taken : List Object}
    (hs : s.Keeps (taken + objs)) (writable : Bool) {ids : List SlotId}
    (hIds : ∀ id ∈ ids, 0 < id) :
    (elements s writable taken ids).2.Keeps ((elements s writable taken ids).1 + objs) := by
  -- induction on the slots, with the store and the handles taken before left open
  induction ids generalizing s taken with
  | nil => exact hs
  | cons id ids ih =>
    have hElement := hs.element (hIds id (List.mem_cons_self ..)) writable
    rw [← Multiset.cons_add, Multiset.cons_coe] at hElement
    exact ih hElement fun k hk => hIds k (List.mem_cons_of_mem _ hk)

/-- The first of the objects that are to be given slots is in hand, like all the others. -/
theorem Store.Keeps.given_cons {s : Store} {objs : Multiset Object} {obj : Object}
    {made : List SlotId} {given : List Object}
    (hs : s.Keeps (.array made ::ₘ ((obj :: given : List Object) + objs))) :
    s.Keeps (obj ::ₘ .array made ::ₘ (given + objs)) := by
  rw [← Multiset.cons_coe, Multiset.cons_add, Multiset.cons_swap] at hs
  exact hs

/-- Giving objects slots of their own: the slots make an array, or everything is given up. -/
theorem Machine.keeps_slotsFor {s : Store} {objs : Multiset Object} {made : List SlotId}
    {given : List Object} (hs : s.Keeps (.array made ::ₘ (given + objs))) :
    match slotsFor s made given with
    | (.ok slots, t) => t.Keeps (.array slots ::ₘ objs)
    | (.error _, t) => t.Keeps objs := by
  -- induction on the objects, with the store and the slots made before left open
  induction given generalizing s made with
  | nil =>
    rw [Multiset.coe_nil, zero_add, Store.keeps_array_iff, ← Multiset.coe_reverse made,
      ← Store.keeps_array_iff] at hs
    exact hs
  | cons obj given ih =>
    have hNext := hs.given_cons
    unfold slotsFor
    cases hEq : s.materialize obj (s.request obj true) with
    | mk answer t =>
      cases answer with
      | ok handle => exact ih (hNext.materialize_among hEq)
      -- no slot for this object: the objects behind it are given up, and the slots made before
      | error e =>
        have hLeft := hNext.materialize_error hEq
        rw [Store.keeps_array_iff, ← Multiset.coe_reverse made, ← Store.keeps_array_iff,
          ← Multiset.add_cons] at hLeft
        exact hLeft.releaseAll.release

end Reckon
