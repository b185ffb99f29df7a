import Reckon.Proofs.Evaluation
import Reckon.Proofs.Matching
import Reckon.Proofs.Persistence
import Reckon.Proofs.Spelling

/-!
# Values in the store

An array is kept as slots, each of which points at a literal of its own. `Store.Holds` says what
value a payload amounts to when all of this is followed, and it is followed by copies, too: a
payload that holds a value has no array inside itself, so its copy is that value
(`Store.snapshotLiteral_of_holds`).

Evaluating an expression that writes a value down gives a payload that holds it
(`Value.WrittenAs.eval`), provided that there are as many slots left as the value has elements. What
was worked out before stays as it is meanwhile.
-/

namespace Reckon

/-! ## Elements -/

mutual

/-- How many elements there are in all the arrays of a value. -/
def Value.elements : Value → Nat
  | .array items => items.length + Value.elementsWithin items
  | _ => 0

/-- How many elements there are in the arrays of several values. -/
def Value.elementsWithin : List Value → Nat
  | [] => 0
  | v :: vs => v.elements + Value.elementsWithin vs

end

/-- A payload as an object that is in no literal yet. -/
def Payload.object : Payload → Object
  | .number n => .number n
  | .function f => .function f
  | .array slots => .array slots

theorem Payload.owns_object (p : Payload) : p.object.owns = p.slots := by cases p <;> rfl

namespace Store

variable {s t u : Store} {handles : Multiset LiteralId} {loose : Multiset SlotId}
  {objs : Multiset Object}

/-- A payload is always taken into a new literal. -/
theorem take_object (s : Store) (p : Payload) :
    s.take p.object = (some (s.addLiteral p).1, (s.addLiteral p).2) := by cases p <;> rfl

/-! ## What a payload holds -/

mutual

/-- The payload holds the value. -/
def Holds (s : Store) : Payload → Value → Prop
  | .number n, .number m => n = m
  | .array ids, .array items => s.HoldAll ids items
  | _, _ => False

/-- The slots point at literals that hold the values. -/
def HoldAll (s : Store) : List SlotId → List Value → Prop
  | [], [] => True
  | id :: ids, v :: vs =>
    (∃ l p, s.target? id = some l ∧ s.holds? l = some p ∧ s.Holds p v) ∧ s.HoldAll ids vs
  | _, _ => False

end

/-- Slots that hold values, one list of them behind another, hold the values of both. -/
theorem HoldAll.append {ids ks : List SlotId} {us vs : List Value} (hFront : s.HoldAll ids us)
    (hBack : s.HoldAll ks vs) : s.HoldAll (ids ++ ks) (us ++ vs) := by
  -- the slots and the values in front become fewer together
  induction ids generalizing us with
  | nil =>
    cases us with
    | nil => exact hBack
    | cons u us => cases hFront
  | cons id ids ih =>
    cases us with
    | nil => cases hFront
    | cons u us => exact ⟨hFront.1, ih hFront.2⟩

mutual

/-- A payload holds one value at most. -/
theorem Holds.unique : ∀ {v w : Value} {p : Payload}, s.Holds p v → s.Holds p w → v = w
  | .number n, .number m, .number k, hv, hw => by
    have hLeft : k = n := hv
    have hRight : k = m := hw
    rw [← hLeft, ← hRight]
  | .array items, .array others, .array ids, hv, hw => congrArg Value.array (HoldAll.unique hv hw)

/-- The same, one slot after another: each points at one literal with one payload. -/
theorem HoldAll.unique : ∀ {vs ws : List Value} {ids : List SlotId},
    s.HoldAll ids vs → s.HoldAll ids ws → vs = ws
  | [], [], _, _, _ => rfl
  | v :: vs, w :: ws, id :: ids, ⟨⟨l, p, hTarget, hp, hv⟩, hvs⟩,
      ⟨⟨k, q, hTarget', hq, hw⟩, hws⟩ => by
    rw [hTarget, Option.some.injEq] at hTarget'
    rw [← hTarget', hp, Option.some.injEq] at hq
    rw [Holds.unique hv (hq ▸ hw), HoldAll.unique hvs hws]
  | [], _ :: _, [], _, hws => by cases hws
  | _ :: _, [], [], hvs, _ => by cases hvs

end

/-- The slots of a literal are owned in the store. -/
theorem exists_owns_of_holds? {l : LiteralId} {p : Payload} (hp : s.holds? l = some p) {id : SlotId}
    (hId : id ∈ p.slots) : ∃ o, s.Owns id o := by
  obtain ⟨position, hPosition⟩ := List.mem_iff_getElem?.1 hId
  exact ⟨.element l position, owns_element_iff.2 ⟨p, hp, hPosition⟩⟩

mutual

/-- What a payload holds stays as long as its slots do. -/
theorem Holds.carries (h : s.Carries t loose) : ∀ {v : Value} {p : Payload}, s.Holds p v →
    (∀ id ∈ p.slots, (∃ o, s.Owns id o) ∨ id ∈ loose) → t.Holds p v
  | .number _, .number _, hv, _ => hv
  | .array _, .array _, hv, hKept => HoldAll.carries h hv hKept

/-- The same for the values of several slots. What is inside is owned by the literals on the way. -/
theorem HoldAll.carries (h : s.Carries t loose) : ∀ {vs : List Value} {ids : List SlotId},
    s.HoldAll ids vs → (∀ id ∈ ids, (∃ o, s.Owns id o) ∨ id ∈ loose) → t.HoldAll ids vs
  | [], [], _, _ => trivial
  | v :: vs, id :: ids, ⟨⟨l, p, hTarget, hp, hv⟩, hvs⟩, hKept => by
    have hPoints := h.target id (hKept id (List.mem_cons_self ..))
    rw [hTarget] at hPoints
    exact ⟨⟨l, p, hPoints, h.holds l p hp,
      Holds.carries h hv fun k hk => .inl (exists_owns_of_holds? hp hk)⟩,
      HoldAll.carries h hvs fun k hk => hKept k (List.mem_cons_of_mem id hk)⟩

end

/-! ## Copies of what is held -/

/-- The literals of a path hold values that are larger than so much. -/
def Beyond (s : Store) (path : List LiteralId) (size : Nat) : Prop :=
  ∀ k ∈ path, ∃ p w, s.holds? k = some p ∧ s.Holds p w ∧ size < sizeOf w

/-- What is larger than so much is larger than less. -/
theorem Beyond.mono {path : List LiteralId} {size less : Nat} (h : s.Beyond path size)
    (hLess : less ≤ size) : s.Beyond path less := by
  intro k hk
  obtain ⟨p, w, hp, hw, hSize⟩ := h k hk
  exact ⟨p, w, hp, hw, Nat.lt_of_le_of_lt hLess hSize⟩

mutual

/-- **The copy of a literal is the value that it holds.** The arrays on the way to it are larger,
so it is none of them. -/
theorem snapshotLiteral_of_holds : ∀ {v : Value} {p : Payload} {l : LiteralId}
    {path : List LiteralId}, s.holds? l = some p → s.Holds p v → s.Beyond path (sizeOf v) →
      s.snapshotLiteral path l = v
  | v, p, l, path, hp, hv, hBeyond => by
    -- what holds the value is not on the way to itself, since what is there holds something larger
    have hNew : path.contains l = false := by
      rw [← Bool.not_eq_true, List.contains_iff_mem]
      intro hMem
      obtain ⟨q, w, hq, hw, hSize⟩ := hBeyond l hMem
      rw [hp, Option.some.injEq] at hq
      rw [Holds.unique hv (hq ▸ hw)] at hSize
      exact Nat.lt_irrefl _ hSize
    have hPayload := hp
    unfold holds? at hPayload
    rw [snapshotLiteral_of_unvisited hNew, hPayload]
    match v, p, hv with
    -- a number is shown as it is, and an array with its elements, which are smaller than it is
    | .number n, .number m, hSame =>
      have hEq : m = n := hSame
      rw [hEq]
    | .array items, .array ids, hItems =>
      refine congrArg Value.array (snapshotSlots_of_holds hItems ?_)
      intro k hk
      rcases List.mem_cons.1 hk with rfl | hk
      · exact ⟨.array ids, .array items, hp, hItems, by simp⟩
      · obtain ⟨q, w, hq, hw, hSize⟩ := hBeyond k hk
        exact ⟨q, w, hq, hw, Nat.lt_trans (by simp) hSize⟩

/-- The same for the copies of slots that stand in one array. -/
theorem snapshotSlots_of_holds : ∀ {vs : List Value} {ids : List SlotId} {path : List LiteralId},
    s.HoldAll ids vs → s.Beyond path (sizeOf vs) → s.snapshotSlots path ids = vs
  | [], [], _, _, _ => by simp only [snapshotSlots]
  | v :: vs, id :: ids, path, ⟨⟨l, p, hTarget, hp, hv⟩, hvs⟩, hBeyond => by
    have hHead := snapshotLiteral_of_holds hp hv (hBeyond.mono (by simp; omega))
    have hTail := snapshotSlots_of_holds hvs (hBeyond.mono (by simp))
    simp only [snapshotSlots, hTarget, hHead, hTail]

end

/-! ## Slots that are left -/

/-- How many slots can still be given out. -/
def room (s : Store) : Nat := s.freeIds.length + (maxSlotId + 1 - s.slots.size)

/-- **While there is room, a number is given out**, and there is room for one less. -/
theorem allocate_of_room (h : 0 < s.room) :
    ∃ id t, s.allocate = (.ok id, t) ∧ t.room + 1 = s.room := by
  unfold room at h ⊢
  unfold allocate
  cases hFree : s.freeIds with
  | cons id freeIds =>
    -- a number that was given back is used again
    refine ⟨id, _, rfl, ?_⟩
    simp only [Array.size_setIfInBounds, List.length_cons]
    omega
  | nil =>
    rw [hFree, List.length_nil] at h
    -- otherwise the next new number is in range
    have hLeft : ¬ maxSlotId < s.slots.size := Nat.not_lt.2 (by omega)
    refine ⟨s.slots.size, _, if_neg hLeft, ?_⟩
    simp only [List.length_nil, Array.size_push]
    omega

/-- Room is a matter of the slot table and of the numbers that were given back. -/
theorem room_of_eq (hSlots : t.slots.size = s.slots.size) (hFree : t.freeIds = s.freeIds) :
    t.room = s.room := by
  unfold room
  rw [hSlots, hFree]

/-- The payloads of objects in hand keep what they hold. -/
theorem Holds.carries_object {p : Payload} {v : Value} (hv : s.Holds p v)
    (h : s.Carries t (objs.bind Object.owns)) (hp : p.object ∈ objs) : t.Holds p v := by
  refine hv.carries h fun id hId => .inr (Multiset.mem_bind.2 ⟨p.object, hp, ?_⟩)
  rw [Payload.owns_object]
  exact Multiset.mem_coe.2 hId

/-- An object that holds a value is taken into a literal, which holds it then. -/
theorem Keeps.take_holds {p : Payload} {v : Value} (hs : s.Keeps (p.object ::ₘ objs))
    (hv : s.Holds p v) :
    ∃ l t, s.take p.object = (some l, t) ∧ t.holds? l = some p ∧ t.Holds p v := by
  have hHeld := hv.carries_object hs.carries_take (Multiset.mem_cons_self _ _)
  rw [take_object] at hHeld
  exact ⟨_, _, s.take_object p, hs.balanced.holds?_addLiteral p, hHeld⟩

/-- **An object that holds a value** is given a slot, which points at a literal that holds it. -/
theorem Keeps.materialize_holds {p : Payload} {v : Value} (hs : s.Keeps (p.object ::ₘ objs))
    (hv : s.Holds p v) (hRoom : 0 < s.room) :
    ∃ id t l, s.materialize p.object (s.request p.object true) = (.ok (.writable id), t) ∧
      t.room + 1 = s.room ∧ t.target? id = some l ∧ t.holds? l = some p ∧ t.Holds p v := by
  obtain ⟨l, u, hTake, hLiteral, hHeld⟩ := hs.take_holds hv
  have hHandle := (keeps_handleOf_iff.1 hs.take).1
  have hSlots := slots_take s p.object
  rw [hTake] at hHandle hSlots
  have hSame : u.room = s.room := room_of_eq (congrArg Array.size hSlots.1) hSlots.2
  obtain ⟨id, t, hAllocate, hLess⟩ := allocate_of_room (by rw [hSame]; exact hRoom)
  obtain ⟨hMade, hLive⟩ := hHandle.allocate_ok hAllocate
  have hCarries := (hHandle.carries_allocate hAllocate).trans (hMade.carries_setTarget (some l))
  have hEq : s.materialize p.object (s.request p.object true) =
      (.ok (.writable id), t.setTarget id (some l)) := by
    rw [materialize_writable_eq (by rw [hTake]; exact hAllocate), hTake]
  refine ⟨id, _, l, hEq, ?_, ?_, hCarries.holds l p hLiteral, ?_⟩
  -- pointing the slot at the literal takes no room
  · rw [← hSame, ← hLess]
    exact congrArg (· + 1) (room_of_eq (by simp [setTarget]) rfl)
  · rw [target?_setTarget hLive, if_pos rfl]
  · exact hHeld.carries hCarries fun k hk => .inl (exists_owns_of_holds? hLiteral hk)

/-- **Objects that hold values** are given slots, all of them, if there are as many left. -/
theorem Keeps.slotsFor_holds {made : List SlotId} {given : List Payload} {us vs : List Value}
    (hs : s.Keeps (.array made ::ₘ ((given.map Payload.object : List Object) + objs)))
    (hMade : s.HoldAll made.reverse us) (hGiven : List.Forall₂ s.Holds given vs)
    (hRoom : given.length ≤ s.room) :
    ∃ ids t, Machine.slotsFor s made (given.map Payload.object) = (.ok ids, t) ∧
      t.HoldAll ids (us ++ vs) ∧ t.room + given.length = s.room := by
  induction given generalizing s made us vs with
  | nil =>
    cases hGiven
    refine ⟨made.reverse, s, rfl, ?_, rfl⟩
    rw [List.append_nil]
    exact hMade
  | cons p given ih =>
    obtain ⟨v, others, hv, hOthers, rfl⟩ := List.forall₂_cons_left_iff.1 hGiven
    rw [List.length_cons] at hRoom ⊢
    have hNext := hs.given_cons
    obtain ⟨id, t, l, hEq, hLess, hTarget, hp, hHeld⟩ := hNext.materialize_holds hv (by omega)
    have hCarries := hNext.carries_materialize
    rw [hEq] at hCarries
    -- the slots that are made already and the objects to come are in hand all the while
    have hMadeLoose : ∀ k ∈ made.reverse, k ∈ (.array made ::ₘ
        ((given.map Payload.object : Multiset Object) + objs)).bind Object.owns := by
      intro k hk
      rw [Multiset.cons_bind]
      exact Multiset.mem_add.2 (.inl (Multiset.mem_coe.2 (List.mem_reverse.1 hk)))
    have hOne : t.HoldAll [id] [v] := ⟨⟨l, p, hTarget, hp, hHeld⟩, trivial⟩
    have hMadeNow : t.HoldAll (id :: made).reverse (us ++ [v]) := by
      rw [List.reverse_cons]
      exact (hMade.carries hCarries fun k hk => .inr (hMadeLoose k hk)).append hOne
    have hOthersNow : List.Forall₂ t.Holds given others := by
      refine forall₂_imp_mem hOthers fun q hq w _ hw => hw.carries_object hCarries ?_
      refine Multiset.mem_cons_of_mem (Multiset.mem_add.2 (.inl ?_))
      exact Multiset.mem_coe.2 (List.mem_map_of_mem hq)
    obtain ⟨ids, u, hRest, hAll, hLeft⟩ :=
      ih (hNext.materialize_among hEq) hMadeNow hOthersNow (by omega)
    refine ⟨ids, u, ?_, ?_, by omega⟩
    · rw [List.map_cons, Machine.slotsFor, hEq]
      exact hRest
    · rw [List.append_assoc] at hAll
      exact hAll

/-! ## What evaluation gives -/

/-- From the first store on, payloads have come up that hold the values in the second one. So many
slots are taken by now. The objects that were there are still in hand, and what they hold is as it
was. -/
structure Gives (s : Store) (objs : Multiset Object) (cost : Nat) (ps : List Payload)
    (vs : List Value) (t : Store) : Prop where
  keeps : t.Keeps ((ps.map Payload.object : List Object) + objs)
  carries : s.Carries t (objs.bind Object.owns)
  holds : List.Forall₂ t.Holds ps vs
  room : t.room + cost = s.room

theorem gives_nil (hs : s.Keeps objs) : s.Gives objs 0 [] [] s :=
  ⟨by rw [List.map_nil, Multiset.coe_nil, zero_add]; exact hs, .refl s _, .nil, rfl⟩

/-- A number comes up without a change to the store. -/
theorem gives_number (hs : s.Keeps objs) (n : Number) :
    s.Gives objs 0 [.number n] [.number n] s :=
  ⟨hs.cons (Object.plain_number n), .refl s _, .cons rfl .nil, rfl⟩

/-- What comes up later comes behind, and what came up before is in hand meanwhile. -/
theorem Gives.append {cost more : Nat} {ps qs : List Payload} {vs ws : List Value}
    (hFirst : s.Gives objs cost ps vs t)
    (hSecond : t.Gives ((ps.map Payload.object : List Object) + objs) more qs ws u) :
    s.Gives objs (cost + more) (ps ++ qs) (vs ++ ws) u where
  keeps := by
    have hKeeps := hSecond.keeps
    rw [← add_assoc, Multiset.coe_add, ← Multiset.coe_add, add_comm (Multiset.ofList _),
      Multiset.coe_add, ← List.map_append] at hKeeps
    exact hKeeps
  carries := by
    -- what was there at first is among what is in hand while the rest comes up
    have hSub : objs.bind Object.owns ⊆
        ((ps.map Payload.object : Multiset Object) + objs).bind Object.owns := by
      rw [Multiset.add_bind]
      exact Multiset.subset_of_le (Multiset.le_add_left _ _)
    exact hFirst.carries.trans (hSecond.carries.mono hSub)
  holds := by
    refine List.rel_append (forall₂_imp_mem hFirst.holds fun p hp v _ hv => ?_) hSecond.holds
    refine hv.carries_object hSecond.carries (Multiset.mem_add.2 (.inl ?_))
    exact Multiset.mem_coe.2 (List.mem_map_of_mem hp)
  room := by
    have hBefore := hFirst.room
    have hBehind := hSecond.room
    omega

/-- **Objects that hold values make up an array** that holds them all. -/
theorem Gives.arrayOf {cost : Nat} {ps : List Payload} {vs : List Value}
    (h : s.Gives objs cost ps vs t) (hRoom : vs.length + cost ≤ s.room) :
    ∃ ids u, t.arrayOf (ps.map Payload.object) = (.ok (Payload.array ids).object, u) ∧
      s.Gives objs (vs.length + cost) [.array ids] [.array vs] u := by
  have hSame := h.holds.length_eq
  have hLeft := h.room
  have hStart : t.Keeps (.array [] ::ₘ ((ps.map Payload.object : List Object) + objs)) :=
    h.keeps.cons ⟨rfl, rfl, by simp⟩
  have hNone : t.HoldAll ([] : List SlotId).reverse [] := trivial
  obtain ⟨ids, u, hEq, hHeld, hLess⟩ := hStart.slotsFor_holds hNone h.holds (by omega)
  have hKeeps := Machine.keeps_slotsFor hStart
  have hCarries := Machine.carries_slotsFor hStart
  rw [hEq] at hKeeps hCarries
  refine ⟨ids, u, ?_, hKeeps, h.carries.trans hCarries, .cons hHeld .nil, by omega⟩
  rw [t.arrayOf_eq, hEq]
  rfl

end Store

/-! ## Evaluating what writes values down -/

section Writing

variable {script : String}

/-- A number is written as a literal, or as one that a minus stands in front of. -/
theorem Value.WrittenAs.eval_number {n : Number} {e : Expr}
    (h : (Value.number n).WrittenAs script e) (s : Store) :
    e.eval script s = (.ok (.number n), s) := by
  rcases h with ⟨numeral, span, rfl, hLiteral⟩ | ⟨sign, span, m, rfl, hLiteral, hMinus⟩
  · rw [Expr.eval, hLiteral]
    rfl
  · rw [Expr.eval, Expr.eval, hLiteral]
    show (Store.asObject (m.unary .minus), s) = _
    rw [hMinus]
    rfl

/-- As an item of a list the expression contributes one value. -/
theorem Value.WrittenAs.item_eq {v : Value} {e : Expr} (h : v.WrittenAs script e) {s t : Store}
    {obj : Object} (hEval : e.eval script s = (.ok obj, t)) : e.item script s = (.ok [obj], t) := by
  rw [Expr.item_eq h.isItem.plain, hEval]
  rfl

mutual

/-- **What writes a value down evaluates to it**, if there are as many slots left as the value has
elements. -/
theorem Value.WrittenAs.eval : ∀ {v : Value} {e : Expr}, v.WrittenAs script e →
    ∀ {s : Store} {objs : Multiset Object}, s.Keeps objs → v.elements ≤ s.room →
      ∃ p t, e.eval script s = (.ok p.object, t) ∧ s.Gives objs v.elements [p] [v] t
  | .number n, e, h, s, objs, hs, _ =>
    ⟨.number n, s, h.eval_number s, Store.gives_number hs n⟩
  | .array items, _, ⟨o, c, contents, hEq, hInside⟩, s, objs, hs, hRoom => by
    subst hEq
    rw [Value.elements] at hRoom ⊢
    -- the items come first, and then each of them takes a slot
    obtain ⟨ps, t, hItems, hGives⟩ := hInside.items hs (by omega)
    obtain ⟨ids, u, hArray, hMade⟩ := hGives.arrayOf hRoom
    refine ⟨.array ids, u, ?_, hMade⟩
    rw [Expr.eval, hItems]
    exact hArray

/-- The same for the contents of an array, from the first item to the last one. -/
theorem Value.WrittenInside.items : ∀ {vs : List Value} {contents : Contents},
    Value.WrittenInside script vs contents → ∀ {s : Store} {objs : Multiset Object}, s.Keeps objs →
      Value.elementsWithin vs ≤ s.room →
      ∃ ps t, contents.items script s = (.ok (ps.map Payload.object), t) ∧
        s.Gives objs (Value.elementsWithin vs) ps vs t
  | [], _, hEmpty, s, objs, hs, _ => by
    have hEq : _ = Contents.empty := hEmpty
    subst hEq
    exact ⟨[], s, by rw [Contents.items]; rfl, Store.gives_nil hs⟩
  | v :: vs, _, ⟨first, e, hFirst, hBehind, hEq⟩, s, objs, hs, hRoom => by
    subst hEq
    rw [Value.elementsWithin] at hRoom ⊢
    obtain ⟨p, t, hEval, hGives⟩ := hFirst.eval hs (by omega)
    have hLevel : first.level ≤ 14 := Nat.le_trans hFirst.isItem.level (by decide)
    have hFront : first.items script s = (.ok ([p].map Payload.object), t) := by
      rw [Expr.items_eq hLevel]
      exact hFirst.item_eq hEval
    rw [Contents.items]
    exact hBehind.items hFront hGives hRoom

/-- A list that begins with `front` goes on from what `front` has come to. -/
theorem Value.WrittenBehind.items : ∀ {vs : List Value} {front e : Expr},
    Value.WrittenBehind script vs front e → ∀ {s t : Store} {objs : Multiset Object} {cost : Nat}
      {ps : List Payload} {us : List Value},
      front.items script s = (.ok (ps.map Payload.object), t) →
      s.Gives objs cost ps us t → cost + Value.elementsWithin vs ≤ s.room →
      ∃ qs u, e.items script s = (.ok (qs.map Payload.object), u) ∧
        s.Gives objs (cost + Value.elementsWithin vs) qs (us ++ vs) u
  | [], front, _, hSame, s, t, objs, cost, ps, us, hFront, hGives, _ => by
    have hEq : _ = front := hSame
    subst hEq
    refine ⟨ps, t, hFront, ?_⟩
    rw [List.append_nil]
    exact hGives
  | v :: vs, front, e, ⟨span, r, hr, hBehind⟩, s, t, objs, cost, ps, us, hFront, hGives, hRoom => by
    rw [Value.elementsWithin, ← Nat.add_assoc] at hRoom ⊢
    have hLeft := hGives.room
    -- the items in front are in hand while the next one is evaluated
    obtain ⟨q, u, hEval, hLast⟩ := hr.eval hGives.keeps (by omega)
    have hItems : (Expr.comma span front r).items script s =
        (.ok ((ps ++ [q]).map Payload.object), u) := by
      rw [Expr.items, hFront, Answer.andThen, hr.item_eq hEval, List.map_append]
      rfl
    have hRest := hBehind.items hItems (hGives.append hLast) hRoom
    rw [List.append_assoc] at hRest
    exact hRest

end

end Writing

end Reckon
