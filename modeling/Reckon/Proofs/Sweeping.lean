import Reckon.Proofs.Persistence
import Reckon.Proofs.Sessions

/-!
# What a sweep reclaims

The queue says where the sweep begins and in which order it goes on, but not what it reclaims. That
is settled by the graph: a literal is bound to go (`Store.Doomed`) when no handle, no name and no
slot in hand holds it, and every array that points at it is bound to go as well. An array inside
itself never gets there, so it stays.

`Store.Remains` compares a store with what is left of it in the middle of a sweep. Every round takes
one literal out that is bound to go, together with its slots, and leaves all else where it was; when
the queue is empty, nothing is left that is bound to go. Whatever order the queue had, and whatever
else was in it, the same literals and slots are left. Main result: `Store.Balanced.sweeps`.
-/

namespace Reckon

namespace Store

/-- A literal that is bound to go: nothing holds it but arrays that are bound to go. -/
inductive Doomed (s : Store) (handles : Multiset LiteralId) (loose : Multiset SlotId) :
    LiteralId → Prop
  | intro {l : LiteralId} (hHandle : l ∉ handles)
      (hName : ∀ name id, s.lookup name = some id → s.target? id ≠ some l)
      (hLoose : ∀ id ∈ loose, s.target? id ≠ some l)
      (hArrays : ∀ k, s.PointsTo k l → Doomed s handles loose k) : Doomed s handles loose l

variable {s t u : Store} {handles : Multiset LiteralId} {loose : Multiset SlotId}
  {reclaimed : List LiteralId}

/-! ## Taking slots back -/

/-- A hold that is given up takes no place out of the table. -/
theorem size_forgo (s : Store) (l : LiteralId) :
    (s.forgo l).literals.size = s.literals.size := by
  unfold forgo
  split
  · exact Array.size_setIfInBounds ..
  · rfl

/-- What taking slots back leaves alone. -/
structure SameLiterals (s t : Store) : Prop where
  symbols : t.symbols = s.symbols
  payload : ∀ l, (t.literal? l).map (·.payload) = (s.literal? l).map (·.payload)
  vacant : t.vacant = s.vacant
  literalSize : t.literals.size = s.literals.size
  slotSize : t.slots.size = s.slots.size

/-- Two stores with the literals of one in the middle have the same literals. -/
theorem SameLiterals.trans (hFirst : s.SameLiterals t) (hSecond : t.SameLiterals u) :
    s.SameLiterals u where
  symbols := hSecond.symbols.trans hFirst.symbols
  payload l := (hSecond.payload l).trans (hFirst.payload l)
  vacant := hSecond.vacant.trans hFirst.vacant
  literalSize := hSecond.literalSize.trans hFirst.literalSize
  slotSize := hSecond.slotSize.trans hFirst.slotSize

/-- A hold that is given up changes a count and the queue. -/
theorem sameLiterals_forgo (s : Store) (l : LiteralId) : s.SameLiterals (s.forgo l) where
  symbols := (resembles_forgo s l).symbols
  payload := (resembles_forgo s l).payload
  vacant := by unfold forgo; split <;> rfl
  literalSize := size_forgo s l
  slotSize := by rw [(slots_forgo s l).1]

/-- A slot that is taken back goes, and so does its hold on a literal. -/
theorem sameLiterals_freeSlot (s : Store) (id : SlotId) : s.SameLiterals (s.freeSlot id) := by
  unfold Store.freeSlot
  split
  · exact ⟨rfl, fun _ => rfl, rfl, rfl, rfl⟩
  · rename_i slot _
    -- three things happen, one after the other, and none touches what a literal holds
    have hGone : s.SameLiterals { s with slots := s.slots.setIfInBounds id none } :=
      ⟨rfl, fun _ => rfl, rfl, rfl, Array.size_setIfInBounds ..⟩
    have hFree (v : Store) (freeIds : List SlotId) : v.SameLiterals { v with freeIds } :=
      ⟨rfl, fun _ => rfl, rfl, rfl, rfl⟩
    rcases slot with ⟨_ | l⟩
    · exact hGone.trans (hFree _ _)
    · exact (hGone.trans (sameLiterals_forgo _ l)).trans (hFree _ _)

/-- Any number of slots is taken back the same way. -/
theorem sameLiterals_freeSlots (s : Store) (ids : List SlotId) :
    s.SameLiterals (s.freeSlots ids) := by
  unfold Store.freeSlots
  induction ids generalizing s with
  | nil => exact ⟨rfl, fun _ => rfl, rfl, rfl, rfl⟩
  | cons id ids ih => exact (sameLiterals_freeSlot s id).trans (ih _)

/-! ## In the middle of a sweep -/

/-- What is left of a store when some literals have been reclaimed: the books balance, and all that
is left is as it was. Only what was bound to go has gone. -/
structure Remains (s : Store) (handles : Multiset LiteralId) (loose : Multiset SlotId)
    (reclaimed : List LiteralId) (t : Store) : Prop where
  balanced : t.Balanced handles loose
  symbols : t.symbols = s.symbols
  payload : ∀ l payload, (t.literal? l).map (·.payload) = some payload →
    (s.literal? l).map (·.payload) = some payload
  slot : ∀ id slot, t.slot? id = some slot → s.slot? id = some slot
  doomed : ∀ l, (s.literal? l).isSome → t.literal? l = none → s.Doomed handles loose l
  /-- Numbers of reclaimed literals go to the front of those to be used again. -/
  vacant : t.vacant = reclaimed ++ s.vacant
  mem_reclaimed : ∀ l, l ∈ reclaimed ↔ (s.literal? l).isSome ∧ t.literal? l = none
  counted : reclaimed.length + t.liveLiterals = s.liveLiterals
  literalSize : t.literals.size = s.literals.size
  slotSize : t.slots.size = s.slots.size

/-- Nothing has gone at the start, whatever the queue is. -/
theorem Balanced.remains {queue : List LiteralId} (hs : s.Balanced handles loose)
    (hQueue : s.queue ⊆ queue) : s.Remains handles loose [] { s with queue } where
  balanced := ⟨hs.counted, hs.backed, hs.single,
    fun l lit hl hZero => hQueue (hs.queued l lit hl hZero), hs.vacant, hs.free, hs.zero, hs.names,
    hs.solvent⟩
  symbols := rfl
  payload _ _ h := h
  slot _ _ h := h
  doomed l hLive hGone := by
    -- the literals are the same, so nothing can have gone
    have hNone : s.literal? l = none := hGone
    rw [hNone] at hLive
    cases hLive
  vacant := rfl
  mem_reclaimed l := by
    show l ∈ [] ↔ (s.literal? l).isSome ∧ s.literal? l = none
    cases s.literal? l <;> simp
  counted := Nat.zero_add _
  literalSize := rfl
  slotSize := rfl

/-- What a slot points at that is left, it pointed at before. -/
theorem Remains.target? (h : s.Remains handles loose reclaimed t) {id : SlotId}
    (hLive : (t.slot? id).isSome) : t.target? id = s.target? id := by
  obtain ⟨slot, hSlot⟩ := Option.isSome_iff_exists.1 hLive
  unfold Store.target?
  rw [hSlot, h.slot id slot hSlot]

/-- Owners that are left have what they had. -/
theorem Remains.owns (h : s.Remains handles loose reclaimed t) {id : SlotId} {o : Owner}
    (hOwns : t.Owns id o) : s.Owns id o := by
  match o, hOwns with
  | .symbol name, hName =>
    show s.symbols.find? name = some id
    rw [← h.symbols]
    exact hName
  | .element l position, ⟨lit, hl, hPosition⟩ =>
    have hPayload := h.payload l lit.payload (by rw [hl]; rfl)
    obtain ⟨lit', hl', hEq⟩ := Option.map_eq_some_iff.1 hPayload
    exact ⟨lit', hl', by rw [hEq]; exact hPosition⟩

/-- A name has its slot as long as the sweep goes on. -/
theorem Remains.slot?_of_lookup (h : s.Remains handles loose reclaimed t) {name : String}
    {id : SlotId} (hName : s.lookup name = some id) : (t.slot? id).isSome := by
  refine h.balanced.slot?_isSome_iff.2 (.inl ⟨.symbol name, ?_⟩)
  show t.symbols.find? name = some id
  rw [h.symbols]
  exact hName

/-- An element has its slot as long as the array is left. -/
theorem Remains.slot?_of_mem (h : s.Remains handles loose reclaimed t) {l : LiteralId}
    {lit : Literal} {id : SlotId} (hl : t.literal? l = some lit) (hId : id ∈ lit.payload.slots) :
    (t.slot? id).isSome := by
  obtain ⟨position, hPosition⟩ := List.mem_iff_getElem?.1 hId
  exact h.balanced.slot?_isSome_iff.2 (.inl ⟨.element l position, lit, hl, hPosition⟩)

/-- Names keep their slots as long as the sweep goes on. -/
theorem Remains.lookup (h : s.Remains handles loose reclaimed t) (name : String) :
    t.lookup name = s.lookup name := by
  unfold Store.lookup
  rw [h.symbols]

/-- A literal that is left holds what it held. -/
theorem Remains.holds? (h : s.Remains handles loose reclaimed t) {l : LiteralId}
    (hLive : (t.literal? l).isSome) : t.holds? l = s.holds? l := by
  obtain ⟨lit, hl⟩ := Option.isSome_iff_exists.1 hLive
  have hPayload := h.payload l lit.payload (by rw [hl]; rfl)
  unfold Store.holds?
  rw [hPayload, hl, Option.map_some]

/-- So has one of a payload that is left. -/
theorem Remains.slot?_of_holds? (h : s.Remains handles loose reclaimed t) {l : LiteralId}
    {payload : Payload} {id : SlotId} (hl : t.holds? l = some payload) (hId : id ∈ payload.slots) :
    (t.slot? id).isSome := by
  obtain ⟨lit, hLit, rfl⟩ := Option.map_eq_some_iff.1 hl
  exact h.slot?_of_mem hLit hId

/-- **Only what is bound to go is held by nobody**: had any slot pointed at the literal that is
still there, it would point there now. -/
theorem Remains.doomed_of_unheld (h : s.Remains handles loose reclaimed t) {l : LiteralId}
    {payload : Payload} (hl : t.literal? l = some ⟨payload, 0⟩) : s.Doomed handles loose l := by
  have hUnheld := h.balanced.not_mem_of_refs hl rfl
  have hElsewhere : ∀ id, (t.slot? id).isSome → s.target? id ≠ some l := by
    intro id hLive hTarget
    rw [← h.target? hLive] at hTarget
    exact hUnheld (Multiset.mem_add.2 (.inl (mem_pointed_of_target? hTarget)))
  refine .intro (fun hHandle => hUnheld (Multiset.mem_add.2 (.inr hHandle))) ?_ ?_ ?_
  · intro name id hName
    exact hElsewhere id (h.slot?_of_lookup hName)
  · intro id hId
    exact hElsewhere id (h.balanced.slot?_isSome_iff.2 (.inr hId))
  · -- an array that pointed here has gone, or its elements would still be there
    rintro k ⟨lit, hk, id, hId, hTarget⟩
    by_cases hGone : t.literal? k = none
    · exact h.doomed k (by rw [hk]; rfl) hGone
    · obtain ⟨left, hLeft⟩ := Option.ne_none_iff_exists'.1 hGone
      have hPayload := h.payload k left.payload (by rw [hLeft]; rfl)
      rw [hk, Option.map_some, Option.some.injEq] at hPayload
      rw [hPayload] at hId
      exact absurd hTarget (hElsewhere id (h.slot?_of_mem hLeft hId))

/-- A round of the sweep that reclaims a literal. -/
theorem Remains.reclaim (h : s.Remains handles loose reclaimed t) {l : LiteralId}
    {payload : Payload} {queue : List LiteralId} (hQueue : t.queue = l :: queue)
    (hl : t.literal? l = some ⟨payload, 0⟩) :
    s.Remains handles loose (l :: reclaimed)
      ((Store.vacate { t with queue } l).freeSlots payload.slots) := by
  have hDoomed := h.doomed_of_unheld hl
  have hSame := sameLiterals_freeSlots (Store.vacate { t with queue } l) payload.slots
  have hLiteral := literal?_of_set (t := Store.vacate { t with queue } l)
    (getElem?_of_literal? hl) rfl
  have hNone : ∀ k, ((Store.vacate { t with queue } l).freeSlots payload.slots).literal? k = none ↔
      k = l ∨ t.literal? k = none := by
    intro k
    rw [← Option.map_eq_none_iff (f := (·.payload)), hSame.payload, Option.map_eq_none_iff,
      hLiteral]
    by_cases hk : k = l <;> simp [hk]
  refine ⟨(h.balanced.vacate hQueue hl).freeSlots, hSame.symbols.trans h.symbols, ?_, ?_, ?_, ?_,
    ?_, ?_, ?_, hSame.slotSize.trans h.slotSize⟩
  · -- what is left was left before this round, with the payload that it had
    intro k found hk
    rw [hSame.payload, hLiteral] at hk
    by_cases hEq : k = l
    · simp [hEq] at hk
    · rw [if_neg hEq] at hk
      exact h.payload k found hk
  · -- slots are taken back in this round, and no other slot is touched
    intro id slot hSlot
    rw [slot?_freeSlots] at hSlot
    split at hSlot
    · cases hSlot
    · exact h.slot id slot hSlot
  · -- what has gone has gone in this round or before it
    intro k hLive hGone
    rcases (hNone k).1 hGone with rfl | hBefore
    · exact hDoomed
    · exact h.doomed k hLive hBefore
  · show _ = l :: (reclaimed ++ s.vacant)
    rw [hSame.vacant, ← h.vacant]
    rfl
  · -- the list of those that have gone is longer by the one that goes in this round
    intro k
    have hBefore : (s.literal? l).isSome := by
      have hPayload := h.payload l payload (by rw [hl]; rfl)
      obtain ⟨lit, hLit, -⟩ := Option.map_eq_some_iff.1 hPayload
      rw [hLit]
      rfl
    rw [List.mem_cons, h.mem_reclaimed, hNone]
    constructor
    · rintro (rfl | ⟨hLive, hGone⟩)
      · exact ⟨hBefore, .inl rfl⟩
      · exact ⟨hLive, .inr hGone⟩
    · rintro ⟨hLive, rfl | hGone⟩
      · exact .inl rfl
      · exact .inr ⟨hLive, hGone⟩
  · -- the count is one more, and the number of literals one less
    have hOne : (Store.vacate { t with queue } l).liveLiterals + 1 = t.liveLiterals :=
      liveLiterals_vacate (s := { t with queue }) hl
    have hCounted := h.counted
    rw [liveLiterals_freeSlots, List.length_cons]
    omega
  · rw [hSame.literalSize, ← h.literalSize]
    exact Array.size_setIfInBounds ..

/-- **A sweep takes out what is bound to go, one literal after the other.** -/
theorem remains_sweepOnto (t : Store) (n : Nat) : ∀ reclaimed,
    s.Remains handles loose reclaimed t →
      ∃ more, s.Remains handles loose (more ++ reclaimed) (t.sweepOnto n).2 ∧
        (t.sweepOnto n).1 = n + more.length := by
  induction t, n using Store.sweepOnto.induct with
  | case1 t n hQueue =>
    intro reclaimed h
    rw [sweepOnto_of_nil hQueue]
    exact ⟨[], h, rfl⟩
  | case2 t n l queue hQueue _ payload hl ih =>
    intro reclaimed h
    rw [sweepOnto_of_unheld hQueue hl]
    obtain ⟨more, hRemains, hCount⟩ := ih _ (h.reclaim hQueue hl)
    refine ⟨more ++ [l], ?_, ?_⟩
    · rw [List.append_assoc]
      exact hRemains
    · rw [hCount, List.length_append, List.length_singleton]
      omega
  | case3 t n l queue hQueue _ hl ih =>
    -- the literal is held again, or gone already
    intro reclaimed h
    rw [sweepOnto_of_held hQueue hl]
    have hPassed := h.balanced.passOver hQueue hl
    exact ih _ ⟨hPassed, h.symbols, h.payload, h.slot, h.doomed, h.vacant, h.mem_reclaimed,
      h.counted, h.literalSize, h.slotSize⟩

/-! ## At the end of a sweep -/

/-- **Nothing is left that is bound to go.** It would be held by somebody, and whoever holds it is
bound to go and has gone. -/
theorem Remains.gone_of_doomed (h : s.Remains handles loose reclaimed t)
    (hHeld : ∀ l lit, t.literal? l = some lit → lit.refs ≠ 0) {l : LiteralId}
    (hDoomed : s.Doomed handles loose l) : t.literal? l = none := by
  induction hDoomed with
  | @intro l hHandle hName hLoose hArrays ih =>
    by_contra hLeft
    obtain ⟨lit, hl⟩ := Option.ne_none_iff_exists'.1 hLeft
    -- somebody still holds it: a handle, or a slot that is left
    rcases h.balanced.exists_holder hl (hHeld l lit hl) with hIn | ⟨id, hTarget⟩
    · exact hHandle hIn
    · have hLive : (t.slot? id).isSome := by
        obtain ⟨slot, hSlot, -⟩ := Option.bind_eq_some_iff.1 hTarget
        rw [hSlot]
        rfl
      rw [h.target? hLive] at hTarget
      -- the slot belongs to a name, to an array, which would have gone before, or to nobody yet
      rcases h.balanced.slot?_isSome_iff.1 hLive with ⟨o, hOwns⟩ | hIn
      · match o, hOwns, h.owns hOwns with
        | .symbol name, _, hSymbol => exact hName name id hSymbol hTarget
        | .element k position, ⟨litk, hk, _⟩, ⟨lits, hs, hPosition⟩ =>
          have hGone := ih k ⟨lits, hs, id, List.mem_of_getElem? hPosition, hTarget⟩
          rw [hk] at hGone
          cases hGone
      · exact hLoose id hIn hTarget

/-- What is left at the end: everything but what is bound to go. -/
theorem Remains.literal?_eq_none_iff (h : s.Remains handles loose reclaimed t)
    (hHeld : ∀ l lit, t.literal? l = some lit → lit.refs ≠ 0) (l : LiteralId) :
    t.literal? l = none ↔ s.literal? l = none ∨ s.Doomed handles loose l := by
  constructor
  · intro hGone
    by_cases hLive : (s.literal? l).isSome
    · exact .inr (h.doomed l hLive hGone)
    · exact .inl (by simpa using hLive)
  · rintro (hNone | hDoomed)
    · by_contra hLeft
      obtain ⟨lit, hl⟩ := Option.ne_none_iff_exists'.1 hLeft
      have hPayload := h.payload l lit.payload (by rw [hl]; rfl)
      rw [hNone] at hPayload
      cases hPayload
    · exact h.gone_of_doomed hHeld hDoomed

/-- In tables of one size, what is found at a number tells the entry. -/
theorem getElem?_eq_of_join {α : Type} {a b : Array (Option α)} (hSize : a.size = b.size) {i : Nat}
    (h : (a[i]?).join = (b[i]?).join) : a[i]? = b[i]? := by
  by_cases hi : i < a.size
  · have hi' : i < b.size := hSize ▸ hi
    simpa [hi, hi'] using h
  · have hi' : ¬ i < b.size := hSize ▸ hi
    simp [hi, hi']

/-- Owners are told by the names and by what the literals hold. -/
theorem owns_of_payload {id : SlotId} {o : Owner} (hSymbols : t.symbols = s.symbols)
    (hPayload : ∀ l, (t.literal? l).map (·.payload) = (s.literal? l).map (·.payload))
    (hOwns : s.Owns id o) : t.Owns id o := by
  match o, hOwns with
  | .symbol name, hName =>
    show t.symbols.find? name = some id
    rw [hSymbols]
    exact hName
  | .element l position, ⟨lit, hl, hPosition⟩ =>
    have hEq := hPayload l
    rw [hl] at hEq
    obtain ⟨lit', hl', hSame⟩ := Option.map_eq_some_iff.1 hEq
    exact ⟨lit', hl', by rw [hSame]; exact hPosition⟩

/-- The same names, slots and literals in two stores. Numbers to be used again and the queue may
differ. -/
structure SameContents (s t : Store) : Prop where
  symbols : t.symbols = s.symbols
  slots : t.slots = s.slots
  literal : ∀ l, t.literal? l = s.literal? l

theorem SameContents.refl (s : Store) : s.SameContents s := ⟨rfl, rfl, fun _ => rfl⟩

theorem SameContents.symm (h : s.SameContents t) : t.SameContents s :=
  ⟨h.symbols.symm, h.slots.symm, fun l => (h.literal l).symm⟩

theorem SameContents.trans (hFirst : s.SameContents t) (hSecond : t.SameContents u) :
    s.SameContents u where
  symbols := hSecond.symbols.trans hFirst.symbols
  slots := hSecond.slots.trans hFirst.slots
  literal l := (hSecond.literal l).trans (hFirst.literal l)

theorem SameContents.target? (h : s.SameContents t) (id : SlotId) : t.target? id = s.target? id :=
  target?_of_slot? (slot?_of_eq h.slots id)

/-- Counts are those of slots and handles, so they agree where the slots and the payloads do. -/
theorem Balanced.sameContents (hs : s.Balanced handles loose) (ht : t.Balanced handles loose)
    (hSymbols : t.symbols = s.symbols) (hSlots : t.slots = s.slots)
    (hPayload : ∀ l, (t.literal? l).map (·.payload) = (s.literal? l).map (·.payload)) :
    s.SameContents t := by
  refine ⟨hSymbols, hSlots, fun l => ?_⟩
  have hEq := hPayload l
  by_cases hGone : s.literal? l = none
  · rw [hGone] at hEq ⊢
    exact Option.map_eq_none_iff.1 hEq
  · -- the counts are those of the slots and of the handles
    obtain ⟨⟨payload, refs⟩, hl⟩ := Option.ne_none_iff_exists'.1 hGone
    rw [hl] at hEq
    obtain ⟨⟨payload', refs'⟩, hl', hPayloadEq⟩ := Option.map_eq_some_iff.1 hEq
    have hCount := hs.counted l _ hl
    have hCount' := ht.counted l _ hl'
    rw [pointed_of_eq hSlots, ← hCount] at hCount'
    dsimp only at hPayloadEq hCount'
    rw [hl, hl', hPayloadEq, hCount']

/-- What is bound to go is told by names, targets and payloads. -/
theorem Doomed.of_sameContents {l : LiteralId} (h : s.SameContents t)
    (hDoomed : s.Doomed handles loose l) : t.Doomed handles loose l := by
  induction hDoomed with
  | @intro l hHandle hName hLoose _ ih =>
    refine .intro hHandle (fun name id hFound => ?_) (fun id hId => ?_) ?_
    · rw [h.target?]
      refine hName name id ?_
      unfold Store.lookup at hFound ⊢
      rwa [h.symbols] at hFound
    · rw [h.target?]
      exact hLoose id hId
    · rintro k ⟨lit, hk, id, hId, hTarget⟩
      rw [h.literal] at hk
      rw [h.target?] at hTarget
      exact ih k ⟨lit, hk, id, hId, hTarget⟩

/-- **Sweeps of stores with the same contents leave the same contents**, literals with their counts
and slots with what they point at. -/
theorem Remains.sameContents {s' : Store} {reclaimed' : List LiteralId} (hSame : s.SameContents s')
    (ht : s.Remains handles loose reclaimed t) (hu : s'.Remains handles loose reclaimed' u)
    (hHeldT : ∀ l lit, t.literal? l = some lit → lit.refs ≠ 0)
    (hHeldU : ∀ l lit, u.literal? l = some lit → lit.refs ≠ 0) : t.SameContents u := by
  -- the same literals are left, and they hold what they held
  have hDoomed : ∀ l, s.Doomed handles loose l ↔ s'.Doomed handles loose l :=
    fun l => ⟨fun h => h.of_sameContents hSame, fun h => h.of_sameContents hSame.symm⟩
  have hPayload : ∀ l, (u.literal? l).map (·.payload) = (t.literal? l).map (·.payload) := by
    intro l
    have hNone : t.literal? l = none ↔ u.literal? l = none := by
      rw [ht.literal?_eq_none_iff hHeldT l, hu.literal?_eq_none_iff hHeldU l, hSame.literal,
        hDoomed]
    by_cases hGone : t.literal? l = none
    · rw [hGone, hNone.1 hGone]
    · obtain ⟨lit, hl⟩ := Option.ne_none_iff_exists'.1 hGone
      obtain ⟨lit', hl'⟩ := Option.ne_none_iff_exists'.1 (fun h => hGone (hNone.2 h))
      have hLeft := ht.payload l lit.payload (by rw [hl]; rfl)
      have hRight := hu.payload l lit'.payload (by rw [hl']; rfl)
      rw [hSame.literal, hLeft, Option.some.injEq] at hRight
      rw [hl, hl', Option.map_some, Option.map_some, hRight]
  -- so the same slots have owners
  have hSymbols : u.symbols = t.symbols := by rw [hu.symbols, hSame.symbols, ht.symbols]
  have hLive : ∀ id, (t.slot? id).isSome ↔ (u.slot? id).isSome := by
    intro id
    rw [ht.balanced.slot?_isSome_iff, hu.balanced.slot?_isSome_iff]
    refine or_congr_left ⟨?_, ?_⟩
    · rintro ⟨o, hOwns⟩
      exact ⟨o, owns_of_payload hSymbols hPayload hOwns⟩
    · rintro ⟨o, hOwns⟩
      exact ⟨o, owns_of_payload hSymbols.symm (fun l => (hPayload l).symm) hOwns⟩
  have hSlot : ∀ id, u.slot? id = t.slot? id := by
    intro id
    by_cases hGone : t.slot? id = none
    · have hNot : ¬ (u.slot? id).isSome := by
        rw [← hLive, hGone]
        exact Bool.false_ne_true
      rw [hGone, Option.not_isSome_iff_eq_none.1 hNot]
    · obtain ⟨slot, hl⟩ := Option.ne_none_iff_exists'.1 hGone
      obtain ⟨slot', hl'⟩ := Option.isSome_iff_exists.1 ((hLive id).1 (by rw [hl]; rfl))
      have hBoth := hu.slot id slot' hl'
      rw [slot?_of_eq hSame.slots, ht.slot id slot hl, Option.some.injEq] at hBoth
      rw [hl, hl', hBoth]
  have hSize : u.slots.size = t.slots.size := by rw [hu.slotSize, hSame.slots, ht.slotSize]
  -- and the counts are those of the slots and handles that are left
  exact ht.balanced.sameContents hu.balanced hSymbols
    (Array.ext_getElem? fun id => getElem?_eq_of_join hSize (hSlot id)) hPayload

/-- Two sweeps of one store leave the same, numbers without a literal or a slot included. -/
theorem Remains.eq {reclaimed' : List LiteralId} (ht : s.Remains handles loose reclaimed t)
    (hu : s.Remains handles loose reclaimed' u)
    (hHeldT : ∀ l lit, t.literal? l = some lit → lit.refs ≠ 0)
    (hHeldU : ∀ l lit, u.literal? l = some lit → lit.refs ≠ 0) :
    t.literals = u.literals ∧ t.slots = u.slots := by
  have hSame := Remains.sameContents (.refl s) ht hu hHeldT hHeldU
  have hSize : t.literals.size = u.literals.size := ht.literalSize.trans hu.literalSize.symm
  exact ⟨Array.ext_getElem? fun l => getElem?_eq_of_join hSize (hSame.literal l).symm,
    hSame.slots.symm⟩

/-! ## Copies -/

/-- Copies of slots that are left agree where those of literals do. -/
theorem Remains.snapshotSlots (h : s.Remains handles loose reclaimed t) {path : List LiteralId}
    {slots : List SlotId} (hLive : ∀ id ∈ slots, (t.slot? id).isSome)
    (hLiteral : ∀ l lit, t.literal? l = some lit →
      t.snapshotLiteral path l = s.snapshotLiteral path l) :
    t.snapshotSlots path slots = s.snapshotSlots path slots := by
  refine snapshotSlots_of_targets (fun id hId => h.target? (hLive id hId))
    fun id hId l hPoints => ?_
  rw [← h.target? (hLive id hId)] at hPoints
  obtain ⟨lit, hl⟩ := h.balanced.live_of_target? hPoints
  exact hLiteral l lit hl

/-- **What is left shows as it did.** -/
theorem Remains.snapshotLiteral (h : s.Remains handles loose reclaimed t) (path : List LiteralId)
    {l : LiteralId} {lit : Literal} (hl : t.literal? l = some lit) :
    t.snapshotLiteral path l = s.snapshotLiteral path l := by
  by_cases hPath : path.contains l = true
  · rw [snapshotLiteral_of_visited hPath, snapshotLiteral_of_visited hPath]
  · have hUnvisited : path.contains l = false := by simpa using hPath
    have hPayload := h.payload l lit.payload (by rw [hl]; rfl)
    rw [snapshotLiteral_of_unvisited hUnvisited, snapshotLiteral_of_unvisited hUnvisited, hPayload,
      hl, Option.map_some]
    rcases hKind : lit.payload with n | f | slots
    · rfl
    · rfl
    · -- the elements of an array that is left are left, with what they point at
      have hFewer := unvisited_cons_lt hl hUnvisited
      refine congrArg Value.array (h.snapshotSlots (fun id hId => ?_) fun k litk hk =>
        h.snapshotLiteral (l :: path) hk)
      exact h.slot?_of_mem hl (by rw [hKind]; exact hId)
termination_by t.unvisited path

/-- So does a slot that is left. -/
theorem Remains.snapshot_writable (h : s.Remains handles loose reclaimed t) {id : SlotId}
    (hLive : (t.slot? id).isSome) : t.snapshot (.writable id) = s.snapshot (.writable id) := by
  simp only [snapshot, ← h.target? hLive]
  rcases hPoints : t.target? id with _ | l
  · rfl
  · obtain ⟨lit, hl⟩ := h.balanced.live_of_target? hPoints
    exact h.snapshotLiteral [] hl

/-- The names stand for the same values. -/
theorem Remains.sameBindings (h : s.Remains handles loose reclaimed t) : s.SameBindings t := by
  refine ⟨h.symbols.symm, fun name => ?_⟩
  unfold standsFor
  rw [h.lookup]
  rcases hName : s.lookup name with _ | id
  · rfl
  · rw [Option.map_some, Option.map_some, h.snapshot_writable (h.slot?_of_lookup hName)]

/-! ## The sweep -/

/-- What the sweep of a store comes to. -/
structure Sweeps (s : Store) (handles : Multiset LiteralId) (loose : Multiset SlotId) : Prop where
  /-- The sweep says how many literals fewer there are. -/
  counted : s.sweep.1 + s.sweep.2.liveLiterals = s.liveLiterals
  emptied : s.sweep.2.queue = []
  /-- Every literal that is left is held. -/
  held : ∀ l lit, s.sweep.2.literal? l = some lit → lit.refs ≠ 0
  /-- What has gone is what was bound to go. -/
  gone : ∀ l, s.sweep.2.literal? l = none ↔ s.literal? l = none ∨ s.Doomed handles loose l
  /-- Every literal that has gone was reclaimed once. The numbers to be used again tell so. -/
  once : ∃ reclaimed, s.sweep.2.vacant = reclaimed ++ s.vacant ∧ reclaimed.Nodup ∧
    reclaimed.length = s.sweep.1 ∧
    ∀ l, l ∈ reclaimed ↔ (s.literal? l).isSome ∧ s.sweep.2.literal? l = none
  /-- Copies of what handles and names stand for are as before. -/
  handles : ∀ l ∈ handles, s.sweep.2.snapshot (.readOnly l) = s.snapshot (.readOnly l)
  names : s.SameBindings s.sweep.2
  /-- With the queue in another order, or with more in it, the same is left. -/
  anyOrder : ∀ queue, s.queue ⊆ queue →
    (sweep { s with queue }).1 = s.sweep.1 ∧
      (sweep { s with queue }).2.literals = s.sweep.2.literals ∧
      (sweep { s with queue }).2.slots = s.sweep.2.slots ∧
      (sweep { s with queue }).2.symbols = s.sweep.2.symbols

/-- The sweep from the start: what is left, how many literals have gone, and that no literal that is
left is unheld. -/
theorem Balanced.exists_remains {queue : List LiteralId} (hs : s.Balanced handles loose)
    (hQueue : s.queue ⊆ queue) :
    ∃ reclaimed, s.Remains handles loose reclaimed (sweep { s with queue }).2 ∧
      (sweep { s with queue }).1 = reclaimed.length ∧ (sweep { s with queue }).2.queue = [] ∧
      ∀ l lit, (sweep { s with queue }).2.literal? l = some lit → lit.refs ≠ 0 := by
  have hStart := hs.remains hQueue
  obtain ⟨reclaimed, hRemains, hCount⟩ := remains_sweepOnto _ 0 [] hStart
  rw [List.append_nil] at hRemains
  rw [Nat.zero_add] at hCount
  exact ⟨reclaimed, hRemains, hCount, (hStart.balanced.sweepOnto 0).2,
    hStart.balanced.held_of_sweepOnto 0⟩

/-- **The sweep reclaims what is bound to go, each literal once, and nothing else**, whatever the
order of the queue is, and whatever is in it twice or is held again. The books balance in every
store that a session comes to (`Session.Kept`), and at every moment of a run (`Machine.Keeps`); the
handles are all that are outstanding. -/
theorem Balanced.sweeps (hs : s.Balanced handles loose) : s.Sweeps handles loose := by
  obtain ⟨reclaimed, hRemains, hCount, hEmpty, hHeld⟩ := hs.exists_remains (List.Subset.refl _)
  have hNodup := hRemains.balanced.vacant.1
  rw [hRemains.vacant] at hNodup
  refine ⟨?_, hEmpty, hHeld, hRemains.literal?_eq_none_iff hHeld, ?_, ?_, hRemains.sameBindings, ?_⟩
  · rw [hCount]
    exact hRemains.counted
  · exact ⟨reclaimed, hRemains.vacant, (List.nodup_append.1 hNodup).1, hCount.symm,
      hRemains.mem_reclaimed⟩
  · intro l hl
    obtain ⟨lit, hLive⟩ := Option.isSome_iff_exists.1
      (hRemains.balanced.backed l (Multiset.mem_add.2 (.inr hl)))
    exact hRemains.snapshotLiteral [] hLive
  · intro queue hQueue
    obtain ⟨reclaimed', hRemains', hCount', -, hHeld'⟩ := hs.exists_remains hQueue
    obtain ⟨hLiterals, hSlots⟩ := hRemains'.eq hRemains hHeld' hHeld
    refine ⟨?_, hLiterals, hSlots, hRemains'.symbols.trans hRemains.symbols.symm⟩
    -- as many literals are left, so as many have gone
    have hCounted := hRemains.counted
    have hCounted' := hRemains'.counted
    unfold liveLiterals at hCounted hCounted'
    rw [hLiterals] at hCounted'
    rw [hCount, hCount']
    exact Nat.add_right_cancel (hCounted'.trans hCounted.symm)

/-- A name has been bound twice, and somebody has a handle on what it stands for now. -/
def boundTwice : Store :=
  let c := (Session.bare {} (.seeded 0)).bindFunction Builtin.slotNumber
  (c.2.bindFunction Builtin.slotNumber).2.store.retain 1

/-- What the name stood for first waits in the queue. The books balance with the handle, and the
sweep does what it should. -/
theorem sweeps_boundTwice :
    boundTwice.queue = [0] ∧ boundTwice.refCount? 1 = some 2 ∧ boundTwice.Balanced {1} 0 ∧
      boundTwice.Sweeps {1} 0 := by
  have hTame := Session.tame_builtin Builtin.slotNumber (List.mem_cons_self ..)
  have hReachable := ((Session.Reachable.bare {} (.seeded 0)).apply
    (.bindFunction Builtin.slotNumber) hTame).apply (.bindFunction Builtin.slotNumber) hTame
  have hBefore := hReachable.kept.store.balanced
  -- nothing was run, so there is no result to hold
  have hBalanced : boundTwice.Balanced {1} 0 := by
    obtain ⟨lit, hl⟩ := Option.isSome_iff_exists.1 (show (Store.literal? (Session.bindFunction
      ((Session.bare {} (.seeded 0)).bindFunction Builtin.slotNumber).2 Builtin.slotNumber).2.store
        1).isSome by decide +kernel)
    exact hBefore.retain hl
  exact ⟨by decide +kernel, by decide +kernel, hBalanced, hBalanced.sweeps⟩

end Store

end Reckon
