import Reckon.Proofs.Retention

/-!
# What binding a slot changes

`Store.bind` takes an object over, puts what it holds into a literal, points the slot there and
gives up what the slot pointed at before. In a store where literals are shared and arrays lie inside
themselves, this is to change nothing but what the one slot shows, and what shows the slot.

`Store.Exposes s obj id` says that the slot can be reached from what the object holds. Whatever does
not expose the slot shows the same before and afterwards, and also when the store has been swept.
The slot itself shows what the object has shown if the object did not expose it: then there is
nothing in it that binding could have changed, not even when the object is a handle on the very
literal that the slot pointed at.

## Results

* `Balanced.snapshotLiteral_of_path`  — a copy depends on the path only by literals that are there.
* `Keeps.not_exposes_of_lookup`       — nothing exposes the slot of a name.
* `Keeps.rebinds`                     — what binding a slot changes and what it leaves.
-/

namespace Reckon

namespace Store

variable {s t : Store} {handles : Multiset LiteralId} {loose : Multiset SlotId}
  {objs : Multiset Object}

/-! ## What can be reached from an object -/

/-- A slot that can be reached from what an object holds: that of an element of its array, or of an
array further on. -/
def Exposes (s : Store) (obj : Object) (id : SlotId) : Prop :=
  ∃ payload, s.payload? obj = some payload ∧
    ∃ k ∈ payload.slots, k = id ∨ ∃ l, s.target? k = some l ∧ s.Leads l id

/-- A slot that a literal leads to is an element of the literal, or one of its elements leads
there. -/
theorem Leads.exists_element {l : LiteralId} {id : SlotId} (h : s.Leads l id) :
    ∃ payload, s.holds? l = some payload ∧
      ∃ k ∈ payload.slots, k = id ∨ ∃ j, s.target? k = some j ∧ s.Leads j id := by
  obtain ⟨k, payload, hReaches, hHolds, hId⟩ := h
  rcases Relation.ReflTransGen.cases_head hReaches with
    rfl | ⟨j, ⟨lit, hl, i, hi, hTarget⟩, hFurther⟩
  · exact ⟨payload, hHolds, id, hId, .inl rfl⟩
  · exact ⟨lit.payload, holds?_of_literal? hl, i, hi, .inr ⟨j, hTarget, k, payload, hFurther,
      hHolds, hId⟩⟩

theorem Leads.exposes_readOnly {l : LiteralId} {id : SlotId} (h : s.Leads l id) :
    s.Exposes (.readOnly l) id := h.exists_element

theorem Leads.exposes_writable {k id : SlotId} {l : LiteralId} (h : s.Leads l id)
    (hTarget : s.target? k = some l) : s.Exposes (.writable k) id := by
  obtain ⟨payload, hHolds, hElement⟩ := h.exists_element
  refine ⟨payload, ?_, hElement⟩
  simp only [payload?, hTarget, Option.bind_some]
  exact hHolds

/-- **Nothing exposes the slot of a name**: it has one owner, so it is no element of an array. -/
theorem Keeps.not_exposes_of_lookup {name : String} {id : SlotId} {obj : Object}
    (hs : s.Keeps (obj ::ₘ objs)) (hName : s.lookup name = some id) : ¬ s.Exposes obj id := by
  have hOwns : s.Owns id (.symbol name) := hName
  have hElsewhere (l : LiteralId) : ¬ s.Leads l id := fun hLeads => by
    obtain ⟨k, position, hElement⟩ := hLeads.exists_owner
    cases hs.balanced.owner_unique hOwns hElement
  have hLiteral (l : LiteralId) (payload : Payload) (hHolds : s.holds? l = some payload) :
      id ∉ payload.slots := fun hId =>
    hElsewhere l ⟨l, payload, .refl, hHolds, hId⟩
  rintro ⟨payload, hPayload, k, hk, rfl | ⟨l, -, hLeads⟩⟩
  · cases obj with
    | array slots =>
      -- the slots of an array in hand are owned from outside
      cases hPayload
      refine hs.balanced.not_owns_of_loose ?_ hOwns
      rw [Multiset.cons_bind]
      exact Multiset.mem_add.2 (.inl hk)
    | readOnly l => exact hLiteral l payload hPayload hk
    | writable i =>
      obtain ⟨lit, hl, rfl⟩ := Option.map_eq_some_iff.1 hPayload
      obtain ⟨l, -, hl⟩ := Option.bind_eq_some_iff.1 hl
      exact hLiteral l lit.payload (holds?_of_literal? hl) hk
    | number n => cases hPayload; cases hk
    | function f => cases hPayload; cases hk
    | nil => cases hPayload
  · exact hElsewhere l hLeads

/-! ## Paths -/

/-- **Only literals that are there count on a path**: a copy comes to no other. -/
theorem Balanced.snapshotLiteral_of_path (hs : s.Balanced handles loose)
    {path path' : List LiteralId}
    (hPath : ∀ k, (s.literal? k).isSome → path.contains k = path'.contains k) {l : LiteralId}
    {lit : Literal} (hl : s.literal? l = some lit) :
    s.snapshotLiteral path l = s.snapshotLiteral path' l := by
  have hHere := hPath l (by rw [hl]; rfl)
  by_cases hSeen : path.contains l = true
  · rw [snapshotLiteral_of_visited hSeen, snapshotLiteral_of_visited (hHere ▸ hSeen)]
  · have hNew : path.contains l = false := by simpa using hSeen
    rw [snapshotLiteral_of_unvisited hNew, snapshotLiteral_of_unvisited (hHere ▸ hNew), hl,
      Option.map_some]
    rcases lit.payload with n | f | slots
    · rfl
    · rfl
    · -- the paths grow alike, and there are only so many literals to pass
      have hFewer := unvisited_cons_lt hl hNew
      have hLonger : ∀ k, (s.literal? k).isSome →
          (l :: path).contains k = (l :: path').contains k := by
        intro k hk
        rw [List.contains_cons, List.contains_cons, hPath k hk]
      refine congrArg Value.array
        (snapshotSlots_of_targets (fun _ _ => rfl) fun id _ k hTarget => ?_)
      obtain ⟨litk, hk⟩ := hs.live_of_target? hTarget
      exact hs.snapshotLiteral_of_path hLonger hk
termination_by s.unvisited path

/-! ## The slot and the others -/

@[simp] theorem slot?_release_handleOf (s : Store) (target : Option LiteralId) (id : SlotId) :
    (s.release (handleOf target)).slot? id = s.slot? id := by
  rcases target with _ | l
  · rfl
  · exact slot?_forgo s l id

/-- Binding moves one slot. -/
theorem slot?_bind {id : SlotId} {slot : Slot} (hSlot : s.slot? id = some slot) (obj : Object)
    (k : SlotId) :
    (s.bind id obj).2.slot? k = if k = id then some ⟨(s.take obj).1⟩ else s.slot? k := by
  have hTaken : ∀ k, (s.take obj).2.slot? k = s.slot? k := slot?_of_eq (slots_take s obj).1
  have hThere : (s.take obj).2.slot? id = some slot := by rw [hTaken, hSlot]
  rw [bind_eq hSlot, slot?_release_handleOf,
    slot?_of_set (t := (s.take obj).2.setTarget id (s.take obj).1) (getElem?_of_slot? hThere) rfl,
    hTaken]

theorem target?_bind {id : SlotId} {slot : Slot} (hSlot : s.slot? id = some slot) (obj : Object) :
    (s.bind id obj).2.target? id = (s.take obj).1 := by
  unfold target?
  rw [slot?_bind hSlot, if_pos rfl]
  rfl

theorem target?_bind_of_ne {id k : SlotId} {slot : Slot} (hSlot : s.slot? id = some slot)
    (obj : Object) (hOther : k ≠ id) : (s.bind id obj).2.target? k = s.target? k :=
  target?_of_slot? (by rw [slot?_bind hSlot, if_neg hOther])

/-- What binding a slot may change: where the slot points. -/
def Permit.onlySlot (id : SlotId) : Permit := ⟨fun k => k = id, fun _ => False⟩

/-- A literal that does not lead to the slot shows what it showed. -/
theorem Keeps.snapshotLiteral_bind {id : SlotId} {obj : Object} (hs : s.Keeps (obj ::ₘ objs))
    (path : List LiteralId) {l : LiteralId} {lit : Literal} (hl : s.literal? l = some lit)
    (hNot : ¬ s.Leads l id) :
    (s.bind id obj).2.snapshotLiteral path l = s.snapshotLiteral path l := by
  have hAlters : s.Alters (Permit.onlySlot id) (s.bind id obj).2 := hs.alters_bind rfl
  refine hAlters.snapshotLiteral hs.balanced path (holds?_of_literal? hl) fun k hLeads hSame => ?_
  obtain rfl : k = id := hSame
  exact hNot hLeads

/-- Slots that neither are the one that is bound nor lead to it show what they showed. -/
theorem Keeps.snapshotSlots_bind {id : SlotId} {slot : Slot} {obj : Object}
    (hs : s.Keeps (obj ::ₘ objs)) (hSlot : s.slot? id = some slot) (path : List LiteralId)
    {slots : List SlotId}
    (hNot : ∀ k ∈ slots, ¬ (k = id ∨ ∃ l, s.target? k = some l ∧ s.Leads l id)) :
    (s.bind id obj).2.snapshotSlots path slots = s.snapshotSlots path slots := by
  refine snapshotSlots_of_targets (fun k hk => ?_) fun k hk l hTarget => ?_
  · exact target?_bind_of_ne hSlot obj fun hSame => hNot k hk (.inl hSame)
  · obtain ⟨lit, hl⟩ := hs.balanced.live_of_target? hTarget
    exact hs.snapshotLiteral_bind path hl fun hLeads => hNot k hk (.inr ⟨l, hTarget, hLeads⟩)

/-- **Whatever does not expose the slot shows what it showed**: every other slot, and whatever
somebody has in hand. -/
theorem Keeps.snapshot_bind {id : SlotId} {slot : Slot} {obj x : Object}
    (hs : s.Keeps (obj ::ₘ objs)) (hSlot : s.slot? id = some slot)
    (hx : x ∈ objs ∨ x.isWritable) (hOther : x ≠ .writable id) (hNot : ¬ s.Exposes x id) :
    (s.bind id obj).2.snapshot x = s.snapshot x := by
  cases x with
  | array slots =>
    refine congrArg Value.array (hs.snapshotSlots_bind hSlot [] fun k hk hExposed => hNot ?_)
    exact ⟨.array slots, rfl, k, hk, hExposed⟩
  | readOnly l =>
    -- the handle is counted, so the literal is there
    have hIn : Object.readOnly l ∈ objs := by simpa [Object.isWritable] using hx
    have hHeld : l ∈ s.pointed + (obj ::ₘ objs).bind Object.counts :=
      Multiset.mem_add.2 (.inr (Multiset.mem_bind.2 ⟨_, Multiset.mem_cons_of_mem hIn, by
        simp [Object.counts]⟩))
    obtain ⟨lit, hl⟩ := Option.isSome_iff_exists.1 (hs.balanced.backed l hHeld)
    exact hs.snapshotLiteral_bind [] hl fun hLeads => hNot hLeads.exposes_readOnly
  | writable k =>
    have hNe : k ≠ id := fun hSame => hOther (by rw [hSame])
    simp only [snapshot, target?_bind_of_ne hSlot obj hNe]
    rcases hTarget : s.target? k with _ | l
    · rfl
    · obtain ⟨lit, hl⟩ := hs.balanced.live_of_target? hTarget
      exact hs.snapshotLiteral_bind [] hl fun hLeads => hNot (hLeads.exposes_writable hTarget)
  | _ => rfl

/-! ## What the slot shows -/

/-- What a plain value was put into has a number that no literal had. -/
theorem Keeps.holds?_bind_fresh {id : SlotId} {slot : Slot} {obj : Object}
    (hs : s.Keeps (obj ::ₘ objs)) (hSlot : s.slot? id = some slot) (payload : Payload)
    (hTake : s.take obj = (some (s.addLiteral payload).1, (s.addLiteral payload).2)) :
    (s.bind id obj).2.holds? (s.addLiteral payload).1 = some payload := by
  rw [bind_eq hSlot, hTake]
  exact (carries_release_handle _ slot.target 0).holds _ _ (hs.balanced.holds?_addLiteral payload)

/-- **The slot shows what the object has shown**, if the object did not expose it. -/
theorem Keeps.snapshot_bound {id : SlotId} {slot : Slot} {obj : Object}
    (hs : s.Keeps (obj ::ₘ objs)) (hSlot : s.slot? id = some slot) (hNot : ¬ s.Exposes obj id) :
    (s.bind id obj).2.snapshot (.writable id) = s.snapshot obj := by
  have hTarget := target?_bind hSlot obj
  have hUnseen (l : LiteralId) : ([] : List LiteralId).contains l = false := rfl
  simp only [snapshot, hTarget]
  cases obj with
  | nil => rfl
  | number n =>
    have hHolds := hs.holds?_bind_fresh hSlot (.number n) rfl
    unfold holds? at hHolds
    simp only [Store.take, snapshotLiteral_of_unvisited (hUnseen _), hHolds]
  | function f =>
    have hHolds := hs.holds?_bind_fresh hSlot (.function f) rfl
    unfold holds? at hHolds
    simp only [Store.take, snapshotLiteral_of_unvisited (hUnseen _), hHolds]
  | array slots =>
    have hHolds := hs.holds?_bind_fresh hSlot (.array slots) rfl
    have hNew := (hs.balanced.literal?_addLiteral (.array slots)).1
    unfold holds? at hHolds
    simp only [Store.take, snapshotLiteral_of_unvisited (hUnseen _), hHolds]
    generalize (s.addLiteral (.array slots)).1 = l at hNew
    -- the new literal is on the path now, but nothing leads back to it
    have hPath : ∀ k, (s.literal? k).isSome → [l].contains k = [].contains k := by
      intro k hk
      have hNe : k ≠ l := by
        rintro rfl
        rw [hNew] at hk
        cases hk
      simp [hNe]
    refine congrArg Value.array ((hs.snapshotSlots_bind hSlot [l] fun k hk hExposed =>
      hNot ⟨.array slots, rfl, k, hk, hExposed⟩).trans ?_)
    refine snapshotSlots_of_targets (fun _ _ => rfl) fun k _ j hPoints => ?_
    obtain ⟨lit, hj⟩ := hs.balanced.live_of_target? hPoints
    exact hs.balanced.snapshotLiteral_of_path hPath hj
  | readOnly l =>
    obtain ⟨lit, hl⟩ := Option.isSome_iff_exists.1 (hs.balanced.backed l
      (Multiset.mem_add.2 (.inr (by simp [Object.counts]))))
    exact hs.snapshotLiteral_bind [] hl fun hLeads => hNot hLeads.exposes_readOnly
  | writable k =>
    rcases hPoints : s.target? k with _ | l
    · simp only [take_writable_none hPoints, hPoints]
    · obtain ⟨lit, hl⟩ := hs.balanced.live_of_target? hPoints
      simp only [take_writable hPoints, hPoints]
      exact hs.snapshotLiteral_bind [] hl fun hLeads => hNot (hLeads.exposes_writable hPoints)

/-! ## Before and after a sweep -/

/-- What binding a slot has changed in a store, and what it has left. Whatever shows something is a
handle on a slot, or in somebody's hands. -/
structure Rebinds (s : Store) (objs : Multiset Object) (id : SlotId) (obj : Object) (t : Store) :
    Prop where
  /-- No other slot points somewhere else, comes in or goes. -/
  slot : ∀ k, k ≠ id → t.slot? k = s.slot? k
  /-- Every literal holds what it held. -/
  payload : ∀ l payload, s.holds? l = some payload → t.holds? l = some payload
  symbols : t.symbols = s.symbols ∧ t.sweep.2.symbols = s.symbols
  /-- A name whose slot is another one, and does not expose this one, stands for what it stood for,
  also after a sweep. -/
  names : ∀ name k, s.lookup name = some k → k ≠ id → ¬ s.Exposes (.writable k) id →
    t.standsFor name = s.standsFor name ∧ t.sweep.2.standsFor name = s.standsFor name
  /-- So does whatever is counted or owned from outside. -/
  hands : ∀ x ∈ objs, x.isWritable = false → ¬ s.Exposes x id →
    t.snapshot x = s.snapshot x ∧ t.sweep.2.snapshot x = s.snapshot x
  /-- So does any other slot, as long as it is in use. -/
  slots : ∀ k, k ≠ id → ¬ s.Exposes (.writable k) id →
    t.snapshot (.writable k) = s.snapshot (.writable k) ∧
      ((t.sweep.2.slot? k).isSome → t.sweep.2.snapshot (.writable k) = s.snapshot (.writable k))
  /-- The slot shows what the object showed, if the object did not expose it. -/
  bound : ¬ s.Exposes obj id → t.snapshot (.writable id) = s.snapshot obj ∧
    ((t.sweep.2.slot? id).isSome → t.sweep.2.snapshot (.writable id) = s.snapshot obj)

/-- What is in somebody's hands, and no handle on a slot, shows the same after a sweep. -/
theorem Keeps.snapshot_sweep {x : Object} (hs : s.Keeps objs) (hx : x ∈ objs)
    (hPlain : x.isWritable = false) : s.sweep.2.snapshot x = s.snapshot x := by
  obtain ⟨_, hRemains, -⟩ := hs.balanced.exists_remains (List.Subset.refl _)
  cases x with
  | array slots =>
    -- its slots are owned from outside, so they are left
    refine congrArg Value.array (hRemains.snapshotSlots (fun k hk => ?_) fun l lit hl =>
      hRemains.snapshotLiteral [] hl)
    exact hRemains.balanced.slot?_isSome_iff.2 (.inr (Multiset.mem_bind.2 ⟨_, hx, hk⟩))
  | readOnly l =>
    obtain ⟨lit, hl⟩ := Option.isSome_iff_exists.1 (hRemains.balanced.backed l
      (Multiset.mem_add.2 (.inr (Multiset.mem_bind.2 ⟨_, hx, by simp [Object.counts]⟩))))
    exact hRemains.snapshotLiteral [] hl
  | writable k => cases hPlain
  | _ => rfl

/-- **Binding a slot that is in use succeeds, and changes nothing but what exposes the slot.** Every
store of a session balances its books like this, with whatever is in hand. -/
theorem Keeps.rebinds {id : SlotId} {slot : Slot} {obj : Object} (hs : s.Keeps (obj ::ₘ objs))
    (hSlot : s.slot? id = some slot) :
    ∃ t, s.bind id obj = (.ok (), t) ∧ s.Rebinds objs id obj t := by
  have hAlters : s.Alters (Permit.onlySlot id) (s.bind id obj).2 := hs.alters_bind rfl
  have hSymbols : (s.bind id obj).2.symbols = s.symbols := by
    rw [bind_eq hSlot]
    exact (carries_release_handle _ slot.target 0).symbols.trans hs.carries_take.symbols
  have hBound := hs.bind id
  obtain ⟨_, hRemains, -⟩ := hBound.balanced.exists_remains (List.Subset.refl _)
  have hSlots : ∀ k, k ≠ id → ¬ s.Exposes (.writable k) id →
      (s.bind id obj).2.snapshot (.writable k) = s.snapshot (.writable k) := fun k hOther hNot =>
    hs.snapshot_bind hSlot (.inr rfl) (by simpa using hOther) hNot
  refine ⟨(s.bind id obj).2, by rw [bind_eq hSlot], ?_, hAlters.holds, ?_, ?_, ?_, ?_, ?_⟩
  · intro k hOther
    rw [slot?_bind hSlot, if_neg hOther]
  · exact ⟨hSymbols, hRemains.symbols.trans hSymbols⟩
  · intro name k hName hOther hNot
    have hStill : (s.bind id obj).2.standsFor name = s.standsFor name := by
      have hFound : (s.bind id obj).2.lookup name = some k := hAlters.owns k (.symbol name) hName
      unfold standsFor
      rw [hName, hFound, Option.map_some, Option.map_some, hSlots k hOther hNot]
    exact ⟨hStill, (hRemains.sameBindings.values name).symm.trans hStill⟩
  · intro x hx hPlain hNot
    have hStill := hs.snapshot_bind hSlot (.inl hx) (by rintro rfl; cases hPlain) hNot
    exact ⟨hStill, (hBound.snapshot_sweep hx hPlain).trans hStill⟩
  · intro k hOther hNot
    have hStill := hSlots k hOther hNot
    exact ⟨hStill, fun hLive => (hRemains.snapshot_writable hLive).trans hStill⟩
  · intro hNot
    have hShows := hs.snapshot_bound hSlot hNot
    exact ⟨hShows, fun hLive => (hRemains.snapshot_writable hLive).trans hShows⟩

end Store

/-! ## An array inside itself -/

/-- A session in which a statement waits that names an array twice and puts it inside itself. -/
def beforeTangling : Session :=
  ((Session.bare {} (.seeded 0)).load "{x = {1, 0}, y = x, x[1] = x}").forward.2.compile.2

/-- What running the statement gives, before the sweep. -/
def tangling : Except Failure Object × Store :=
  (beforeTangling.program.getD default).run beforeTangling.script
    beforeTangling.storeWithoutResult

/-- The second name is bound to what it stands for already, by a handle on the slot of the first
one. It shows what the first one has shown, and the result, which is still in hand, shows what it
has shown. -/
theorem rebinds_tangling : ∃ result t,
    tangling.1 = .ok result ∧ tangling.2.target? 1 = tangling.2.target? 4 ∧
      (tangling.2.slot? 4).isSome ∧ tangling.2.Keeps (.writable 1 ::ₘ {result}) ∧
      tangling.2.bind 4 (.writable 1) = (.ok (), t) ∧
      t.snapshot (.writable 4) = tangling.2.snapshot (.writable 1) ∧
      t.sweep.2.snapshot result = tangling.2.snapshot result := by
  have hReachable : beforeTangling.Reachable :=
    (((Session.Reachable.bare {} (.seeded 0)).apply
      (.load "{x = {1, 0}, y = x, x[1] = x}") trivial).apply .forward trivial).apply .compile
      trivial
  have hWaits : beforeTangling.program.isSome ∧ tangling.1.isOk ∧
      tangling.2.lookup "y" = some 4 ∧
      tangling.2.target? 1 = tangling.2.target? 4 ∧ (tangling.2.slot? 4).isSome ∧
      tangling.1.toOption.map Object.isWritable = some false := by
    decide +kernel
  obtain ⟨hSome, hOk, hY, hShared, hLive, hPlain⟩ := hWaits
  obtain ⟨p, hp⟩ := Option.isSome_iff_exists.1 hSome
  obtain ⟨code, hChecked⟩ := hReachable.kept.program p hp
  obtain ⟨hKeeps, hTame⟩ := hReachable.kept.storeWithoutResult
  have hRun := Program.keeps_run hChecked hKeeps hTame beforeTangling.script
  have hTangling : p.run beforeTangling.script beforeTangling.storeWithoutResult = tangling := by
    rw [tangling, hp, Option.getD_some]
  rw [hTangling] at hRun
  rcases hResult : tangling.1 with e | result
  · rw [hResult] at hOk
    cases hOk
  · rw [hResult] at hRun
    have hHeld : tangling.2.Keeps (.writable 1 ::ₘ {result}) :=
      Store.Keeps.cons hRun (Object.plain_writable (by decide))
    obtain ⟨slot, hSlot⟩ := Option.isSome_iff_exists.1 hLive
    obtain ⟨t, hBind, hRebinds⟩ := hHeld.rebinds hSlot
    have hNoSlot : result.isWritable = false := by
      rw [hResult] at hPlain
      exact Option.some.inj hPlain
    -- the slot of the name is no element of any array, so neither of them exposes it
    have hShows := hRebinds.bound (hHeld.not_exposes_of_lookup hY)
    have hResultShows := hRebinds.hands result (Multiset.mem_singleton_self _) hNoSlot
      (Store.Keeps.not_exposes_of_lookup hRun hY)
    exact ⟨result, t, rfl, hShared, hLive, hHeld, hBind, hShows.1, hResultShows.2⟩

end Reckon
