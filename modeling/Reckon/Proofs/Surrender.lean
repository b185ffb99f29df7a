import Reckon.Proofs.Changes

/-!
# What happens to an object that finds no place

`Store.bind`, `Store.materialize` and `Store.define` take an object over. When there is no slot for
it they fail, and whoever called them no longer has the object either, so it has to be given up.

Binding and materializing do so. They have taken the object by then, into a new literal if it was
in none, and so they give up a handle instead of the object itself: the counts and the queue are not
those that `Store.release` would have left. After a sweep nothing of that is left
(`Keeps.sweep_turnedAway`). Defining a name fails earlier, while it looks for a slot for the name,
and then nobody gives the object up.

## Results

* `SameContents.sweepOnto` — stores with the same contents have the same contents after a sweep.
* `SameContents.outside`   — the contents of a store tell what is held outside.
* `Keeps.surrenders`       — what becomes of an object when each of the three operations fails.
-/

namespace Reckon

namespace Store

variable {s t : Store} {handles handles' : Multiset LiteralId} {loose loose' : Multiset SlotId}
  {objs : Multiset Object}

/-! ## Stores with the same contents -/

/-- **A sweep goes by the contents of a store**, not by the order of its queue, nor by the numbers
that are to be used again. -/
theorem SameContents.sweepOnto (h : s.SameContents t) (hs : s.Balanced handles loose)
    (ht : t.Balanced handles loose) (n m : Nat) :
    (s.sweepOnto n).2.SameContents (t.sweepOnto m).2 := by
  obtain ⟨_, hLeft, -⟩ := remains_sweepOnto s n [] (hs.remains (List.Subset.refl _))
  obtain ⟨_, hRight, -⟩ := remains_sweepOnto t m [] (ht.remains (List.Subset.refl _))
  exact hLeft.sameContents h hRight (hs.held_of_sweepOnto n) (ht.held_of_sweepOnto m)

/-- **The contents of a store tell what is held outside**: the counts that no slot accounts for, and
the slots that have no owner. -/
theorem SameContents.outside (h : s.SameContents t) (hs : s.Balanced handles loose)
    (ht : t.Balanced handles' loose') : handles = handles' ∧ loose = loose' := by
  constructor
  · ext l
    by_cases hGone : s.literal? l = none
    · -- nobody has a handle on a literal that is not there
      have hNot : l ∉ handles := fun hl => by
        have hLive := hs.backed l (Multiset.mem_add.2 (.inr hl))
        rw [hGone] at hLive
        cases hLive
      have hNot' : l ∉ handles' := fun hl => by
        have hLive := ht.backed l (Multiset.mem_add.2 (.inr hl))
        rw [h.literal, hGone] at hLive
        cases hLive
      rw [Multiset.count_eq_zero.2 hNot, Multiset.count_eq_zero.2 hNot']
    · obtain ⟨lit, hl⟩ := Option.ne_none_iff_exists'.1 hGone
      -- the slots are the same, so they account for as many holders in both stores
      have hCount := hs.counted l lit hl
      have hCount' := ht.counted l lit (by rw [h.literal, hl])
      rw [pointed_of_eq h.slots] at hCount'
      rw [Multiset.count_add] at hCount hCount'
      omega
  · ext id
    have hSingle := hs.single id
    have hSingle' := ht.single id
    rw [slot?_of_eq h.slots, ← hSingle] at hSingle'
    -- both stores own the same slots, and each of them once
    have hOwned : id ∈ s.owned ↔ id ∈ t.owned := by
      have hPayload := fun l => congrArg (Option.map (·.payload)) (h.literal l)
      rw [hs.mem_owned_iff, ht.mem_owned_iff]
      constructor
      · rintro ⟨o, hOwns⟩
        exact ⟨o, owns_of_payload h.symbols hPayload hOwns⟩
      · rintro ⟨o, hOwns⟩
        exact ⟨o, owns_of_payload h.symbols.symm (fun l => (hPayload l).symm) hOwns⟩
    rw [← Multiset.count_pos, ← Multiset.count_pos] at hOwned
    rw [Multiset.count_add] at hSingle
    rw [Multiset.count_add, Multiset.count_add] at hSingle'
    split at hSingle <;> omega

/-- Taking slots back goes by the contents, too. -/
theorem SameContents.freeSlots {ids : List SlotId} (h : s.SameContents t)
    (hs : s.Balanced handles (ids + loose)) (ht : t.Balanced handles (ids + loose)) :
    (s.freeSlots ids).SameContents (t.freeSlots ids) := by
  have hLeft := sameLiterals_freeSlots s ids
  have hRight := sameLiterals_freeSlots t ids
  refine hs.freeSlots.sameContents ht.freeSlots ?_ ?_ fun l => ?_
  · rw [hRight.symbols, h.symbols, hLeft.symbols]
  · refine Array.ext_getElem? fun id => getElem?_eq_of_join ?_ ?_
    · rw [hRight.slotSize, h.slots, hLeft.slotSize]
    · show slot? _ id = slot? _ id
      rw [slot?_freeSlots, slot?_freeSlots, slot?_of_eq h.slots]
  · rw [hRight.payload, h.literal, hLeft.payload]

/-! ## Taking an object and turning it away -/

/-- Taking a handle on a literal that is held and giving it up again changes nothing. -/
theorem forgo_retain {l : LiteralId} {lit : Literal} (hl : s.literal? l = some lit)
    (hHeld : lit.refs ≠ 0) : (s.retain l).forgo l = s := by
  have hEntry := getElem?_of_literal? hl
  obtain ⟨hSize, -⟩ := Array.getElem?_eq_some_iff.1 hEntry
  have hMore : (s.retain l).literal? l = some { lit with refs := lit.refs + 1 } := by
    simp only [Store.retain, hl]
    exact (literal?_of_set hEntry rfl l).trans (if_pos rfl)
  -- counting once more and once less comes to the count there was
  unfold Store.forgo
  simp only [hMore]
  unfold Store.retain
  simp only [hl, Nat.add_sub_cancel, hHeld, if_false, Array.setIfInBounds_setIfInBounds]
  have hSame : s.literals.setIfInBounds l (some lit) = s.literals := by
    refine Array.ext_getElem? fun k => ?_
    by_cases hk : l = k
    · rw [← hk, Array.getElem?_setIfInBounds_self_of_lt hSize, hEntry]
    · rw [Array.getElem?_setIfInBounds_ne hk]
  have hCounted : (lit.refs + 1 == 0) = false := by simp
  simp only [hSame, hCounted, Bool.or_false]

/-- Whoever is counted on is counted. -/
theorem Balanced.refs_ne_zero {l : LiteralId} {lit : Literal} (hs : s.Balanced handles loose)
    (hl : s.literal? l = some lit) (hHeld : l ∈ s.pointed + handles) : lit.refs ≠ 0 :=
  fun hZero => hs.not_mem_of_refs hl hZero hHeld

/-- What is left of a store when an object was taken and there is no place for it. -/
def turnedAway (s : Store) (obj : Object) : Store :=
  (s.take obj).2.release (handleOf (s.take obj).1)

/-- A literal that is made and given up again waits at the front of the queue. -/
theorem Balanced.forgo_addLiteral (hs : s.Balanced handles loose) {payload : Payload}
    {l : LiteralId} (hl : (s.addLiteral payload).1 = l) :
    ((s.addLiteral payload).2.forgo l).symbols = s.symbols ∧
      ((s.addLiteral payload).2.forgo l).slots = s.slots ∧
      ((s.addLiteral payload).2.forgo l).queue = l :: s.queue ∧
      ∀ k, ((s.addLiteral payload).2.forgo l).literal? k =
        if k = l then some ⟨payload, 0⟩ else s.literal? k := by
  subst hl
  obtain ⟨-, hLiteral⟩ := hs.literal?_addLiteral payload
  obtain ⟨hSlots, hSymbols, -⟩ := slots_addLiteral s payload
  have hQueue : (s.addLiteral payload).2.queue = s.queue := by
    unfold Store.addLiteral
    split <;> rfl
  have hMade : (s.addLiteral payload).2.literal? (s.addLiteral payload).1 = some ⟨payload, 1⟩ :=
    (hLiteral _).trans (if_pos rfl)
  simp only [Store.forgo, hMade]
  refine ⟨hSymbols, hSlots, congrArg (List.cons _) hQueue, fun k => ?_⟩
  rw [literal?_of_set (getElem?_of_literal? hMade) rfl, hLiteral]
  split <;> rfl

/-- A plain value that is turned away waits in the queue, in a literal of its own, with all that it
owns. The sweep begins with it, and goes on as if it had been given up. -/
theorem Balanced.sweep_turnedAway {payload : Payload}
    (hs : s.Balanced handles (payload.slots + loose)) :
    (s.freeSlots payload.slots).sweep.2.SameContents
      ((s.addLiteral payload).2.forgo (s.addLiteral payload).1).sweep.2 := by
  have hNew := (hs.literal?_addLiteral payload).1
  have hGivenUp := hs.addLiteral.forgo
  generalize hl : (s.addLiteral payload).1 = l at *
  obtain ⟨hSymbols, hSlots, hQueue, hLiteral⟩ := hs.forgo_addLiteral hl
  generalize (s.addLiteral payload).2.forgo l = u at *
  have hWaits : u.literal? l = some ⟨payload, 0⟩ := (hLiteral l).trans (if_pos rfl)
  -- in the first round the literal goes again, so everything is as it was
  have hSame : s.SameContents (Store.vacate { u with queue := s.queue } l) := by
    refine ⟨hSymbols, hSlots, fun k => ?_⟩
    rw [literal?_of_set (t := Store.vacate { u with queue := s.queue } l)
      (getElem?_of_literal? hWaits) rfl, hLiteral]
    split
    · rename_i hEq
      rw [hEq, hNew]
    · rfl
  have hVacated := hGivenUp.vacate hQueue hWaits
  unfold sweep
  rw [sweepOnto_of_unheld hQueue hWaits]
  exact (hSame.freeSlots hs hVacated).sweepOnto hs.freeSlots hVacated.freeSlots 0 1

/-- **An object that is turned away is given up**: after a sweep the store has the contents that it
would have if the object had been released. -/
theorem Keeps.sweep_turnedAway {obj : Object} (hs : s.Keeps (obj ::ₘ objs)) :
    (s.release obj).sweep.2.SameContents (s.turnedAway obj).sweep.2 := by
  have hBalanced := hs.balanced
  rw [Multiset.cons_bind, Multiset.cons_bind] at hBalanced
  have hPlain (payload : Payload) (hCounts : obj.counts = 0) (hOwns : obj.owns = payload.slots) :
      (s.freeSlots payload.slots).sweep.2.SameContents
        ((s.addLiteral payload).2.forgo (s.addLiteral payload).1).sweep.2 := by
    rw [hCounts, hOwns, zero_add] at hBalanced
    exact hBalanced.sweep_turnedAway
  unfold turnedAway
  cases obj with
  | nil => exact .refl _
  | number n => exact hPlain (.number n) rfl rfl
  | function f => exact hPlain (.function f) rfl rfl
  | array slots => exact hPlain (.array slots) rfl rfl
  | readOnly l =>
    -- the handle was counted once more in between
    have hHeld : l ∈ s.pointed + ({l} + objs.bind Object.counts) := by simp
    obtain ⟨lit, hl⟩ := Option.isSome_iff_exists.1 (hBalanced.backed l hHeld)
    have hBack := forgo_retain hl (hBalanced.refs_ne_zero hl hHeld)
    simp only [Store.take, handleOf, Store.release, hBack]
    exact .refl _
  | writable id =>
    rcases hTarget : s.target? id with _ | l
    · rw [take_writable_none hTarget]
      exact .refl _
    · -- the slot holds on to the literal, so its count is not the last
      obtain ⟨lit, hl⟩ := hBalanced.live_of_target? hTarget
      have hHeld : l ∈ s.pointed + (0 + objs.bind Object.counts) :=
        Multiset.mem_add.2 (.inl (mem_pointed_of_target? hTarget))
      have hBack := forgo_retain hl (hBalanced.refs_ne_zero hl hHeld)
      rw [take_writable hTarget]
      simp only [handleOf, Store.release, hBack]
      exact .refl _

/-! ## Defining -/

/-- An object that counts on nothing and owns nothing can be dropped. -/
theorem release_eq_self {obj : Object} (hCounts : obj.counts = 0) (hOwns : obj.owns = 0) :
    s.release obj = s := by
  cases obj with
  | array slots =>
    obtain rfl : slots = [] := Multiset.coe_eq_zero _ |>.1 hOwns
    rfl
  | readOnly l => exact absurd hCounts (Multiset.singleton_ne_zero l)
  | _ => rfl

/-- **Defining a name fails only when there is no slot left for it**, before anything has
changed. -/
theorem Keeps.define_error {obj : Object} {name : String} {e : Failure}
    (hs : s.Keeps (obj ::ₘ objs)) (hEq : s.define name obj = (.error e, t)) :
    s.lookup name = none ∧ s.allocate = (.error e, s) ∧ t = s := by
  unfold Store.define at hEq
  rcases hs.balanced.intern_cases name with ⟨id, hName, hIntern⟩ | ⟨e', hIntern⟩ |
    ⟨id, u, -, hIntern, hIntroduces⟩
  · -- a name has a slot that can be bound
    obtain ⟨slot, hSlot⟩ := hs.balanced.slot?_of_owns (o := .symbol name) hName
    simp [hIntern, bind_eq hSlot] at hEq
  · simp only [hIntern] at hEq
    cases hEq
    unfold Store.intern at hIntern
    rcases hName : s.lookup name with _ | id
    · rcases hAllocate : s.allocate with ⟨e' | id, u⟩
      · simp only [hName, hAllocate, Prod.mk.injEq, Except.error.injEq] at hIntern
        obtain ⟨rfl, rfl⟩ := hIntern
        exact ⟨rfl, rfl, rfl⟩
      · -- a name that is not in use can be introduced
        have hNone : s.symbols.find? name = none := hName
        have hSymbols := (hs.balanced.carries_allocate hAllocate).symbols
        simp [hName, hAllocate, Symbols.insert, hSymbols, hNone] at hIntern
    · simp [hName] at hIntern
  · -- a slot that was just given out can be bound
    have hMade := (hs.intern name).1
    rw [hIntern] at hMade
    have hOwns : u.Owns id (.symbol name) := by
      show u.lookup name = some id
      rw [hIntroduces.lookup, if_pos rfl]
    obtain ⟨slot, hSlot⟩ := hMade.balanced.slot?_of_owns hOwns
    simp [hIntern, bind_eq hSlot] at hEq

/-- **Dropping an object does as much as releasing it only if it holds nothing**: otherwise the
contents are those of a store in which the object is still outside. -/
theorem Keeps.sameContents_release_iff {obj : Object} (hs : s.Keeps (obj ::ₘ objs)) :
    (s.release obj).sweep.2.SameContents s.sweep.2 ↔ obj.counts = 0 ∧ obj.owns = 0 := by
  constructor
  · intro hSame
    obtain ⟨hCounts, hOwns⟩ := hSame.outside hs.release.sweep.1.balanced hs.sweep.1.balanced
    rw [Multiset.cons_bind] at hCounts hOwns
    exact ⟨by simpa using hCounts, by simpa using hOwns⟩
  · rintro ⟨hCounts, hOwns⟩
    rw [release_eq_self hCounts hOwns]
    exact .refl _

/-! ## All three -/

/-- What becomes of an object when an operation that takes it over fails: what is left of the store
afterwards, and what is left after a sweep. -/
structure Surrenders (s : Store) (obj : Object) (objs : Multiset Object) : Prop where
  /-- Binding gives the object up: the books balance without it, the names stand for what they stood
  for, and a sweep leaves what it leaves when the object has been released. -/
  bind : ∀ id e t, s.bind id obj = (.error e, t) →
    t.Keeps objs ∧ s.SameBindings t.sweep.2 ∧ (s.release obj).sweep.2.SameContents t.sweep.2
  /-- So does making a handle. -/
  materialize : ∀ writable e t, s.materialize obj (s.request obj writable) = (.error e, t) →
    t.Keeps objs ∧ s.SameBindings t.sweep.2 ∧ (s.release obj).sweep.2.SameContents t.sweep.2
  /-- Defining a name does not. It fails when the name is new and there is no slot left, and leaves
  the store as it is. That is what releasing the object leaves only if the object counts on nothing
  and owns nothing. -/
  define : ∀ name e t, s.define name obj = (.error e, t) →
    s.lookup name = none ∧ s.allocate = (.error e, s) ∧ t = s ∧
      ((s.release obj).sweep.2.SameContents t.sweep.2 ↔ obj.counts = 0 ∧ obj.owns = 0)

theorem SameContents.sameBindings (h : s.SameContents t) : s.SameBindings t :=
  Resembles.sameBindings ⟨h.symbols, fun l => by rw [h.literal], fun id _ _ => h.target? id⟩

/-- What names stand for when an object has been given up and the store swept. -/
theorem Keeps.sameBindings_turnedAway {obj : Object} (hs : s.Keeps (obj ::ₘ objs)) :
    s.SameBindings (s.turnedAway obj).sweep.2 := by
  obtain ⟨_, hRemains, -⟩ := hs.release.balanced.exists_remains (List.Subset.refl _)
  have hReleased := hs.resembles_release.sameBindings
  exact (hReleased.trans hRemains.sameBindings).trans hs.sweep_turnedAway.sameBindings

/-- **Binding and materializing give up an object that they have no slot for; defining keeps it from
everybody**, whatever the store is like. -/
theorem Keeps.surrenders {obj : Object} (hs : s.Keeps (obj ::ₘ objs)) :
    s.Surrenders obj objs := by
  have hTurnedAway : (s.turnedAway obj).Keeps objs := hs.take.release
  refine ⟨fun id e t hEq => ?_, fun writable e t hEq => ?_, fun name e t hEq => ?_⟩
  · rcases hSlot : s.slot? id with _ | slot
    · rw [bind_of_gone hSlot] at hEq
      cases hEq
      exact ⟨hTurnedAway, hs.sameBindings_turnedAway, hs.sweep_turnedAway⟩
    · -- there is a slot, so nothing fails
      rw [bind_eq hSlot] at hEq
      cases hEq
  · cases writable with
    | false =>
      -- a handle that is only read needs no slot
      obtain ⟨target, u, hOk, -⟩ := hs.materialize_readOnly
      rw [hOk] at hEq
      cases hEq
    | true =>
      rcases hAllocate : (s.take obj).2.allocate with ⟨e' | id, u⟩
      · rw [materialize_error_eq hAllocate] at hEq
        cases hEq
        exact ⟨hTurnedAway, hs.sameBindings_turnedAway, hs.sweep_turnedAway⟩
      · rw [materialize_writable_eq hAllocate] at hEq
        cases hEq
  · obtain ⟨hName, hAllocate, rfl⟩ := hs.define_error hEq
    exact ⟨hName, hAllocate, rfl, hs.sameContents_release_iff⟩

/-! ## A store without slots to give out -/

/-- A number in a literal that a handle is on, and so many slots that have been given out. Whoever
asked for them has them. -/
def handedOut (n : Nat) : Store :=
  { literals := #[some ⟨.number (.whole 9), 1⟩]
    slots := #[none] ++ Array.replicate n (some {}) }

theorem size_handedOut (n : Nat) : (handedOut n).slots.size = n + 1 := by
  simp [handedOut, Nat.add_comm]

theorem keeps_handedOut (n : Nat) :
    (handedOut n).Keeps (.readOnly 0 ::ₘ {.array (List.range' 1 n)}) := by
  refine ⟨?_, by simp⟩
  have hBooks : (handedOut n).Balanced {0} (List.range' 1 n) := by
    induction n with
    | zero =>
      have hEmpty : (empty (.seeded 0)).Balanced 0 ((Payload.number (.whole 9)).slots + 0) :=
        balanced_empty (.seeded 0)
      exact hEmpty.addLiteral
    | succ n ih =>
      have hMore : handedOut (n + 1) =
          { handedOut n with slots := (handedOut n).slots.push (some {}) } := by
        simp [handedOut, Array.replicate_succ]
      have hGrown := ih.grow.1
      rw [size_handedOut, ← hMore] at hGrown
      have hLoose : ((n + 1) ::ₘ (List.range' 1 n : Multiset SlotId)) =
          (List.range' 1 (n + 1) : Multiset SlotId) := by
        rw [List.range'_concat, Multiset.cons_coe, Multiset.coe_eq_coe, Nat.one_mul, Nat.add_comm]
        exact (List.perm_append_singleton _ _).symm
      rwa [hLoose] at hGrown
  simpa [Object.counts, Object.owns] using hBooks

/-- When all numbers of slots are in use none is given out. -/
theorem allocate_handedOut {n : Nat} (hAll : maxSlotId ≤ n) :
    (handedOut n).allocate = (.error { fault := RuntimeFault.noAvailableId }, handedOut n) := by
  have hSize : maxSlotId < (handedOut n).slots.size := by
    rw [size_handedOut]
    exact Nat.lt_succ_of_le hAll
  exact if_pos hSize

theorem define_handedOut {n : Nat} (hAll : maxSlotId ≤ n) (obj : Object) :
    (handedOut n).define "x" obj =
      (.error { fault := RuntimeFault.noAvailableId }, handedOut n) := by
  have hNew : (handedOut n).lookup "x" = none := rfl
  simp only [Store.define, Store.intern, hNew, allocate_handedOut hAll]

theorem take_handedOut (n : Nat) :
    (handedOut n).take (.readOnly 0) = (some 0, handedOut n) := by
  have hLive : (handedOut n).literal? 0 = some ⟨.number (.whole 9), 1⟩ := rfl
  exact congrArg (Prod.mk (some 0)) (forgo_retain hLive (by simp))

/-- A handle for which there is no slot is given up. -/
theorem surrenders_handedOut :
    (handedOut maxSlotId).Keeps (.readOnly 0 ::ₘ {.array (List.range' 1 maxSlotId)}) ∧
      (∃ t, (handedOut maxSlotId).materialize (.readOnly 0)
          ((handedOut maxSlotId).request (.readOnly 0) true) =
        (.error { fault := RuntimeFault.noAvailableId }, t)) ∧
      (handedOut maxSlotId).Surrenders (.readOnly 0) {.array (List.range' 1 maxSlotId)} := by
  refine ⟨keeps_handedOut _, ⟨_, materialize_error_eq (t := handedOut maxSlotId) ?_⟩,
    (keeps_handedOut _).surrenders⟩
  rw [take_handedOut]
  exact allocate_handedOut (Nat.le_refl _)

/-- A name that finds no slot leaves the handle to nobody: the contents are not those of a store in
which it has been released. -/
theorem not_surrendered_define :
    (handedOut maxSlotId).Keeps (.readOnly 0 ::ₘ {.array (List.range' 1 maxSlotId)}) ∧
      ((handedOut maxSlotId).define "x" (.readOnly 0)).1 =
        .error { fault := RuntimeFault.noAvailableId } ∧
      ¬ ((handedOut maxSlotId).release (.readOnly 0)).sweep.2.SameContents
        ((handedOut maxSlotId).define "x" (.readOnly 0)).2.sweep.2 := by
  rw [define_handedOut (Nat.le_refl _)]
  refine ⟨keeps_handedOut _, rfl, ?_⟩
  rw [(keeps_handedOut _).sameContents_release_iff]
  exact fun hNothing => Multiset.singleton_ne_zero 0 hNothing.1

end Store

end Reckon
