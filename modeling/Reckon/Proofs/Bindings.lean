import Reckon.Proofs.Custody
import Reckon.Store.Snapshot

/-!
# What names stand for

Giving up what is held outside the store changes nothing that the names lead to. A literal keeps its
payload until the next sweep, and a slot that is owned from outside is owned by no name and no
array, so taking it back leaves every slot that a name or an array has (`Store.Resembles`). Copies
of what the names hold are therefore the same before and afterwards (`Store.SameBindings`).
-/

namespace Reckon

namespace Store

/-! ## Copies -/

variable {s t u : Store}

/-- A literal that has been entered on the way down is a cycle. -/
theorem snapshotLiteral_of_visited {path : List LiteralId} {l : LiteralId} (h : path.contains l) :
    s.snapshotLiteral path l = .cycle := by
  rw [snapshotLiteral, dif_pos h]

/-- Only the payload of a literal matters for its copy. -/
theorem snapshotLiteral_of_unvisited {path : List LiteralId} {l : LiteralId}
    (h : path.contains l = false) :
    s.snapshotLiteral path l = match (s.literal? l).map (·.payload) with
      | none => .nil
      | some (.number n) => .number n
      | some (.function f) => .function f
      | some (.array slots) => .array (s.snapshotSlots (l :: path) slots) := by
  rw [snapshotLiteral, dif_neg (by simpa using h)]
  split <;> rename_i hl <;> rw [hl] <;> rfl

/-! ## Stores that names lead to the same things in -/

/-- The second store has the same names, the payloads of all literals, and every slot that a name or
an array owns points where it did. -/
structure Resembles (s t : Store) : Prop where
  symbols : t.symbols = s.symbols
  payload : ∀ l, (t.literal? l).map (·.payload) = (s.literal? l).map (·.payload)
  target : ∀ id o, s.Owns id o → t.target? id = s.target? id

theorem Resembles.refl (s : Store) : s.Resembles s := ⟨rfl, fun _ => rfl, fun _ _ _ => rfl⟩

/-- A slot has the same owner in a store that resembles the first one. -/
theorem Resembles.owns (h : s.Resembles t) {id : SlotId} {o : Owner} (hOwns : s.Owns id o) :
    t.Owns id o := by
  cases o with
  | symbol name =>
    have hName : s.lookup name = some id := hOwns
    show t.symbols.find? name = some id
    rw [h.symbols]
    exact hName
  | element l position =>
    obtain ⟨lit, hl, hSlot⟩ := hOwns
    have hPayload := h.payload l
    -- the element stands in the payload of its array, and that is the same
    rw [hl] at hPayload
    obtain ⟨lit', hl', hEq⟩ := Option.map_eq_some_iff.1 hPayload
    refine ⟨lit', hl', ?_⟩
    rw [hEq]
    exact hSlot

/-- To resemble is transitive, since owners are carried over. -/
theorem Resembles.trans (hFirst : s.Resembles t) (hSecond : t.Resembles u) : s.Resembles u where
  symbols := hSecond.symbols.trans hFirst.symbols
  payload l := (hSecond.payload l).trans (hFirst.payload l)
  target id o hOwns := (hSecond.target id o (hFirst.owns hOwns)).trans (hFirst.target id o hOwns)

/-- Copies of slots agree where the slots point at the same literals and the copies of those
agree. -/
theorem snapshotSlots_of_targets {path path' : List LiteralId} {slots : List SlotId}
    (hTarget : ∀ id ∈ slots, t.target? id = s.target? id)
    (hLiteral : ∀ id ∈ slots, ∀ l, s.target? id = some l →
      t.snapshotLiteral path l = s.snapshotLiteral path' l) :
    t.snapshotSlots path slots = s.snapshotSlots path' slots := by
  -- the induction is on the slots, whose copies are put into one list
  induction slots with
  | nil => simp only [snapshotSlots]
  | cons id slots ih =>
    have hHere := List.mem_cons_self (a := id) (l := slots)
    have hRest := ih (fun k hk => hTarget k (List.mem_cons_of_mem _ hk))
      fun k hk => hLiteral k (List.mem_cons_of_mem _ hk)
    simp only [snapshotSlots, hTarget id hHere, hRest]
    rcases hPoints : s.target? id with _ | l
    · rfl
    · simp only [hLiteral id hHere l hPoints]

/-- The copy of a literal is the same in a store that resembles the first one. -/
theorem Resembles.snapshotLiteral (h : s.Resembles t) (path : List LiteralId) (l : LiteralId) :
    t.snapshotLiteral path l = s.snapshotLiteral path l := by
  cases hPath : path.contains l with
  | true => rw [snapshotLiteral_of_visited hPath, snapshotLiteral_of_visited hPath]
  | false =>
    rw [snapshotLiteral_of_unvisited hPath, snapshotLiteral_of_unvisited hPath, h.payload]
    cases hl : s.literal? l with
    | none => rfl
    | some lit =>
      rw [Option.map_some]
      cases hPayload : lit.payload with
      | number n => rfl
      | function f => rfl
      | array slots =>
        -- the path grows, and there are only so many literals to pass
        have hFewer := unvisited_cons_lt hl hPath
        refine congrArg Value.array (snapshotSlots_of_targets (fun id hId => ?_) fun _ _ k _ =>
          h.snapshotLiteral (l :: path) k)
        obtain ⟨position, hPosition⟩ := List.mem_iff_getElem?.1 hId
        refine h.target id (.element l position) ⟨lit, hl, ?_⟩
        rw [hPayload]
        exact hPosition
termination_by s.unvisited path

/-- What a name stands for: a copy of what its slot holds. -/
def standsFor (s : Store) (name : String) : Option Value :=
  (s.lookup name).map fun id => s.snapshot (.writable id)

/-- The same names have the same slots and stand for the same values. -/
structure SameBindings (s t : Store) : Prop where
  symbols : s.symbols = t.symbols
  values : ∀ name, s.standsFor name = t.standsFor name

/-- To have the same bindings is transitive. -/
theorem SameBindings.trans (hFirst : s.SameBindings t) (hSecond : t.SameBindings u) :
    s.SameBindings u :=
  ⟨hFirst.symbols.trans hSecond.symbols,
    fun name => (hFirst.values name).trans (hSecond.values name)⟩

/-- **Names stand for the same values** in stores that resemble each other. -/
theorem Resembles.sameBindings (h : s.Resembles t) : s.SameBindings t := by
  refine ⟨h.symbols.symm, fun name => ?_⟩
  have hLookup : t.lookup name = s.lookup name := by
    unfold lookup
    rw [h.symbols]
  unfold standsFor
  rw [hLookup]
  cases hName : s.lookup name with
  | none => rfl
  | some id =>
    have hTarget := h.target id (.symbol name) hName
    simp only [Option.map_some, snapshot, hTarget, h.snapshotLiteral]

/-! ## Giving objects up -/

variable {handles : Multiset LiteralId} {loose : Multiset SlotId} {objs : Multiset Object}

/-- To give up a literal changes its count and no payload. -/
theorem resembles_forgo (s : Store) (l : LiteralId) : s.Resembles (s.forgo l) := by
  unfold forgo
  split
  · rename_i lit hl
    refine ⟨rfl, fun k => ?_, fun _ _ _ => rfl⟩
    rw [literal?_of_set (getElem?_of_literal? hl) rfl]
    split
    · rename_i hEq
      rw [hEq, hl]
      rfl
    · rfl
  · exact .refl s

/-- A slot that is owned from outside has no other owner. -/
theorem Balanced.ne_of_owns {id k : SlotId} {o : Owner} (hs : s.Balanced handles (id ::ₘ loose))
    (hOwns : s.Owns k o) : k ≠ id := by
  rintro rfl
  -- an owner in the store is counted among the claims on slots
  have hClaim := hs.mem_claims_iff.2 hOwns
  have hOwned : k ∈ s.owned := by
    rw [← slots_claims, Multiset.mem_coe]
    exact List.mem_map.2 ⟨_, hClaim, rfl⟩
  -- it would be counted twice
  have hSingle := hs.single k
  rw [Multiset.count_add, Multiset.count_cons_self] at hSingle
  have hPos := Multiset.count_pos.2 hOwned
  split at hSingle <;> omega

/-- A slot that is owned from outside may be taken back: no name and no array has it. -/
theorem Balanced.resembles_freeSlot {id : SlotId} (hs : s.Balanced handles (id ::ₘ loose)) :
    s.Resembles (s.freeSlot id) := by
  obtain ⟨slot, hSlot⟩ := hs.live_of_loose
  have hWithout : s.Resembles { s with slots := s.slots.setIfInBounds id none } := by
    refine ⟨rfl, fun _ => rfl, fun k o hOwns => ?_⟩
    unfold target?
    rw [slot?_of_set (getElem?_of_slot? hSlot) rfl, if_neg (hs.ne_of_owns hOwns)]
  unfold Store.freeSlot
  simp only [hSlot]
  cases slot.target with
  -- the slot points at nothing, or its literal is given up
  | none => exact hWithout.trans ⟨rfl, fun _ => rfl, fun _ _ _ => rfl⟩
  | some l =>
    refine (hWithout.trans (resembles_forgo _ l)).trans ?_
    exact ⟨rfl, fun _ => rfl, fun _ _ _ => rfl⟩

/-- So may any number of them, one after the other. -/
theorem Balanced.resembles_freeSlots {ids : List SlotId} (hs : s.Balanced handles (ids + loose)) :
    s.Resembles (s.freeSlots ids) := by
  unfold Store.freeSlots
  induction ids generalizing s with
  | nil => exact .refl s
  | cons id ids ih =>
    rw [← Multiset.cons_coe, Multiset.cons_add] at hs
    exact hs.resembles_freeSlot.trans (ih hs.freeSlot)

/-- To give up an object is to take slots back or to count down. -/
theorem Keeps.resembles_release {obj : Object} (hs : s.Keeps (obj ::ₘ objs)) :
    s.Resembles (s.release obj) := by
  cases obj with
  | array slots => exact (keeps_array_iff.1 hs).1.resembles_freeSlots
  | readOnly l => exact resembles_forgo s l
  | _ => exact .refl s

/-- **Giving objects up leaves what the names stand for.** -/
theorem Keeps.resembles_releaseAll {given : List Object} (hs : s.Keeps (given + objs)) :
    s.Resembles (s.releaseAll given) := by
  unfold Store.releaseAll
  -- what is still to be given up is held until its turn comes
  induction given generalizing s with
  | nil => exact .refl s
  | cons obj given ih =>
    rw [← Multiset.cons_coe, Multiset.cons_add] at hs
    exact hs.resembles_release.trans (ih hs.release)

end Store

end Reckon
