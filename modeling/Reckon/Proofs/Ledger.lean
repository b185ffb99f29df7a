import Reckon.Store.Reclaim
import Mathlib.Tactic

/-!
# The books of the store

Everything in the store that needs looking after is in somebody's care. A literal is counted by the
slots that point at it and by the handles on it; a slot is owned by a name, by an array in a
literal, or by whoever has just made it. `Store.Balanced` says that these books balance: every count
is the number of those who hold on, and every slot in use has one owner.

What is held outside the store is part of the books. `Balanced s handles loose` says what it amounts
to: the literals that are held by handles, and the slots that are owned from outside. Every
operation of the store has a lemma that says how it moves things between the store and the outside.
-/

namespace Reckon

/-- Replacing an element of an array takes one out of its bag and puts another in. -/
theorem exists_bag_set {α : Type} {a : Array α} {i : Nat} {x : α} (h : a[i]? = some x) :
    ∃ rest : Multiset α, (a.toList : Multiset α) = x ::ₘ rest ∧
      ∀ y, ((a.setIfInBounds i y).toList : Multiset α) = y ::ₘ rest := by
  obtain ⟨hi, rfl⟩ := Array.getElem?_eq_some_iff.1 h
  refine ⟨(a.toList.eraseIdx i : List α), ?_, fun y => ?_⟩
  · exact Multiset.coe_eq_coe.2 (List.getElem_cons_eraseIdx_perm hi).symm
  · rw [Array.toList_setIfInBounds]
    exact Multiset.coe_eq_coe.2 (List.set_perm_cons_eraseIdx hi y)

/-- The slots that an entry among the literals owns. -/
def Literal.owned (entry : Option Literal) : Multiset SlotId :=
  ((entry.map (·.payload.slots)).getD [] : List SlotId)

/-- The literal that an entry among the slots points at. -/
def Slot.pointed (entry : Option Slot) : Multiset LiteralId := (entry.bind (·.target)).toList

namespace Store

/-! ## What the store holds itself -/

/-- The literals that slots point at, once for each slot. -/
def pointed (s : Store) : Multiset LiteralId := (s.slots.toList : Multiset _).bind Slot.pointed

/-- The slots that names and arrays own, once for each owner. -/
def owned (s : Store) : Multiset SlotId :=
  s.symbols.entries.map (·.2) + (s.literals.toList : Multiset _).bind Literal.owned

/-- The books balance, with so many handles and slots held outside the store. -/
structure Balanced (s : Store) (handles : Multiset LiteralId) (loose : Multiset SlotId) :
    Prop where
  /-- The count of a literal is the number of slots and handles on it. -/
  counted : ∀ l lit, s.literal? l = some lit → lit.refs = (s.pointed + handles).count l
  /-- Nothing holds on to a literal that is not there. -/
  backed : ∀ l ∈ s.pointed + handles, (s.literal? l).isSome
  /-- A slot in use has one owner, and any other number has none. -/
  single : ∀ id, (s.owned + loose).count id = if (s.slot? id).isSome then 1 else 0
  /-- A literal that nobody holds on to waits in the queue. -/
  queued : ∀ l lit, s.literal? l = some lit → lit.refs = 0 → l ∈ s.queue
  /-- Numbers to be used again are those of reclaimed literals, each once. -/
  vacant : s.vacant.Nodup ∧ ∀ l ∈ s.vacant, l < s.literals.size ∧ s.literal? l = none
  /-- Slot numbers to be used again are those of slots that were given back, each once. -/
  free : s.freeIds.Nodup ∧
    ∀ id ∈ s.freeIds, 0 < id ∧ id < s.slots.size ∧ s.slot? id = none
  /-- Number 0 has no slot. -/
  zero : s.slots[0]? = some none
  /-- Every name is there once. -/
  names : (s.symbols.entries.map (·.1)).Nodup
  /-- Nothing has been given up that nobody held on to. -/
  solvent : s.overdrawn = false

variable {s : Store} {handles : Multiset LiteralId} {loose : Multiset SlotId}

/-- The books of an empty store balance with nothing held outside it. -/
theorem balanced_empty (entropy : Entropy) : (empty entropy).Balanced 0 0 where
  -- there are no literals and no names, and the one entry among the slots is empty
  counted l lit hl := by simp [empty, literal?] at hl
  backed l hl := by simp [empty, pointed, Slot.pointed] at hl
  single id := by
    have hNone : (empty entropy).slot? id = none := by
      unfold slot? empty
      cases id <;> simp
    rw [hNone]
    simp [empty, owned]
  queued l lit hl := by simp [empty, literal?] at hl
  vacant := by simp [empty]
  free := by simp [empty]
  zero := rfl
  names := by simp [empty]
  solvent := rfl

/-! ## Entries -/

/-- Setting one entry among the literals leaves the others. -/
theorem literal?_of_set {t : Store} {l : LiteralId} {old entry : Option Literal}
    (hOld : s.literals[l]? = some old) (hEq : t.literals = s.literals.setIfInBounds l entry)
    (k : LiteralId) : t.literal? k = if k = l then entry else s.literal? k := by
  obtain ⟨hl, -⟩ := Array.getElem?_eq_some_iff.1 hOld
  unfold literal?
  rw [hEq, Array.getElem?_setIfInBounds]
  by_cases hk : k = l
  · subst hk
    simp [hl]
  · rw [if_neg (fun h => hk h.symm), if_neg hk]

/-- Setting one entry among the slots leaves the others. -/
theorem slot?_of_set {t : Store} {id : SlotId} {old entry : Option Slot}
    (hOld : s.slots[id]? = some old) (hEq : t.slots = s.slots.setIfInBounds id entry)
    (k : SlotId) : t.slot? k = if k = id then entry else s.slot? k := by
  obtain ⟨hl, -⟩ := Array.getElem?_eq_some_iff.1 hOld
  unfold slot?
  rw [hEq, Array.getElem?_setIfInBounds]
  by_cases hk : k = id
  · subst hk
    simp [hl]
  · rw [if_neg (fun h => hk h.symm), if_neg hk]

theorem getElem?_of_literal? {l : LiteralId} {lit : Literal} (h : s.literal? l = some lit) :
    s.literals[l]? = some (some lit) := Option.join_eq_some_iff.1 h

theorem getElem?_of_slot? {id : SlotId} {slot : Slot} (h : s.slot? id = some slot) :
    s.slots[id]? = some (some slot) := Option.join_eq_some_iff.1 h

/-- Where no slot is in use, the entry is empty. -/
theorem getElem?_of_slot?_none {id : SlotId} (hSize : id < s.slots.size) (h : s.slot? id = none) :
    s.slots[id]? = some none := by
  unfold slot? at h
  rw [Array.getElem?_eq_getElem hSize] at h ⊢
  simpa using h

/-- Where no literal is, the entry is empty. -/
theorem getElem?_of_literal?_none {l : LiteralId} (hSize : l < s.literals.size)
    (h : s.literal? l = none) : s.literals[l]? = some none := by
  unfold literal? at h
  rw [Array.getElem?_eq_getElem hSize] at h ⊢
  simpa using h

/-- Replacing an entry among the literals moves the slots that it owns. -/
theorem owned_of_set {t : Store} {l : LiteralId} {old entry : Option Literal}
    (hOld : s.literals[l]? = some old) (hEq : t.literals = s.literals.setIfInBounds l entry)
    (hSymbols : t.symbols = s.symbols) :
    t.owned + Literal.owned old = s.owned + Literal.owned entry := by
  obtain ⟨rest, hBag, hNew⟩ := exists_bag_set hOld
  unfold owned
  rw [hEq, hSymbols, hBag, hNew, Multiset.cons_bind, Multiset.cons_bind]
  abel

/-- Replacing an entry among the slots moves what it points at. -/
theorem pointed_of_set {t : Store} {id : SlotId} {old entry : Option Slot}
    (hOld : s.slots[id]? = some old) (hEq : t.slots = s.slots.setIfInBounds id entry) :
    t.pointed + Slot.pointed old = s.pointed + Slot.pointed entry := by
  obtain ⟨rest, hBag, hNew⟩ := exists_bag_set hOld
  unfold pointed
  rw [hEq, hBag, hNew, Multiset.cons_bind, Multiset.cons_bind]
  abel

/-- What slots point at depends on the slots alone. -/
theorem pointed_of_eq {t : Store} (h : t.slots = s.slots) : t.pointed = s.pointed := by
  unfold pointed
  rw [h]

/-- Which slots there are depends on the table alone. -/
theorem slot?_of_eq {t : Store} (h : t.slots = s.slots) (id : SlotId) :
    t.slot? id = s.slot? id := by
  unfold slot?
  rw [h]

/-- Which literals there are depends on the table alone. -/
theorem literal?_of_eq {t : Store} (h : t.literals = s.literals) (l : LiteralId) :
    t.literal? l = s.literal? l := by
  unfold literal?
  rw [h]

/-- A slot that is owned from outside is there. -/
theorem Balanced.live_of_loose {id : SlotId} (hs : s.Balanced handles (id ::ₘ loose)) :
    ∃ slot, s.slot? id = some slot := by
  have hSingle := hs.single id
  rw [Multiset.add_cons, Multiset.count_cons_self] at hSingle
  split at hSingle
  · rename_i hLive
    exact Option.isSome_iff_exists.1 hLive
  · omega

/-- Number 0 has no slot. -/
theorem Balanced.slot?_zero (hs : s.Balanced handles loose) : s.slot? 0 = none := by
  unfold slot?
  rw [hs.zero]
  rfl

/-- A slot in use has another number than 0. -/
theorem Balanced.pos_of_slot? {id : SlotId} {slot : Slot} (hs : s.Balanced handles loose)
    (h : s.slot? id = some slot) : 0 < id := by
  refine Nat.pos_of_ne_zero fun hZero => ?_
  rw [hZero, hs.slot?_zero] at h
  cases h

/-- A literal that a handle is on is there. -/
theorem Balanced.live_of_handle {l : LiteralId} (hs : s.Balanced (l ::ₘ handles) loose) :
    ∃ lit, s.literal? l = some lit :=
  Option.isSome_iff_exists.1 (hs.backed l (by simp))

/-- What a slot points at is there. -/
theorem Balanced.live_of_target? {id : SlotId} {l : LiteralId} (hs : s.Balanced handles loose)
    (h : s.target? id = some l) : ∃ lit, s.literal? l = some lit := by
  obtain ⟨slot, hSlot, hTarget⟩ := Option.bind_eq_some_iff.1 h
  obtain ⟨rest, hBag, -⟩ := exists_bag_set (getElem?_of_slot? hSlot)
  refine Option.isSome_iff_exists.1 (hs.backed l ?_)
  simp [pointed, hBag, Slot.pointed, hTarget]

/-! ## Counting -/

/-- A literal of which only the count is another keeps its place in the books. -/
theorem owned_of_recount {t : Store} {l : LiteralId} {lit : Literal} {refs : Nat}
    (hl : s.literal? l = some lit)
    (hEq : t.literals = s.literals.setIfInBounds l (some { lit with refs }))
    (hSymbols : t.symbols = s.symbols) : t.owned = s.owned := by
  have hMove := owned_of_set (getElem?_of_literal? hl) hEq hSymbols
  exact add_right_cancel hMove

/-- Counting a literal anew while handles on it come or go. -/
theorem Balanced.recount {t : Store} {l : LiteralId} {lit : Literal} {refs : Nat}
    {handles' : Multiset LiteralId} (hs : s.Balanced handles loose) (hl : s.literal? l = some lit)
    (hLiterals : t.literals = s.literals.setIfInBounds l (some { lit with refs }))
    (hVacant : t.vacant = s.vacant) (hSlots : t.slots = s.slots) (hFree : t.freeIds = s.freeIds)
    (hSymbols : t.symbols = s.symbols) (hCount : refs = (s.pointed + handles').count l)
    (hOthers : ∀ k, k ≠ l → handles'.count k = handles.count k) (hQueue : s.queue ⊆ t.queue)
    (hZero : refs = 0 → l ∈ t.queue) (hSolvent : t.overdrawn = false) :
    t.Balanced handles' loose := by
  have hEntry := getElem?_of_literal? hl
  have hLiteral := literal?_of_set hEntry hLiterals
  have hPointed := pointed_of_eq hSlots
  have hOwned := owned_of_recount hl hLiterals hSymbols
  have hSlot := slot?_of_eq hSlots
  refine ⟨?_, ?_, ?_, ?_, ?_, ?_, ?_, ?_, hSolvent⟩
  · -- the count of the literal itself is given, and no other has changed
    intro k found hk
    rw [hLiteral] at hk
    rw [hPointed]
    split at hk
    · rename_i hEq
      cases hk
      rw [hEq]
      exact hCount
    · rename_i hNe
      rw [Multiset.count_add, hOthers k hNe, ← Multiset.count_add]
      exact hs.counted k found hk
  · -- the literal is there, and the others were before
    intro k hk
    rw [hPointed] at hk
    rw [hLiteral]
    split
    · rfl
    · rename_i hNe
      refine hs.backed k ?_
      rw [← Multiset.count_pos] at hk ⊢
      rwa [Multiset.count_add, hOthers k hNe, ← Multiset.count_add] at hk
  · -- nothing has changed hands
    intro id
    rw [hOwned, hSlot]
    exact hs.single id
  · -- nobody has given up the others, so they wait as before
    intro k found hk hNone
    rw [hLiteral] at hk
    split at hk
    · rename_i hEq
      cases hk
      rw [hEq]
      exact hZero hNone
    · exact hQueue (hs.queued k found hk hNone)
  · -- no literal has come or gone
    rw [hVacant]
    refine ⟨hs.vacant.1, fun k hk => ?_⟩
    obtain ⟨hSize, hNone⟩ := hs.vacant.2 k hk
    rw [hLiteral, hLiterals, Array.size_setIfInBounds, if_neg, hNone]
    · exact ⟨hSize, rfl⟩
    · rintro rfl
      rw [hNone] at hl
      cases hl
  · -- no slot has come or gone
    rw [hFree, hSlots]
    refine ⟨hs.free.1, fun id hid => ?_⟩
    rw [hSlot]
    exact hs.free.2 id hid
  · rw [hSlots]
    exact hs.zero
  · rw [hSymbols]
    exact hs.names

/-- Taking a handle on a literal. -/
theorem Balanced.retain {l : LiteralId} {lit : Literal} (hs : s.Balanced handles loose)
    (hl : s.literal? l = some lit) : (s.retain l).Balanced (l ::ₘ handles) loose := by
  have hCount := hs.counted l lit hl
  unfold Store.retain
  simp only [hl]
  refine hs.recount hl rfl rfl rfl rfl rfl ?_ ?_ (List.Subset.refl _) (by simp) hs.solvent
  · rw [Multiset.add_cons, Multiset.count_cons_self, hCount]
  · intro k hk
    exact Multiset.count_cons_of_ne hk _

/-- Giving a handle on a literal up. -/
theorem Balanced.forgo {l : LiteralId} (hs : s.Balanced (l ::ₘ handles) loose) :
    (s.forgo l).Balanced handles loose := by
  obtain ⟨lit, hl⟩ := hs.live_of_handle
  have hCount := hs.counted l lit hl
  rw [Multiset.add_cons, Multiset.count_cons_self] at hCount
  unfold Store.forgo
  simp only [hl]
  refine hs.recount hl rfl rfl rfl rfl rfl (by omega) ?_ ?_ ?_ ?_
  · intro k hk
    exact (Multiset.count_cons_of_ne hk _).symm
  · intro k hk
    dsimp only
    split
    · exact List.mem_cons_of_mem _ hk
    · exact hk
  -- a literal that nobody holds on to any more is put into the queue
  · intro hNone
    dsimp only
    rw [if_pos hNone]
    exact List.mem_cons_self ..
  · -- the handle itself has been counted
    have hHeld : (lit.refs == 0) = false := by
      rw [beq_eq_false_iff_ne]
      omega
    simp only [hs.solvent, hHeld, Bool.or_self]

/-! ## Slots -/

/-- Replacing the entry of a slot while what it points at and who owns it changes. -/
theorem Balanced.replace {t : Store} {id : SlotId} {old entry : Option Slot}
    {handles' : Multiset LiteralId} {loose' : Multiset SlotId} (hs : s.Balanced handles loose)
    (hOld : s.slots[id]? = some old) (hPos : 0 < id)
    (hSlots : t.slots = s.slots.setIfInBounds id entry) (hLiterals : t.literals = s.literals)
    (hVacant : t.vacant = s.vacant) (hSymbols : t.symbols = s.symbols) (hQueue : t.queue = s.queue)
    (hSolvent : t.overdrawn = s.overdrawn) (hFree : t.freeIds.Nodup ∧
      ∀ k ∈ t.freeIds, k ∈ s.freeIds ∧ (k = id → entry = none))
    (hHandles : Slot.pointed entry + handles' = Slot.pointed old + handles)
    (hLoose : ∀ k, k ≠ id → loose'.count k = loose.count k)
    (hOwner : (s.owned + loose').count id = if entry.isSome then 1 else 0) :
    t.Balanced handles' loose' := by
  have hSlot := slot?_of_set hOld hSlots
  have hLiteral := literal?_of_eq hLiterals
  have hHolders : t.pointed + handles' = s.pointed + handles := by
    have hMove := pointed_of_set hOld hSlots
    refine add_right_cancel (b := Slot.pointed old) ?_
    calc t.pointed + handles' + Slot.pointed old
        = t.pointed + Slot.pointed old + handles' := by abel
      _ = s.pointed + (Slot.pointed entry + handles') := by rw [hMove]; abel
      _ = s.pointed + handles + Slot.pointed old := by rw [hHandles]; abel
  have hOwned : t.owned = s.owned := by
    unfold owned
    rw [hSymbols, hLiterals]
  refine ⟨?_, ?_, ?_, ?_, ?_, ?_, ?_, ?_, ?_⟩
  · -- all who hold on to literals are as many as before
    intro l lit hl
    rw [hLiteral] at hl
    rw [hHolders]
    exact hs.counted l lit hl
  · intro l hl
    rw [hHolders] at hl
    rw [hLiteral]
    exact hs.backed l hl
  · -- the slot itself has the owner that is given, and every other its own
    intro k
    rw [hOwned, hSlot]
    split
    · rename_i hEq
      rw [hEq]
      exact hOwner
    · rename_i hNe
      rw [Multiset.count_add, hLoose k hNe, ← Multiset.count_add]
      exact hs.single k
  · intro l lit hl hNone
    rw [hLiteral] at hl
    rw [hQueue]
    exact hs.queued l lit hl hNone
  · rw [hVacant]
    refine ⟨hs.vacant.1, fun l hl => ?_⟩
    rw [hLiterals, hLiteral]
    exact hs.vacant.2 l hl
  · -- a number that is free had no slot before and has none now
    refine ⟨hFree.1, fun k hk => ?_⟩
    obtain ⟨hOldFree, hGone⟩ := hFree.2 k hk
    obtain ⟨hPosK, hSize, hNone⟩ := hs.free.2 k hOldFree
    rw [hSlots, Array.size_setIfInBounds, hSlot]
    refine ⟨hPosK, hSize, ?_⟩
    split
    · rename_i hEq
      exact hGone hEq
    · exact hNone
  · rw [hSlots, Array.getElem?_setIfInBounds, if_neg (Nat.ne_of_gt hPos)]
    exact hs.zero
  · rw [hSymbols]
    exact hs.names
  · rw [hSolvent]
    exact hs.solvent

/-- Pointing a slot somewhere else: a handle on the new literal goes into the slot, and what the
slot pointed at is held by a handle instead. -/
theorem Balanced.setTarget {id : SlotId} {slot : Slot} {target : Option LiteralId}
    (hs : s.Balanced (target.toList + handles) loose) (hSlot : s.slot? id = some slot) :
    (s.setTarget id target).Balanced (slot.target.toList + handles) loose := by
  have hLive := hs.single id
  rw [hSlot] at hLive
  refine hs.replace (getElem?_of_slot? hSlot) (hs.pos_of_slot? hSlot) rfl rfl rfl rfl rfl rfl
    ⟨hs.free.1, ?_⟩ ?_ (fun _ _ => rfl) hLive
  · intro k hk
    refine ⟨hk, ?_⟩
    rintro rfl
    rw [(hs.free.2 k hk).2.2] at hSlot
    cases hSlot
  -- the target and what the slot pointed at change places
  · simp only [Slot.pointed, Option.bind_some]
    exact add_left_comm _ _ _

/-- Giving out a slot number for the first time. -/
theorem Balanced.grow (hs : s.Balanced handles loose) :
    Balanced { s with slots := s.slots.push (some {}) } handles (s.slots.size ::ₘ loose) ∧
      slot? { s with slots := s.slots.push (some {}) } s.slots.size = some {} := by
  -- number 0 is in the table, so it has an entry at least
  have hPositive : 0 < s.slots.size := (Array.getElem?_eq_some_iff.1 hs.zero).1
  have hSlot (k : SlotId) : slot? { s with slots := s.slots.push (some {}) } k =
      if k = s.slots.size then some {} else s.slot? k := by
    unfold slot?
    rw [Array.getElem?_push]
    split <;> rfl
  have hPointed : pointed { s with slots := s.slots.push (some {}) } = s.pointed := by
    simp only [pointed, Array.toList_push, ← Multiset.coe_add, Multiset.add_bind]
    simp [Slot.pointed]
  -- the new number is behind the end of the table, so nobody owned it
  have hNone : s.slot? s.slots.size = none := by simp [slot?]
  have hUnowned := hs.single s.slots.size
  rw [hNone] at hUnowned
  refine ⟨⟨?_, ?_, ?_, hs.queued, hs.vacant, ⟨hs.free.1, ?_⟩, ?_, hs.names, hs.solvent⟩, ?_⟩
  · intro l lit hl
    rw [hPointed]
    exact hs.counted l lit hl
  · intro l hl
    rw [hPointed] at hl
    exact hs.backed l hl
  · intro k
    rw [hSlot, Multiset.add_cons]
    split
    · rename_i hEq
      rw [hEq, Multiset.count_cons_self]
      exact congrArg (· + 1) hUnowned
    · rename_i hNe
      rw [Multiset.count_cons_of_ne hNe]
      exact hs.single k
  · intro k hk
    obtain ⟨hPos, hSize, hGone⟩ := hs.free.2 k hk
    rw [hSlot, if_neg (Nat.ne_of_lt hSize), Array.size_push]
    exact ⟨hPos, Nat.lt_succ_of_lt hSize, hGone⟩
  · rw [Array.getElem?_push, if_neg (Nat.ne_of_lt hPositive)]
    exact hs.zero
  · rw [hSlot, if_pos rfl]

/-- Giving out a slot number that was given back. -/
theorem Balanced.reuse {id : SlotId} {freeIds : List SlotId} (hs : s.Balanced handles loose)
    (hFree : s.freeIds = id :: freeIds) :
    Balanced { s with slots := s.slots.setIfInBounds id (some {}), freeIds } handles
        (id ::ₘ loose) ∧
      slot? { s with slots := s.slots.setIfInBounds id (some {}), freeIds } id = some {} := by
  -- the number was listed, so it had no slot and nobody owned it
  have hNodup := hs.free.1
  rw [hFree, List.nodup_cons] at hNodup
  obtain ⟨hPos, hSize, hNone⟩ := hs.free.2 id (by rw [hFree]; exact List.mem_cons_self ..)
  have hEntry := getElem?_of_slot?_none hSize hNone
  have hUnowned := hs.single id
  rw [hNone] at hUnowned
  refine ⟨hs.replace hEntry hPos rfl rfl rfl rfl rfl rfl ⟨hNodup.2, ?_⟩ rfl ?_ ?_, ?_⟩
  · intro k hk
    refine ⟨by rw [hFree]; exact List.mem_cons_of_mem _ hk, ?_⟩
    rintro rfl
    exact absurd hk hNodup.1
  · intro k hk
    exact Multiset.count_cons_of_ne hk _
  · rw [Multiset.add_cons, Multiset.count_cons_self, hUnowned]
    rfl
  · rw [slot?_of_set hEntry rfl, if_pos rfl]

/-- A slot that is given out belongs to whoever asked for it. -/
theorem Balanced.allocate_ok {id : SlotId} {t : Store} (hs : s.Balanced handles loose)
    (hEq : s.allocate = (.ok id, t)) :
    t.Balanced handles (id ::ₘ loose) ∧ t.slot? id = some {} := by
  unfold Store.allocate at hEq
  split at hEq
  -- the latest number of the list, or a new one if the list is empty
  · rename_i hFree
    cases hEq
    exact hs.reuse hFree
  · split at hEq
    · cases hEq
    · cases hEq
      exact hs.grow

/-- When no slot is left, nothing has changed. -/
theorem allocate_error {e : Failure} {t : Store} (hEq : s.allocate = (.error e, t)) : t = s := by
  unfold Store.allocate at hEq
  split at hEq
  · cases hEq
  · split at hEq
    · cases hEq
      rfl
    · cases hEq

/-- The number of a slot that is gone can be used again. -/
theorem Balanced.recycle {id : SlotId} (hs : s.Balanced handles loose) (hPos : 0 < id)
    (hGone : s.slots[id]? = some none) (hNew : id ∉ s.freeIds) :
    Balanced { s with freeIds := id :: s.freeIds } handles loose := by
  obtain ⟨hSize, hNone⟩ := Array.getElem?_eq_some_iff.1 hGone
  refine ⟨hs.counted, hs.backed, hs.single, hs.queued, hs.vacant, ⟨hs.free.1.cons hNew, ?_⟩,
    hs.zero, hs.names, hs.solvent⟩
  intro k hk
  rcases List.mem_cons.1 hk with rfl | hk
  · refine ⟨hPos, hSize, ?_⟩
    unfold slot?
    rw [hGone]
    rfl
  · exact hs.free.2 k hk

/-- Giving up a handle leaves the slots alone. -/
theorem slots_forgo (s : Store) (l : LiteralId) :
    (s.forgo l).slots = s.slots ∧ (s.forgo l).freeIds = s.freeIds := by
  unfold Store.forgo
  split <;> exact ⟨rfl, rfl⟩

/-- Taking back a slot that is owned from outside. -/
theorem Balanced.freeSlot {id : SlotId} (hs : s.Balanced handles (id ::ₘ loose)) :
    (s.freeSlot id).Balanced handles loose := by
  obtain ⟨slot, hSlot⟩ := hs.live_of_loose
  have hEntry := getElem?_of_slot? hSlot
  have hPos := hs.pos_of_slot? hSlot
  have hNotFree : id ∉ s.freeIds := by
    intro hFree
    rw [(hs.free.2 id hFree).2.2] at hSlot
    cases hSlot
  have hOwner := hs.single id
  rw [hSlot, Multiset.add_cons, Multiset.count_cons_self] at hOwner
  -- the slot goes first, so its literal is held by a handle for a moment
  have hWithout : Balanced { s with slots := s.slots.setIfInBounds id none }
      (slot.target.toList + handles) loose := by
    refine hs.replace hEntry hPos rfl rfl rfl rfl rfl rfl ⟨hs.free.1, ?_⟩ ?_ ?_ ?_
    · intro k hk
      exact ⟨hk, fun _ => rfl⟩
    · simp [Slot.pointed]
    · intro k hk
      exact (Multiset.count_cons_of_ne hk _).symm
    · simpa using hOwner
  have hGone : (s.slots.setIfInBounds id none)[id]? = some none := by
    obtain ⟨hSize, -⟩ := Array.getElem?_eq_some_iff.1 hEntry
    rw [Array.getElem?_setIfInBounds, if_pos rfl, if_pos hSize]
  unfold Store.freeSlot
  simp only [hSlot]
  cases hTarget : slot.target with
  | none =>
    rw [hTarget] at hWithout
    exact Balanced.recycle (by simpa using hWithout) hPos hGone hNotFree
  | some l =>
    rw [hTarget] at hWithout
    have hForgone := Balanced.forgo (l := l) hWithout
    obtain ⟨hSlots, hFree⟩ := slots_forgo { s with slots := s.slots.setIfInBounds id none } l
    refine hForgone.recycle hPos ?_ ?_
    · rw [hSlots]
      exact hGone
    · rw [hFree]
      exact hNotFree

/-- Taking back slots that are owned from outside. -/
theorem Balanced.freeSlots {ids : List SlotId} (hs : s.Balanced handles (ids + loose)) :
    (s.freeSlots ids).Balanced handles loose := by
  unfold Store.freeSlots
  -- induction on the slots, with the store left open
  induction ids generalizing s with
  | nil => simpa using hs
  | cons id ids ih =>
    rw [← Multiset.cons_coe, Multiset.cons_add] at hs
    exact ih hs.freeSlot

/-! ## New literals -/

/-- A literal under a number that has none: what it owns belongs to the literal from then on, and
the literal is held by a handle. -/
theorem Balanced.place {t : Store} {l : LiteralId} {payload : Payload}
    (hs : s.Balanced handles (payload.slots + loose)) (hNone : s.literal? l = none)
    (hLiteral : ∀ k, t.literal? k = if k = l then some ⟨payload, 1⟩ else s.literal? k)
    (hOwned : t.owned = s.owned + payload.slots) (hSlots : t.slots = s.slots)
    (hFree : t.freeIds = s.freeIds) (hSymbols : t.symbols = s.symbols) (hQueue : t.queue = s.queue)
    (hSolvent : t.overdrawn = s.overdrawn) (hVacant : t.vacant.Nodup ∧
      ∀ k ∈ t.vacant, k ∈ s.vacant ∧ k ≠ l ∧ k < t.literals.size) :
    t.Balanced (l ::ₘ handles) loose := by
  have hPointed := pointed_of_eq hSlots
  have hSlot := slot?_of_eq hSlots
  -- nothing held on to a literal that was not there
  have hUnheld : (s.pointed + handles).count l = 0 := by
    rw [Multiset.count_eq_zero]
    intro hHeld
    have hLive := hs.backed l hHeld
    rw [hNone] at hLive
    cases hLive
  refine ⟨?_, ?_, ?_, ?_, ⟨hVacant.1, ?_⟩, ?_, ?_, ?_, ?_⟩
  · -- the new literal is held once
    intro k lit hk
    rw [hLiteral] at hk
    rw [hPointed, Multiset.add_cons]
    split at hk
    · rename_i hEq
      cases hk
      rw [hEq, Multiset.count_cons_self, hUnheld]
    · rename_i hNe
      rw [Multiset.count_cons_of_ne hNe]
      exact hs.counted k lit hk
  · intro k hk
    rw [hPointed, Multiset.add_cons, Multiset.mem_cons] at hk
    rw [hLiteral]
    split
    · rfl
    · rename_i hNe
      exact hs.backed k (hk.resolve_left hNe)
  · -- what the payload owns has moved from the outside into the store
    intro id
    rw [hOwned, hSlot, add_assoc]
    exact hs.single id
  · -- the new literal is held, so it need not wait
    intro k lit hk hZero
    rw [hLiteral] at hk
    rw [hQueue]
    split at hk
    · cases hk
      cases hZero
    · exact hs.queued k lit hk hZero
  · -- the number is in use from now on
    intro k hk
    obtain ⟨hOld, hNe, hSize⟩ := hVacant.2 k hk
    refine ⟨hSize, ?_⟩
    rw [hLiteral, if_neg hNe]
    exact (hs.vacant.2 k hOld).2
  · rw [hFree, hSlots]
    refine ⟨hs.free.1, fun id hid => ?_⟩
    rw [hSlot]
    exact hs.free.2 id hid
  · rw [hSlots]
    exact hs.zero
  · rw [hSymbols]
    exact hs.names
  · rw [hSolvent]
    exact hs.solvent

/-- Putting a payload into a new literal. -/
theorem Balanced.addLiteral {payload : Payload} (hs : s.Balanced handles (payload.slots + loose)) :
    (s.addLiteral payload).2.Balanced ((s.addLiteral payload).1 ::ₘ handles) loose := by
  unfold Store.addLiteral
  split
  · rename_i l vacant hVacant
    -- a number from the list, which is not listed any more
    have hNodup := hs.vacant.1
    rw [hVacant, List.nodup_cons] at hNodup
    obtain ⟨hSize, hNone⟩ := hs.vacant.2 l (by rw [hVacant]; exact List.mem_cons_self ..)
    have hEntry := getElem?_of_literal?_none hSize hNone
    refine hs.place hNone (literal?_of_set hEntry rfl) ?_ rfl rfl rfl rfl rfl ⟨hNodup.2, ?_⟩
    · have hMove := owned_of_set (t := { s with
        literals := s.literals.setIfInBounds l (some ⟨payload, 1⟩), vacant }) hEntry rfl rfl
      simpa [Literal.owned] using hMove
    · intro k hk
      have hOld : k ∈ s.vacant := by
        rw [hVacant]
        exact List.mem_cons_of_mem _ hk
      refine ⟨hOld, ?_, ?_⟩
      · rintro rfl
        exact hNodup.1 hk
      · rw [Array.size_setIfInBounds]
        exact (hs.vacant.2 k hOld).1
  · rename_i hVacant
    -- no number is listed, so the literal goes to the end of the table
    refine hs.place (by simp [literal?]) ?_ ?_ rfl rfl rfl rfl rfl ?_
    · intro k
      unfold literal?
      rw [Array.getElem?_push]
      split <;> rfl
    · simp only [owned, Array.toList_push, ← Multiset.coe_add, Multiset.add_bind]
      simp [Literal.owned, add_assoc]
    · rw [hVacant]
      simp

end Store

end Reckon
