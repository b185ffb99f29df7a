import Reckon.Proofs.Ledger

/-!
# Numbers in use and numbers to be used again

Slots and literals stand in tables under their numbers. A number whose entry is taken out goes to a
list, and the next entry goes under the latest number of that list, or under a new one when the list
is empty. Two owners would share an entry if the list ever held a number twice, or the number of
something that is still there. Slots are given up in many ways, and the same number may be given up
twice: what makes this harmless is that only an entry that is there is taken out and listed.

Both tables are kept the same way, so `Store.Listed` says once what is right for a table with its
list, and one lemma for each of the four things that happen to a table says that it stays right. The
operations of the store do nothing else to the tables, whether they succeed or fail, and whatever
objects and numbers they are given: also objects that nobody was ever given, and numbers of nothing.

## Results

* `Listed.countP_add_length` — entries, listed numbers and reserved numbers fill the table.
* `Accounted.apply`          — an operation keeps both tables right.
* `Accounted.accounts`       — what right tables mean for those who ask for a slot or a literal.
* `accounts_after`           — the same after any operations, from the empty store on.
-/

namespace Reckon

namespace Store

/-! ## A table and its free numbers -/

/-- The numbers `free` are those of the table that have no entry, each listed once. Numbers below
`first` have no entry and are never listed. -/
structure Listed {α : Type} (first : Nat) (table : Array (Option α)) (free : List Nat) : Prop where
  reserved : ∀ i < first, table[i]? = some none
  nodup : free.Nodup
  mem_iff : ∀ i, i ∈ free ↔ first ≤ i ∧ table[i]? = some none

section Table

variable {α : Type} {first : Nat} {table : Array (Option α)} {free : List Nat}

/-- Putting an entry under the latest number of the list takes the number off the list. -/
theorem Listed.reuse {i : Nat} (h : Listed first table (i :: free)) (x : α) :
    Listed first (table.setIfInBounds i (some x)) free := by
  obtain ⟨hNew, hNodup⟩ := List.nodup_cons.1 h.nodup
  obtain ⟨hFirst, hNone⟩ := (h.mem_iff i).1 (List.mem_cons_self ..)
  refine ⟨?_, hNodup, ?_⟩
  · intro j hj
    rw [Array.getElem?_setIfInBounds_ne (by omega)]
    exact h.reserved j hj
  · intro j
    by_cases hj : j = i
    · -- the number itself is not listed again, and it has an entry now
      subst hj
      -- it has been taken off the list, on which it stood once only
      refine ⟨fun hMem => absurd hMem hNew, ?_⟩
      rintro ⟨-, hSet⟩
      rw [Array.getElem?_setIfInBounds] at hSet
      split at hSet <;> simp_all
    · rw [Array.getElem?_setIfInBounds_ne (fun hEq => hj hEq.symm), ← h.mem_iff j, List.mem_cons]
      exact (or_iff_right hj).symm

/-- A new number comes with its entry, so it is not listed. -/
theorem Listed.grow (h : Listed first table free) (hFirst : first ≤ table.size) (x : α) :
    Listed first (table.push (some x)) free := by
  refine ⟨?_, h.nodup, ?_⟩
  · intro j hj
    rw [Array.getElem?_push, if_neg (by omega)]
    exact h.reserved j hj
  · intro j
    -- only the number at the end is new, and it has an entry at once
    rw [h.mem_iff, Array.getElem?_push]
    split
    · rename_i hEnd
      rw [hEnd, Array.getElem?_eq_none (Nat.le_refl _)]
      simp
    · rfl

/-- Another entry under a number in use changes nothing for the list. -/
theorem Listed.replace {i : Nat} {x : α} (h : Listed first table free)
    (hUsed : table[i]? = some (some x)) (y : α) :
    Listed first (table.setIfInBounds i (some y)) free := by
  -- the same numbers lack an entry before and afterwards
  have hSame : ∀ j : Nat,
      (table.setIfInBounds i (some y))[j]? = some none ↔ table[j]? = some none := by
    intro j
    rw [Array.getElem?_setIfInBounds]
    split
    · rename_i hEq
      subst hEq
      rw [hUsed]
      split <;> simp
    · rfl
  refine ⟨fun j hj => (hSame j).2 (h.reserved j hj), h.nodup, fun j => ?_⟩
  rw [h.mem_iff, hSame]

/-- Taking an entry out puts its number on the list. The entry has to be there: this is why nothing
happens to a number that is given up once more. -/
theorem Listed.takeOut {i : Nat} {x : α} (h : Listed first table free)
    (hUsed : table[i]? = some (some x)) :
    Listed first (table.setIfInBounds i none) (i :: free) := by
  obtain ⟨hSize, -⟩ := Array.getElem?_eq_some_iff.1 hUsed
  -- reserved numbers have no entries, so the number is none of them
  have hFirst : first ≤ i := by
    by_contra hBelow
    have hReserved := h.reserved i (by omega)
    rw [hUsed] at hReserved
    cases hReserved
  -- a number with an entry is not listed, so the list stays without repetitions
  have hNew : i ∉ free := by
    intro hMem
    have hNone := ((h.mem_iff i).1 hMem).2
    rw [hUsed] at hNone
    cases hNone
  refine ⟨?_, List.nodup_cons.2 ⟨hNew, h.nodup⟩, ?_⟩
  · intro j hj
    rw [Array.getElem?_setIfInBounds_ne (by omega)]
    exact h.reserved j hj
  · intro j
    rw [List.mem_cons, h.mem_iff]
    by_cases hj : j = i
    · subst hj
      simp [hSize, hFirst]
    · rw [Array.getElem?_setIfInBounds_ne (fun hEq => hj hEq.symm)]
      exact or_iff_right hj

/-- The table has room for the reserved numbers. -/
theorem Listed.first_le (h : Listed first table free) : first ≤ table.size := by
  by_contra hBeyond
  have hReserved := h.reserved table.size (by omega)
  rw [Array.getElem?_eq_none (Nat.le_refl _)] at hReserved
  cases hReserved

/-- Entries can be counted by their numbers. -/
theorem countP_isSome_eq (table : Array (Option α)) :
    table.countP Option.isSome =
      (List.range table.size).countP fun i => (table[i]?).join.isSome := by
  have hEntries : table.toList = (List.range table.size).map fun i => (table[i]?).join := by
    apply List.ext_getElem
    · simp
    · intro i hLeft hRight
      simp at hLeft
      simp [hLeft]
  rw [← Array.countP_toList, hEntries, List.countP_map]
  rfl

/-- **Entries, listed numbers and reserved numbers fill the table.** -/
theorem Listed.countP_add_length (h : Listed first table free) :
    table.countP Option.isSome + free.length + first = table.size := by
  have hNodup : (List.range first ++ free).Nodup := by
    refine List.nodup_append.2 ⟨List.nodup_range, h.nodup, ?_⟩
    rintro i hi j hj rfl
    have hFirst := ((h.mem_iff i).1 hj).1
    have hBelow := List.mem_range.1 hi
    omega
  -- a number of the table without an entry is reserved or listed
  have hAbsent : (List.range first ++ free).Perm
      ((List.range table.size).filter fun i => !(table[i]?).join.isSome) := by
    refine (List.perm_ext_iff_of_nodup hNodup (List.nodup_range.filter _)).2 fun i => ?_
    have hNone : i < table.size ∧ (table[i]?).join.isSome = false ↔ table[i]? = some none := by
      by_cases hSize : i < table.size <;> simp [hSize]
    rw [List.mem_append, List.mem_range, h.mem_iff, List.mem_filter, List.mem_range,
      Bool.not_eq_true', hNone]
    constructor
    · rintro (hReserved | ⟨-, hListed⟩)
      · exact h.reserved i hReserved
      · exact hListed
    · intro hGone
      by_cases hFirst : i < first
      · exact .inl hFirst
      · exact .inr ⟨by omega, hGone⟩
  -- a table of all numbers splits into those with an entry and those without
  have hLength := hAbsent.length_eq
  rw [List.length_append, List.length_range, ← List.countP_eq_length_filter] at hLength
  have hBoth := List.length_eq_countP_add_countP (l := List.range table.size)
    (fun i => (table[i]?).join.isSome)
  rw [List.length_range, ← countP_isSome_eq] at hBoth
  simp only [Bool.not_eq_true, Bool.decide_eq_false] at hBoth
  omega

end Table

/-! ## The tables of a store -/

/-- Both tables of a store are right. Number 0 is no slot, and there are no more numbers for slots
than an identifier can hold. -/
structure Accounted (s : Store) : Prop where
  slots : Listed 1 s.slots s.freeIds
  literals : Listed 0 s.literals s.vacant
  bounded : s.slots.size ≤ maxSlotId + 1

variable {s t : Store}

/-- The tables of an empty store are right: slot 0 is reserved, and there is nothing else. -/
theorem accounted_empty (entropy : Entropy) : (empty entropy).Accounted where
  slots := by
    refine ⟨fun i hi => ?_, List.nodup_nil, fun i => ?_⟩
    · obtain rfl : i = 0 := by omega
      rfl
    · cases i <;> simp [empty]
  literals := ⟨by simp, List.nodup_nil, by simp [empty]⟩
  bounded := show 1 ≤ maxSlotId + 1 by decide

/-- Names, the queue and all else beside the tables may be anything. -/
theorem Accounted.of_eq (h : s.Accounted) (hSlots : t.slots = s.slots)
    (hFree : t.freeIds = s.freeIds) (hLiterals : t.literals = s.literals)
    (hVacant : t.vacant = s.vacant) : t.Accounted := by
  refine ⟨?_, ?_, ?_⟩
  · rw [hSlots, hFree]
    exact h.slots
  · rw [hLiterals, hVacant]
    exact h.literals
  · rw [hSlots]
    exact h.bounded

/-! ## What happens to literals -/

/-- Counting a literal once more keeps the tables right. -/
theorem Accounted.retain (h : s.Accounted) (l : LiteralId) : (s.retain l).Accounted := by
  unfold Store.retain
  split
  · rename_i lit hl
    exact ⟨h.slots, h.literals.replace (getElem?_of_literal? hl) _, h.bounded⟩
  · exact h

/-- A count that falls does not move the literal, and the slots are not looked at. -/
theorem listed_forgo (h : Listed 0 s.literals s.vacant) (l : LiteralId) :
    Listed 0 (s.forgo l).literals (s.forgo l).vacant := by
  unfold Store.forgo
  split
  · rename_i lit hl
    exact h.replace (getElem?_of_literal? hl) _
  · exact h

/-- Counting a literal once less keeps the tables right. -/
theorem Accounted.forgo (h : s.Accounted) (l : LiteralId) : (s.forgo l).Accounted := by
  obtain ⟨hSlots, hFree⟩ := slots_forgo s l
  refine ⟨?_, listed_forgo h.literals l, ?_⟩
  · rw [hSlots, hFree]
    exact h.slots
  · rw [hSlots]
    exact h.bounded

/-- Giving up what a slot pointed at, if it pointed at anything. -/
theorem Accounted.forgoTarget (h : s.Accounted) (target : Option LiteralId) :
    (match target with
      | some l => s.forgo l
      | none => s).Accounted := by
  cases target with
  | none => exact h
  | some l => exact h.forgo l

/-- A new literal goes under a number from the list, or under a new one. -/
theorem Accounted.addLiteral (h : s.Accounted) (payload : Payload) :
    (s.addLiteral payload).2.Accounted := by
  unfold Store.addLiteral
  split
  · rename_i l vacant hVacant
    have hListed := h.literals
    rw [hVacant] at hListed
    exact ⟨h.slots, hListed.reuse _, h.bounded⟩
  · exact ⟨h.slots, h.literals.grow (Nat.zero_le _) _, h.bounded⟩

/-- Taking a literal out lists its number. -/
theorem Accounted.vacate {l : LiteralId} {lit : Literal} (h : s.Accounted)
    (hl : s.literal? l = some lit) : (s.vacate l).Accounted :=
  ⟨h.slots, h.literals.takeOut (getElem?_of_literal? hl), h.bounded⟩

/-! ## What happens to slots -/

/-- Pointing a slot somewhere else keeps the tables right. -/
theorem Accounted.setTarget {id : SlotId} {slot : Slot} (h : s.Accounted)
    (hSlot : s.slot? id = some slot) (target : Option LiteralId) :
    (s.setTarget id target).Accounted := by
  refine ⟨h.slots.replace (getElem?_of_slot? hSlot) _, h.literals, ?_⟩
  unfold Store.setTarget
  rw [Array.size_setIfInBounds]
  exact h.bounded

/-- A slot is given out: which number it gets, and what has become of the store. -/
structure Allocates (s : Store) (id : SlotId) (t : Store) : Prop where
  /-- The number is not 0. -/
  pos : 0 < id
  /-- No slot in use had the number. -/
  unused : s.slot? id = none
  /-- A number that has been in use before is taken as long as there is one. -/
  reused : (∃ k, 0 < k ∧ k < s.slots.size ∧ s.slot? k = none) → id < s.slots.size
  /-- There is an empty slot under the number now. -/
  used : t.slot? id = some {}
  /-- The other slots, and all literals, are as they were. -/
  others : ∀ k, k ≠ id → t.slot? k = s.slot? k
  literals : t.literals = s.literals ∧ t.vacant = s.vacant

/-- A slot that is given out gets a number that no slot in use has. -/
theorem Accounted.allocate_ok {id : SlotId} (h : s.Accounted) (hEq : s.allocate = (.ok id, t)) :
    t.Accounted ∧ s.Allocates id t := by
  unfold Store.allocate at hEq
  split at hEq
  · -- the latest number of the list
    rename_i free hFree
    cases hEq
    have hListed := h.slots
    rw [hFree] at hListed
    obtain ⟨hPos, hNone⟩ := (hListed.mem_iff _).1 (List.mem_cons_self ..)
    obtain ⟨hSize, -⟩ := Array.getElem?_eq_some_iff.1 hNone
    have hSet := slot?_of_set hNone (t := { s with
      slots := s.slots.setIfInBounds id (some {}), freeIds := free }) rfl
    refine ⟨⟨hListed.reuse _, h.literals, ?_⟩, hPos, ?_, fun _ => hSize, ?_, ?_, rfl, rfl⟩
    · rw [Array.size_setIfInBounds]
      exact h.bounded
    · unfold slot?
      rw [hNone]
      rfl
    · rw [hSet, if_pos rfl]
    · intro k hk
      rw [hSet, if_neg hk]
  · rename_i hFree
    split at hEq
    · cases hEq
    · -- no number is listed, so every number of the table is in use
      rename_i hRoom
      cases hEq
      have hFirst := h.slots.first_le
      have hSlot (k : SlotId) : slot? { s with slots := s.slots.push (some {}) } k =
          if k = s.slots.size then some {} else s.slot? k := by
        unfold slot?
        rw [Array.getElem?_push]
        split <;> rfl
      refine ⟨⟨h.slots.grow hFirst _, h.literals, ?_⟩, hFirst, ?_, ?_, ?_, ?_, rfl, rfl⟩
      · rw [Array.size_push]
        exact Nat.succ_le_succ (Nat.le_of_not_lt hRoom)
      · unfold slot?
        rw [Array.getElem?_eq_none (Nat.le_refl _)]
        rfl
      -- with no number listed, none below the end of the table is without an entry
      · rintro ⟨k, hPos, hSize, hNone⟩
        have hListed := (h.slots.mem_iff k).2 ⟨hPos, getElem?_of_slot?_none hSize hNone⟩
        rw [hFree] at hListed
        cases hListed
      · rw [hSlot, if_pos rfl]
      · intro k hk
        rw [hSlot, if_neg hk]

/-- Asking for a slot keeps the tables right, whether there is one or not. -/
theorem Accounted.allocate (h : s.Accounted) : s.allocate.2.Accounted := by
  cases hEq : s.allocate with
  | mk answer t =>
    cases answer with
    | ok id => exact (h.allocate_ok hEq).1
    | error e =>
      rw [allocate_error hEq]
      exact h

/-- Only a slot that is there is taken back. -/
theorem Accounted.freeSlot (h : s.Accounted) (id : SlotId) : (s.freeSlot id).Accounted := by
  unfold Store.freeSlot
  split
  -- there is no such slot, so there is nothing to take back
  · exact h
  · rename_i slot hSlot
    have hListed := h.slots.takeOut (getElem?_of_slot? hSlot)
    have hBounded : (s.slots.setIfInBounds id none).size ≤ maxSlotId + 1 := by
      rw [Array.size_setIfInBounds]
      exact h.bounded
    rcases slot with ⟨_ | l⟩
    · exact ⟨hListed, h.literals, hBounded⟩
    · -- the slot is out of the table by now, and giving its literal up does not bring it back
      let gone : Store := { s with slots := s.slots.setIfInBounds id none }
      obtain ⟨hSlots, hFree⟩ := slots_forgo gone l
      refine ⟨?_, listed_forgo (s := gone) h.literals l, ?_⟩
      · dsimp only
        rw [hSlots, hFree]
        exact hListed
      · dsimp only
        rw [hSlots]
        exact hBounded

/-- Taking many slots back keeps the tables right, also when one of them is named twice. -/
theorem Accounted.freeSlots (h : s.Accounted) (ids : List SlotId) :
    (s.freeSlots ids).Accounted := by
  unfold Store.freeSlots
  induction ids generalizing s with
  | nil => exact h
  | cons id ids ih => exact ih (h.freeSlot id)

/-! ## Objects and handles -/

/-- Giving up an object keeps the tables right, whatever the object is. -/
theorem Accounted.release (h : s.Accounted) (obj : Object) : (s.release obj).Accounted := by
  cases obj with
  | array slots => exact h.freeSlots slots
  | readOnly l => exact h.forgo l
  | _ => exact h

/-- Taking a handle on an element keeps the tables right. -/
theorem Accounted.element (h : s.Accounted) (id : SlotId) (writable : Bool) :
    (s.element id writable).2.Accounted := by
  unfold Store.element
  split
  · exact h
  · split
    · exact h.retain _
    · exact h

/-- Making a handle keeps the tables right. -/
theorem Accounted.wrap (h : s.Accounted) (target : Option LiteralId) (writable : Bool) :
    (s.wrap target writable).2.Accounted := by
  unfold Store.wrap
  split
  · split
    · rename_i id t hEq
      obtain ⟨hAfter, hMade⟩ := h.allocate_ok hEq
      exact hAfter.setTarget hMade.used target
    · -- no slot is left, so what was to go into it is given up
      rename_i e t hEq
      rw [allocate_error hEq]
      exact h.forgoTarget target
  · exact h

/-- Whatever is asked for, and whatever object comes with it. -/
theorem Accounted.materialize (h : s.Accounted) (obj : Object) (r : Request) :
    (s.materialize obj r).2.Accounted := by
  unfold Store.materialize
  dsimp only
  -- what is asked for decides where the literal comes from; the handle is made in every case
  split
  · exact (h.release obj).wrap none _
  · exact ((h.retain _).release obj).wrap (some _) _
  · split
    · exact (h.addLiteral _).wrap _ _
    · exact (h.addLiteral _).wrap _ _
    · exact (h.addLiteral _).wrap _ _
    · exact h.release _

/-- Binding a slot keeps the tables right, whether there is a slot or not. -/
theorem Accounted.bind (h : s.Accounted) (id : SlotId) (obj : Object) :
    (s.bind id obj).2.Accounted := by
  have hHandle := h.materialize obj (s.request obj false)
  unfold Store.bind
  split
  · rename_i e t hEq
    rw [hEq] at hHandle
    exact hHandle
  · rename_i handle t hEq
    rw [hEq] at hHandle
    dsimp only
    split
    -- without a slot the handle is given up, otherwise what the slot pointed at
    · exact hHandle.forgoTarget _
    · rename_i slot hSlot
      exact (hHandle.setTarget hSlot _).forgoTarget _

/-! ## Names -/

/-- Looking a name up, or bringing it in, keeps the tables right. -/
theorem Accounted.intern (h : s.Accounted) (name : String) : (s.intern name).2.Accounted := by
  have hSlot := h.allocate
  unfold Store.intern
  split
  · exact h
  · split
    · rename_i e t hEq
      rw [hEq] at hSlot
      exact hSlot
    · rename_i id t hEq
      rw [hEq] at hSlot
      split
      · -- the table of names is full, and the slot is given back
        exact hSlot.freeSlot id
      · exact hSlot.of_eq rfl rfl rfl rfl

/-- Defining a name keeps the tables right. -/
theorem Accounted.define (h : s.Accounted) (name : String) (obj : Object) :
    (s.define name obj).2.Accounted := by
  have hName := h.intern name
  unfold Store.define
  split
  · rename_i e t hEq
    rw [hEq] at hName
    exact hName
  · rename_i id t hEq
    rw [hEq] at hName
    have hBound := hName.bind id obj
    -- the name has a slot by now, and binding it may fail or not
    split
    · rename_i e u hBind
      rw [hBind] at hBound
      exact hBound
    · rename_i u hBind
      rw [hBind] at hBound
      exact hBound

/-! ## Reclaiming -/

/-- Every round takes out a literal that is there, or nothing. -/
theorem Accounted.sweepOnto (h : s.Accounted) (n : Nat) : (s.sweepOnto n).2.Accounted := by
  -- along the rounds of the sweep
  induction s, n using Store.sweepOnto.induct with
  | case1 s n hQueue =>
    rw [sweepOnto_of_nil hQueue]
    exact h
  | case2 s n l queue hQueue _ payload hl ih =>
    rw [sweepOnto_of_unheld hQueue hl]
    have hShorter : Accounted { s with queue } := h.of_eq rfl rfl rfl rfl
    exact ih ((hShorter.vacate hl).freeSlots _)
  | case3 s n l queue hQueue _ hl ih =>
    rw [sweepOnto_of_held hQueue hl]
    exact ih (h.of_eq rfl rfl rfl rfl)

theorem Accounted.sweep (h : s.Accounted) : s.sweep.2.Accounted := h.sweepOnto 0

/-- After a teardown the tables are new. -/
theorem accounted_teardown (s : Store) : s.teardown.2.Accounted :=
  (accounted_empty s.entropy).of_eq rfl rfl rfl rfl

/-! ## Any operations -/

/-- What can be asked of a store, with any numbers and any objects. -/
inductive Operation where
  | allocate
  | freeSlot (id : SlotId)
  | intern (name : String)
  | define (name : String) (obj : Object)
  | bind (id : SlotId) (obj : Object)
  | materialize (obj : Object) (r : Request)
  | release (obj : Object)
  | element (id : SlotId) (writable : Bool)
  | sweep
  | teardown

/-- The store after an operation, whether it has succeeded or failed. -/
def apply (s : Store) : Operation → Store
  | .allocate => s.allocate.2
  | .freeSlot id => s.freeSlot id
  | .intern name => (s.intern name).2
  | .define name obj => (s.define name obj).2
  | .bind id obj => (s.bind id obj).2
  | .materialize obj r => (s.materialize obj r).2
  | .release obj => s.release obj
  | .element id writable => (s.element id writable).2
  | .sweep => s.sweep.2
  | .teardown => s.teardown.2

/-- The store after some operations. -/
def applyAll (s : Store) (ops : List Operation) : Store := ops.foldl apply s

/-- **An operation keeps both tables right.** -/
theorem Accounted.apply (h : s.Accounted) (op : Operation) : (s.apply op).Accounted := by
  cases op with
  | allocate => exact h.allocate
  | freeSlot id => exact h.freeSlot id
  | intern name => exact h.intern name
  | define name obj => exact h.define name obj
  | bind id obj => exact h.bind id obj
  | materialize obj r => exact h.materialize obj r
  | release obj => exact h.release obj
  | element id writable => exact h.element id writable
  | sweep => exact h.sweep
  | teardown => exact accounted_teardown s

/-- Any operations keep both tables right. -/
theorem Accounted.applyAll (h : s.Accounted) (ops : List Operation) :
    (s.applyAll ops).Accounted := by
  -- induction on the operations, with the store left open
  induction ops generalizing s with
  | nil => exact h
  | cons op ops ih => exact ih (h.apply op)

/-! ## What right tables mean -/

/-- What a store owes to those who ask it for slots and literals. -/
structure Accounts (s : Store) : Prop where
  /-- Every number of the table but 0 is that of a slot, or listed once, and never both. -/
  slots : ∀ id, 0 < id → id < s.slots.size →
    (s.slot? id).isSome ∧ s.freeIds.count id = 0 ∨ s.slot? id = none ∧ s.freeIds.count id = 1
  /-- Any other number is neither. -/
  slotsOnly : ∀ id, (s.slot? id).isSome ∨ id ∈ s.freeIds → 0 < id ∧ id < s.slots.size
  /-- No more slots are in use than there are numbers. -/
  atMost : s.liveSlots ≤ 65535
  /-- A slot can be had as long as fewer are in use. -/
  allocates : s.liveSlots < 65535 → ∃ id t, s.allocate = (.ok id, t) ∧ s.Allocates id t
  /-- When all are in use, no slot can be had, and nothing changes. -/
  refuses : s.liveSlots = 65535 →
    s.allocate = (.error { fault := RuntimeFault.noAvailableId }, s)
  /-- Every number of the other table is that of a literal, or listed once, and never both. -/
  literals : ∀ l < s.literals.size,
    (s.literal? l).isSome ∧ s.vacant.count l = 0 ∨ s.literal? l = none ∧ s.vacant.count l = 1
  literalsOnly : ∀ l, (s.literal? l).isSome ∨ l ∈ s.vacant → l < s.literals.size
  /-- A new literal gets a number that no literal has. -/
  unused : ∀ payload, s.literal? (s.addLiteral payload).1 = none
  /-- The new literal is under its number, and every other literal is as it was. -/
  added : ∀ payload l, (s.addLiteral payload).2.literal? l =
    if l = (s.addLiteral payload).1 then some ⟨payload, 1⟩ else s.literal? l

/-- An entry under a number that may be given out, or its place on the list. -/
theorem Listed.entry_or_listed {α : Type} {first : Nat} {table : Array (Option α)}
    {free : List Nat} (h : Listed first table free) {i : Nat} (hFirst : first ≤ i)
    (hSize : i < table.size) :
    (table[i]?).join.isSome ∧ free.count i = 0 ∨ (table[i]?).join = none ∧ free.count i = 1 := by
  have hMem := h.mem_iff i
  rw [Array.getElem?_eq_getElem hSize] at hMem ⊢
  cases hEntry : table[i] with
  | some x =>
    refine .inl ⟨rfl, List.count_eq_zero.2 fun hListed => ?_⟩
    have hNone := (hMem.1 hListed).2
    rw [hEntry] at hNone
    cases hNone
  | none => exact .inr ⟨rfl, List.count_eq_one_of_mem h.nodup (hMem.2 ⟨hFirst, by rw [hEntry]⟩)⟩

/-- Entries and listed numbers lie within the table, behind the reserved numbers. -/
theorem Listed.within {α : Type} {first : Nat} {table : Array (Option α)} {free : List Nat}
    (h : Listed first table free) {i : Nat} (hi : (table[i]?).join.isSome ∨ i ∈ free) :
    first ≤ i ∧ i < table.size := by
  rcases hi with hEntry | hListed
  · obtain ⟨x, hx⟩ := Option.isSome_iff_exists.1 hEntry
    have hUsed := Option.join_eq_some_iff.1 hx
    refine ⟨?_, (Array.getElem?_eq_some_iff.1 hUsed).1⟩
    by_contra hBelow
    have hReserved := h.reserved i (by omega)
    rw [hUsed] at hReserved
    cases hReserved
  · obtain ⟨hFirst, hNone⟩ := (h.mem_iff i).1 hListed
    exact ⟨hFirst, (Array.getElem?_eq_some_iff.1 hNone).1⟩

/-- With a number on the list, or with room for one more, a slot can be had. -/
theorem Accounted.exists_allocate (h : s.Accounted) (hLive : s.liveSlots < 65535) :
    ∃ id t, s.allocate = (.ok id, t) ∧ s.Allocates id t := by
  have hCount : s.liveSlots + s.freeIds.length + 1 = s.slots.size := h.slots.countP_add_length
  cases hEq : s.allocate with
  | mk answer t =>
    cases answer with
    | ok id => exact ⟨id, t, rfl, (h.allocate_ok hEq).2⟩
    | error e =>
      exfalso
      unfold Store.allocate at hEq
      split at hEq
      · cases hEq
      · -- nothing is listed, so all numbers but 0 are in use
        rename_i hFree
        rw [hFree, List.length_nil] at hCount
        split at hEq
        · rename_i hFull
          have hSize : 65535 < s.slots.size := hFull
          omega
        · cases hEq

/-- When all slots are in use, asking for one more is refused. -/
theorem Accounted.allocate_full (h : s.Accounted) (hLive : s.liveSlots = 65535) :
    s.allocate = (.error { fault := RuntimeFault.noAvailableId }, s) := by
  have hCount : s.liveSlots + s.freeIds.length + 1 = s.slots.size := h.slots.countP_add_length
  have hBounded : s.slots.size ≤ 65535 + 1 := h.bounded
  -- entries and reserved numbers fill the table already
  have hFree : s.freeIds = [] := List.eq_nil_of_length_eq_zero (by omega)
  have hFull : maxSlotId < s.slots.size := show 65535 < s.slots.size by omega
  unfold Store.allocate
  simp only [hFree, if_pos hFull]

/-- The number of a new literal is one from the list, or the next one. -/
theorem Accounted.literal?_addLiteral (h : s.Accounted) (payload : Payload) :
    s.literal? (s.addLiteral payload).1 = none ∧
      ∀ l, (s.addLiteral payload).2.literal? l =
        if l = (s.addLiteral payload).1 then some ⟨payload, 1⟩ else s.literal? l := by
  unfold Store.addLiteral
  split
  -- a number from the list has no entry, and none but this one gets one
  · rename_i k vacant hVacant
    have hNone := ((h.literals.mem_iff k).1 (by rw [hVacant]; exact List.mem_cons_self ..)).2
    refine ⟨?_, literal?_of_set hNone rfl⟩
    unfold literal?
    rw [hNone]
    rfl
  · refine ⟨?_, fun l => ?_⟩
    · unfold literal?
      rw [Array.getElem?_eq_none (Nat.le_refl _)]
      rfl
    · unfold literal?
      rw [Array.getElem?_push]
      split <;> rfl

/-- **What right tables mean** for those who ask for a slot or a literal. -/
theorem Accounted.accounts (h : s.Accounted) : s.Accounts where
  slots _ hPos hSize := h.slots.entry_or_listed hPos hSize
  slotsOnly _ hId := h.slots.within hId
  atMost := by
    have hCount : s.liveSlots + s.freeIds.length + 1 = s.slots.size := h.slots.countP_add_length
    have hBounded : s.slots.size ≤ 65535 + 1 := h.bounded
    omega
  allocates := h.exists_allocate
  refuses := h.allocate_full
  literals _ hSize := h.literals.entry_or_listed (Nat.zero_le _) hSize
  literalsOnly _ hl := (h.literals.within hl).2
  unused payload := (h.literal?_addLiteral payload).1
  added payload := (h.literal?_addLiteral payload).2

/-- **Whatever has been asked of a store, with success or without, the accounts of its slots and of
its literals are in order.** -/
theorem accounts_after (entropy : Entropy) (ops : List Operation) :
    ((empty entropy).applyAll ops).Accounts :=
  ((accounted_empty entropy).applyAll ops).accounts

/-- A number given up twice is listed once, and is the next to be given out. -/
example : ((empty).applyAll [.allocate, .freeSlot 1, .freeSlot 1]).freeIds = [1] ∧
    ((empty).applyAll [.allocate, .freeSlot 1, .freeSlot 1, .allocate]).freeIds = [] := by decide

end Store

end Reckon
