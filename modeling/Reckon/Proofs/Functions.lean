import Reckon.Proofs.Held
import Reckon.Store.Reclaim

/-!
# The functions a run meets

A run meets functions on its stacks and in the literals of the store. It makes none of its own: a
function comes from a literal or is given back by a function that was called. Whatever is true of
the functions at the start and passes on to what they give back is therefore true of every function
met later, also after an operation that fails. Such a property is `Function.Tame`, which keeps
functions from making up slots.

`Store.Within P` and `Machine.Within P` say that all functions have the property `P`. Main result:
`Machine.Within.step`.
-/

namespace Reckon

/-- A property of functions that passes on to every function they give back. -/
def Function.Inherited (P : Function → Prop) : Prop :=
  ∀ f sample args g, P f → f.body sample args = .ok (.function g) → P g

/-- The functions that may come out of calls of a function: itself, and whatever one of them gives
back. -/
inductive Function.Yields (f : Function) : Function → Prop
  | self : Yields f f
  | reply {g k : Function} {sample : Float} {args : List Argument} (hYields : Yields f g)
      (hReply : g.body sample args = .ok (.function k)) : Yields f k

/-- A slot that the function gives back is one that an argument names. -/
def Function.NamesArguments (f : Function) : Prop :=
  ∀ sample args id, f.body sample args = .ok (.slot id) → id ≠ 0 ∧ ∃ a ∈ args, a.slot = id

/-- A function that makes up no slots, and gives back no function that does. -/
def Function.Tame (f : Function) : Prop := ∀ g, f.Yields g → g.NamesArguments

/-- What comes out of calls of a function that comes out of calls comes out of calls, too. -/
theorem Function.Yields.trans {f g k : Function} (hf : f.Yields g) (hg : g.Yields k) :
    f.Yields k := by
  induction hg with
  | self => exact hf
  | reply _ hReply ih => exact .reply ih hReply

/-- To be tame is said of all that a function yields, so it passes on. -/
theorem Function.inherited_tame : Function.Inherited Function.Tame := by
  intro f sample args g hf hReply k hk
  exact hf k ((Function.Yields.reply .self hReply).trans hk)

/-- A function that gives back no handle on number 0, which has no slot, and no function that does.
To an assignment through such a handle every value that names no slot is the slot itself, so the
value on the right is dropped, and what it owns is not given back. -/
def Function.AvoidsZero (f : Function) : Prop :=
  ∀ g, f.Yields g → ∀ sample args, g.body sample args ≠ .ok (.slot 0)

theorem Function.inherited_avoidsZero : Function.Inherited Function.AvoidsZero := by
  intro f sample args g hf hReply k hk
  exact hf k ((Function.Yields.reply .self hReply).trans hk)

/-- What an argument names is no number 0. -/
theorem Function.Tame.avoidsZero {f : Function} (hf : f.Tame) : f.AvoidsZero :=
  fun g hg sample args hReply => (hf g hg sample args 0 hReply).1 rfl

/-- A payload that is a function has the property. -/
def Payload.Within (P : Function → Prop) : Payload → Prop
  | .function f => P f
  | _ => True

/-- An object that is a function has the property. -/
def Object.Within (P : Function → Prop) : Object → Prop
  | .function f => P f
  | _ => True

/-- Every function in a literal has the property. -/
def Store.Within (P : Function → Prop) (s : Store) : Prop :=
  ∀ l lit, s.literal? l = some lit → lit.payload.Within P

variable {P Q : Function → Prop}

/-- A weaker property holds of whatever has the stronger one. -/
theorem Object.Within.mono {obj : Object} (h : obj.Within P) (hLe : ∀ f, P f → Q f) :
    obj.Within Q := by
  cases obj with
  | function f => exact hLe f h
  | _ => trivial

theorem Payload.Within.mono {payload : Payload} (h : payload.Within P) (hLe : ∀ f, P f → Q f) :
    payload.Within Q := by
  cases payload with
  | function f => exact hLe f h
  | _ => trivial

theorem Store.Within.mono {s : Store} (h : s.Within P) (hLe : ∀ f, P f → Q f) : s.Within Q :=
  fun l lit hl => (h l lit hl).mono hLe

namespace Store

variable {s : Store}

/-! ## Literals and slots -/

/-- The property is about literals and nothing else. -/
theorem Within.of_literals_eq {t : Store} (h : s.Within P) (hEq : t.literals = s.literals) :
    t.Within P := by
  intro l lit hl
  unfold literal? at hl
  rw [hEq] at hl
  exact h l lit hl

/-- Replacing a literal by one with a fitting payload. -/
theorem Within.set {l : LiteralId} {entry : Option Literal} {t : Store} (h : s.Within P)
    (hEq : t.literals = s.literals.setIfInBounds l entry)
    (hEntry : ∀ lit, entry = some lit → lit.payload.Within P) : t.Within P := by
  intro k lit hk
  unfold literal? at hk
  rw [hEq, Array.getElem?_setIfInBounds] at hk
  -- the literal that is asked for is the one that was replaced, or another one
  split at hk
  · split at hk
    · exact hEntry lit (by simpa using hk)
    · simp at hk
  · exact h k lit hk

/-- Counting changes no payload. -/
theorem Within.retain (h : s.Within P) (l : LiteralId) : (s.retain l).Within P := by
  unfold Store.retain
  split
  · rename_i lit hl
    exact h.set rfl fun _ hEq => by cases hEq; exact h l lit hl
  · exact h

/-- Nor does counting down. -/
theorem Within.forgo (h : s.Within P) (l : LiteralId) : (s.forgo l).Within P := by
  unfold Store.forgo
  split
  · rename_i lit hl
    exact h.set rfl fun _ hEq => by cases hEq; exact h l lit hl
  · exact h

/-- A new literal brings its payload in, and it has to fit. -/
theorem Within.addLiteral (h : s.Within P) {payload : Payload} (hp : payload.Within P) :
    (s.addLiteral payload).2.Within P := by
  unfold Store.addLiteral
  -- it takes a vacant number, or the next one
  split
  · exact h.set rfl fun _ hEq => by cases hEq; exact hp
  · intro l lit hl
    simp only [literal?, Array.getElem?_push] at hl
    split at hl
    · cases hl
      exact hp
    · exact h l lit hl

/-- Slots are no literals, so giving one out brings no function in. -/
theorem Within.allocate (h : s.Within P) : s.allocate.2.Within P := by
  unfold Store.allocate
  split
  · exact h.of_literals_eq rfl
  · split
    · exact h
    · exact h.of_literals_eq rfl

theorem Within.setTarget (h : s.Within P) (id : SlotId) (target : Option LiteralId) :
    (s.setTarget id target).Within P := h.of_literals_eq rfl

/-- Taking a slot back gives its literal up, and that is a matter of counting. -/
theorem Within.freeSlot (h : s.Within P) (id : SlotId) : (s.freeSlot id).Within P := by
  unfold Store.freeSlot
  split
  · exact h
  · rename_i slot _
    have hGone : Within P { s with slots := s.slots.setIfInBounds id none } := h.of_literals_eq rfl
    cases slot.target with
    | none => exact hGone.of_literals_eq rfl
    | some l => exact (hGone.forgo l).of_literals_eq rfl

/-- Neither does taking back any number of slots. -/
theorem Within.freeSlots (h : s.Within P) (ids : List SlotId) : (s.freeSlots ids).Within P := by
  unfold Store.freeSlots
  induction ids generalizing s with
  | nil => exact h
  | cons id ids ih => exact ih (h.freeSlot id)

/-- Where a literal was there is none now, and the property asks nothing of that. -/
theorem Within.vacate (h : s.Within P) (l : LiteralId) : (s.vacate l).Within P :=
  h.set rfl (by simp)

/-- A sweep takes literals out and brings none in. -/
theorem Within.sweepOnto (h : s.Within P) (reclaimed : Nat) :
    (s.sweepOnto reclaimed).2.Within P := by
  -- the induction is that of the sweep: nothing is queued, or a literal is reclaimed or passed over
  induction s, reclaimed using Store.sweepOnto.induct with
  | case1 s reclaimed hQueue =>
    rw [sweepOnto_of_nil hQueue]
    exact h
  | case2 s reclaimed l queue hQueue _ payload hl ih =>
    have hLeft : Within P { s with queue } := h.of_literals_eq rfl
    rw [sweepOnto_of_unheld hQueue hl]
    exact ih ((hLeft.vacate l).freeSlots payload.slots)
  | case3 s reclaimed l queue hQueue _ hl ih =>
    rw [sweepOnto_of_held hQueue hl]
    exact ih (h.of_literals_eq rfl)

theorem Within.sweep (h : s.Within P) : s.sweep.2.Within P := h.sweepOnto 0

theorem within_empty (entropy : Entropy) : (empty entropy).Within P := by
  intro l lit hl
  simp [empty, literal?] at hl

/-- Nothing is left of a store that was torn down. -/
theorem within_teardown (s : Store) : s.teardown.2.Within P :=
  (within_empty s.entropy).of_literals_eq rfl

/-! ## Objects -/

/-- To give an object up is to count down. -/
theorem Within.release (h : s.Within P) (obj : Object) : (s.release obj).Within P := by
  cases obj with
  | array slots => exact h.freeSlots slots
  | readOnly l => exact h.forgo l
  | _ => exact h

/-- So is giving up any number of them. -/
theorem Within.releaseAll (h : s.Within P) (objs : List Object) : (s.releaseAll objs).Within P := by
  unfold Store.releaseAll
  induction objs generalizing s with
  | nil => exact h
  | cons obj objs ih => exact ih (h.release obj)

/-- What an object turns out to hold is a fitting function if it is one. -/
theorem Within.payload? {obj : Object} {payload : Payload} (h : s.Within P) (ho : obj.Within P)
    (hEq : s.payload? obj = some payload) : payload.Within P := by
  have hLiteral (l : LiteralId) (hl : (s.literal? l).map (·.payload) = some payload) :
      payload.Within P := by
    obtain ⟨lit, hLit, rfl⟩ := Option.map_eq_some_iff.1 hl
    exact h l lit hLit
  -- what a handle leads to is in a literal, and the object itself holds the rest
  cases obj with
  | nil => simp [Store.payload?] at hEq
  | number n => cases hEq; trivial
  | function f => cases hEq; exact ho
  | array slots => cases hEq; trivial
  | readOnly l => exact hLiteral l hEq
  | writable id =>
    simp only [Store.payload?] at hEq
    cases hTarget : s.target? id with
    | none => simp [hTarget] at hEq
    | some l => exact hLiteral l (by simpa [hTarget] using hEq)

/-- The element of an array is given as a handle, and a handle is no function. -/
theorem Within.element (h : s.Within P) (id : SlotId) (writable : Bool) :
    (s.element id writable).1.Within P ∧ (s.element id writable).2.Within P := by
  unfold Store.element
  split
  · exact ⟨trivial, h⟩
  · split
    · exact ⟨trivial, h.retain _⟩
    · exact ⟨trivial, h⟩

/-! ## Handles and names -/

/-- A new handle is a slot or a share in a literal. Neither brings a function in. -/
theorem Within.wrap (h : s.Within P) (target : Option LiteralId) (writable : Bool) :
    (s.wrap target writable).2.Within P := by
  unfold Store.wrap
  split
  · have hAllocate := h.allocate
    cases hEq : s.allocate with
    | mk answer t =>
      rw [hEq] at hAllocate
      cases answer with
      | ok id => exact hAllocate.setTarget id target
      -- no slot is left, and the literal is given up
      | error e =>
        cases target with
        | none => exact hAllocate
        | some l => exact hAllocate.forgo l
  · exact h

/-- A plain value becomes the payload of a literal, so it has to fit; a handle shares what is
there. -/
theorem Within.materialize {obj : Object} (h : s.Within P) (ho : obj.Within P) (r : Request) :
    (s.materialize obj r).2.Within P := by
  unfold Store.materialize
  cases r.source with
  | nil => exact (h.release obj).wrap none r.writable
  | shared l => exact ((h.retain l).release obj).wrap (some l) r.writable
  -- only here is there a new literal, with the object itself in it
  | fresh kind =>
    cases obj with
    | number n =>
      have hp : (Payload.number n).Within P := trivial
      exact (h.addLiteral hp).wrap _ _
    | function f =>
      have hp : (Payload.function f).Within P := ho
      exact (h.addLiteral hp).wrap _ _
    | array slots =>
      have hp : (Payload.array slots).Within P := trivial
      exact (h.addLiteral hp).wrap _ _
    | nil => exact h.release .nil
    | readOnly l => exact h.release (.readOnly l)
    | writable id => exact h.release (.writable id)

/-- What is bound becomes a literal unless it shares one. -/
theorem Within.bind {obj : Object} (h : s.Within P) (ho : obj.Within P) (id : SlotId) :
    (s.bind id obj).2.Within P := by
  unfold Store.bind
  have hHandle := h.materialize ho (s.request obj false)
  cases hEq : s.materialize obj (s.request obj false) with
  | mk answer t =>
    rw [hEq] at hHandle
    cases answer with
    | error e => exact hHandle
    | ok handle =>
      -- whichever literal is given up, it is given up in a store that fits
      dsimp only
      cases hSlot : t.slot? id with
      | none =>
        dsimp only
        split
        · exact hHandle.forgo _
        · exact hHandle
      | some slot =>
        have hBound := hHandle.setTarget id
        dsimp only
        split
        · exact (hBound _).forgo _
        · exact hBound _

/-- A new name gets an empty slot. -/
theorem Within.intern (h : s.Within P) (name : String) : (s.intern name).2.Within P := by
  unfold Store.intern
  split
  · exact h
  · have hAllocate := h.allocate
    cases hEq : s.allocate with
    | mk answer t =>
      rw [hEq] at hAllocate
      cases answer with
      | error e => exact hAllocate
      | ok id =>
        cases hInsert : t.symbols.insert name id with
        | error e => simpa only [hInsert] using hAllocate.freeSlot id
        | ok symbols =>
          simp only [hInsert]
          exact hAllocate.of_literals_eq rfl

/-- To define a name is to intern it and to bind what it stands for. -/
theorem Within.define {obj : Object} (h : s.Within P) (ho : obj.Within P) (name : String) :
    (s.define name obj).2.Within P := by
  unfold Store.define
  have hIntern := h.intern name
  cases hEq : s.intern name with
  | mk answer t =>
    rw [hEq] at hIntern
    cases answer with
    | error e => exact hIntern
    | ok id =>
      have hBind := hIntern.bind ho id
      cases hBound : t.bind id obj with
      | mk answer u =>
        rw [hBound] at hBind
        cases answer with
        | error e => simpa only [hBound] using hBind
        | ok _ => simpa only [hBound] using hBind

/-! ## Calls -/

/-- Calling a function takes the next number that is drawn, and leaves the rest of the store
alone. -/
theorem exists_call_eq (s : Store) (f : Function) (args : List Object) :
    ∃ sample entropy, s.call f args =
      ((f.call sample (args.map s.argument)).map Object.ofReply, { s with entropy }) := by
  unfold Store.call
  generalize s.entropy.next = draw
  exact ⟨draw.1, draw.2, rfl⟩

/-- A call gives back nothing but what the property passes on to. -/
theorem Within.call {f : Function} (h : s.Within P) (hP : Function.Inherited P) (hf : P f)
    (args : List Object) :
    (∀ obj, (s.call f args).1 = .ok obj → obj.Within P) ∧ (s.call f args).2.Within P := by
  obtain ⟨sample, entropy, hCall⟩ := exists_call_eq s f args
  rw [hCall]
  -- the number of arguments may be wrong, and then the function is not asked
  refine ⟨?_, h.of_literals_eq rfl⟩
  intro obj hEq
  simp only [Function.call] at hEq
  split at hEq
  · cases hReply : f.body sample (args.map s.argument) with
    | error e => simp [hReply, Except.map] at hEq
    | ok reply =>
      rw [hReply] at hEq
      simp only [Except.map, Except.ok.injEq] at hEq
      subst hEq
      cases reply with
      | function g => exact hP f _ _ g hf hReply
      | _ => trivial
  · simp [Except.map] at hEq

end Store

/-! ## The machine -/

namespace Machine

variable {m : Machine}

/-- Every function in the store and on the stacks has the property. -/
structure Within (P : Function → Prop) (m : Machine) : Prop where
  store : m.store.Within P
  held : ∀ obj ∈ m.held, obj.Within P

theorem Within.mono (h : m.Within P) (hLe : ∀ f, P f → Q f) : m.Within Q :=
  ⟨h.store.mono hLe, fun obj ho => (h.held obj ho).mono hLe⟩

/-- A tame function avoids number 0, so a machine that meets tame functions only does the same. -/
theorem Within.avoidsZero (h : m.Within Function.Tame) : m.Within Function.AvoidsZero :=
  h.mono fun _ => Function.Tame.avoidsZero

/-- The two parts again, for a machine that is put together anew. -/
theorem Within.of_held {t : Machine} (h : m.Within P) (hStore : t.store.Within P)
    (hHeld : t.held ⊆ m.held) : t.Within P := ⟨hStore, fun obj ho => h.held obj (hHeld ho)⟩

/-- What is pushed has to fit, and the rest was there before. -/
theorem Within.push {obj : Object} (h : m.Within P) (ho : obj.Within P) :
    (m.push obj).Within P := by
  refine ⟨h.store, ?_⟩
  intro x hx
  rw [held_push, Multiset.mem_cons] at hx
  rcases hx with rfl | hx
  · exact ho
  · exact h.held x hx

/-- A result is pushed or is a failure, and of the two only the result has to fit. -/
theorem Within.pushResult {answer : Except Failure Object} (h : m.Within P)
    (ho : ∀ obj, answer = .ok obj → obj.Within P) : (m.pushResult answer).2.Within P := by
  cases answer with
  | error e => exact h
  | ok obj => exact h.push (ho obj rfl)

theorem Within.withStore {s : Store} (h : m.Within P) (hs : s.Within P) :
    { m with store := s }.Within P := ⟨hs, h.held⟩

theorem Within.release (h : m.Within P) (obj : Object) : (m.release obj).Within P :=
  h.withStore (h.store.release obj)

theorem Within.releaseAll (h : m.Within P) (objs : List Object) : (m.releaseAll objs).Within P :=
  h.withStore (h.store.releaseAll objs)

/-- What is on top fits, and so does the machine without it. -/
theorem Within.pop {obj : Object} {values : List Object} (h : m.Within P)
    (hValues : m.values = obj :: values) : obj.Within P ∧ { m with values }.Within P := by
  have hHeld := held_pop hValues
  refine ⟨h.held obj (by simp [hHeld]), h.of_held h.store ?_⟩
  rw [hHeld]
  exact Multiset.subset_cons _ _

/-- The same of the two values on top. -/
theorem Within.pop₂ {top below : Object} {values : List Object} (h : m.Within P)
    (hValues : m.values = top :: below :: values) :
    top.Within P ∧ below.Within P ∧ { m with values }.Within P := by
  have hTop := h.pop hValues
  have hBelow := hTop.2.pop (m := { m with values := below :: values }) rfl
  exact ⟨hTop.1, hBelow.1, hBelow.2⟩

/-! ### Brackets and lists -/

theorem Within.opening (h : m.Within P) (b : Bracket) : (m.opening b).Within P :=
  h.of_held h.store (by rw [held_opening]; exact Multiset.Subset.refl _)

/-- A comma moves objects from one stack to the other. -/
theorem Within.comma (h : m.Within P) : m.comma.2.Within P := by
  refine h.of_held ?_ (by rw [held_comma]; exact Multiset.Subset.refl _)
  unfold Machine.comma
  split <;> exact h.store

/-- Handles are put in front of what has been taken, and the store has counted them. -/
theorem within_elements {s : Store} (hs : s.Within P) (writable : Bool) (taken : List Object)
    (hTaken : ∀ obj ∈ taken, obj.Within P) (ids : List SlotId) :
    (∀ obj ∈ (elements s writable taken ids).1, obj.Within P) ∧
      (elements s writable taken ids).2.Within P := by
  -- the next element is taken in the store that the one before has left
  induction ids generalizing s taken with
  | nil => exact ⟨hTaken, hs⟩
  | cons id ids ih =>
    have hElement := hs.element id writable
    refine ih hElement.2 _ ?_
    intro obj ho
    rcases List.mem_cons.1 ho with rfl | ho
    · exact hElement.1
    · exact hTaken obj ho

/-- What is set aside was taken from the store before. -/
theorem setAside_store (m : Machine) (objs : List Object) :
    (m.setAside objs).store = m.store := by
  unfold setAside
  dsimp only
  split
  · rfl
  · split <;> rfl

/-- Objects that fit may be moved aside or staged. -/
theorem Within.setAside {objs : List Object} (h : m.Within P) (ho : ∀ obj ∈ objs, obj.Within P) :
    (m.setAside objs).Within P := by
  refine ⟨by rw [setAside_store]; exact h.store, ?_⟩
  intro x hx
  rw [held_setAside, Multiset.mem_add, Multiset.mem_coe] at hx
  exact hx.elim (ho x) (h.held x)

/-- The elements of an array that is spread are handles, and the array itself is given up. -/
theorem Within.spread (h : m.Within P) : m.spread.2.Within P := by
  unfold Machine.spread
  cases hValues : m.values with
  | nil => exact h
  | cons obj values =>
    have hRest := (h.pop hValues).2
    dsimp only
    split
    · exact hRest.release obj
    -- the elements fit before the array is given up, and giving it up changes none of them
    · rename_i slots writable _
      have hTaken := within_elements h.store writable [] (by simp) slots
      have hStored := hRest.withStore (hTaken.2.release obj)
      split
      · exact hStored
      · rename_i last others hEq
        rw [hEq] at hTaken
        have hRestOf : ∀ x ∈ others, x.Within P :=
          fun x hx => hTaken.1 x (List.mem_cons_of_mem _ hx)
        exact (hStored.setAside hRestOf).push (hTaken.1 last (List.mem_cons_self ..))

/-- The values of a new array become literals, one slot each. -/
theorem within_slotsFor {s : Store} (hs : s.Within P) (made : List SlotId) {objs : List Object}
    (ho : ∀ obj ∈ objs, obj.Within P) : (slotsFor s made objs).2.Within P := by
  induction objs generalizing s made with
  | nil => exact hs
  | cons obj objs ih =>
    have hMade := hs.materialize (ho obj (List.mem_cons_self ..)) (s.request obj true)
    have hRest := fun x hx => ho x (List.mem_cons_of_mem _ hx)
    unfold slotsFor
    cases hEq : s.materialize obj (s.request obj true) with
    | mk answer t =>
      rw [hEq] at hMade
      cases answer with
      | ok handle => exact ih hMade _ hRest
      -- no slot is left, so all that has been made and all that is to come is given up
      | error e => exact (hMade.releaseAll objs).release _

/-- The values inside a bracket come from the stacks, and what is left on these was there before. -/
theorem Within.leave {around : Frame} {outer : List Frame} (h : m.Within P)
    (hOuter : m.outer = around :: outer) :
    (∀ obj ∈ (m.leave around outer).1, obj.Within P) ∧ (m.leave around outer).2.Within P := by
  -- nothing gets lost on the way, so whatever is in either part was held
  have hHeld := held_leave hOuter
  constructor
  · intro obj ho
    refine h.held obj ?_
    rw [← hHeld]
    exact Multiset.mem_add.2 (.inl (Multiset.mem_coe.2 ho))
  · refine h.of_held h.store ?_
    rw [← hHeld]
    exact Multiset.subset_of_le (Multiset.le_add_left _ _)

/-- The last of several objects, and the others in front of it, fit as all of them do. -/
theorem within_of_reverse_eq {objs others : List Object} {last : Object}
    (h : ∀ obj ∈ objs, obj.Within P) (hEq : objs.reverse = last :: others) : last.Within P :=
  h last (List.mem_reverse.1 (by simp [hEq]))

/-- An index gives a handle on an element, or fails. -/
theorem Within.indexing (h : m.Within P) (target index : Object) :
    (∀ obj, (m.indexing target index).1 = .ok obj → obj.Within P) ∧
      (m.indexing target index).2.Within P := by
  unfold Machine.indexing
  split
  · exact ⟨by simp, h⟩
  · split
    · exact ⟨by simp, h⟩
    · split
      · exact ⟨fun obj ho => by cases ho; exact (h.store.element _ _).1,
          h.withStore (h.store.element _ _).2⟩
      · exact ⟨by simp, h⟩

/-- What is called has the property, so what it gives back does, too. -/
theorem Within.calling {callee : Object} (h : m.Within P) (hP : Function.Inherited P)
    (hCallee : callee.Within P) (args : List Object) :
    (∀ obj, (m.calling callee args).1 = .ok obj → obj.Within P) ∧
      (m.calling callee args).2.Within P := by
  unfold Machine.calling
  split
  · rename_i f hf
    have hCall := h.store.call hP (h.store.payload? hCallee hf) args
    exact ⟨hCall.1, h.withStore hCall.2⟩
  · exact ⟨by simp, h⟩

/-- A group leaves its last value on the stack, or nothing. -/
theorem Within.closingGroup {items : List Object} (h : m.Within P)
    (hItems : ∀ obj ∈ items, obj.Within P) : (m.closingGroup items).2.Within P := by
  unfold Machine.closingGroup
  split
  · exact h.push trivial
  · rename_i hEq
    exact (h.releaseAll _).push (within_of_reverse_eq hItems hEq)

/-- An index leaves an element on the stack, and gives up the array. -/
theorem Within.closingIndex (h : m.Within P) (items : List Object) :
    (m.closingIndex items).2.Within P := by
  unfold Machine.closingIndex
  split
  · exact h
  · rename_i index others hEq
    have hReleased := h.releaseAll others.reverse
    dsimp only
    split
    · exact hReleased.release index
    · rename_i target values hValues
      have hResult := (hReleased.pop hValues).2.indexing target index
      exact ((hResult.2.release index).release target).pushResult hResult.1

/-- What a call gives may be a function, but one that the called function can give. -/
theorem Within.closingCall (h : m.Within P) (hP : Function.Inherited P) (items : List Object) :
    (m.closingCall items).2.Within P := by
  unfold Machine.closingCall
  split
  · exact h.releaseAll items
  · rename_i callee values hValues
    have hCallee := h.pop hValues
    have hResult := hCallee.2.calling hP hCallee.1 items
    exact ((hResult.2.releaseAll items).release callee).pushResult hResult.1

/-- An array consists of slots, so no function is in it. -/
theorem Within.closingArray {items : List Object} (h : m.Within P)
    (hItems : ∀ obj ∈ items, obj.Within P) : (m.closingArray items).2.Within P := by
  have hSlots := within_slotsFor h.store [] hItems
  refine (h.withStore hSlots).pushResult ?_
  intro obj ho
  cases hMade : (slotsFor m.store [] items).1 with
  | error e => simp [hMade, Except.map] at ho
  | ok slots =>
    simp only [hMade, Except.map, Except.ok.injEq] at ho
    subst ho
    trivial

/-- **Closing a bracket** brings no function in that a call could not give. -/
theorem Within.closing (h : m.Within P) (hP : Function.Inherited P) (b : Bracket) :
    (m.closing b).2.Within P := by
  unfold Machine.closing
  cases hOuter : m.outer with
  | nil => exact h
  | cons around outer =>
    -- each construct has what is left of the machine, and the values that were inside
    obtain ⟨hItems, hLeave⟩ := h.leave hOuter
    cases b with
    | group => exact hLeave.closingGroup hItems
    | index => exact hLeave.closingIndex _
    | call => exact hLeave.closingCall hP _
    | array => exact hLeave.closingArray hItems

/-! ### Operators -/

/-- Arithmetic gives a number or fails. -/
theorem within_arithmeticResult {answer : Except Fault Number} {obj : Object}
    (h : arithmeticResult answer = .ok obj) : obj.Within P := by
  cases answer with
  | error e => simp [arithmeticResult] at h
  | ok n =>
    cases h
    trivial

/-- A prefix operator leaves a number. -/
theorem Within.unary (h : m.Within P) (op : Operator) : (m.unary op).2.Within P := by
  unfold Machine.unary
  split
  · exact h
  · rename_i obj values hValues
    refine ((h.pop hValues).2.release obj).pushResult ?_
    intro x hx
    split at hx
    · exact within_arithmeticResult hx
    · simp at hx

/-- So does any other operator that is not an assignment. -/
theorem within_applied {op : Operator} {lhs rhs obj : Object}
    (h : m.applied op lhs rhs = .ok obj) : obj.Within P := by
  unfold applied at h
  split at h
  · simp at h
  · simp at h
  · exact within_arithmeticResult h

/-- Two operands are given up and a number takes their place. -/
theorem Within.binary (h : m.Within P) (op : Operator) : (m.binary op).2.Within P := by
  unfold Machine.binary
  split
  · exact h
  · rename_i obj hValues
    exact (h.pop hValues).2
  · rename_i rhs lhs values hValues
    exact (((h.pop₂ hValues).2.2.release lhs).release rhs).pushResult fun _ hx => within_applied hx

/-- What is assigned is bound, and the handle on the slot goes back onto the stack. -/
theorem Within.assignSlot {obj : Object} (h : m.Within P) (ho : obj.Within P) (id : SlotId) :
    (m.assignSlot id obj).2.Within P := by
  unfold Machine.assignSlot
  have hBind := h.store.bind ho id
  cases hEq : m.store.bind id obj with
  | mk answer s =>
    rw [hEq] at hBind
    cases answer with
    | ok _ => exact (h.withStore hBind).push trivial
    | error e => exact h.withStore hBind

/-- An assignment binds the value on its right, which was on the stack. -/
theorem Within.assign (h : m.Within P) : m.assign.2.Within P := by
  unfold Machine.assign
  split
  · exact h
  · rename_i obj hValues
    exact (h.pop hValues).2
  · rename_i rhs id values hValues
    obtain ⟨hRhs, -, hRest⟩ := h.pop₂ hValues
    dsimp only
    -- the slot is assigned to itself, or it is bound
    split
    · exact hRest.push trivial
    · exact hRest.assignSlot hRhs id
  · rename_i rhs lhs values _ hValues
    exact ((h.pop₂ hValues).2.2.release lhs).release rhs

/-- A compound assignment binds a number. -/
theorem Within.compound (h : m.Within P) (base : Operator) : (m.compound base).2.Within P := by
  unfold Machine.compound
  split
  · exact h
  · rename_i obj hValues
    exact (h.pop hValues).2
  · rename_i rhs lhs values hValues
    have hRest := (h.pop₂ hValues).2.2.release rhs
    dsimp only
    split
    · exact hRest.release lhs
    · rename_i value hValue
      -- the arithmetic has been done by now, and the left side may still be no slot
      split
      · exact hRest.assignSlot (within_applied hValue) _
      · exact hRest.release _

/-! ### Steps -/

/-- Whatever the operator is, no function comes in that a call could not give. -/
theorem Within.perform (h : m.Within P) (hP : Function.Inherited P) (op : Operator) :
    (m.perform op).2.Within P := by
  unfold Machine.perform
  split
  · exact h.opening _
  · exact h.closing hP _
  · exact h.comma
  · exact h.spread
  · exact h.assign
  · exact h
  · split
    · exact h.compound _
    · split
      · exact h.unary _
      · exact h.binary _

/-- **A step meets no new kind of function.** -/
theorem Within.step (h : m.Within P) (hP : Function.Inherited P) (script : String)
    (i : Instruction) : (m.step script i).2.Within P := by
  unfold Machine.step
  split
  -- the cases are those of an instruction: a number, a name and an operator
  · exact h.pushResult fun _ hx => within_arithmeticResult hx
  · have hIntern := h.store.intern (i.span.text script)
    cases hEq : m.store.intern (i.span.text script) with
    | mk answer s =>
      rw [hEq] at hIntern
      cases answer with
      | ok id => exact (h.withStore hIntern).push trivial
      | error e => exact h.withStore hIntern
  · exact h.perform hP _

/-! ### Runs -/

/-- **Nor do any number of steps**, up to the one that fails. -/
theorem Within.steps (h : m.Within P) (hP : Function.Inherited P) (script : String)
    (code : List Instruction) : (Machine.steps script m code).2.Within P := by
  induction code generalizing m with
  | nil => exact h
  | cons i code ih =>
    have hNext := h.step hP script i
    unfold Machine.steps
    cases hEq : m.step script i with
    | mk answer n =>
      rw [hEq] at hNext
      cases answer with
      | ok _ => exact ih hNext
      | error e => exact hNext

/-- What is left at the end was on the stacks, and so fits. -/
theorem Within.finish (h : m.Within P) :
    m.finish.2.Within P ∧ ∀ obj, m.finish.1 = .ok obj → obj.Within P := by
  unfold Machine.finish
  split
  · exact ⟨h, by simp⟩
  · -- what has been set aside is given up, and what is left was there before
    have hDone : ({ m with
        store := m.store.releaseAll (m.frame.staged.flatMap (·.elements) ++ m.moved.reverse)
        moved := []
        frame := { m.frame with staged := [] } } : Machine).Within P := by
      refine ⟨h.store.releaseAll _, fun obj hObj => h.held obj ?_⟩
      simp only [Machine.held, Frame.waiting, List.flatMap_nil, Multiset.coe_nil, add_zero,
        Multiset.mem_add] at hObj ⊢
      rcases hObj with hObj | hObj
      · exact .inl (.inl (.inl hObj))
      · exact .inr hObj
    dsimp only [Machine.releaseAll]
    split
    · rename_i result hValues
      have hPopped := hDone.pop hValues
      refine ⟨hPopped.2, fun obj hObj => ?_⟩
      cases hObj
      exact hPopped.1
    · exact ⟨hDone, by simp⟩

theorem Within.abandon (h : m.Within P) : m.abandon.Within P := h.store.releaseAll _

theorem within_start {s : Store} (h : s.Within P) : Machine.Within P { store := s } :=
  ⟨h, by simp [held_start]⟩

end Machine

/-- **A run meets no new kind of function.** -/
theorem Store.Within.run {s : Store} (h : s.Within P) (hP : Function.Inherited P)
    (code : List Instruction) (script : String) :
    (Machine.run code script s).2.Within P ∧
      ∀ obj, (Machine.run code script s).1 = .ok obj → obj.Within P := by
  have hSteps := (Machine.within_start h).steps hP script code
  unfold Machine.run
  cases hEq : Machine.steps script { store := s } code with
  | mk answer m =>
    rw [hEq] at hSteps
    cases answer with
    -- a run may fail on its way, or at its end
    | error e => exact ⟨hSteps.abandon, by simp⟩
    | ok _ =>
      have hFinish := hSteps.finish
      dsimp only
      cases hEnd : m.finish with
      | mk answer n =>
        rw [hEnd] at hFinish
        cases answer with
        | error e => exact ⟨hFinish.1.abandon, by simp⟩
        | ok obj => exact ⟨hFinish.1.store, fun x hx => by cases hx; exact hFinish.2 _ rfl⟩

end Reckon
