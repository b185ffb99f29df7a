import Reckon.Proofs.Persistence
import Reckon.Proofs.Reachability

/-!
# What a copy shows

The store is a graph with shared parts and cycles, and a copy is a tree. A position in either is a
list of indices: `Store.follow?` goes to it through the slots of arrays, `Value.at?` through the
items of the copy. A position *recurs* when the literal that stands there stands at a position above
it, too, so that its array is being copied already.

The copy is to show a cycle at those positions and nowhere else, so that an array which is only
shared by two positions is shown twice. Nothing is shown below a cycle, and everything else is shown
as it is. Where no array is reached that lies inside itself, the copy is the whole unfolding of the
graph. Copying goes down one position at a time, and no position of a copy is deeper than there are
arrays to pass, so it comes to an end, however the graph is tangled.

All this holds of every store, whether its books balance or not. Main result:
`Store.depicts_snapshot`.
-/

namespace Reckon

namespace Value

/-- The items of an array. Nothing else has any. -/
def items : Value → List Value
  | array items => items
  | _ => []

/-- The part of a value at a position. -/
def at? : Value → List Nat → Option Value
  | v, [] => some v
  | v, i :: p => v.items[i]?.bind fun item => item.at? p

@[simp] theorem at?_nil (v : Value) : v.at? [] = some v := rfl

@[simp] theorem at?_cons (v : Value) (i : Nat) (p : List Nat) :
    v.at? (i :: p) = v.items[i]?.bind fun item => item.at? p := rfl

/-- Whether a value shows a payload, or that there is none, apart from the elements of an array. A
cycle shows nothing of what is there. -/
inductive Shows : Option Payload → Value → Prop
  | nil : Shows none .nil
  | number (n : Number) : Shows (some (.number n)) (.number n)
  | function (f : Function) : Shows (some (.function f)) (.function f)
  | array {slots : List SlotId} {items : List Value} (hLength : items.length = slots.length) :
      Shows (some (.array slots)) (.array items)

/-- What shows something is not a cycle. -/
theorem Shows.ne_cycle {payload : Option Payload} {v : Value} (h : Shows payload v) :
    v ≠ .cycle := by
  rintro rfl
  -- none of the four ways of showing a payload shows a cycle
  cases h

end Value

namespace Store

/-! ## Positions in the store -/

/-- The element of an array, by a handle on its slot. -/
def elementAt? (s : Store) (obj : Object) (i : Nat) : Option Object :=
  ((s.payload? obj).bind fun payload => payload.slots[i]?).map .writable

/-- What stands at a position below an object. -/
def follow? (s : Store) : Object → List Nat → Option Object
  | obj, [] => some obj
  | obj, i :: p => (s.elementAt? obj i).bind fun element => s.follow? element p

/-- The literal that a handle leads to. -/
def literalOf? (s : Store) : Object → Option LiteralId
  | .readOnly l => some l
  | .writable id => s.target? id
  | _ => none

/-- The literal that stands at a position. -/
def literalAt? (s : Store) (obj : Object) (p : List Nat) : Option LiteralId :=
  (s.follow? obj p).bind s.literalOf?

/-- Whether one position lies further up on the way to another. -/
def IsAbove (q p : List Nat) : Prop := q <+: p ∧ q ≠ p

/-- Whether the literal at a position stands above it as well. -/
def Recurs (s : Store) (obj : Object) (p : List Nat) : Prop :=
  ∃ l, s.literalAt? obj p = some l ∧ ∃ q, IsAbove q p ∧ s.literalAt? obj q = some l

variable {s : Store}

@[simp] theorem follow?_nil (obj : Object) : s.follow? obj [] = some obj := rfl

@[simp] theorem follow?_cons (obj : Object) (i : Nat) (p : List Nat) :
    s.follow? obj (i :: p) = (s.elementAt? obj i).bind fun element => s.follow? element p := rfl

/-- The literal at a position is that at the rest of it below the element. -/
theorem literalAt?_cons (obj : Object) (i : Nat) (p : List Nat) :
    s.literalAt? obj (i :: p) =
      (s.elementAt? obj i).bind fun element => s.literalAt? element p := by
  unfold literalAt?
  rw [follow?_cons, Option.bind_assoc]

/-- A position is followed one part after the other. -/
theorem follow?_append (obj : Object) (p q : List Nat) :
    s.follow? obj (p ++ q) = (s.follow? obj p).bind fun x => s.follow? x q := by
  induction p generalizing obj with
  | nil => rfl
  | cons i p ih =>
    rw [List.cons_append, follow?_cons, follow?_cons, Option.bind_assoc]
    exact congrArg _ (funext fun x => ih x)

theorem not_isAbove_nil (q : List Nat) : ¬ IsAbove q [] :=
  fun h => h.2 (List.prefix_nil.1 h.1)

/-- Above a position are the top and what is above the rest of it below the same index. -/
theorem isAbove_cons_iff {q p : List Nat} {i : Nat} :
    IsAbove q (i :: p) ↔ q = [] ∨ ∃ r, q = i :: r ∧ IsAbove r p := by
  unfold IsAbove
  rw [List.prefix_cons_iff]
  -- a prefix of a position that begins with `i` is empty or begins with `i` as well
  constructor
  · rintro ⟨rfl | ⟨r, rfl, hPrefix⟩, hNe⟩
    · exact .inl rfl
    · exact .inr ⟨r, rfl, hPrefix, fun hSame => hNe (by rw [hSame])⟩
  · rintro (rfl | ⟨r, rfl, hPrefix, hNe⟩)
    · exact ⟨.inl rfl, by simp⟩
    · exact ⟨.inr ⟨r, rfl, hPrefix⟩, fun hSame => hNe (List.cons.inj hSame).2⟩

/-! ## One step of copying -/

/-- The copy of an object that is met when some literals are being copied already. -/
def copyWithin (s : Store) (path : List LiteralId) : Object → Value
  | .nil => .nil
  | .number n => .number n
  | .function f => .function f
  | .array slots => .array (s.snapshotSlots path slots)
  | .readOnly l => s.snapshotLiteral path l
  | .writable id =>
    match s.target? id with
    | some l => s.snapshotLiteral path l
    | none => .nil

/-- A copy starts with no literal being copied. -/
theorem snapshot_eq_copyWithin (obj : Object) : s.snapshot obj = s.copyWithin [] obj := by
  cases obj <;> rfl

/-- Whether the literal of an object is being copied. -/
def Entered (s : Store) (path : List LiteralId) (obj : Object) : Prop :=
  ∃ l, s.literalOf? obj = some l ∧ l ∈ path

/-- The literals that are being copied when the elements of an object are. -/
def enter (s : Store) (path : List LiteralId) (obj : Object) : List LiteralId :=
  (s.literalOf? obj).toList ++ path

/-- The elements of an array are copied one by one, all within the same literals. -/
theorem snapshotSlots_eq_map (path : List LiteralId) (slots : List SlotId) :
    s.snapshotSlots path slots = slots.map fun id => s.copyWithin path (.writable id) := by
  induction slots with
  | nil => simp only [snapshotSlots, List.map_nil]
  | cons id slots ih =>
    rw [snapshotSlots, List.map_cons, ih]
    rfl

/-- An object whose literal is being copied is shown as a cycle. -/
theorem copyWithin_of_entered {path : List LiteralId} {obj : Object} (h : s.Entered path obj) :
    s.copyWithin path obj = .cycle := by
  obtain ⟨l, hLiteral, hl⟩ := h
  have hSeen : path.contains l = true := List.contains_iff_mem.2 hl
  -- only handles have literals: one on a literal itself, and one on a slot that points at it
  cases obj with
  | readOnly k =>
    cases hLiteral
    exact snapshotLiteral_of_visited hSeen
  | writable id =>
    have hTarget : s.target? id = some l := hLiteral
    simp only [copyWithin, hTarget]
    exact snapshotLiteral_of_visited hSeen
  | _ => cases hLiteral

/-- Any other object is shown as its payload, with its elements copied inside its own literal. -/
theorem copyWithin_of_not_entered {path : List LiteralId} {obj : Object}
    (h : ¬ s.Entered path obj) :
    s.copyWithin path obj = match s.payload? obj with
      | none => .nil
      | some (.number n) => .number n
      | some (.function f) => .function f
      | some (.array slots) =>
        .array (slots.map fun id => s.copyWithin (s.enter path obj) (.writable id)) := by
  -- the copy looks its literal up on the path, which does not have it
  have hNew (l : LiteralId) (hLiteral : s.literalOf? obj = some l) : path.contains l = false := by
    rw [← Bool.not_eq_true, List.contains_iff_mem]
    exact fun hl => h ⟨l, hLiteral, hl⟩
  cases obj with
  | readOnly l =>
    simp only [copyWithin, payload?, snapshotLiteral_of_unvisited (hNew l rfl),
      snapshotSlots_eq_map]
    rfl
  | writable id =>
    -- a slot that points at nothing has no literal, and no payload either
    rcases hTarget : s.target? id with _ | l
    · simp only [copyWithin, payload?, hTarget, Option.bind_none, Option.map_none]
    · simp only [copyWithin, payload?, hTarget, Option.bind_some,
        snapshotLiteral_of_unvisited (hNew l hTarget), snapshotSlots_eq_map, enter, literalOf?]
      rfl
  | array slots =>
    simp only [copyWithin, payload?, snapshotSlots_eq_map]
    rfl
  | _ => rfl

/-- An object whose literal is being copied has no items; any other has the copies of its
elements. -/
theorem items_copyWithin (path : List LiteralId) (obj : Object) (i : Nat) :
    (s.Entered path obj → (s.copyWithin path obj).items[i]? = none) ∧
    (¬ s.Entered path obj → (s.copyWithin path obj).items[i]? =
      (s.elementAt? obj i).map (s.copyWithin (s.enter path obj))) := by
  refine ⟨fun h => ?_, fun h => ?_⟩
  · rw [copyWithin_of_entered h]
    rfl
  · rw [copyWithin_of_not_entered h]
    unfold elementAt?
    rcases hPayload : s.payload? obj with _ | payload
    · rfl
    · cases payload with
      | array slots =>
        simp only [Value.items, Payload.slots, List.getElem?_map, Option.bind_some, Option.map_map]
        rfl
      | _ => rfl

/-- **One step down**: what a copy shows below an item is a copy of the element. -/
theorem at?_copyWithin_cons (path : List LiteralId) (obj : Object) (i : Nat) (p : List Nat) :
    (s.Entered path obj → (s.copyWithin path obj).at? (i :: p) = none) ∧
    (¬ s.Entered path obj → (s.copyWithin path obj).at? (i :: p) =
      (s.elementAt? obj i).bind fun e => (s.copyWithin (s.enter path obj) e).at? p) := by
  obtain ⟨hSeen, hNew⟩ := s.items_copyWithin path obj i
  refine ⟨fun h => ?_, fun h => ?_⟩
  · rw [Value.at?_cons, hSeen h, Option.bind_none]
  · rw [Value.at?_cons, hNew h, Option.bind_map]
    rfl

/-! ## Recurring positions -/

/-- Whether the literal at a position stands above it, or is being copied already. -/
def RecursBelow (s : Store) (path : List LiteralId) (obj : Object) (p : List Nat) : Prop :=
  ∃ l, s.literalAt? obj p = some l ∧
    (l ∈ path ∨ ∃ q, IsAbove q p ∧ s.literalAt? obj q = some l)

/-- The top of a copy recurs when its literal is being copied already. -/
theorem recursBelow_nil {path : List LiteralId} {obj : Object} :
    s.RecursBelow path obj [] ↔ s.Entered path obj := by
  constructor
  · rintro ⟨l, hLiteral, hPath | ⟨q, hAbove, -⟩⟩
    · exact ⟨l, hLiteral, hPath⟩
    -- nothing is above the top, so the literal is one of the path
    · exact absurd hAbove (not_isAbove_nil q)
  · rintro ⟨l, hLiteral, hPath⟩
    exact ⟨l, hLiteral, .inl hPath⟩

/-- What recurs below an element recurs below the object, once the literal of the object counts as
being copied. -/
theorem recursBelow_cons {path : List LiteralId} {obj e : Object} {i : Nat} {p : List Nat}
    (hElement : s.elementAt? obj i = some e) :
    s.RecursBelow path obj (i :: p) ↔ s.RecursBelow (s.enter path obj) e p := by
  have hDown (q : List Nat) : s.literalAt? obj (i :: q) = s.literalAt? e q := by
    rw [literalAt?_cons, hElement, Option.bind_some]
  have hHere (l : LiteralId) : s.literalAt? obj [] = some l ↔ l ∈ (s.literalOf? obj).toList :=
    Option.mem_toList.symm
  unfold RecursBelow enter
  simp only [hDown, List.mem_append, isAbove_cons_iff]
  constructor
  · rintro ⟨l, hLiteral, hPath | ⟨q, rfl | ⟨r, rfl, hAbove⟩, hq⟩⟩
    -- the path stays the same
    · exact ⟨l, hLiteral, .inl (.inr hPath)⟩
    -- the object itself is above every position below it, and its literal is the one just entered
    · exact ⟨l, hLiteral, .inl (.inl ((hHere l).1 hq))⟩
    -- any other position above lies below the same element
    · exact ⟨l, hLiteral, .inr ⟨r, hAbove, by rwa [hDown] at hq⟩⟩
  · rintro ⟨l, hLiteral, (hRoot | hPath) | ⟨r, hAbove, hr⟩⟩
    · exact ⟨l, hLiteral, .inr ⟨[], .inl rfl, (hHere l).2 hRoot⟩⟩
    · exact ⟨l, hLiteral, .inl hPath⟩
    · exact ⟨l, hLiteral, .inr ⟨i :: r, .inr ⟨r, rfl, hAbove⟩, by rwa [hDown]⟩⟩

/-- A position recurs when it does so with nothing being copied at first. -/
theorem recurs_iff {obj : Object} {p : List Nat} : s.Recurs obj p ↔ s.RecursBelow [] obj p := by
  simp [Recurs, RecursBelow]

/-! ## What is shown -/

/-- A position is shown when the store has it and no position above it recurs. -/
theorem isSome_at?_copyWithin (path : List LiteralId) (obj : Object) (p : List Nat) :
    ((s.copyWithin path obj).at? p).isSome ↔
      (s.follow? obj p).isSome ∧ ∀ q, IsAbove q p → ¬ s.RecursBelow path obj q := by
  induction p generalizing path obj with
  | nil => simpa using fun q hAbove => absurd hAbove (not_isAbove_nil q)
  | cons i p ih =>
    obtain ⟨hSeen, hNew⟩ := s.at?_copyWithin_cons path obj i p
    by_cases hEntered : s.Entered path obj
    · -- nothing is shown below a cycle
      rw [hSeen hEntered]
      refine iff_of_false (by simp) fun h => ?_
      exact h.2 [] (isAbove_cons_iff.2 (.inl rfl)) (recursBelow_nil.2 hEntered)
    · rw [hNew hEntered, follow?_cons]
      rcases hElement : s.elementAt? obj i with _ | e
      · simp
      · rw [Option.bind_some, Option.bind_some, ih]
        refine and_congr_right fun _ => ⟨fun h q hAbove => ?_, fun h q hAbove => ?_⟩
        -- the position above is the top or lies below the element, and only that is left to the
        -- induction
        · rcases isAbove_cons_iff.1 hAbove with rfl | ⟨r, rfl, hBelow⟩
          · exact fun hRecurs => hEntered (recursBelow_nil.1 hRecurs)
          · exact fun hRecurs => h r hBelow ((recursBelow_cons hElement).1 hRecurs)
        · exact fun hRecurs => h (i :: q) (isAbove_cons_iff.2 (.inr ⟨q, rfl, hAbove⟩))
            ((recursBelow_cons hElement).2 hRecurs)

/-- What is not being copied shows the payload of the object. -/
theorem shows_copyWithin {path : List LiteralId} {obj : Object} (h : ¬ s.Entered path obj) :
    Value.Shows (s.payload? obj) (s.copyWithin path obj) := by
  rw [copyWithin_of_not_entered h]
  rcases s.payload? obj with _ | payload
  · exact .nil
  · cases payload with
    | number n => exact .number n
    | function f => exact .function f
    | array slots => exact .array (by rw [List.length_map])

/-- **A position that recurs is shown as a cycle, and any other as what stands there.** -/
theorem at?_copyWithin {path : List LiteralId} {obj x : Object} {p : List Nat} {v : Value}
    (hShown : (s.copyWithin path obj).at? p = some v) (hThere : s.follow? obj p = some x) :
    (s.RecursBelow path obj p → v = .cycle) ∧
      (¬ s.RecursBelow path obj p → Value.Shows (s.payload? x) v) := by
  -- induction on the position: the top is one step of copying, and the rest goes below the element
  induction p generalizing path obj with
  | nil =>
    cases hShown
    cases hThere
    rw [recursBelow_nil]
    exact ⟨copyWithin_of_entered, shows_copyWithin⟩
  | cons i p ih =>
    obtain ⟨hSeen, hNew⟩ := s.at?_copyWithin_cons path obj i p
    -- something is shown below the object, so it is not a cycle
    have hOpen : ¬ s.Entered path obj := fun hEntered => by
      rw [hSeen hEntered] at hShown
      cases hShown
    rw [hNew hOpen] at hShown
    obtain ⟨e, hElement, hShown⟩ := Option.bind_eq_some_iff.1 hShown
    rw [follow?_cons, hElement, Option.bind_some] at hThere
    rw [recursBelow_cons hElement]
    exact ih hShown hThere

/-! ## How deep a copy goes -/

/-- Whether a literal holds an array. -/
def isArray (s : Store) (l : LiteralId) : Bool :=
  match s.holds? l with
  | some (.array _) => true
  | _ => false

/-- How many arrays are in the store and not on a path. -/
def arraysBeyond (s : Store) (path : List LiteralId) : Nat :=
  ((Finset.range s.literals.size).filter fun l => s.isArray l = true ∧ l ∉ path).card

/-- How many literals hold arrays. -/
def arrayCount (s : Store) : Nat := s.arraysBeyond []

/-- The more is on the path, the fewer arrays are beyond it. -/
theorem arraysBeyond_mono {path path' : List LiteralId} (h : path ⊆ path') :
    s.arraysBeyond path' ≤ s.arraysBeyond path := by
  apply Finset.card_le_card
  intro l hl
  simp only [Finset.mem_filter] at hl ⊢
  exact ⟨hl.1, hl.2.1, fun hPath => hl.2.2 (h hPath)⟩

/-- Entering an array leaves fewer to enter. -/
theorem arraysBeyond_cons_lt {path : List LiteralId} {l : LiteralId} {slots : List SlotId}
    (hl : s.holds? l = some (.array slots)) (hNew : l ∉ path) :
    s.arraysBeyond (l :: path) < s.arraysBeyond path := by
  obtain ⟨lit, hLive, -⟩ := Option.map_eq_some_iff.1 hl
  obtain ⟨hSize, -⟩ := literal?_eq_some_iff.1 hLive
  have hArray : s.isArray l = true := by
    unfold isArray
    rw [hl]
  apply Finset.card_lt_card
  -- what is beyond the longer path is beyond the shorter one, and `l` is beyond that alone
  refine (Finset.ssubset_iff_of_subset fun k hk => ?_).2 ⟨l, ?_, ?_⟩
  · simp only [Finset.mem_filter] at hk ⊢
    exact ⟨hk.1, hk.2.1, fun hPath => hk.2.2 (List.mem_cons_of_mem l hPath)⟩
  · exact Finset.mem_filter.2 ⟨Finset.mem_range.2 hSize, hArray, hNew⟩
  · simp

/-- Elements are handles on the slots of an array. -/
theorem exists_of_elementAt? {obj e : Object} {i : Nat} (h : s.elementAt? obj i = some e) :
    ∃ slots id, s.payload? obj = some (.array slots) ∧ slots[i]? = some id ∧ e = .writable id := by
  obtain ⟨id, hElement, rfl⟩ := Option.map_eq_some_iff.1 h
  obtain ⟨payload, hPayload, hId⟩ := Option.bind_eq_some_iff.1 hElement
  cases payload with
  | array slots => exact ⟨slots, id, hPayload, hId, rfl⟩
  | _ => cases hId

/-- A handle on a slot that holds something leads to a literal, which holds it. -/
theorem exists_literalOf? {id : SlotId} {payload : Payload}
    (h : s.payload? (.writable id) = some payload) :
    ∃ l, s.literalOf? (.writable id) = some l ∧ s.holds? l = some payload := by
  obtain ⟨lit, hLiteral, hPayload⟩ := Option.map_eq_some_iff.1 h
  obtain ⟨l, hTarget, hl⟩ := Option.bind_eq_some_iff.1 hLiteral
  exact ⟨l, hTarget, Option.map_eq_some_iff.2 ⟨lit, hl, hPayload⟩⟩

/-- **A copy of an element is no deeper than there are arrays to enter.** -/
theorem length_le_of_element {path : List LiteralId} {id : SlotId} {p : List Nat} {v : Value}
    (h : (s.copyWithin path (.writable id)).at? p = some v) : p.length ≤ s.arraysBeyond path := by
  -- induction on the position: each index enters an array that was not on the path
  induction p generalizing path id with
  | nil => exact Nat.zero_le _
  | cons i p ih =>
    obtain ⟨hSeen, hNew⟩ := s.at?_copyWithin_cons path (.writable id) i p
    have hOpen : ¬ s.Entered path (.writable id) := fun hEntered => by
      rw [hSeen hEntered] at h
      cases h
    rw [hNew hOpen] at h
    obtain ⟨e, hElement, h⟩ := Option.bind_eq_some_iff.1 h
    obtain ⟨slots, k, hPayload, -, rfl⟩ := exists_of_elementAt? hElement
    obtain ⟨l, hLiteral, hHolds⟩ := exists_literalOf? hPayload
    have hEnter : s.enter path (.writable id) = l :: path := by
      unfold enter
      rw [hLiteral]
      rfl
    rw [hEnter] at h
    have hFewer := arraysBeyond_cons_lt hHolds fun hPath => hOpen ⟨l, hLiteral, hPath⟩
    rw [List.length_cons]
    exact Nat.lt_of_le_of_lt (ih h) hFewer

/-- No position of a copy is deeper than there are arrays, and one more for an array in hand, which
is in no literal. -/
theorem length_le_of_at?_snapshot {obj : Object} {p : List Nat} {v : Value}
    (h : (s.snapshot obj).at? p = some v) : p.length ≤ s.arrayCount + 1 := by
  rw [snapshot_eq_copyWithin] at h
  cases p with
  | nil => exact Nat.zero_le _
  | cons i p =>
    have hOpen : ¬ s.Entered [] obj := fun ⟨_, _, hPath⟩ => List.not_mem_nil hPath
    rw [(s.at?_copyWithin_cons [] obj i p).2 hOpen] at h
    obtain ⟨e, hElement, h⟩ := Option.bind_eq_some_iff.1 h
    obtain ⟨slots, id, -, -, rfl⟩ := exists_of_elementAt? hElement
    exact Nat.succ_le_succ (Nat.le_trans (length_le_of_element h)
      (arraysBeyond_mono (List.nil_subset _)))

/-! ## Cycles -/

/-- Whether no array that an object leads to lies inside itself. -/
def AcyclicBelow (s : Store) (obj : Object) : Prop :=
  ∀ p l, s.literalAt? obj p = some l → ¬ Relation.TransGen s.PointsTo l l

/-- What an object holds is what its literal holds. -/
theorem payload?_of_literalOf? {obj : Object} {l : LiteralId} (h : s.literalOf? obj = some l) :
    s.payload? obj = s.holds? l := by
  cases obj with
  | readOnly k =>
    cases h
    rfl
  | writable id =>
    have hTarget : s.target? id = some l := h
    simp only [payload?, hTarget, Option.bind_some]
    rfl
  | _ => cases h

/-- A literal points at the literals of its elements. -/
theorem pointsTo_of_elementAt? {obj e : Object} {i : Nat} {l k : LiteralId}
    (hl : s.literalOf? obj = some l) (hElement : s.elementAt? obj i = some e)
    (hk : s.literalOf? e = some k) : s.PointsTo l k := by
  obtain ⟨slots, id, hPayload, hId, rfl⟩ := exists_of_elementAt? hElement
  rw [payload?_of_literalOf? hl] at hPayload
  obtain ⟨lit, hLive, hArray⟩ := Option.map_eq_some_iff.1 hPayload
  refine ⟨lit, hLive, id, ?_, hk⟩
  rw [hArray]
  exact List.mem_of_getElem? hId

/-- The literal at an object leads to those below it. -/
theorem transGen_of_literalAt? {obj : Object} {i : Nat} {r : List Nat} {l k : LiteralId}
    (hl : s.literalOf? obj = some l) (hk : s.literalAt? obj (i :: r) = some k) :
    Relation.TransGen s.PointsTo l k := by
  induction r generalizing obj i l with
  -- one index is one arc of the graph, and each further index another one
  | nil =>
    rw [literalAt?_cons] at hk
    obtain ⟨e, hElement, hk⟩ := Option.bind_eq_some_iff.1 hk
    exact .single (pointsTo_of_elementAt? hl hElement hk)
  | cons j r ih =>
    rw [literalAt?_cons] at hk
    obtain ⟨e, hElement, hk⟩ := Option.bind_eq_some_iff.1 hk
    -- the element has elements of its own, so there is a literal in between
    have hBetween : ∃ m, s.literalOf? e = some m := by
      rw [literalAt?_cons] at hk
      obtain ⟨e', hFurther, -⟩ := Option.bind_eq_some_iff.1 hk
      obtain ⟨slots, id, -, -, rfl⟩ := exists_of_elementAt? hElement
      obtain ⟨slots', -, hPayload, -⟩ := exists_of_elementAt? hFurther
      obtain ⟨m, hm, -⟩ := exists_literalOf? hPayload
      exact ⟨m, hm⟩
    obtain ⟨m, hm⟩ := hBetween
    exact .head (pointsTo_of_elementAt? hl hElement hm) (ih hm hk)

/-- **Where a position recurs, an array lies inside itself.** -/
theorem AcyclicBelow.not_recurs {obj : Object} (h : s.AcyclicBelow obj) (p : List Nat) :
    ¬ s.Recurs obj p := by
  rintro ⟨l, hLiteral, q, ⟨⟨r, rfl⟩, hNe⟩, hq⟩
  obtain ⟨x, hFollow, hx⟩ := Option.bind_eq_some_iff.1 hq
  cases r with
  | nil => exact hNe (List.append_nil q).symm
  | cons i r =>
    -- the rest of the position leads from the literal back to itself
    have hBelow : s.literalAt? x (i :: r) = some l := by
      unfold literalAt? at hLiteral ⊢
      rwa [follow?_append, hFollow, Option.bind_some] at hLiteral
    exact h q l hq (transGen_of_literalAt? hx hBelow)

/-! ## The copy as a whole -/

/-- A value that is the whole unfolding of what an object leads to: it has the positions of the
store, shows what stands there and shows no cycle. -/
structure Unfolds (s : Store) (obj : Object) (v : Value) : Prop where
  shown : ∀ p, (v.at? p).isSome ↔ (s.follow? obj p).isSome
  holds : ∀ p w x, v.at? p = some w → s.follow? obj p = some x → Value.Shows (s.payload? x) w
  no_cycle : ∀ p, v.at? p ≠ some .cycle

/-- What a copy of an object shows, position by position. -/
structure Depicts (s : Store) (obj : Object) (v : Value) : Prop where
  /-- The copy has the positions of the store, except those below a position that recurs. -/
  shown : ∀ p, (v.at? p).isSome ↔
    (s.follow? obj p).isSome ∧ ∀ q, IsAbove q p → ¬ s.Recurs obj q
  /-- It shows a cycle exactly at those of its positions that recur. -/
  cycle : ∀ p, (v.at? p).isSome → (v.at? p = some .cycle ↔ s.Recurs obj p)
  /-- At all others it shows what stands there. -/
  holds : ∀ p w x, v.at? p = some w → s.follow? obj p = some x → ¬ s.Recurs obj p →
    Value.Shows (s.payload? x) w
  /-- No position is deeper than the arrays of the store and the object itself. -/
  depth : ∀ p, (v.at? p).isSome → p.length ≤ s.arrayCount + 1
  /-- Where no array lies inside itself, nothing is left out. -/
  unfolds : s.AcyclicBelow obj → s.Unfolds obj v

/-- **Copying any object of any store comes to an end, and the copy shows a cycle exactly where an
array is met that is being copied already.** -/
theorem depicts_snapshot (s : Store) (obj : Object) : s.Depicts obj (s.snapshot obj) := by
  -- the three facts about copies within a path, for the empty path
  have hShown (p : List Nat) : ((s.snapshot obj).at? p).isSome ↔
      (s.follow? obj p).isSome ∧ ∀ q, IsAbove q p → ¬ s.Recurs obj q := by
    simp only [snapshot_eq_copyWithin, isSome_at?_copyWithin, recurs_iff]
  have hAt (p : List Nat) (w : Value) (x : Object) (hw : (s.snapshot obj).at? p = some w)
      (hx : s.follow? obj p = some x) :
      (s.Recurs obj p → w = .cycle) ∧ (¬ s.Recurs obj p → Value.Shows (s.payload? x) w) := by
    rw [snapshot_eq_copyWithin] at hw
    rw [recurs_iff]
    exact at?_copyWithin hw hx
  have hCycle (p : List Nat) (hSome : ((s.snapshot obj).at? p).isSome) :
      (s.snapshot obj).at? p = some .cycle ↔ s.Recurs obj p := by
    obtain ⟨w, hw⟩ := Option.isSome_iff_exists.1 hSome
    obtain ⟨x, hx⟩ := Option.isSome_iff_exists.1 ((hShown p).1 hSome).1
    constructor
    · intro hIsCycle
      -- a cycle shows no payload, so the position must recur
      by_contra hNew
      exact ((hAt p .cycle x hIsCycle hx).2 hNew).ne_cycle rfl
    · intro hRecurs
      rw [hw, (hAt p w x hw hx).1 hRecurs]
  refine ⟨hShown, hCycle, fun p w x hw hx => (hAt p w x hw hx).2, ?_, ?_⟩
  · intro p hSome
    obtain ⟨w, hw⟩ := Option.isSome_iff_exists.1 hSome
    exact length_le_of_at?_snapshot hw
  · intro hAcyclic
    -- with no position recurring, the conditions of the three facts fall away
    refine ⟨fun p => ?_, fun p w x hw hx => (hAt p w x hw hx).2 (hAcyclic.not_recurs p), ?_⟩
    · rw [hShown]
      exact and_iff_left fun q _ => hAcyclic.not_recurs q
    · intro p hIsCycle
      exact hAcyclic.not_recurs p ((hCycle p (by rw [hIsCycle]; rfl)).1 hIsCycle)

-- an array that has another one twice, and itself
example :
    let s : Store := {
      literals := #[some ⟨.array [2, 3, 1], 1⟩, some ⟨.array [], 2⟩]
      slots := #[none, some ⟨some 0⟩, some ⟨some 1⟩, some ⟨some 1⟩] }
    (s.snapshot (.writable 1)).text = "\x7b\x7b\x7d, \x7b\x7d, \x7b...\x7d\x7d" := by
  cbv

end Store

end Reckon
