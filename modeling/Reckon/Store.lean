import Reckon.Entropy
import Reckon.Object

/-!
# The store

The store keeps the literals, the slots and the names of a session. Every literal is counted: by the
slots that point at it and by the read-only handles on it. A count that falls to zero puts the
literal in a queue, and `Store.sweep` reclaims what is in the queue and still not counted; handles
that were taken while a statement runs therefore stay good until it ends.

Slots and literals are numbered, and numbers that have been given back are used again, the latest
first. An operation that may fail gives its answer and the store as it is then: also a failed
operation may have changed it.
-/

namespace Reckon

/-- What a literal holds. -/
inductive Payload where
  | number (n : Number)
  | function (f : Function)
  | array (slots : List SlotId)
  deriving Inhabited

/-- What a literal holds, by kind. -/
inductive PayloadKind where
  | number
  | function
  | array
  deriving DecidableEq, Repr, Inhabited

/-- The slots that a payload owns. -/
def Payload.slots : Payload → List SlotId
  | array slots => slots
  | _ => []

/-- A payload and the number of slots and handles that hold on to it. The number has no bound. A
word of 32 bits can stand for it as long as fewer than `2 ^ 32` slots and handles hold on to the
same payload. -/
structure Literal where
  payload : Payload
  refs : Nat
  deriving Inhabited

/-- A place that points at a literal, or at nothing. -/
structure Slot where
  target : Option LiteralId := none
  deriving DecidableEq, Repr, Inhabited

/-- The names in use with their slots, in the order they were introduced. -/
structure Symbols where
  entries : List (String × SlotId) := []
  deriving DecidableEq, Repr, Inhabited

namespace Symbols

/-- The slot of a name. -/
def find? (t : Symbols) (name : String) : Option SlotId :=
  (t.entries.find? fun entry => entry.1 == name).map (·.2)

/-- How many names there are. -/
def size (t : Symbols) : Nat := t.entries.length

/-- Whether there is no name. -/
def isEmpty (t : Symbols) : Bool := t.entries.isEmpty

/-- Introduces a name, which must not be in use. -/
def insert (t : Symbols) (name : String) (id : SlotId) : Except Failure Symbols :=
  match t.find? name with
  | some _ => .error { fault := RuntimeFault.badSymbolInsertion }
  | none => .ok ⟨t.entries ++ [(name, id)]⟩

end Symbols

/-- The literals, slots and names of a session. -/
structure Store where
  /-- Literals by number; a number whose literal was reclaimed has none. -/
  literals : Array (Option Literal) := #[]
  /-- The numbers of reclaimed literals, latest first. -/
  vacant : List LiteralId := []
  /-- Slots by number. Number 0 has no slot and is never given out. -/
  slots : Array (Option Slot) := #[none]
  /-- The numbers of slots that were given back, latest first. -/
  freeIds : List SlotId := []
  symbols : Symbols := {}
  /-- Literals whose count fell to zero, latest first. -/
  queue : List LiteralId := []
  /-- Whether a literal has ever been given up while nobody held on to it. -/
  overdrawn : Bool := false
  /-- Where functions that depend on chance draw from. -/
  entropy : Entropy := .seeded 0
  deriving Inhabited

namespace Store

/-- A store with nothing in it. -/
def empty (entropy : Entropy := .seeded 0) : Store := { entropy }

/-! ## Literals -/

/-- A literal that has not been reclaimed. -/
def literal? (s : Store) (l : LiteralId) : Option Literal := (s.literals[l]?).join

/-- A literal that is there has a number within range, and stands under it. -/
theorem literal?_eq_some_iff {s : Store} {l : LiteralId} {lit : Literal} :
    s.literal? l = some lit ↔ ∃ h : l < s.literals.size, s.literals[l] = some lit := by
  unfold literal?
  by_cases h : l < s.literals.size <;> simp [h]

/-- How many hold on to a literal. -/
def refCount? (s : Store) (l : LiteralId) : Option Nat := (s.literal? l).map (·.refs)

/-- How many literals there are. -/
def liveLiterals (s : Store) : Nat := s.literals.countP Option.isSome

/-- Makes a new literal, which its first holder counts on. -/
def addLiteral (s : Store) (payload : Payload) : LiteralId × Store :=
  match s.vacant with
  | l :: vacant =>
    (l, { s with literals := s.literals.setIfInBounds l (some ⟨payload, 1⟩), vacant })
  | [] => (s.literals.size, { s with literals := s.literals.push (some ⟨payload, 1⟩) })

/-- One more holds on to a literal. -/
def retain (s : Store) (l : LiteralId) : Store :=
  match s.literal? l with
  | some lit =>
    { s with literals := s.literals.setIfInBounds l (some { lit with refs := lit.refs + 1 }) }
  | none => s

/-- One fewer holds on to a literal. When nobody is left, the literal waits in the queue. Somebody
has to hold on to it before; the store takes note when nobody does. -/
def forgo (s : Store) (l : LiteralId) : Store :=
  match s.literal? l with
  | some lit =>
    let refs := lit.refs - 1
    { s with
      literals := s.literals.setIfInBounds l (some { lit with refs })
      queue := if refs = 0 then l :: s.queue else s.queue
      overdrawn := s.overdrawn || lit.refs == 0 }
  | none => s

/-! ## Slots -/

/-- A slot that is in use. -/
def slot? (s : Store) (id : SlotId) : Option Slot := (s.slots[id]?).join

/-- The literal a slot points at. -/
def target? (s : Store) (id : SlotId) : Option LiteralId := (s.slot? id).bind (·.target)

/-- How many slots are in use. -/
def liveSlots (s : Store) : Nat := s.slots.countP Option.isSome

/-- Points a slot somewhere else, without any counting. -/
def setTarget (s : Store) (id : SlotId) (target : Option LiteralId) : Store :=
  { s with slots := s.slots.setIfInBounds id (some ⟨target⟩) }

/-- Gives out a slot that points at nothing. -/
def allocate (s : Store) : Except Failure SlotId × Store :=
  match s.freeIds with
  | id :: freeIds => (.ok id, { s with slots := s.slots.setIfInBounds id (some {}), freeIds })
  | [] =>
    if maxSlotId < s.slots.size then (.error { fault := RuntimeFault.noAvailableId }, s)
    else (.ok s.slots.size, { s with slots := s.slots.push (some {}) })

/-- Takes a slot back, together with its count on the literal it points at. A number without a slot
is passed over. -/
def freeSlot (s : Store) (id : SlotId) : Store :=
  match s.slot? id with
  | none => s
  | some slot =>
    -- the slot is gone before its literal is given up, so nothing meets it on the way
    let s := { s with slots := s.slots.setIfInBounds id none }
    let s := match slot.target with
      | some l => s.forgo l
      | none => s
    { s with freeIds := id :: s.freeIds }

/-- Takes slots back, one after the other. -/
def freeSlots (s : Store) (ids : List SlotId) : Store := ids.foldl freeSlot s

/-! ## Objects -/

/-- Gives up what an object owns. -/
def release (s : Store) : Object → Store
  | .array slots => s.freeSlots slots
  | .readOnly l => s.forgo l
  | _ => s

/-- Gives up what objects own, one after the other. -/
def releaseAll (s : Store) (objects : List Object) : Store := objects.foldl release s

/-- What an object turns out to hold once handles are followed. A handle on what is no longer there
holds nothing. -/
def payload? (s : Store) : Object → Option Payload
  | .nil => none
  | .number n => some (.number n)
  | .function f => some (.function f)
  | .array slots => some (.array slots)
  | .readOnly l => (s.literal? l).map (·.payload)
  | .writable id => ((s.target? id).bind s.literal?).map (·.payload)

/-- The elements of the array an object turns out to be, and whether a writable handle led to it. -/
def array? (s : Store) (obj : Object) : Option (List SlotId × Bool) :=
  match s.payload? obj with
  | some (.array slots) => some (slots, obj.isWritable)
  | _ => none

/-- A handle on the element in a slot: on the slot itself, or read-only on its literal. -/
def element (s : Store) (id : SlotId) (writable : Bool) : Object × Store :=
  if writable then (.writable id, s)
  else
    match s.target? id with
    | some l => (.readOnly l, s.retain l)
    | none => (.nil, s)

/-! ## Handles -/

/-- Where the literal of a new handle comes from. -/
inductive Source where
  | nil
  /-- A literal that is there already is shared. -/
  | shared (l : LiteralId)
  /-- A plain value becomes a literal. -/
  | fresh (kind : PayloadKind)
  deriving DecidableEq, Repr, Inhabited

/-- A handle that is asked for: on which literal, and whether it gets a slot of its own. -/
structure Request where
  source : Source
  writable : Bool
  deriving DecidableEq, Repr, Inhabited

/-- How a handle on an object is to be had. Nothing is counted yet. -/
def request (s : Store) (obj : Object) (writable : Bool) : Request :=
  let source : Source := match obj with
    | .nil => .nil
    | .number _ => .fresh .number
    | .function _ => .fresh .function
    | .array _ => .fresh .array
    | .readOnly l => .shared l
    | .writable id =>
      match s.target? id with
      | some l => .shared l
      | none => .nil
  ⟨source, writable⟩

/-- Gives a literal, which is counted on already, the handle that was asked for: read-only, or on a
new slot. -/
def wrap (s : Store) (target : Option LiteralId) (writable : Bool) :
    Except Failure Object × Store :=
  if writable then
    match s.allocate with
    | (.ok id, s) => (.ok (.writable id), s.setTarget id target)
    | (.error e, s) =>
      (.error e, match target with
        | some l => s.forgo l
        | none => s)
  else
    (.ok (match target with
      | some l => .readOnly l
      | none => .nil), s)

/-- Makes the handle that was asked for and gives the object up. What is no plain value cannot
become a literal, and gives nothing. -/
def materialize (s : Store) (obj : Object) (r : Request) : Except Failure Object × Store :=
  let fresh (payload : Payload) :=
    let a := s.addLiteral payload
    a.2.wrap (some a.1) r.writable
  match r.source with
  | .nil => (s.release obj).wrap none r.writable
  | .shared l => ((s.retain l).release obj).wrap (some l) r.writable
  | .fresh _ =>
    match obj with
    | .number n => fresh (.number n)
    | .function f => fresh (.function f)
    | .array slots => fresh (.array slots)
    | obj => (.ok .nil, s.release obj)

/-- Points a slot at what an object holds, and gives up what it pointed at before. -/
def bind (s : Store) (id : SlotId) (obj : Object) : Except Failure Unit × Store :=
  match s.materialize obj (s.request obj false) with
  | (.error e, s) => (.error e, s)
  | (.ok handle, s) =>
    let target := match handle with
      | .readOnly l => some l
      | _ => none
    match s.slot? id with
    | none =>
      (.error { fault := RuntimeFault.assignLeftValue }, match target with
        | some l => s.forgo l
        | none => s)
    | some slot =>
      -- the new literal is counted by now, so it outlives the old one even if they are the same
      let s := s.setTarget id target
      (.ok (), match slot.target with
        | some l => s.forgo l
        | none => s)

/-! ## Names -/

/-- The slot of a name. -/
def lookup (s : Store) (name : String) : Option SlotId := s.symbols.find? name

/-- The slot of a name, which gets an empty one when it is new. -/
def intern (s : Store) (name : String) : Except Failure SlotId × Store :=
  match s.lookup name with
  | some id => (.ok id, s)
  | none =>
    match s.allocate with
    | (.error e, s) => (.error e, s)
    | (.ok id, s) =>
      match s.symbols.insert name id with
      | .error e => (.error e, s.freeSlot id)
      | .ok symbols => (.ok id, { s with symbols })

/-- Binds a name to what an object holds. -/
def define (s : Store) (name : String) (obj : Object) : Except Failure SlotId × Store :=
  match s.intern name with
  | (.error e, s) => (.error e, s)
  | (.ok id, s) =>
    match s.bind id obj with
    | (.error e, s) => (.error e, s)
    | (.ok (), s) => (.ok id, s)

/-! ## Calls -/

/-- An object as the argument of a call. -/
def argument (s : Store) (obj : Object) : Argument :=
  let sight : Sight := match s.payload? obj with
    | none => .nil
    | some (.number n) => .number n
    | some (.function _) => .function
    | some (.array slots) => .array slots
  ⟨obj.slot, sight⟩

/-- Calls a function with objects as its arguments, which stay with the caller. -/
def call (s : Store) (f : Function) (args : List Object) : Except Failure Object × Store :=
  let (sample, entropy) := s.entropy.next
  let result := f.call sample (args.map s.argument)
  (result.map Object.ofReply, { s with entropy })

end Store

end Reckon
