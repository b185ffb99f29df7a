import Reckon.Number.Text

/-!
# Objects

An `Object` is what the machine works on: nothing, a number, a function, an array, or a handle on
something the store keeps. The store keeps values in *literals* and names them through *slots*. A
read-only handle shares a literal; a writable handle names a slot, and assigning through it points
the slot at another literal without touching whoever else shares the first.

An object is owned by whoever holds it: an array owns the slots of its elements, and a read-only
handle owns one count on its literal. The store's `release` gives both up.

A `Value` is a detached copy of what an object holds, for showing.
-/

namespace Reckon

/-- The number of a slot. Slots are numbered from 1; 0 stands for what has no slot. -/
abbrev SlotId := Nat

/-- The number of a literal. -/
abbrev LiteralId := Nat

/-- The highest number a slot can have. -/
def maxSlotId : SlotId := 65535

/-! ## Functions -/

/-- How many arguments a function takes. -/
inductive Arity where
  | fixed (n : Nat)
  | variadic
  deriving DecidableEq, Repr, Inhabited

namespace Arity

/-- Whether so many arguments will do. -/
def accepts (a : Arity) (count : Nat) : Bool :=
  match a with
  | fixed n => n == count
  | variadic => true

/-- The arity as it is shown. -/
def text : Arity → String
  | fixed n => toString n
  | variadic => "..."

end Arity

/-- What an argument turns out to be once handles are followed. A function sees of an array the
slots of its elements, and of another function only that it is one: the name and the arity of the
other one, and what it does, are hidden from it here. So this says nothing of functions that ask an
argument for its name or its arity, or call it. -/
inductive Sight where
  | nil
  | number (n : Number)
  | function
  | array (slots : List SlotId)
  deriving Inhabited

/-- An argument of a call: the slot it names, or 0, and what it turns out to be. -/
structure Argument where
  slot : SlotId
  sight : Sight
  deriving Inhabited

/-- What a function may give back: nothing, a value, or a writable handle on a slot. -/
inductive Reply (F : Type) where
  | nil
  | number (n : Number)
  | function (f : F)
  | slot (id : SlotId)

/-- A function. Each call is handed the number that is drawn for it along with its arguments, so
that a function may depend on chance and still be a function. -/
structure Function where
  name : String
  arity : Arity
  body : Float → List Argument → Except Failure (Reply Function)

instance : Inhabited Function := ⟨⟨"", .fixed 0, fun _ _ => .ok .nil⟩⟩

namespace Function

/-- The function as it is shown. -/
def text (f : Function) : String := "[Function<" ++ f.arity.text ++ ">: " ++ f.name ++ "]"

/-- Calls the function, after checking how many arguments there are. -/
def call (f : Function) (sample : Float) (args : List Argument) :
    Except Failure (Reply Function) :=
  if f.arity.accepts args.length then f.body sample args
  else .error { fault := RuntimeFault.badCallArgCount }

end Function

namespace Argument

/-- The number an argument turns out to be. -/
def number (a : Argument) : Except Failure Number :=
  match a.sight with
  | .number n => .ok n
  | _ => .error { fault := RuntimeFault.badCallArgType }

/-- The numbers that all arguments turn out to be. -/
def numbers (args : List Argument) : Except Failure (List Number) := args.mapM number

end Argument

/-! ## Objects -/

/-- Something the machine works on. -/
inductive Object where
  | nil
  | number (n : Number)
  | function (f : Function)
  /-- An array that is in no literal yet, by the slots of its elements. -/
  | array (slots : List SlotId)
  /-- A handle that shares a literal. -/
  | readOnly (literal : LiteralId)
  /-- A handle that names a slot. -/
  | writable (id : SlotId)
  deriving Inhabited

namespace Object

/-- The slot an object names; 0 when it names none. -/
def slot : Object → SlotId
  | writable id => id
  | _ => 0

/-- Whether the object names a slot. -/
def isWritable : Object → Bool
  | writable _ => true
  | _ => false

/-- Whether the object shares a literal. -/
def isReadOnly : Object → Bool
  | readOnly _ => true
  | _ => false

/-- What a function gave back, as an object. -/
def ofReply : Reply Function → Object
  | .nil => nil
  | .number n => number n
  | .function f => function f
  | .slot id => writable id

end Object

/-! ## Values -/

/-- A detached copy of what an object holds. -/
inductive Value where
  | nil
  | number (n : Number)
  | function (f : Function)
  | array (items : List Value)
  /-- An array inside itself. -/
  | cycle
  deriving Inhabited

namespace Value

mutual

/-- The value as it is shown. -/
def text : Value → String
  | nil => "nil"
  | number n => n.text
  | function f => f.text
  | array items => "\x7b" ++ ", ".intercalate (texts items) ++ "\x7d"
  | cycle => "\x7b...\x7d"

/-- Each value as it is shown. -/
def texts : List Value → List String
  | [] => []
  | v :: vs => v.text :: texts vs

end

end Value

end Reckon
