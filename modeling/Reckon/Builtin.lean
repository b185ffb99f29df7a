import Reckon.Object

/-!
# Builtin functions

The functions that every session knows by name: `id`, the three roundings, the elementary functions
of floats, `factorial`, `sum`, `mul` and `random`.
-/

namespace Reckon

namespace Builtin

/-- A function of one number. -/
def ofNumber (name : String) (f : Number → Except Failure Number) : Function where
  name
  arity := .fixed 1
  body := fun _ args =>
    match args with
    | [a] =>
      match a.number with
      | .ok n => (f n).map .number
      | .error e => .error e
    | _ => .error { fault := RuntimeFault.badCallArgCount }

/-- A function of one float. -/
def ofFloat (name : String) (f : Float → Float) : Function :=
  ofNumber name fun n => .ok (.float (f n.toFloat))

/-- A function that rounds to an integer. An integer is taken as it is, also one that has
overflowed. -/
def rounding (name : String) (r : Rounding) : Function :=
  ofNumber name fun n => .ok <| .whole <|
    match n with
    | .float x => roundToInt32 r x
    | .int value _ _ => value

/-- A total as an integer if it is one, and as a float otherwise. -/
def wholeOrFloat (total : Float) : Number :=
  let whole := roundToInt32 .towardZero total
  if Float.ofInt whole.toInt == total then .whole whole else .float total

/-- A function that folds any number of numbers, at least one, as floats. -/
def folding (name : String) (start : Float) (f : Float → Float → Float) : Function where
  name
  arity := .variadic
  body := fun _ args =>
    if args.isEmpty then .error { fault := RuntimeFault.badCallArgCount }
    else
      match Argument.numbers args with
      | .error e => .error e
      | .ok ns => .ok (.number (wholeOrFloat (ns.foldl (fun total n => f total n.toFloat) start)))

/-- The number of the slot that an argument names, or 0. -/
def slotNumber : Function where
  name := "id"
  arity := .fixed 1
  body := fun _ args =>
    match args with
    | [a] => .ok (.number (.whole (Int32.ofNat a.slot)))
    | _ => .error { fault := RuntimeFault.badCallArgCount }

/-- The last factor of a factorial that makes a difference: the product has become infinite by
then. -/
def lastFactor : Nat := 171

/-- The product of the numbers from 2 to `n`, as a float. -/
def factorialOf (n : Nat) : Float :=
  (List.range' 2 (min n lastFactor - 1)).foldl (fun product i => product * Float.ofNat i) 1

/-- The factorial of an integer that is not negative. -/
def factorial : Function :=
  ofNumber "factorial" fun n =>
    match n.toInt? with
    | some value =>
      if 0 ≤ value then .ok (.float (factorialOf value.toInt.toNat))
      else .error { fault := RuntimeFault.badCallArgType }
    | none => .error { fault := RuntimeFault.badCallArgType }

/-- The number that was drawn for the call. -/
def random : Function where
  name := "random"
  arity := .fixed 0
  body := fun sample _ => .ok (.number (.float sample))

/-- All builtin functions, in the order in which a session binds them. -/
def all : List Function :=
  [slotNumber,
   rounding "int" .towardZero, rounding "floor" .down, rounding "ceil" .up,
   ofFloat "sin" Float.sin, ofFloat "cos" Float.cos, ofFloat "tan" Float.tan,
   ofFloat "exp" Float.exp, ofFloat "asin" Float.asin, ofFloat "acos" Float.acos,
   ofFloat "atan" Float.atan,
   factorial,
   folding "sum" 0 (· + ·), folding "mul" 1 (· * ·),
   random]

/-- The builtin function of a name. -/
def find? (name : String) : Option Function := all.find? fun f => f.name == name

end Builtin

end Reckon
