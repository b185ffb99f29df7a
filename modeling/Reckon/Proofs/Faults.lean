import Reckon.Machine
import Mathlib.Tactic

/-!
# Structural faults

Some faults say that the statement is not well formed: a value or a bracket is missing, or there is
one too many. Neither arithmetic nor the store raises any of them. What the store raises points
nowhere (`Failure.Plain`); it is the run that points at an instruction.
-/

namespace Reckon

/-- The faults by which the machine reports that a value or a bracket is missing, or that there is
one too many. -/
def Fault.isStructural : Fault → Bool
  | .grammar .invalidSyntax | .grammar .tooManyCommas => true
  | .indexing .noIndex | .indexing .missingArray => true
  | .runtime .expectFunction => true
  | _ => false

/-- A failure that is structural only if it has the property. -/
def Failure.Excused (P : Failure → Prop) (e : Failure) : Prop := e.fault.isStructural = true → P e

variable {P : Failure → Prop}

/-- A failure that is not structural needs no excuse. -/
theorem Failure.Excused.of_eq_false {e : Failure} (h : e.fault.isStructural = false) :
    e.Excused P := by
  intro hStructural
  rw [h] at hStructural
  cases hStructural

/-- To point a failure somewhere does not change what is wrong. -/
theorem Failure.orSpan_fault (e : Failure) (span : Span) : (e.orSpan span).fault = e.fault := by
  unfold orSpan
  split <;> rfl

/-- A failure that is not about the form of the statement, and points nowhere. -/
structure Failure.Plain (e : Failure) : Prop where
  structural : e.fault.isStructural = false
  span : e.span = none

/-! ## Numbers -/

namespace Number

/-- A literal that cannot be read is a wrong literal, not a wrong statement. -/
theorem isStructural_ofLiteral {text : String} {numeral : Numeral} {f : Fault}
    (h : ofLiteral text numeral = .error f) : f.isStructural = false := by
  -- a literal is read or it is invalid
  unfold ofLiteral at h
  split at h <;> cases h
  rfl

/-- A prefix operator other than a spread works on every number, or the number is at fault. -/
theorem isStructural_unary {op : Operator} {n : Number} {f : Fault} (hOp : op.isPrefix)
    (hSpread : op ≠ .spread) (h : n.unary op = .error f) : f.isStructural = false := by
  unfold unary at h
  split at h
  · cases h
    rfl
  -- every other prefix operator works on numbers of either sort, or is at fault with the number
  · cases op <;> simp_all [Operator.isPrefix, Operator.priority]
    all_goals cases n <;> simp_all <;> subst h <;> rfl

/-- Arithmetic complains about numbers and nothing else. -/
theorem isStructural_arithmetic {op : Operator} {m n : Number} {f : Fault}
    (h : arithmetic op m n = .error f) : f.isStructural = false := by
  -- of two integers the result is an integer, and of all other pairs a float
  have hFloat (x y : Float) (h : floatArithmetic op x y = .error f) : f.isStructural = false := by
    unfold floatArithmetic at h
    split at h <;> cases h
    rfl
  have hInt (a b : Int32) (h : intArithmetic op a b = .error f) : f.isStructural = false := by
    unfold intArithmetic at h
    split at h
    · cases h
    · cases h
    · cases h
    · split at h <;> cases h
      rfl
    · split at h
      · cases h
        rfl
      · split at h <;> cases h
  unfold arithmetic at h
  split at h
  · exact hInt _ _ h
  · exact hFloat _ _ h

/-- Bitwise operators complain about operands that are no integers. -/
theorem isStructural_bitwise {op : Operator} {m n : Number} {f : Fault}
    (h : bitwise op m n = .error f) : f.isStructural = false := by
  unfold bitwise at h
  split at h
  · split at h <;> cases h
  · cases h
    rfl

/-- A binary operator other than an assignment works on every pair of numbers, or the numbers are at
fault. -/
theorem isStructural_binary {op : Operator} {m n : Number} {f : Fault} (hOp : op.isBinary)
    (hAssign : op.priority ≠ 14) (h : m.binary op n = .error f) : f.isStructural = false := by
  unfold binary at h
  split at h
  · cases h
    rfl
  · split at h
    all_goals first
      | exact isStructural_arithmetic h
      | exact isStructural_bitwise h
      | cases h
    -- no other operator is binary, but for the assignments
    cases op <;> simp_all [Operator.isBinary, Operator.priority]

end Number

/-! ## The store -/

namespace Store

/-- No slot is left: that is what the store says, and it does not know where in the script. -/
theorem plain_allocate {s t : Store} {e : Failure} (h : s.allocate = (.error e, t)) :
    e.Plain := by
  unfold allocate at h
  split at h
  · cases h
  · split at h <;> cases h
    exact ⟨rfl, rfl⟩

/-- A new handle fails for lack of a slot only. -/
theorem plain_wrap {s t : Store} {target : Option LiteralId} {writable : Bool} {e : Failure}
    (h : s.wrap target writable = (.error e, t)) : e.Plain := by
  unfold wrap at h
  split at h
  · cases hAllocate : s.allocate with
    | mk answer u =>
      rw [hAllocate] at h
      cases answer with
      | ok id => cases h
      | error e' =>
        cases h
        exact plain_allocate hAllocate
  · cases h

/-- Whatever the handle is to be on, only its slot may be missing. -/
theorem plain_materialize {s t : Store} {obj : Object} {r : Request} {e : Failure}
    (h : s.materialize obj r = (.error e, t)) : e.Plain := by
  unfold materialize at h
  dsimp only at h
  split at h
  · exact plain_wrap h
  · exact plain_wrap h
  · split at h
    · exact plain_wrap h
    · exact plain_wrap h
    · exact plain_wrap h
    · cases h

/-- To bind fails because no handle is to be had, or because there is no such slot. -/
theorem plain_bind {s t : Store} {id : SlotId} {obj : Object} {e : Failure}
    (h : s.bind id obj = (.error e, t)) : e.Plain := by
  unfold bind at h
  split at h
  · rename_i hHandle
    cases h
    exact plain_materialize hHandle
  · dsimp only at h
    split at h <;> cases h
    exact ⟨rfl, rfl⟩

/-- To intern fails because no slot is left, or because the name is in use. -/
theorem plain_intern {s t : Store} {name : String} {e : Failure}
    (h : s.intern name = (.error e, t)) : e.Plain := by
  unfold intern at h
  split at h
  · cases h
  · split at h
    · rename_i hAllocate
      cases h
      exact plain_allocate hAllocate
    · split at h
      · rename_i hInsert
        cases h
        unfold Symbols.insert at hInsert
        split at hInsert <;> cases hInsert
        exact ⟨rfl, rfl⟩
      · cases h

end Store

/-- Slots for the elements of an array run out like all others. -/
theorem Machine.plain_slotsFor {s t : Store} {made : List SlotId} {objs : List Object}
    {e : Failure} (hEq : slotsFor s made objs = (.error e, t)) : e.Plain := by
  induction objs generalizing s made with
  | nil => cases hEq
  | cons obj objs ih =>
    unfold slotsFor at hEq
    -- the first object that gets no slot ends it
    split at hEq
    · exact ih hEq
    · rename_i hHandle
      cases hEq
      exact Store.plain_materialize hHandle

end Reckon
