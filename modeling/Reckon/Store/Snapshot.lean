import Reckon.Store

/-!
# Snapshots

`Store.snapshot` copies what an object holds out of the store. Arrays are followed into their
elements. An array that is met again inside itself is shown as a cycle, so the copying comes to an
end: a path into an array never passes the same literal twice, and there are only so many literals.
-/

namespace Reckon

namespace Store

/-- How many literals a path has not passed yet. -/
def unvisited (s : Store) (path : List LiteralId) : Nat :=
  (List.range s.literals.size).countP fun l => !path.contains l

/-- Passing a literal for the first time leaves fewer to pass. -/
theorem unvisited_cons_lt {s : Store} {path : List LiteralId} {l : LiteralId} {lit : Literal}
    (hl : s.literal? l = some lit) (hp : path.contains l = false) :
    s.unvisited (l :: path) < s.unvisited path := by
  unfold unvisited
  have hmem : l ∈ List.range s.literals.size := List.mem_range.2 (literal?_eq_some_iff.1 hl).1
  generalize List.range s.literals.size = ls at hmem
  induction ls with
  | nil => simp at hmem
  | cons a ls ih =>
    have hle : ls.countP (fun x => !(l :: path).contains x) ≤
        ls.countP (fun x => !path.contains x) := by
      apply List.countP_mono_left
      intro x _ hx
      simp only [List.contains_cons, Bool.not_or, Bool.and_eq_true] at hx
      exact hx.2
    by_cases ha : a = l
    · subst ha
      rw [List.countP_cons_of_neg (by simp), List.countP_cons_of_pos (by rw [hp]; rfl)]
      exact Nat.lt_succ_of_le hle
    · have hlt := ih ((List.mem_cons.1 hmem).resolve_left (Ne.symm ha))
      have hsame : (!(l :: path).contains a) = !path.contains a := by
        simp [ha]
      rw [List.countP_cons, List.countP_cons, hsame]
      exact Nat.add_lt_add_right hlt _

mutual

/-- What a literal holds, seen from inside the arrays of a path. -/
def snapshotLiteral (s : Store) (path : List LiteralId) (l : LiteralId) : Value :=
  if _hp : path.contains l then .cycle
  else
    match _hl : s.literal? l with
    | none => .nil
    | some ⟨.number n, _⟩ => .number n
    | some ⟨.function f, _⟩ => .function f
    | some ⟨.array slots, _⟩ => .array (s.snapshotSlots (l :: path) slots)
termination_by (s.unvisited path, 0)
decreasing_by
  exact Prod.Lex.left _ _ (unvisited_cons_lt _hl (by simpa using _hp))

/-- What the literals hold that slots point at. -/
def snapshotSlots (s : Store) (path : List LiteralId) : List SlotId → List Value
  | [] => []
  | id :: ids =>
    let head := match s.target? id with
      | some l => s.snapshotLiteral path l
      | none => .nil
    head :: s.snapshotSlots path ids
termination_by ids => (s.unvisited path, ids.length)
decreasing_by
  · exact Prod.Lex.right _ (by simp)
  · exact Prod.Lex.right _ (by simp)

end

/-- A detached copy of what an object holds. -/
def snapshot (s : Store) : Object → Value
  | .nil => .nil
  | .number n => .number n
  | .function f => .function f
  | .array slots => .array (s.snapshotSlots [] slots)
  | .readOnly l => s.snapshotLiteral [] l
  | .writable id =>
    match s.target? id with
    | some l => s.snapshotLiteral [] l
    | none => .nil

end Store

end Reckon
