import Reckon.Proofs.Compilation

/-!
# What surrounds a level

The code between two brackets works on the values that it has put on the stack itself. What lies
below them makes no difference, nor do the levels around the brackets: `Machine.atop` puts a machine
on top of other values and inside other levels, and a sequence that the check plays through from the
machine's own heights does the same there as it does by itself (`Machine.InStep.steps_atop`),
whether it fails or not. Handles on slots own nothing. So if nothing but such handles lies below, a
machine that has failed also leaves the same store (`Machine.abandon_atop`).
-/

namespace Reckon

open Program

/-- Values that a machine may stand on, top first, and levels that it may stand inside, innermost
first. -/
structure Setting where
  below : List Object
  around : List Frame

/-- A setting in which there is nothing to give up: handles on slots, and levels in which nothing
is staged. -/
structure Setting.Idle (w : Setting) : Prop where
  below : ∀ obj ∈ w.below, obj.isWritable
  around : ∀ f ∈ w.around, f.staged = []

/-- The level on a stack that is higher by so many values. -/
def Frame.raised (height : Nat) (f : Frame) : Frame := { f with base := f.base + height }

namespace Machine

/-- The machine in a setting. -/
def atop (m : Machine) (w : Setting) : Machine :=
  { m with
    values := m.values ++ w.below
    frame := m.frame.raised w.below.length
    outer := m.outer.map (Frame.raised w.below.length) ++ w.around }

/-- The answer of a step or a run, in a setting. -/
def answerAtop (q : Except Failure Unit × Machine) (w : Setting) :
    Except Failure Unit × Machine := (q.1, q.2.atop w)

variable {m : Machine} {h : Heights} {w : Setting} {s : Store}

/-! ## Operations -/

@[simp] theorem store_atop : (m.atop w).store = m.store := rfl

/-- As many values of the present level are on the stack as before. -/
@[simp] theorem pending_atop : (m.atop w).pending = m.pending := by
  -- the base of the level is raised by as many values as lie below
  simp only [pending, atop, Frame.raised, List.length_append]
  omega

/-- The values of the present level are the machine's own. -/
theorem take_append_below :
    (m.values ++ w.below).take m.pending = m.values.take m.pending ∧
      (m.values ++ w.below).drop m.pending = m.values.drop m.pending ++ w.below := by
  have hOwn : m.pending ≤ m.values.length := Nat.sub_le ..
  exact ⟨List.take_append_of_le_length hOwn, List.drop_append_of_le_length hOwn⟩

/-- Whatever comes of the values on top comes of them in any setting. -/
theorem replied_atop (r : Answer Object) : (m.atop w).replied r = answerAtop (m.replied r) w := by
  obtain ⟨answer, t⟩ := r
  cases answer <;> rfl

theorem opening_atop (b : Bracket) : (m.atop w).opening b = (m.opening b).atop w := by
  simp only [opening, atop, Frame.raised, List.length_append, List.map_cons, List.cons_append]

/-- A comma does the same in any setting. -/
theorem comma_atop : (m.atop w).comma = answerAtop m.comma w := by
  obtain ⟨hTake, hDrop⟩ := take_append_below (m := m) (w := w)
  unfold comma
  rw [pending_atop]
  simp only [atop, hTake, hDrop]
  -- what the comma takes are values of the machine's own level
  cases (m.values.take m.pending).reverse with
  | nil => rfl
  | cons oldest newer => simp only [answerAtop, atop, Frame.raised, List.append_assoc]

/-- So does setting elements aside. -/
theorem setAside_atop (objs : List Object) :
    (m.atop w).setAside objs = (m.setAside objs).atop w := by
  unfold setAside
  rw [pending_atop]
  dsimp only
  -- as many values are pending as before, so the elements are moved or staged as before
  split
  · rfl
  · split <;> rfl

/-- So does a spread. -/
theorem spread_atop (obj : Object) :
    ((m.gaining obj s).atop w).spread = answerAtop (m.gaining obj s).spread w := by
  show ((m.atop w).gaining obj s).spread = _
  unfold spread
  simp only [gaining, push]
  cases s.array? obj with
  | none => rfl
  | some array =>
    dsimp only
    split
    · rfl
    · -- the others are staged on the machine's own level, and the last one is pushed on top
      rename_i last others _
      have hAside := setAside_atop (w := w) others
        (m := { m with store := (elements s array.2 [] array.1).2.release obj })
      exact congrArg (fun n => (Except.ok (), push n last)) hAside

/-- A prefix operator works on a value of the machine's own. -/
theorem prefixed_atop {op : Operator} (hOp : op.isPrefix) (obj : Object) :
    ((m.gaining obj s).atop w).perform op = answerAtop ((m.gaining obj s).perform op) w := by
  rw [perform_of_isPrefix hOp, perform_of_isPrefix hOp]
  split
  · exact spread_atop obj
  · exact replied_atop (s.prefixed op obj)

/-- A binary operator works on two of them. -/
theorem infixed_atop {op : Operator} (hOp : op.isBinary) (t : Store) (lhs rhs : Object) :
    (((m.gaining lhs s).gaining rhs t).atop w).perform op =
      answerAtop (((m.gaining lhs s).gaining rhs t).perform op) w := by
  show (((m.atop w).gaining lhs t).gaining rhs t).perform op =
    answerAtop (((m.gaining lhs t).gaining rhs t).perform op) w
  rw [perform_eq_replied _ t hOp, perform_eq_replied _ t hOp]
  exact replied_atop _

/-- A value that the check has counted is the machine's own. -/
theorem InStep.exists_gaining (hm : m.InStep h) (hValue : 0 < h.height) :
    ∃ n obj, m = gaining n obj m.store := by
  obtain ⟨obj, values, hValues, -⟩ := hm.exists_one hValue
  refine ⟨{ m with values }, obj, ?_⟩
  rw [gaining, push, ← hValues]

/-- And so are two. -/
theorem InStep.exists_gaining₂ (hm : m.InStep h) (hValues : 2 ≤ h.height) :
    ∃ n lhs rhs, m = (gaining n lhs m.store).gaining rhs m.store := by
  obtain ⟨rhs, lhs, values, hTop, -⟩ := hm.exists_two hValues
  refine ⟨{ m with values }, lhs, rhs, ?_⟩
  simp only [gaining, push, ← hTop]

/-! ## Brackets -/

/-- A level of the machine's own hands over the same values. -/
theorem leave_atop (around : Frame) (outer : List Frame) :
    (m.atop w).leave (around.raised w.below.length)
        (outer.map (Frame.raised w.below.length) ++ w.around) =
      ((m.leave around outer).1, (m.leave around outer).2.atop w) := by
  obtain ⟨hTake, hDrop⟩ := take_append_below (m := m) (w := w)
  unfold leave
  rw [pending_atop]
  simp only [atop, Frame.raised, hTake, hDrop]

/-- What comes of a group is the same in any setting. -/
theorem closingGroup_atop (items : List Object) :
    (m.atop w).closingGroup items = answerAtop (m.closingGroup items) w := by
  show { m.atop w with store := m.store }.closingGroup items =
    answerAtop ({ m with store := m.store }.closingGroup items) w
  rw [closingGroup_eq_replied, closingGroup_eq_replied]
  exact replied_atop _

/-- So is what comes of an array. -/
theorem closingArray_atop (items : List Object) :
    (m.atop w).closingArray items = answerAtop (m.closingArray items) w := by
  show { m.atop w with store := m.store }.closingArray items =
    answerAtop ({ m with store := m.store }.closingArray items) w
  rw [closingArray_eq_replied, closingArray_eq_replied]
  exact replied_atop _

/-- So is what comes of an index, of which the array is the machine's own. -/
theorem closingIndex_atop (target : Object) {items : List Object} (hItems : items ≠ []) :
    ((m.gaining target s).atop w).closingIndex items =
      answerAtop ((m.gaining target s).closingIndex items) w := by
  show ((m.atop w).gaining target s).closingIndex items = _
  rw [closingIndex_eq_replied _ s target hItems, closingIndex_eq_replied _ s target hItems]
  exact replied_atop _

/-- So is what comes of a call, of which the function is the machine's own. -/
theorem closingCall_atop (callee : Object) (args : List Object) :
    ((m.gaining callee s).atop w).closingCall args =
      answerAtop ((m.gaining callee s).closingCall args) w := by
  show ((m.atop w).gaining callee s).closingCall args = _
  rw [closingCall_eq_replied, closingCall_eq_replied]
  exact replied_atop _

/-- Where the check closes a level, the level is the machine's own, and so is what stands in front
of the bracket if that is worked on. -/
theorem InStep.closing_atop {b : Bracket} {level : Level} {outer : List Level} (hm : m.InStep h)
    (hs : h.Sound) (hOuter : h.outer = level :: outer)
    (hTarget : b = .index ∨ b = .call → 0 < h.level.base)
    (hIndex : b = .index → h.level.base < h.height) :
    (m.atop w).closing b = answerAtop (m.closing b) w := by
  obtain ⟨around, frames, hAround, hBase, hRest⟩ := hm.exists_outer hOuter
  have hLeft := hm.leave hs hBase hRest
  have hAbove : (m.atop w).outer =
      around.raised w.below.length :: (frames.map (Frame.raised w.below.length) ++ w.around) := by
    rw [atop, hAround, List.map_cons, List.cons_append]
  unfold closing
  simp only [hAbove, hAround, leave_atop]
  cases b with
  | group => exact closingGroup_atop _
  | array => exact closingArray_atop _
  | index =>
    -- the array stands in front of the bracket, above the base that the check has seen
    obtain ⟨n, target, hEq⟩ := hLeft.exists_gaining (hTarget (.inl rfl))
    have hSome := hm.leave_ne_nil (hIndex rfl) around frames
    dsimp only
    rw [hEq]
    exact closingIndex_atop target hSome
  | call =>
    obtain ⟨n, callee, hEq⟩ := hLeft.exists_gaining (hTarget (.inr rfl))
    dsimp only
    rw [hEq]
    exact closingCall_atop callee _

/-! ## Steps and runs -/

/-- **One step.** An instruction that the check lets does the same in any setting. -/
theorem InStep.step_atop {h' : Heights} {i : Instruction} (hm : m.InStep h) (hs : h.Sound)
    (script : String) (hStep : h.step i = .ok h') :
    (m.atop w).step script i = answerAtop (m.step script i) w := by
  have hStepped := Heights.stepped hStep
  have hLe := hs.base_le
  unfold Machine.step
  -- the check lets an instruction pass only if the values that it takes are there
  generalize i.kind = kind at hStepped
  cases hStepped with
  | number numeral => exact replied_atop (_, m.store)
  | name =>
    dsimp only [store_atop]
    cases m.store.intern (i.span.text script) with
    | mk answer t => cases answer <;> rfl
  | opening b => exact congrArg (Prod.mk _) (opening_atop b)
  | closingValue hOuter hb =>
    exact hm.closing_atop hs hOuter (by rcases hb with rfl | rfl <;> simp)
      (by rcases hb with rfl | rfl <;> simp)
  | closingTarget hOuter hb hTarget hIndex =>
    exact hm.closing_atop hs hOuter (fun _ => hTarget) hIndex
  | comma hValue => exact comma_atop
  | semicolon => rfl
  | prefixed hOp hValue =>
    obtain ⟨n, obj, hEq⟩ := hm.exists_gaining (by omega)
    rw [hEq]
    exact prefixed_atop hOp obj
  | binary hOp hTwo =>
    obtain ⟨n, lhs, rhs, hEq⟩ := hm.exists_gaining₂ (by omega)
    rw [hEq]
    exact infixed_atop hOp _ lhs rhs

/-- **A sequence that the check plays through does the same in any setting.** -/
theorem InStep.steps_atop {h' : Heights} {code : List Instruction} (hm : m.InStep h)
    (hs : h.Sound) (script : String) (hPlay : h.play code = .ok h') :
    steps script (m.atop w) code = answerAtop (steps script m code) w := by
  -- it is the machine by itself that the heights are in step with, not the one on top of others
  induction code generalizing m h with
  | nil => rfl
  | cons i code ih =>
    unfold Heights.play at hPlay
    split at hPlay
    · cases hPlay
    · rename_i mid hStep
      have hNext := hm.step hs script hStep
      unfold steps
      rw [hm.step_atop hs script hStep]
      generalize m.step script i = q at hNext
      obtain ⟨e | _, n⟩ := q
      · rfl
      · exact ih hNext (hs.step hStep) hPlay

/-! ## After a failure -/

/-- Handles on slots own nothing, so giving them up leaves the store alone. -/
theorem releaseAll_of_isWritable {objs : List Object} (hObjs : ∀ obj ∈ objs, obj.isWritable)
    (s : Store) : s.releaseAll objs = s := by
  unfold Store.releaseAll
  induction objs with
  | nil => rfl
  | cons obj objs ih =>
    obtain ⟨hFirst, hRest⟩ := List.forall_mem_cons.1 hObjs
    cases obj with
    | writable id => exact ih hRest
    | _ => cases hFirst

/-- In such a setting the same is given up after a failure. -/
theorem abandon_atop (hw : w.Idle) : (m.atop w).abandon = m.abandon := by
  -- around the machine nothing is staged, so nothing is given up there
  have hAround : w.around.reverse.flatMap (fun f => f.staged.flatMap (·.elements)) = [] := by
    rw [List.flatMap_eq_nil_iff]
    intro f hf
    rw [hw.around f (List.mem_reverse.1 hf), List.flatMap_nil]
  have hFrames : (m.atop w).frames.flatMap (fun f => f.staged.flatMap (·.elements)) =
      m.frames.flatMap fun f => f.staged.flatMap (·.elements) := by
    simp only [frames, atop, List.reverse_append, List.flatMap_append, hAround, List.nil_append,
      ← List.map_reverse, List.flatMap_map]
    rfl
  have hBelow : m.store.releaseAll w.below.reverse = m.store :=
    releaseAll_of_isWritable (fun obj hObj => hw.below obj (List.mem_reverse.1 hObj)) m.store
  have hValues : (m.atop w).values.reverse = w.below.reverse ++ m.values.reverse :=
    List.reverse_append
  -- the values that lie below come first in the order in which they are released
  have hSplit (objs : List Object) :
      m.store.releaseAll (w.below.reverse ++ objs) = m.store.releaseAll objs := by
    rw [Store.releaseAll, List.foldl_append]
    exact congrArg (List.foldl Store.release · objs) hBelow
  unfold abandon
  rw [hFrames, hValues, List.append_assoc, List.append_assoc, store_atop, hSplit,
    ← List.append_assoc]
  rfl

end Machine

end Reckon
