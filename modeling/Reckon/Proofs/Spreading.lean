import Reckon.Proofs.Compilation

/-!
# The order of spread elements

A spread leaves the last element of its array on the stack. The others are set aside, behind the
values of the level that wait for their comma; the machine counts those values and takes one off at
every comma. The count also holds operands that wait for an operator of the same item, which no
comma takes. So the elements come too late if the spread stands in a right operand and another item
follows: `{1 + *{2, 3}, 4}` gathers 4, 2 and 4, and not 2, 4 and 4.

In all other places the elements come where they belong (`Expr.SpreadsInFront`). What the machine
gathers between two brackets is then what the items contribute, one after the other
(`Expr.contributions`).
-/

namespace Reckon

open Machine

/-! ## What an item contributes -/

/-- The elements that a spread of the value on top puts in front of the last one. -/
def Machine.spreadOut (m : Machine) : List Object :=
  match m.values with
  | [] => []
  | obj :: _ =>
    match m.store.expanded obj with
    | (.ok objs, _) => objs.dropLast
    | (.error _, _) => []

/-- The elements that the spreads of an expression put in front of their last ones, in the order in
which the run comes to them. What stands between brackets is a list of its own. -/
def Expr.spreads (script : String) (depth : Nat) : Expr → Machine → List Object
  | .prefixed op _ e, m =>
    e.spreads script depth m ++
      if op.1 = .spread then (steps script m (e.code depth)).2.spreadOut else []
  | .binary _ _ l r, m | .comma _ l r, m =>
    l.spreads script depth m ++ r.spreads script depth (steps script m (l.code depth)).2
  | .call f _ _ _, m => f.spreads script depth m
  | .index e _ _ _, m => e.spreads script depth m
  | _, _ => []

/-- What the items of a list contribute, one after the other: the elements that an item spreads, and
then its own value. -/
def Expr.contributions (script : String) (depth : Nat) : Expr → Machine → List Object
  | .comma _ l r, m =>
    l.contributions script depth m ++
      r.contributions script depth (steps script m (l.code depth)).2
  | e, m => e.spreads script depth m ++ (steps script m (e.code depth)).2.values.take 1

/-! ## Where a spread may stand -/

/-- No item spreads elements in a right operand, where a left operand waits. A spread of one element
is none. -/
def Expr.SpreadsFirst (script : String) (depth : Nat) : Expr → Machine → Prop
  | .prefixed _ _ e, m => e.SpreadsFirst script depth m
  | .binary _ _ l r, m =>
    l.SpreadsFirst script depth m ∧
      r.spreads script depth (steps script m (l.code depth)).2 = []
  | .comma _ l r, m =>
    l.SpreadsFirst script depth m ∧
      r.SpreadsFirst script depth (steps script m (l.code depth)).2
  | .call f _ _ _, m => f.SpreadsFirst script depth m
  | .index e _ _ _, m => e.SpreadsFirst script depth m
  | _, _ => True

/-- No item but the last spreads elements in a right operand. -/
def Expr.SpreadsInFront (script : String) (depth : Nat) : Expr → Machine → Prop
  | .comma _ l _, m => l.SpreadsFirst script depth m
  | _, _ => True

/-- An operand of a prefix operator or a bracket has no right operand outside all brackets. -/
theorem Expr.Fits.spreadsFirst_of_level (script : String) (depth : Nat) (m : Machine) :
    ∀ {e : Expr}, e.Fits → e.level ≤ 2 → e.SpreadsFirst script depth m
  | .number _ _, _, _ | .name _, _, _ | .group _ _ _, _, _ | .array _ _ _, _, _ => trivial
  | .prefixed op _ e, h, _ => by
    have hTwo := op.rightBound_eq
    have hBound := h.1
    exact h.2.spreadsFirst_of_level script depth m (by omega)
  | .binary op _ _ _, _, hLevel => by
    have hThree := op.priority_bounds
    simp only [Expr.level] at hLevel
    omega
  | .comma _ _ _, _, hLevel => by simp [Expr.level, Operator.priority] at hLevel
  | .call f _ _ _, h, _ => by
    have hOne := Expr.level_of_isCallee h.1.1
    exact h.1.2.spreadsFirst_of_level script depth m (by omega)
  | .index e _ _ _, h, _ => by
    have hOne := h.1.1
    exact h.1.2.spreadsFirst_of_level script depth m (by omega)

/-- What one item contributes. -/
theorem Expr.contributions_eq {script : String} {depth : Nat} {e : Expr} {m : Machine}
    (hLevel : e.level ≤ 14) :
    e.contributions script depth m =
      e.spreads script depth m ++ (steps script m (e.code depth)).2.values.take 1 := by
  -- a comma has the highest level, so it is no item
  cases e with
  | comma => simp [Expr.level, Operator.priority] at hLevel
  | _ => rfl

/-- Where no item spreads elements in a right operand, in particular none but the last does. -/
theorem Expr.SpreadsFirst.inFront {script : String} {depth : Nat} {e : Expr} {m : Machine}
    (h : e.SpreadsFirst script depth m) : e.SpreadsInFront script depth m := by
  cases e with
  | comma span l r => exact h.1
  | _ => trivial

/-- The elements that are staged, in order. -/
def stagedElements (entries : List Staged) : List Object := entries.flatMap (·.elements)

/-- The same elements behind so many more values. -/
def Staged.behind (waiting : Nat) (entry : Staged) : Staged :=
  ⟨waiting + entry.remaining, entry.elements⟩

@[simp] theorem stagedElements_append (entries others : List Staged) :
    stagedElements (entries ++ others) = stagedElements entries ++ stagedElements others :=
  List.flatMap_append

@[simp] theorem stagedElements_behind (waiting : Nat) (entries : List Staged) :
    stagedElements (entries.map (Staged.behind waiting)) = stagedElements entries := by
  simp only [stagedElements, List.flatMap_map, Staged.behind]

/-- Entries that hold elements hold some between them. -/
theorem eq_nil_of_stagedElements {entries : List Staged}
    (hSome : ∀ entry ∈ entries, entry.elements ≠ []) (hNone : stagedElements entries = []) :
    entries = [] := by
  cases entries with
  | nil => rfl
  | cons entry entries =>
    rw [stagedElements, List.flatMap_cons, List.append_eq_nil_iff] at hNone
    exact absurd hNone.1 (hSome entry (List.mem_cons_self ..))

namespace Machine

/-! ## Setting elements aside -/

variable {m n : Machine} {entries : List Staged} {front rest : List Staged}

/-- Sets elements aside in an item that has other values waiting, as many as `entry` counts. -/
def setBehind (m : Machine) (entry : Staged) : Machine :=
  let frame := { m.frame with accepted := m.frame.accepted + entry.elements.length }
  if m.pending + entry.remaining = 0 then
    { m with moved := entry.elements.reverse ++ m.moved, frame }
  else { m with frame := { frame with staged := frame.staged ++ [entry.behind m.pending] } }

/-- Sets the elements of several spreads aside, one after the other. -/
def setAllBehind (m : Machine) (entries : List Staged) : Machine := entries.foldl setBehind m

/-- Setting several lists of elements aside is setting some aside and then the others. -/
theorem setAllBehind_append (m : Machine) (front rest : List Staged) :
    m.setAllBehind (front ++ rest) = (m.setAllBehind front).setAllBehind rest :=
  List.foldl_append

/-- Setting elements aside takes no value off the stack. -/
theorem setBehind_eq (m : Machine) (entry : Staged) :
    (m.setBehind entry).values = m.values ∧ (m.setBehind entry).frame.base = m.frame.base := by
  unfold setBehind
  dsimp only
  split <;> exact ⟨rfl, rfl⟩

/-- However many there are, the stack stays as it is. -/
theorem setAllBehind_eq (m : Machine) (entries : List Staged) :
    (m.setAllBehind entries).values = m.values ∧
      (m.setAllBehind entries).frame.base = m.frame.base := by
  induction entries generalizing m with
  | nil => exact ⟨rfl, rfl⟩
  | cons entry entries ih =>
    obtain ⟨hValues, hBase⟩ := setBehind_eq m entry
    obtain ⟨hValues', hBase'⟩ := ih (m.setBehind entry)
    exact ⟨hValues'.trans hValues, hBase'.trans hBase⟩

/-- A spread sets the elements of its array aside but for the last one. -/
theorem taking_concat (m : Machine) (objs : List Object) (last : Object) (t : Store) :
    ∃ entries, (∀ entry ∈ entries, entry.remaining = 0 ∧ entry.elements ≠ []) ∧
      stagedElements entries = objs ∧
      m.taking (objs ++ [last]) t = (m.setAllBehind entries).gaining last t := by
  -- a spread of one element sets nothing aside, not even an empty entry
  by_cases hNone : objs = []
  · subst hNone
    exact ⟨[], by simp, rfl, taking_singleton m last t⟩
  · refine ⟨[⟨0, objs⟩], by simp [hNone], by simp [stagedElements], ?_⟩
    rw [taking_eq (by rw [List.reverse_append, List.reverse_singleton, List.singleton_append])]
    show _ = (m.setBehind ⟨0, objs⟩).gaining last t
    unfold setAside setBehind
    by_cases hPending : m.values.length - m.frame.base = 0
    · simp [pending, hPending, gaining, push]
    · simp [pending, hPending, hNone, gaining, push, Staged.behind]

/-- Beside a value that waits, elements are set aside behind it. -/
theorem setAllBehind_gaining (m : Machine) (hBase : m.frame.base ≤ m.values.length)
    (obj : Object) (t : Store) (entries : List Staged) :
    (m.gaining obj t).setAllBehind entries =
      (m.setAllBehind (entries.map (Staged.behind 1))).gaining obj t := by
  induction entries generalizing m with
  | nil => rfl
  | cons entry entries ih =>
    have hPending : (m.gaining obj t).pending = m.pending + 1 := by
      simp only [pending, gaining, push, List.length_cons]
      omega
    -- the waiting value counts once more, so the entry is staged on both sides
    have hOne : (m.gaining obj t).setBehind entry =
        (m.setBehind (entry.behind 1)).gaining obj t := by
      have hLater : ¬ m.pending + (1 + entry.remaining) = 0 := by omega
      simp only [setBehind, hPending, Staged.behind, Nat.add_assoc, hLater, if_false]
      rfl
    have hSame := setBehind_eq m (entry.behind 1)
    rw [List.map_cons]
    show ((m.gaining obj t).setBehind entry).setAllBehind entries = _
    rw [hOne, ih _ (by rw [hSame.1, hSame.2]; exact hBase)]
    rfl

/-- Where no value waits, the elements are moved aside at once. -/
theorem setAllBehind_front (m : Machine) (hPending : m.pending = 0)
    (hFront : ∀ entry ∈ front, entry.remaining = 0) :
    m.setAllBehind front = { m with
      moved := (stagedElements front).reverse ++ m.moved
      frame := { m.frame with accepted := m.frame.accepted + (stagedElements front).length } } := by
  induction front generalizing m with
  | nil => rfl
  | cons entry front ih =>
    have hZero := hFront entry (List.mem_cons_self ..)
    have hRest : ∀ entry ∈ front, entry.remaining = 0 :=
      fun other hOther => hFront other (List.mem_cons_of_mem _ hOther)
    have hOne : m.setBehind entry = { m with
        moved := entry.elements.reverse ++ m.moved
        frame := { m.frame with accepted := m.frame.accepted + entry.elements.length } } := by
      simp only [setBehind, hPending, hZero, if_true]
    have hStill : (m.setBehind entry).pending = 0 := by
      rw [hOne]
      exact hPending
    show (m.setBehind entry).setAllBehind front = _
    rw [ih _ hStill hRest, hOne]
    simp [stagedElements, Nat.add_assoc]

/-- Behind values that wait, the elements are staged. -/
theorem setAllBehind_rest (m : Machine) (hRest : ∀ entry ∈ rest, 0 < m.pending + entry.remaining) :
    m.setAllBehind rest = { m with
      frame := { m.frame with
        accepted := m.frame.accepted + (stagedElements rest).length
        staged := m.frame.staged ++ rest.map (Staged.behind m.pending) } } := by
  induction rest generalizing m with
  | nil => simp [setAllBehind, stagedElements]
  | cons entry rest ih =>
    have hSome := hRest entry (List.mem_cons_self ..)
    have hOne : m.setBehind entry = { m with
        frame := { m.frame with
          accepted := m.frame.accepted + entry.elements.length
          staged := m.frame.staged ++ [entry.behind m.pending] } } := by
      simp only [setBehind, if_neg (Nat.ne_of_gt hSome)]
    have hSame : (m.setBehind entry).pending = m.pending := by
      rw [hOne]
      rfl
    have hMore : ∀ other ∈ rest, 0 < (m.setBehind entry).pending + other.remaining :=
      fun other hOther => hSame ▸ hRest other (List.mem_cons_of_mem _ hOther)
    show (m.setBehind entry).setAllBehind rest = _
    rw [ih _ hMore, hSame, hOne]
    simp [stagedElements, Nat.add_assoc]

/-! ## Items -/

/-- A run of two pieces of code succeeds in both of them. -/
theorem exists_of_steps_append {script : String} {pre post : List Instruction}
    (h : steps script m (pre ++ post) = (.ok (), n)) :
    ∃ mid, steps script m pre = (.ok (), mid) ∧ steps script mid post = (.ok (), n) := by
  rw [steps_append] at h
  split at h
  · rename_i mid hPre
    exact ⟨mid, hPre, h⟩
  · cases h

/-- A run of one instruction is one step. -/
theorem step_of_steps {script : String} {i : Instruction}
    (h : steps script m [i] = (.ok (), n)) : m.step script i = (.ok (), n) := by
  unfold steps at h
  split at h
  · rename_i mid hStep
    rw [hStep, ← h]
    rfl
  · cases h

/-- What an evaluation answers if the machine that realizes it succeeds. -/
theorem Realizes.exists_of_ok {α : Type} {q : Except Failure Unit × Machine} {r : Answer α}
    {reached : α → Store → Machine} (h : Realizes q r reached) (hq : q = (.ok (), n)) :
    ∃ a t, r = (.ok a, t) ∧ n = reached a t := by
  obtain ⟨answer, t⟩ := r
  -- the machine has succeeded, so a failed evaluation is not what it realizes
  subst hq
  cases answer with
  | ok a =>
    exact ⟨a, t, rfl, (Prod.mk.inj h).2⟩
  | error e =>
    obtain ⟨e', hError, -⟩ := h
    cases hError

/-- Running an expression puts a value on the stack and sets the elements of its spreads aside:
first, with no operand waiting, those in `front`, and then those in `rest`. -/
structure SetsOut (e : Expr) (script : String) (depth : Nat) (m n : Machine)
    (front rest : List Staged) : Prop where
  reached : ∃ obj t, n = (m.setAllBehind (front ++ rest)).gaining obj t
  atOnce : ∀ entry ∈ front, entry.remaining = 0
  behind : ∀ entry ∈ rest, 0 < entry.remaining
  some : ∀ entry ∈ front ++ rest, entry.elements ≠ []
  elements_eq : stagedElements (front ++ rest) = e.spreads script depth m
  first : e.SpreadsFirst script depth m → rest = []

variable {script : String} {depth : Nat} {e : Expr}

/-- An operand that spreads nothing. -/
theorem setsOut_plain {obj : Object} {t : Store} (hn : n = m.gaining obj t)
    (hSpreads : e.spreads script depth m = []) : SetsOut e script depth m n [] [] where
  reached := ⟨obj, t, hn⟩
  atOnce := by simp
  behind := by simp
  some := by simp
  elements_eq := hSpreads.symm
  first := fun _ => rfl

/-- A prefix operator that is no spread, or a bracket, makes another value of the value. -/
theorem SetsOut.replace {e' : Expr} {n' : Machine} {front rest : List Staged}
    (h : SetsOut e script depth m n front rest) {obj : Object} {t : Store}
    (hn' : n' = (m.setAllBehind (front ++ rest)).gaining obj t)
    (hSpreads : e'.spreads script depth m = e.spreads script depth m)
    (hFirst : e'.SpreadsFirst script depth m → e.SpreadsFirst script depth m) :
    SetsOut e' script depth m n' front rest where
  reached := ⟨obj, t, hn'⟩
  atOnce := h.atOnce
  behind := h.behind
  some := h.some
  elements_eq := h.elements_eq.trans hSpreads.symm
  first := fun h' => h.first (hFirst h')

/-- A spread sets its elements aside behind those of its operand. -/
theorem SetsOut.spread {n' : Machine} (hOp : Operator.spread.isPrefix)
    (h : SetsOut e script depth m n front []) (hAfter : (steps script m (e.code depth)).2 = n)
    (hSpread : n.spread = (.ok (), n')) (span : Span) :
    ∃ front', SetsOut (.prefixed ⟨.spread, hOp⟩ span e) script depth m n' front' [] := by
  obtain ⟨obj, t, hn⟩ := h.reached
  rw [List.append_nil] at hn
  have hTaking : Realizes n.spread (t.expanded obj) (m.setAllBehind front).taking := by
    rw [hn]
    exact realizes_spread _ t obj
  obtain ⟨objs, u, hObjs, hn'⟩ := hTaking.exists_of_ok hSpread
  -- the last element takes the place of the array on the stack, and the others are set aside
  have hOut : n.spreadOut = objs.dropLast := by
    rw [hn]
    simp only [spreadOut, gaining, push, hObjs]
  have hSome := Store.ne_nil_of_expanded hObjs
  -- no operand of the item waits, so the elements follow those of the operand at once
  obtain ⟨entries, hEntries, hElements, hReached⟩ :=
    taking_concat (m.setAllBehind front) objs.dropLast (objs.getLast hSome) u
  rw [List.dropLast_append_getLast hSome] at hReached
  refine ⟨front ++ entries, ⟨objs.getLast hSome, u, ?_⟩, ?_, by simp, ?_, ?_, fun _ => rfl⟩
  · rw [hn', hReached, List.append_nil, setAllBehind_append]
  · exact List.forall_mem_append.2 ⟨h.atOnce, fun entry hEntry => (hEntries entry hEntry).1⟩
  · have hBefore := h.some
    rw [List.append_nil] at hBefore ⊢
    exact List.forall_mem_append.2 ⟨hBefore, fun entry hEntry => (hEntries entry hEntry).2⟩
  · have hBefore := h.elements_eq
    rw [List.append_nil] at hBefore ⊢
    rw [Expr.spreads, if_pos rfl, hAfter, hOut, ← hBefore, stagedElements_append, hElements]

/-- What a left operand sets aside comes before what the right one sets aside, which waits behind
the value of the left one. -/
theorem SetsOut.binary {op : BinaryOperator} {span : Span} {l r : Expr} {mid n' : Machine}
    {front rest front' rest' : List Staged} (hBase : m.frame.base ≤ m.values.length)
    (hl : SetsOut l script depth m mid front rest) (hr : SetsOut r script depth mid n front' rest')
    (hAfter : (steps script m (l.code depth)).2 = mid) (hOp : n.perform op = (.ok (), n')) :
    SetsOut (.binary op span l r) script depth m n' front
      (rest ++ (front' ++ rest').map (Staged.behind 1)) := by
  obtain ⟨lhs, s, hMid⟩ := hl.reached
  obtain ⟨rhs, t, hn⟩ := hr.reached
  have hSame := setAllBehind_eq m (front ++ rest)
  rw [hMid, setAllBehind_gaining _ (by rw [hSame.1, hSame.2]; exact hBase),
    ← setAllBehind_append] at hn
  have hRealizes := realizes_infixed
    (m.setAllBehind (front ++ rest ++ (front' ++ rest').map (Staged.behind 1))) t op.2 lhs rhs
  -- the operator leaves one value where there were two
  obtain ⟨obj, u, -, hn'⟩ := hRealizes.exists_of_ok (n := n') (by rw [← hOp, hn]; rfl)
  refine ⟨⟨obj, u, ?_⟩, hl.atOnce, ?_, ?_, ?_, ?_⟩
  · rw [hn', List.append_assoc]
  · rw [List.forall_mem_append, List.forall_mem_map]
    exact ⟨hl.behind, fun entry _ => by simp only [Staged.behind]; omega⟩
  · rw [← List.append_assoc, List.forall_mem_append, List.forall_mem_map]
    exact ⟨hl.some, hr.some⟩
  · rw [Expr.spreads, hAfter, ← hl.elements_eq, ← hr.elements_eq, ← List.append_assoc,
      stagedElements_append, stagedElements_behind]
  · -- a right operand that spreads nothing stages nothing
    rintro ⟨hLeft, hRight⟩
    rw [hAfter, ← hr.elements_eq] at hRight
    rw [hl.first hLeft, eq_nil_of_stagedElements hr.some hRight]
    rfl

/-! ## Lists -/

/-- The machine with the values of a list: the last one is on the stack, `done` has been moved aside
and `staged` still waits. -/
def gathered (m : Machine) (done : List Object) (staged : List Staged) (last : Object)
    (t : Store) : Machine :=
  { m with
    store := t
    values := last :: m.values
    moved := done.reverse ++ m.moved
    frame := { m.frame with
      accepted := m.frame.accepted + done.length + (stagedElements staged).length
      staged } }

/-- Closing brackets gathers what was moved aside, what is staged and the last value. -/
theorem leave_gathered (m : Machine) (b : Bracket) (done : List Object) (staged : List Staged)
    (last : Object) (t : Store) :
    ((m.opening b).gathered done staged last t).leave m.frame m.outer =
      (done ++ stagedElements staged ++ [last], { m with store := t }) := by
  have hAll : (stagedElements staged).reverse ++ (done.reverse ++ m.moved) =
      (done ++ stagedElements staged).reverse ++ m.moved := by simp
  have hLength : 0 + done.length + (stagedElements staged).length =
      (done ++ stagedElements staged).reverse.length := by simp [Nat.add_comm]
  have hPending : (last :: m.values).length - m.values.length = 1 := by simp
  unfold leave gathered
  simp only [opening, pending]
  rw [show staged.flatMap (·.elements) = stagedElements staged from rfl, hAll, hLength, hPending,
    List.take_left, List.drop_left, List.reverse_reverse]
  rfl

/-- The first item of a list: what it sets aside at once has been moved, and the rest waits. -/
theorem SetsOut.gathered {front rest : List Staged} (h : SetsOut e script depth m n front rest)
    (hm : m.Fresh) :
    ∃ obj t, n = m.gathered (stagedElements front) rest obj t := by
  obtain ⟨obj, t, hn⟩ := h.reached
  refine ⟨obj, t, ?_⟩
  have hPending : m.pending = 0 := by simp only [pending, hm.values, Nat.sub_self]
  have hFront := setAllBehind_front m hPending h.atOnce
  have hStill : (m.setAllBehind front).pending = 0 := by
    rw [hFront]
    exact hPending
  -- with no value waiting the staged entries count what they counted
  have hSame : rest.map (Staged.behind 0) = rest := by
    have hBehind : Staged.behind 0 = id := by
      funext entry
      simp [Staged.behind]
    rw [hBehind, List.map_id]
  rw [hn, setAllBehind_append, setAllBehind_rest _ fun entry hEntry => by
    have hBehind := h.behind entry hEntry
    omega, hStill, hSame, hFront]
  simp [gaining, push, Machine.gathered, hm.staged]

/-- A comma takes no element away and makes none up. -/
theorem length_countDown (staged : List Staged) :
    (countDown staged).1.length + (stagedElements (countDown staged).2).length =
      (stagedElements staged).length := by
  induction staged with
  | nil => rfl
  | cons entry staged ih =>
    simp only [countDown, stagedElements, List.flatMap_map] at ih ⊢
    -- an entry is either ready or still waits
    by_cases hReady : entry.remaining ≤ 1
    · have hWaits : ¬ 1 < entry.remaining := by omega
      simp only [List.filter_cons, hReady, hWaits, decide_true, decide_false, if_true,
        Bool.false_eq_true, if_false, List.flatMap_cons, List.length_append]
      omega
    · have hWaits : 1 < entry.remaining := by omega
      simp only [List.filter_cons, hReady, hWaits, decide_true, decide_false, if_true,
        Bool.false_eq_true, if_false, List.flatMap_cons, List.length_append]
      omega

/-- Elements that wait for one comma are ready then, and those that wait for more still wait. -/
theorem countDown_behind (hFront : ∀ entry ∈ front, entry.remaining = 0)
    (hRest : ∀ entry ∈ rest, 0 < entry.remaining) :
    countDown ((front ++ rest).map (Staged.behind 1)) = (stagedElements front, rest) := by
  have hReady : (front.map (Staged.behind 1)).filter (1 < ·.remaining) = [] := by
    rw [List.filter_eq_nil_iff, List.forall_mem_map]
    intro entry hEntry
    simp [Staged.behind, hFront entry hEntry]
  have hReady' : (front.map (Staged.behind 1)).filter (·.remaining ≤ 1) =
      front.map (Staged.behind 1) := by
    rw [List.filter_eq_self, List.forall_mem_map]
    intro entry hEntry
    simp [Staged.behind, hFront entry hEntry]
  have hWaits : (rest.map (Staged.behind 1)).filter (1 < ·.remaining) =
      rest.map (Staged.behind 1) := by
    rw [List.filter_eq_self, List.forall_mem_map]
    intro entry hEntry
    have hPositive := hRest entry hEntry
    simpa [Staged.behind] using hPositive
  have hWaits' : (rest.map (Staged.behind 1)).filter (·.remaining ≤ 1) = [] := by
    rw [List.filter_eq_nil_iff, List.forall_mem_map]
    intro entry hEntry
    have hPositive := hRest entry hEntry
    simpa [Staged.behind, Nat.pos_iff_ne_zero] using hPositive
  have hCounted : (fun entry : Staged => { entry with remaining := entry.remaining - 1 }) ∘
      Staged.behind 1 = id := by
    funext entry
    simp [Staged.behind]
  unfold countDown
  rw [List.map_append, List.filter_append, List.filter_append, hReady, hReady', hWaits, hWaits',
    List.append_nil, List.nil_append, List.map_map, hCounted, List.map_id]
  exact congrArg (Prod.mk · rest) (stagedElements_behind 1 front)

/-- A comma behind the last item: the value in front of it is moved aside, and what has waited for
that. -/
theorem SetsOut.comma {front rest staged : List Staged} {done : List Object} {last : Object}
    {s : Store} {n' : Machine}
    (h : SetsOut e script depth (m.gathered done staged last s) n front rest) (hm : m.Fresh)
    (hComma : n.comma = (.ok (), n')) :
    ∃ obj t, n.values.take 1 = [obj] ∧ n' = m.gathered
      (done ++ [last] ++ (countDown (staged ++ (front ++ rest).map (Staged.behind 1))).1)
      (countDown (staged ++ (front ++ rest).map (Staged.behind 1))).2 obj t := by
  obtain ⟨obj, t, hn⟩ := h.reached
  refine ⟨obj, t, by rw [hn]; rfl, ?_⟩
  -- one value of the list waits, the last one so far
  have hOne : (m.gathered done staged last s).pending = 1 := by
    simp only [pending, Machine.gathered, hm.values, List.length_cons]
    omega
  have hRest : ∀ entry ∈ front ++ rest,
      0 < (m.gathered done staged last s).pending + entry.remaining := by
    intro entry hEntry
    omega
  rw [setAllBehind_rest _ hRest, hOne] at hn
  -- the comma takes the lower one of two values
  have hTwo : n.pending = 2 := by
    rw [hn]
    simp only [pending, gaining, push, Machine.gathered, hm.values, List.length_cons]
    omega
  have hTop : (n.values.take n.pending).reverse = [last, obj] := by
    rw [hTwo, hn]
    rfl
  have hBelow : n.values.drop n.pending = m.values := by
    rw [hTwo, hn]
    rfl
  have hStaged : n.frame.staged = staged ++ (front ++ rest).map (Staged.behind 1) := by
    rw [hn]
    rfl
  have hCount := length_countDown (staged ++ (front ++ rest).map (Staged.behind 1))
  unfold Machine.comma at hComma
  simp only [hTop, hBelow, hStaged] at hComma
  obtain rfl := (Prod.mk.inj hComma).2
  generalize countDown (staged ++ (front ++ rest).map (Staged.behind 1)) = ready at hCount ⊢
  -- what was staged still is, or has been moved aside
  have hAccepted : m.frame.accepted + done.length + (stagedElements staged).length +
        (stagedElements (front ++ rest)).length + 1 =
      m.frame.accepted + (done ++ [last] ++ ready.1).length + (stagedElements ready.2).length := by
    simp only [stagedElements_append, stagedElements_behind, List.length_append,
      List.length_singleton] at hCount ⊢
    omega
  have hMoved : ready.1.reverse ++ last :: (done.reverse ++ m.moved) =
      (done ++ [last] ++ ready.1).reverse ++ m.moved := by simp
  rw [hn]
  simp only [gaining, push, Machine.gathered, hAccepted, hMoved]
  rfl

/-! ## Brackets -/

/-- Closing brackets hands the items over to the construct. -/
theorem closing_of_leave {items : List Object} {t : Store} (hOuter : n.outer = m.frame :: m.outer)
    (hLeave : n.leave m.frame m.outer = (items, { m with store := t })) (b : Bracket) :
    n.closing b =
      match b with
      | .group => { m with store := t }.closingGroup items
      | .index => { m with store := t }.closingIndex items
      | .call => { m with store := t }.closingCall items
      | .array => { m with store := t }.closingArray items := by
  unfold closing
  cases b <;> simp only [hOuter, hLeave]

/-- Code between brackets runs at a level of its own, which is closed then. -/
theorem exists_of_steps_enclose {b : Bracket} {o c : Span} {code : List Instruction}
    (h : steps script m (encloseCode b o c depth code) = (.ok (), n)) :
    ∃ mid, steps script (m.opening b) code = (.ok (), mid) ∧ mid.closing b = (.ok (), n) := by
  have hOpening : steps script (m.opening b) (code ++ [_]) = (.ok (), n) := h
  obtain ⟨mid, hInside, hClosing⟩ := exists_of_steps_append hOpening
  exact ⟨mid, hInside, step_of_steps hClosing⟩

end Machine

mutual

/-- **What running an expression sets aside.** -/
theorem Expr.Fits.setsOut (script : String) : ∀ {e : Expr}, e.Fits → e.level ≤ 14 →
    ∀ (depth : Nat) {m n : Machine}, m.frame.base ≤ m.values.length →
      steps script m (e.code depth) = (.ok (), n) →
      ∃ front rest, SetsOut e script depth m n front rest
  | .number numeral span, _, _, depth, m, n, _, h => by
    obtain ⟨obj, t, -, hn⟩ :=
      (realizes_number m script numeral span depth).exists_of_ok (step_of_steps h)
    exact ⟨[], [], setsOut_plain hn rfl⟩
  | .name span, _, _, depth, m, n, _, h => by
    obtain ⟨obj, t, -, hn⟩ := (realizes_name m script span depth).exists_of_ok (step_of_steps h)
    exact ⟨[], [], setsOut_plain hn rfl⟩
  | .prefixed op span e, ⟨hLevel, he⟩, _, depth, m, n, hBase, h => by
    have hTwo := op.rightBound_eq
    obtain ⟨mid, hOperand, hLast⟩ := exists_of_steps_append h
    obtain ⟨front, rest, hMid⟩ := he.setsOut script (by omega) depth hBase hOperand
    have hStep : mid.perform op = (.ok (), n) := step_of_steps hLast
    -- the operand has no right operand of its own
    obtain rfl := hMid.first (he.spreadsFirst_of_level script depth m (by omega))
    by_cases hSpread : op.1 = .spread
    · obtain ⟨op, hOp⟩ := op
      dsimp only at hSpread hStep
      subst hSpread
      obtain ⟨front', hn⟩ := hMid.spread hOp (by rw [hOperand]) hStep span
      exact ⟨front', [], hn⟩
    · obtain ⟨obj, t, hReached⟩ := hMid.reached
      have hRealizes := realizes_prefixed (m.setAllBehind (front ++ [])) t op.2 hSpread obj
      rw [← hReached] at hRealizes
      obtain ⟨value, u, -, hn⟩ := hRealizes.exists_of_ok hStep
      refine ⟨front, [], hMid.replace hn ?_ id⟩
      rw [Expr.spreads, if_neg hSpread, List.append_nil]
  | .binary op span l r, ⟨⟨hLeft, hl⟩, hRight, hr⟩, _, depth, m, n, hBase, h => by
    have hBounds := op.bounds
    have hPriority := op.priority_bounds
    obtain ⟨both, hBoth, hLast⟩ := exists_of_steps_append h
    obtain ⟨mid, hFirst, hSecond⟩ := exists_of_steps_append hBoth
    obtain ⟨front, rest, hMid⟩ := hl.setsOut script (by omega) depth hBase hFirst
    have hBase' : mid.frame.base ≤ mid.values.length := by
      obtain ⟨obj, t, hReached⟩ := hMid.reached
      have hSame := setAllBehind_eq m (front ++ rest)
      rw [hReached]
      simp only [gaining, push, List.length_cons, hSame.1, hSame.2]
      omega
    obtain ⟨front', rest', hSides⟩ := hr.setsOut script (by omega) depth hBase' hSecond
    exact ⟨_, _, hMid.binary hBase hSides (by rw [hFirst]) (step_of_steps hLast)⟩
  -- a list is no value of its own
  | .comma _ _ _, _, hLevel, _, _, _, _, _ => by simp [Expr.level, Operator.priority] at hLevel
  | .group o c contents, hFits, _, depth, m, n, _, h => by
    have hContents : contents.Fits := hFits
    obtain ⟨mid, hInside, hClosing⟩ := exists_of_steps_enclose h
    obtain ⟨items, t, hOuter, hLeave⟩ := hContents.leaves script (depth + 1) hInside
    rw [closing_of_leave hOuter hLeave] at hClosing
    obtain ⟨obj, u, -, hn⟩ := (realizes_closingGroup m t items).exists_of_ok hClosing
    exact ⟨[], [], setsOut_plain hn rfl⟩
  | .array o c contents, hFits, _, depth, m, n, _, h => by
    have hContents : contents.Fits := hFits
    obtain ⟨mid, hInside, hClosing⟩ := exists_of_steps_enclose h
    obtain ⟨items, t, hOuter, hLeave⟩ := hContents.leaves script (depth + 1) hInside
    rw [closing_of_leave hOuter hLeave] at hClosing
    obtain ⟨obj, u, -, hn⟩ := (realizes_closingArray m t items).exists_of_ok hClosing
    exact ⟨[], [], setsOut_plain hn rfl⟩
  | .call f o c contents, ⟨⟨hCallee, hf⟩, hContents⟩, _, depth, m, n, hBase, h => by
    have hLevel := Expr.level_of_isCallee hCallee
    obtain ⟨target, hTarget, hCall⟩ := exists_of_steps_append h
    obtain ⟨front, rest, hFront⟩ := hf.setsOut script (by omega) depth hBase hTarget
    obtain ⟨callee, s, hReached⟩ := hFront.reached
    obtain ⟨mid, hInside, hClosing⟩ := exists_of_steps_enclose hCall
    obtain ⟨items, t, hOuter, hLeave⟩ := hContents.leaves script (depth + 1) hInside
    rw [closing_of_leave hOuter hLeave, hReached] at hClosing
    obtain ⟨obj, u, -, hn⟩ :=
      (realizes_closingCall (m.setAllBehind (front ++ rest)) t callee items).exists_of_ok hClosing
    exact ⟨front, rest, hFront.replace hn rfl id⟩
  | .index e o c i, ⟨⟨hLevel, he⟩, hi⟩, _, depth, m, n, hBase, h => by
    obtain ⟨target, hTarget, hIndex⟩ := exists_of_steps_append h
    obtain ⟨front, rest, hFront⟩ := he.setsOut script (by omega) depth hBase hTarget
    obtain ⟨array, s, hReached⟩ := hFront.reached
    obtain ⟨mid, hInside, hClosing⟩ := exists_of_steps_enclose hIndex
    obtain ⟨done, staged, last, t, hMid, -⟩ :=
      hi.gathers script (depth + 1) (fresh_opening target .index) hInside
    have hLeave := leave_gathered target .index done staged last t
    rw [← hMid] at hLeave
    have hOuter : mid.outer = target.frame :: target.outer := by rw [hMid]; rfl
    rw [closing_of_leave hOuter hLeave, hReached] at hClosing
    obtain ⟨obj, u, -, hn⟩ := (realizes_closingIndex (m.setAllBehind (front ++ rest)) t array
      (List.append_ne_nil_of_right_ne_nil _ (List.cons_ne_nil last []))).exists_of_ok hClosing
    exact ⟨front, rest, hFront.replace hn rfl id⟩
termination_by e => (sizeOf e, 0)

/-- **What running a list gathers.** -/
theorem Expr.Fits.gathers (script : String) : ∀ {e : Expr}, e.Fits → ∀ (depth : Nat)
    {m n : Machine}, m.Fresh → steps script m (e.code depth) = (.ok (), n) →
      ∃ done staged last t, n = m.gathered done staged last t ∧
        (e.SpreadsFirst script depth m → staged = []) ∧
        (e.SpreadsInFront script depth m →
          done ++ stagedElements staged ++ [last] = e.contributions script depth m)
  | e, hFits, depth, m, n, hm, h => by
    rcases e.level_bounds.2 with hLevel | ⟨-, span, l, r, rfl⟩
    · -- one item is all there is
      obtain ⟨front, rest, hn⟩ :=
        hFits.setsOut script hLevel depth (Nat.le_of_eq hm.values.symm) h
      obtain ⟨last, t, hReached⟩ := hn.gathered hm
      have hTop : n.values.take 1 = [last] := by rw [hReached]; rfl
      refine ⟨stagedElements front, rest, last, t, hReached, hn.first, fun _ => ?_⟩
      rw [← stagedElements_append, hn.elements_eq, Expr.contributions_eq hLevel, h, hTop]
    · -- the items in front, then the last one beside their last value, then the comma
      obtain ⟨⟨-, hl⟩, hLast, hr⟩ := hFits
      obtain ⟨both, hBoth, hComma⟩ := exists_of_steps_append h
      obtain ⟨mid, hBefore, hItem⟩ := exists_of_steps_append hBoth
      obtain ⟨done, staged, last, s, rfl, hFirst, hOrder⟩ := hl.gathers script depth hm hBefore
      have hBase : m.frame.base ≤ (last :: m.values).length := by
        rw [List.length_cons, hm.values]
        omega
      obtain ⟨front, rest, hSides⟩ := hr.setsOut script hLast depth hBase hItem
      obtain ⟨obj, t, hTop, hn⟩ := hSides.comma hm (step_of_steps hComma)
      have hReady := countDown_behind hSides.atOnce hSides.behind
      refine ⟨_, _, obj, t, hn, fun hSpreads => ?_, fun hInFront => ?_⟩
      · obtain ⟨hLeft, hRight⟩ := hSpreads
        rw [hBefore] at hRight
        rw [hFirst hLeft, List.nil_append, hReady]
        exact hSides.first hRight
      · -- all that the items in front have spread has been moved aside by now
        have hLeft : l.SpreadsFirst script depth m := hInFront
        have hDone := hOrder hLeft.inFront
        rw [hFirst hLeft] at hDone
        rw [hFirst hLeft, List.nil_append, hReady, Expr.contributions, ← hDone,
          Expr.contributions_eq hLast, hBefore, hItem, hTop, ← hSides.elements_eq]
        simp [stagedElements]
termination_by e => (sizeOf e, 1)

/-- What stands between brackets is gathered when they close. -/
theorem Contents.Fits.leaves (script : String) : ∀ {contents : Contents}, contents.Fits →
    ∀ (depth : Nat) {m n : Machine} {b : Bracket},
      steps script (m.opening b) (contents.code depth) = (.ok (), n) →
      ∃ items t, n.outer = m.frame :: m.outer ∧
        n.leave m.frame m.outer = (items, { m with store := t })
  | .empty, _, depth, m, n, b, h => by
    obtain rfl := (Prod.mk.inj h).2
    exact ⟨[], m.store, rfl, leave_taking m b [] m.store⟩
  | .list e, hFits, depth, m, n, b, h => by
    have he : e.Fits := hFits
    obtain ⟨done, staged, last, t, hn, -⟩ := he.gathers script depth (fresh_opening m b) h
    rw [hn]
    exact ⟨_, t, rfl, leave_gathered m b done staged last t⟩
termination_by contents => (sizeOf contents, 0)

end

/-- **Spread elements come in order.** Let a list run between brackets, with whatever else is open
around them. If no item but the last spreads elements in a right operand, the values that are
gathered when the brackets close are what the items contribute, one item after the other. -/
theorem Expr.Fits.leave_eq_contributions {e : Expr} (he : e.Fits) {script : String} {depth : Nat}
    {m n : Machine} {b : Bracket} (hInFront : e.SpreadsInFront script depth (m.opening b))
    (h : steps script (m.opening b) (e.code depth) = (.ok (), n)) :
    n.outer = m.frame :: m.outer ∧
      n.leave m.frame m.outer =
        (e.contributions script depth (m.opening b), { m with store := n.store }) := by
  obtain ⟨done, staged, last, t, rfl, -, hOrder⟩ := he.gathers script depth (fresh_opening m b) h
  refine ⟨rfl, ?_⟩
  rw [leave_gathered, hOrder hInFront]
  rfl

/-- The integers that objects turn out to be. -/
def Machine.integers (m : Machine) (objs : List Object) : List (Option Int) :=
  objs.map fun obj =>
    match m.numberOf obj with
    | .ok (.int value _ _) => some value.toInt
    | _ => none

/-- A machine in front of the items of the first array of a statement. -/
def Machine.inArray : Machine := opening { store := .empty } .array

/-- What stands between the outer brackets of `{*{1, 2} + 3, 4 - *{5, 6}}`. -/
def Expr.spreadsInOrder : Expr :=
  .comma ⟨12, 13⟩
    (.binary ⟨.add, rfl⟩ ⟨9, 10⟩
      (.prefixed ⟨.spread, rfl⟩ ⟨1, 2⟩ (.array ⟨2, 3⟩ ⟨7, 8⟩
        (.list (.comma ⟨4, 5⟩ (.number .decimal ⟨3, 4⟩) (.number .decimal ⟨6, 7⟩)))))
      (.number .decimal ⟨11, 12⟩))
    (.binary ⟨.sub, rfl⟩ ⟨16, 17⟩ (.number .decimal ⟨14, 15⟩)
      (.prefixed ⟨.spread, rfl⟩ ⟨18, 19⟩ (.array ⟨19, 20⟩ ⟨24, 25⟩
        (.list (.comma ⟨21, 22⟩ (.number .decimal ⟨20, 21⟩) (.number .decimal ⟨23, 24⟩))))))

/-- A machine behind those items. -/
def Machine.behindSpreadsInOrder : Except Failure Unit × Machine :=
  steps "{*{1, 2} + 3, 4 - *{5, 6}}" inArray (Expr.spreadsInOrder.code 1)

/-- The first item spreads in front of its addition, and the last one may spread anywhere. -/
theorem Expr.leave_spreadsInOrder :
    (Expr.spreadsInOrder.Fits ∧
        Expr.spreadsInOrder.SpreadsInFront "{*{1, 2} + 3, 4 - *{5, 6}}" 1 inArray ∧
        behindSpreadsInOrder.1 = .ok ()) ∧
      behindSpreadsInOrder.2.leave {} [] =
        (Expr.spreadsInOrder.contributions "{*{1, 2} + 3, 4 - *{5, 6}}" 1 inArray,
          { store := behindSpreadsInOrder.2.store }) ∧
      behindSpreadsInOrder.2.integers (behindSpreadsInOrder.2.leave {} []).1 =
        [some 1, some 5, some 5, some (-2)] := by
  have hFits : Expr.spreadsInOrder.Fits := by
    simp [Expr.spreadsInOrder, Expr.Fits, Contents.Fits, Expr.level, Operator.leftBound,
      Operator.rightBound, Operator.groupsLeft, Operator.priority]
  have hInFront :
      Expr.spreadsInOrder.SpreadsInFront "{*{1, 2} + 3, 4 - *{5, 6}}" 1 inArray := ⟨trivial, rfl⟩
  have hOk : behindSpreadsInOrder.1 = .ok () := rfl
  have hSteps : behindSpreadsInOrder = (.ok (), behindSpreadsInOrder.2) := Prod.ext hOk rfl
  exact ⟨⟨hFits, hInFront, hOk⟩, (hFits.leave_eq_contributions hInFront hSteps).2, by decide⟩

/-- What stands between the outer brackets of `{1 + *{2, 3}, 4}`. -/
def Expr.spreadBehindAdd : Expr :=
  .comma ⟨12, 13⟩
    (.binary ⟨.add, rfl⟩ ⟨3, 4⟩ (.number .decimal ⟨1, 2⟩)
      (.prefixed ⟨.spread, rfl⟩ ⟨5, 6⟩ (.array ⟨6, 7⟩ ⟨11, 12⟩
        (.list (.comma ⟨8, 9⟩ (.number .decimal ⟨7, 8⟩) (.number .decimal ⟨10, 11⟩))))))
    (.number .decimal ⟨14, 15⟩)

/-- A machine behind those items. -/
def Machine.behindSpreadBehindAdd : Except Failure Unit × Machine :=
  steps "{1 + *{2, 3}, 4}" inArray (Expr.spreadBehindAdd.code 1)

/-- Where a left operand waits for the elements of a spread, the first of them comes behind the sum
that the last one is part of: the machine gathers 4, 2 and 4, and the items contribute 2, 4 and
4. -/
theorem Expr.leave_spreadBehindAdd :
    Expr.spreadBehindAdd.Fits ∧ behindSpreadBehindAdd.1 = .ok () ∧
      behindSpreadBehindAdd.2.integers (behindSpreadBehindAdd.2.leave {} []).1 =
        [some 4, some 2, some 4] ∧
      behindSpreadBehindAdd.2.integers
          (Expr.spreadBehindAdd.contributions "{1 + *{2, 3}, 4}" 1 inArray) =
        [some 2, some 4, some 4] := by
  have hFits : Expr.spreadBehindAdd.Fits := by
    simp [Expr.spreadBehindAdd, Expr.Fits, Contents.Fits, Expr.level, Operator.leftBound,
      Operator.rightBound, Operator.groupsLeft, Operator.priority]
  exact ⟨hFits, rfl, by decide, by decide⟩

end Reckon
