import Reckon.Proofs.Effects
import Reckon.Proofs.Correctness

/-!
# Handles that stay good

The machine takes handles on slots and on literals out of the store, keeps them on its stack, aside
or staged while other instructions run, and uses them later. In between slots are given back at
once, when an array goes that is in no literal, and names and elements are bound anew. A handle
still never outlives what it names.

* A handle on a literal is counted, and a literal that is counted is there.
* A handle on a slot counts nothing. But such handles come from names, from elements of arrays in
  literals and from arguments, so the slot belongs to a name or to a literal (`Machine.Rooted`), and
  literals stay until the sweep.

Main result: `Store.Reachable.backed_of_steps`. An assignment therefore always finds its slot.
-/

namespace Reckon

namespace Machine

variable {m n : Machine} {rest : Multiset Object}

/-- All handles that the machine holds, on its stack, aside or staged, are good: what they name is
there. -/
structure Backed (m : Machine) : Prop where
  slots : ∀ id, .writable id ∈ m.held → (m.store.slot? id).isSome
  literals : ∀ l, .readOnly l ∈ m.held → (m.store.literal? l).isSome

/-- The slots that the machine has handles on belong to names or to literals. -/
def Rooted (m : Machine) : Prop := ∀ id, .writable id ∈ m.held → ∃ o, m.store.Owns id o

/-- With the books balanced this is all it takes. -/
theorem Keeps.backed (hm : m.Keeps rest) (hRooted : m.Rooted) : m.Backed where
  slots id hId := hm.balanced.slot?_isSome_iff.2 (.inl (hRooted id hId))
  literals l hl := by
    -- the handle counts as one of those that the books know of
    have hCounted : l ∈ (m.held + rest).bind Object.counts :=
      Multiset.mem_bind.2 ⟨.readOnly l, Multiset.mem_add.2 (.inl hl), Multiset.mem_singleton_self l⟩
    obtain ⟨others, hOthers⟩ := Multiset.exists_cons_of_mem hCounted
    have hBalanced := hm.balanced
    rw [hOthers] at hBalanced
    obtain ⟨lit, hLit⟩ := hBalanced.live_of_handle
    rw [hLit]
    rfl

/-! ## Assigning -/

/-- Where the slot is there, binding it succeeds. -/
theorem assignSlot_of_live {id : SlotId} (hLive : (m.store.slot? id).isSome) (obj : Object) :
    (m.assignSlot id obj).1 = .ok () := by
  obtain ⟨slot, hSlot⟩ := Option.isSome_iff_exists.1 hLive
  unfold Machine.assignSlot
  rw [Store.bind_eq hSlot]

theorem assign_of_live {rhs : Object} {id : SlotId} {values : List Object}
    (hValues : m.values = rhs :: .writable id :: values) (hLive : (m.store.slot? id).isSome) :
    m.assign.1 = .ok () := by
  unfold Machine.assign
  rw [hValues]
  dsimp only
  split
  · rfl
  · exact assignSlot_of_live (m := { m with values }) hLive rhs

/-- A compound assignment to a slot that belongs to somebody fails only if its arithmetic does. -/
theorem Keeps.compound_of_owns {rhs : Object} {id : SlotId} {values : List Object} {o : Owner}
    {base : Operator} {e : Failure} (hm : m.Keeps rest)
    (hValues : m.values = rhs :: .writable id :: values) (hOwns : m.store.Owns id o)
    (hFails : (m.compound base).1 = .error e) : m.applied base (.writable id) rhs = .error e := by
  unfold Machine.compound at hFails
  rw [hValues] at hFails
  dsimp only at hFails
  rcases hApplied : m.applied base (.writable id) rhs with e' | value
  · rw [hApplied] at hFails
    cases hFails
    rfl
  · rw [hApplied] at hFails
    -- giving up the right operand takes no slot away that somebody has
    have hPopped := hm.pop₂ hValues
    have hStill : ({ m with values }.release rhs).store.Owns id o := by
      unfold Keeps at hPopped
      rw [Multiset.add_cons] at hPopped
      exact hPopped.carries_release.owns hOwns
    have hLive := hPopped.release.balanced.slot?_isSome_iff.2 (.inl ⟨o, hStill⟩)
    have hOk := assignSlot_of_live hLive value
    dsimp only at hFails
    rw [hOk] at hFails
    cases hFails

theorem isBinary_of_assigns {i : Instruction} (hAssigns : i.assigns = true) :
    ∃ op, i.kind = .operator op ∧ op.isBinary = true ∧
      (op = .assign ∨ op ≠ .assign ∧ ∃ base, op.compoundBase = some base) := by
  unfold Instruction.assigns at hAssigns
  split at hAssigns
  · rename_i op hKind
    refine ⟨op, hKind, ?_⟩
    rw [Bool.or_eq_true, beq_iff_eq, Option.isSome_iff_exists] at hAssigns
    rcases hAssigns with rfl | ⟨base, hBase⟩
    · exact ⟨rfl, .inl rfl⟩
    · have hOther : op ≠ .assign := by
        rintro rfl
        cases hBase
      refine ⟨?_, .inr ⟨hOther, base, hBase⟩⟩
      cases op <;> first | rfl | cases hBase
  · cases hAssigns

/-- An assignment to a slot that belongs to somebody fails only if there is arithmetic to do, and
that fails. -/
theorem Keeps.step_of_assigns {i : Instruction} {rhs : Object} {id : SlotId} {values : List Object}
    {o : Owner} {script : String} {e : Failure} (hm : m.Keeps rest)
    (hAssigns : i.assigns = true) (hValues : m.values = rhs :: .writable id :: values)
    (hOwns : m.store.Owns id o) (hFails : (m.step script i).1 = .error e) :
    ∃ op base, i.kind = .operator op ∧ op.compoundBase = some base ∧
      m.applied base (.writable id) rhs = .error e := by
  obtain ⟨op, hKind, hBinary, hOp⟩ := isBinary_of_assigns hAssigns
  unfold Machine.step at hFails
  rw [hKind] at hFails
  dsimp only at hFails
  rw [perform_of_isBinary hBinary] at hFails
  rcases hOp with rfl | ⟨hOther, base, hBase⟩
  · -- a plain assignment finds its slot, and so it does not fail
    have hLive := hm.balanced.slot?_isSome_iff.2 (.inl ⟨o, hOwns⟩)
    rw [if_pos rfl, assign_of_live hValues hLive] at hFails
    cases hFails
  · rw [if_neg hOther, hBase] at hFails
    exact ⟨op, base, hKind, hBase, hm.compound_of_owns hValues hOwns hFails⟩

end Machine

/-! ## Runs -/

/-- A session holds nothing but its result, which names no slot. -/
theorem Store.Reachable.exists_keeps {s : Store} (hs : s.Reachable) :
    ∃ rest, s.Keeps rest ∧ s.Within Function.Tame ∧ ∀ id, .writable id ∉ rest := by
  obtain ⟨c, hc, rfl | rfl⟩ := hs
  · refine ⟨c.held, hc.kept.store, hc.kept.tame, fun id hId => ?_⟩
    unfold Session.held at hId
    rcases hResult : c.result with _ | obj
    · simp [hResult] at hId
    · rw [hResult] at hId
      obtain ⟨target, rfl⟩ := hc.kept.result obj hResult
      exact handleOf_ne target id (Multiset.mem_singleton.1 hId).symm
  · exact ⟨0, hc.kept.storeWithoutResult.1, hc.kept.storeWithoutResult.2, by simp⟩

open Machine

/-- Wherever a run is, also where it has failed, the books balance and every slot that the machine
has a handle on belongs to a name or to a literal. -/
theorem Program.rooted_of_prefix {code pre : List Instruction} {p : Program} {s : Store}
    {rest : Multiset Object} (hp : Program.ofPostfix code = .ok p) (hs : s.Keeps rest)
    (hWithin : s.Within Function.Tame) (hRest : ∀ id, .writable id ∉ rest) (script : String)
    (hPre : pre <+: p.code) :
    (steps script { store := s } pre).2.Keeps rest ∧
      (steps script { store := s } pre).2.Rooted := by
  obtain ⟨h, hPlay, -, -, rfl⟩ := exists_play_of_ofPostfix hp
  obtain ⟨post, rfl⟩ := hPre
  obtain ⟨mid, hMid, -⟩ := Heights.play_append_eq_ok_iff.1 hPlay
  have hStart := within_start hWithin
  obtain ⟨hKeeps, -⟩ := (keeps_start hs).steps hStart ⟨rfl, rfl, rfl⟩ Heights.sound_start script
    hMid
  refine ⟨hKeeps, fun id hId => ?_⟩
  -- where nothing is ruled out, all that is said is where the handles come from
  let anything : Permit := ⟨fun _ => True, fun _ => True⟩
  have hAlters := (keeps_start hs).alters_steps (P := anything) hStart ⟨rfl, rfl, rfl⟩
    Heights.sound_start script hMid fun _ _ _ => ⟨fun _ _ => trivial, fun _ _ => trivial⟩
  rcases hAlters.handles id (Multiset.mem_add.2 (.inl hId)) with hOld | hOwned
  · rw [held_start, zero_add] at hOld
    exact absurd hOld (hRest id)
  · exact hOwned

/-- **No handle dangles.** Wherever the run of a checked program is, behind any number of its
instructions and also where one has failed, what the machine holds handles on is there. When an
assignment comes next, its slot is there, so it fails only if it has arithmetic to do that fails. -/
theorem Store.Reachable.backed_of_steps {code pre : List Instruction} {p : Program} {s : Store}
    {script : String} {answer : Except Failure Unit} {m : Machine} (hs : s.Reachable)
    (hp : Program.ofPostfix code = .ok p) (hPre : pre <+: p.code)
    (hSteps : steps script { store := s } pre = (answer, m)) :
    m.Backed ∧ ∀ i : Instruction, i.assigns = true → ∀ rhs id values,
      m.values = rhs :: .writable id :: values → ∀ e, (m.step script i).1 = .error e →
        ∃ op base, i.kind = .operator op ∧ op.compoundBase = some base ∧
          m.applied base (.writable id) rhs = .error e := by
  obtain ⟨rest, hKeeps, hTame, hRest⟩ := hs.exists_keeps
  obtain ⟨hBalanced, hRooted⟩ := Program.rooted_of_prefix hp hKeeps hTame hRest script hPre
  rw [hSteps] at hBalanced hRooted
  refine ⟨hBalanced.backed hRooted, fun i hAssigns rhs id values hValues e hFails => ?_⟩
  -- the target of the assignment is a handle below the top of the stack
  have hHeld : .writable id ∈ m.held := by
    rw [held_pop hValues, held_pop (m := { m with values := .writable id :: values }) rfl]
    simp
  obtain ⟨o, hOwns⟩ := hRooted id hHeld
  exact hBalanced.step_of_assigns hAssigns hValues hOwns hFails

/-- A session in which a statement waits that binds a name anew while it has a handle on an element
of the array that the name stood for. -/
def beforeRebinding : Session :=
  ((Session.bare {} (.seeded 0)).load "(a = {1, 2})[0] = (a = 3)").forward.2.compile.2

/-- The machine before the last assignment of the statement. -/
def rebound : Machine :=
  (steps beforeRebinding.script { store := beforeRebinding.storeWithoutResult }
    (beforeRebinding.program.getD default).code.dropLast).2

/-- Nobody counts on the array any more, and it waits for the sweep. The handle on its element is as
good as before. -/
theorem backed_rebound :
    (rebound.values.map Object.slot = [1, 2] ∧ rebound.store.queue = [2]) ∧ rebound.Backed ∧
      ∀ i : Instruction, i.assigns = true → ∀ rhs id values,
        rebound.values = rhs :: .writable id :: values →
          ∀ e, (rebound.step beforeRebinding.script i).1 = .error e →
            ∃ op base, i.kind = .operator op ∧ op.compoundBase = some base ∧
              rebound.applied base (.writable id) rhs = .error e := by
  have hReachable : beforeRebinding.Reachable :=
    (((Session.Reachable.bare {} (.seeded 0)).apply
      (.load "(a = {1, 2})[0] = (a = 3)") trivial).apply .forward trivial).apply .compile trivial
  have hWaits : beforeRebinding.program.isSome ∧ rebound.values.map Object.slot = [1, 2] ∧
      rebound.store.queue = [2] := by decide +kernel
  obtain ⟨p, hp⟩ := Option.isSome_iff_exists.1 hWaits.1
  obtain ⟨code, hChecked⟩ := hReachable.kept.program p hp
  have hStore : beforeRebinding.storeWithoutResult.Reachable :=
    ⟨beforeRebinding, hReachable, .inr rfl⟩
  have hPrefix : (beforeRebinding.program.getD default).code.dropLast <+: p.code := by
    rw [hp]
    exact List.dropLast_prefix p.code
  exact ⟨hWaits.2, hStore.backed_of_steps hChecked hPrefix (Prod.ext rfl rfl)⟩

end Reckon
