import Reckon.Proofs.Effects
import Reckon.Proofs.Histories

/-!
# Statements that do not assign

A statement without assignments is evaluated for its value only. It may still do a great deal to the
store: it interns the names that it mentions, makes arrays and gives them up, calls functions, gives
up the result of the statement before, and the store is swept behind it. None of this shows. Every
name stands for what it stood for, whatever arrays it shares with others or contains itself, and a
name that the statement introduces has an empty slot.

The run is a matter of `Program.alters_run`, with a permit under which no slot may be pointed
somewhere else. The sweep takes out only what no name leads to. Main result:
`Session.execute_without_assignment`.
-/

namespace Reckon

/-- The permit of a program that does not assign: the names that it mentions may come in. -/
def Permit.mentions (script : String) (code : List Instruction) : Permit where
  slots _ := False
  names name := ∃ i ∈ code, i.kind = .name ∧ i.span.text script = name

/-- An instruction that does not assign needs no more than this permit. -/
theorem Permit.le_mentions {script : String} {code : List Instruction}
    (hCode : ∀ i ∈ code, i.assigns = false) :
    ∀ i ∈ code, ∀ m, (i.permit script m).Le (.mentions script code) := by
  intro i hi m
  refine ⟨fun id ⟨hAssigns, _⟩ => ?_, fun name hName => ⟨i, hi, hName⟩⟩
  rw [hCode i hi] at hAssigns
  cases hAssigns

namespace Session

variable {c : Session} {p : Program} {P : Permit}

/-- Behind a run the store is what is left of one that comes from the store before it within the
permit: the result is taken in between, and the sweep takes literals out. -/
theorem exists_remains_runProgram {code : List Instruction} {s : Store}
    (hp : Program.ofPostfix code = .ok p) (hs : s.Keeps 0) (hTame : s.Within Function.Tame)
    (script : String) (hPermit : ∀ i ∈ p.code, ∀ m, (i.permit script m).Le P) :
    ∃ t handles reclaimed, s.Alters P t ∧
      t.Remains handles 0 reclaimed (runProgram p script s).2 := by
  have hChanged := Program.alters_run hp hs hTame script hPermit
  have hKeeps := Program.keeps_run hp hs hTame script
  rw [runProgram_eq]
  rcases hRun : p.run script s with ⟨e | obj, t⟩
  · rw [hRun] at hChanged hKeeps
    have hNone : t.Keeps 0 := hKeeps
    obtain ⟨reclaimed, hRemains, -⟩ := hNone.balanced.exists_remains (List.Subset.refl _)
    exact ⟨t, _, reclaimed, hChanged, hRemains⟩
  · rw [hRun] at hChanged hKeeps
    -- a handle on the result is in hand when the store is swept
    have hOne : t.Keeps (obj ::ₘ 0) := hKeeps
    have hBalanced := hOne.take.balanced
    rw [Multiset.cons_bind (f := Object.owns), Store.owns_handleOf, zero_add] at hBalanced
    obtain ⟨reclaimed, hRemains, -⟩ := hBalanced.exists_remains (List.Subset.refl _)
    exact ⟨(t.take obj).2, _, reclaimed, hChanged.trans (hOne.carries_take.alters P), hRemains⟩

/-- The same for a session in which a program waits. The result before is given up first. -/
theorem Kept.exists_remains_execute (hc : c.Kept) (hPhase : c.phase = .waiting)
    (hp : c.program = some p) (hPermit : ∀ i ∈ p.code, ∀ m, (i.permit c.script m).Le P) :
    ∃ t handles reclaimed, c.store.Alters P t ∧
      t.Remains handles 0 reclaimed c.execute.2.store := by
  obtain ⟨code, hChecked⟩ := hc.program p hp
  obtain ⟨hKeeps, hTame⟩ := hc.storeWithoutResult
  obtain ⟨t, handles, reclaimed, hAlters, hRemains⟩ :=
    exists_remains_runProgram hChecked hKeeps hTame c.script hPermit
  rw [execute_of_waiting hPhase hp, settle_store]
  exact ⟨t, handles, reclaimed, (hc.carries_storeWithoutResult.alters P).trans hAlters, hRemains⟩

/-- **A statement that does not assign does not modify.** Whether it succeeds or fails, every name
stands for what it stood for before. The names that come in are mentioned in the statement, and have
empty slots. -/
theorem execute_without_assignment (hc : c.Reachable) (hPhase : c.phase = .waiting)
    (hp : c.program = some p) (hPlain : ∀ i ∈ p.code, i.assigns = false) :
    (∀ name v, c.lookup name = some v → c.execute.2.lookup name = some v) ∧
    ∀ name id, c.execute.2.store.lookup name = some id → c.store.lookup name = some id ∨
      c.store.lookup name = none ∧
        (∃ i ∈ p.code, i.kind = .name ∧ i.span.text c.script = name) ∧
        c.execute.2.store.slot? id = some {} := by
  have hKept := hc.kept
  obtain ⟨t, handles, reclaimed, hAlters, hRemains⟩ :=
    hKept.exists_remains_execute hPhase hp (Permit.le_mentions hPlain)
  refine ⟨fun name v hLookup => ?_, fun name id hName => ?_⟩
  · -- the name has its slot still, the slot points where it did, and what can be reached from there
    -- has not changed, so the copy is the same; the sweep leaves it alone
    have hStands : c.store.standsFor name = some v := hLookup
    obtain ⟨id, hName, rfl⟩ := Option.map_eq_some_iff.1 hStands
    have hStill : t.lookup name = some id := hAlters.owns id (.symbol name) hName
    have hTarget := hAlters.target id (.symbol name) hName fun hPointed => hPointed
    have hShows := hAlters.snapshot_writable hKept.store.balanced hTarget
      fun _ _ _ _ hPointed => hPointed
    show c.execute.2.store.standsFor name = _
    rw [← hRemains.sameBindings.values name]
    unfold Store.standsFor
    rw [hStill, Option.map_some, hShows]
  · rw [hRemains.lookup] at hName
    rcases hAlters.named name id hName with hOld | ⟨hNew, hMentioned, hEmpty⟩
    · exact .inl hOld
    · -- the slot is there because the name has it, and it points at nothing
      refine .inr ⟨hNew, hMentioned, ?_⟩
      have hLive := hRemains.slot?_of_lookup hName
      have hTarget := (hRemains.target? hLive).trans (hEmpty fun hPointed => hPointed)
      obtain ⟨⟨target⟩, hSlot⟩ := Option.isSome_iff_exists.1 hLive
      unfold Store.target? at hTarget
      rw [hSlot] at hTarget ⊢
      obtain rfl : target = none := hTarget
      rfl

/-- A session that knows a function and an array with another one inside. The statement that waits
looks into the array, calls the function and mentions a name that is not in use. -/
def beforeLooking : Session :=
  ((boundOnce.load "x = {int, {2}}").forward.2.compile.2.execute.2.load
    "{x[1][0] + int(3), y}").forward.2.compile.2

/-- The session has come about by operations. -/
theorem reachable_beforeLooking : beforeLooking.Reachable := by
  have hTame : truncating.Tame := tame_builtin truncating (by simp [Builtin.all, truncating])
  have hBound : boundOnce.Reachable :=
    .apply (.bare {} (.seeded 0)) (.bindFunction truncating) hTame
  have hAssigned := (((hBound.apply (.load "x = {int, {2}}") trivial).apply .forward trivial).apply
    .compile trivial).apply .execute trivial
  exact ((hAssigned.apply (.load "{x[1][0] + int(3), y}") trivial).apply .forward trivial).apply
    .compile trivial

/-- Looking into the array leaves it as it is. -/
theorem execute_beforeLooking :
    (beforeLooking.phase = .waiting ∧ ∃ p, beforeLooking.program = some p ∧
      ∀ i ∈ p.code, i.assigns = false) ∧
    (∀ name v, beforeLooking.lookup name = some v →
      beforeLooking.execute.2.lookup name = some v) ∧
    ∀ name id, beforeLooking.execute.2.store.lookup name = some id →
      beforeLooking.store.lookup name = some id ∨
      beforeLooking.store.lookup name = none ∧
        (∃ p, beforeLooking.program = some p ∧
          ∃ i ∈ p.code, i.kind = .name ∧ i.span.text beforeLooking.script = name) ∧
        beforeLooking.execute.2.store.slot? id = some {} := by
  have hWaits : beforeLooking.phase = .waiting ∧ beforeLooking.program.isSome ∧
      ∀ p ∈ beforeLooking.program, ∀ i ∈ p.code, i.assigns = false := by decide +kernel
  obtain ⟨hPhase, hSome, hPlain⟩ := hWaits
  obtain ⟨p, hp⟩ := Option.isSome_iff_exists.1 hSome
  obtain ⟨hSame, hNew⟩ := execute_without_assignment reachable_beforeLooking hPhase hp
    (hPlain p hp)
  refine ⟨⟨hPhase, p, hp, hPlain p hp⟩, hSame, fun name id hName => ?_⟩
  rcases hNew name id hName with hOld | ⟨hNone, hMentioned, hEmpty⟩
  · exact .inl hOld
  · exact .inr ⟨hNone, ⟨p, hp, hMentioned⟩, hEmpty⟩

end Session

end Reckon
