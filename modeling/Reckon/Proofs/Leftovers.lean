import Reckon.Proofs.Sweeping

/-!
# What a run leaves behind

Everything that a run takes out of the store is given up in the end, on every path, and the sweep
reclaims it. What is left behind can be reached from the names or from the result that the session
retains, with one exception: an array inside itself. Main result: `Session.reached_of_execute`.
-/

namespace Reckon

namespace Session

/-- The literals that a session has in hand are those that its result shares. -/
theorem Kept.mem_handles_iff {c : Session} (hc : c.Kept) (l : LiteralId) :
    l ∈ c.held.bind Object.counts ↔ c.sharesResult l = true := by
  rw [← Multiset.count_pos, hc.count_handles]
  split
  · rename_i hShares
    exact iff_of_true Nat.one_pos hShares
  · rename_i hOther
    exact iff_of_false (Nat.lt_irrefl 0) hOther

/-- **Nothing is lost without a cycle.** Behind a run, whether it succeeded or failed, and whatever
was done with the session before: if no array lies inside itself, every literal can be reached from
the names or from the result, and so can every slot. -/
theorem reached_of_execute {c : Session} (hc : c.Reachable) {p : Program}
    (hPhase : c.phase = .waiting) (hp : c.program = some p)
    (hAcyclic : ∀ l, ¬ Relation.TransGen c.execute.2.store.PointsTo l l) :
    (∀ l lit, c.execute.2.store.literal? l = some lit →
      c.execute.2.store.Reaches (fun k => c.execute.2.sharesResult k = true) l) ∧
    ∀ id slot, c.execute.2.store.slot? id = some slot →
      c.execute.2.store.ReachesSlot (fun k => c.execute.2.sharesResult k = true) id := by
  have hKept := hc.kept.execute
  have hBalanced := hKept.store.balanced
  rw [hKept.owns_nothing] at hBalanced
  have hHand : (· ∈ c.execute.2.held.bind Object.counts) =
      fun k => c.execute.2.sharesResult k = true :=
    funext fun k => propext (hKept.mem_handles_iff k)
  have hLiterals := hBalanced.reaches_of_acyclic hAcyclic (hc.kept.execute_swept hPhase hp).2
  rw [hHand] at hLiterals
  refine ⟨hLiterals, fun id slot hSlot => ?_⟩
  -- a slot belongs to a name, or to an array that can be reached
  obtain ⟨o, hOwns, -⟩ := hBalanced.existsUnique_owner hSlot
  match o, hOwns with
  | .symbol name, hName => exact .inl ⟨name, hName⟩
  | .element l position, ⟨lit, hl, hPosition⟩ =>
    exact .inr ⟨l, lit, hLiterals l lit hl, hl, List.mem_of_getElem? hPosition⟩

/-- Behind a run that fails with nothing in the queue, the store is what the run left: there is
nothing to sweep. -/
theorem execute_store_of_error {c : Session} {p : Program} {e : Failure} {t : Store}
    (hPhase : c.phase = .waiting) (hp : c.program = some p)
    (hRun : p.run c.script c.storeWithoutResult = (.error e, t)) (hQueue : t.queue = []) :
    c.execute.2.store = t := by
  rw [execute_of_waiting hPhase hp, settle_store]
  simp only [runProgram, hRun, Store.sweep, Store.sweepOnto_of_nil hQueue]

/-- A session in which a program waits that names an array with another one inside, and fails then,
because an array cannot be added to a number. -/
def beforeAddingArray : Session :=
  ((bare {} (.seeded 0)).load "1 + (a = {1, {2}})").forward.2.compile.2

/-- What running the program gives, before the sweep. -/
def addingArray : Except Failure Object × Store :=
  (beforeAddingArray.program.getD default).run beforeAddingArray.script
    beforeAddingArray.storeWithoutResult

theorem reachable_beforeAddingArray : beforeAddingArray.Reachable :=
  (((Reachable.bare {} (.seeded 0)).apply (.load "1 + (a = {1, {2}})") trivial).apply
    .forward trivial).apply .compile trivial

/-- The run fails. What the name stands for by then can be reached, and nothing else is left. -/
theorem reached_beforeAddingArray :
    (beforeAddingArray.phase = .waiting ∧ beforeAddingArray.execute.2.phase = .failed) ∧
      (∀ l, ¬ Relation.TransGen beforeAddingArray.execute.2.store.PointsTo l l) ∧
      beforeAddingArray.execute.2.store.liveLiterals = 4 ∧
      (∀ l lit, beforeAddingArray.execute.2.store.literal? l = some lit →
        beforeAddingArray.execute.2.store.Reaches
          (fun k => beforeAddingArray.execute.2.sharesResult k = true) l) ∧
      ∀ id slot, beforeAddingArray.execute.2.store.slot? id = some slot →
        beforeAddingArray.execute.2.store.ReachesSlot
          (fun k => beforeAddingArray.execute.2.sharesResult k = true) id := by
  have hWaits : beforeAddingArray.phase = .waiting ∧ beforeAddingArray.program.isSome ∧
      beforeAddingArray.execute.2.phase = .failed := by decide +kernel
  have hLeft : addingArray.1.isOk = false ∧ addingArray.2.queue = [] ∧
      addingArray.2.liveLiterals = 4 ∧ addingArray.2.descends = true := by decide +kernel
  obtain ⟨p, hp⟩ := Option.isSome_iff_exists.1 hWaits.2.1
  have hRun : p.run beforeAddingArray.script beforeAddingArray.storeWithoutResult =
      addingArray := by
    rw [addingArray, hp, Option.getD_some]
  have hStore : beforeAddingArray.execute.2.store = addingArray.2 := by
    obtain ⟨hFails, hQueue, -⟩ := hLeft
    cases hResult : addingArray with
    | mk answer t =>
      rw [hResult] at hRun hFails hQueue
      cases answer with
      | ok obj => cases hFails
      | error e => exact execute_store_of_error hWaits.1 hp hRun hQueue
  have hAcyclic : ∀ l, ¬ Relation.TransGen beforeAddingArray.execute.2.store.PointsTo l l := by
    rw [hStore]
    exact Store.acyclic_of_descends hLeft.2.2.2
  have hReached := reached_of_execute reachable_beforeAddingArray hWaits.1 hp hAcyclic
  exact ⟨⟨hWaits.1, hWaits.2.2⟩, hAcyclic, by rw [hStore, hLeft.2.2.1], hReached⟩

end Session

end Reckon
