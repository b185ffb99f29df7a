import Reckon.Proofs.Changes
import Reckon.Proofs.Sessions

/-!
# How long a result is good

A session keeps what its last statement gave until the next one runs, and shows it whenever it is
asked. In the meantime more text may be loaded, read and compiled, with or without success, and
names may be bound to functions, the one that the result was read from among them.

A result that shares the literal of a name keeps the literal, because it is counted. If the literal
is an array, what it shows is a matter of its elements, too. Binding a name points the slot of the
name somewhere else, and a slot belongs to a name or to an array but never to both
(`Store.Balanced.owner_unique`). So nothing that can be reached from the result is changed. Main
result: `Session.value_after`.
-/

namespace Reckon

namespace Store

variable {s t : Store} {P : Permit} {handles : Multiset LiteralId} {loose : Multiset SlotId}
  {objs : Multiset Object}

/-- A slot has one owner in the store, whatever else is owned from outside. -/
theorem Balanced.owner_unique {id : SlotId} {o o' : Owner} (hs : s.Balanced handles loose)
    (hOwns : s.Owns id o) (hOwns' : s.Owns id o') : o = o' := by
  obtain ⟨slot, hSlot⟩ := hs.slot?_of_owns hOwns
  have hSingle := hs.single id
  have hOwned : 0 < s.owned.count id := Multiset.count_pos.2 (hs.mem_owned_iff.2 ⟨o, hOwns⟩)
  -- the slot is counted once among all that is owned, and all owners are listed once
  rw [hSlot, Multiset.count_add] at hSingle
  have hOnce : s.owned.count id = 1 := by
    simp only [Option.isSome_some, if_true] at hSingle
    omega
  rw [← slots_claims, Multiset.coe_count] at hOnce
  obtain ⟨first, -, hOnly⟩ := existsUnique_of_count_eq_one hOnce
  rw [hOnly o (hs.mem_claims_iff.2 hOwns), hOnly o' (hs.mem_claims_iff.2 hOwns')]

/-- **Defining a name changes no element of an array.** The slot that is pointed somewhere else is
that of the name. -/
theorem Keeps.alters_define {name : String} {obj : Object} (hs : s.Keeps objs) (hObj : obj.Plain)
    (hName : P.names name)
    (hSlots : ∀ id, (∀ k position, ¬ s.Owns id (.element k position)) → P.slots id) :
    s.Alters P (s.define name obj).2 := by
  have hInterned := hs.balanced.alters_intern hName
  have hFound (id : SlotId) (hOk : (s.intern name).1 = .ok id) := hs.balanced.lookup_of_intern hOk
  have hKept := (hs.intern name).1
  unfold Store.define
  rcases hEq : s.intern name with ⟨e | id, t⟩
  · rw [hEq] at hInterned
    exact hInterned
  · rw [hEq] at hInterned hFound hKept
    have hOwns : t.Owns id (.symbol name) := hFound id rfl
    -- the slot of the name has one owner, so it is no element
    have hId : P.slots id := by
      refine hSlots id fun k position hElement => ?_
      have hBoth := hKept.balanced.owner_unique hOwns (hInterned.owns id _ hElement)
      cases hBoth
    have hBound := (hKept.cons hObj).alters_bind hId
    dsimp only
    rcases hBind : t.bind id obj with ⟨e | ⟨⟩, u⟩
    · rw [hBind] at hBound
      simpa only [hBind] using hInterned.trans hBound
    · rw [hBind] at hBound
      simpa only [hBind] using hInterned.trans hBound

/-- The permit under which a literal keeps showing what it shows: any name may come in, and any slot
may be pointed somewhere else that cannot be reached from the literal. -/
def sparing (s : Store) (l : Option LiteralId) : Permit where
  slots id := ∀ k ∈ l, ¬ s.Leads k id
  names _ := True

/-- A handle shows what it showed. -/
theorem Alters.snapshot_handleOf {target : Option LiteralId} (h : s.Alters (s.sparing target) t)
    (hs : s.Keeps (handleOf target ::ₘ objs)) :
    t.snapshot (handleOf target) = s.snapshot (handleOf target) := by
  rcases target with _ | l
  · rfl
  · have hBalanced := hs.balanced
    rw [Multiset.cons_bind, Multiset.cons_bind] at hBalanced
    have hHandle : s.Balanced (l ::ₘ objs.bind Object.counts) _ := hBalanced
    obtain ⟨lit, hl⟩ := hHandle.live_of_handle
    exact h.snapshotLiteral hs.balanced [] (holds?_of_literal? hl) fun id hLeads hSpared =>
      hSpared l rfl hLeads

/-- What can be reached from a literal that is there is there. -/
theorem Balanced.holds?_of_reaches {l k : LiteralId} {lit : Literal} (hs : s.Balanced handles loose)
    (hl : s.literal? l = some lit) (hReaches : Relation.ReflTransGen s.PointsTo l k) :
    ∃ payload, s.holds? k = some payload := by
  have hLive : ∃ litk, s.literal? k = some litk := by
    rcases Relation.ReflTransGen.cases_tail hReaches with rfl | ⟨j, -, litj, -, id, -, hTarget⟩
    · exact ⟨lit, hl⟩
    · exact hs.live_of_target? hTarget
  obtain ⟨litk, hk⟩ := hLive
  exact ⟨litk.payload, holds?_of_literal? hk⟩

end Store

namespace Session

variable {c d : Session}

/-! ## What may be done in between -/

/-- Whether an operation may end the result: it runs a program, or gives everything up. -/
def Operation.supersedes (c : Session) : Operation → Bool
  | execute => c.phase == .waiting && c.program.isSome
  | evaluate _ | teardown => true
  | _ => false

/-- Whether none of some operations, one behind the other, may end the result. -/
def retains (c : Session) : List Operation → Bool
  | [] => true
  | op :: ops => !op.supersedes c && (op.apply c).retains ops

theorem compile_result (c : Session) : c.compile.2.result = c.result := by
  unfold Session.compile
  split
  · split <;> rfl
  · rfl

/-- A call at the wrong time changes nothing. -/
theorem execute_of_not_supersedes (h : Operation.execute.supersedes c = false) :
    c.execute.2 = c := by
  unfold Session.execute
  split
  · rename_i p hPhase hp
    simp [Operation.supersedes, hPhase, hp] at h
  · rfl

/-! ## The result -/

/-- A session that has the same result as another one before it, in a store that comes from the one
before without changing what the result shows. -/
structure Retains (c : Session) (target : Option LiteralId) (d : Session) : Prop where
  result : d.result = some (Store.handleOf target)
  keeps : d.store.Keeps {Store.handleOf target}
  alters : c.store.Alters (c.store.sparing target) d.store

variable {target : Option LiteralId}

theorem Retains.of_eq {e : Session} (h : c.Retains target d) (hStore : e.store = d.store)
    (hResult : e.result = d.result) : c.Retains target e := by
  obtain ⟨hHandle, hKeeps, hAlters⟩ := h
  refine ⟨hResult.trans hHandle, ?_, ?_⟩
  · rw [hStore]
    exact hKeeps
  · rw [hStore]
    exact hAlters

/-- Binding a function, tame or not. -/
theorem Retains.bindFunction (h : c.Retains target d) (f : Function) :
    c.Retains target (d.bindFunction f).2 := by
  have hPlain : (Object.function f).Plain := ⟨rfl, rfl, by simp⟩
  refine ⟨h.result, h.keeps.define hPlain f.name, h.alters.trans ?_⟩
  refine h.keeps.alters_define hPlain trivial fun id hNone l _ hLeads => ?_
  -- an element that the result leads to is an element still
  obtain ⟨k, position, hOwns⟩ := hLeads.exists_owner
  exact hNone k position (h.alters.owns id _ hOwns)

/-- **An operation that does not end the result leaves it as it is.** -/
theorem Retains.apply {op : Operation} (h : c.Retains target d) (hOp : op.supersedes d = false) :
    c.Retains target (op.apply d) := by
  match op, hOp with
  | .load text, _ => exact h.of_eq (d.load_unchanged text).1 (d.load_unchanged text).2
  | .forward, _ => exact h.of_eq d.forward_unchanged.2.1 d.forward_unchanged.2.2
  | .compile, _ => exact h.of_eq d.compile_store d.compile_result
  | .execute, hOp =>
    show c.Retains target d.execute.2
    rw [execute_of_not_supersedes hOp]
    exact h
  | .bindFunction f, _ => exact h.bindFunction f
  | .lookup name, _ => exact h

theorem Retains.after {ops : List Operation} (h : c.Retains target d) (hOps : d.retains ops) :
    c.Retains target (d.after ops) := by
  induction ops generalizing d with
  | nil => exact h
  | cons op ops ih =>
    simp only [retains, Bool.and_eq_true, Bool.not_eq_true'] at hOps
    exact ih (h.apply hOps.1) hOps.2

/-- A run that succeeds leaves its answer as the result. -/
theorem result_of_execute {obj : Object} (hRan : c.execute.1 = .ok obj) :
    c.execute.2.result = some obj := by
  unfold Session.execute at hRan ⊢
  split at hRan
  · rename_i p hPhase hp
    unfold settle at hRan ⊢
    dsimp only at hRan ⊢
    split at hRan
    · rename_i x hx
      cases hRan
      rfl
    · cases hRan
  · cases hRan

/-- The result is all that a session holds. -/
theorem Kept.keeps_result (hc : c.Kept) (hResult : c.result = some (Store.handleOf target)) :
    c.store.Keeps {Store.handleOf target} := by
  have hHeld := hc.store
  unfold held at hHeld
  rw [hResult] at hHeld
  exact hHeld

/-- The session shows what the result showed in the session before. -/
theorem Retains.value_eq (h : c.Retains target d) (hKeeps : c.store.Keeps {Store.handleOf target}) :
    d.value = some (c.store.snapshot (Store.handleOf target)) := by
  have hShown : d.store.snapshot (Store.handleOf target) =
      c.store.snapshot (Store.handleOf target) := h.alters.snapshot_handleOf hKeeps
  unfold Session.value
  rw [h.result, Option.map_some, hShown]

/-- What can be reached from the result holds what it held, and leads where it led. -/
theorem Retains.reached {l k : LiteralId} (h : c.Retains (some l) d)
    (hKeeps : c.store.Keeps {Store.handleOf (some l)})
    (hReaches : Relation.ReflTransGen c.store.PointsTo l k) :
    ∃ payload, c.store.holds? k = some payload ∧ d.store.holds? k = some payload ∧
      ∀ id ∈ payload.slots, d.store.target? id = c.store.target? id := by
  have hHandle : c.store.Balanced (l ::ₘ 0) _ := hKeeps.balanced
  obtain ⟨lit, hl⟩ := hHandle.live_of_handle
  obtain ⟨payload, hHolds⟩ := hKeeps.balanced.holds?_of_reaches hl hReaches
  refine ⟨payload, hHolds, h.alters.holds k payload hHolds, fun id hId => ?_⟩
  -- the slot is an element of an array, and one that the permit spares
  have hLeads : c.store.Leads l id := ⟨k, payload, hReaches, hHolds, hId⟩
  obtain ⟨j, position, hOwns⟩ := hLeads.exists_owner
  exact h.alters.target id _ hOwns fun hSpared => hSpared l rfl hLeads

/-- **A result is good until the next statement runs.** Whatever is loaded, read, compiled, looked
up or bound in between, with or without success: the session shows the same value, every literal
that can be reached from the result is there and holds what it held, and every element of its arrays
points where it did. -/
theorem value_after (hc : c.Reachable) {obj : Object} (hRan : c.execute.1 = .ok obj)
    {ops : List Operation} (hOps : c.execute.2.retains ops) :
    (∃ v, c.execute.2.value = some v ∧ (c.execute.2.after ops).value = some v) ∧
      ∀ l, obj = .readOnly l → ∀ k, Relation.ReflTransGen c.execute.2.store.PointsTo l k →
        ∃ payload, c.execute.2.store.holds? k = some payload ∧
          (c.execute.2.after ops).store.holds? k = some payload ∧
          ∀ id ∈ payload.slots,
            (c.execute.2.after ops).store.target? id = c.execute.2.store.target? id := by
  have hKept := hc.kept.execute
  have hResult := result_of_execute hRan
  generalize c.execute.2 = d at hKept hResult hOps
  obtain ⟨target, rfl⟩ := hKept.result obj hResult
  have hKeeps := hKept.keeps_result hResult
  have hStart : d.Retains target d := ⟨hResult, hKeeps, .refl _ _⟩
  have hEnd := hStart.after hOps
  refine ⟨⟨_, hStart.value_eq hKeeps, hEnd.value_eq hKeeps⟩, fun l hObj k hReaches => ?_⟩
  rcases target with _ | l'
  · -- nil leads nowhere
    cases hObj
  · cases hObj
    exact hEnd.reached hKeeps hReaches

/-- A session in which a statement waits that names an array with another one inside. -/
def beforeNaming : Session := ((bare {} (.seeded 0)).load "a = {1, {2}}").forward.2.compile.2

/-- What is done behind it: the name is bound to a function, a statement is read and compiled, a
text is loaded that cannot be read, and a run is asked for at the wrong time. -/
def betweenRuns : List Operation :=
  [.bindFunction ⟨"a", .variadic, fun _ _ => .ok .nil⟩, .load "b = 1", .forward, .compile,
    .lookup "a", .load "$", .forward, .forward, .execute]

/-- The result shares the array with the name, and outlives what the name stands for. -/
theorem value_betweenRuns :
    (∃ obj, beforeNaming.execute.1 = .ok obj) ∧
      beforeNaming.execute.2.retains betweenRuns = true ∧
      (∃ v, beforeNaming.execute.2.value = some v ∧
        (beforeNaming.execute.2.after betweenRuns).value = some v) ∧
      ∀ l, beforeNaming.execute.1 = .ok (.readOnly l) →
        ∀ k, Relation.ReflTransGen beforeNaming.execute.2.store.PointsTo l k →
          ∃ payload, beforeNaming.execute.2.store.holds? k = some payload ∧
            (beforeNaming.execute.2.after betweenRuns).store.holds? k = some payload ∧
            ∀ id ∈ payload.slots, (beforeNaming.execute.2.after betweenRuns).store.target? id =
              beforeNaming.execute.2.store.target? id := by
  have hReachable : beforeNaming.Reachable :=
    (((Reachable.bare {} (.seeded 0)).apply (.load "a = {1, {2}}") trivial).apply
      .forward trivial).apply .compile trivial
  have hFacts : beforeNaming.execute.1.isOk = true ∧
      beforeNaming.execute.2.retains betweenRuns = true := by decide +kernel
  obtain ⟨hOk, hRetains⟩ := hFacts
  obtain ⟨obj, hRan⟩ : ∃ obj, beforeNaming.execute.1 = .ok obj := by
    rcases hAnswer : beforeNaming.execute.1 with e | obj
    · rw [hAnswer] at hOk
      cases hOk
    · exact ⟨obj, rfl⟩
  obtain ⟨hValue, hReached⟩ := value_after hReachable hRan hRetains
  refine ⟨⟨obj, hRan⟩, hRetains, hValue, fun l hl => ?_⟩
  rw [hRan] at hl
  cases hl
  exact hReached l rfl

end Session

end Reckon
