import Reckon.Proofs.Isomorphism
import Reckon.Proofs.Twins

/-!
# Sessions with different histories

A session that has been used for long has other numbers in its store than one that has just come to
the same point: slots and literals were given back and given out again, lists of numbers to be used
again have grown, some arrays lie inside themselves and are lost, and a result is retained. None of
this can be seen. If what the names lead to is the same (`Store.Isomorphic`), every text that calls
blind functions only gives the same value or the same failure, and what the names lead to is the
same again. The one thing in the way is that one of the stores may run out of slots.

Sessions that read the same text do the same work (`Session.Abreast`), statement by statement, and
the runs are twins. Main result: `Session.evaluate_eq_of_isomorphic`.
-/

namespace Reckon

namespace Session

variable {c c' d d' : Session} {p : Program} {last : Value}

/-! ## Stages of a statement -/

/-- What a session holds besides its result stays when the result is given up. -/
theorem Kept.carries_storeWithoutResult (hc : c.Kept) : c.store.Carries c.storeWithoutResult 0 := by
  have hKeeps := hc.store
  unfold held at hKeeps
  unfold Session.storeWithoutResult
  cases hResult : c.result with
  -- without a result there is nothing to give up
  | none => exact .refl _ _
  | some obj =>
    rw [hResult] at hKeeps
    have hOne : c.store.Keeps (obj ::ₘ 0) := hKeeps
    exact hOne.carries_release

/-- The answer of a run, with the store behind its sweep: on success a handle on what the result
holds has been taken. -/
theorem runProgram_eq (p : Program) (script : String) (s : Store) :
    runProgram p script s = match p.run script s with
      | (.ok obj, t) => (.ok (Store.handleOf (t.take obj).1), (t.take obj).2.sweep.2)
      | (.error e, t) => (.error e, t.sweep.2) := by
  unfold runProgram
  rcases p.run script s with ⟨_ | obj, t⟩
  · rfl
  · have hMade : t.materialize obj (t.request obj false) =
        (.ok (Store.handleOf (t.take obj).1), (t.take obj).2) := by
      rw [Store.materialize_request]
      cases (t.take obj).1 <;> rfl
    dsimp only
    rw [hMade]

/-- A run whose answer lacks no slot has lacked none itself. -/
theorem afforded_runProgram {script : String} {s : Store}
    (h : Afforded (runProgram p script s).1) : Afforded (p.run script s).1 := by
  refine h.of_part fun e hEq => ?_
  rw [runProgram_eq, hEq]

/-- A matching fits after the sweeps, and what handles hold is still matched. -/
theorem exists_between_sweep {r : Matching} {s t : Store} {target target' : Option LiteralId}
    (h : r.Between s t) (hs : s.Keeps {Store.handleOf target})
    (ht : t.Keeps {Store.handleOf target'}) (hTarget : Option.Rel r.literals target target') :
    ∃ r' : Matching, r'.Between s.sweep.2 t.sweep.2 ∧ Option.Rel r'.literals target target' := by
  have hBalanced := hs.balanced
  have hBalanced' := ht.balanced
  rw [Multiset.singleton_bind, Multiset.singleton_bind, Store.owns_handleOf] at hBalanced hBalanced'
  -- either sweep leaves what can be reached and what the handles are on
  obtain ⟨_, hLeft, -⟩ := hBalanced.exists_remains (List.Subset.refl _)
  obtain ⟨_, hLeft', -⟩ := hBalanced'.exists_remains (List.Subset.refl _)
  exact ⟨_, h.swept hLeft hLeft', Matching.left_of_handles hTarget hLeft hLeft'⟩

/-- **Running a program in two stores** between which a matching fits gives the same failure, or
results that show the same. -/
theorem runProgram_alike {r : Matching} {s t : Store} {script : String} {code : List Instruction}
    (h : r.Between s t) (hp : Program.ofPostfix code = .ok p) (hs : s.Keeps 0) (ht : t.Keeps 0)
    (hTame : s.Within Function.Tame) (hTame' : t.Within Function.Tame)
    (hBlind : Machine.CallsOnly Function.Blind script { store := s } p.code)
    (hAfforded : Afforded (runProgram p script s).1)
    (hAfforded' : Afforded (runProgram p script t).1) :
    (∃ r' : Matching, r'.Between (runProgram p script s).2 (runProgram p script t).2) ∧
      Agree (fun obj obj' => (runProgram p script s).2.snapshot obj =
        (runProgram p script t).2.snapshot obj') (runProgram p script s).1
          (runProgram p script t).1 := by
  obtain ⟨r₁, hBetween, hAnswers⟩ := h.run hp hs ht hTame hTame' hBlind
    (afforded_runProgram hAfforded) (afforded_runProgram hAfforded')
  have hKeeps := Program.keeps_run hp hs hTame script
  have hKeeps' := Program.keeps_run hp ht hTame' script
  rw [runProgram_eq, runProgram_eq]
  rcases hRun : p.run script s with ⟨answer, u⟩
  rcases hRun' : p.run script t with ⟨answer', u'⟩
  rw [hRun] at hBetween hAnswers hKeeps
  rw [hRun'] at hBetween hAnswers hKeeps'
  cases hAnswers with
  | error e =>
    -- nothing is held after a failure
    have hNone : u.Keeps {Store.handleOf none} := Store.Keeps.cons hKeeps Object.plain_nil
    have hNone' : u'.Keeps {Store.handleOf none} := Store.Keeps.cons hKeeps' Object.plain_nil
    obtain ⟨r', hSwept, -⟩ := exists_between_sweep hBetween hNone hNone' .none
    exact ⟨⟨r', hSwept⟩, .error e⟩
  | @ok obj obj' hResult =>
    have hOne : u.Keeps (obj ::ₘ 0) := hKeeps
    have hOne' : u'.Keeps (obj' ::ₘ 0) := hKeeps'
    -- the results are taken into literals that stand for each other, and the sweeps leave these
    obtain ⟨r₂, hTarget, hTaken⟩ := hBetween.take hOne hOne' hResult
    obtain ⟨r', hSwept, hLeft⟩ :=
      exists_between_sweep hTaken.between hOne.take hOne'.take hTarget
    exact ⟨⟨r', hSwept⟩, .ok (hSwept.snapshot_handleOf hLeft)⟩

/-! ## Sessions side by side -/

/-- Sessions at the same place of the same text, with stores between which a matching fits. -/
structure Counterparts (c d : Session) : Prop where
  kept : c.Kept
  kept' : d.Kept
  script : d.script = c.script
  cursor : d.cursor = c.cursor
  position : d.position = c.position
  options : d.options = c.options
  matched : ∃ r : Matching, r.Between c.store d.store

/-- Counterparts with the same work to do. -/
structure Abreast (c d : Session) : Prop extends Counterparts c d where
  phase : d.phase = c.phase
  tokens : d.tokens = c.tokens
  program : d.program = c.program

/-- Counterparts read the same statement, and have the same work to do then. -/
theorem Counterparts.forward {answer : Except Failure Bool} (h : c.Counterparts d)
    (hRead : c.forward = (answer, c')) : ∃ d', d.forward = (answer, d') ∧ c'.Abreast d' := by
  have hKept := h.kept.forward
  have hKept' := h.kept'.forward
  -- a reader sees nothing but the text, the place in it and the limits
  have hReader : d.reader = c.reader := by
    unfold Session.reader
    rw [h.script, h.cursor, h.position, h.options]
  rw [hRead] at hKept
  unfold Session.forward at hRead hKept' ⊢
  rw [hReader] at hKept' ⊢
  generalize c.reader.nextStatement = r at hRead hKept' ⊢
  obtain ⟨outcome, reader⟩ := r
  rcases outcome with e | _ | tokens
  all_goals
    cases hRead
    refine ⟨_, rfl, ⟨hKept, hKept', ?_, ?_, ?_, ?_, h.matched⟩, ?_, ?_, ?_⟩
    all_goals first | rfl | exact h.script | exact h.options

/-- Sessions that are abreast compile the same program, or refuse the same statement. -/
theorem Abreast.compile {answer : Except Failure Unit} (h : c.Abreast d)
    (hBuilt : c.compile = (answer, c')) : ∃ d', d.compile = (answer, d') ∧ c'.Abreast d' := by
  have hKept := h.kept.compile
  have hKept' := h.kept'.compile
  rw [hBuilt] at hKept
  unfold Session.compile at hBuilt hKept' ⊢
  rw [h.phase, h.tokens] at hKept' ⊢
  -- a statement is compiled only while it waits for that; otherwise nothing happens on either side
  by_cases hPhase : c.phase = .unbuilt
  · rw [if_pos hPhase] at hBuilt hKept' ⊢
    generalize Program.ofTokens c.tokens = outcome at hBuilt hKept' ⊢
    rcases outcome with e | p
    all_goals
      cases hBuilt
      exact ⟨_, rfl, ⟨hKept, hKept', h.script, h.cursor, h.position, h.options, h.matched⟩,
        rfl, rfl, rfl⟩
  · rw [if_neg hPhase] at hBuilt ⊢
    cases hBuilt
    exact ⟨_, rfl, h⟩

/-- **Two sessions run a statement alike**: they fail with the same failure, or their results show
the same. -/
theorem Abreast.execute (h : c.Abreast d) (hPhase : c.phase = .waiting) (hp : c.program = some p)
    (hBlind : Machine.CallsOnly Function.Blind c.script { store := c.storeWithoutResult } p.code)
    (hAfforded : Afforded c.execute.1) (hAfforded' : Afforded d.execute.1) :
    Agree (fun _ _ => True) c.execute.1 d.execute.1 ∧ c.execute.2.Counterparts d.execute.2 ∧
      d.execute.2.value = c.execute.2.value := by
  have hKept := h.kept.execute
  have hKept' := h.kept'.execute
  obtain ⟨code, hChecked⟩ := h.kept.program p hp
  obtain ⟨r, hBetween⟩ := h.matched
  -- the results retained before are given up first, which leaves the matching as it is
  have hStart := hBetween.carry h.kept.carries_storeWithoutResult h.kept'.carries_storeWithoutResult
  obtain ⟨hKeeps, hTame⟩ := h.kept.storeWithoutResult
  obtain ⟨hKeeps', hTame'⟩ := h.kept'.storeWithoutResult
  rw [execute_of_waiting hPhase hp] at hKept hAfforded ⊢
  rw [execute_of_waiting (h.phase.trans hPhase) (h.program.trans hp), h.script]
    at hKept' hAfforded' ⊢
  have hAnswer {e : Session} {answer : Except Failure Object} {u : Store}
      (hSettled : Afforded (e.settle answer u).1) : Afforded answer := by
    cases answer <;> exact hSettled
  obtain ⟨⟨r', hEnd⟩, hAgree⟩ := runProgram_alike hStart hChecked hKeeps hKeeps' hTame hTame' hBlind
    (hAnswer hAfforded) (hAnswer hAfforded')
  generalize runProgram p c.script c.storeWithoutResult = x at hKept hAgree hEnd ⊢
  generalize runProgram p c.script d.storeWithoutResult = y at hKept' hAgree hEnd ⊢
  obtain ⟨answer, u⟩ := x
  obtain ⟨answer', u'⟩ := y
  dsimp only at hKept hKept' hAgree hEnd ⊢
  -- the answers have been compared, so all that is left is to put the parts together
  cases hAgree with
  | error e =>
    exact ⟨.error e, ⟨hKept, hKept', h.script, h.cursor, h.position, h.options, r', hEnd⟩, rfl⟩
  | ok hShows =>
    exact ⟨.ok trivial, ⟨hKept, hKept', h.script, h.cursor, h.position, h.options, r', hEnd⟩,
      congrArg some hShows.symm⟩

/-! ## Whole texts -/

/-- The sessions in which a program waits, on the way through the statements that are left. -/
inductive Meets : Session → Session → Prop
  | next {c c₁ c₂ : Session} (hRead : c.forward = (.ok true, c₁))
      (hBuilt : c₁.compile = (.ok (), c₂)) : Meets c c₂
  | later {c c₁ c₂ c₃ d : Session} {obj : Object} (hRead : c.forward = (.ok true, c₁))
      (hBuilt : c₁.compile = (.ok (), c₂)) (hRan : c₂.execute = (.ok obj, c₃))
      (hLater : Meets c₃ d) : Meets c d

/-- All functions that the statements left to run call have a property. -/
def RunsOnly (P : Function → Prop) (c : Session) : Prop :=
  ∀ d p, c.Meets d → d.program = some p →
    Machine.CallsOnly P d.script { store := d.storeWithoutResult } p.code

/-- All functions that a text calls have a property. -/
def CallsOnly (P : Function → Prop) (c : Session) (text : String) : Prop := (c.load text).RunsOnly P

/-- A statement that was compiled waits. -/
theorem waiting_of_compile (h : c.compile = (.ok (), d)) :
    d.phase = .waiting ∧ ∃ p, d.program = some p := by
  unfold Session.compile at h
  split at h
  · split at h
    · cases h
      exact ⟨rfl, _, rfl⟩
    · cases h
  · cases h

section Stages

variable {c₁ c₂ c₃ : Session} {obj : Object} {e : Failure}

/-- A statement that cannot be read ends the text with its failure. -/
theorem runAll_of_unread (h : c.forward = (.error e, c₁)) : c.runAll last = (.error e, c₁) := by
  rw [runAll]
  split <;> simp_all

/-- Where no statement is left, the text ends with the value of the one before. -/
theorem runAll_of_end (h : c.forward = (.ok false, c₁)) : c.runAll last = (.ok last, c₁) := by
  rw [runAll]
  split <;> simp_all

/-- A statement that does not compile ends the text with its failure. -/
theorem runAll_of_unbuilt (h : c.forward = (.ok true, c₁)) (hBuilt : c₁.compile = (.error e, c₂)) :
    c.runAll last = (.error e, c₂) := by
  rw [runAll]
  split
  · simp_all
  · simp_all
  · rename_i d hd
    obtain rfl : c₁ = d := by simpa [h] using hd
    split <;> simp_all

/-- A statement that compiles is run, and the rest of the text follows. -/
theorem runAll_of_built (h : c.forward = (.ok true, c₁)) (hBuilt : c₁.compile = (.ok (), c₂)) :
    c.runAll last = match c₂.execute with
      | (.error e, c₃) => (.error e, c₃)
      | (.ok _, c₃) => c₃.runAll (c₃.value.getD .nil) := by
  rw [runAll]
  split
  · simp_all
  · simp_all
  · rename_i d hd
    obtain rfl : c₁ = d := by simpa [h] using hd
    split
    · simp_all
    · rename_i d' hd'
      obtain rfl : c₂ = d' := by simpa [hBuilt] using hd'
      split <;> rename_i hRan <;> rw [hRan]

/-- The value of a text is that of its last statement. -/
theorem runAll_of_last (h : c.forward = (.ok true, c₁)) (hBuilt : c₁.compile = (.ok (), c₂))
    (hRan : c₂.execute = (.ok obj, c₃)) (hLast : c₃.forward.1 = .ok false) :
    (c.runAll last).1 = .ok (c₃.value.getD .nil) := by
  rw [runAll_of_built h hBuilt, hRan]
  have hEnd : c₃.forward = (.ok false, c₃.forward.2) := Prod.ext hLast rfl
  dsimp only
  rw [runAll_of_end hEnd]

/-- A run that lacks a slot ends everything with its failure. -/
theorem afforded_execute (h : c.forward = (.ok true, c₁)) (hBuilt : c₁.compile = (.ok (), c₂))
    (hAfforded : Afforded (c.runAll last).1) : Afforded c₂.execute.1 := by
  refine hAfforded.of_part fun e hEq => ?_
  rw [runAll_of_built h hBuilt, hEq]

end Stages

/-- **Two sessions run the rest of a text alike**, statement by statement. -/
theorem Counterparts.runAll (h : c.Counterparts d) (hBlind : c.RunsOnly Function.Blind)
    (hAfforded : Afforded (c.runAll last).1) (hAfforded' : Afforded (d.runAll last).1) :
    (d.runAll last).1 = (c.runAll last).1 ∧ (c.runAll last).2.Counterparts (d.runAll last).2 := by
  -- along the recursion, with the other session left open
  fun_induction Session.runAll c last generalizing d with
  | case1 c last e c₁ hRead =>
    -- the next statement cannot be read
    obtain ⟨d₁, hRead', hNext⟩ := h.forward hRead
    rw [runAll_of_unread hRead']
    exact ⟨rfl, hNext.toCounterparts⟩
  | case2 c last c₁ hRead =>
    -- there is no statement left
    obtain ⟨d₁, hRead', hNext⟩ := h.forward hRead
    rw [runAll_of_end hRead']
    exact ⟨rfl, hNext.toCounterparts⟩
  | case3 c last c₁ hRead e c₂ hBuilt =>
    -- the statement is no program
    obtain ⟨d₁, hRead', hNext⟩ := h.forward hRead
    obtain ⟨d₂, hBuilt', hReady⟩ := hNext.compile hBuilt
    rw [runAll_of_unbuilt hRead' hBuilt']
    exact ⟨rfl, hReady.toCounterparts⟩
  | case4 c last c₁ hRead c₂ hBuilt e c₃ hRan =>
    -- the program fails, and so does its counterpart
    obtain ⟨d₁, hRead', hNext⟩ := h.forward hRead
    obtain ⟨d₂, hBuilt', hReady⟩ := hNext.compile hBuilt
    obtain ⟨hPhase, p, hp⟩ := waiting_of_compile hBuilt
    have hOther : Afforded c₂.execute.1 := by
      rw [hRan]
      rintro e' he
      cases he
      exact hAfforded e rfl
    obtain ⟨hAgree, hEnd, -⟩ := hReady.execute hPhase hp (hBlind c₂ p (.next hRead hBuilt) hp)
      hOther (afforded_execute hRead' hBuilt' hAfforded')
    rw [runAll_of_built hRead' hBuilt']
    rw [hRan] at hAgree hEnd
    generalize d₂.execute = y at hAgree hEnd ⊢
    obtain ⟨answer, d₃⟩ := y
    cases hAgree with
    | error e => exact ⟨rfl, hEnd⟩
  | case5 c last c₁ hRead c₂ hBuilt obj c₃ hRan ih =>
    -- the program gives a value, and there is more to read
    obtain ⟨d₁, hRead', hNext⟩ := h.forward hRead
    obtain ⟨d₂, hBuilt', hReady⟩ := hNext.compile hBuilt
    obtain ⟨hPhase, p, hp⟩ := waiting_of_compile hBuilt
    have hNoFailure : Afforded c₂.execute.1 := by
      rw [hRan]
      rintro e he
      cases he
    obtain ⟨hAgree, hEnd, hShows⟩ := hReady.execute hPhase hp (hBlind c₂ p (.next hRead hBuilt) hp)
      hNoFailure (afforded_execute hRead' hBuilt' hAfforded')
    rw [runAll_of_built hRead' hBuilt'] at hAfforded' ⊢
    rw [hRan] at hAgree hEnd hShows
    generalize d₂.execute = y at hAgree hEnd hShows hAfforded' ⊢
    obtain ⟨answer, d₃⟩ := y
    cases hAgree with
    | ok _ =>
      -- the values so far are equal, so the rest of the text ends alike
      dsimp only at hShows hAfforded' ⊢
      rw [hShows] at hAfforded' ⊢
      exact ih hEnd (fun e q hMeets hq => hBlind e q (.later hRead hBuilt hRan hMeets) hq)
        hAfforded hAfforded'

/-! ## Sessions that know only blind functions -/

/-- Giving up the result brings no function in. -/
theorem within_storeWithoutResult {P : Function → Prop} (h : c.store.Within P) :
    c.storeWithoutResult.Within P := by
  unfold Session.storeWithoutResult
  split
  · exact h.release _
  · exact h

/-- A run meets no function that cannot be had from those that are known. -/
theorem within_runProgram {P : Function → Prop} {s : Store} (h : s.Within P)
    (hP : Function.Inherited P) (p : Program) (script : String) :
    (runProgram p script s).2.Within P := by
  have hRun := h.run hP p.code script
  unfold runProgram Program.run
  generalize Machine.run p.code script s = x at hRun
  obtain ⟨_ | obj, t⟩ := x
  · exact hRun.1.sweep
  · exact (hRun.1.materialize (hRun.2 obj rfl) (t.request obj false)).sweep

/-- Reading brings no function in. -/
theorem within_forward {P : Function → Prop} (h : c.store.Within P) :
    c.forward.2.store.Within P := by
  rw [c.forward_unchanged.2.1]
  exact h

/-- Compiling brings no function in. -/
theorem within_compile {P : Function → Prop} (h : c.store.Within P) :
    c.compile.2.store.Within P := by
  rw [compile_store]
  exact h

/-- Running a statement brings no function in that cannot be had from those that are known. -/
theorem within_execute {P : Function → Prop} (h : c.store.Within P) (hP : Function.Inherited P) :
    c.execute.2.store.Within P := by
  unfold Session.execute
  split
  · rw [settle_store]
    exact within_runProgram (within_storeWithoutResult h) hP _ _
  · -- nothing waits, so nothing is run
    exact h

/-- **A text calls nothing but what the session knows**, and what is had from there. -/
theorem callsOnly_of_within {P Q : Function → Prop} (h : c.store.Within P)
    (hP : Function.Inherited P) (hQ : ∀ f, P f → Q f) (text : String) : c.CallsOnly Q text := by
  have hRead {c c' : Session} {answer : Except Failure Bool} (hEq : c.forward = (answer, c')) :
      c'.store = c.store := by
    have hSame := c.forward_unchanged.2.1
    rwa [hEq] at hSame
  have hBuilt {c c' : Session} {answer : Except Failure Unit} (hEq : c.compile = (answer, c')) :
      c'.store = c.store := by
    have hSame := c.compile_store
    rwa [hEq] at hSame
  have hStart : (c.load text).store.Within P := by
    unfold Session.load
    split <;> exact h
  -- the store has the property whenever a program waits
  intro d p hMeets hp
  suffices hWithin : d.store.Within P from
    Machine.callsOnly_of_within (Machine.within_start (within_storeWithoutResult hWithin)) hP hQ
      _ _
  generalize c.load text = e at hStart hMeets
  -- along the statements that are run before this one
  induction hMeets with
  | next hForward hCompile =>
    rw [hBuilt hCompile, hRead hForward]
    exact hStart
  | later hForward hCompile hRan _ ih =>
    rw [← hRead hForward, ← hBuilt hCompile] at hStart
    have hNext := within_execute hStart hP
    rw [hRan] at hNext
    exact ih hp hNext

/-! ## Histories -/

/-- Sessions that have nothing left to read are counterparts once they have loaded the same text. -/
theorem counterparts_load (hc : c.Kept) (hd : d.Kept) (hComplete : c.complete = true)
    (hComplete' : d.complete = true) (hOptions : d.options = c.options)
    (hMatched : ∃ r : Matching, r.Between c.store d.store) (text : String) :
    (c.load text).Counterparts (d.load text) := by
  have hLoad := hc.load text
  have hLoad' := hd.load text
  unfold Session.load at hLoad hLoad' ⊢
  rw [if_pos hComplete] at hLoad ⊢
  rw [if_pos hComplete'] at hLoad' ⊢
  exact ⟨hLoad, hLoad', rfl, rfl, rfl, hOptions, hMatched⟩

/-- The answer of a text is that of its statements, and so is the store. -/
theorem evaluate_eq (c : Session) (text : String) :
    (c.evaluate text).1 = ((c.load text).runAll .nil).1 ∧
      (c.evaluate text).2.store = ((c.load text).runAll .nil).2.store := by
  unfold Session.evaluate
  rcases (c.load text).runAll .nil with ⟨_ | _, d⟩
  · exact ⟨rfl, rfl⟩
  · exact ⟨rfl, rfl⟩

/-- **History makes no difference.** Two sessions that are complete, in whose stores the names lead
to the same things, give the same value or the same failure for every text that calls blind
functions only, unless one of them lacks a slot. The names lead to the same things afterwards,
too. -/
theorem evaluate_eq_of_isomorphic (hc : c.Reachable) (hd : d.Reachable)
    (hComplete : c.complete = true) (hComplete' : d.complete = true)
    (hOptions : d.options = c.options) (hSame : c.store.Isomorphic d.store) (text : String)
    (hBlind : c.CallsOnly Function.Blind text)
    (hAfforded : Afforded (c.evaluate text).1) (hAfforded' : Afforded (d.evaluate text).1) :
    (d.evaluate text).1 = (c.evaluate text).1 ∧
      (c.evaluate text).2.store.Isomorphic (d.evaluate text).2.store := by
  -- what the names lead to is matched, and nothing else in the stores matters
  obtain ⟨r, hr⟩ := hSame
  have hStart := counterparts_load hc.kept hd.kept hComplete hComplete' hOptions
    ⟨r, hr.between hc.kept.store.balanced⟩ text
  obtain ⟨hAnswer, hStore⟩ := evaluate_eq c text
  obtain ⟨hAnswer', hStore'⟩ := evaluate_eq d text
  rw [hAnswer] at hAfforded ⊢
  rw [hAnswer'] at hAfforded' ⊢
  rw [hStore, hStore']
  obtain ⟨hEqual, hEnd⟩ := hStart.runAll hBlind hAfforded hAfforded'
  obtain ⟨r', hr'⟩ := hEnd.matched
  exact ⟨hEqual, hr'.isomorphic⟩

/-- A function that two sessions know. -/
def truncating : Function := Builtin.rounding "int" .towardZero

/-- One of them has bound it once. -/
def boundOnce : Session := ((bare {} (.seeded 0)).bindFunction truncating).2

/-- The other one has bound it again: the first literal waits to be reclaimed, and the name stands
for the second one. -/
def boundAgain : Session := (boundOnce.bindFunction truncating).2

/-- What the name leads to is the same function in both sessions. -/
theorem isomorphic_boundAgain : boundOnce.store.Isomorphic boundAgain.store := by
  have hName (c : Session) (hEntries : c.store.symbols.entries = [("int", 1)]) (name : String) :
      c.store.lookup name = if name = "int" then some 1 else none := by
    unfold Store.lookup Symbols.find?
    rw [hEntries, List.find?_cons]
    by_cases hEq : name = "int"
    · rw [if_pos hEq, hEq]
      rfl
    · have hOther : ("int" == name) = false := beq_false_of_ne (Ne.symm hEq)
      rw [if_neg hEq, hOther]
      rfl
  have hNames := hName boundOnce (by decide +kernel)
  have hNamesAgain := hName boundAgain (by decide +kernel)
  have hTarget : boundOnce.store.target? 1 = some 0 := by decide +kernel
  have hTargetAgain : boundAgain.store.target? 1 = some 1 := by decide +kernel
  -- the slot stands for itself, and the first literal for the second one
  let r : Matching := ⟨fun id id' => id = 1 ∧ id' = 1, fun l l' => l = 0 ∧ l' = 1⟩
  have hBetween : r.Between boundOnce.store boundAgain.store := by
    refine ⟨?_, ?_, ?_, ?_, ?_, ?_⟩
    -- each relation has one pair only, so it is unique on either side
    · exact ⟨fun _ _ _ ha hb => ha.1.trans hb.1.symm, fun _ _ _ ha hb => ha.2.trans hb.2.symm⟩
    · exact ⟨fun _ _ _ ha hb => ha.1.trans hb.1.symm, fun _ _ _ ha hb => ha.2.trans hb.2.symm⟩
    -- the slot belongs to the name in both stores
    · rintro _ _ ⟨rfl, rfl⟩
      exact ⟨⟨.symbol "int", (hNames "int").trans (if_pos rfl)⟩,
        ⟨.symbol "int", (hNamesAgain "int").trans (if_pos rfl)⟩⟩
    · rintro _ _ ⟨rfl, rfl⟩
      unfold Matching.SameTarget
      rw [hTarget, hTargetAgain]
      exact .some ⟨rfl, rfl⟩
    -- both literals hold the function
    · rintro _ _ ⟨rfl, rfl⟩
      exact ⟨.function truncating, .function truncating, rfl, rfl, .function truncating⟩
    · intro name
      rw [hNames, hNamesAgain]
      split
      · exact .some ⟨rfl, rfl⟩
      · exact .none
  exact hBetween.isomorphic

/-- A statement that makes arrays, assigns to an element and calls the function. -/
def assigningElement : String := "(x = {int, {2}}, x[1][0] = int(3), x)"

/-- The two sessions give the same value for the statement, and the name that it introduces leads to
the same things in both. -/
theorem evaluate_assigningElement :
    (boundOnce.complete = true ∧ boundAgain.complete = true ∧
      boundOnce.CallsOnly Function.Blind assigningElement) ∧
    boundOnce.store.target? 1 ≠ boundAgain.store.target? 1 ∧
    (∃ v, (boundOnce.evaluate assigningElement).1 = .ok v) ∧
    (boundAgain.evaluate assigningElement).1 = (boundOnce.evaluate assigningElement).1 ∧
      (boundOnce.evaluate assigningElement).2.store.Isomorphic
        (boundAgain.evaluate assigningElement).2.store := by
  have hTame : truncating.Tame := tame_builtin truncating (by simp [Builtin.all, truncating])
  have hReachable : boundOnce.Reachable :=
    .apply (.bare {} (.seeded 0)) (.bindFunction truncating) hTame
  have hReachable' : boundAgain.Reachable := .apply hReachable (.bindFunction truncating) hTame
  have hComplete : boundOnce.complete = true ∧ boundAgain.complete = true := by decide +kernel
  -- the function gives back numbers only, so no other one is ever called
  have hBlind : boundOnce.CallsOnly Function.Blind assigningElement := by
    have hInherited : Function.Inherited (truncating = ·) := by
      rintro f sample args g rfl hReply
      obtain ⟨n, hn⟩ := reply_ofNumber hReply
      cases hn
    have hSame : (Object.function truncating).Within (truncating = ·) := rfl
    have hWithin : boundOnce.store.Within (truncating = ·) :=
      (Store.within_empty (.seeded 0)).define hSame "int"
    refine callsOnly_of_within hWithin hInherited ?_ assigningElement
    rintro f rfl
    exact Function.blind_ofNumber _ _
  have hOk (c : Session) (hRead : (c.load assigningElement).forward.1.toOption = some true)
      (hBuilt : (c.load assigningElement).forward.2.compile.1.toOption = some ())
      (hRan : (c.load assigningElement).forward.2.compile.2.execute.1.toOption.isSome)
      (hLast : (c.load assigningElement).forward.2.compile.2.execute.2.forward.1.toOption =
        some false) : ∃ v, (c.evaluate assigningElement).1 = .ok v := by
    have hAnswer {α : Type} {answer : Except Failure α} {a : α} (h : answer.toOption = some a) :
        answer = .ok a := by
      cases answer <;> cases h
      rfl
    obtain ⟨obj, hObj⟩ := Option.isSome_iff_exists.1 hRan
    rw [(evaluate_eq c assigningElement).1]
    exact ⟨_, runAll_of_last (Prod.ext (hAnswer hRead) rfl) (Prod.ext (hAnswer hBuilt) rfl)
      (Prod.ext (hAnswer hObj) rfl) (hAnswer hLast)⟩
  have hValue := hOk boundOnce (by decide +kernel) (by decide +kernel) (by decide +kernel)
    (by decide +kernel)
  have hValue' := hOk boundAgain (by decide +kernel) (by decide +kernel) (by decide +kernel)
    (by decide +kernel)
  -- a text that has a value has lacked no slot
  have hAfforded {answer : Except Failure Value} (h : ∃ v, answer = .ok v) : Afforded answer := by
    obtain ⟨v, rfl⟩ := h
    rintro e he
    cases he
  exact ⟨⟨hComplete.1, hComplete.2, hBlind⟩, by decide +kernel, hValue,
    evaluate_eq_of_isomorphic hReachable hReachable' hComplete.1 hComplete.2 rfl
      isomorphic_boundAgain assigningElement hBlind (hAfforded hValue) (hAfforded hValue')⟩

end Session

end Reckon
