import Reckon.Proofs.Upkeep
import Reckon.Session

/-!
# The books of a session

A session is used through a few operations, in any order and on any texts. Whatever has been done
with it, and whether it succeeded or failed, the books of its store balance with nothing held but
the result that it retains (`Session.Kept`). The functions that are bound must not make up slots
(`Function.Tame`); the builtin ones do not.
-/

namespace Reckon

namespace Session

/-! ## What may be done -/

/-- What may be done with a session. -/
inductive Operation where
  | load (text : String)
  | forward
  | compile
  | execute
  | evaluate (text : String)
  | bindFunction (f : Function)
  | lookup (name : String)
  | teardown

/-- The session after an operation. A lookup only looks. -/
def Operation.apply (c : Session) : Operation → Session
  | load text => c.load text
  | forward => c.forward.2
  | compile => c.compile.2
  | execute => c.execute.2
  | evaluate text => (c.evaluate text).2
  | bindFunction f => (c.bindFunction f).2
  | lookup _ => c
  | teardown => c.teardown.2

/-- The session after operations, one behind the other. -/
def after (c : Session) (ops : List Operation) : Session := ops.foldl Operation.apply c

/-- A function that is bound is tame. -/
def Operation.Tame : Operation → Prop
  | bindFunction f => f.Tame
  | _ => True

/-- What a session can come to, with or without the builtin functions at the start. -/
inductive Reachable : Session → Prop
  | bare (options : ReaderOptions) (entropy : Entropy) : Reachable (Session.bare options entropy)
  | new (options : ReaderOptions) (entropy : Entropy) : Reachable (Session.new options entropy)
  | apply {c : Session} (hc : Reachable c) (op : Operation) (hOp : op.Tame) :
      Reachable (op.apply c)

/-! ## Stage by stage -/

section Stages

variable {P : Session → Prop}

/-- What the three stages of a statement keep is kept by a whole script. -/
theorem runAll_of_stages (hForward : ∀ c, P c → P c.forward.2)
    (hCompile : ∀ c, P c → P c.compile.2) (hExecute : ∀ c, P c → P c.execute.2) {c : Session}
    (hc : P c) (last : Value) : P (c.runAll last).2 := by
  -- along the recursion: the script ends, or the statement fails to be read, compiled or run, or
  -- all three stages succeed and the rest of the script follows
  fun_induction Session.runAll c last with
  | case1 c last e d hRead | case2 c last d hRead =>
    have hNext := hForward c hc
    rw [hRead] at hNext
    exact hNext
  | case3 c last d hRead e d' hBuilt =>
    have hNext := hForward c hc
    rw [hRead] at hNext
    have hReady := hCompile d hNext
    rw [hBuilt] at hReady
    exact hReady
  | case4 c last d hRead d' hBuilt e d'' hRan =>
    have hNext := hForward c hc
    rw [hRead] at hNext
    have hReady := hCompile d hNext
    rw [hBuilt] at hReady
    have hEnd := hExecute d' hReady
    rw [hRan] at hEnd
    exact hEnd
  | case5 c last d hRead d' hBuilt obj d'' hRan ih =>
    have hNext := hForward c hc
    rw [hRead] at hNext
    have hReady := hCompile d hNext
    rw [hBuilt] at hReady
    have hEnd := hExecute d' hReady
    rw [hRan] at hEnd
    exact ih hEnd

/-- What each of some operations keeps is kept by all of them. -/
theorem after_of_operations {ops : List Operation}
    (hOps : ∀ op ∈ ops, ∀ c, P c → P (op.apply c)) {c : Session} (hc : P c) : P (c.after ops) := by
  -- induction on the operations, with the session left open
  unfold Session.after
  induction ops generalizing c with
  | nil => exact hc
  | cons op ops ih =>
    obtain ⟨hFirst, hRest⟩ := List.forall_mem_cons.1 hOps
    exact ih hRest (hFirst c hc)

/-- What binding a function keeps is kept by binding any number of them. -/
theorem bindAll_of_bindFunction {fs : List Function}
    (hBind : ∀ f ∈ fs, ∀ c, P c → P (c.bindFunction f).2) {c : Session} (hc : P c) :
    P (c.bindAll fs) := by
  unfold Session.bindAll
  induction fs generalizing c with
  | nil => exact hc
  | cons f fs ih =>
    obtain ⟨hFirst, hRest⟩ := List.forall_mem_cons.1 hBind
    exact ih hRest (hFirst c hc)

end Stages

section Unchanged

variable (c : Session)

/-- Reading leaves the script, the store and the result alone. -/
theorem forward_unchanged :
    c.forward.2.script = c.script ∧ c.forward.2.store = c.store ∧
      c.forward.2.result = c.result := by
  unfold Session.forward
  dsimp only
  split <;> exact ⟨rfl, rfl, rfl⟩

/-- Loading a text leaves the store and the result alone. -/
theorem load_unchanged (text : String) :
    (c.load text).store = c.store ∧ (c.load text).result = c.result := by
  unfold Session.load
  split <;> exact ⟨rfl, rfl⟩

/-- Compiling leaves the store alone. -/
theorem compile_store : c.compile.2.store = c.store := by
  unfold Session.compile
  split
  · split <;> rfl
  · rfl

/-- Compiling leaves the script alone. -/
theorem compile_script : c.compile.2.script = c.script := by
  unfold Session.compile
  split
  · split <;> rfl
  · rfl

/-- Running leaves the script alone. -/
theorem execute_script : c.execute.2.script = c.script := by
  unfold Session.execute
  split
  · dsimp only [settle]
    split <;> rfl
  · rfl

/-- The script is that of the text that was loaded last, whatever becomes of its statements. -/
theorem runAll_script (last : Value) : (c.runAll last).2.script = c.script :=
  runAll_of_stages (P := fun d => d.script = c.script)
    (fun d h => (forward_unchanged d).1.trans h) (fun d h => (compile_script d).trans h)
    (fun d h => (execute_script d).trans h) rfl last

/-- Reading leaves the limits alone. -/
theorem forward_options : c.forward.2.options = c.options := by
  unfold Session.forward
  dsimp only
  split <;> rfl

/-- Compiling leaves the limits alone. -/
theorem compile_options : c.compile.2.options = c.options := by
  unfold Session.compile
  split
  · split <;> rfl
  · rfl

theorem settle_options (answer : Except Failure Object) (s : Store) :
    (c.settle answer s).2.options = c.options := by
  cases answer <;> rfl

/-- Running leaves the limits alone. -/
theorem execute_options : c.execute.2.options = c.options := by
  unfold Session.execute
  split
  · exact settle_options ..
  · rfl

theorem load_options (text : String) : (c.load text).options = c.options := by
  unfold Session.load
  split <;> rfl

/-- Evaluating a text leaves the limits alone. -/
theorem evaluate_options (text : String) : (c.evaluate text).2.options = c.options := by
  -- the text is loaded, and all of its statements go through the three stages
  have hRan : ((c.load text).runAll .nil).2.options = c.options :=
    runAll_of_stages (P := fun d => d.options = c.options)
      (fun d h => (forward_options d).trans h) (fun d h => (compile_options d).trans h)
      (fun d h => (execute_options d).trans h) (load_options c text) .nil
  unfold Session.evaluate
  generalize (c.load text).runAll .nil = answer at hRan
  obtain ⟨_ | _, d⟩ := answer <;> exact hRan

/-- No operation changes the limits that a session reads with. -/
theorem Operation.apply_options (op : Operation) : (op.apply c).options = c.options := by
  cases op with
  | load text => exact load_options c text
  | forward => exact forward_options c
  | compile => exact compile_options c
  | execute => exact execute_options c
  | evaluate text => exact evaluate_options c text
  | bindFunction f => rfl
  | lookup name => rfl
  | teardown => rfl

/-- The limits that a session reads with are set once and for all. -/
theorem after_options (ops : List Operation) : (c.after ops).options = c.options :=
  after_of_operations (P := fun d => d.options = c.options)
    (fun op _ d h => (op.apply_options d).trans h) rfl

theorem bindAll_options (fs : List Function) : (c.bindAll fs).options = c.options :=
  bindAll_of_bindFunction (P := fun d => d.options = c.options) (fun _ _ _ h => h) rfl

end Unchanged

/-! ## What is kept -/

/-- What a session holds: its result. -/
def held (c : Session) : Multiset Object :=
  match c.result with
  | some obj => {obj}
  | none => 0

/-- The invariant of a session. -/
structure Kept (c : Session) : Prop where
  /-- The books balance with the result in hand. -/
  store : c.store.Keeps c.held
  /-- Functions do not make up slots. -/
  tame : c.store.Within Function.Tame
  /-- The program that waits has passed the check. -/
  program : ∀ p, c.program = some p → ∃ code, Program.ofPostfix code = .ok p
  /-- The result shares a literal or is nothing. -/
  result : ∀ obj, c.result = some obj → ∃ target, obj = Store.handleOf target

variable {c : Session}

/-- Nothing is held at the start, and no program waits. -/
theorem kept_bare (options : ReaderOptions) (entropy : Entropy) : (bare options entropy).Kept where
  store := Store.keeps_empty entropy
  tame := Store.within_empty entropy
  program p hp := by cases hp
  result obj hObj := by cases hObj

/-- Parts of a session that the invariant is not about. -/
theorem Kept.of_eq {d : Session} (hc : c.Kept) (hStore : d.store = c.store)
    (hResult : d.result = c.result) (hProgram : ∀ p, d.program = some p → c.program = some p) :
    d.Kept := by
  obtain ⟨hKeeps, hTame, hChecked, hHandle⟩ := hc
  refine ⟨?_, by rw [hStore]; exact hTame, fun p hp => hChecked p (hProgram p hp), ?_⟩
  · unfold held at hKeeps ⊢
    rw [hStore, hResult]
    exact hKeeps
  · rw [hResult]
    exact hHandle

/-- Loading a text keeps the books. -/
theorem Kept.load (hc : c.Kept) (text : String) : (c.load text).Kept := by
  unfold Session.load
  split <;> exact hc.of_eq rfl rfl fun _ hp => hp

/-- Reading keeps the books: it drops the program, if one waited, and leaves the store alone. -/
theorem Kept.forward (hc : c.Kept) : c.forward.2.Kept := by
  unfold Session.forward
  dsimp only
  split <;> exact hc.of_eq rfl rfl fun _ hp => by cases hp

/-- Compiling keeps the books, and the program that waits then has passed the check. -/
theorem Kept.compile (hc : c.Kept) : c.compile.2.Kept := by
  unfold Session.compile
  split
  · split
    · rename_i program hProgram
      refine ⟨hc.store, hc.tame, ?_, hc.result⟩
      intro p hp
      cases hp
      unfold Program.ofTokens at hProgram
      split at hProgram
      · cases hProgram
      · exact ⟨_, hProgram⟩
    · exact hc.of_eq rfl rfl fun _ hp => by cases hp
  · exact hc

/-- Binding a function keeps the books, if the function is tame. -/
theorem Kept.bindFunction {f : Function} (hc : c.Kept) (hf : f.Tame) :
    (c.bindFunction f).2.Kept := by
  -- a function in hand owns nothing and counts on nothing
  have hPlain : (Object.function f).Plain := ⟨rfl, rfl, by simp⟩
  have hFits : (Object.function f).Within Function.Tame := hf
  have hKeeps := hc.store.define hPlain f.name
  have hTame := hc.tame.define hFits f.name
  unfold Session.bindFunction
  generalize c.store.define f.name (.function f) = answer at hKeeps hTame
  exact ⟨hKeeps, hTame, hc.program, hc.result⟩

/-! ## Running -/

/-- Without its result a session holds nothing. -/
theorem Kept.storeWithoutResult (hc : c.Kept) :
    c.storeWithoutResult.Keeps 0 ∧ c.storeWithoutResult.Within Function.Tame := by
  have hKeeps := hc.store
  unfold held at hKeeps
  unfold Session.storeWithoutResult
  cases hResult : c.result with
  | none =>
    rw [hResult] at hKeeps
    exact ⟨hKeeps, hc.tame⟩
  | some obj =>
    rw [hResult] at hKeeps
    -- the result was in hand, and is given up
    exact ⟨Store.Keeps.release hKeeps, hc.tame.release obj⟩

/-- What a statement leaves: a handle on its result, if it has one, and no literal that nobody holds
on to. -/
theorem keeps_runProgram {code : List Instruction} {p : Program} {s : Store}
    (hp : Program.ofPostfix code = .ok p) (hs : s.Keeps 0) (hTame : s.Within Function.Tame)
    (script : String) :
    (runProgram p script s).2.KeepsAnswer (runProgram p script s).1 0 ∧
      (runProgram p script s).2.Within Function.Tame ∧
      (∀ obj, (runProgram p script s).1 = .ok obj → ∃ target, obj = Store.handleOf target) ∧
      (runProgram p script s).2.queue = [] ∧
      ∀ l lit, (runProgram p script s).2.literal? l = some lit → lit.refs ≠ 0 := by
  have hRun := Program.keeps_run hp hs hTame script
  have hWithin := hTame.run Function.inherited_tame p.code script
  change (p.run script s).2.Within Function.Tame ∧
    ∀ obj, (p.run script s).1 = .ok obj → obj.Within Function.Tame at hWithin
  unfold runProgram
  cases hEq : p.run script s with
  | mk answer t =>
    rw [hEq] at hRun hWithin
    cases answer with
    | error e =>
      -- nothing is held after a failure
      have hKeeps : t.Keeps 0 := hRun
      obtain ⟨hSwept, hQueue, hHeld⟩ := hKeeps.sweep
      exact ⟨hSwept, hWithin.1.sweep, by simp, hQueue, hHeld⟩
    | ok obj =>
      -- a read-only handle takes the place of the result
      have hKeeps : t.Keeps (obj ::ₘ 0) := hRun
      obtain ⟨target, u, hMade, hHandle⟩ := hKeeps.materialize_readOnly
      have hFits := hWithin.1.materialize (hWithin.2 obj rfl) (t.request obj false)
      dsimp only
      rw [hMade] at hFits ⊢
      obtain ⟨hSwept, hQueue, hHeld⟩ := hHandle.sweep
      refine ⟨hSwept, hFits.sweep, ?_, hQueue, hHeld⟩
      intro obj' hObj
      cases hObj
      exact ⟨target, rfl⟩

/-- What a run has left is what the session keeps: the result, or nothing. -/
theorem Kept.settle {answer : Except Failure Object} {t : Store} (hAnswer : t.KeepsAnswer answer 0)
    (hTame : t.Within Function.Tame)
    (hHandle : ∀ obj, answer = .ok obj → ∃ target, obj = Store.handleOf target) :
    (c.settle answer t).2.Kept := by
  -- either way the program is dropped
  cases answer with
  | ok obj =>
    refine ⟨hAnswer, hTame, ?_, ?_⟩
    · intro p hp
      cases hp
    · intro x hx
      cases hx
      exact hHandle _ rfl
  | error e =>
    refine ⟨hAnswer, hTame, ?_, ?_⟩
    · intro p hp
      cases hp
    · intro x hx
      cases hx

/-- A session says what the run has said. -/
theorem settle_answer (c : Session) (answer : Except Failure Object) (t : Store) :
    (c.settle answer t).1 = answer := by
  cases answer <;> rfl

/-- A session keeps the store that the run has left. -/
theorem settle_store (c : Session) (answer : Except Failure Object) (t : Store) :
    (c.settle answer t).2.store = t := by
  cases answer <;> rfl

/-- A program that waits is run without the result of the statement before. -/
theorem execute_of_waiting {p : Program} (hPhase : c.phase = .waiting) (hp : c.program = some p) :
    c.execute = c.settle (runProgram p c.script c.storeWithoutResult).1
      (runProgram p c.script c.storeWithoutResult).2 := by
  unfold Session.execute
  rw [hPhase, hp]

/-- **Running keeps the books**, whether a program waits or not, and whether it fails or not. -/
theorem Kept.execute (hc : c.Kept) : c.execute.2.Kept := by
  by_cases hReady : c.phase = .waiting ∧ ∃ p, c.program = some p
  · -- a program waits, and it was checked when it was compiled
    obtain ⟨hPhase, p, hp⟩ := hReady
    obtain ⟨code, hChecked⟩ := hc.program p hp
    obtain ⟨hKeeps, hTame⟩ := hc.storeWithoutResult
    obtain ⟨hAnswer, hWithin, hHandle, -⟩ := keeps_runProgram hChecked hKeeps hTame c.script
    rw [execute_of_waiting hPhase hp]
    exact .settle hAnswer hWithin hHandle
  · -- a call at the wrong time changes nothing
    unfold Session.execute
    split
    · rename_i p hPhase hp
      exact absurd ⟨hPhase, p, hp⟩ hReady
    · exact hc

/-- Behind a run no literal is left that nobody holds on to. -/
theorem Kept.execute_swept {p : Program} (hc : c.Kept) (hPhase : c.phase = .waiting)
    (hp : c.program = some p) :
    c.execute.2.store.queue = [] ∧
      ∀ l lit, c.execute.2.store.literal? l = some lit → lit.refs ≠ 0 := by
  obtain ⟨code, hChecked⟩ := hc.program p hp
  obtain ⟨hKeeps, hTame⟩ := hc.storeWithoutResult
  obtain ⟨-, -, -, hSwept⟩ := keeps_runProgram hChecked hKeeps hTame c.script
  rw [execute_of_waiting hPhase hp, settle_store]
  exact hSwept

/-- Running a whole script keeps the books. -/
theorem Kept.runAll (hc : c.Kept) (last : Value) : (c.runAll last).2.Kept :=
  runAll_of_stages (fun _ h => h.forward) (fun _ h => h.compile) (fun _ h => h.execute) hc last

/-- Evaluating a text keeps the books. -/
theorem Kept.evaluate (hc : c.Kept) (text : String) : (c.evaluate text).2.Kept := by
  have hRan := (hc.load text).runAll .nil
  unfold Session.evaluate
  cases hEq : (c.load text).runAll .nil with
  | mk answer d =>
    rw [hEq] at hRan
    cases answer with
    | ok v => exact hRan
    -- after a failure the rest of the script is dropped, which the books do not speak of
    | error e => exact hRan.of_eq rfl rfl fun _ hp => hp

/-- Nothing is held after a teardown. -/
theorem Kept.teardown (hc : c.Kept) : c.teardown.2.Kept where
  store := hc.storeWithoutResult.1.teardown
  tame := Store.within_teardown _
  program p hp := by cases hp
  result obj hObj := by cases hObj

/-! ## Everything that may be done -/

/-- From a function that gives back numbers no other function can be had. -/
theorem eq_of_yields {f g : Function}
    (h : ∀ sample args reply, f.body sample args = .ok reply → ∃ n, reply = .number n)
    (hg : f.Yields g) : g = f := by
  -- the only replies are numbers, so no reply is a function
  induction hg with
  | self => rfl
  | reply _ hReply ih =>
    rw [ih] at hReply
    obtain ⟨n, hn⟩ := h _ _ _ hReply
    cases hn

/-- A function that gives back numbers is tame. -/
theorem tame_of_numbers {f : Function}
    (h : ∀ sample args reply, f.body sample args = .ok reply → ∃ n, reply = .number n) :
    f.Tame := by
  intro g hg sample args id hReply
  rw [eq_of_yields h hg] at hReply
  obtain ⟨n, hn⟩ := h _ _ _ hReply
  cases hn

/-- A function of one number gives back a number. -/
theorem reply_ofNumber {name : String} {f : Number → Except Failure Number} {sample : Float}
    {args : List Argument} {reply : Reply Function}
    (hReply : (Builtin.ofNumber name f).body sample args = .ok reply) : ∃ n, reply = .number n := by
  unfold Builtin.ofNumber at hReply
  dsimp only at hReply
  -- one argument, which is a number, on which `f` succeeds: all other cases are failures
  split at hReply
  · split at hReply
    · rename_i n _
      cases hf : f n with
      | error e => simp [hf, Except.map] at hReply
      | ok m =>
        simp only [hf, Except.map, Except.ok.injEq] at hReply
        exact ⟨m, hReply.symm⟩
    · cases hReply
  · cases hReply

/-- A fold over numbers gives back a number. -/
theorem reply_folding {name : String} {start : Float} {f : Float → Float → Float} {sample : Float}
    {args : List Argument} {reply : Reply Function}
    (hReply : (Builtin.folding name start f).body sample args = .ok reply) :
    ∃ n, reply = .number n := by
  unfold Builtin.folding at hReply
  dsimp only at hReply
  split at hReply
  · cases hReply
  · split at hReply
    · cases hReply
    · cases hReply
      exact ⟨_, rfl⟩

/-- The builtin functions give back numbers. -/
theorem reply_builtin : ∀ f ∈ Builtin.all, ∀ sample args reply,
    f.body sample args = .ok reply → ∃ n, reply = .number n := by
  have hSlotNumber (sample : Float) (args : List Argument) (reply : Reply Function)
      (hReply : Builtin.slotNumber.body sample args = .ok reply) : ∃ n, reply = .number n := by
    unfold Builtin.slotNumber at hReply
    dsimp only at hReply
    split at hReply
    · cases hReply
      exact ⟨_, rfl⟩
    · cases hReply
  have hRandom (sample : Float) (args : List Argument) (reply : Reply Function)
      (hReply : Builtin.random.body sample args = .ok reply) : ∃ n, reply = .number n := by
    cases hReply
    exact ⟨_, rfl⟩
  intro f hf
  -- each builtin function is of one of four kinds
  simp only [Builtin.all, List.mem_cons, List.not_mem_nil, or_false] at hf
  rcases hf with rfl | rfl | rfl | rfl | rfl | rfl | rfl | rfl | rfl | rfl | rfl | rfl | rfl |
    rfl | rfl
  · exact hSlotNumber
  all_goals first
    | exact fun _ _ _ => reply_ofNumber
    | exact fun _ _ _ => reply_folding
    | exact hRandom

/-- No builtin function makes up a slot. -/
theorem tame_builtin : ∀ f ∈ Builtin.all, f.Tame :=
  fun f hf => tame_of_numbers (reply_builtin f hf)

/-- Binding tame functions keeps the books. -/
theorem Kept.bindAll (hc : c.Kept) {fs : List Function} (hTame : ∀ f ∈ fs, f.Tame) :
    (c.bindAll fs).Kept :=
  bindAll_of_bindFunction (fun f hf _ h => h.bindFunction (hTame f hf)) hc

/-- Every operation keeps the books. -/
theorem Kept.apply (hc : c.Kept) {op : Operation} (hOp : op.Tame) : (op.apply c).Kept := by
  cases op with
  | load text => exact hc.load text
  | forward => exact hc.forward
  | compile => exact hc.compile
  | execute => exact hc.execute
  | evaluate text => exact hc.evaluate text
  | bindFunction f => exact hc.bindFunction hOp
  | lookup name => exact hc
  | teardown => exact hc.teardown

/-- The books of a session balance, whatever has been done with it. -/
theorem Reachable.kept (hc : c.Reachable) : c.Kept := by
  -- induction on how the session was reached
  induction hc with
  | bare options entropy => exact kept_bare options entropy
  | new options entropy => exact (kept_bare options entropy).bindAll tame_builtin
  | apply _ op hOp ih => exact ih.apply hOp

/-! ## The ledger -/

/-- Whether the retained result is a read-only handle on the literal. -/
def sharesResult (c : Session) (l : LiteralId) : Bool :=
  match c.result with
  | some (.readOnly k) => k == l
  | _ => false

/-- The ledger of a session, spelled out. -/
structure Ledger (c : Session) : Prop where
  /-- A literal is counted once for each slot that points at it, and once more if the result shares
  it. -/
  counted : ∀ l lit, c.store.literal? l = some lit →
    lit.refs = c.store.slotsOn l + if c.sharesResult l then 1 else 0
  /-- Every slot in use points at a literal that is there, or at nothing. -/
  backed : ∀ id l, c.store.target? id = some l → ∃ lit, c.store.literal? l = some lit
  /-- Every slot in use has one owner: a name, or a position of an array in a literal. -/
  owned : ∀ id slot, c.store.slot? id = some slot → ∃! o, c.store.Owns id o
  /-- When a program waits, running it leaves nothing to reclaim, whether it succeeds or fails. -/
  swept : ∀ p, c.phase = .waiting → c.program = some p →
    c.execute.2.store.queue = [] ∧
      ∀ l lit, c.execute.2.store.literal? l = some lit → lit.refs ≠ 0
  /-- Nothing has ever been given up that nobody held on to. -/
  solvent : c.store.overdrawn = false

/-- What is in hand counts on a literal once if the result shares it, and not otherwise. -/
theorem Kept.count_handles (hc : c.Kept) (l : LiteralId) :
    (c.held.bind Object.counts).count l = if c.sharesResult l then 1 else 0 := by
  unfold held sharesResult
  cases hResult : c.result with
  | none => simp
  | some obj =>
    obtain ⟨target, rfl⟩ := hc.result obj hResult
    cases target with
    -- a result that is nothing counts on no literal, and any other on one
    | none => simp [Store.handleOf, Object.counts]
    | some k =>
      by_cases hk : k = l
      · simp [Store.handleOf, Object.counts, hk]
      · have hOther : l ≠ k := fun hEq => hk hEq.symm
        simp [Store.handleOf, Object.counts, hk, hOther]

/-- The result owns no slot. -/
theorem Kept.owns_nothing (hc : c.Kept) : c.held.bind Object.owns = 0 := by
  unfold held
  cases hResult : c.result with
  | none => rfl
  | some obj =>
    obtain ⟨target, rfl⟩ := hc.result obj hResult
    simp [Store.owns_handleOf]

/-- **The ledger is right after every sequence of operations**, whatever succeeded and whatever
failed on the way. -/
theorem ledger_of_reachable {c : Session} (hc : c.Reachable) : c.Ledger := by
  have hKept := hc.kept
  -- a retained result owns no slot
  have hBalanced := hKept.store.balanced
  rw [hKept.owns_nothing] at hBalanced
  refine ⟨?_, ?_, ?_, ?_, hBalanced.solvent⟩
  · intro l lit hl
    -- a literal is counted by the slots on it and by what is in hand
    rw [hBalanced.counted l lit hl, Multiset.count_add, Store.count_pointed,
      hKept.count_handles]
  · intro id l hTarget
    exact hBalanced.live_of_target? hTarget
  · intro id slot hSlot
    exact hBalanced.existsUnique_owner hSlot
  · intro p hPhase hp
    exact hKept.execute_swept hPhase hp

/-- A session after a script that binds an array twice and then fails. -/
theorem ledger_evaluate :
    (Operation.apply (new {} (.seeded 0)) (.evaluate "a = {1, 2}; b = a; b[2]")).Ledger :=
  ledger_of_reachable (.apply (.new {} (.seeded 0)) (.evaluate "a = {1, 2}; b = a; b[2]") trivial)

end Session

end Reckon
