import Reckon.Proofs.Joining
import Reckon.Proofs.Pointing

/-!
# Failures point into the statement that fails

When a text is evaluated and one of its statements fails, the failure points at a lexeme of that
statement, whatever the session has been through before and whatever the text looks like.

* The statement that a session reads next is the first piece ahead that has any tokens
  (`Session.statement?`). If it cannot be read the failure is that of its first token at fault, and
  if it can the session has its tokens at hand (`Session.Located.statement`).
* The tokens of a piece select a part of the script, at the place where the piece stands
  (`Session.Located.selects`).
* A session that evaluates a text runs its statements to their ends (`Session.Completes`) until one
  fails, in one of three stages (`Session.Blames`), and the failure is pinned to a token of that one
  (`Session.Pinned`). This is `Session.Located.exists_pinned`.
* A session that has dropped the rest of a text has lost count of its rows, but nothing is left that
  it could read (`Session.Spent`). It starts to count anew with the next text (`Session.Ready`).

Functions that are bound must leave it to the machine where their failures point
(`Function.Silent`). The builtin ones do.
-/

namespace Reckon

/-! ## Parts of a script -/

/-- The span is a part of the script that is not empty, between two places between characters. -/
structure Span.Within (s : Span) (script : String) : Prop where
  some : s.start < s.stop
  stop_le : s.stop ≤ script.utf8ByteSize
  starts : (script.pos? ⟨s.start⟩).isSome
  stops : (script.pos? ⟨s.stop⟩).isSome

/-- What selects some of a script is a part of it. -/
theorem Span.Selects.within {s : Span} {script : String} (h : s.Selects script) :
    s.Within script := by
  have hLe := h.stop_le
  obtain ⟨cs, hSome, pre, post, hScript, hStart, hStop⟩ := h
  have hPos : byteLength cs ≠ 0 := mt eq_nil_of_byteLength hSome
  refine ⟨by omega, hLe, isSome_pos?_iff.2 ⟨cs ++ post, ?_⟩, isSome_pos?_iff.2 ⟨post, ?_⟩⟩
  · exact charsFrom?_eq_some_iff_toList.2 ⟨pre, hScript, hStart⟩
  · refine charsFrom?_eq_some_iff_toList.2 ⟨pre ++ cs, by rw [hScript, List.append_assoc], ?_⟩
    rw [byteLength_append]
    omega

/-- The tokens of a part of a script select what they were made of. -/
theorem selects_of_mem_tokensFrom {script : String} {pre cs post : List Char} {offset : Nat}
    {t : Token} (hScript : script.toList = pre ++ (cs ++ post)) (hBytes : byteLength pre = offset)
    (ht : t ∈ tokensFrom offset cs) : t.span.Selects script := by
  obtain ⟨c, rest, -, -, hCovers⟩ := exists_lexeme_of_mem_tokensFrom hScript hBytes ht
  exact ⟨_, List.cons_ne_nil _ _, hCovers⟩

/-! ## Work and the statement it comes from -/

/-- What a piece with tokens comes to: the failure of its first token at fault, or its tokens with
their meanings. -/
theorem Piece.work_cases (options : ReaderOptions) (script : String) {p : Piece}
    (hSome : p.tokens ≠ []) :
    (∃ first more, allFaults options [] p.tokens = first :: more ∧
      p.work options script = some (.error (refusalAt options script first (more.length + 1)))) ∨
    p.work options script = some (.ok (signs none p.tokens)) := by
  unfold Piece.work Piece.reading
  cases hFaults : allFaults options [] p.tokens with
  | cons first more => exact .inl ⟨first, more, rfl, rfl⟩
  | nil =>
    obtain ⟨t, ts, hTokens⟩ := List.exists_cons_of_ne_nil hSome
    rw [hTokens]
    exact .inr rfl

/-- The first work comes from the first piece with tokens. -/
theorem head?_filterMap_work (options : ReaderOptions) (script : String) (ps : List Piece) :
    (ps.filterMap (Piece.work options script)).head? =
      (ps.find? fun p => !p.tokens.isEmpty).bind (Piece.work options script) := by
  induction ps with
  | nil => rfl
  | cons p ps ih =>
    rw [List.filterMap_cons, List.find?_cons]
    by_cases hNone : p.tokens = []
    · -- there is nothing in it to read
      have hWork : p.work options script = none := by
        unfold Piece.work Piece.reading
        rw [hNone]
        rfl
      rw [hWork, hNone]
      exact ih
    · have hSome : (!p.tokens.isEmpty) = true := by simpa using hNone
      rw [hSome]
      rcases Piece.work_cases options script hNone with ⟨first, more, -, hWork⟩ | hWork <;>
        rw [Option.bind_some, hWork] <;> rfl

/-- A token with its meaning stands where the token stands. -/
theorem exists_mem_of_mem_signs {previous : Option Token} {ts : List Token} {t : Token}
    (h : t ∈ signs previous ts) : ∃ u ∈ ts, u.span = t.span := by
  induction ts generalizing previous with
  | nil => cases h
  | cons u ts ih =>
    rcases List.mem_cons.1 h with rfl | hRest
    · exact ⟨u, List.mem_cons_self .., (span_signed previous u).symm⟩
    · obtain ⟨v, hv, hSpan⟩ := ih hRest
      exact ⟨v, List.mem_cons_of_mem _ hv, hSpan⟩

namespace Session

variable {c d : Session} {e : Failure} {last : Value} {P : Function → Prop}

/-! ## The next statement -/

/-- The pieces of the text that has not been read. -/
def ahead (c : Session) : List Piece := locate c.cursor (c.unread.splitOn ';')

/-- The statement that is read next: the first piece that has any tokens. -/
def statement? (c : Session) : Option Piece := c.ahead.find? fun p => !p.tokens.isEmpty

/-- A session that counts along faces the work of the pieces ahead. -/
theorem Located.faces (h : c.Located) :
    c.Faces (c.ahead.filterMap (Piece.work c.options c.script)) := by
  have hBefore : c.reader.Before c.options c.script (c.unread.splitOn ';') :=
    ⟨rfl, h, fun _ => rfl, (List.intercalate_splitOn ';').symm, fun _ => not_mem_of_mem_splitOn⟩
  exact ⟨_, hBefore, (workFrom_eq c.options c.script c.cursor hBefore.clean).symm⟩

/-- **What is read is the next statement.** If it is refused, that is because of its first token at
fault. -/
theorem Located.statement (h : c.Located) :
    (c.forward.1 = .ok false ∧ c.statement? = none) ∨
    ∃ p, c.statement? = some p ∧
      ((∃ first more, allFaults c.options [] p.tokens = first :: more ∧
          c.forward.1 = .error (refusalAt c.options c.script first (more.length + 1))) ∨
        c.forward.1 = .ok true ∧ c.forward.2.tokens = signs none p.tokens) := by
  obtain ⟨hAnswer, hTokens, -⟩ := h.faces.forward
  rw [head?_filterMap_work] at hAnswer hTokens
  change c.forward.1 = answerOf (c.statement?.bind _) at hAnswer
  change c.forward.2.tokens = tokensOf (c.statement?.bind _) at hTokens
  cases hp : c.statement? with
  | none =>
    rw [hp] at hAnswer
    exact .inl ⟨hAnswer, rfl⟩
  | some p =>
    -- a piece with tokens is a statement, and what it comes to depends on its faults
    have hSome : p.tokens ≠ [] := by simpa using List.find?_some hp
    rw [hp, Option.bind_some] at hAnswer hTokens
    refine .inr ⟨p, rfl, ?_⟩
    rcases Piece.work_cases c.options c.script hSome with ⟨first, more, hFaults, hWork⟩ | hWork <;>
      rw [hWork] at hAnswer hTokens
    · exact .inl ⟨first, more, hFaults, hAnswer⟩
    · exact .inr ⟨hAnswer, hTokens⟩

/-- The tokens of the pieces ahead are lexemes of the script, and none is white space. -/
theorem Located.exists_lexeme (h : c.Located) {p : Piece} (hp : p ∈ c.ahead) {t : Token}
    (ht : t ∈ p.tokens) : t.kind.isSpace = false ∧
      ∃ ch rest, t.kind = (classify ch rest).1 ∧
        t.span.Covers c.script (ch :: rest.take (classify ch rest).2) := by
  obtain ⟨pre, hScript, hBytes, -, -⟩ := h
  obtain ⟨-, front, behind, hText, hStart⟩ := exists_append_of_mem_locate hp
  rw [List.intercalate_splitOn] at hText
  change c.script.toList = pre ++ c.unread at hScript
  change byteLength pre = c.cursor at hBytes
  rw [hText, ← List.append_assoc] at hScript
  rw [Piece.tokens_eq] at ht
  -- white space is no token of the piece
  obtain ⟨hMem, hSpace⟩ := List.mem_filter.1 ht
  -- in front of the piece lies what has been read, and the other pieces
  have hFront : byteLength (pre ++ front) = p.start := by
    rw [byteLength_append, hBytes, hStart]
  obtain ⟨ch, rest, -, hKind, hCovers⟩ := exists_lexeme_of_mem_tokensFrom hScript hFront hMem
  exact ⟨by simpa using hSpace, ch, rest, hKind, hCovers⟩

/-- The tokens of the pieces ahead select parts of the script. -/
theorem Located.selects (h : c.Located) {p : Piece} (hp : p ∈ c.ahead) {t : Token}
    (ht : t ∈ p.tokens) : t.span.Selects c.script := by
  obtain ⟨-, ch, rest, -, hCovers⟩ := h.exists_lexeme hp ht
  exact ⟨_, List.cons_ne_nil _ _, hCovers⟩

/-! ## The statement that fails -/

/-- How the next statement fails, and the token to blame for it. -/
inductive Blames (c : Session) (p : Piece) (e : Failure) (t : Token) : Prop
  /-- The statement cannot be read, and the token is the first one at fault. -/
  | unread {cause : SyntaxFault} {more : List (Token × SyntaxFault)}
      (hFaults : allFaults c.options [] p.tokens = (t, cause) :: more) (hCause : e.fault = cause)
      (hRefused : c.forward.1 = .error e)
  /-- The statement has been read, with this token in it, and does not compile. -/
  | unbuilt {c₁ : Session} (hRead : c.forward = (.ok true, c₁))
      (hToken : ∃ u ∈ c₁.tokens, u.span = t.span) (hRefused : c₁.compile.1 = .error e)
  /-- The statement has been read, with this token in it, and compiled, and its run fails. -/
  | unfinished {c₁ c₂ : Session} (hRead : c.forward = (.ok true, c₁))
      (hToken : ∃ u ∈ c₁.tokens, u.span = t.span) (hBuilt : c₁.compile = (.ok (), c₂))
      (hFailed : c₂.execute.1 = .error e)

/-- The failure points at the token of the next statement that is to blame for it. -/
def Pinned (c : Session) (e : Failure) : Prop :=
  ∃ p t, c.statement? = some p ∧ t ∈ p.tokens ∧ c.Blames p e t ∧ e.span = some t.span ∧
    t.span.Within c.script

/-- The tokens of the next statement are parts of the script. -/
theorem Located.within (h : c.Located) {p : Piece} (hp : c.statement? = some p) {t : Token}
    (ht : t ∈ p.tokens) : t.span.Within c.script :=
  (h.selects (List.mem_of_find?_eq_some hp) ht).within

/-- A statement that cannot be read is refused for its first token at fault. -/
theorem Located.pinned_of_forward (h : c.Located) (hRefused : c.forward.1 = .error e) :
    c.Pinned e := by
  rcases h.statement with ⟨hNone, -⟩ | ⟨p, hp, ⟨first, more, hFaults, hAnswer⟩ | ⟨hRead, -⟩⟩
  · rw [hRefused] at hNone
    cases hNone
  · -- the first fault of the piece is the one that is reported
    rw [hRefused] at hAnswer
    cases hAnswer
    have hFirst : first.1 ∈ p.tokens :=
      mem_of_mem_allFaults (by rw [hFaults]; exact List.mem_cons_self ..)
    exact ⟨p, first.1, hp, hFirst, .unread hFaults rfl hRefused, rfl, h.within hp hFirst⟩
  · rw [hRefused] at hRead
    cases hRead

/-- The tokens at hand behind a statement that was read: they can be written, and stand where the
tokens of the piece stand. -/
theorem Located.tokens_of_forward (h : c.Located) (hRead : c.forward = (.ok true, d)) :
    d.tokens ≠ [] ∧ (∀ t ∈ d.tokens, t.kind.isWritten = true) ∧
      ∃ p, c.statement? = some p ∧ ∀ t ∈ d.tokens, ∃ u ∈ p.tokens, u.span = t.span := by
  have hAnswer : c.forward.1 = .ok true := by rw [hRead]
  obtain ⟨-, hWritten, -⟩ := Reader.maintains_isWritten.nextStatement (r := c.reader) trivial
  rcases h.statement with ⟨hNone, -⟩ | ⟨p, hp, ⟨first, more, -, hRefused⟩ | ⟨-, hTokens⟩⟩
  · rw [hAnswer] at hNone
    cases hNone
  · rw [hAnswer] at hRefused
    cases hRefused
  -- the session has been given a statement, and tokens that can be written
  rcases c.forward_cases with ⟨e, -, hEq⟩ | ⟨-, hEq⟩ | ⟨t, ts, hGiven, hEq⟩ <;>
    rw [hRead] at hEq hTokens <;> cases hEq
  refine ⟨List.cons_ne_nil _ _, hWritten _ hGiven, p, hp, fun u hu => ?_⟩
  change t :: ts = signs none p.tokens at hTokens
  exact exists_mem_of_mem_signs (hTokens ▸ hu)

/-- A failure that points at a token at hand points at a token of the piece. -/
theorem Located.pinned_of_token {t : Token} (h : c.Located) (hRead : c.forward = (.ok true, d))
    (ht : t ∈ d.tokens) (hSpan : e.span = some t.span)
    (hBlames : ∀ p u, u.span = t.span → c.Blames p e u) : c.Pinned e := by
  obtain ⟨-, -, p, hp, hSame⟩ := h.tokens_of_forward hRead
  obtain ⟨u, hu, hThere⟩ := hSame t ht
  refine ⟨p, u, hp, hu, hBlames p u hThere, ?_, h.within hp hu⟩
  rw [hSpan, hThere]

/-- A statement that does not compile is refused at one of its tokens. -/
theorem Located.pinned_of_compile (h : c.Located) (hRead : c.forward = (.ok true, d))
    (hRefused : d.compile.1 = .error e) : c.Pinned e := by
  obtain ⟨hSome, hWritten, -⟩ := h.tokens_of_forward hRead
  obtain ⟨t, ht, hSpan⟩ :=
    exists_token_of_compile (unbuilt_of_forward hRead) hSome hWritten hRefused
  refine h.pinned_of_token hRead ht hSpan fun p u hu => ?_
  exact .unbuilt hRead ⟨t, ht, hu.symm⟩ hRefused

/-- Silent functions point no failures. -/
theorem not_pointedByCall (hSilent : c.store.Within Function.Silent) : ¬ c.PointedByCall e :=
  fun h => Failure.not_raisedBy_silent (h.raisedBy hSilent Function.inherited_silent)

/-- A run that fails has failed at one of the tokens, or a function has pointed somewhere else. -/
theorem Located.pinned_of_execute {c₁ c₂ : Session} (h : c.Located)
    (hRead : c.forward = (.ok true, c₁)) (hBuilt : c₁.compile = (.ok (), c₂))
    (hFailed : c₂.execute.1 = .error e) : c.Pinned e ∨ c.PointedByCall e := by
  rcases exists_token_of_execute hBuilt hFailed with ⟨t, ht, hSpan⟩ | hPointed
  · refine .inl (h.pinned_of_token hRead ht hSpan fun p u hu => ?_)
    exact .unfinished hRead ⟨t, ht, hu.symm⟩ hBuilt hFailed
  · exact .inr ⟨c₁, c₂, hRead, hBuilt, hPointed⟩

/-- Behind a statement that was run to its end a session counts along in the same script. -/
theorem Located.behind (h : c.Located) (hDone : c.Completes d) :
    d.Located ∧ d.script = c.script := by
  -- each of the three stages keeps the count and the script
  obtain ⟨c₁, c₂, obj, hRead, hBuilt, hRan⟩ := hDone
  have hNext : c₁.Located ∧ c₁.script = c.script := by
    have hForward := And.intro h.forward.1 c.forward_unchanged.1
    rwa [hRead] at hForward
  have hReady : c₂.Located ∧ c₂.script = c₁.script := by
    have hLocated : (Operation.compile.apply c₁).Located := hNext.1.apply rfl
    have hCompile := And.intro hLocated c₁.compile_script
    change c₁.compile.2.Located ∧ _ at hCompile
    rwa [hBuilt] at hCompile
  have hLocated : (Operation.execute.apply c₂).Located := hReady.1.apply rfl
  have hExecute := And.intro hLocated c₂.execute_script
  change c₂.execute.2.Located ∧ _ at hExecute
  rwa [hRan, hReady.2, hNext.2] at hExecute

/-- **When the statements left are run and one fails**, those in front of it have been run to their
ends, and the failure points at one of its tokens, unless a function has pointed it somewhere
else. -/
theorem Located.pinned_or_pointed (h : c.Located) (hFails : (c.runAll last).1 = .error e) :
    ∃ d, Relation.ReflTransGen Completes c d ∧ d.Located ∧ d.script = c.script ∧
      (d.Pinned e ∨ d.PointedByCall e) := by
  fun_induction Session.runAll c last with
  | case1 c last e' d hRead =>
    cases hFails
    exact ⟨c, .refl, h, rfl, .inl (h.pinned_of_forward (by rw [hRead]))⟩
  | case2 c last d hRead => cases hFails
  | case3 c last d hRead e' d' hBuilt =>
    cases hFails
    exact ⟨c, .refl, h, rfl, .inl (h.pinned_of_compile hRead (by rw [hBuilt]))⟩
  | case4 c last d hRead d' hBuilt e' d'' hRan =>
    cases hFails
    exact ⟨c, .refl, h, rfl, h.pinned_of_execute hRead hBuilt (by rw [hRan])⟩
  | case5 c last d hRead d' hBuilt obj d'' hRan ih =>
    -- this statement is done, so it is a later one that fails
    have hDone : c.Completes d'' := ⟨d, d', obj, hRead, hBuilt, hRan⟩
    obtain ⟨hNext, hScript⟩ := h.behind hDone
    obtain ⟨k, hReach, hLocated, hSame, hWhere⟩ := ih hNext hFails
    exact ⟨k, .head hDone hReach, hLocated, hSame.trans hScript, hWhere⟩

/-- With silent functions the failure always points at a token. -/
theorem Located.exists_pinned (h : c.Located) (hSilent : c.store.Within Function.Silent)
    (hFails : (c.runAll last).1 = .error e) :
    ∃ d, Relation.ReflTransGen Completes c d ∧ d.script = c.script ∧ d.Pinned e := by
  obtain ⟨d, hReach, -, hSame, hWhere⟩ := h.pinned_or_pointed hFails
  have hStill := within_of_completes hSilent Function.inherited_silent hReach
  exact ⟨d, hReach, hSame, hWhere.resolve_right (not_pointedByCall hStill)⟩

/-! ## Whatever has happened before -/

/-- A function that is bound has the property. -/
def Operation.BindsOnly (P : Function → Prop) : Operation → Prop
  | bindFunction f => P f
  | _ => True

/-- Binding a function with the property puts no other into the store. -/
theorem within_bindFunction {f : Function} (h : c.store.Within P) (hf : P f) :
    (c.bindFunction f).2.store.Within P := by
  have hObj : (Object.function f).Within P := hf
  exact h.define hObj f.name

/-- An operation puts no other functions into a store than those that it binds and those that can
be had from what is there. -/
theorem within_apply {op : Operation} (h : c.store.Within P) (hP : Function.Inherited P)
    (hOp : op.BindsOnly P) : (op.apply c).store.Within P := by
  have hLoad (text : String) : (c.load text).store.Within P := by
    unfold Session.load
    split <;> exact h
  cases op with
  | load text => exact hLoad text
  | forward => exact within_forward h
  | compile => exact within_compile h
  | execute => exact within_execute h hP
  | evaluate text =>
    -- evaluating is loading and then going through the stages
    show (c.evaluate text).2.store.Within P
    rw [(evaluate_eq c text).2]
    exact runAll_of_stages (P := fun d => d.store.Within P) (fun _ h => within_forward h)
      (fun _ h => within_compile h) (fun _ h => within_execute h hP) (hLoad text) .nil
  | bindFunction f => exact within_bindFunction h hOp
  | lookup name => exact h
  | teardown => exact Store.within_teardown _

/-- What a session knows comes from the functions that have been bound. -/
theorem within_history {options : ReaderOptions} {entropy : Entropy} {fs : List Function}
    {ops : List Operation} (hP : Function.Inherited P) (hBound : ∀ f ∈ fs, P f)
    (hOps : ∀ op ∈ ops, op.BindsOnly P) :
    (((bare options entropy).bindAll fs).after ops).store.Within P := by
  -- the functions are bound first, then the operations are applied
  have hBare : (bare options entropy).store.Within P := Store.within_empty entropy
  have hStart : ((bare options entropy).bindAll fs).store.Within P :=
    bindAll_of_bindFunction (P := fun d => d.store.Within P)
      (fun f hf _ h => within_bindFunction h (hBound f hf)) hBare
  exact after_of_operations (P := fun d => d.store.Within P)
    (fun op hOp _ h => within_apply h hP (hOps op hOp)) hStart

/-- Nothing is left to be read, compiled or run. -/
structure Spent (c : Session) : Prop where
  unread : c.unread = []
  unbuilt : c.phase ≠ .unbuilt
  waiting : c.phase ≠ .waiting

/-- Reading comes to the end of the script at once. -/
theorem Spent.forward (h : c.Spent) : c.forward.2.Spent := by
  have hIdle : ∀ t ∈ c.reader.ahead, t.kind.isIdle = true := by
    rw [Reader.ahead_of_nil h.unread]
    simp
  have hNone := (Reader.nextStatement_eq_none_iff c.reader).2 hIdle
  have hEnd : c.forward = (.ok false, c.forward.2) := by
    rcases c.forward_cases with ⟨e, hOther, -⟩ | ⟨-, hEq⟩ | ⟨t, ts, hOther, -⟩
    · rw [hNone] at hOther
      cases hOther
    · rw [hEq]
    · rw [hNone] at hOther
      cases hOther
  obtain ⟨hPhase, hUnread⟩ := unread_of_forward hEnd
  refine ⟨hUnread, ?_, ?_⟩ <;> rw [hPhase] <;> simp

/-- There is nothing to compile, and the call is refused. -/
theorem Spent.compile (h : c.Spent) : c.compile.2.Spent := by
  have hRefused : c.compile.2 = c := by
    unfold Session.compile
    rw [if_neg h.unbuilt]
  rw [hRefused]
  exact h

/-- There is nothing to run, either. -/
theorem Spent.execute (h : c.Spent) : c.execute.2.Spent := by
  have hRefused : c.execute.2 = c := by
    unfold Session.execute
    split
    · rename_i hPhase _
      exact absurd hPhase h.waiting
    · rfl
  rw [hRefused]
  exact h

/-- The session counts along, or will do so again with the next text. -/
def Ready (c : Session) : Prop := c.Located ∨ c.Spent

/-- With a text to read a session counts along. -/
theorem Ready.load (h : c.Ready) (text : String) : (c.load text).Located := by
  rcases h with hLocated | hSpent
  · exact hLocated.load text
  · -- the text takes the place of a script that has come to its end
    have hComplete : c.complete = true := by
      rw [complete_eq hSpent.unbuilt hSpent.waiting, hSpent.unread]
      rfl
    unfold Session.load
    rw [if_pos hComplete]
    exact Reader.located_new text c.options

/-- A session that counts along does so to the end of its script. -/
theorem Located.runAll (h : c.Located) (last : Value) : (c.runAll last).2.Located := by
  have hCompile (d : Session) (h : d.Located) : (Operation.compile.apply d).Located := h.apply rfl
  have hExecute (d : Session) (h : d.Located) : (Operation.execute.apply d).Located := h.apply rfl
  exact runAll_of_stages (fun _ h => h.forward.1) hCompile hExecute h last

/-- Evaluating leaves a session counting along, or spent if the text has failed. -/
theorem Ready.evaluate (h : c.Ready) (text : String) : (c.evaluate text).2.Ready := by
  have hRan := (h.load text).runAll .nil
  obtain ⟨-, hPhase⟩ := complete_evaluate c text
  unfold Session.evaluate at hPhase ⊢
  generalize (c.load text).runAll .nil = answer at hRan hPhase ⊢
  obtain ⟨e | v, d⟩ := answer
  · -- the rest of the text has been dropped
    have hUnread : d.skipRest.unread = [] := by
      show charsFrom d.script d.script.utf8ByteSize = []
      rw [utf8ByteSize_eq]
      exact charsFrom_of_toList (List.append_nil _).symm
    obtain ⟨hUnbuilt, hWaiting⟩ := phaseBehind_ne (Except.error e : Except Failure Value)
    rw [← hPhase] at hUnbuilt hWaiting
    exact .inr ⟨hUnread, hUnbuilt, hWaiting⟩
  · exact .inl hRan

/-- **Every operation leaves a session ready**, or spent behind a text that has failed. -/
theorem Ready.apply (h : c.Ready) (op : Operation) : (op.apply c).Ready := by
  cases op with
  | load text => exact .inl (h.load text)
  | forward => exact h.imp (fun hLocated => hLocated.forward.1) (·.forward)
  | compile => exact h.imp (fun hLocated => hLocated.apply rfl) (·.compile)
  | execute => exact h.imp (fun hLocated => hLocated.apply rfl) (·.execute)
  | evaluate text => exact h.evaluate text
  | bindFunction f =>
    -- binding a function moves nothing in the script
    exact h.imp (fun hLocated => hLocated) fun ⟨hUnread, hUnbuilt, hWaiting⟩ =>
      ⟨hUnread, hUnbuilt, hWaiting⟩
  | lookup name => exact h
  | teardown => exact .inl (Reader.located_new "" c.options)

/-- So a session is ready whatever has been done with it. -/
theorem ready_history (options : ReaderOptions) (entropy : Entropy) (fs : List Function)
    (ops : List Operation) : (((bare options entropy).bindAll fs).after ops).Ready :=
  after_of_operations (P := Ready) (fun op _ _ h => h.apply op)
    (.inl ((located_bare options entropy).bindAll fs))

/-- The script behind a text is the script with the text. -/
theorem evaluate_script (c : Session) (text : String) :
    (c.evaluate text).2.script = (c.load text).script := by
  rw [← runAll_script (c.load text) .nil]
  unfold Session.evaluate
  rcases (c.load text).runAll .nil with ⟨_ | _, d⟩ <;> rfl

/-- **A failure points at a lexeme of the statement that fails.** Whatever functions have been bound
that leave it to the machine where their failures point, and whatever has been done with the session
before: when a text is evaluated and a failure comes of it, some of its statements have been run to
their ends, and the next one fails. The failure points at a token of that statement, which is the
first token at fault if the statement cannot be read. The span is not empty, lies within the script
that the session has then, and begins and ends between characters. -/
theorem exists_blamed_of_evaluate (options : ReaderOptions) (entropy : Entropy)
    {fs : List Function} {ops : List Operation} (hBound : ∀ f ∈ fs, f.Silent)
    (hOps : ∀ op ∈ ops, op.BindsOnly Function.Silent) (text : String) {e : Failure}
    (hFails : ((((bare options entropy).bindAll fs).after ops).evaluate text).1 = .error e) :
    let c := ((bare options entropy).bindAll fs).after ops
    ∃ d p t, Relation.ReflTransGen Completes (c.load text) d ∧ d.statement? = some p ∧
      t ∈ p.tokens ∧ d.Blames p e t ∧ e.span = some t.span ∧
      d.script = (c.evaluate text).2.script ∧ t.span.Within (c.evaluate text).2.script := by
  -- only silent functions can be called, so no failure is pointed elsewhere
  intro c
  have hSilent : ((Operation.load text).apply c).store.Within Function.Silent :=
    within_apply (within_history Function.inherited_silent hBound hOps) Function.inherited_silent
      trivial
  have hLocated : (c.load text).Located := (ready_history options entropy fs ops).load text
  rw [(evaluate_eq c text).1] at hFails
  obtain ⟨d, hReach, hSame, p, t, hp, ht, hBlames, hSpan, hWithin⟩ :=
    hLocated.exists_pinned hSilent hFails
  rw [evaluate_script]
  rw [hSame] at hWithin
  exact ⟨d, p, t, hReach, hp, ht, hBlames, hSpan, hSame, hWithin⟩

/-- What has been done before: a statement has been read, and it still waits. -/
def beforeOpenCall : List Operation := [.load "1", .forward]

/-- A statement that makes an array, and a call that nobody closes. -/
def openCall : String := "x = {1}; int(x"

/-- The statement that waits is dropped, the first one of the text is run, and the second one does
not compile: the failure points at the bracket. -/
theorem blamed_openCall :
    (∀ f ∈ [truncating], f.Silent) ∧ (∀ op ∈ beforeOpenCall, op.BindsOnly Function.Silent) ∧
      let c := ((bare {} (.seeded 0)).bindAll [truncating]).after beforeOpenCall
      let e := Failure.atSpan SyntaxFault.noRightBracket ⟨14, 15⟩
      (c.evaluate openCall).1 = .error e ∧
      ∃ d p t, Relation.ReflTransGen Completes (c.load openCall) d ∧ d.statement? = some p ∧
        t ∈ p.tokens ∧ d.Blames p e t ∧ t.span = ⟨14, 15⟩ ∧
        t.span.Within (c.evaluate openCall).2.script := by
  have hBound : ∀ f ∈ [truncating], f.Silent :=
    List.forall_mem_singleton.2 (Builtin.silent_of_mem_all _ (by simp [Builtin.all, truncating]))
  have hOps : ∀ op ∈ beforeOpenCall, op.BindsOnly Function.Silent := by
    simp [beforeOpenCall, Operation.BindsOnly]
  refine ⟨hBound, hOps, ?_⟩
  intro c e
  have hFails : failure? (c.evaluate openCall).1 = some e := by decide +kernel
  rw [failure?_eq_some_iff] at hFails
  obtain ⟨d, p, t, hReach, hp, ht, hBlames, hSpan, -, hWithin⟩ :=
    exists_blamed_of_evaluate {} (.seeded 0) hBound hOps openCall hFails
  exact ⟨hFails, d, p, t, hReach, hp, ht, hBlames, (Option.some.inj hSpan).symm, hWithin⟩

end Session

end Reckon
