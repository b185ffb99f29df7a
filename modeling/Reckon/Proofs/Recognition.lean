import Reckon.Proofs.Acceptance
import Reckon.Proofs.Infix
import Reckon.Proofs.Passes
import Reckon.Proofs.Reading

/-!
# Which statements are accepted

The check of a statement counts values. It does not see where operands and operators stand, so it
also accepts statements that are no expressions, such as `(1) 2 +`. Where every token may stand
behind the one in front of it, counting is enough: what is accepted then is an expression.

The proof follows the pass through the tokens between two brackets. What stands there so far cannot
leave more values than waiting operators and one operand account for, and as soon as it leaves fewer
it does so for good (`Pass.Formed`). At the closer there has to be one value, so the tokens are
those of an expression.
-/

namespace Reckon

open Program

namespace Program.Heights

/-- Brackets that close have at most one value left, and none only if no comma has come. -/
theorem inside_of_step {h h' : Heights} {b : Bracket} {span : Span} {depth : Nat}
    (hStep : h.step ⟨.operator (.closer b), span, depth⟩ = .ok h') :
    h.height ≤ h.level.base + 1 ∧ (h.height ≤ h.level.base → h.level.moved = 0) := by
  have hClosing : h.closing b span = .ok h' := hStep
  -- whichever bracket it is, its values are counted first
  unfold Heights.closing at hClosing
  split at hClosing
  · simp at hClosing
  split at hClosing
  · simp at hClosing
  rename_i inside hInside
  unfold valuesInside at hInside
  split at hInside
  · simp at hInside
  rename_i hOne
  -- with one value at most, the count is none or one
  refine ⟨Nat.le_of_not_lt hOne, fun hNone => ?_⟩
  rw [if_pos hNone] at hInside
  split at hInside
  · simp at hInside
  · omega

end Program.Heights

namespace Postfix

namespace Pass

/-! ## What stands between two brackets -/

/-- How many of the operators that wait will make one value of two, or move one aside. -/
def owed (ws : List Waiting) : Nat := ws.countP fun w => !w.op.isPrefix

/-- Whether an operand ends with the last of the tokens. -/
def endsOperand (ts : List Token) : Bool := behindOperand (lastKind none ts)

/-- The same as a number of values. -/
def due (ts : List Token) : Nat := if endsOperand ts then 1 else 0

/-- The tokens between two brackets, as far as they have been read: they are those of an expression
so far, or there is a value too few. -/
structure Formed (ts : List Token) (ws : List Waiting) (top : Nat) (level : Level) : Prop where
  base_le : level.base ≤ top
  begun : ts ≠ [] → ws ≠ [] ∨ 0 < level.moved ∨ level.base < top
  top_le : top ≤ level.base + owed ws + due ts
  awaits : endsOperand ts = false → top = level.base + owed ws → Awaits ts
  complete : endsOperand ts → top = level.base + owed ws + 1 → Complete ts

/-- An operator that waits owes a value unless it is a prefix operator. -/
theorem owed_cons (w : Waiting) (ws : List Waiting) :
    owed (w :: ws) = owed ws + if w.op.isPrefix then 0 else 1 := by
  unfold owed
  rw [List.countP_cons]
  cases w.op.isPrefix <;> rfl

/-- Operators that bind less tightly stand between two operands. -/
theorem isPrefix_eq_false {op : Operator} (h : 3 ≤ op.priority) : op.isPrefix = false := by
  simp only [Operator.isPrefix, beq_eq_false_iff_ne]
  omega

/-- Before the first token nothing is there, and nothing is owed. -/
theorem formed_nil (top : Nat) : Formed [] [] top ⟨top, 0⟩ :=
  ⟨Nat.le_refl _, fun h => absurd rfl h, Nat.le_add_right _ _, fun _ _ => awaits_nil,
    fun h => nomatch h⟩

/-- An operator that is emitted takes as many values as it owed. -/
theorem Settles.balance {h h' : Heights} {w : Waiting} (hSettles : Settles h w.op h')
    (ws : List Waiting) :
    h.height + owed ws = h'.height + owed (w :: ws) ∧
      (0 < h'.level.moved ∨ h'.level.base < h'.height) ∧ h'.level.base ≤ h'.height := by
  rw [owed_cons]
  generalize w.op = op at hSettles
  -- a prefix operator owes nothing, the others one value each
  cases hSettles with
  | prefixed hOp hValue =>
    rw [if_pos hOp]
    exact ⟨rfl, .inr hValue, hValue.le⟩
  | binary hOp hHeight hValue hLevel =>
    have hLow := BinaryOperator.priority_bounds ⟨op, hOp⟩
    rw [isPrefix_eq_false hLow.1, hLevel]
    exact ⟨by simp; omega, .inr hValue, hValue.le⟩
  | comma hHeight hBase hValue hMoved =>
    exact ⟨by simp [Operator.isPrefix, Operator.priority]; omega, .inl (by omega), by omega⟩

/-- Emission of an operator leaves the balance as it is. -/
theorem Formed.settle {ts : List Token} {w : Waiting} {ws : List Waiting} {h h' : Heights}
    (hFormed : Formed ts (w :: ws) h.height h.level) (hSettles : Settles h w.op h') :
    Formed ts ws h'.height h'.level := by
  have hTop := hFormed.top_le
  have hSame := hSettles.base_eq
  obtain ⟨hBalance, hLeft, hBase⟩ := hSettles.balance ws
  -- both sides of the balance change by the same, so what is known of it is known still
  exact ⟨hBase, fun _ => .inr hLeft, by omega, fun hEnds hEq => hFormed.awaits hEnds (by omega),
    fun hEnds hEq => hFormed.complete hEnds (by omega)⟩

/-- The same for several operators. -/
theorem Formed.settleAll {ts : List Token} {ends ws : List Waiting} {h h' : Heights} {depth : Nat}
    (hFormed : Formed ts (ends ++ ws) h.height h.level) (hEnds : Inside 15 ends)
    (hPlay : h.play (ends.map (Waiting.instruction depth)) = .ok h') :
    Formed ts ws h'.height h'.level :=
  (settle_all (S := Formed ts) ws hEnds (fun _ _ _ _ _ hSettles hG => hG.settle hSettles) hPlay
    hFormed).1

/-- Behind all that waits the tokens between two brackets are an expression, or there are none. -/
theorem Formed.exists_contents {ts : List Token} {top : Nat} {level : Level}
    (hFormed : Formed ts [] top level) (hInside : top ≤ level.base + 1)
    (hMoved : top ≤ level.base → level.moved = 0) :
    (ts = [] ∧ top = level.base) ∨ ∃ e : Expr, e.Fits ∧ e.tokens = ts := by
  have hTop := hFormed.top_le
  have hOwed : owed [] = 0 := rfl
  by_cases hNone : top ≤ level.base
  · -- whatever has been read would have left a value
    left
    have hBase := hFormed.base_le
    refine ⟨?_, by omega⟩
    by_contra hSome
    have hMoved' := hMoved hNone
    rcases hFormed.begun hSome with hWaits | hCounted | hAbove
    · exact hWaits rfl
    · omega
    · omega
  · right
    -- one value above the base is one that nothing owes
    have hEnds : endsOperand ts := by
      by_contra hNot
      simp only [due, hNot] at hTop
      simp at hTop
      omega
    exact (hFormed.complete hEnds (by omega)).exists_expr

/-! ## Tokens that come -/

section

variable {ts : List Token} {ws : List Waiting} {top : Nat} {level : Level}

/-- Whether an operand ends with the tokens is told by the last one. -/
theorem endsOperand_concat (ts : List Token) (t : Token) :
    endsOperand (ts ++ [t]) = t.kind.endsOperand := by
  unfold endsOperand
  rw [lastKind_append]
  rfl

/-- An operand comes where none ends. -/
theorem Formed.operand (hFormed : Formed ts ws top level) (hEnds : endsOperand ts = false)
    {u : Expr} (hu : u.Fits) (hLevel : u.level ≤ 1) :
    Formed (ts ++ u.tokens) ws (top + 1) level := by
  obtain ⟨hBase, hBegun, hTop, hAwaits, hComplete⟩ := hFormed
  have hOne : endsOperand (ts ++ u.tokens) := by
    unfold endsOperand
    rw [lastKind_append_append]
    exact behindOperand_lastKind _ u
  have hDue : due ts = 0 := by simp [due, hEnds]
  have hDue' : due (ts ++ u.tokens) = 1 := by simp [due, hOne]
  refine ⟨by omega, fun _ => .inr (.inr (by omega)), by omega, fun hNot => ?_, fun _ hEq => ?_⟩
  · -- an operand ends here now
    rw [hOne] at hNot
    cases hNot
  · exact (hAwaits hEnds (by omega)).complete hu hLevel

/-- A bracket takes the operand further that ends in front of it. -/
theorem Formed.target (hFormed : Formed ts ws top level) (hEnds : endsOperand ts)
    {us : List Token} {b : Bracket} (o c : Span)
    (hComplete : Complete ts → Complete (ts ++ encloseTokens b o c us)) :
    Formed (ts ++ encloseTokens b o c us) ws top level := by
  have hOne : endsOperand (ts ++ encloseTokens b o c us) := by
    unfold endsOperand
    rw [lastKind_enclose]
    rfl
  have hSome : ts ≠ [] := by
    rintro rfl
    cases hEnds
  have hDue : due (ts ++ encloseTokens b o c us) = due ts := by simp [due, hOne, hEnds]
  -- the operand that ends here is the one that ended in front of the bracket
  refine ⟨hFormed.base_le, fun _ => hFormed.begun hSome, hDue ▸ hFormed.top_le, fun hNot => ?_,
    fun _ hEq => hComplete (hFormed.complete hEnds hEq)⟩
  rw [hOne] at hNot
  cases hNot

/-- A prefix operator comes where no operand ends. -/
theorem Formed.prefixed (hFormed : Formed ts ws top level) (hEnds : endsOperand ts = false)
    {op : Operator} (hOp : op.isPrefix) (span : Span) :
    Formed (ts ++ [⟨.operator op, span⟩]) (⟨op, span⟩ :: ws) top level := by
  have hTwo := PrefixOperator.priority_eq ⟨op, hOp⟩
  have hNone : endsOperand (ts ++ [⟨.operator op, span⟩]) = false := by
    rw [endsOperand_concat]
    exact behindOperand_operator (Nat.le_of_eq hTwo.symm)
  have hDue : due (ts ++ [⟨.operator op, span⟩]) = due ts := by simp [due, hNone, hEnds]
  have hOwed : owed (⟨op, span⟩ :: ws) = owed ws := by rw [owed_cons, if_pos hOp, Nat.add_zero]
  refine ⟨hFormed.base_le, fun _ => .inl (by simp), ?_, fun _ hEq => ?_, fun hSome => ?_⟩
  · rw [hOwed, hDue]
    exact hFormed.top_le
  · rw [hOwed] at hEq
    exact (hFormed.awaits hEnds hEq).prefixed hOp span
  · rw [hNone] at hSome
    cases hSome

/-- An operator between operands comes. Where no operand ends in front of it, there is a value too
few from now on. -/
theorem Formed.operator (hFormed : Formed ts ws top level) {op : Operator} (hLow : 3 ≤ op.priority)
    (hHigh : op.priority ≤ 15) (span : Span) :
    Formed (ts ++ [⟨.operator op, span⟩]) (⟨op, span⟩ :: ws) top level := by
  have hTop := hFormed.top_le
  have hNone : endsOperand (ts ++ [⟨.operator op, span⟩]) = false := by
    rw [endsOperand_concat]
    exact behindOperand_operator (by omega)
  have hDue : due (ts ++ [⟨.operator op, span⟩]) = 0 := by simp [due, hNone]
  have hOwed : owed (⟨op, span⟩ :: ws) = owed ws + 1 := by
    rw [owed_cons, isPrefix_eq_false hLow]
    rfl
  have hLe : due ts ≤ 1 := by
    unfold due
    split <;> omega
  refine ⟨hFormed.base_le, fun _ => .inl (by simp), by omega, fun _ hEq => ?_, fun hSome => ?_⟩
  · -- with no operand in front the balance would be short by one
    have hEnds : endsOperand ts := by
      by_contra hNot
      have hZero : due ts = 0 := if_neg hNot
      omega
    exact (hFormed.complete hEnds (by omega)).operator hLow hHigh span
  · rw [hNone] at hSome
    cases hSome

end

/-! ## The pass -/

/-- The tokens in front of a bracket that is open, that bracket included, and the tokens behind it
as far as they have been read. -/
structure Stretch where
  before : List Token
  read : List Token

/-- The tokens behind every open bracket are formed, and a bracket that takes a target stands behind
an operand. -/
def expressions : Account Stretch where
  Root x := x.before = []
  Opens b y x :=
    (∃ o, x.before = y.before ++ y.read ++ [⟨.operator (.opener b.written), o⟩]) ∧
      endsOperand y.read = b.takesTarget ∧ (b = .call → opensCall (lastKind none y.read))
  Holds x := Formed x.read

/-- In front of what has been read between two brackets an opener stands, or nothing. -/
theorem Nested.fresh {x : Stretch} {waiting : List Waiting} {top : Nat} {level : Level}
    {outer : List Level} (hNested : Nested expressions x waiting top level outer) :
    behindOperand (lastKind none x.before) = false := by
  cases hNested with
  | statement _ hRoot =>
    have hBefore : x.before = [] := hRoot
    rw [hBefore]
    rfl
  | bracket _ hOpens =>
    obtain ⟨⟨o, hBefore⟩, -⟩ := hOpens
    rw [hBefore, lastKind_append]
    rfl

/-- What is known behind some tokens. -/
def Recognized (p : Pass) (h : Heights) (x : Stretch) : Prop :=
  Nested expressions x p.waiting h.height h.level h.outer

section

variable {p q : Pass} {h h' : Heights} {x : Stretch} {t : Token} {span : Span}
  {ends rest waiting : List Waiting}

/-- Where a token may stand is decided by the tokens of its own stretch. -/
theorem Recognized.lastKind_eq (hp : Recognized p h x) :
    behindOperand (lastKind none (x.before ++ x.read)) = endsOperand x.read ∧
      (opensCall (lastKind none (x.before ++ x.read)) → opensCall (lastKind none x.read)) := by
  rw [lastKind_append_append]
  rcases List.eq_nil_or_concat x.read with hNone | ⟨us, u, hSome⟩
  · -- right behind an opener no operand ends
    have hFresh : behindOperand (lastKind none x.before) = false := Nested.fresh hp
    rw [hNone]
    refine ⟨hFresh, fun hCall => ?_⟩
    have hBehind : behindOperand (lastKind none x.before) = true := behindOperand_of_opensCall hCall
    rw [hFresh] at hBehind
    cases hBehind
  · rw [hSome, List.concat_eq_append, endsOperand_concat, lastKind_append, lastKind_append]
    exact ⟨rfl, id⟩

/-- The stretch inside the innermost bracket goes on. -/
theorem Recognized.extend (hp : Recognized p h x) (hWaiting : p.waiting = ends ++ rest)
    (hEnds : Inside 15 ends) :
    ∃ ws around, rest = ws ++ around ∧ Inside 15 ws ∧ Formed x.read (ends ++ ws) h.height h.level ∧
      ∀ {us ws' top' level'}, Inside 15 ws' → level'.base = h.level.base →
        Formed us ws' top' level' →
        Nested expressions ⟨x.before, us⟩ (ws' ++ around) top' level' h.outer := by
  obtain ⟨ws, around, hRest, hInside, hHolds, hBuild⟩ := Nested.exists_innermost hp hWaiting hEnds
  refine ⟨ws, around, hRest, hInside, hHolds, ?_⟩
  intro us ws' top' level' hInside' hBase hFormed
  exact hBuild hInside' hBase id (fun b y hOpens => hOpens) hFormed

/-- A number or a name comes. -/
theorem Recognized.operand {kind : InstructionKind} (hp : Recognized p h x)
    (hPlaced : !behindOperand (lastKind none (x.before ++ x.read))) {u : Expr} (hu : u.Fits)
    (hLevel : u.level ≤ 1) (hTokens : u.tokens = [t])
    (hStep : h.step ⟨kind, span, p.depth⟩ = .ok h.push) (hReach : Reaches p.emitted h)
    (hReach' : Reaches (p.emit kind span).emitted h') :
    Recognized (p.emit kind span) h' ⟨x.before, x.read ++ [t]⟩ := by
  obtain ⟨ws, around, hRest, hInside, hFormed, hBuild⟩ :=
    hp.extend (List.nil_append _).symm (Inside.nil 15)
  rw [hp.lastKind_eq.1, Bool.not_eq_true'] at hPlaced
  obtain rfl := hReach.eq_of_step hStep hReach'
  have hMore := hFormed.operand hPlaced hu hLevel
  rw [hTokens] at hMore
  show Nested expressions _ p.waiting _ _ _
  rw [hRest]
  exact hBuild hInside rfl hMore

/-- A bracket that may open where it stands takes a target if an operand ends in front of it. -/
theorem openedBehind_of_placed {previous : Option TokenKind} {b : Bracket} (hb : b ≠ .call)
    (hPlaced : placed previous (.operator (.opener b))) :
    (openedBehind previous b).written = b ∧
      (openedBehind previous b).takesTarget = behindOperand previous ∧
      (openedBehind previous b = .call → opensCall previous) := by
  cases b with
  | group =>
    -- a group behind what can be called is a call
    by_cases hCall : opensCall previous
    · have hOpened : openedBehind previous .group = .call := if_pos ⟨rfl, hCall⟩
      rw [hOpened]
      exact ⟨rfl, (behindOperand_of_opensCall hCall).symm, fun _ => hCall⟩
    · have hOpened : openedBehind previous .group = .group := if_neg fun h => hCall h.2
      have hNone : behindOperand previous = false := by simpa [placed, hCall] using hPlaced
      rw [hOpened, hNone]
      exact ⟨rfl, rfl, fun h => nomatch h⟩
  | call => exact absurd rfl hb
  | index =>
    have hOpened : openedBehind previous .index = .index := if_neg (by simp)
    have hSome : behindOperand previous = true := hPlaced
    rw [hOpened, hSome]
    exact ⟨rfl, rfl, fun h => nomatch h⟩
  | array =>
    have hOpened : openedBehind previous .array = .array := if_neg (by simp)
    have hNone : behindOperand previous = false := by simpa [placed] using hPlaced
    rw [hOpened, hNone]
    exact ⟨rfl, rfl, fun h => nomatch h⟩

/-- A bracket opens. -/
theorem Recognized.opening (hp : Recognized p h x) {b : Bracket}
    (hKind : t = ⟨.operator (.opener b), span⟩) (hWritten : t.kind.isWritten)
    (hPlaced : placed (lastKind none (x.before ++ x.read)) t.kind) (hReach : Reaches p.emitted h)
    (hReach' : Reaches
      (p.opening (openedBehind (lastKind none (x.before ++ x.read)) b) span).emitted h') :
    Recognized (p.opening (openedBehind (lastKind none (x.before ++ x.read)) b) span) h'
      ⟨x.before ++ x.read ++ [t], []⟩ := by
  subst hKind
  obtain ⟨hBehind, hCall⟩ := hp.lastKind_eq
  have hOpens : (openedBehind (lastKind none (x.before ++ x.read)) b).written = b ∧
      endsOperand x.read = (openedBehind (lastKind none (x.before ++ x.read)) b).takesTarget ∧
      (openedBehind (lastKind none (x.before ++ x.read)) b = .call →
        opensCall (lastKind none x.read)) := by
    have hNotCall : b ≠ .call := by
      rintro rfl
      cases hWritten
    obtain ⟨hSame, hTarget, hCallee⟩ := openedBehind_of_placed hNotCall hPlaced
    exact ⟨hSame, by rw [hTarget, hBehind], fun hOpened => hCall (hCallee hOpened)⟩
  generalize openedBehind (lastKind none (x.before ++ x.read)) b = opened at hReach' hOpens ⊢
  obtain ⟨hSame, hTarget, hCallee⟩ := hOpens
  obtain rfl : h' = h.opening := hReach.eq_of_step rfl hReach'
  exact .bracket (Inside.nil 15) ⟨⟨span, by rw [hSame]⟩, hTarget, hCallee⟩ (formed_nil _) hp

/-- A closer is written as the construct that it closes. -/
theorem written_of_matching {opened b closed : Bracket} (hMatch : matching? opened b = some closed)
    (hb : b ≠ .call) : closed.written = b := by
  rw [eq_of_matching hMatch]
  unfold matching? at hMatch
  split at hMatch
  · rename_i hSame
    subst hSame
    cases opened <;> first | rfl | exact absurd rfl hb
  split at hMatch
  · rename_i hCall
    rw [hCall.1, hCall.2]
    rfl
  · cases hMatch

/-- What stands between two brackets is put between them. -/
theorem Formed.enclose {ts us : List Token} {ws : List Waiting} {top : Nat} {level : Level}
    {b : Bracket} (hFormed : Formed ts ws top level) (hTarget : endsOperand ts = b.takesTarget)
    (hCallee : b = .call → opensCall (lastKind none ts)) {contents : Contents}
    (hContents : contents.Fits) (hTokens : contents.tokens = us)
    (hIndex : b = .index → ∃ i : Expr, i.Fits ∧ i.tokens = us) (o c : Span) :
    Formed (ts ++ encloseTokens b o c us) ws (top + if b.takesTarget then 0 else 1) level := by
  subst hTokens
  cases b with
  -- a group and an array are operands by themselves, and the other two go on with one
  | group => exact hFormed.operand hTarget (u := .group o c contents) hContents (Nat.le_refl 1)
  | array => exact hFormed.operand hTarget (u := .array o c contents) hContents (Nat.le_refl 1)
  | call =>
    exact hFormed.target hTarget o c fun hComplete => hComplete.call (hCallee rfl) hContents o c
  | index =>
    obtain ⟨i, hi, hTokens⟩ := hIndex rfl
    rw [← hTokens]
    exact hFormed.target hTarget o c fun hComplete => hComplete.index hi o c

/-- What stands between brackets that can be closed is an expression, or there is nothing. -/
theorem Formed.contents {ts : List Token} {b : Bracket} {g mid : Heights} {depth depth' : Nat}
    (hFormed : Formed ts ends g.height g.level) (hInside : Inside 15 ends)
    (hPlay : g.play (ends.map (Waiting.instruction depth)) = .ok mid)
    (hStep : mid.step ⟨.operator (.closer b), span, depth'⟩ = .ok h') :
    (∃ contents : Contents, contents.Fits ∧ contents.tokens = ts) ∧
      (mid.level.base < mid.height → ∃ e : Expr, e.Fits ∧ e.tokens = ts) := by
  -- what waits inside the brackets is emitted first
  have hSettled : Formed ts [] mid.height mid.level :=
    Formed.settleAll ((List.append_nil ends).symm ▸ hFormed) hInside hPlay
  obtain ⟨hOne, hMoved⟩ := Heights.inside_of_step hStep
  rcases hSettled.exists_contents hOne hMoved with ⟨hNone, hLow⟩ | ⟨e, he, hTokens⟩
  · refine ⟨⟨.empty, trivial, hNone.symm⟩, fun hAbove => ?_⟩
    omega
  · exact ⟨⟨.list e, he, hTokens⟩, fun _ => ⟨e, he, hTokens⟩⟩

/-- A bracket closes, and what stands between the two is an expression. -/
theorem Recognized.closing {b opened closed : Bracket} {place : Span} (hp : Recognized p h x)
    (hKind : t = ⟨.operator (.closer b), span⟩) (hWritten : t.kind.isWritten)
    (hWaiting : p.waiting = ends ++ ⟨.opener opened, place⟩ :: waiting) (hInside : Inside 15 ends)
    (hMatch : matching? opened b = some closed) (hReach : Reaches p.emitted h)
    (hReach' : Reaches (⟨.operator (.closer closed), span, p.depth - 1⟩ ::
      flushed p.depth ends p.emitted) h') :
    ∃ y, x.before ++ x.read ++ [t] = y.before ++ y.read ∧
      Recognized ⟨⟨.operator (.closer closed), span, p.depth - 1⟩ ::
        flushed p.depth ends p.emitted, waiting, p.depth - 1⟩ h' y := by
  subst hKind
  obtain ⟨y, around, outer, mid, ⟨⟨o, hBefore⟩, hTarget, hCallee⟩, hHolds, hAround, hMid, -,
    hClosed⟩ := Nested.exists_closed (A := expressions) hp hWaiting hInside hMatch hReach hReach'
  have hInner : Formed x.read ends h.height h.level := hHolds
  obtain ⟨⟨contents, hContents, hTokens⟩, hExpr⟩ :=
    hInner.contents hInside (hReach.play_flushed hMid) (hMid.step hReach')
  have hNotCall : b ≠ .call := by
    rintro rfl
    cases hWritten
  -- the stretch around goes on behind the brackets and what they hold
  refine ⟨⟨y.before, y.read ++ encloseTokens closed o span x.read⟩, ?_, ?_⟩
  · simp [hBefore, encloseTokens, written_of_matching hMatch hNotCall]
  obtain ⟨ws, stays, hRest, hWs, hHolds', hBuild⟩ :=
    hAround.exists_innermost (List.nil_append _).symm (Inside.nil 15)
  have hOutside : Formed y.read ws mid.level.base around := hHolds'
  have hGrown := hOutside.enclose hTarget hCallee hContents hTokens
    (fun hIndex => hExpr (hClosed.index hIndex)) o span
  rw [← hClosed.height] at hGrown
  show Nested expressions _ waiting h'.height h'.level h'.outer
  rw [hRest, hClosed.level, hClosed.outer]
  exact hBuild hWs rfl id (fun _ _ hOpens => hOpens) hGrown

/-- An operator comes. -/
theorem Recognized.operator {op : Operator} (hp : Recognized p h x)
    (hKind : t = ⟨.operator op, span⟩)
    (hPlaced : placed (lastKind none (x.before ++ x.read)) t.kind)
    (hLow : 2 ≤ op.priority) (hHigh : op.priority ≤ 15) (hWaiting : p.waiting = ends ++ rest)
    (hInside : Inside 15 ends) (hReach : Reaches p.emitted h)
    (hReach' : Reaches (flushed p.depth ends p.emitted) h') :
    Recognized ⟨flushed p.depth ends p.emitted, ⟨op, span⟩ :: rest, p.depth⟩ h'
      ⟨x.before, x.read ++ [t]⟩ := by
  subst hKind
  obtain ⟨ws, around, rfl, hWs, hFormed, hBuild⟩ := hp.extend hWaiting hInside
  have hPlay := hReach.play_flushed hReach'
  have hSettled := hFormed.settleAll hInside hPlay
  obtain ⟨hBase, hOuter⟩ := settle_levels hInside hPlay
  show Nested expressions _ (⟨op, span⟩ :: (ws ++ around)) _ _ _
  rw [← List.cons_append, hOuter]
  refine hBuild (hWs.cons ⟨hLow, hHigh⟩) hBase ?_
  by_cases hOp : op.isPrefix
  · -- where it may stand no operand ends, and emission does not change that
    refine hSettled.prefixed ?_ hOp span
    rw [← hp.lastKind_eq.1]
    rwa [placed_of_isPrefix hOp, Bool.not_eq_true'] at hPlaced
  · have hThree : 3 ≤ op.priority := by
      have hNot : op.priority ≠ 2 := by simpa [Operator.isPrefix] using hOp
      omega
    exact hSettled.operator hThree hHigh span

/-- Every token that stands where it may leaves the tokens between two brackets formed. -/
theorem Recognized.step {ts : List Token} (hp : ∃ x, ts = x.before ++ x.read ∧ Recognized p h x)
    (hReach : Reaches p.emitted h) (hTaken : Taken p (lastKind none ts) t q)
    (hReach' : Reaches q.emitted h')
    (hStands : t.kind.isWritten ∧ placed (lastKind none ts) t.kind) :
    ∃ y, ts ++ [t] = y.before ++ y.read ∧ Recognized q h' y := by
  obtain ⟨x, rfl, hx⟩ := hp
  obtain ⟨hWritten, hPlaced⟩ := hStands
  cases hTaken with
  | number numeral span =>
    exact ⟨⟨x.before, x.read ++ [_]⟩, List.append_assoc _ _ _,
      hx.operand (u := .number numeral span) hPlaced trivial (Nat.le_refl 1) rfl rfl hReach hReach'⟩
  | name span =>
    exact ⟨⟨x.before, x.read ++ [_]⟩, List.append_assoc _ _ _,
      hx.operand (u := .name span) hPlaced trivial (Nat.le_refl 1) rfl rfl hReach hReach'⟩
  | opening b span =>
    exact ⟨⟨_, []⟩, (List.append_nil _).symm, hx.opening rfl hWritten hPlaced hReach hReach'⟩
  | closing span hWaiting hInside hMatch =>
    exact hx.closing rfl hWritten hWaiting hInside hMatch hReach hReach'
  | semicolon span => cases hWritten
  | operator span hLow hHigh hWaiting hInside hBefore =>
    exact ⟨⟨x.before, x.read ++ [_]⟩, List.append_assoc _ _ _,
      hx.operator rfl hPlaced hLow hHigh hWaiting hInside hReach hReach'⟩

end

end Pass

end Postfix

open Postfix Postfix.Pass

namespace Program

/-- What is accepted is an expression, if every token stands where it may. -/
theorem exists_expr_of_ofTokens {ts : List Token} {p : Program}
    (hAccepted : Program.ofTokens ts = .ok p) (hWritten : ∀ t ∈ ts, t.kind.isWritten)
    (hPlaced : wellPlaced none ts) : ∃ e : Expr, e.Fits ∧ e.tokens = ts := by
  unfold Program.ofTokens at hAccepted
  split at hAccepted
  · simp at hAccepted
  rename_i code hTokens
  obtain ⟨hEnd, hPlay, hHeight, hOuter, -⟩ := exists_play_of_ofPostfix hAccepted
  have hStart : Nested expressions ⟨[], []⟩ [] 0 {} [] :=
    .statement (Inside.nil 15) rfl rfl (formed_nil 0)
  have hStands : ∀ pre t post, ts = pre ++ t :: post →
      t.kind.isWritten ∧ placed (lastKind none pre) t.kind := by
    rintro pre t post rfl
    exact ⟨hWritten t (by simp), placed_of_wellPlaced hPlaced⟩
  obtain ⟨q, h, ⟨x, rfl, hx⟩, hReach, hInside, -, hLast⟩ :=
    invariant_of_ofTokens (I := fun p h ts => ∃ x, ts = x.before ++ x.read ∧ Recognized p h x)
      ⟨⟨[], []⟩, rfl, hStart⟩
      (fun p h ts t q h' hp hReach hTaken hReach' hStands =>
        Recognized.step hp hReach hTaken hReach' hStands)
      hTokens hPlay hStands
  -- what still waits is emitted, and one value is left outside all brackets
  obtain ⟨ws, around, hNil, -, hFormed, hBuild⟩ := hx.extend (List.append_nil _).symm hInside
  obtain ⟨rfl, rfl⟩ := List.append_eq_nil_iff.1 hNil.symm
  have hSettled := hFormed.settleAll hInside (hReach.play_flushed hLast)
  obtain ⟨hBase, hSame⟩ := settle_levels hInside (hReach.play_flushed hLast)
  have hNested := hBuild (Inside.nil 15) hBase hSettled
  rw [← hSame, hOuter] at hNested
  obtain ⟨hRoot, hZero, -⟩ := hNested.root
  have hBefore : x.before = [] := hRoot
  rw [hBefore, List.nil_append]
  rcases hSettled.exists_contents (by omega) (by omega) with ⟨-, hNone⟩ | hExpr
  · omega
  · exact hExpr

end Program

namespace Reader

/-- **Which statements are expressions.** A statement that has been read is an expression exactly
when it is accepted and each of its tokens may stand behind the one in front of it: operands and
prefix operators where no operand ends, indexes and calls where one does. -/
theorem isExpression_iff {r : Reader} {ts : List Token} (h : r.statement.1 = .ok (some ts)) :
    (∃ e : Expr, e.Fits ∧ e.tokens = ts) ↔
      (∃ p, Program.ofTokens ts = .ok p) ∧ wellPlaced none ts := by
  constructor
  · -- the postfix order of the tokens is the code of the expression
    rintro ⟨e, he, rfl⟩
    obtain ⟨p, hProgram, -⟩ := he.exists_ofPostfix
    refine ⟨⟨p, ?_⟩, he.wellPlaced rfl⟩
    unfold Program.ofTokens
    rw [ofTokens_of_fits he]
    exact hProgram
  · rintro ⟨⟨p, hAccepted⟩, hPlaced⟩
    exact Program.exists_expr_of_ofTokens hAccepted
      (isWritten_statement (Prod.ext h rfl)) hPlaced

/-- The tokens of `-a[1]`. -/
def negatedElement : List Token :=
  [⟨.operator .minus, ⟨0, 1⟩⟩, ⟨.identifier, ⟨1, 2⟩⟩, ⟨.operator (.opener .index), ⟨2, 3⟩⟩,
    ⟨.number (some .decimal), ⟨3, 4⟩⟩, ⟨.operator (.closer .index), ⟨4, 5⟩⟩]

/-- Two tokens of the expression are brackets around an index that belongs to the name. -/
theorem isExpression_negatedElement :
    (new "-a[1]" {}).statement.1 = .ok (some negatedElement) ∧
      ∃ e : Expr, e.Fits ∧ e.tokens = negatedElement := by
  have h : (new "-a[1]" {}).statement.1 = .ok (some negatedElement) := by
    unfold statement
    rw [gather_of_token rfl rfl, gather_of_token rfl rfl, gather_of_token rfl rfl,
      gather_of_token rfl rfl, gather_of_token rfl rfl, gather_of_nil rfl]
    rfl
  exact ⟨h, (isExpression_iff h).2 ⟨⟨_, rfl⟩, rfl⟩⟩

/-- The tokens of `(1) 2 +`. -/
def groupNumberAdd : List Token :=
  [⟨.operator (.opener .group), ⟨0, 1⟩⟩, ⟨.number (some .decimal), ⟨1, 2⟩⟩,
    ⟨.operator (.closer .group), ⟨2, 3⟩⟩, ⟨.number (some .decimal), ⟨4, 5⟩⟩,
    ⟨.operator .add, ⟨6, 7⟩⟩]

/-- Two operands stand side by side, and the operator behind them both: the statement is read and
accepted, and is no expression. -/
theorem accepted_groupNumberAdd :
    (new "(1) 2 +" {}).statement.1 = .ok (some groupNumberAdd) ∧
      (∃ p, Program.ofTokens groupNumberAdd = .ok p) ∧
      ¬ ∃ e : Expr, e.Fits ∧ e.tokens = groupNumberAdd := by
  refine ⟨?_, ⟨_, rfl⟩, ?_⟩
  · unfold statement
    rw [gather_of_token rfl rfl, gather_of_token rfl rfl, gather_of_token rfl rfl,
      gather_of_space rfl rfl, gather_of_token rfl rfl, gather_of_space rfl rfl,
      gather_of_token rfl rfl, gather_of_nil rfl]
    rfl
  · rintro ⟨e, he, hTokens⟩
    have hPlaced : wellPlaced none e.tokens := he.wellPlaced rfl
    rw [hTokens] at hPlaced
    exact absurd hPlaced (by decide)

end Reader

end Reckon
