import Reckon.Proofs.Expression

/-!
# Reading expressions back

Putting the tokens of an expression into postfix order gives the postfix order of its tree,
provided that every part that binds less tightly than its place allows stands between brackets.

The pass emits some instructions of an expression while it reads it and lets the others wait, on top
of whatever waited before (`Pass.Reads`). What waits is emitted by the next operator that binds less
tightly, by a closer, or at the end. Nothing that waited before is touched as long as the expression
may stand where it stands (`Pass.Withstands`).
-/

namespace Reckon

namespace Postfix

namespace Pass

/-! ## What waits -/

/-- A waiting operator as it is emitted. -/
def Waiting.instruction (depth : Nat) (w : Waiting) : Instruction := ⟨.operator w.op, w.span, depth⟩

/-- What has been emitted once operators that wait, latest first, have been emitted on top. -/
def flushed (depth : Nat) (pending : List Waiting) (emitted : List Instruction) :
    List Instruction :=
  (pending.map (Waiting.instruction depth)).reverse ++ emitted

theorem flushed_nil (depth : Nat) (emitted : List Instruction) :
    flushed depth [] emitted = emitted := rfl

/-- What waits on top is emitted first. -/
theorem flushed_cons (depth : Nat) (w : Waiting) (pending : List Waiting)
    (emitted : List Instruction) :
    flushed depth (w :: pending) emitted =
      flushed depth pending (Waiting.instruction depth w :: emitted) := by
  simp only [flushed, List.map_cons, List.reverse_cons, List.append_assoc, List.singleton_append]

theorem flushed_append (depth : Nat) (pending : List Waiting) (done emitted : List Instruction) :
    flushed depth pending (done ++ emitted) = flushed depth pending done ++ emitted := by
  simp only [flushed, List.append_assoc]

/-- What waits at the bottom is emitted last. -/
theorem flushed_concat (depth : Nat) (pending : List Waiting) (w : Waiting)
    (emitted : List Instruction) :
    flushed depth (pending ++ [w]) emitted =
      Waiting.instruction depth w :: flushed depth pending emitted := by
  simp only [flushed, List.map_append, List.map_cons, List.map_nil, List.reverse_append,
    List.reverse_singleton, List.cons_append, List.nil_append]

/-- Operators that wait inside an expression: prefix and binary ones, no looser than a level. -/
def Inside (bound : Nat) (pending : List Waiting) : Prop :=
  ∀ w ∈ pending, 2 ≤ w.op.priority ∧ w.op.priority ≤ bound

/-- What is no looser than a level is no looser than any above it. -/
theorem Inside.mono {bound bound' : Nat} {pending : List Waiting} (h : Inside bound pending)
    (hLe : bound ≤ bound') : Inside bound' pending := by
  intro w hw
  have hLevel := h w hw
  omega

/-- An operator that waits at the bottom is inside as well, if it is no looser than the bound. -/
theorem Inside.concat {level bound : Nat} {pending : List Waiting} {op : Operator}
    (h : Inside level pending) (hLevel : level ≤ bound)
    (hOp : 2 ≤ op.priority ∧ op.priority ≤ bound) (span : Span) :
    Inside bound (pending ++ [⟨op, span⟩]) := by
  intro w hw
  rcases List.mem_append.1 hw with hw | hw
  · exact h.mono hLevel w hw
  · rw [List.mem_singleton.1 hw]
    exact hOp

/-- Nothing waits inside a construct that ends with a bracket. -/
theorem Inside.eq_nil {pending : List Waiting} (h : Inside 1 pending) : pending = [] := by
  cases pending with
  | nil => rfl
  | cons w pending =>
    have hLevel := h w (List.mem_cons_self ..)
    omega

/-- An opener binds as tightly as nothing else does. -/
theorem isOpener_of_two_le {op : Operator} (h : 2 ≤ op.priority) : op.isOpener = false := by
  cases op <;> first | rfl | simp [Operator.priority] at h

/-- What waits on top can be looked through: it is empty, an opener, or an operator to the right of
which an expression of the level may stand. -/
def Withstands (waiting : List Waiting) (level : Nat) : Prop :=
  ∀ w rest, waiting = w :: rest → w.op.isOpener = false → level ≤ w.op.rightBound

/-- What can be looked through by an expression can be by one that binds more tightly. -/
theorem Withstands.mono {waiting : List Waiting} {level level' : Nat}
    (h : Withstands waiting level) (hLe : level' ≤ level) : Withstands waiting level' := by
  intro w rest hTop hOpener
  exact hLe.trans (h w rest hTop hOpener)

/-- Anything may stand behind an opener. -/
theorem withstands_opener (b : Bracket) (span : Span) (waiting : List Waiting) (level : Nat) :
    Withstands (⟨.opener b, span⟩ :: waiting) level := by
  intro w rest hTop hOpener
  cases hTop
  cases hOpener

/-- Behind an operator stands what its right side allows. -/
theorem withstands_cons {op : Operator} {level : Nat} (h : level ≤ op.rightBound) (span : Span)
    (waiting : List Waiting) : Withstands (⟨op, span⟩ :: waiting) level := by
  intro w rest hTop hOpener
  cases hTop
  exact h

/-! ## What an operator releases -/

/-- An operator waits in front of those to whose right it may stand. -/
theorem goesBefore_eq_false {w op : Operator} (h : op.priority ≤ w.rightBound)
    (hOp : 2 ≤ op.priority) : goesBefore w op = false := by
  unfold Operator.rightBound at h
  unfold goesBefore
  -- a level that groups to the left wants something tighter on its right
  split at h
  · simp only [Bool.or_eq_false_iff, decide_eq_false_iff_not, Bool.and_eq_false_iff,
      beq_eq_false_iff_ne]
    omega
  · rename_i hGroups
    rcases Nat.lt_or_eq_of_le h with hLess | hSame
    · simp only [Bool.or_eq_false_iff, decide_eq_false_iff_not, Bool.and_eq_false_iff,
        beq_eq_false_iff_ne]
      omega
    · -- operators of one level group alike
      have hRight : op.groupsLeft = false := by
        unfold Operator.groupsLeft at hGroups ⊢
        rw [hSame]
        simpa using hGroups
      simp [hRight, hSame]

/-- An operator releases those that may stand to its left. -/
theorem goesBefore_eq_true {w op : Operator} (h : w.priority ≤ op.leftBound)
    (hOp : 2 ≤ op.priority) : goesBefore w op = true := by
  unfold Operator.leftBound at h
  unfold goesBefore
  split at h
  · rename_i hGroups
    simp only [hGroups, Bool.and_true, Bool.or_eq_true, decide_eq_true_eq, beq_iff_eq]
    -- the left operand binds as tightly as the operator at most
    omega
  · simp only [Bool.or_eq_true, decide_eq_true_eq]
    left
    omega

/-- An operator that may stand behind what waits releases nothing. -/
theorem releasing_of_withstands {op : Operator} {waiting : List Waiting} (hOp : 2 ≤ op.priority)
    (h : Withstands waiting op.priority) (depth : Nat) (emitted : List Instruction) :
    releasing op depth emitted waiting = (emitted, waiting) := by
  cases waiting with
  | nil => rfl
  | cons w waiting =>
    unfold releasing
    cases hOpener : w.op.isOpener with
    | true => simp
    | false =>
      -- an operator on top binds less tightly
      have hLater := goesBefore_eq_false (h w waiting rfl hOpener) hOp
      simp [hLater]

/-- An operator releases all that waits inside its left operand, and nothing further. -/
theorem releasing_append {op : Operator} {waiting : List Waiting} (hOp : 2 ≤ op.priority)
    (h : Withstands waiting op.priority) (depth : Nat) {pending : List Waiting}
    (hInside : Inside op.leftBound pending) (emitted : List Instruction) :
    releasing op depth emitted (pending ++ waiting) =
      (flushed depth pending emitted, waiting) := by
  induction pending generalizing emitted with
  | nil => exact releasing_of_withstands hOp h depth emitted
  | cons w pending ih =>
    -- each operator inside binds at least as tightly as the left side allows
    obtain ⟨hTwo, hLeft⟩ := hInside w (List.mem_cons_self ..)
    have hRest : Inside op.leftBound pending := fun v hv => hInside v (List.mem_cons_of_mem _ hv)
    have hOpener := isOpener_of_two_le hTwo
    have hSooner := goesBefore_eq_true hLeft hOp
    rw [List.cons_append]
    unfold releasing
    simp only [hOpener, hSooner, Bool.not_false, Bool.and_self, if_true]
    rw [ih hRest, flushed_cons]
    rfl

/-- A closer emits all that waits inside its brackets, and then itself. -/
theorem closing_append {b opened closed : Bracket} (hMatch : matching? opened b = some closed)
    (span place : Span) (depth : Nat) (waiting : List Waiting) {bound : Nat}
    {pending : List Waiting} (hInside : Inside bound pending) (emitted : List Instruction) :
    closing b span (depth + 1) emitted (pending ++ ⟨.opener opened, place⟩ :: waiting) =
      .ok ⟨⟨.operator (.closer closed), span, depth⟩ :: flushed (depth + 1) pending emitted,
        waiting, depth⟩ := by
  induction pending generalizing emitted with
  | nil =>
    -- the opener is on top now, so the brackets are closed
    simp only [List.nil_append, closing, hMatch]
    rfl
  | cons w pending ih =>
    have hRest : Inside bound pending := fun v hv => hInside v (List.mem_cons_of_mem _ hv)
    have hOpener := isOpener_of_two_le (hInside w (List.mem_cons_self ..)).1
    obtain ⟨op, wSpan⟩ := w
    rw [List.cons_append, flushed_cons, ← ih hRest]
    cases op with
    | opener _ => cases hOpener
    | _ => rfl

/-- At the end all that waits is emitted. -/
theorem finishing_eq {bound : Nat} {pending : List Waiting} (hInside : Inside bound pending)
    (depth : Nat) (emitted : List Instruction) :
    finishing depth emitted pending = .ok (flushed depth pending emitted).reverse := by
  induction pending generalizing emitted with
  | nil => rfl
  | cons w pending ih =>
    have hRest : Inside bound pending := fun v hv => hInside v (List.mem_cons_of_mem _ hv)
    have hOpener := isOpener_of_two_le (hInside w (List.mem_cons_self ..)).1
    unfold finishing
    rw [hOpener, ih hRest, flushed_cons]
    rfl

/-! ## Tokens -/

/-- An operator that is no bracket and no terminator is put to wait. -/
theorem take_operator (p : Pass) (previous : Option TokenKind) {op : Operator} (span : Span)
    (hLow : 2 ≤ op.priority) (hHigh : op.priority ≤ 15) :
    p.take previous ⟨.operator op, span⟩ = .ok (p.operator op span) := by
  cases op <;> first | rfl | simp [Operator.priority] at hLow hHigh

/-- The kind of the last of some tokens, or of what stands in front of them. -/
def lastKind (previous : Option TokenKind) (ts : List Token) : Option TokenKind :=
  match ts.getLast? with
  | some t => some t.kind
  | none => previous

/-- The last of some tokens is the one at the end. -/
theorem lastKind_append (previous : Option TokenKind) (ts : List Token) (t : Token) :
    lastKind previous (ts ++ [t]) = some t.kind := by
  simp [lastKind]

/-- It does not matter what stands in front of a token that is followed by others. -/
theorem lastKind_append_cons (previous : Option TokenKind) (ts us : List Token) (u : Token) :
    lastKind previous (ts ++ u :: us) = lastKind (some u.kind) us := by
  unfold lastKind
  rw [List.getLast?_append]
  cases us with
  | nil => simp
  | cons v us => simp [List.getLast?_cons]

/-- The pass takes some tokens, and goes on with the others where it then is. -/
theorem takeAll_append (p : Pass) (previous : Option TokenKind) (ts us : List Token) :
    p.takeAll previous (ts ++ us) =
      match p.takeAll previous ts with
      | .error e => .error e
      | .ok q => q.takeAll (lastKind previous ts) us := by
  induction ts generalizing p previous with
  | nil => rfl
  | cons t ts ih =>
    simp only [List.cons_append, takeAll]
    split
    · rfl
    · rw [ih]
      have hLast := lastKind_append_cons previous [] ts t
      rw [List.nil_append] at hLast
      rw [hLast]

/-! ## Reading -/

/-- The pass reads the tokens as the sequence, at a place where an expression of the level may
stand: some of it is emitted, and the rest waits. -/
def Reads (depth : Nat) (ts : List Token) (is : List Instruction) (level : Nat) : Prop :=
  ∀ emitted waiting previous, opensCall previous = false → Withstands waiting level →
    ∃ done pending,
      takeAll ⟨emitted, waiting, depth⟩ previous ts =
        .ok ⟨done ++ emitted, pending ++ waiting, depth⟩ ∧
      flushed depth pending done = is.reverse ∧ Inside level pending

/-- Between brackets with nothing in them nothing is read. -/
theorem reads_nil (depth : Nat) : Reads depth [] [] 1 := by
  intro emitted waiting previous hPrevious hWaiting
  exact ⟨[], [], rfl, rfl, by simp [Inside]⟩

/-- A construct that ends with a bracket leaves nothing waiting. -/
theorem Reads.of_emitted {depth : Nat} {ts : List Token} {is : List Instruction}
    (h : ∀ emitted waiting previous, opensCall previous = false →
      Withstands waiting 1 →
      takeAll ⟨emitted, waiting, depth⟩ previous ts = .ok ⟨is.reverse ++ emitted, waiting, depth⟩) :
    Reads depth ts is 1 := by
  intro emitted waiting previous hPrevious hWaiting
  exact ⟨is.reverse, [], h emitted waiting previous hPrevious hWaiting, rfl, by simp [Inside]⟩

/-- The same the other way round. -/
theorem Reads.takeAll_eq {depth : Nat} {ts : List Token} {is : List Instruction}
    (h : Reads depth ts is 1) (emitted : List Instruction) {waiting : List Waiting}
    {previous : Option TokenKind} (hPrevious : opensCall previous = false)
    (hWaiting : Withstands waiting 1) :
    takeAll ⟨emitted, waiting, depth⟩ previous ts =
      .ok ⟨is.reverse ++ emitted, waiting, depth⟩ := by
  obtain ⟨done, pending, hTake, hDone, hInside⟩ := h emitted waiting previous hPrevious hWaiting
  obtain rfl := hInside.eq_nil
  rw [flushed_nil] at hDone
  rw [hTake, hDone, List.nil_append]

/-- A prefix operator is read with its operand, which it then follows. -/
theorem reads_prefixed {depth level : Nat} {ts : List Token} {is : List Instruction}
    (op : PrefixOperator) (span : Span) (h : Reads depth ts is level)
    (hLevel : level ≤ op.1.rightBound) :
    Reads depth (⟨.operator op, span⟩ :: ts) (is ++ [⟨.operator op, span, depth⟩])
      op.1.priority := by
  intro emitted waiting previous hPrevious hWaiting
  have hTwo := op.priority_eq
  have hBound := op.rightBound_eq
  -- behind a prefix operator an opener opens a group
  have hNotCall : opensCall (some (.operator op.1)) = false := by
    obtain ⟨op, hOp⟩ := op
    cases op <;> first | rfl | simp [Operator.priority] at hTwo
  obtain ⟨done, pending, hTake, hDone, hInside⟩ :=
    h emitted (⟨op.1, span⟩ :: waiting) _ hNotCall (withstands_cons hLevel span waiting)
  refine ⟨done, pending ++ [⟨op.1, span⟩], ?_, ?_, ?_⟩
  · -- the operator releases nothing and waits below all of its operand
    simp only [takeAll, take_operator _ previous span (Nat.le_of_eq hTwo.symm) (by omega), operator,
      releasing_of_withstands (Nat.le_of_eq hTwo.symm) hWaiting, hTake, List.append_assoc,
      List.singleton_append]
  · rw [flushed_concat, hDone, List.reverse_append]
    rfl
  · exact hInside.concat (by omega) (by omega) span

/-- An operator for two is read with its operands, which it then follows. -/
theorem reads_infix {depth left right : Nat} {ts us : List Token} {is js : List Instruction}
    {op : Operator} (span : Span) (hl : Reads depth ts is left) (hr : Reads depth us js right)
    (hLow : 3 ≤ op.priority) (hHigh : op.priority ≤ 15) (hLeft : left ≤ op.leftBound)
    (hRight : right ≤ op.rightBound) :
    Reads depth (ts ++ ⟨.operator op, span⟩ :: us) (is ++ js ++ [⟨.operator op, span, depth⟩])
      op.priority := by
  intro emitted waiting previous hPrevious hWaiting
  -- either side binds as tightly as the operator at most
  have hLeftBound : op.leftBound ≤ op.priority := by
    unfold Operator.leftBound
    split <;> omega
  have hRightBound : op.rightBound ≤ op.priority := by
    unfold Operator.rightBound
    split <;> omega
  have hNotCall : opensCall (some (.operator op)) = false := by
    cases op <;> first | rfl | simp [Operator.priority] at hLow
  obtain ⟨done, pending, hTake, hDone, hInside⟩ :=
    hl emitted waiting previous hPrevious (hWaiting.mono (by omega))
  -- the left operand is complete when the operator comes
  obtain ⟨done', pending', hTake', hDone', hInside'⟩ :=
    hr (flushed depth pending (done ++ emitted)) (⟨op, span⟩ :: waiting) _ hNotCall
      (withstands_cons hRight span waiting)
  rw [flushed_append, hDone] at hTake'
  refine ⟨done' ++ is.reverse, pending' ++ [⟨op, span⟩], ?_, ?_, ?_⟩
  · -- the operator releases what waits inside its left operand, and waits below the right one
    rw [takeAll_append, hTake]
    simp only [takeAll, take_operator _ _ span (by omega : 2 ≤ op.priority) hHigh, operator,
      releasing_append (by omega : 2 ≤ op.priority) hWaiting depth (hInside.mono hLeft),
      flushed_append, hDone, hTake', List.append_assoc, List.singleton_append]
  · rw [flushed_concat, flushed_append, hDone', List.reverse_append, List.reverse_append]
    rfl
  · exact hInside'.concat (by omega) (by omega) span

/-- What stands between brackets is emitted between them. -/
theorem takeAll_enclose {b : Bracket} {emitted : List Instruction} {waiting : List Waiting}
    {depth level : Nat} {previous : Option TokenKind} {ts : List Token} {is : List Instruction}
    (o c : Span) (h : Reads (depth + 1) ts is level)
    (hOpen : take ⟨emitted, waiting, depth⟩ previous ⟨.operator (.opener b.written), o⟩ =
      .ok (opening ⟨emitted, waiting, depth⟩ b o)) :
    takeAll ⟨emitted, waiting, depth⟩ previous (encloseTokens b o c ts) =
      .ok ⟨(encloseCode b o c depth is).reverse ++ emitted, waiting, depth⟩ := by
  have hMatch : matching? b b.written = some b := by cases b <;> rfl
  have hNotCall : opensCall (some (.operator (.opener b.written))) = false := rfl
  -- behind the opener anything may stand, and no call begins
  obtain ⟨done, pending, hTake, hDone, hInside⟩ :=
    h (⟨.operator (.opener b), o, depth⟩ :: emitted) (⟨.opener b, o⟩ :: waiting) _ hNotCall
      (withstands_opener b o waiting level)
  simp only [encloseTokens, takeAll, hOpen, opening, emit]
  rw [takeAll_append, hTake]
  simp only [takeAll, take, closing_append hMatch c o depth waiting hInside]
  rw [flushed_append, hDone]
  simp only [encloseCode, List.reverse_cons, List.reverse_append, List.reverse_nil,
    List.nil_append, List.cons_append, List.append_assoc]

/-- Brackets end with their closer. -/
theorem lastKind_enclose (previous : Option TokenKind) (ts : List Token) (b : Bracket) (o c : Span)
    (us : List Token) :
    lastKind previous (ts ++ encloseTokens b o c us) = some (.operator (.closer b.written)) := by
  have hEnd : ts ++ encloseTokens b o c us =
      (ts ++ ⟨.operator (.opener b.written), o⟩ :: us) ++ [⟨.operator (.closer b.written), c⟩] := by
    simp [encloseTokens]
  rw [hEnd, lastKind_append]

/-- Behind an expression that can be called, an opener opens a call. -/
theorem opensCall_lastKind {e : Expr} (h : e.isCallee) (previous : Option TokenKind) :
    opensCall (lastKind previous e.tokens) = true := by
  -- but for a name, all that can be called ends with a closer
  cases e with
  | name span => rfl
  | group o c contents =>
    have hGroup := lastKind_enclose previous [] .group o c contents.tokens
    rw [List.nil_append] at hGroup
    rw [Expr.tokens, hGroup]
    rfl
  | call f o c contents =>
    rw [Expr.tokens, lastKind_enclose]
    rfl
  | index e o c i =>
    rw [Expr.tokens, lastKind_enclose]
    rfl
  | _ => simp [Expr.isCallee] at h

/-- A construct behind an operand is read after the operand. -/
theorem reads_postfix {b : Bracket} {depth level : Nat} {ts us : List Token}
    {is js : List Instruction} (o c : Span) (hTarget : Reads depth ts is 1)
    (hContents : Reads (depth + 1) us js level)
    (hOpen : ∀ p previous, take p (lastKind previous ts) ⟨.operator (.opener b.written), o⟩ =
      .ok (opening p b o)) :
    Reads depth (ts ++ encloseTokens b o c us) (is ++ encloseCode b o c depth js) 1 := by
  refine .of_emitted fun emitted waiting previous hPrevious hWaiting => ?_
  rw [takeAll_append, hTarget.takeAll_eq emitted hPrevious hWaiting]
  dsimp only
  rw [takeAll_enclose o c hContents (hOpen _ previous), List.reverse_append, List.append_assoc]

/-- A construct that begins with its bracket is no call. -/
theorem reads_enclose {b : Bracket} {depth level : Nat} {us : List Token} {js : List Instruction}
    (o c : Span) (hContents : Reads (depth + 1) us js level)
    (hOpen : ∀ p previous, opensCall previous = false →
      take p previous ⟨.operator (.opener b.written), o⟩ = .ok (opening p b o)) :
    Reads depth (encloseTokens b o c us) (encloseCode b o c depth js) 1 :=
  .of_emitted fun _ _ _ hPrevious _ => takeAll_enclose o c hContents (hOpen _ _ hPrevious)

end Pass

end Postfix

open Postfix Postfix.Pass

mutual

/-- **An expression whose parts fit is read as its postfix order.** -/
theorem Expr.Fits.reads (depth : Nat) :
    ∀ {e : Expr}, e.Fits → Reads depth e.tokens (e.code depth) e.level
  | .number _ _, _ | .name _, _ =>
    Reads.of_emitted fun _ _ _ _ _ => rfl
  | .prefixed op span e, h => reads_prefixed op span (h.2.reads depth) h.1
  | .binary op span l r, h => by
    obtain ⟨⟨hLeft, hl⟩, hRight, hr⟩ := h
    have hLevel := op.priority_bounds
    exact reads_infix span (hl.reads depth) (hr.reads depth) hLevel.1 (by omega) hLeft hRight
  | .comma span l r, h => by
    obtain ⟨⟨hLeft, hl⟩, hRight, hr⟩ := h
    exact reads_infix span (hl.reads depth) (hr.reads depth) (by decide) (by decide) hLeft hRight
  | .group o c contents, h => by
    have hFits : contents.Fits := h
    obtain ⟨level, hContents⟩ := hFits.reads (depth + 1)
    refine reads_enclose o c hContents fun p previous hPrevious => ?_
    simp only [take, Bracket.written, hPrevious, Bool.false_eq_true, if_false]
  | .array o c contents, h => by
    have hFits : contents.Fits := h
    obtain ⟨level, hContents⟩ := hFits.reads (depth + 1)
    exact reads_enclose o c hContents fun p previous hPrevious => rfl
  | .call f o c contents, h => by
    obtain ⟨⟨hCallee, hf⟩, hRest⟩ := h
    obtain ⟨level, hContents⟩ := hRest.reads (depth + 1)
    have hTarget := hf.reads depth
    rw [Expr.level_of_isCallee hCallee] at hTarget
    refine reads_postfix o c hTarget hContents fun p previous => ?_
    simp only [take, Bracket.written, opensCall_lastKind hCallee, if_true]
  | .index e o c i, h => by
    obtain ⟨⟨hLevel, he⟩, hi⟩ := h
    have hOne := e.one_le_level
    have hTarget := he.reads depth
    rw [Nat.le_antisymm hLevel hOne] at hTarget
    exact reads_postfix o c hTarget (hi.reads (depth + 1)) fun p previous => rfl

/-- The same between brackets. -/
theorem Contents.Fits.reads (depth : Nat) :
    ∀ {contents : Contents}, contents.Fits →
      ∃ level, Reads depth contents.tokens (contents.code depth) level
  | .empty, _ => ⟨1, reads_nil depth⟩
  | .list e, h => by
    have he : e.Fits := h
    exact ⟨e.level, he.reads depth⟩

end

namespace Postfix

/-- A statement that is an expression whose parts fit is put into its postfix order. -/
theorem ofTokens_of_fits {e : Expr} (h : e.Fits) : ofTokens e.tokens = .ok (e.code 0) := by
  -- at the start nothing waits, so anything may stand there
  have hRoot : Withstands [] e.level := by
    intro w rest hTop
    cases hTop
  obtain ⟨done, pending, hTake, hDone, hInside⟩ := h.reads 0 [] [] none rfl hRoot
  rw [List.append_nil, List.append_nil] at hTake
  have hStart : takeAll {} none e.tokens = .ok ⟨done, pending, 0⟩ := hTake
  unfold ofTokens
  rw [hStart]
  show finishing 0 done pending = _
  rw [finishing_eq hInside, hDone, List.reverse_reverse]

end Postfix

end Reckon
