import Reckon.Proofs.Brackets

/-!
# Tokens and instructions

Putting a statement into postfix order moves operators behind their operands, and that is all it
does. Every token but a terminator becomes one instruction, with its span and what it is, and only
the brackets of a group may turn into those of a call. Numbers, names and brackets keep their order,
operators move to the right, and no instruction leaves the brackets that its token stands in.

What brackets something stands in is said by places: `openBefore` follows the brackets through a
sequence and gives the places of those that are open. Tokens and instructions are read the same way,
so the brackets around a token and those around its instruction can be compared
(`Postfix.Arranges.enclosed`), whatever operators and operands stand between them.

Spans need not tell tokens apart. A statement is therefore first taken with the number of each token
for its span; the spans of what has been emitted then are the places that the instructions come from
(`Postfix.Pass.Arranging`), and what holds of the numbers is carried over to the spans.

## Results

* `Pass.Arranging.release`: emitting an operator that waits arranges what has been emitted.
* `Pass.Taken.arranging`: taking a token does.
* `exists_arranges`: the sequence of a statement is an arrangement of its tokens.
-/

namespace Reckon

/-! ## Brackets by their places -/

/-- The places of the brackets that are open in front of a place, the innermost first, when `op`
says which operator stands where. -/
def openBefore (op : Nat → Option Operator) : Nat → List Nat
  | 0 => []
  | n + 1 =>
    match op n with
    | some (.opener _) => n :: openBefore op n
    | some (.closer _) => (openBefore op n).tail
    | _ => openBefore op n

/-- Whether something stays in order with what stands around it: numbers, names and brackets do, and
all other operators may be moved. -/
def staysInOrder : Option Operator → Bool
  | none => true
  | some op => op.isOpener || op.isCloser

/-- The operator at a place of a statement, if one stands there. -/
def Token.operatorAt (ts : List Token) (k : Nat) : Option Operator :=
  (ts[k]?).bind (·.kind.operator?)

/-- The operator at a place of a postfix sequence, if one stands there. -/
def Instruction.operatorAt (code : List Instruction) (n : Nat) : Option Operator :=
  (code[n]?).bind Instruction.operator?

/-- What a token becomes: the same thing, but that the brackets of a group may become those of a
call. -/
inductive TokenKind.Becomes : TokenKind → InstructionKind → Prop
  | number (numeral : Numeral) : Becomes (.number (some numeral)) (.number numeral)
  | name : Becomes .identifier .name
  | operator (op : Operator) : Becomes (.operator op) (.operator op)
  | callOpener : Becomes (.operator (.opener .group)) (.operator (.opener .call))
  | callCloser : Becomes (.operator (.closer .group)) (.operator (.closer .call))

namespace Postfix

/-- A postfix sequence is an arrangement of the tokens of a statement. The instruction at `n` comes
from the token at `place n`. -/
structure Arranges (ts : List Token) (code : List Instruction) (place : Nat → Nat) : Prop where
  /-- The instructions and the tokens other than terminators correspond one to one. -/
  bijective : Set.BijOn place {n | n < code.length}
    {k | k < ts.length ∧ Token.operatorAt ts k ≠ some .semicolon}
  /-- An instruction has the span of its token and is what the token becomes. -/
  becomes : ∀ n i, code[n]? = some i →
    ∃ t, ts[place n]? = some t ∧ i.span = t.span ∧ t.kind.Becomes i.kind
  /-- Numbers, names and brackets keep their order. -/
  ordered : ∀ m n, m < code.length → n < code.length →
    staysInOrder (Token.operatorAt ts (place m)) → staysInOrder (Token.operatorAt ts (place n)) →
      (m < n ↔ place m < place n)
  /-- Nothing comes before a number, a name or a bracket that stood in front of it. -/
  behind : ∀ m n, m < code.length → n < code.length →
    staysInOrder (Token.operatorAt ts (place m)) → place m < place n → m < n
  /-- An instruction stands in the brackets that its token stands in. -/
  enclosed : ∀ n, n < code.length →
    (openBefore (Instruction.operatorAt code) n).map place =
      openBefore (Token.operatorAt ts) (place n)
  /-- A closer ends a bracket of its own kind. -/
  nested : ∀ n b, Instruction.operatorAt code n = some (.closer b) →
    ∃ m outer, openBefore (Instruction.operatorAt code) n = m :: outer ∧
      Instruction.operatorAt code m = some (.opener b)
  /-- No bracket is left open. -/
  closed : openBefore (Instruction.operatorAt code) code.length = []
  /-- The depth of an instruction is the number of brackets it stands in. A closer does not stand in
  the bracket that it ends. -/
  depth : ∀ n i, code[n]? = some i →
    i.depth = (openBefore (Instruction.operatorAt code) n).length -
      if i.operator?.any Operator.isCloser then 1 else 0

end Postfix

/-! ## Following the brackets -/

section Places

variable {op op' : Nat → Option Operator} {n : Nat}

/-- Behind an opener its bracket is open. -/
theorem openBefore_opener {b : Bracket} (h : op n = some (.opener b)) :
    openBefore op (n + 1) = n :: openBefore op n := by
  rw [openBefore, h]

/-- Behind a closer the innermost bracket is closed. -/
theorem openBefore_closer {b : Bracket} (h : op n = some (.closer b)) :
    openBefore op (n + 1) = (openBefore op n).tail := by
  rw [openBefore, h]

/-- Behind anything else the same brackets are open. -/
theorem openBefore_other (hOpener : ∀ b, op n ≠ some (.opener b))
    (hCloser : ∀ b, op n ≠ some (.closer b)) : openBefore op (n + 1) = openBefore op n := by
  rw [openBefore]
  split
  · rename_i b h
    exact absurd h (hOpener b)
  · rename_i b h
    exact absurd h (hCloser b)
  · rfl

end Places

/-- What neither opens nor closes a bracket. -/
theorem Operator.not_bracket_of_priority {op : Operator} (h : 2 ≤ op.priority) :
    (∀ b, op ≠ .opener b) ∧ ∀ b, op ≠ .closer b := by
  constructor
  · rintro b rfl
    simp [Operator.priority] at h
  · rintro b rfl
    simp [Operator.priority] at h

namespace Postfix

namespace Pass

/-- The openers among what has been emitted, latest first, that have not been closed; the innermost
first. -/
def openIn : List Instruction → List Instruction
  | [] => []
  | i :: before =>
    match i.operator? with
    | some (.opener _) => i :: openIn before
    | some (.closer _) => (openIn before).tail
    | _ => openIn before

/-- **Following the brackets by their places and following the instructions is the same.** -/
theorem map_openBefore (code : List Instruction) :
    ∀ {n : Nat}, n ≤ code.length →
      (openBefore (Instruction.operatorAt code) n).map (code[·]?) =
        (openIn (code.take n).reverse).map some
  | 0, _ => by simp [openBefore, openIn]
  | n + 1, hn => by
    have ih := map_openBefore code (n := n) (by omega)
    have hThere : code[n]? = some code[n] := List.getElem?_eq_getElem hn
    have hOp : Instruction.operatorAt code n = (code[n]).operator? := by
      rw [Instruction.operatorAt, hThere, Option.bind_some]
    rw [List.take_succ_eq_append_getElem hn, List.reverse_append, List.reverse_singleton,
      List.singleton_append, openBefore, openIn, hOp]
    -- both stacks go by the same operator
    split
    · rw [List.map_cons, List.map_cons, ih, hThere]
    · rw [List.map_tail, List.map_tail, ih]
    · exact ih

/-! ## The numbers of the tokens -/

/-- Every token has its number for the start of its span. -/
def Numbered (ts : List Token) : Prop := ∀ k (t : Token), ts[k]? = some t → t.span.start = k

/-- The numbers of the first `k` tokens without the terminators. -/
def numbersBefore (ts : List Token) (k : Nat) : List Nat :=
  (List.range k).filter fun j => Token.operatorAt ts j ≠ some .semicolon

/-- What is right about an instruction that was emitted behind others. Its span starts with the
number of its token. -/
structure Placed (ts : List Token) (i : Instruction) (before : List Instruction) : Prop where
  becomes : ∃ t, ts[i.span.start]? = some t ∧ i.span = t.span ∧ t.kind.Becomes i.kind
  behind : staysInOrder i.operator? → ∀ j ∈ before, j.span.start < i.span.start
  enclosed : (openIn before).map (·.span.start) =
    openBefore (Token.operatorAt ts) i.span.start
  nested : ∀ b, i.operator? = some (.closer b) →
    ∃ o outer, openIn before = o :: outer ∧ o.operator? = some (.opener b)
  depth : i.depth = (openIn before).length -
    if i.operator?.any Operator.isCloser then 1 else 0

/-- What is right about an operator that waits on top of others: its span starts with the number of
its token, and the openers below are the brackets that the token stands in. -/
structure Due (ts : List Token) (w : Waiting) (below : List Waiting) : Prop where
  token : ts[w.span.start]? = some ⟨.operator w.op, w.span⟩
  enclosed : (openings below).map (·.span.start) = openBefore (Token.operatorAt ts) w.span.start

/-- The invariant of the pass over numbered tokens, of which `k` have been taken. -/
structure Arranging (ts : List Token) (k : Nat) (p : Pass) : Prop where
  placed : ∀ i before, i :: before <:+ p.emitted → Placed ts i before
  due : ∀ w below, w :: below <:+ p.waiting → w.op.isOpener = false → Due ts w below
  /-- The brackets that are open in what has been emitted are those that wait for their closers. -/
  opened : (openIn p.emitted).map (fun i => (i.operator?, i.span)) =
    (openings p.waiting).map fun o => (some (.opener o.bracket), o.span)
  /-- They are the brackets that the next token stands in. -/
  here : (openings p.waiting).map (·.span.start) = openBefore (Token.operatorAt ts) k
  depth : p.depth = (openings p.waiting).length
  /-- Every token that has been taken is there once. -/
  once : (p.emitted.map (·.span.start) ++
    (p.waiting.filter (!·.op.isOpener)).map (·.span.start)).Perm (numbersBefore ts k)

variable {ts : List Token} {k : Nat} {p q : Pass}

/-- Every token but a terminator adds its number. -/
theorem numbersBefore_succ {t : Token} (ht : ts[k]? = some t)
    (hKind : t.kind ≠ .operator .semicolon) :
    numbersBefore ts (k + 1) = numbersBefore ts k ++ [k] := by
  have hOp : Token.operatorAt ts k ≠ some .semicolon := by
    rw [Token.operatorAt, ht, Option.bind_some]
    intro hEq
    cases hT : t.kind with
    | operator op =>
      rw [hT] at hEq hKind
      exact hKind (congrArg _ (Option.some.inj hEq))
    | _ =>
      rw [hT] at hEq
      cases hEq
  rw [numbersBefore, List.range_succ, List.filter_append]
  simp [numbersBefore, hOp]

/-- A number that has been given to an instruction is that of a token that has been taken. -/
theorem Arranging.lt_of_mem (h : Arranging ts k p) {j : Instruction} (hj : j ∈ p.emitted) :
    j.span.start < k := by
  have hMem : j.span.start ∈ numbersBefore ts k :=
    h.once.subset (List.mem_append_left _ (List.mem_map_of_mem hj))
  exact List.mem_range.1 (List.mem_filter.1 hMem).1

/-- The places of the open brackets, read off what has been emitted. -/
theorem Arranging.map_openIn (h : Arranging ts k p) :
    (openIn p.emitted).map (·.span.start) = (openings p.waiting).map (·.span.start) := by
  have hSpans := congrArg (List.map fun x : Option Operator × Span => x.2.start) h.opened
  simpa [Function.comp_def] using hSpans

/-- As many brackets are open in what has been emitted as the depth says. -/
theorem Arranging.length_openIn (h : Arranging ts k p) :
    (openIn p.emitted).length = p.depth := by
  have hLength := congrArg List.length h.opened
  rw [List.length_map, List.length_map] at hLength
  rw [hLength, h.depth]

/-- One more instruction in front of others. -/
theorem forall_suffix_cons {P : Instruction → List Instruction → Prop} {i : Instruction}
    {is : List Instruction} (hFirst : P i is)
    (hRest : ∀ j before, j :: before <:+ is → P j before) :
    ∀ j before, j :: before <:+ i :: is → P j before := by
  intro j before hSuffix
  rcases List.suffix_cons_iff.1 hSuffix with hEq | hSuffix
  · cases hEq
    exact hFirst
  · exact hRest j before hSuffix

/-! ## Emission -/

/-- An operator that is no bracket opens and closes nothing. -/
theorem openIn_of_priority {i : Instruction} {op : Operator} (hi : i.operator? = some op)
    (hOp : 2 ≤ op.priority) (before : List Instruction) : openIn (i :: before) = openIn before := by
  obtain ⟨hOpener, hCloser⟩ := Operator.not_bracket_of_priority hOp
  rw [openIn, hi]
  split
  · rename_i b hEq
    exact absurd (Option.some.inj hEq) (hOpener b)
  · rename_i b hEq
    exact absurd (Option.some.inj hEq) (hCloser b)
  · rfl

/-- An operator that is no bracket may be moved. -/
theorem not_staysInOrder {op : Operator} (hOp : 2 ≤ op.priority) :
    ¬ (staysInOrder (some op) = true) ∧ op.isCloser = false := by
  cases op <;> simp_all [staysInOrder, Operator.isOpener, Operator.isCloser, Operator.priority]

/-- **Emitting an operator that waits on top.** Its token stands in the brackets that are open
below, and those are all that are open. -/
theorem Arranging.release {emitted : List Instruction} {w : Waiting} {waiting : List Waiting}
    {depth : Nat} (h : Arranging ts k ⟨emitted, w :: waiting, depth⟩) (hw : 2 ≤ w.op.priority) :
    Arranging ts k ⟨Waiting.instruction depth w :: emitted, waiting, depth⟩ := by
  have hOpener := isOpener_of_two_le hw
  have hOpenings : openings (w :: waiting) = openings waiting := openings_operator hOpener waiting
  obtain ⟨hMoves, hCloser⟩ := not_staysInOrder hw
  have hDue := h.due w waiting (List.suffix_refl _) hOpener
  have hOpen := h.map_openIn
  have hLength := h.length_openIn
  dsimp only at hOpen hLength
  rw [hOpenings] at hOpen
  have hPlaced : Placed ts (Waiting.instruction depth w) emitted := by
    refine ⟨⟨_, hDue.token, rfl, .operator _⟩, fun hStays => absurd hStays hMoves, ?_, ?_, ?_⟩
    · exact hOpen.trans hDue.enclosed
    · intro b hEq
      exact absurd (Option.some.inj hEq) ((Operator.not_bracket_of_priority hw).2 b)
    · show depth = (openIn emitted).length - if w.op.isCloser then 1 else 0
      rw [hCloser, hLength]
      rfl
  refine ⟨forall_suffix_cons hPlaced h.placed, ?_, ?_, ?_, ?_, ?_⟩
  · intro v below hSuffix
    exact h.due v below (hSuffix.trans (List.suffix_cons _ _))
  · rw [openIn_of_priority rfl hw, ← hOpenings]
    exact h.opened
  · rw [← hOpenings]
    exact h.here
  · rw [← hOpenings]
    exact h.depth
  · -- the number of the operator has moved from what waits to what has been emitted
    have hOnce := h.once
    simp only [List.filter_cons, hOpener, Bool.not_false, if_true, List.map_cons] at hOnce
    refine List.Perm.trans ?_ hOnce
    exact List.perm_middle.symm

/-- Emitting all operators that wait on top. -/
theorem Arranging.flushed {waiting : List Waiting} {depth : Nat} :
    ∀ {ends : List Waiting} {emitted : List Instruction}, Inside 15 ends →
      Arranging ts k ⟨emitted, ends ++ waiting, depth⟩ →
      Arranging ts k ⟨Pass.flushed depth ends emitted, waiting, depth⟩
  | [], emitted, _, h => h
  | w :: ends, emitted, hInside, h => by
    rw [flushed_cons]
    -- the operator on top is emitted first, and what is left is arranged again
    have hFirst := h.release (hInside w (List.mem_cons_self ..)).1
    exact hFirst.flushed fun v hv => hInside v (List.mem_cons_of_mem _ hv)

/-! ## Taking tokens -/

/-- The operator at a place is that of the token which stands there. -/
theorem operatorAt_of_getElem? {t : Token} (ht : ts[k]? = some t) :
    Token.operatorAt ts k = t.kind.operator? := by
  rw [Token.operatorAt, ht, Option.bind_some]

/-- What is emitted for the next token itself is right. -/
theorem Arranging.placed_next {t : Token} {i : Instruction} (h : Arranging ts k p)
    (hNumbered : Numbered ts) (ht : ts[k]? = some t) (hSpan : i.span = t.span)
    (hKind : t.kind.Becomes i.kind) (hNested : ∀ b, i.operator? = some (.closer b) →
      ∃ o outer, openIn p.emitted = o :: outer ∧ o.operator? = some (.opener b))
    (hDepth : i.depth = p.depth - if i.operator?.any Operator.isCloser then 1 else 0) :
    Placed ts i p.emitted := by
  have hStart : i.span.start = k := by rw [hSpan, hNumbered k t ht]
  refine ⟨⟨t, by rw [hStart, ht], hSpan, hKind⟩, ?_, ?_, hNested, by rw [h.length_openIn, hDepth]⟩
  · -- all that has been emitted comes from tokens in front of this one
    intro _ j hj
    rw [hStart]
    exact h.lt_of_mem hj
  · rw [hStart, h.map_openIn, h.here]

/-- The number of the next token comes to the numbers of those that have been taken. -/
theorem Arranging.once_next {t : Token} (h : Arranging ts k p) (hNumbered : Numbered ts)
    (ht : ts[k]? = some t) (hKept : t.kind ≠ .operator .semicolon) :
    (t.span.start :: (p.emitted.map (·.span.start) ++
      (p.waiting.filter (!·.op.isOpener)).map (·.span.start))).Perm (numbersBefore ts (k + 1)) := by
  rw [numbersBefore_succ ht hKept, hNumbered k t ht]
  exact (h.once.cons k).trans (List.perm_append_singleton k _).symm

/-- An operand is emitted at once. -/
theorem Arranging.emit {kind : TokenKind} {kind' : InstructionKind} {span : Span}
    (h : Arranging ts k p) (hNumbered : Numbered ts) (ht : ts[k]? = some ⟨kind, span⟩)
    (hKind : kind.Becomes kind') (hOperand : kind.operator? = none)
    (hOperand' : (Instruction.mk kind' span p.depth).operator? = none) :
    Arranging ts (k + 1) (p.emit kind' span) := by
  have hNone : Token.operatorAt ts k = none := (operatorAt_of_getElem? ht).trans hOperand
  have hPlaced : Placed ts ⟨kind', span, p.depth⟩ p.emitted :=
    h.placed_next hNumbered ht rfl hKind (by simp [hOperand']) (by simp [hOperand'])
  refine ⟨forall_suffix_cons hPlaced h.placed, h.due, ?_, ?_, h.depth, ?_⟩
  · show (openIn (⟨kind', span, p.depth⟩ :: p.emitted)).map _ = _
    rw [openIn, hOperand']
    exact h.opened
  · -- an operand opens and closes nothing
    rw [openBefore_other (by simp [hNone]) (by simp [hNone])]
    exact h.here
  · have hKept : kind ≠ .operator .semicolon := by
      rintro rfl
      cases hOperand
    exact h.once_next hNumbered ht hKept

/-- An opener is emitted at once, and waits for its closer. -/
theorem Arranging.opening {b b' : Bracket} {span : Span} (h : Arranging ts k p)
    (hNumbered : Numbered ts) (ht : ts[k]? = some ⟨.operator (.opener b), span⟩)
    (hKind : TokenKind.Becomes (.operator (.opener b)) (.operator (.opener b'))) :
    Arranging ts (k + 1) (p.opening b' span) := by
  have hStart : span.start = k := hNumbered k _ ht
  have hPlaced : Placed ts ⟨.operator (.opener b'), span, p.depth⟩ p.emitted :=
    h.placed_next hNumbered ht rfl hKind (by simp [Instruction.operator?])
      (by simp [Instruction.operator?, Operator.isCloser])
  refine ⟨forall_suffix_cons hPlaced h.placed, ?_, ?_, ?_, ?_, ?_⟩
  · -- the opener itself is no operator that is due
    intro w below hSuffix hOther
    rcases List.suffix_cons_iff.1 hSuffix with hEq | hSuffix
    · cases hEq
      cases hOther
    · exact h.due w below hSuffix hOther
  · show ((some (.opener b'), span) :: (openIn p.emitted).map _ : List (Option Operator × Span)) = _
    rw [h.opened]
    rfl
  · show (span.start :: (openings p.waiting).map _ : List Nat) = _
    rw [h.here, hStart, openBefore_opener (operatorAt_of_getElem? ht)]
  · show p.depth + 1 = (openings p.waiting).length + 1
    rw [h.depth]
  · exact h.once_next hNumbered ht (by simp)

/-- A closer is emitted behind what waits inside its bracket. -/
theorem Arranging.closing {emitted : List Instruction} {waiting : List Waiting} {depth : Nat}
    {b opened closed : Bracket} {place span : Span} (hNumbered : Numbered ts)
    (h : Arranging ts k ⟨emitted, ⟨.opener opened, place⟩ :: waiting, depth⟩)
    (ht : ts[k]? = some ⟨.operator (.closer b), span⟩)
    (hMatch : matching? opened b = some closed) :
    Arranging ts (k + 1) ⟨⟨.operator (.closer closed), span, depth - 1⟩ :: emitted, waiting,
      depth - 1⟩ := by
  obtain rfl := eq_of_matching hMatch
  have hKind : TokenKind.Becomes (.operator (.closer b)) (.operator (.closer closed)) := by
    unfold matching? at hMatch
    split at hMatch
    · rename_i hSame
      rw [hSame]
      exact .operator _
    · split at hMatch
      · rename_i hCall
        obtain ⟨rfl, rfl⟩ := hCall
        exact .callCloser
      · cases hMatch
  -- the bracket that waits on top is the innermost one in what has been emitted
  have hOpened := h.opened
  dsimp only at hOpened
  rw [openings_opener, List.map_cons, List.map_eq_cons_iff] at hOpened
  obtain ⟨o, outer, hOpenIn, hInnermost, hOuter⟩ := hOpened
  have hPlaced : Placed ts ⟨.operator (.closer closed), span, depth - 1⟩ emitted := by
    refine h.placed_next hNumbered ht rfl hKind ?_
      (by simp [Instruction.operator?, Operator.isCloser])
    intro b' hEq
    cases hEq
    exact ⟨o, outer, hOpenIn, congrArg Prod.fst hInnermost⟩
  refine ⟨forall_suffix_cons hPlaced h.placed, ?_, ?_, ?_, ?_, ?_⟩
  · intro w below hSuffix
    exact h.due w below (hSuffix.trans (List.suffix_cons _ _))
  · show (openIn emitted).tail.map _ = _
    rw [hOpenIn]
    exact hOuter
  · have hHere := h.here
    rw [openBefore_closer (operatorAt_of_getElem? ht), ← hHere]
    rfl
  · have hDepth := h.depth
    dsimp only at hDepth ⊢
    rw [openings_opener, List.length_cons] at hDepth
    omega
  · exact h.once_next hNumbered ht (by simp)

/-- An operator waits for the brackets that its token stands in. -/
theorem Arranging.wait {emitted : List Instruction} {waiting : List Waiting} {depth : Nat}
    {op : Operator} {span : Span} (h : Arranging ts k ⟨emitted, waiting, depth⟩)
    (hNumbered : Numbered ts) (ht : ts[k]? = some ⟨.operator op, span⟩)
    (hLow : 2 ≤ op.priority) (hHigh : op.priority ≤ 15) :
    Arranging ts (k + 1) ⟨emitted, ⟨op, span⟩ :: waiting, depth⟩ := by
  -- the number of the token that comes is the number of those taken
  have hStart : span.start = k := hNumbered k _ ht
  have hOpener := isOpener_of_two_le hLow
  have hOp : Token.operatorAt ts k = some op := operatorAt_of_getElem? ht
  obtain ⟨hNoOpener, hNoCloser⟩ := Operator.not_bracket_of_priority hLow
  have hOpenings : openings (⟨op, span⟩ :: waiting) = openings waiting :=
    openings_operator hOpener waiting
  refine ⟨h.placed, ?_, ?_, ?_, ?_, ?_⟩
  · intro w below hSuffix hOther
    rcases List.suffix_cons_iff.1 hSuffix with hEq | hSuffix
    · -- the openers below are the brackets that are open here
      cases hEq
      exact ⟨by rw [hStart, ht], by rw [hStart]; exact h.here⟩
    · exact h.due w below hSuffix hOther
  · rw [hOpenings]
    exact h.opened
  · rw [hOpenings, openBefore_other (by simpa [hOp] using hNoOpener)
      (by simpa [hOp] using hNoCloser)]
    exact h.here
  · rw [hOpenings]
    exact h.depth
  · have hKept : op ≠ .semicolon := by
      rintro rfl
      simp [Operator.priority] at hHigh
    simp only [List.filter_cons, hOpener, Bool.not_false, if_true, List.map_cons]
    refine List.perm_middle.trans ?_
    exact h.once_next hNumbered ht (by simpa using hKept)

/-- A terminator is passed over. -/
theorem Arranging.skip {span : Span} (h : Arranging ts k p)
    (ht : ts[k]? = some ⟨.operator .semicolon, span⟩) : Arranging ts (k + 1) p := by
  have hOp : Token.operatorAt ts k = some .semicolon := operatorAt_of_getElem? ht
  refine ⟨h.placed, h.due, h.opened, ?_, h.depth, ?_⟩
  · rw [openBefore_other (by simp [hOp]) (by simp [hOp])]
    exact h.here
  · -- a terminator has no number among those that are counted
    have hSame : numbersBefore ts (k + 1) = numbersBefore ts k := by
      rw [numbersBefore, List.range_succ, List.filter_append]
      simp [numbersBefore, hOp]
    rw [hSame]
    exact h.once

/-- **Taking a token arranges it.** -/
theorem Taken.arranging {previous : Option TokenKind} {t : Token} (hTaken : Taken p previous t q)
    (hNumbered : Numbered ts) (ht : ts[k]? = some t) (h : Arranging ts k p) :
    Arranging ts (k + 1) q := by
  cases hTaken with
  | number numeral span => exact h.emit hNumbered ht (.number numeral) rfl rfl
  | name span => exact h.emit hNumbered ht .name rfl rfl
  | opening b span =>
    refine h.opening hNumbered ht ?_
    unfold openedBehind
    split
    · rename_i hCall
      rw [hCall.1]
      exact .callOpener
    · exact .operator _
  | closing span hWaiting hInside hMatch =>
    obtain ⟨emitted, waiting, depth⟩ := p
    dsimp only at hWaiting
    subst hWaiting
    exact (h.flushed hInside).closing hNumbered ht hMatch
  | semicolon span => exact h.skip ht
  | operator span hLow hHigh hWaiting hInside hBefore =>
    obtain ⟨emitted, waiting, depth⟩ := p
    dsimp only at hWaiting
    subst hWaiting
    exact (h.flushed hInside).wait hNumbered ht hLow hHigh

/-- Before the first token nothing has been emitted and nothing waits. -/
theorem arranging_start (ts : List Token) : Arranging ts 0 {} where
  placed i before hSuffix := by simp at hSuffix
  due w below hSuffix := by simp at hSuffix
  opened := rfl
  here := rfl
  depth := rfl
  once := by simp [numbersBefore]

/-- Taking all tokens that are left. -/
theorem Arranging.takeAll (hNumbered : Numbered ts) :
    ∀ {us pre : List Token} {previous : Option TokenKind} {p q : Pass}, ts = pre ++ us →
      Layered p.waiting → p.takeAll previous us = .ok q → Arranging ts pre.length p →
      Arranging ts ts.length q
  | [], pre, previous, p, q, hSplit, _, hTake, h => by
    cases hTake
    rw [List.append_nil] at hSplit
    subst hSplit
    exact h
  | t :: us, pre, previous, p, q, hSplit, hLayered, hTake, h => by
    rw [Pass.takeAll] at hTake
    split at hTake
    · cases hTake
    · rename_i mid hMid
      have hTaken := taken hLayered hMid
      -- the next token is the one behind all that have been taken
      have ht : ts[pre.length]? = some t := by
        rw [hSplit, List.getElem?_append_right (Nat.le_refl _), Nat.sub_self]
        rfl
      have hNext := hTaken.arranging hNumbered ht h
      have hSplit' : ts = (pre ++ [t]) ++ us := by
        rw [hSplit, List.append_assoc]
        rfl
      have hLength : (pre ++ [t]).length = pre.length + 1 := by simp
      rw [← hLength] at hNext
      exact Arranging.takeAll hNumbered hSplit' (hTaken.layered hLayered) hTake hNext

end Pass

open Pass

/-! ## Statements -/

variable {ts : List Token} {code : List Instruction}

/-- At the end nothing waits, and every instruction is right behind those in front of it. -/
theorem exists_arranging (hNumbered : Numbered ts) (h : ofTokens ts = .ok code) :
    ∃ depth, Arranging ts ts.length ⟨code.reverse, [], depth⟩ := by
  unfold ofTokens at h
  split at h
  · cases h
  · rename_i q hTake
    have hStart : Layered ({} : Pass).waiting := by
      intro w hw
      cases hw
    obtain ⟨-, hLayered⟩ := later_of_takeAll hStart hTake
    have hAll := (arranging_start ts).takeAll hNumbered (show ts = [] ++ ts from rfl)
      hStart hTake
    obtain ⟨hInside, hCode⟩ := exists_of_finishing hLayered h
    refine ⟨q.depth, ?_⟩
    rw [hCode, List.reverse_reverse]
    -- no opener waits any more, so what waits comes out as in front of a closer
    refine Arranging.flushed hInside ?_
    rw [List.append_nil]
    exact hAll

/-- The place that an instruction comes from, when the tokens are numbered. -/
def numberAt (code : List Instruction) (n : Nat) : Nat := ((code[n]?).map (·.span.start)).getD 0

/-- The place is the number in the span. -/
theorem numberAt_of_getElem? {n : Nat} {i : Instruction} (hi : code[n]? = some i) :
    numberAt code n = i.span.start := by
  rw [numberAt, hi]
  rfl

/-- An instruction comes behind those in front of it, read from the end. -/
theorem suffix_of_getElem? {n : Nat} {i : Instruction} (hi : code[n]? = some i) :
    i :: (code.take n).reverse <:+ code.reverse := by
  obtain ⟨hn, rfl⟩ := List.getElem?_eq_some_iff.1 hi
  have hSplit : code = code.take n ++ code[n] :: code.drop (n + 1) := by
    rw [← List.drop_eq_getElem_cons hn, List.take_append_drop]
  have hReverse := congrArg List.reverse hSplit
  rw [List.reverse_append, List.reverse_cons, List.append_assoc] at hReverse
  exact ⟨(code.drop (n + 1)).reverse, hReverse.symm⟩

/-- The entries of a list without repetition correspond to their places one to one. -/
theorem bijOn_getD {l : List Nat} (hNodup : l.Nodup) :
    Set.BijOn (fun n => l.getD n 0) {n | n < l.length} {k | k ∈ l} := by
  refine ⟨?_, ?_, ?_⟩
  · intro n (hn : n < l.length)
    show l.getD n 0 ∈ l
    rw [List.getD_eq_getElem l 0 hn]
    exact List.getElem_mem hn
  · intro m (hm : m < l.length) n (hn : n < l.length) hEq
    dsimp only at hEq
    rw [List.getD_eq_getElem l 0 hm, List.getD_eq_getElem l 0 hn] at hEq
    exact hNodup.getElem_inj_iff.1 hEq
  · intro k hk
    obtain ⟨n, hn, rfl⟩ := List.getElem_of_mem hk
    exact ⟨n, hn, List.getD_eq_getElem l 0 hn⟩

/-- What a token becomes stays in order if the token does. -/
theorem staysInOrder_of_becomes {t : Token} {i : Instruction} (h : t.kind.Becomes i.kind) :
    staysInOrder i.operator? = staysInOrder t.kind.operator? := by
  obtain ⟨kind, span⟩ := t
  obtain ⟨kind', span', depth⟩ := i
  dsimp only at h
  cases h <;> rfl

/-- The brackets that are open in front of an instruction come from the tokens that opened them. -/
theorem map_numberAt_openBefore {n : Nat} (hn : n ≤ code.length) :
    (openBefore (Instruction.operatorAt code) n).map (numberAt code) =
      (openIn (code.take n).reverse).map (·.span.start) := by
  have hMap := congrArg (List.map fun i? : Option Instruction => (i?.map (·.span.start)).getD 0)
    (map_openBefore code hn)
  rw [List.map_map, List.map_map] at hMap
  exact hMap

/-- **The sequence of numbered tokens is an arrangement of them.** -/
theorem arranges_of_numbered (hNumbered : Numbered ts) (h : ofTokens ts = .ok code) :
    Arranges ts code (numberAt code) := by
  obtain ⟨depth, hAll⟩ := exists_arranging hNumbered h
  have hPlaced (n : Nat) (i : Instruction) (hi : code[n]? = some i) :
      Placed ts i (code.take n).reverse := hAll.placed _ _ (suffix_of_getElem? hi)
  have hThere (n : Nat) (hn : n < code.length) : code[n]? = some code[n] :=
    List.getElem?_eq_getElem hn
  have hBijective : Set.BijOn (numberAt code) {n | n < code.length}
      {k | k < ts.length ∧ Token.operatorAt ts k ≠ some .semicolon} := by
    -- nothing waits at the end, so every number has been given to an instruction
    have hOnce : (code.map (·.span.start)).Perm (numbersBefore ts ts.length) := by
      have hPerm := hAll.once
      simp only [List.filter_nil, List.map_nil, List.append_nil, List.map_reverse] at hPerm
      exact (List.reverse_perm _).symm.trans hPerm
    have hNodup : (code.map (·.span.start)).Nodup :=
      hOnce.nodup_iff.2 (List.nodup_range.filter _)
    have hTarget : {k | k < ts.length ∧ Token.operatorAt ts k ≠ some .semicolon} =
        {k | k ∈ code.map (·.span.start)} := by
      ext k
      show (k < ts.length ∧ _) ↔ k ∈ code.map (·.span.start)
      rw [hOnce.mem_iff, numbersBefore, List.mem_filter, List.mem_range, decide_eq_true_eq]
    have hPlaces := bijOn_getD hNodup
    rw [List.length_map] at hPlaces
    rw [hTarget]
    refine hPlaces.congr fun n hn => ?_
    simp [numberAt, List.getD_eq_getElem?_getD]
  have hBehind (m n : Nat) (hm : m < code.length) (hn : n < code.length)
      (hStays : staysInOrder (Token.operatorAt ts (numberAt code m)))
      (hLt : numberAt code m < numberAt code n) : m < n := by
    by_contra hNot
    rw [numberAt_of_getElem? (hThere m hm), numberAt_of_getElem? (hThere n hn)] at hLt
    have hNe : m ≠ n := by
      rintro rfl
      exact Nat.lt_irrefl _ hLt
    -- what stays in order comes behind all that was emitted before it
    obtain ⟨t, ht, -, hBecomes⟩ := (hPlaced m _ (hThere m hm)).becomes
    rw [numberAt_of_getElem? (hThere m hm), operatorAt_of_getElem? ht,
      ← staysInOrder_of_becomes hBecomes] at hStays
    have hBefore : code[n] ∈ (code.take m).reverse := by
      rw [List.mem_reverse, List.mem_take_iff_getElem]
      exact ⟨n, by omega, rfl⟩
    have hGt := (hPlaced m _ (hThere m hm)).behind hStays _ hBefore
    omega
  refine ⟨hBijective, ?_, ?_, hBehind, ?_, ?_, ?_, ?_⟩
  · intro n i hi
    rw [numberAt_of_getElem? hi]
    exact (hPlaced n i hi).becomes
  · intro m n hm hn hStays hStays'
    refine ⟨fun hLt => ?_, hBehind m n hm hn hStays⟩
    -- the other order of the numbers would be the other order of the places
    rcases Nat.lt_trichotomy (numberAt code m) (numberAt code n) with hOk | hEq | hGt
    · exact hOk
    · have hSame := hBijective.injOn hm hn hEq
      omega
    · have hBack := hBehind n m hn hm hStays' hGt
      omega
  · intro n hn
    rw [map_numberAt_openBefore (Nat.le_of_lt hn), numberAt_of_getElem? (hThere n hn)]
    exact (hPlaced n _ (hThere n hn)).enclosed
  · intro n b hCloser
    obtain ⟨i, hi, hOp⟩ := Option.bind_eq_some_iff.1 hCloser
    obtain ⟨hn, -⟩ := List.getElem?_eq_some_iff.1 hi
    obtain ⟨o, outer, hOpenIn, hOpener⟩ := (hPlaced n i hi).nested b hOp
    have hMap := map_openBefore code (Nat.le_of_lt hn)
    rw [hOpenIn, List.map_cons, List.map_eq_cons_iff] at hMap
    obtain ⟨m, outer', hOpen, hm, -⟩ := hMap
    refine ⟨m, outer', hOpen, ?_⟩
    rw [Instruction.operatorAt, hm, Option.bind_some, hOpener]
  · -- nothing waits at the end, so no opener has been left without its closer
    have hNone : openIn code.reverse = [] := List.map_eq_nil_iff.1 hAll.opened
    have hMap := map_openBefore code (Nat.le_refl _)
    rw [List.take_length, hNone, List.map_nil] at hMap
    exact List.map_eq_nil_iff.1 hMap
  · intro n i hi
    obtain ⟨hn, -⟩ := List.getElem?_eq_some_iff.1 hi
    have hLength := congrArg List.length (map_openBefore code (Nat.le_of_lt hn))
    rw [List.length_map, List.length_map] at hLength
    rw [hLength]
    exact (hPlaced n i hi).depth

/-! ## Spans for numbers -/

/-- The tokens of a statement with their numbers for their spans. -/
def numbered (ts : List Token) : List Token := ts.mapIdx fun k t => ⟨t.kind, ⟨k, k⟩⟩

/-- A token has its number for its span. -/
theorem numbered_numbered (ts : List Token) : Numbered (numbered ts) := by
  intro k t ht
  rw [numbered, List.getElem?_mapIdx, Option.map_eq_some_iff] at ht
  obtain ⟨u, -, rfl⟩ := ht
  rfl

/-- Numbering the tokens leaves the operators where they are. -/
theorem operatorAt_numbered (ts : List Token) :
    Token.operatorAt (numbered ts) = Token.operatorAt ts := by
  funext k
  rw [Token.operatorAt, Token.operatorAt, numbered, List.getElem?_mapIdx]
  cases ts[k]? <;> rfl

/-- A span goes with the number of its token. -/
def NumberOf (ts : List Token) (span number : Span) : Prop :=
  ∃ t, ts[number.start]? = some t ∧ span = t.span

/-- Every token goes with the one that is numbered in its place. -/
theorem moved_numbered (ts : List Token) :
    List.Forall₂ (Token.Moved (NumberOf ts)) ts (numbered ts) := by
  rw [List.forall₂_iff_get]
  refine ⟨by rw [numbered, List.length_mapIdx], fun k hk hk' => ?_⟩
  simp only [numbered, List.get_eq_getElem, List.getElem_mapIdx]
  exact ⟨rfl, ts[k], List.getElem?_eq_getElem hk, rfl⟩

section Moved

variable {R : Span → Span → Prop} {code' : List Instruction}

/-- An instruction has a counterpart at the same place. -/
theorem exists_moved_of_getElem? (hCode : List.Forall₂ (Instruction.Moved R) code code') {n : Nat}
    {i : Instruction} (hi : code[n]? = some i) :
    ∃ i', code'[n]? = some i' ∧ i.Moved R i' := by
  obtain ⟨hLength, hGet⟩ := List.forall₂_iff_get.1 hCode
  obtain ⟨hn, rfl⟩ := List.getElem?_eq_some_iff.1 hi
  have hn' : n < code'.length := by rwa [← hLength]
  exact ⟨code'[n], List.getElem?_eq_getElem hn', hGet n hn hn'⟩

/-- The operators stand at the same places. -/
theorem operatorAt_moved (hCode : List.Forall₂ (Instruction.Moved R) code code') :
    Instruction.operatorAt code' = Instruction.operatorAt code := by
  funext n
  rw [Instruction.operatorAt, Instruction.operatorAt]
  cases hi : code[n]? with
  | none =>
    have hNone : code'[n]? = none := by
      rw [List.getElem?_eq_none_iff] at hi ⊢
      rwa [← hCode.length_eq]
    rw [hNone]
  | some i =>
    obtain ⟨i', hi', hKind, -⟩ := exists_moved_of_getElem? hCode hi
    rw [hi', Option.bind_some, Option.bind_some, Instruction.operator?, Instruction.operator?,
      hKind]

end Moved

/-- **Postfix order arranges the tokens of a statement.** Each token but terminators becomes one
instruction, operators move behind what they stood in front of and stay in their brackets, and all
else keeps its order. -/
theorem exists_arranges (h : ofTokens ts = .ok code) : ∃ place, Arranges ts code place := by
  -- the order does not depend on the spans, so the numbered tokens come out the same way
  have hSame := ofTokens_moved (moved_numbered ts)
  rw [h] at hSame
  generalize hAnswer : ofTokens (numbered ts) = answer at hSame
  cases hSame with
  | @ok _ code' hCode =>
    obtain ⟨hBijective, hBecomes, hOrdered, hBehind, hEnclosed, hNested, hClosed, hDepth⟩ :=
      arranges_of_numbered (numbered_numbered ts) hAnswer
    rw [operatorAt_numbered] at hBijective hOrdered hBehind hEnclosed
    rw [operatorAt_moved hCode] at hEnclosed hNested hClosed hDepth
    rw [← hCode.length_eq] at hBijective hOrdered hBehind hEnclosed hClosed
    have hLength : (numbered ts).length = ts.length := by rw [numbered, List.length_mapIdx]
    rw [hLength] at hBijective
    refine ⟨numberAt code', hBijective, ?_, hOrdered, hBehind, hEnclosed, hNested, hClosed, ?_⟩
    · -- the number that an instruction carries is that of the token with its span
      intro n i hi
      obtain ⟨i', hi', hKind, -, t, ht, hSpan⟩ := exists_moved_of_getElem? hCode hi
      obtain ⟨u, hu, -, hBecome⟩ := hBecomes n i' hi'
      rw [numberAt_of_getElem? hi'] at hu ⊢
      refine ⟨t, ht, hSpan, ?_⟩
      rw [numbered, List.getElem?_mapIdx, ht] at hu
      cases hu
      rw [← hKind]
      exact hBecome
    · intro n i hi
      obtain ⟨i', hi', hKind, hSameDepth, -⟩ := exists_moved_of_getElem? hCode hi
      have hOp : i'.operator? = i.operator? := by
        rw [Instruction.operator?, Instruction.operator?, hKind]
      have hFound := hDepth n i' hi'
      rw [hSameDepth, hOp] at hFound
      exact hFound

/-- The tokens of `f(a, -b * {1}[0]) + c;`, all with the same span. -/
def jumbled : List Token :=
  [.identifier, .operator (.opener .group), .identifier, .operator .comma, .operator .minus,
    .identifier, .operator .mul, .operator (.opener .array), .number (some .decimal),
    .operator (.closer .array), .operator (.opener .index), .number (some .decimal),
    .operator (.closer .index), .operator (.closer .group), .operator .add, .identifier,
    .operator .semicolon].map (⟨·, ⟨0, 1⟩⟩)

/-- The call, the comma in it and two operators around brackets are all moved or turned, and no span
tells one token from another. -/
theorem exists_arranges_jumbled :
    ∃ code, ofTokens jumbled = .ok code ∧ ∃ place, Arranges jumbled code place := by
  have hCode : ∃ code, ofTokens jumbled = .ok code := ⟨_, rfl⟩
  obtain ⟨code, hCode⟩ := hCode
  exact ⟨code, hCode, exists_arranges hCode⟩

end Postfix

end Reckon
