import Reckon.Proofs.Acceptance
import Reckon.Proofs.Lockstep
import Reckon.Proofs.Passes

/-!
# Where an index and a call take their targets

An index takes the place of the value in front of its bracket, and so does a call. The check asks
that there be a value at all, and does not ask that it stand inside the same brackets as the index:
in `1 + ([0])` the index takes the number in front of the group, and the check lets it.

A bracket with no value at all in front of it is refused, so inside brackets that begin at the
bottom of the stack a target is one of their own values (`Program.Heights.HasTarget`). Elsewhere it
is if every such bracket has an operand in front of it in its own list item (`Postfix.anchored`);
then each target is a value of the level where the bracket stands (`Program.Confined`). Operators
that wait behind the operand do not take it away: a prefix operator and a binary one leave a value
where they take one, and a comma is emitted only where the item ends.
-/

namespace Reckon

/-! ## Targets inside the level -/

namespace Program

/-- The value that a bracket takes stands above the beginning of the level that the bracket stands
in, where it opens and where it closes. -/
def Heights.Confines (h : Heights) : InstructionKind → Prop
  | .operator (.opener b) => b.takesTarget → h.level.base < h.height
  | .operator (.closer b) =>
    b.takesTarget → ∃ around outer, h.outer = around :: outer ∧ around.base < h.level.base
  | _ => True

/-- There is a value in front of a bracket that takes one, whichever level it belongs to. -/
def Heights.HasTarget (h : Heights) : InstructionKind → Prop
  | .operator (.opener b) => b.takesTarget → 0 < h.height
  | _ => True

/-- A property of every instruction at the heights where it is played. -/
def Throughout (P : Heights → InstructionKind → Prop) (code : List Instruction) : Prop :=
  ∀ pre i post, code = pre ++ i :: post → ∃ h, Heights.play {} pre = .ok h ∧ P h i.kind

/-- Every target that the check finds belongs to the level where its bracket stands. -/
def Confined (code : List Instruction) : Prop := Throughout Heights.Confines code

section

variable {P : Heights → InstructionKind → Prop} {code : List Instruction} {i : Instruction}
  {h : Heights}

theorem throughout_nil : Throughout P [] := by
  intro pre i post hCode
  simp at hCode

/-- What holds of the code and of one more instruction holds of the code with it. -/
theorem Throughout.concat (hThroughout : Throughout P code) (hPlay : Heights.play {} code = .ok h)
    (hLast : P h i.kind) : Throughout P (code ++ [i]) := by
  intro pre j post hCode
  -- the instruction is the last one, or it has been there before
  rcases List.eq_nil_or_concat post with rfl | ⟨post, k, rfl⟩
  · obtain ⟨rfl, hEq⟩ := List.append_inj' hCode rfl
    cases hEq
    exact ⟨h, hPlay, hLast⟩
  · rw [List.concat_eq_append, ← List.cons_append, ← List.append_assoc] at hCode
    exact hThroughout pre j post (List.append_inj' hCode rfl).1

end

/-! ## No value to take -/

/-- The fault of a bracket with no value in front of it. -/
def missingTarget : Bracket → Fault
  | .index => IndexFault.missingArray
  | _ => RuntimeFault.expectFunction

/-- A bracket that takes a value cannot be closed where there was none in front of it. -/
theorem Heights.Encloses.refuses {h mid : Heights} {b : Bracket} {code : List Instruction}
    {inside : Nat} (hEncloses : h.Encloses mid inside) (hPlay : h.opening.play code = .ok mid)
    (hHeight : h.height = 0) (hb : b = .call ∨ b = .index ∧ inside ≠ 0) (opening closing : Span)
    (depth : Nat) :
    h.play (encloseCode b opening closing depth code) =
      .error (.atSpan (missingTarget b) closing) := by
  have hNone : mid.level.base = 0 := hEncloses.base.trans hHeight
  have hClosing : mid.closing b closing = .error (.atSpan (missingTarget b) closing) := by
    unfold Heights.closing
    simp only [hEncloses.outer, hEncloses.inside]
    -- the check looks for the value when the bracket closes, and finds none below its level
    rcases hb with rfl | ⟨rfl, hInside⟩
    · exact if_pos hNone
    · rw [if_neg hInside]
      exact if_pos hNone
  show h.opening.play (code ++ [_]) = _
  rw [Heights.play_append, hPlay]
  simp only [Heights.play, Heights.step, hClosing]

/-- **An index or a call with no value in front of it is refused**, however many brackets are open
and whatever follows. -/
theorem ofPostfix_of_headless {pre : List Instruction} {h : Heights}
    (hPre : Heights.play {} pre = .ok h) (hHeight : h.height = 0) {b : Bracket}
    {contents : Contents} (hContents : contents.Fits)
    (hb : b = .call ∨ b = .index ∧ contents ≠ .empty) (opening closing : Span) (depth : Nat)
    (post : List Instruction) :
    ofPostfix (pre ++ (encloseCode b opening closing depth (contents.code (depth + 1)) ++ post)) =
      .error (.atSpan (missingTarget b) closing) := by
  have hRefused : h.play (encloseCode b opening closing depth (contents.code (depth + 1))) =
      .error (.atSpan (missingTarget b) closing) := by
    -- an index with nothing inside is refused for that, so here only a call can be empty
    cases contents with
    | empty =>
      obtain ⟨mid, inside, hPlay, hEncloses⟩ := hContents.encloses (depth + 1) h
      exact hEncloses.refuses hPlay hHeight (hb.imp_right fun hIndex => absurd rfl hIndex.2)
        opening closing depth
    | list e =>
      have he : e.Fits := hContents
      obtain ⟨mid, hPlay, hTakes⟩ := he.takes (depth + 1) (rfl : h.opening.level.base = _)
      exact (hTakes.encloses).refuses hPlay hHeight
        (hb.imp_right fun hIndex => ⟨hIndex.1, by simp⟩) opening closing depth
  unfold ofPostfix
  rw [Heights.play_append, hPre]
  simp only [Heights.play_append, hRefused]

end Program

open Program

namespace Machine

/-- The same of the levels of a run. -/
def Confines (m : Machine) : InstructionKind → Prop
  | .operator (.opener b) => b.takesTarget → m.frame.base < m.values.length
  | .operator (.closer b) =>
    b.takesTarget → ∃ around outer, m.outer = around :: outer ∧ around.base < m.frame.base
  | _ => True

/-- The machine finds its targets where the check does. -/
theorem InStep.confines {m : Machine} {h : Heights} (hm : m.InStep h) {kind : InstructionKind}
    (hConfines : h.Confines kind) : m.Confines kind := by
  have hHeight := hm.height
  have hBase := hm.base
  unfold Machine.Confines
  split
  · intro hb
    have hAbove := hConfines hb
    omega
  · intro hb
    obtain ⟨level, levels, hOuter, hAbove⟩ := hConfines hb
    obtain ⟨around, frames, hFrames, hAround, -⟩ := hm.exists_outer hOuter
    exact ⟨around, frames, hFrames, by omega⟩
  · trivial

end Machine

/-! ## Items with an operand -/

namespace Postfix

/-- Whether the list items that are being read have an operand so far: the item inside the innermost
bracket first, that of the statement last. -/
def itemsBehind (items : List Bool) (kind : TokenKind) : List Bool :=
  match kind, items with
  | .number _, _ :: around | .identifier, _ :: around => true :: around
  | .operator (.opener _), items => false :: items
  | .operator (.closer _), _ :: _ :: around => true :: around
  | .operator .comma, _ :: around => false :: around
  | _, items => items

/-- Whether every index, and every bracket that is written as that of a call, has an operand in
front of it in its own list item. -/
def anchoredFrom : List Bool → List Token → Bool
  | _, [] => true
  | items, t :: ts =>
    (match t.kind with
      | .operator (.opener b) => !b.takesTarget || items.head? == some true
      | _ => true) &&
    anchoredFrom (itemsBehind items t.kind) ts

/-- The same for a whole statement, which begins without an operand. -/
def anchored (ts : List Token) : Bool := anchoredFrom [false] ts

/-- The items behind some tokens. -/
def items (ts : List Token) : List Bool := ts.foldl (fun xs t => itemsBehind xs t.kind) [false]

theorem items_concat (ts : List Token) (t : Token) :
    items (ts ++ [t]) = itemsBehind (items ts) t.kind := by
  simp only [items, List.foldl_append, List.foldl_cons, List.foldl_nil]

/-- Whether a token stands where `anchored` asks it to. -/
def Anchors (pre : List Token) (t : Token) : Prop :=
  ∀ b, t.kind = .operator (.opener b) → b.takesTarget → (items pre).head? = some true

/-- Where the tokens are anchored, the item has an operand when the bracket is met. -/
theorem head?_of_anchoredFrom {t : Token} {post : List Token} {b : Bracket}
    (hKind : t.kind = .operator (.opener b)) (hTarget : b.takesTarget) :
    ∀ (pre : List Token) {xs : List Bool}, anchoredFrom xs (pre ++ t :: post) →
      (pre.foldl (fun xs t => itemsBehind xs t.kind) xs).head? = some true
  | [], xs, h => by
    rw [List.nil_append, anchoredFrom, hKind, Bool.and_eq_true] at h
    simpa [hTarget] using h.1
  | u :: pre, xs, h => by
    rw [List.cons_append, anchoredFrom, Bool.and_eq_true] at h
    exact head?_of_anchoredFrom hKind hTarget pre h.2

/-- In an anchored statement every token stands where it should. -/
theorem anchors_of_anchored {ts : List Token} (h : anchored ts) :
    ∀ pre t post, ts = pre ++ t :: post → Anchors pre t := by
  rintro pre t post rfl b hKind hTarget
  exact head?_of_anchoredFrom hKind hTarget pre h

namespace Pass

/-- What is known of a stretch: its values are above the beginning of its level, and one of them is
if its item has an operand. The note of a stretch is the list of items from its own on. -/
def targets : Account (List Bool) where
  Root xs := ∃ x, xs = [x]
  Opens b ys xs := (∃ x, xs = x :: ys) ∧ (b.takesTarget → ys.head? = some true)
  Holds xs _ top level := level.base ≤ top ∧ (xs.head? = some true → level.base < top)

variable {xs ys : List Bool} {waiting ends rest : List Waiting} {h h' : Heights} {depth : Nat}

/-- Every stretch has an item of its own. -/
theorem Nested.exists_cons {top : Nat} {level : Level} {outer : List Level}
    (hNested : Nested targets xs waiting top level outer) :
    ∃ x ys, xs = x :: ys ∧ ∀ x', (targets.Root xs → targets.Root (x' :: ys)) ∧
      ∀ b zs, targets.Opens b zs xs → targets.Opens b zs (x' :: ys) := by
  cases hNested with
  | statement _ hRoot =>
    obtain ⟨x, rfl⟩ := hRoot
    refine ⟨x, [], rfl, fun x' => ⟨fun _ => ⟨x', rfl⟩, ?_⟩⟩
    rintro b zs ⟨⟨y, hEq⟩, hTarget⟩
    cases hEq
    exact ⟨⟨x', rfl⟩, hTarget⟩
  | bracket _ hOpens =>
    obtain ⟨⟨x, rfl⟩, -⟩ := hOpens
    refine ⟨x, _, rfl, fun x' => ⟨?_, ?_⟩⟩
    · rintro ⟨y, hEq⟩
      cases hEq
      exact ⟨x', rfl⟩
    · rintro b zs ⟨⟨y, hEq⟩, hTarget⟩
      cases hEq
      exact ⟨⟨x', rfl⟩, hTarget⟩

/-- Emission leaves the values above the beginning of the level, and an operand where there is one
unless a comma takes it. -/
theorem settle_targets (hEnds : Inside 15 ends)
    (hPlay : h.play (ends.map (Waiting.instruction depth)) = .ok h')
    (hLe : h.level.base ≤ h.height) :
    h'.level.base ≤ h'.height ∧
      ((∀ w ∈ ends, w.op ≠ .comma) → h.level.base < h.height → h'.level.base < h'.height) := by
  -- an operator takes two values of the level and leaves one
  obtain ⟨hBelow, -⟩ := settle_all (S := fun _ top level => level.base ≤ top) [] hEnds
    (fun w ws g g' _ hSettles hG => by
      have hSame := hSettles.base_eq
      generalize w.op = op at hSettles
      cases hSettles with
      | prefixed => exact hG
      | binary | comma => omega) hPlay hLe
  refine ⟨hBelow, fun hComma hLess => ?_⟩
  -- without a comma the last value of the level stays
  obtain ⟨hAbove, -⟩ := settle_all (S := fun _ top level => level.base < top) [] hEnds
    (fun w ws g g' hw hSettles hG => by
      have hSame := hSettles.base_eq
      have hOp := hComma w hw
      generalize w.op = op at hSettles hOp
      cases hSettles with
      | prefixed => exact hG
      | binary => omega
      | comma => exact absurd rfl hOp) hPlay hLess
  exact hAbove

/-- Emitted operators take no targets. -/
theorem throughout_flushed {P : Heights → InstructionKind → Prop}
    (hPlain : ∀ h op, 2 ≤ op.priority → P h (.operator op)) :
    ∀ {ends : List Waiting} {emitted : List Instruction} {h h' : Heights},
      Throughout P emitted.reverse → Inside 15 ends → Reaches emitted h →
        Reaches (flushed depth ends emitted) h' → Throughout P (flushed depth ends emitted).reverse
  | [], _, _, _, hThroughout, _, _, _ => hThroughout
  | w :: ends, emitted, h, h', hThroughout, hEnds, hReach, hLast => by
    rw [flushed_cons] at hLast ⊢
    obtain ⟨mid, hMid⟩ := hLast.of_suffix (suffix_flushed _ _ _)
    have hOperator := hPlain h w.op (hEnds w (List.mem_cons_self ..)).1
    refine throughout_flushed hPlain ?_ (fun v hv => hEnds v (List.mem_cons_of_mem _ hv)) hMid hLast
    rw [List.reverse_cons]
    exact hThroughout.concat hReach hOperator

/-- An operator takes its operands and no target. -/
theorem confines_operator (h : Heights) {op : Operator} (hLow : 2 ≤ op.priority) :
    h.Confines (.operator op) := by
  cases op <;> trivial

/-- It needs no value in front of it for a target. -/
theorem hasTarget_operator (h : Heights) {op : Operator} (hLow : 2 ≤ op.priority) :
    h.HasTarget (.operator op) := by
  cases op <;> trivial

/-- What is known behind some tokens. -/
structure Anchored (p : Pass) (h : Heights) (ts : List Token) : Prop where
  nested : Nested targets (items ts) p.waiting h.height h.level h.outer
  confined : Confined p.emitted.reverse
  /-- What a call can stand behind is an operand. -/
  callee : opensCall (lastKind none ts) → (items ts).head? = some true

/-- Behind an operand, its item has one. -/
theorem Nested.operand {x : Bool} {top : Nat} {level : Level} {outer : List Level}
    (hNested : Nested targets (x :: xs) waiting top level outer) {top' : Nat}
    (hAbove : level.base < top') : Nested targets (true :: xs) waiting top' level outer := by
  obtain ⟨_, _, hEq, hNote⟩ := hNested.exists_cons
  obtain ⟨ws, around, rfl, hInside, -, hBuild⟩ := hNested.exists_innermost (List.nil_append _).symm
    (Inside.nil 15)
  cases hEq
  exact hBuild hInside rfl (hNote true).1 (hNote true).2 ⟨hAbove.le, fun _ => hAbove⟩

/-- Values are above the beginning of their level, and one of them is if the item has an operand. -/
theorem Nested.holds {top : Nat} {level : Level} {outer : List Level}
    (hNested : Nested targets xs waiting top level outer) :
    level.base ≤ top ∧ (xs.head? = some true → level.base < top) := by
  obtain ⟨_, _, _, _, hHolds, _⟩ :=
    hNested.exists_innermost (List.nil_append _).symm (Inside.nil 15)
  exact hHolds

section

variable {p q : Pass} {ts : List Token} {t : Token} {span : Span}

/-- A number or a name is an operand of its item. -/
theorem Anchored.operand {kind : InstructionKind} (hp : Anchored p h ts)
    (hItems : ∀ x xs, itemsBehind (x :: xs) t.kind = true :: xs) (hPlain : h.Confines kind)
    (hStep : h.step ⟨kind, span, p.depth⟩ = .ok h.push) (hReach : Reaches p.emitted h)
    (hReach' : Reaches (p.emit kind span).emitted h') :
    Anchored (p.emit kind span) h' (ts ++ [t]) := by
  have hNested := hp.nested
  have hLe := hNested.holds.1
  obtain ⟨x, xs, hItem, -⟩ := hNested.exists_cons
  have hHead : items (ts ++ [t]) = true :: xs := by rw [items_concat, hItem, hItems]
  obtain rfl := hReach.eq_of_step hStep hReach'
  rw [hItem] at hNested
  refine ⟨?_, ?_, ?_⟩
  · rw [hHead]
    refine hNested.operand (?_ : h.level.base < h.height + 1)
    omega
  · rw [emit, List.reverse_cons]
    exact hp.confined.concat hReach hPlain
  · intro _
    rw [hHead]
    rfl

/-- A bracket that takes a target opens behind an operand. -/
theorem Anchored.opening (hp : Anchored p h ts) (b : Bracket)
    (hKind : t.kind = .operator (.opener b)) (hReach : Reaches p.emitted h)
    (hReach' : Reaches (p.opening (openedBehind (lastKind none ts) b) span).emitted h')
    (hAnchors : Anchors ts t) :
    Anchored (p.opening (openedBehind (lastKind none ts) b) span) h' (ts ++ [t]) := by
  have hItems : items (ts ++ [t]) = false :: items ts := by
    rw [items_concat, hKind]
    rfl
  have hTarget : (openedBehind (lastKind none ts) b).takesTarget →
      (items ts).head? = some true := by
    unfold openedBehind
    split
    · -- a group that becomes a call stands behind its callee
      rename_i hCall
      exact fun _ => hp.callee hCall.2
    · exact hAnchors b hKind
  generalize openedBehind (lastKind none ts) b = opened at hReach' hTarget ⊢
  obtain rfl : h' = h.opening := hReach.eq_of_step rfl hReach'
  refine ⟨?_, ?_, ?_⟩
  · rw [hItems]
    exact .bracket (Inside.nil 15) ⟨⟨false, rfl⟩, hTarget⟩ ⟨Nat.le_refl _, by simp⟩ hp.nested
  · show Confined (_ :: p.emitted).reverse
    rw [List.reverse_cons]
    exact hp.confined.concat hReach fun hb => hp.nested.holds.2 (hTarget hb)
  · -- an opened bracket is no callee
    rw [lastKind_append, hKind]
    intro hCall
    cases hCall

/-- A bracket that closes is an operand of the item around it. -/
theorem Anchored.closing {b opened closed : Bracket} {place : Span} (hp : Anchored p h ts)
    (hKind : t.kind = .operator (.closer b))
    (hWaiting : p.waiting = ends ++ ⟨.opener opened, place⟩ :: waiting) (hInside : Inside 15 ends)
    (hMatch : matching? opened b = some closed) (hReach : Reaches p.emitted h)
    (hReach' : Reaches (⟨.operator (.closer closed), span, p.depth - 1⟩ ::
      flushed p.depth ends p.emitted) h') :
    Anchored ⟨⟨.operator (.closer closed), span, p.depth - 1⟩ :: flushed p.depth ends p.emitted,
      waiting, p.depth - 1⟩ h' (ts ++ [t]) := by
  obtain ⟨ys, around, outer, mid, ⟨⟨x, hItem⟩, hTarget⟩, -, hAround, hMid, -, hClosed⟩ :=
    hp.nested.exists_closed hWaiting hInside hMatch hReach hReach'
  obtain ⟨y, ys', rfl, -⟩ := hAround.exists_cons
  have hHead : items (ts ++ [t]) = true :: ys' := by
    rw [items_concat, hItem, hKind]
    rfl
  obtain ⟨hLe, hOperand⟩ := hAround.holds
  have hAbove : closed.takesTarget → around.base < mid.level.base :=
    fun hb => hOperand (hTarget hb)
  refine ⟨?_, ?_, ?_⟩
  · -- the level around has one value more, or the one in place of the target
    rw [hHead, hClosed.level, hClosed.outer]
    refine hAround.operand ?_
    rw [hClosed.height]
    -- the value that the bracket leaves stands where its target stood, or above all others
    split
    · exact hAbove ‹_›
    · omega
  · rw [List.reverse_cons]
    exact (throughout_flushed (fun g _ => confines_operator g) hp.confined hInside hReach
      hMid).concat hMid fun hb => ⟨around, outer, hClosed.within, hAbove hb⟩
  · intro _
    rw [hHead]
    rfl

/-- An item keeps its operand behind every operator but the comma. -/
theorem itemsBehind_operator {op : Operator} (hLow : 2 ≤ op.priority) (x : Bool) (xs : List Bool) :
    ∃ x', itemsBehind (x :: xs) (.operator op) = x' :: xs ∧
      (x' = true → x = true ∧ op ≠ .comma) := by
  by_cases hComma : op = .comma
  · subst hComma
    exact ⟨false, rfl, by simp⟩
  · refine ⟨x, ?_, fun hx => ⟨hx, hComma⟩⟩
    -- brackets and terminators have the highest priorities, so `op` is none of them
    cases op <;> first | rfl | exact absurd rfl hComma | simp [Operator.priority] at hLow

/-- A comma waits for the next comma. -/
theorem goesBefore_comma {op : Operator} (hHigh : op.priority ≤ 15) (hOp : op ≠ .comma) :
    goesBefore .comma op = false := by
  cases op <;> first | rfl | exact absurd rfl hOp | simp [Operator.priority] at hHigh

/-- An operator takes no operand away from its item, and a comma ends the item. -/
theorem Anchored.operator {op : Operator} (hp : Anchored p h ts) (hKind : t.kind = .operator op)
    (hLow : 2 ≤ op.priority) (hHigh : op.priority ≤ 15) (hWaiting : p.waiting = ends ++ rest)
    (hInside : Inside 15 ends) (hBefore : ∀ w ∈ ends, goesBefore w.op op)
    (hReach : Reaches p.emitted h) (hReach' : Reaches (flushed p.depth ends p.emitted) h') :
    Anchored ⟨flushed p.depth ends p.emitted, ⟨op, span⟩ :: rest, p.depth⟩ h' (ts ++ [t]) := by
  have hNested := hp.nested
  obtain ⟨x, xs, hItem, hNote⟩ := hNested.exists_cons
  obtain ⟨ws, around, rfl, hWs, hHolds, hBuild⟩ := hNested.exists_innermost hWaiting hInside
  obtain ⟨x', hBehind, hOperand⟩ := itemsBehind_operator hLow x xs
  have hPlay := hReach.play_flushed hReach'
  obtain ⟨hLe, hKept⟩ := settle_targets hInside hPlay hHolds.1
  obtain ⟨hBase, hOuter⟩ := settle_levels hInside hPlay
  refine ⟨?_,
    throughout_flushed (fun g _ => confines_operator g) hp.confined hInside hReach hReach', ?_⟩
  · rw [items_concat, hItem, hKind, hBehind]
    dsimp only
    rw [← List.cons_append, hOuter]
    refine hBuild (hWs.cons ⟨hLow, hHigh⟩) hBase (hNote x').1 (hNote x').2 ⟨hLe, fun hHead => ?_⟩
    -- no comma goes before an operator that binds more tightly
    obtain ⟨hx, hOp⟩ := hOperand (Option.some.inj hHead)
    refine hKept (fun w hw hComma => ?_) (hHolds.2 (by rw [hItem, hx]; rfl))
    have hSooner : goesBefore .comma op := hComma ▸ hBefore w hw
    rw [goesBefore_comma hHigh hOp] at hSooner
    cases hSooner
  · -- no operator of these priorities opens a call
    rw [lastKind_append, hKind]
    intro hCall
    cases op <;> first | cases hCall | simp [Operator.priority] at hLow

/-- A terminator is passed over. -/
theorem Anchored.semicolon (hp : Anchored p h ts) (hKind : t.kind = .operator .semicolon)
    (hReach : Reaches p.emitted h) (hReach' : Reaches p.emitted h') :
    Anchored p h' (ts ++ [t]) := by
  obtain rfl := hReach.eq hReach'
  have hNested := hp.nested
  obtain ⟨x, xs, hItem, -⟩ := hNested.exists_cons
  refine ⟨?_, hp.confined, ?_⟩
  · rw [items_concat, hKind, hItem]
    rwa [hItem] at hNested
  · rw [lastKind_append, hKind]
    intro hCall
    cases hCall

end

/-- **A token that is taken keeps the account of targets.** One case for each way to take it. -/
theorem Anchored.step {p q : Pass} {ts : List Token} {t : Token} (hp : Anchored p h ts)
    (hReach : Reaches p.emitted h) (hTaken : Taken p (lastKind none ts) t q)
    (hReach' : Reaches q.emitted h') (hAnchors : Anchors ts t) : Anchored q h' (ts ++ [t]) := by
  cases hTaken with
  | number | name => exact hp.operand (fun _ _ => rfl) trivial rfl hReach hReach'
  | opening b span => exact hp.opening b rfl hReach hReach' hAnchors
  | closing span hWaiting hInside hMatch =>
    exact hp.closing rfl hWaiting hInside hMatch hReach hReach'
  | semicolon span => exact hp.semicolon rfl hReach hReach'
  | operator span hLow hHigh hWaiting hInside hBefore =>
    exact hp.operator rfl hLow hHigh hWaiting hInside hBefore hReach hReach'

/-! ## A value to take -/

/-- Where a stretch begins, and whether a bracket that takes a target has been opened there or
around it with no value in front. -/
structure Footing where
  base : Nat
  headless : Bool

/-- A bracket adds itself to what is known around it. -/
def footings : Account Footing where
  Root x := x.headless = false
  Opens b y x := x.headless = (y.headless || (b.takesTarget && x.base == 0))
  Holds x _ _ level := level.base = x.base

/-- What is open does not change with the operators and values inside. -/
theorem Nested.footing {x : Footing} {top top' : Nat} {level level' : Level} {outer : List Level}
    {ws : List Waiting} (hNested : Nested footings x waiting top level outer)
    (hWaiting : waiting = ends ++ rest) (hEnds : Inside 15 ends) (hWs : Inside 15 ws)
    (hBase : level'.base = level.base) : Nested footings x (ws ++ rest) top' level' outer := by
  obtain ⟨left, around, rfl, hLeft, hHolds, hBuild⟩ := hNested.exists_innermost hWaiting hEnds
  rw [← List.append_assoc]
  refine hBuild (fun w hw => ?_) hBase id (fun _ _ => id) (hBase.trans hHolds)
  exact (List.mem_append.1 hw).elim (hWs w) (hLeft w)

/-- While no bracket without a target is open, there has been none. -/
def Footed (p : Pass) (h : Heights) : Prop :=
  ∃ x, Nested footings x p.waiting h.height h.level h.outer ∧
    (x.headless = false → Throughout Heights.HasTarget p.emitted.reverse)

section

variable {p q : Pass} {span : Span}

/-- A number or a name takes no target. -/
theorem Footed.operand {kind : InstructionKind} (hp : Footed p h) (hPlain : h.HasTarget kind)
    (hStep : h.step ⟨kind, span, p.depth⟩ = .ok h.push) (hReach : Reaches p.emitted h)
    (hReach' : Reaches (p.emit kind span).emitted h') : Footed (p.emit kind span) h' := by
  obtain ⟨x, hNested, hTargets⟩ := hp
  obtain rfl := hReach.eq_of_step hStep hReach'
  refine ⟨x, hNested.footing (List.nil_append _).symm (Inside.nil 15) (Inside.nil 15) rfl, ?_⟩
  intro hNone
  rw [emit, List.reverse_cons]
  exact (hTargets hNone).concat hReach hPlain

/-- A bracket opens, with a target or without. -/
theorem Footed.opening {opened : Bracket} (hp : Footed p h) (hReach : Reaches p.emitted h)
    (hReach' : Reaches (p.opening opened span).emitted h') : Footed (p.opening opened span) h' := by
  obtain ⟨x, hNested, hTargets⟩ := hp
  obtain rfl : h' = h.opening := hReach.eq_of_step rfl hReach'
  refine ⟨⟨h.height, x.headless || (opened.takesTarget && h.height == 0)⟩,
    .bracket (Inside.nil 15) rfl rfl hNested, fun hNone => ?_⟩
  obtain ⟨hAround, hOpened⟩ := Bool.or_eq_false_iff.1 hNone
  show Throughout _ (_ :: p.emitted).reverse
  rw [List.reverse_cons]
  refine (hTargets hAround).concat hReach fun hTakes => Nat.pos_of_ne_zero fun hZero => ?_
  simp [hTakes, hZero] at hOpened

/-- What is known around a bracket is known again when it closes. -/
theorem Footed.closing {b opened closed : Bracket} {place : Span} (hp : Footed p h)
    (hWaiting : p.waiting = ends ++ ⟨.opener opened, place⟩ :: waiting) (hInside : Inside 15 ends)
    (hMatch : matching? opened b = some closed) (hReach : Reaches p.emitted h)
    (hReach' : Reaches (⟨.operator (.closer closed), span, p.depth - 1⟩ ::
      flushed p.depth ends p.emitted) h') :
    Footed ⟨⟨.operator (.closer closed), span, p.depth - 1⟩ :: flushed p.depth ends p.emitted,
      waiting, p.depth - 1⟩ h' := by
  obtain ⟨x, hNested, hTargets⟩ := hp
  obtain ⟨y, around, outer, mid, hOpens, hHolds, hAround, hMid, hBase, hClosed⟩ :=
    hNested.exists_closed hWaiting hInside hMatch hReach hReach'
  have hEq : x.headless = (y.headless || (closed.takesTarget && x.base == 0)) := hOpens
  have hLow : h.level.base = x.base := hHolds
  -- the bracket has had a target if it takes one
  have hFooted : (closed.takesTarget && x.base == 0) = false := by
    by_contra hNot
    simp only [Bool.not_eq_false, Bool.and_eq_true, beq_iff_eq] at hNot
    have hTarget := hClosed.target hNot.1
    omega
  rw [hFooted, Bool.or_false] at hEq
  refine ⟨y, ?_, fun hNone => ?_⟩
  · rw [hClosed.level, hClosed.outer]
    exact hAround.footing (List.nil_append _).symm (Inside.nil 15) (Inside.nil 15) rfl
  · rw [List.reverse_cons]
    exact (throughout_flushed (fun g _ => hasTarget_operator g) (hTargets (hEq.trans hNone))
      hInside hReach hMid).concat hMid trivial

/-- An operator takes no target, and neither do those that it releases. -/
theorem Footed.operator {op : Operator} (hp : Footed p h) (hLow : 2 ≤ op.priority)
    (hHigh : op.priority ≤ 15) (hWaiting : p.waiting = ends ++ rest) (hInside : Inside 15 ends)
    (hReach : Reaches p.emitted h) (hReach' : Reaches (flushed p.depth ends p.emitted) h') :
    Footed ⟨flushed p.depth ends p.emitted, ⟨op, span⟩ :: rest, p.depth⟩ h' := by
  obtain ⟨x, hNested, hTargets⟩ := hp
  obtain ⟨hBase, hOuter⟩ := settle_levels hInside (hReach.play_flushed hReach')
  refine ⟨x, ?_, fun hNone => ?_⟩
  · rw [hOuter]
    exact hNested.footing hWaiting hInside ((Inside.nil 15).cons ⟨hLow, hHigh⟩) hBase
  · exact throughout_flushed (fun g _ => hasTarget_operator g) (hTargets hNone) hInside hReach
      hReach'

/-- **A token that is taken keeps the account of open brackets.** One case for each way to take
it. -/
theorem Footed.step {previous : Option TokenKind} {t : Token} (hp : Footed p h)
    (hReach : Reaches p.emitted h) (hTaken : Taken p previous t q)
    (hReach' : Reaches q.emitted h') : Footed q h' := by
  cases hTaken with
  | number | name => exact hp.operand trivial rfl hReach hReach'
  | opening => exact hp.opening hReach hReach'
  | closing span hWaiting hInside hMatch =>
    exact hp.closing hWaiting hInside hMatch hReach hReach'
  | semicolon =>
    obtain rfl := hReach.eq hReach'
    exact hp
  | operator span hLow hHigh hWaiting hInside =>
    exact hp.operator hLow hHigh hWaiting hInside hReach hReach'

end

end Pass

end Postfix

namespace Program

open Postfix Postfix.Pass

variable {ts : List Token} {code : List Instruction}

/-- Whatever the tokens, no bracket that takes a target is accepted without one. -/
theorem throughout_hasTarget {p : Program} (hTokens : Postfix.ofTokens ts = .ok code)
    (hProgram : ofPostfix code = .ok p) : Throughout Heights.HasTarget code := by
  obtain ⟨hEnd, hPlay, -, hOuter, -⟩ := exists_play_of_ofPostfix hProgram
  have hStart : Footed {} {} :=
    ⟨⟨0, false⟩, .statement (Inside.nil 15) rfl rfl rfl, fun _ => throughout_nil⟩
  obtain ⟨q, h, ⟨x, hNested, hTargets⟩, hReach, hInside, hCode, hLast⟩ :=
    invariant_of_ofTokens (I := fun p h _ => Footed p h) (S := fun _ _ => True) hStart
      (fun _ _ _ _ _ _ hp hReach hTaken hReach' _ => hp.step hReach hTaken hReach')
      hTokens hPlay (fun _ _ _ _ => trivial)
  -- at the end no bracket is open
  obtain ⟨-, hSame⟩ := settle_levels hInside (hReach.play_flushed hLast)
  rw [← hSame, hOuter] at hNested
  rw [hCode]
  exact throughout_flushed (fun g _ => hasTarget_operator g) (hTargets hNested.root.1) hInside
    hReach
    hLast

/-- Operands in front of all brackets that take targets confine them. -/
theorem confined_of_ofTokens {hEnd : Heights} (hTokens : Postfix.ofTokens ts = .ok code)
    (hPlay : Heights.play {} code = .ok hEnd) (hAnchored : anchored ts) : Confined code := by
  have hStart : Anchored {} {} [] := by
    refine ⟨.statement (Inside.nil 15) ⟨false, rfl⟩ rfl ⟨Nat.le_refl _, ?_⟩, throughout_nil, ?_⟩
    · simp [items]
    · intro hCall
      cases hCall
  obtain ⟨q, h, hq, hReach, hInside, hCode, hLast⟩ :=
    invariant_of_ofTokens (I := Anchored) (S := Anchors) hStart
      (fun p h ts t q h' hp hReach hTaken hReach' hAnchors =>
        hp.step hReach hTaken hReach' hAnchors)
      hTokens hPlay (anchors_of_anchored hAnchored)
  rw [hCode]
  exact throughout_flushed (fun g _ => confines_operator g) hq.confined hInside hReach hLast

/-- **Scopes are confined.** Every index and every call that the check accepts has a value in front
of it, and none that opens at the bottom of the stack is accepted, at whatever nesting depth. Where
each has an operand in front of it in its own list item, the check takes every target from the level
that the bracket stands in, and so does every run of the program. -/
theorem confined_of_anchored (hTokens : Postfix.ofTokens ts = .ok code) :
    (∀ p, ofPostfix code = .ok p →
      Throughout Heights.HasTarget code ∧
        (anchored ts → Confined code ∧
          ∀ script s pre i post m, code = pre ++ i :: post →
            Machine.steps script { store := s } pre = (.ok (), m) → m.Confines i.kind)) ∧
      ∀ pre h b (contents : Contents) o c depth post,
        code = pre ++ (encloseCode b o c depth (contents.code (depth + 1)) ++ post) →
          Heights.play {} pre = .ok h → h.height = 0 → contents.Fits →
            b = .call ∨ b = .index ∧ contents ≠ .empty →
              ofPostfix code = .error (.atSpan (missingTarget b) c) := by
  refine ⟨fun p hProgram => ?_, ?_⟩
  · obtain ⟨hEnd, hPlay, -, -, -⟩ := exists_play_of_ofPostfix hProgram
    refine ⟨throughout_hasTarget hTokens hProgram, fun hAnchored => ?_⟩
    have hConfined := confined_of_ofTokens hTokens hPlay hAnchored
    refine ⟨hConfined, ?_⟩
    -- a run is in step with the check at every instruction
    intro script s pre i post m hSplit hSteps
    obtain ⟨mid, hMid, hConfines⟩ := hConfined pre i post hSplit
    obtain ⟨mid', hMid', hFollows⟩ := follows_of_prefix False hPlay
      (hSplit ▸ List.prefix_append _ _) (by simp) script s
    rw [hMid] at hMid'
    cases hMid'
    rw [hSteps] at hFollows
    exact hFollows.1.inStep.confines hConfines
  · rintro pre h b contents o c depth post rfl hPre hHeight hContents hb
    exact ofPostfix_of_headless hPre hHeight hContents hb o c depth post

/-- The tokens of `f(a[0])`. -/
def callOfElement : List Token :=
  [⟨.identifier, ⟨0, 1⟩⟩, ⟨.operator (.opener .group), ⟨1, 2⟩⟩, ⟨.identifier, ⟨2, 3⟩⟩,
    ⟨.operator (.opener .index), ⟨3, 4⟩⟩, ⟨.number (some .decimal), ⟨4, 5⟩⟩,
    ⟨.operator (.closer .index), ⟨5, 6⟩⟩, ⟨.operator (.closer .group), ⟨6, 7⟩⟩]

/-- The tokens of `([0])`. -/
def indexAlone : List Token :=
  [⟨.operator (.opener .group), ⟨0, 1⟩⟩, ⟨.operator (.opener .index), ⟨1, 2⟩⟩,
    ⟨.number (some .decimal), ⟨2, 3⟩⟩, ⟨.operator (.closer .index), ⟨3, 4⟩⟩,
    ⟨.operator (.closer .group), ⟨4, 5⟩⟩]

/-- The call and the index in `f(a[0])` take the names in front of them, and the index in `([0])`
has nothing to take. -/
theorem confined_callOfElement :
    (∃ code p, Postfix.ofTokens callOfElement = .ok code ∧ ofPostfix code = .ok p ∧
        anchored callOfElement ∧ Throughout Heights.HasTarget code ∧ Confined code) ∧
      ∃ code, Postfix.ofTokens indexAlone = .ok code ∧
        ofPostfix code = .error (.atSpan IndexFault.missingArray ⟨3, 4⟩) := by
  refine ⟨⟨_, _, rfl, rfl, rfl, ?_⟩, ⟨_, rfl, ?_⟩⟩
  · obtain ⟨hTargets, hConfined⟩ :=
      (confined_of_anchored (rfl : Postfix.ofTokens callOfElement = _)).1 _ rfl
    exact ⟨hTargets, (hConfined rfl).1⟩
  · exact (confined_of_anchored (rfl : Postfix.ofTokens indexAlone = _)).2
      [⟨.operator (.opener .group), ⟨0, 1⟩, 0⟩] _ .index (.list (.number .decimal ⟨2, 3⟩)) ⟨1, 2⟩
      ⟨3, 4⟩ 1 [⟨.operator (.closer .group), ⟨4, 5⟩, 0⟩] rfl rfl rfl trivial (.inr ⟨rfl, by simp⟩)

/-- The tokens of `1 + ([0])`. -/
def indexInGroup : List Token :=
  [⟨.number (some .decimal), ⟨0, 1⟩⟩, ⟨.operator .add, ⟨2, 3⟩⟩,
    ⟨.operator (.opener .group), ⟨4, 5⟩⟩, ⟨.operator (.opener .index), ⟨5, 6⟩⟩,
    ⟨.number (some .decimal), ⟨6, 7⟩⟩, ⟨.operator (.closer .index), ⟨7, 8⟩⟩,
    ⟨.operator (.closer .group), ⟨8, 9⟩⟩]

/-- An index that has nothing in front of it between its own brackets is not refused: it takes the
number that waits outside for the addition. -/
theorem not_confined_indexInGroup : ∃ code p, Postfix.ofTokens indexInGroup = .ok code ∧
    ofPostfix code = .ok p ∧ ¬ Confined code := by
  refine ⟨_, _, rfl, rfl, fun hConfined => ?_⟩
  -- the group begins at the height where the index opens
  obtain ⟨h, hPlay, hConfines⟩ := hConfined
    [⟨.number .decimal, ⟨0, 1⟩, 0⟩, ⟨.operator (.opener .group), ⟨4, 5⟩, 0⟩] _ _ rfl
  cases hPlay
  exact absurd (hConfines rfl) (by decide)

end Program

end Reckon
