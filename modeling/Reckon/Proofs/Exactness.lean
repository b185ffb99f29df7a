import Reckon.Proofs.Heights

/-!
# The heights are exact

Playing a sequence takes one number off another in three places: a comma and a binary operator lower
the height, and a closer takes what its level has counted off the number of values moved aside.
Nothing looks whether so much is there. A difference of natural numbers is cut off at 0, and on a
machine that computes with words it would trap or come out as a huge number; sums that no word can
hold would go wrong there, too.

Here the same sequence is played with numbers that are checked: a difference below zero and a sum
that no word can hold have no answer at all (`difference?`, `sum?`), and then neither has the play.
For every sequence there is an answer, and it is the one that `Program.ofPostfix` gives. What keeps
the differences in order is that the values moved aside are those that the open levels have counted
and that no level begins above the present height; what keeps the sums in order is that every
instruction makes all heights together greater by no more than one.

## Results

* `Heights.Replayed`          — what is known of the heights wherever a play has got to.
* `Heights.step?_eq`          — one checked step answers as the step does.
* `Program.exactly_replayed`  — both for every sequence, with no assumption on it.
-/

namespace Reckon

/-! ## Numbers in words -/

/-- A sum, if it is not greater than what a word can hold. -/
def sum? (limit a b : Nat) : Option Nat := if a + b ≤ limit then some (a + b) else none

/-- A difference, if it is not below zero. -/
def difference? (a b : Nat) : Option Nat := if b ≤ a then some (a - b) else none

theorem sum?_eq {limit a b : Nat} (h : a + b ≤ limit) : sum? limit a b = some (a + b) := if_pos h

theorem difference?_eq {a b : Nat} (h : b ≤ a) : difference? a b = some (a - b) := if_pos h

namespace Instruction

/-- Whether the instruction opens a bracket. -/
def opens (i : Instruction) : Bool :=
  match i.kind with
  | .operator (.opener _) => true
  | _ => false

/-- Whether the instruction closes a bracket. -/
def closes (i : Instruction) : Bool :=
  match i.kind with
  | .operator (.closer _) => true
  | _ => false

end Instruction

namespace Program

namespace Heights

/-! ## Playing with checked numbers

These are the functions of `Heights` once more, with every sum and every difference checked in the
place where it is formed. -/

def push? (limit : Nat) (h : Heights) : Option Heights := do
  let height ← sum? limit h.height 1
  return { h with height, maxHeight := max h.maxHeight height }

/-- The statement itself is a level but no bracket, so there is one bracket less than levels. -/
def opening? (h : Heights) : Option Heights := do
  let levels : List Level := ⟨h.height, 0⟩ :: h.level :: h.outer
  let brackets ← difference? levels.length 1
  return { h with
    level := ⟨h.height, 0⟩, outer := h.level :: h.outer, maxOpen := max h.maxOpen brackets }

def comma? (limit : Nat) (h : Heights) (span : Span) : Option (Except Failure Heights) :=
  if h.height ≤ h.level.base then some (.error (.atSpan SyntaxFault.tooManyCommas span))
  else do
    let counted ← sum? limit h.level.moved 1
    let height ← difference? h.height 1
    let moved ← sum? limit h.moved 1
    return .ok { h with
      height, moved, level := { h.level with moved := counted }, maxMoved := max h.maxMoved moved }

def valuesInside? (limit : Nat) (h : Heights) (span : Span) : Option (Except Failure Nat) := do
  let one ← sum? limit h.level.base 1
  if one < h.height then return .error (.atSpan SyntaxFault.missingComma span)
  else if h.height ≤ h.level.base then
    return if 0 < h.level.moved then .error (.atSpan SyntaxFault.tooManyCommas span) else .ok 0
  else
    let inside ← sum? limit h.level.moved 1
    return .ok inside

def closing? (limit : Nat) (h : Heights) (b : Bracket) (span : Span) :
    Option (Except Failure Heights) :=
  match h.outer with
  | [] => some (.error (.atSpan SyntaxFault.invalidSyntax span))
  | level :: outer => do
    match ← h.valuesInside? limit span with
    | .error e => return .error e
    | .ok inside =>
      let moved ← difference? h.moved h.level.moved
      let below : Heights := { h with height := h.level.base, moved, level, outer }
      match b with
      | .group | .array =>
        let above ← below.push? limit
        return .ok above
      | .index =>
        return if inside = 0 then .error (.atSpan IndexFault.noIndex span)
          else if below.height = 0 then .error (.atSpan IndexFault.missingArray span)
          else .ok below
      | .call =>
        return if below.height = 0 then .error (.atSpan RuntimeFault.expectFunction span)
          else .ok below

def binary? (limit : Nat) (h : Heights) (span : Span) : Option (Except Failure Heights) := do
  let two ← sum? limit h.level.base 2
  if h.height < two then return .error (.atSpan SyntaxFault.missingOperand span)
  else
    let height ← difference? h.height 1
    return .ok { h with height }

def step? (limit : Nat) (h : Heights) (i : Instruction) : Option (Except Failure Heights) :=
  match i.kind with
  | .number _ | .name => (h.push? limit).map .ok
  | .operator (.opener _) => h.opening?.map .ok
  | .operator (.closer b) => h.closing? limit b i.span
  | .operator .comma => h.comma? limit i.span
  | .operator .semicolon => some (.ok h)
  | .operator op => if op.isPrefix then some (h.prefixed i.span) else h.binary? limit i.span

def play? (limit : Nat) : Heights → List Instruction → Option (Except Failure Heights)
  | h, [] => some (.ok h)
  | h, i :: is =>
    match h.step? limit i with
    | none => none
    | some (.error e) => some (.error e)
    | some (.ok h') => h'.play? limit is

end Heights

def ofPostfix? (limit : Nat) (code : List Instruction) : Option (Except Failure Program) := do
  match ← Heights.play? limit {} code with
  | .error e => return .error e
  | .ok h =>
    if h.height = 1 ∧ h.outer = [] then return .ok ⟨h.maxHeight, h.maxMoved, h.maxOpen, code⟩
    else
      return .error (.atSpan SyntaxFault.invalidSyntax ((code.getLast?.map (·.span)).getD ⟨0, 0⟩))

namespace Heights

variable {limit : Nat} {h h' : Heights}

/-! ## What wherever a play has got to is known -/

/-- The heights wherever a play has got to from the start, behind the instructions `pre`. -/
structure Replayed (pre : List Instruction) (h : Heights) : Prop where
  /-- The values moved aside are those that the open levels have counted. -/
  moved : h.moved = ((h.level :: h.outer).map (·.moved)).sum
  /-- No level begins below the one around it, or above the present height. -/
  ordered : (h.height :: (h.level :: h.outer).map (·.base)).IsChain (· ≥ ·)
  /-- The outermost level is still the statement, which begins at height 0. -/
  bottom : ((h.level :: h.outer).map (·.base)).getLast? = some 0
  /-- What is closed has been opened: a closer never takes the level of the statement. -/
  levels : h.outer.length + pre.countP (·.closes) = pre.countP (·.opens)
  /-- All heights together are no greater than the number of instructions. -/
  total : h.height + h.moved + h.outer.length ≤ pre.length

theorem replayed_start : Replayed [] {} := ⟨rfl, by simp, rfl, rfl, Nat.le_refl _⟩

/-- Heights that a play has got to are in order. -/
theorem Replayed.sound {pre : List Instruction} (h₀ : h.Replayed pre) : h.Sound where
  moved := by
    have hMoved := h₀.moved
    rwa [List.map_cons, List.sum_cons] at hMoved
  ordered := h₀.ordered

/-- What a level has counted is part of what was moved aside. -/
theorem Sound.counted_le (hs : h.Sound) : h.level.moved ≤ h.moved := by
  have hMoved := hs.moved
  omega

/-- One instruction opens or closes one bracket at most, and makes the heights greater by one at
most. The outermost level stays where it is. -/
theorem Stepped.changes {i : Instruction} (hs : h.Sound) (hStepped : h.Stepped i.kind h') :
    ((h'.level :: h'.outer).map (·.base)).getLast? =
        ((h.level :: h.outer).map (·.base)).getLast? ∧
      h'.outer.length + (if i.closes then 1 else 0) =
        h.outer.length + (if i.opens then 1 else 0) ∧
      h'.height + h'.moved + h'.outer.length ≤ h.height + h.moved + h.outer.length + 1 := by
  have hBase := hs.base_le
  have hCounted := hs.counted_le
  unfold Instruction.closes Instruction.opens
  generalize i.kind = kind at hStepped
  cases hStepped with
  | number | name =>
    refine ⟨rfl, rfl, ?_⟩
    simp only [push]
    omega
  | opening =>
    refine ⟨?_, rfl, ?_⟩
    · rw [Heights.opening, List.map_cons, List.map_cons, List.getLast?_cons_cons]
    · simp only [Heights.opening, List.length_cons]
      omega
  -- the level around is the present one now, and the outermost one is still below it
  | closingValue hOuter =>
    rw [hOuter]
    refine ⟨?_, rfl, ?_⟩
    · simp only [push, below, List.map_cons, List.getLast?_cons_cons]
    · simp only [push, below, List.length_cons]
      omega
  | closingTarget hOuter =>
    rw [hOuter]
    refine ⟨?_, rfl, ?_⟩
    · simp only [below, List.map_cons, List.getLast?_cons_cons]
    · simp only [below, List.length_cons]
      omega
  | comma hValue =>
    refine ⟨rfl, rfl, ?_⟩
    simp only
    omega
  | semicolon => exact ⟨rfl, rfl, Nat.le_succ _⟩
  | @prefixed op hOp =>
    -- no bracket is a prefix operator
    refine ⟨rfl, ?_, Nat.le_succ _⟩
    cases op <;> first | rfl | cases hOp
  | @binary op hOp =>
    refine ⟨rfl, ?_, ?_⟩
    · cases op <;> first | rfl | cases hOp
    · simp only
      omega

/-- **A step goes on as the play has begun.** -/
theorem Replayed.step {pre : List Instruction} {i : Instruction} (h₀ : h.Replayed pre)
    (hStep : h.step i = .ok h') : h'.Replayed (pre ++ [i]) := by
  have hSound := h₀.sound.step hStep
  obtain ⟨hBottom, hLevels, hTotal⟩ := (stepped hStep).changes h₀.sound
  have hBefore := h₀.levels
  have hSmall := h₀.total
  -- what the step changes is added to what was known before it
  refine ⟨?_, hSound.ordered, hBottom.trans h₀.bottom, ?_, ?_⟩
  · rw [List.map_cons, List.sum_cons]
    exact hSound.moved
  · simp only [List.countP_append, List.countP_singleton]
    omega
  · simp only [List.length_append, List.length_singleton]
    omega

/-- What is known of the heights goes on being known through a play. -/
theorem Replayed.play {pre code : List Instruction} (h₀ : h.Replayed pre)
    (hPlay : h.play code = .ok h') : h'.Replayed (pre ++ code) := by
  -- induction on the code, with what has been played before it left open
  induction code generalizing h pre with
  | nil =>
    cases hPlay
    rw [List.append_nil]
    exact h₀
  | cons i code ih =>
    simp only [Heights.play] at hPlay
    split at hPlay
    · cases hPlay
    · rename_i mid hStep
      have hRest := ih (h₀.step hStep) hPlay
      rwa [List.append_assoc] at hRest

/-! ## Checked steps -/

/-- One value more finds room. -/
theorem push?_eq (hRoom : h.height + 1 ≤ limit) : h.push? limit = some h.push := by
  unfold push?
  rw [sum?_eq hRoom]
  rfl

/-- A checked comma answers as the comma does. -/
theorem comma?_eq (hs : h.Sound) (hRoom : h.moved + 1 ≤ limit) (span : Span) :
    h.comma? limit span = some (h.comma span) := by
  have hCounted := hs.counted_le
  unfold comma? Heights.comma
  split
  · rfl
  · -- there is a value above the level, so the height is not 0
    rw [sum?_eq (by omega), sum?_eq hRoom, difference?_eq (by omega)]
    rfl

/-- The values inside brackets are counted without going wrong. -/
theorem valuesInside?_eq (hs : h.Sound) (hRoom : h.height + h.moved + 1 ≤ limit) (span : Span) :
    h.valuesInside? limit span = some (h.valuesInside span) := by
  have hBase := hs.base_le
  have hCounted := hs.counted_le
  unfold valuesInside? valuesInside
  rw [sum?_eq (by omega), sum?_eq (by omega)]
  simp only [Option.bind_eq_bind, Option.bind_some, Option.pure_def]
  split
  · rfl
  -- either there is nothing behind the last comma, or the count is one more than was moved aside
  · split <;> rfl

/-- A checked closer answers as the closer does. -/
theorem closing?_eq (hs : h.Sound) (hRoom : h.height + h.moved + 1 ≤ limit) (b : Bracket)
    (span : Span) : h.closing? limit b span = some (h.closing b span) := by
  have hBase := hs.base_le
  unfold closing? Heights.closing
  cases hOuter : h.outer with
  | nil => rfl
  | cons level outer =>
    dsimp only
    rw [valuesInside?_eq hs hRoom]
    cases h.valuesInside span with
    | error e => rfl
    | ok inside =>
      -- the level has counted no more than was moved aside
      simp only [Option.bind_eq_bind, Option.bind_some, Option.pure_def,
        difference?_eq hs.counted_le]
      cases b with
      -- only these push a value, onto the height at which their level began
      | group | array =>
        rw [push?_eq (by simp only; omega)]
        rfl
      | index | call => rfl

/-- A checked operator for two answers as the operator does. -/
theorem binary?_eq (hs : h.Sound) (hRoom : h.height + 2 ≤ limit) (span : Span) :
    h.binary? limit span = some (h.binary span) := by
  have hBase := hs.base_le
  unfold binary? Heights.binary
  rw [sum?_eq (by omega)]
  simp only [Option.bind_eq_bind, Option.bind_some, Option.pure_def]
  split
  · rfl
  -- the operator has found two values of its own level
  · rw [difference?_eq (by omega)]
    rfl

/-- **A checked step answers as the step does**, as long as a word can hold two more than the
heights together. -/
theorem step?_eq (hs : h.Sound) (hRoom : h.height + h.moved + 2 ≤ limit) (i : Instruction) :
    h.step? limit i = some (h.step i) := by
  unfold step? Heights.step
  cases i.kind with
  | number | name =>
    dsimp only
    rw [push?_eq (by omega)]
    rfl
  | operator op =>
    cases op with
    -- what adds nothing and takes nothing off needs no check
    | opener => rfl
    | closer => exact closing?_eq hs (by omega) _ _
    | comma => exact comma?_eq hs (by omega) _
    | semicolon | plus | minus | spread | not | bitNot => rfl
    | _ => exact binary?_eq hs (by omega) _

/-- A checked play answers as the play does. -/
theorem play?_eq {pre code : List Instruction} (h₀ : h.Replayed pre)
    (hRoom : (pre ++ code).length < limit) : h.play? limit code = some (h.play code) := by
  -- induction on the code: together the heights have not outgrown what has been played
  induction code generalizing h pre with
  | nil => rfl
  | cons i code ih =>
    have hTotal := h₀.total
    have hLength : (pre ++ i :: code).length = pre.length + code.length + 1 := by
      rw [List.length_append, List.length_cons, Nat.add_assoc]
    unfold play? Heights.play
    rw [step?_eq h₀.sound (by omega)]
    cases hStep : h.step i with
    | error e => rfl
    | ok mid => exact ih (h₀.step hStep) (by rwa [List.append_assoc])

end Heights

/-- **Playing a sequence is exact**, whatever the sequence. Wherever the play gets to, the values
moved aside are those that the open levels have counted, the levels begin one above the other and
none above the present height, and the level of the statement is still the outermost one. So with
words that can hold one more than the number of instructions no sum and no difference goes wrong:
the checked play has an answer, and it is the same program or the same failure. -/
theorem exactly_replayed (code : List Instruction) :
    (∀ pre h, pre <+: code → Heights.play {} pre = .ok h → h.Replayed pre) ∧
      ∀ limit, code.length < limit → ofPostfix? limit code = some (ofPostfix code) := by
  constructor
  · intro pre h _ hPlay
    exact Heights.replayed_start.play hPlay
  -- the start has room for the whole sequence
  · intro limit hRoom
    unfold ofPostfix? ofPostfix
    rw [Heights.play?_eq Heights.replayed_start hRoom]
    cases Heights.play {} code with
    | error e => rfl
    | ok h =>
      simp only [Option.bind_eq_bind, Option.bind_some, Option.pure_def]
      split <;> rfl

/-- A sequence that no statement compiles to: a call that ends as an array, and one closer more. -/
def jumbled : List Instruction :=
  [⟨.operator (.opener .call), ⟨0, 1⟩, 0⟩, ⟨.number .decimal, ⟨1, 2⟩, 1⟩,
    ⟨.operator .comma, ⟨2, 3⟩, 1⟩, ⟨.name, ⟨3, 4⟩, 1⟩, ⟨.operator (.closer .array), ⟨4, 5⟩, 0⟩,
    ⟨.operator (.closer .group), ⟨5, 6⟩, 0⟩]

/-- In words of 64 bits the second closer is refused, for only the level of the statement is left.
Behind the comma one value has been moved aside, by the level of the call. -/
theorem exactly_replayed_jumbled :
    ofPostfix? (2 ^ 64 - 1) jumbled = some (.error (.atSpan SyntaxFault.invalidSyntax ⟨5, 6⟩)) ∧
      Heights.Replayed (jumbled.take 3)
        { height := 0, moved := 1, level := ⟨0, 1⟩, outer := [{}],
          maxHeight := 1, maxMoved := 1, maxOpen := 1 } := by
  obtain ⟨hReplayed, hChecked⟩ := exactly_replayed jumbled
  exact ⟨hChecked _ (by decide), hReplayed _ _ (List.take_prefix _ _) rfl⟩

/-- Heights that no play finds: the level has counted a value that was not moved aside. The checked
closer has no answer there. -/
example :
    Heights.closing? 10 { level := ⟨0, 1⟩, outer := [{}], height := 1 } .group ⟨0, 1⟩ = none :=
  rfl

end Program

end Reckon
