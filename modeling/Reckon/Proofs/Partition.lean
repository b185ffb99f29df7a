import Reckon.Proofs.Held
import Reckon.Proofs.Lockstep

/-!
# Whose values were moved aside

All open levels move their values aside onto one stack, and each level keeps no more than a number:
how many values it has moved aside or staged. A closer trusts that number. If it were too great by
one, a call would take an argument away from the list around it.

To say which values the numbers should stand for, a run is followed by a record of what every open
level has moved aside (`Machine.piles`). An opener begins a pile, a closer takes the topmost pile
away, and whatever another instruction moves aside goes on the topmost one. The record is made from
what the steps do to the stack and does not look at the numbers.

## Results

* `Machine.Partitioned`        — the stack is the piles, one on top of the other, and every level
                                 has counted its own pile and what is staged in it.
* `Machine.Partitioned.step`   — one step of any sequence keeps that.
* `Machine.partitioned_steps`  — so does a run of any sequence.
* `Program.collects_own`       — what the closers of a program collect: all values of their own
                                 level and none of a level around it.
-/

namespace Reckon

/-- What a level has counted is its pile, the values that it has moved aside, and what is staged in
it. Whatever is staged waits for a comma. -/
structure Frame.Accounts (f : Frame) (pile : List Object) : Prop where
  accepted : f.accepted = pile.length + f.waiting.length
  staged : ∀ entry ∈ f.staged, entry.elements ≠ [] ∧ 1 ≤ entry.remaining

namespace Machine

variable {m n : Machine}

/-! ## Piles -/

/-- What `n` has moved aside on top of what `m` has, oldest first. -/
def movedSince (m n : Machine) : List Object :=
  (n.moved.take (n.moved.length - m.moved.length)).reverse

/-- The piles behind an instruction that has moved `new` aside. The pile of the present level comes
first. -/
def pilesBehind (kind : InstructionKind) (new : List Object) (piles : List (List Object)) :
    List (List Object) :=
  match kind with
  | .operator (.opener _) => [] :: piles
  | .operator (.closer _) => piles.tail
  | _ => piles.modifyHead (· ++ new)

/-- The piles behind a sequence. -/
def piles (script : String) : Machine → List (List Object) → List Instruction → List (List Object)
  | _, piles, [] => piles
  | m, piles, i :: is =>
    let n := (m.step script i).2
    n.piles script (pilesBehind i.kind (m.movedSince n) piles) is

/-- What was moved aside is the piles, with that of the outermost level at the bottom, and every
level has counted what is on its own pile. -/
structure Partitioned (m : Machine) (piles : List (List Object)) : Prop where
  moved : m.moved.reverse = piles.reverse.flatten
  accounts : List.Forall₂ Frame.Accounts (m.frame :: m.outer) piles

variable {pile : List Object} {piles : List (List Object)}

/-- At the start there is one level, and its pile is empty. -/
theorem partitioned_start (s : Store) : Partitioned { store := s } [[]] :=
  ⟨rfl, .cons ⟨rfl, by simp⟩ .nil⟩

/-- What was put on top is what has been moved aside since. -/
theorem movedSince_eq {new : List Object} (h : n.moved = new.reverse ++ m.moved) :
    m.movedSince n = new := by
  have hTaken : n.moved.length - m.moved.length = new.reverse.length := by
    rw [h, List.length_append]
    omega
  rw [movedSince, hTaken, h, List.take_left, List.reverse_reverse]

/-! ## Inside a level -/

/-- What happens inside a level: it moves `new` aside, on top of all else, and counts that. -/
structure Extends (m n : Machine) (new : List Object) : Prop where
  moved : n.moved = new.reverse ++ m.moved
  outer : n.outer = m.outer
  accounts : ∀ pile, m.frame.Accounts pile → n.frame.Accounts (pile ++ new)

/-- What leaves the lists alone stays inside the present level, and moves nothing aside. -/
theorem extends_of_lists (h : n.lists = m.lists) : Extends m n [] := by
  simp only [lists, Prod.mk.injEq] at h
  obtain ⟨hMoved, hFrame, hOuter⟩ := h
  refine ⟨hMoved, hOuter, fun pile hPile => ?_⟩
  rwa [hFrame, List.append_nil]

/-- An operation that succeeds has left the lists as its machine has them. -/
theorem lists_of_eq {r : Except Failure Unit × Machine} (hEnd : r = (.ok (), n))
    (hLists : r.2.lists = m.lists) : n.lists = m.lists := by
  rwa [hEnd] at hLists

/-- A comma makes no element up and loses none: they are ready now or still wait. -/
theorem length_countDown_add (staged : List Staged) :
    (countDown staged).1.length + ((countDown staged).2.flatMap (·.elements)).length =
      (staged.flatMap (·.elements)).length := by
  have hCount := congrArg Multiset.card (countDown_eq staged)
  rwa [Multiset.card_add, Multiset.coe_card, Multiset.coe_card, Multiset.coe_card] at hCount

/-- What stays staged behind a comma still waits for one. -/
theorem waits_countDown {staged : List Staged} {entry : Staged}
    (hStaged : ∀ entry ∈ staged, entry.elements ≠ [] ∧ 1 ≤ entry.remaining)
    (hEntry : entry ∈ (countDown staged).2) : entry.elements ≠ [] ∧ 1 ≤ entry.remaining := by
  obtain ⟨before, hBefore, rfl⟩ := List.mem_map.1 hEntry
  obtain ⟨hMem, hLate⟩ := List.mem_filter.1 hBefore
  have hMore : 1 < before.remaining := by simpa using hLate
  exact ⟨(hStaged before hMem).1, by simp only; omega⟩

/-- A comma stays inside the present level: it moves the oldest value aside, and what was ready for
it. -/
theorem exists_extends_comma (hComma : m.comma = (.ok (), n)) : ∃ new, Extends m n new := by
  unfold comma at hComma
  split at hComma
  · cases hComma
  · rename_i oldest newer _
    cases hComma
    refine ⟨oldest :: (countDown m.frame.staged).1, ?_, rfl, fun pile hPile => ⟨?_, ?_⟩⟩
    · show (countDown m.frame.staged).1.reverse ++ oldest :: m.moved = _
      rw [List.reverse_cons, List.append_assoc, List.singleton_append]
    · -- the oldest value is counted now, what is ready has been counted before
      have hCount := length_countDown_add m.frame.staged
      have hAccepted := hPile.accepted
      show m.frame.accepted + 1 = _ + ((countDown m.frame.staged).2.flatMap (·.elements)).length
      simp only [Frame.waiting, List.length_append, List.length_cons] at hAccepted ⊢
      omega
    · exact fun entry hEntry => waits_countDown hPile.staged hEntry

/-- Setting elements aside stays inside the present level: they are moved at once or staged. -/
theorem exists_extends_setAside (m : Machine) (objs : List Object) :
    ∃ new, Extends m (m.setAside objs) new := by
  unfold setAside
  dsimp only
  split
  · -- no value of the level is in front of the elements
    refine ⟨objs.reverse, by simp, rfl, fun pile hPile => ⟨?_, hPile.staged⟩⟩
    have hAccepted := hPile.accepted
    simp only [Frame.waiting, List.length_append, List.length_reverse] at hAccepted ⊢
    omega
  · rename_i hPending
    refine ⟨[], ?_⟩
    split
    · rename_i hEmpty
      rw [List.isEmpty_iff.1 hEmpty]
      -- no element is left to be staged, so nothing changes
      exact extends_of_lists rfl
    · rename_i hSome
      refine ⟨rfl, rfl, fun pile hPile => ⟨?_, ?_⟩⟩
      · have hAccepted := hPile.accepted
        simp only [Frame.waiting, List.flatMap_append, List.flatMap_singleton, List.length_append,
          List.length_reverse, List.append_nil] at hAccepted ⊢
        omega
      · intro entry hEntry
        rcases List.mem_append.1 hEntry with hOld | hNew
        · exact hPile.staged entry hOld
        · -- as many commas are to come as values of the level are on the stack
          rw [List.mem_singleton.1 hNew]
          refine ⟨?_, Nat.pos_of_ne_zero hPending⟩
          simpa [List.isEmpty_iff] using hSome

/-- A spread stays inside the present level. -/
theorem exists_extends_spread (hSpread : m.spread = (.ok (), n)) : ∃ new, Extends m n new := by
  unfold spread at hSpread
  split at hSpread
  · cases hSpread
  · dsimp only at hSpread
    split at hSpread
    · cases hSpread
    · split at hSpread
      · cases hSpread
      · rename_i last others _
        cases hSpread
        obtain ⟨new, hNew⟩ := exists_extends_setAside _ others
        exact ⟨new, hNew.moved, hNew.outer, hNew.accounts⟩

/-- Whatever is no bracket stays inside the present level. -/
theorem exists_extends_step {script : String} {i : Instruction}
    (hOpener : ∀ b, i.kind ≠ .operator (.opener b)) (hCloser : ∀ b, i.kind ≠ .operator (.closer b))
    (hStep : m.step script i = (.ok (), n)) : ∃ new, Extends m n new := by
  unfold Machine.step at hStep
  split at hStep
  · have hLists := lists_of_eq hStep (lists_pushResult _ _)
    exact ⟨[], extends_of_lists hLists⟩
  · split at hStep
    · cases hStep
      exact ⟨[], extends_of_lists rfl⟩
    · cases hStep
  · rename_i op hKind
    cases op with
    | opener b => exact absurd hKind (hOpener b)
    | closer b => exact absurd hKind (hCloser b)
    | comma => exact exists_extends_comma hStep
    | spread => exact exists_extends_spread hStep
    -- all that follow leave the lists alone
    | semicolon => exact ⟨[], extends_of_lists (lists_of_eq hStep rfl)⟩
    | assign => exact ⟨[], extends_of_lists (lists_of_eq hStep (lists_assign m))⟩
    | plus | minus | not | bitNot =>
      exact ⟨[], extends_of_lists (lists_of_eq hStep (lists_unary m _))⟩
    | divAssign | mulAssign | modAssign | addAssign | subAssign | shlAssign | shrAssign
        | andAssign | xorAssign | orAssign =>
      exact ⟨[], extends_of_lists (lists_of_eq hStep (lists_compound m _))⟩
    | _ => exact ⟨[], extends_of_lists (lists_of_eq hStep (lists_binary m _))⟩

/-- What stays inside the present level adds to its pile. -/
theorem Partitioned.extends {new : List Object} (hm : m.Partitioned piles) (hn : Extends m n new) :
    n.Partitioned (piles.modifyHead (· ++ m.movedSince n)) := by
  rw [movedSince_eq hn.moved]
  obtain ⟨hMoved, hAccounts⟩ := hm
  cases hAccounts with
  | cons hPile hOuter =>
    refine ⟨?_, ?_⟩
    · rw [hn.moved, List.reverse_append, List.reverse_reverse, hMoved]
      -- the piles are reversed to lie on the stack, so the present one is at its top
      simp
    · rw [hn.outer]
      exact .cons (hn.accounts _ hPile) hOuter

/-! ## Brackets -/

/-- An opener begins an empty pile. -/
theorem Partitioned.opening (hm : m.Partitioned piles) (b : Bracket) :
    (m.opening b).Partitioned ([] :: piles) := by
  refine ⟨?_, .cons ⟨rfl, by simp [Machine.opening]⟩ hm.accounts⟩
  have hMoved := hm.moved
  simpa [Machine.opening] using hMoved

/-- A level hands over its own pile, what is still staged in it and its values on the stack. What
the levels around it have moved aside stays where it is. -/
theorem Partitioned.leave (hm : m.Partitioned (pile :: piles)) (around : Frame)
    (outer : List Frame) :
    m.leave around outer =
      (pile ++ m.frame.waiting ++ (m.values.take m.pending).reverse,
        { m with
          values := m.values.drop m.pending
          moved := piles.reverse.flatten.reverse
          frame := around
          outer }) := by
  -- the pile of the level lies on top of what was moved aside
  have hMoved : m.moved = pile.reverse ++ piles.reverse.flatten.reverse := by
    rw [← List.reverse_reverse m.moved, hm.moved]
    simp
  -- what the level has counted is exactly what it takes: what is staged, and its own pile
  have hCounted : m.frame.accepted = (m.frame.waiting.reverse ++ pile.reverse).length := by
    have hAccepted := (List.forall₂_cons.1 hm.accounts).1.accepted
    rw [List.length_append, List.length_reverse, List.length_reverse]
    omega
  unfold Machine.leave
  show (((m.frame.waiting.reverse ++ m.moved).take m.frame.accepted).reverse ++ _,
    { m with
      values := _, moved := (m.frame.waiting.reverse ++ m.moved).drop m.frame.accepted,
      frame := around, outer }) = _
  rw [hMoved, ← List.append_assoc, hCounted, List.take_left, List.drop_left, List.reverse_append,
    List.reverse_reverse, List.reverse_reverse]

/-- A closer takes the topmost pile away. -/
theorem Partitioned.closing {b : Bracket} (hm : m.Partitioned piles)
    (hClosing : m.closing b = (.ok (), n)) : n.Partitioned piles.tail := by
  have hEnd : (m.closing b).2 = n := congrArg Prod.snd hClosing
  cases hOuter : m.outer with
  | nil =>
    -- nothing closes the statement
    simp only [Machine.closing, hOuter, Prod.mk.injEq, reduceCtorEq, false_and] at hClosing
  | cons around outer =>
    cases piles with
    | nil => cases hm.accounts
    | cons pile piles =>
      have hLists := lists_closing b hOuter
      rw [hEnd, hm.leave around outer] at hLists
      simp only [lists, Prod.mk.injEq] at hLists
      obtain ⟨hMoved, hFrame, hFrames⟩ := hLists
      refine ⟨by rw [hMoved, List.reverse_reverse]; rfl, ?_⟩
      have hAround := (List.forall₂_cons.1 hm.accounts).2
      rwa [hOuter, ← hFrame, ← hFrames] at hAround

/-- What a closer makes of the values between the brackets. -/
def construct (m : Machine) (b : Bracket) (items : List Object) : Except Failure Unit × Machine :=
  match b with
  | .group => m.closingGroup items
  | .index => m.closingIndex items
  | .call => m.closingCall items
  | .array => m.closingArray items

/-- A closer leaves its level and makes something of the values in it. -/
theorem closing_eq_construct {around : Frame} {outer : List Frame} (b : Bracket)
    (hOuter : m.outer = around :: outer) :
    m.closing b = (m.leave around outer).2.construct b (m.leave around outer).1 := by
  cases b <;> simp only [Machine.closing, hOuter, construct]

/-! ## Runs -/

/-- **One step keeps the piles apart.** -/
theorem Partitioned.step {script : String} {i : Instruction} (hm : m.Partitioned piles)
    (hStep : m.step script i = (.ok (), n)) :
    n.Partitioned (pilesBehind i.kind (m.movedSince n) piles) := by
  -- an opener begins a pile, a closer takes one away, and all else stays inside the level
  by_cases hOpener : ∃ b, i.kind = .operator (.opener b)
  · obtain ⟨b, hKind⟩ := hOpener
    unfold Machine.step at hStep
    rw [hKind] at hStep ⊢
    cases hStep
    exact hm.opening b
  · by_cases hCloser : ∃ b, i.kind = .operator (.closer b)
    · obtain ⟨b, hKind⟩ := hCloser
      unfold Machine.step at hStep
      rw [hKind] at hStep ⊢
      exact hm.closing hStep
    · push Not at hOpener hCloser
      obtain ⟨new, hNew⟩ := exists_extends_step hOpener hCloser hStep
      have hPiles := hm.extends hNew
      unfold pilesBehind
      split
      · rename_i b hKind
        exact absurd hKind (hOpener b)
      · rename_i b hKind
        exact absurd hKind (hCloser b)
      · exact hPiles

/-- **A run keeps the piles apart**, of whatever sequence. -/
theorem partitioned_steps {script : String} {code : List Instruction} (hm : m.Partitioned piles)
    (hSteps : steps script m code = (.ok (), n)) :
    n.Partitioned (m.piles script piles code) := by
  -- induction on the code, with the machine and the piles left open
  induction code generalizing m piles with
  | nil =>
    cases hSteps
    exact hm
  | cons i code ih =>
    unfold Machine.steps at hSteps
    unfold Machine.piles
    cases hStep : m.step script i with
    | mk answer mid =>
      rw [hStep] at hSteps
      cases answer with
      | ok _ => exact ih (hm.step hStep) hSteps
      | error e => cases hSteps

end Machine

open Machine

/-- **Every closer collects the values of its own level** and none of a level around it. Wherever a
run of a program has got to, what was moved aside is the piles of the open levels, every level has
counted its pile and what is staged in it, and the levels begin one above the other and none above
the stack. So a closer hands over the topmost pile, what is staged and the values down to where the
level begins, and all other piles stay. The bracket of the closer need not be that of the opener. -/
theorem Program.collects_own {code : List Instruction} {p : Program}
    (hp : Program.ofPostfix code = .ok p) (script : String) (s : Store) {pre : List Instruction}
    {m : Machine} (hPre : pre <+: p.code) (hSteps : steps script { store := s } pre = (.ok (), m)) :
    ∃ pile around, Machine.piles script { store := s } [[]] pre = pile :: around ∧
      m.Partitioned (pile :: around) ∧
      (m.values.length :: (m.frame :: m.outer).map (·.base)).IsChain (· ≥ ·) ∧
      ∀ frame outer, m.outer = frame :: outer → ∀ b,
        (m.values.drop m.pending).length = m.frame.base ∧
          m.closing b =
            Machine.construct
              { m with
                values := m.values.drop m.pending
                moved := around.reverse.flatten.reverse
                frame
                outer }
              b (pile ++ m.frame.waiting ++ (m.values.take m.pending).reverse) := by
  have hPiles := partitioned_steps (partitioned_start s) hSteps
  generalize Machine.piles script { store := s } [[]] pre = piles at hPiles
  cases piles with
  | nil => cases hPiles.accounts
  | cons pile around =>
    -- the machine stands at the heights that the check has found
    obtain ⟨h, hPlay, -, -, hProgram⟩ := exists_play_of_ofPostfix hp
    rw [hProgram] at hPre
    obtain ⟨mid, -, hFollows⟩ :=
      follows_of_prefix False hPlay hPre (fun hNot => hNot.elim) script s
    rw [hSteps] at hFollows
    have hInStep := hFollows.1.inStep
    have hOrdered := hFollows.1.peaked.sound.ordered
    rw [← hInStep.height, ← hInStep.base, ← hInStep.outer] at hOrdered
    refine ⟨pile, around, rfl, hPiles, hOrdered, fun frame outer hOuter b => ⟨?_, ?_⟩⟩
    · have hBase : m.frame.base ≤ m.values.length := (List.isChain_cons_cons.1 hOrdered).1
      rw [List.length_drop, pending]
      omega
    · rw [closing_eq_construct b hOuter, hPiles.leave frame outer]

/-- What `{0, 1, {2, 3, *{4, 5, 6}, 7}}` compiles to. -/
def Program.nested : List Instruction :=
  [⟨.operator (.opener .array), ⟨0, 1⟩, 0⟩, ⟨.number .decimal, ⟨1, 2⟩, 1⟩,
    ⟨.number .decimal, ⟨4, 5⟩, 1⟩, ⟨.operator .comma, ⟨2, 3⟩, 1⟩,
    ⟨.operator (.opener .array), ⟨7, 8⟩, 1⟩, ⟨.number .decimal, ⟨8, 9⟩, 2⟩,
    ⟨.number .decimal, ⟨11, 12⟩, 2⟩, ⟨.operator .comma, ⟨9, 10⟩, 2⟩,
    ⟨.operator (.opener .array), ⟨15, 16⟩, 2⟩, ⟨.number .decimal, ⟨16, 17⟩, 3⟩,
    ⟨.number .decimal, ⟨19, 20⟩, 3⟩, ⟨.operator .comma, ⟨17, 18⟩, 3⟩,
    ⟨.number .decimal, ⟨22, 23⟩, 3⟩, ⟨.operator .comma, ⟨20, 21⟩, 3⟩,
    ⟨.operator (.closer .array), ⟨23, 24⟩, 2⟩, ⟨.operator .spread, ⟨14, 15⟩, 2⟩,
    ⟨.operator .comma, ⟨12, 13⟩, 2⟩, ⟨.number .decimal, ⟨26, 27⟩, 2⟩,
    ⟨.operator .comma, ⟨24, 25⟩, 2⟩, ⟨.operator (.closer .array), ⟨27, 28⟩, 1⟩,
    ⟨.operator .comma, ⟨5, 6⟩, 1⟩, ⟨.operator (.closer .array), ⟨28, 29⟩, 0⟩]

/-- Behind the spread 0 and 2 were moved aside, each by its own level. The inner level has counted
three values, for 4 and 5 are staged behind the 3 on the stack. -/
theorem Program.collects_own_nested :
    let r := steps "{0, 1, {2, 3, *{4, 5, 6}, 7}}" { store := .empty } (nested.take 16)
    (ofPostfix nested).map (·.code) = .ok nested ∧ r.1 = .ok () ∧
      (∃ pile around, r.2.Partitioned (pile :: around) ∧
        (pile :: around).map (·.map r.2.numberOf) =
          [[.ok (.int 2 .decimal false)], [.ok (.int 0 .decimal false)], []]) ∧
      r.2.frame.accepted = 3 ∧ r.2.frame.waiting.length = 2 := by
  intro r
  obtain ⟨p, hp, hCode⟩ : ∃ p, ofPostfix nested = .ok p ∧ p.code = nested := ⟨_, rfl, rfl⟩
  have hOk : r.1 = .ok () := rfl
  have hPre : nested.take 16 <+: p.code := hCode ▸ List.take_prefix _ _
  obtain ⟨pile, around, hPiles, hPartitioned, -⟩ :=
    Program.collects_own hp "{0, 1, {2, 3, *{4, 5, 6}, 7}}" .empty hPre (Prod.ext hOk rfl)
  refine ⟨rfl, hOk, ⟨pile, around, hPartitioned, ?_⟩, rfl, rfl⟩
  rw [← hPiles]
  rfl

end Reckon
