import Reckon.Proofs.Acceptance
import Reckon.Proofs.Precedence

/-!
# The pass over any tokens

`Postfix.ofTokens` takes tokens that need not form an expression. `Pass.Taken` lists what taking a
token does to what has been emitted and to what waits. What waits falls into stretches of operators
with openers in between, one stretch for each bracket that is open and one for the statement, as
the heights fall into levels (`Pass.Nested`). A property of one stretch and its level that survives
the emission of operators, operands and brackets therefore holds along the whole pass.
-/

namespace Reckon

/-- Whether the bracket takes the place of the value in front of it. -/
def Bracket.takesTarget : Bracket → Bool
  | .index | .call => true
  | .group | .array => false

namespace Postfix

namespace Pass

open Program

/-! ## Taking a token -/

/-- What can wait: openers, and operators that stand in front of an operand or between operands. -/
def Layered (waiting : List Waiting) : Prop :=
  ∀ w ∈ waiting, w.op.isOpener = true ∨ 2 ≤ w.op.priority ∧ w.op.priority ≤ 15

/-- The bracket that an opener opens. -/
def openedBehind (previous : Option TokenKind) (b : Bracket) : Bracket :=
  if b = .group ∧ opensCall previous then .call else b

/-- What taking a token does, if it succeeds. -/
inductive Taken (p : Pass) (previous : Option TokenKind) : Token → Pass → Prop
  | number (numeral : Numeral) (span : Span) :
      Taken p previous ⟨.number (some numeral), span⟩ (p.emit (.number numeral) span)
  | name (span : Span) : Taken p previous ⟨.identifier, span⟩ (p.emit .name span)
  | opening (b : Bracket) (span : Span) :
      Taken p previous ⟨.operator (.opener b), span⟩ (p.opening (openedBehind previous b) span)
  | closing {b opened closed : Bracket} {place : Span} {ends waiting : List Waiting} (span : Span)
      (hWaiting : p.waiting = ends ++ ⟨.opener opened, place⟩ :: waiting)
      (hInside : Inside 15 ends) (hMatch : matching? opened b = some closed) :
      Taken p previous ⟨.operator (.closer b), span⟩
        ⟨⟨.operator (.closer closed), span, p.depth - 1⟩ :: flushed p.depth ends p.emitted,
          waiting, p.depth - 1⟩
  | semicolon (span : Span) : Taken p previous ⟨.operator .semicolon, span⟩ p
  | operator {op : Operator} {ends waiting : List Waiting} (span : Span)
      (hLow : 2 ≤ op.priority) (hHigh : op.priority ≤ 15) (hWaiting : p.waiting = ends ++ waiting)
      (hInside : Inside 15 ends) (hBefore : ∀ w ∈ ends, goesBefore w.op op) :
      Taken p previous ⟨.operator op, span⟩
        ⟨flushed p.depth ends p.emitted, ⟨op, span⟩ :: waiting, p.depth⟩

/-- A closer ends the construct that was opened. -/
theorem eq_of_matching {opened b closed : Bracket} (h : matching? opened b = some closed) :
    closed = opened := by
  unfold matching? at h
  split at h
  · exact (Option.some.inj h).symm
  split at h
  · rename_i hCall
    rw [hCall.1]
    exact (Option.some.inj h).symm
  · cases h

/-- Nothing waits, and nothing binds too loosely. -/
theorem Inside.nil (bound : Nat) : Inside bound [] := by
  intro w hw
  cases hw

theorem Inside.cons {bound : Nat} {w : Waiting} {ends : List Waiting}
    (hw : 2 ≤ w.op.priority ∧ w.op.priority ≤ bound) (h : Inside bound ends) :
    Inside bound (w :: ends) := List.forall_mem_cons.2 ⟨hw, h⟩

/-- What waits up to the innermost opener. -/
theorem Layered.cases {w : Waiting} {waiting : List Waiting} (h : Layered (w :: waiting)) :
    (∃ b, w.op = .opener b) ∨
      w.op.isOpener = false ∧ 2 ≤ w.op.priority ∧ w.op.priority ≤ 15 := by
  rcases h w (List.mem_cons_self ..) with hOpener | hPriority
  · left
    cases hOp : w.op <;> simp [hOp, Operator.isOpener] at hOpener
    exact ⟨_, rfl⟩
  · exact .inr ⟨isOpener_of_two_le hPriority.1, hPriority⟩

/-- What waits below can wait. -/
theorem Layered.tail {w : Waiting} {waiting : List Waiting} (h : Layered (w :: waiting)) :
    Layered waiting := fun v hv => h v (List.mem_cons_of_mem _ hv)

/-- A closer that finds its opener emits what waits on top of it. -/
theorem exists_of_closing {b : Bracket} {span : Span} {depth : Nat} {q : Pass} :
    ∀ {waiting : List Waiting} {emitted : List Instruction}, Layered waiting →
      closing b span depth emitted waiting = .ok q →
      ∃ ends opened place rest closed, waiting = ends ++ ⟨.opener opened, place⟩ :: rest ∧
        Inside 15 ends ∧ matching? opened b = some closed ∧
        q = ⟨⟨.operator (.closer closed), span, depth - 1⟩ :: flushed depth ends emitted, rest,
          depth - 1⟩
  | [], emitted, _, h => by simp [closing] at h
  | ⟨op, place⟩ :: waiting, emitted, hLayered, h => by
    rcases hLayered.cases with ⟨opened, hOp⟩ | ⟨hOpener, hPriority⟩
    · dsimp only at hOp
      subst hOp
      simp only [closing] at h
      split at h
      · simp at h
      · rename_i closed hMatch
        cases h
        exact ⟨[], opened, place, waiting, closed, rfl, Inside.nil 15, hMatch, rfl⟩
    · -- an operator is emitted, and the search for the opener goes on
      have hNext :
          closing b span depth (⟨.operator op, place, depth⟩ :: emitted) waiting = .ok q := by
        cases op <;> first | exact h | cases hOpener
      obtain ⟨ends, opened, place', rest, closed, rfl, hInside, hMatch, hq⟩ :=
        exists_of_closing hLayered.tail hNext
      refine ⟨⟨op, place⟩ :: ends, opened, place', rest, closed, rfl, hInside.cons hPriority,
        hMatch, ?_⟩
      rw [hq, flushed_cons]
      rfl

/-- What an operator releases waits on top of all that stays. -/
theorem exists_of_releasing (op : Operator) (depth : Nat) :
    ∀ {waiting : List Waiting} (emitted : List Instruction), Layered waiting →
      ∃ ends rest, waiting = ends ++ rest ∧ Inside 15 ends ∧ (∀ w ∈ ends, goesBefore w.op op) ∧
        releasing op depth emitted waiting = (flushed depth ends emitted, rest)
  | [], emitted, _ => ⟨[], [], rfl, Inside.nil 15, by simp, rfl⟩
  | w :: waiting, emitted, hLayered => by
    unfold releasing
    split
    · rename_i hRelease
      obtain ⟨hOpener, hBefore⟩ := Bool.and_eq_true_iff.1 hRelease
      rcases hLayered.cases with ⟨opened, hOp⟩ | ⟨-, hPriority⟩
      · simp [hOp, Operator.isOpener] at hOpener
      · obtain ⟨ends, rest, rfl, hInside, hEnds, hReleasing⟩ :=
          exists_of_releasing op depth (⟨.operator w.op, w.span, depth⟩ :: emitted) hLayered.tail
        refine ⟨w :: ends, rest, rfl, hInside.cons hPriority,
          List.forall_mem_cons.2 ⟨hBefore, hEnds⟩, ?_⟩
        rw [hReleasing, flushed_cons]
        rfl
    · -- what stays keeps all below it waiting
      exact ⟨[], w :: waiting, rfl, Inside.nil 15, by simp, rfl⟩

/-- **Taking a token does one of the things listed.** -/
theorem taken {p q : Pass} {previous : Option TokenKind} {t : Token} (hLayered : Layered p.waiting)
    (h : p.take previous t = .ok q) : Taken p previous t q := by
  obtain ⟨kind, span⟩ := t
  -- the cases are those of `take`, in its order
  unfold take at h
  dsimp only at h
  split at h
  · cases h
    exact .number _ _
  · cases h
    exact .name _
  · cases h
    have hOpened : (if opensCall previous then Bracket.call else .group) =
        openedBehind previous .group := by simp [openedBehind]
    rw [hOpened]
    exact .opening _ _
  · -- only the bracket of a group can become that of a call
    rename_i b hGroup
    cases h
    have hOpened : b = openedBehind previous b := by
      have hOther : b ≠ .group := fun hEq => hGroup (by rw [hEq])
      simp [openedBehind, hOther]
    have hTaken : Taken p previous ⟨.operator (.opener b), span⟩ _ := .opening b span
    rwa [← hOpened] at hTaken
  · obtain ⟨ends, opened, place, rest, closed, hWaiting, hInside, hMatch, rfl⟩ :=
      exists_of_closing hLayered h
    exact .closing span hWaiting hInside hMatch
  · cases h
    exact .semicolon _
  · -- what is neither a bracket nor a terminator waits with its priority
    rename_i op hGroup hOpener hCloser hSemicolon
    cases h
    obtain ⟨ends, rest, hWaiting, hInside, hBefore, hReleasing⟩ :=
      exists_of_releasing op p.depth p.emitted hLayered
    have hPriority : 2 ≤ op.priority ∧ op.priority ≤ 15 := by
      cases op <;> simp_all [Operator.priority]
    have hTaken : Taken p previous ⟨.operator op, span⟩ _ :=
      .operator span hPriority.1 hPriority.2 hWaiting hInside hBefore
    unfold operator
    rw [hReleasing]
    exact hTaken
  -- nothing else can be taken
  · simp at h
  · simp at h
  · simp at h
  · simp at h

/-- What waits behind a token can wait. -/
theorem Taken.layered {p q : Pass} {previous : Option TokenKind} {t : Token}
    (h : Taken p previous t q) (hLayered : Layered p.waiting) : Layered q.waiting := by
  cases h with
  | number | name | semicolon => exact hLayered
  | opening b span => exact List.forall_mem_cons.2 ⟨.inl rfl, hLayered⟩
  | closing span hWaiting =>
    rw [hWaiting] at hLayered
    exact fun w hw => hLayered w (List.mem_append_right _ (List.mem_cons_of_mem _ hw))
  | operator span hLow hHigh hWaiting =>
    rw [hWaiting] at hLayered
    refine List.forall_mem_cons.2 ⟨.inr ⟨hLow, hHigh⟩, ?_⟩
    exact fun w hw => hLayered w (List.mem_append_right _ hw)

/-- At the end nothing waits but operators. -/
theorem exists_of_finishing {depth : Nat} {code : List Instruction} :
    ∀ {waiting : List Waiting} {emitted : List Instruction}, Layered waiting →
      finishing depth emitted waiting = .ok code →
      Inside 15 waiting ∧ code = (flushed depth waiting emitted).reverse
  | [], emitted, _, h => by
    cases h
    exact ⟨Inside.nil 15, rfl⟩
  | w :: waiting, emitted, hLayered, h => by
    unfold finishing at h
    split at h
    · -- an opener that still waits has not found its closer, which is an error
      simp at h
    · rename_i hOpener
      rcases hLayered.cases with ⟨opened, hOp⟩ | ⟨-, hPriority⟩
      · simp [hOp, Operator.isOpener] at hOpener
      · obtain ⟨hInside, hCode⟩ := exists_of_finishing hLayered.tail h
        exact ⟨hInside.cons hPriority, by rw [hCode, flushed_cons]; rfl⟩

/-! ## Heights behind what has been emitted -/

/-- Playing what has been emitted leads to the heights. -/
def Reaches (emitted : List Instruction) (h : Heights) : Prop :=
  Heights.play {} emitted.reverse = .ok h

variable {emitted : List Instruction} {h h' : Heights}

theorem reaches_start : Reaches [] {} := rfl

/-- What has been emitted leads to one state of the heights. -/
theorem Reaches.eq (hReach : Reaches emitted h) (hReach' : Reaches emitted h') : h = h' := by
  unfold Reaches at hReach hReach'
  rw [hReach] at hReach'
  exact Except.ok.inj hReach'

/-- One more instruction is one more step. -/
theorem Reaches.step {i : Instruction} (hReach : Reaches emitted h)
    (hNext : Reaches (i :: emitted) h') : h.step i = .ok h' := by
  unfold Reaches at hReach hNext
  rw [List.reverse_cons, Heights.play_append, hReach] at hNext
  simp only [Heights.play] at hNext
  split at hNext
  · simp at hNext
  · rename_i mid hStep
    rw [hStep, hNext]

/-- The step leads to the same heights, however they are known. -/
theorem Reaches.eq_of_step {i : Instruction} {g : Heights} (hReach : Reaches emitted h)
    (hStep : h.step i = .ok g) (hNext : Reaches (i :: emitted) h') : h' = g := by
  have hSame := hReach.step hNext
  rw [hStep] at hSame
  exact (Except.ok.inj hSame).symm

/-- What has been emitted before plays, as all of it does. -/
theorem Reaches.of_suffix {emitted' : List Instruction} (hReach : Reaches emitted' h')
    (hSuffix : emitted <:+ emitted') : ∃ h, Reaches emitted h := by
  obtain ⟨new, rfl⟩ := hSuffix
  unfold Reaches at hReach
  rw [List.reverse_append, Heights.play_append_eq_ok_iff] at hReach
  obtain ⟨mid, hMid, -⟩ := hReach
  exact ⟨mid, hMid⟩

/-- Operators that are emitted come on top of what was emitted. -/
theorem suffix_flushed (depth : Nat) (ends : List Waiting) (emitted : List Instruction) :
    emitted <:+ flushed depth ends emitted := List.suffix_append _ _

/-- Taking a token takes nothing back that was emitted. -/
theorem Taken.suffix {p q : Pass} {previous : Option TokenKind} {t : Token}
    (hTaken : Taken p previous t q) : p.emitted <:+ q.emitted := by
  cases hTaken with
  | number | name | opening => exact List.suffix_cons _ _
  | closing => exact (suffix_flushed _ _ _).trans (List.suffix_cons _ _)
  | semicolon => exact List.suffix_refl _
  | operator => exact suffix_flushed _ _ _

/-- What is emitted later comes on top. -/
theorem later_of_takeAll : ∀ {ts : List Token} {previous : Option TokenKind} {p q : Pass},
    Layered p.waiting → p.takeAll previous ts = .ok q →
      p.emitted <:+ q.emitted ∧ Layered q.waiting
  | [], previous, p, q, hLayered, hTake => by
    cases hTake
    exact ⟨List.suffix_refl _, hLayered⟩
  | t :: ts, previous, p, q, hLayered, hTake => by
    simp only [takeAll] at hTake
    split at hTake
    · simp at hTake
    · rename_i mid hMid
      have hTaken := taken hLayered hMid
      obtain ⟨hSuffix, hLast⟩ := later_of_takeAll (hTaken.layered hLayered) hTake
      exact ⟨hTaken.suffix.trans hSuffix, hLast⟩

/-- **What every token preserves holds at the end of the pass.** The tokens may be known to stand
where they do. -/
theorem invariant_of_takeAll {I : Pass → Heights → List Token → Prop}
    {S : List Token → Token → Prop}
    (hStep : ∀ p h ts t q h', I p h ts → Reaches p.emitted h → Taken p (lastKind none ts) t q →
      Reaches q.emitted h' → S ts t → I q h' (ts ++ [t])) :
    ∀ {us ts : List Token} {p q : Pass} {h hEnd : Heights}, I p h ts → Layered p.waiting →
      Reaches p.emitted h → p.takeAll (lastKind none ts) us = .ok q → Reaches q.emitted hEnd →
      (∀ pre t post, ts ++ us = pre ++ t :: post → S pre t) → I q hEnd (ts ++ us)
  | [], ts, p, q, h, hEnd, hI, hLayered, hReach, hTake, hLast, _ => by
    cases hTake
    -- the heights at the end are the present ones
    rw [hReach.eq hLast] at hI
    rwa [List.append_nil]
  | t :: us, ts, p, q, h, hEnd, hI, hLayered, hReach, hTake, hLast, hStands => by
    simp only [takeAll] at hTake
    split at hTake
    · simp at hTake
    · rename_i mid hMid
      have hTaken := taken hLayered hMid
      -- what has been emitted so far plays through, as all of it does
      obtain ⟨hSuffix, -⟩ := later_of_takeAll (hTaken.layered hLayered) hTake
      obtain ⟨hNow, hReach'⟩ := hLast.of_suffix hSuffix
      have hI' := hStep p h ts t mid hNow hI hReach hTaken hReach' (hStands ts t us rfl)
      have hKind : lastKind none (ts ++ [t]) = some t.kind := lastKind_append none ts t
      rw [← hKind] at hTake
      have hRest := invariant_of_takeAll hStep hI' (hTaken.layered hLayered) hReach' hTake hLast
        (by simpa using hStands)
      simpa using hRest

/-! ## What emission does to the heights -/

/-- What has been emitted on top is what is played next. -/
theorem Reaches.play_flushed {depth : Nat} {ends : List Waiting} (hReach : Reaches emitted h)
    (hNext : Reaches (flushed depth ends emitted) h') :
    h.play (ends.map (Waiting.instruction depth)) = .ok h' := by
  unfold Reaches at hReach hNext
  rw [flushed, List.reverse_append, List.reverse_reverse, Heights.play_append, hReach] at hNext
  exact hNext

/-- What the emission of a waiting operator does to the level it belongs to. -/
inductive Settles (h : Heights) : Operator → Heights → Prop
  | prefixed {op : Operator} (hOp : op.isPrefix) (hValue : h.level.base < h.height) : Settles h op h
  | binary {op : Operator} {h' : Heights} (hOp : op.isBinary) (hHeight : h.height = h'.height + 1)
      (hValue : h.level.base < h'.height) (hLevel : h'.level = h.level)
      (hOuter : h'.outer = h.outer) : Settles h op h'
  | comma {h' : Heights} (hHeight : h.height = h'.height + 1)
      (hBase : h'.level.base = h.level.base) (hValue : h.level.base ≤ h'.height)
      (hMoved : h'.level.moved = h.level.moved + 1) (hOuter : h'.outer = h.outer) :
      Settles h .comma h'

/-- **An operator that is emitted settles**: one case for each kind of operator. -/
theorem settles {w : Waiting} {depth : Nat} (hw : 2 ≤ w.op.priority ∧ w.op.priority ≤ 15)
    (hStep : h.step (Waiting.instruction depth w) = .ok h') : Settles h w.op h' := by
  have hStepped := Heights.stepped hStep
  obtain ⟨op, span⟩ := w
  dsimp only [Waiting.instruction] at hw hStepped
  -- brackets and terminators have no priority in these bounds
  cases hStepped with
  | opening | closingValue | closingTarget => simp [Operator.priority] at hw
  | semicolon => simp [Operator.priority] at hw
  | comma hValue => exact .comma (by simp only; omega) rfl (by simp only; omega) rfl rfl
  | prefixed hOp hValue => exact .prefixed hOp hValue
  | binary hOp hValues => exact .binary hOp (by simp only; omega) (by simp only; omega) rfl rfl

/-- Operators leave the brackets around as they are. -/
theorem Settles.outer_eq {op : Operator} (hSettles : Settles h op h') : h'.outer = h.outer := by
  cases hSettles with
  | prefixed => rfl
  | binary _ _ _ _ hOuter => exact hOuter
  | comma _ _ _ _ hOuter => exact hOuter

/-- Operators leave the beginning of the level as it is. -/
theorem Settles.base_eq {op : Operator} (hSettles : Settles h op h') :
    h'.level.base = h.level.base := by
  cases hSettles with
  | prefixed => rfl
  | binary _ _ _ hLevel _ => rw [hLevel]
  | comma _ hBase => exact hBase

/-- What the emission of each operator preserves, the emission of several preserves. -/
theorem settle_all {S : List Waiting → Nat → Level → Prop} {depth : Nat} (rest : List Waiting) :
    ∀ {ends : List Waiting} {h h' : Heights}, Inside 15 ends →
      (∀ w ws (g g' : Heights), w ∈ ends → Settles g w.op g' →
        S (w :: ws) g.height g.level → S ws g'.height g'.level) →
      h.play (ends.map (Waiting.instruction depth)) = .ok h' →
      S (ends ++ rest) h.height h.level →
      S rest h'.height h'.level ∧ h'.level.base = h.level.base ∧ h'.outer = h.outer
  | [], h, h', _, _, hPlay, hS => by
    cases hPlay
    exact ⟨hS, rfl, rfl⟩
  | w :: ends, h, h', hInside, hEach, hPlay, hS => by
    rw [List.map_cons, Heights.play] at hPlay
    split at hPlay
    · simp at hPlay
    · rename_i mid hStep
      have hSettles := settles (hInside w (List.mem_cons_self ..)) hStep
      have hMid := hEach w (ends ++ rest) h mid (List.mem_cons_self ..) hSettles hS
      obtain ⟨hEnd, hBase, hOuter⟩ :=
        settle_all rest (fun v hv => hInside v (List.mem_cons_of_mem _ hv))
          (fun v vs g g' hv => hEach v vs g g' (List.mem_cons_of_mem _ hv)) hPlay hMid
      exact ⟨hEnd, hBase.trans hSettles.base_eq, hOuter.trans hSettles.outer_eq⟩

/-- Emission stays inside the brackets that are open. -/
theorem settle_levels {depth : Nat} {ends : List Waiting} (hEnds : Inside 15 ends)
    (hPlay : h.play (ends.map (Waiting.instruction depth)) = .ok h') :
    h'.level.base = h.level.base ∧ h'.outer = h.outer :=
  (settle_all (S := fun _ _ _ => True) [] hEnds (fun _ _ _ _ _ _ _ => trivial) hPlay trivial).2

/-! ## Stretches -/

/-- What is known of the stretches of what waits. A note is kept for each: that for the statement,
how the note for a bracket begins with that for the stretch around it, and what holds of a stretch
with its note, the present height and the level. -/
structure Account (Note : Type) where
  Root : Note → Prop
  Opens : Bracket → Note → Note → Prop
  Holds : Note → List Waiting → Nat → Level → Prop

variable {Note : Type} {A : Account Note} {x y : Note} {waiting : List Waiting} {top : Nat}
  {level : Level} {outer : List Level}

/-- What waits is made of stretches, one for each level and separated by openers, and what is known
holds of each. The stretch around a bracket was left at the height where the bracket begins. -/
inductive Nested (A : Account Note) : Note → List Waiting → Nat → Level → List Level → Prop
  | statement {x : Note} {ws : List Waiting} {top : Nat} {level : Level} (hInside : Inside 15 ws)
      (hRoot : A.Root x) (hBase : level.base = 0) (hHolds : A.Holds x ws top level) :
      Nested A x ws top level []
  | bracket {x y : Note} {ws waiting : List Waiting} {b : Bracket} {span : Span} {top : Nat}
      {level around : Level} {outer : List Level} (hInside : Inside 15 ws) (hOpens : A.Opens b y x)
      (hHolds : A.Holds x ws top level) (hAround : Nested A y waiting level.base around outer) :
      Nested A x (ws ++ ⟨.opener b, span⟩ :: waiting) top level (around :: outer)

/-- Operators in front of an opener are the same operators, however what waits is cut. -/
theorem Inside.eq_of_append_opener {ws ends rest rest' : List Waiting} {v w : Waiting}
    (hWs : Inside 15 ws) (hEnds : Inside 15 ends) (hv : v.op.isOpener = true)
    (hw : w.op.isOpener = true) (hEq : ws ++ v :: rest = ends ++ w :: rest') :
    ws = ends ∧ v = w ∧ rest = rest' := by
  -- along both lists at once: where one of them ends the other has to end too
  induction ws generalizing ends with
  | nil =>
    cases ends with
    | nil =>
      cases hEq
      exact ⟨rfl, rfl, rfl⟩
    | cons u ends =>
      have hu := isOpener_of_two_le (hEnds u (List.mem_cons_self ..)).1
      obtain ⟨rfl, -⟩ := List.cons.inj hEq
      simp [hu] at hv
  | cons u ws ih =>
    have hu := isOpener_of_two_le (hWs u (List.mem_cons_self ..)).1
    cases ends with
    | nil =>
      obtain ⟨rfl, -⟩ := List.cons.inj hEq
      simp [hu] at hw
    | cons u' ends =>
      obtain ⟨rfl, hTail⟩ := List.cons.inj hEq
      obtain ⟨rfl, hRest⟩ := ih (fun v hv => hWs v (List.mem_cons_of_mem _ hv))
        (fun v hv => hEnds v (List.mem_cons_of_mem _ hv)) hTail
      exact ⟨rfl, hRest⟩

/-- Operators on top of what waits are on top of the innermost stretch. -/
theorem Inside.exists_of_append_opener {ws ends rest waiting : List Waiting} {v : Waiting}
    (hEnds : Inside 15 ends) (hv : v.op.isOpener = true)
    (hEq : ws ++ v :: rest = ends ++ waiting) :
    ∃ left, ws = ends ++ left ∧ waiting = left ++ v :: rest := by
  rcases List.append_eq_append_iff.1 hEq with ⟨as, hEnds', hRest⟩ | ⟨left, hWs, hWaiting⟩
  · -- the operators reach as far as the stretch or farther
    cases as with
    | nil =>
      rw [List.append_nil] at hEnds'
      exact ⟨[], by rw [hEnds', List.append_nil], hRest.symm⟩
    | cons u as =>
      -- the opener would be among the operators
      obtain ⟨rfl, -⟩ := List.cons.inj hRest
      have hu := isOpener_of_two_le (hEnds v (hEnds' ▸ by simp)).1
      simp [hu] at hv
  · exact ⟨left, hWs, hWaiting⟩

/-- The innermost stretch can be exchanged for another one inside the same brackets. -/
theorem Nested.exists_innermost (hNested : Nested A x waiting top level outer)
    {ends rest : List Waiting} (hWaiting : waiting = ends ++ rest) (hEnds : Inside 15 ends) :
    ∃ ws around, rest = ws ++ around ∧ Inside 15 ws ∧ A.Holds x (ends ++ ws) top level ∧
      ∀ {x' ws' top' level'}, Inside 15 ws' → level'.base = level.base →
        (A.Root x → A.Root x') → (∀ b y, A.Opens b y x → A.Opens b y x') →
        A.Holds x' ws' top' level' → Nested A x' (ws' ++ around) top' level' outer := by
  cases hNested with
  | statement hInside hRoot hBase hHolds =>
    subst hWaiting
    refine ⟨rest, [], (List.append_nil _).symm,
      fun w hw => hInside w (List.mem_append_right _ hw), hHolds, ?_⟩
    intro x' ws' top' level' hInside' hBase' hRoot' _ hHolds'
    rw [List.append_nil]
    exact .statement hInside' (hRoot' hRoot) (hBase'.trans hBase) hHolds'
  | @bracket _ y ws around b span _ _ _ _ hInside hOpens hHolds hAround =>
    obtain ⟨left, rfl, rfl⟩ := hEnds.exists_of_append_opener rfl hWaiting
    refine ⟨left, ⟨.opener b, span⟩ :: around, rfl,
      fun w hw => hInside w (List.mem_append_right _ hw), hHolds, ?_⟩
    intro x' ws' top' level' hInside' hBase' _ hOpens' hHolds'
    -- the stretch around is tied to the level by its base alone
    rw [← hBase'] at hAround
    exact .bracket hInside' (hOpens' b y hOpens) hHolds' hAround

/-- The stretch around a bracket is there when the bracket closes. -/
theorem Nested.exists_around {ends : List Waiting} {opened : Bracket} {place : Span}
    (hNested : Nested A x (ends ++ ⟨.opener opened, place⟩ :: waiting) top level outer)
    (hEnds : Inside 15 ends) :
    ∃ y around outer', outer = around :: outer' ∧ A.Opens opened y x ∧
      A.Holds x ends top level ∧ Nested A y waiting level.base around outer' := by
  generalize hWaiting : ends ++ ⟨.opener opened, place⟩ :: waiting = all at hNested
  cases hNested with
  | statement hInside =>
    -- a statement has no opener among its operators
    have hOpener := isOpener_of_two_le (hInside ⟨.opener opened, place⟩ (hWaiting ▸ by simp)).1
    cases hOpener
  | @bracket _ y ws around b span _ _ _ _ hInside hOpens hHolds hAround =>
    obtain ⟨rfl, hOpener, rfl⟩ := hEnds.eq_of_append_opener hInside rfl rfl hWaiting
    cases hOpener
    exact ⟨y, _, _, rfl, hOpens, hHolds, hAround⟩

/-- What a bracket leaves that closes at the heights `mid`, in the level around it. -/
structure Closed (b : Bracket) (mid h' : Heights) (around : Level) (outer : List Level) : Prop where
  within : mid.outer = around :: outer
  height : h'.height = mid.level.base + if b.takesTarget then 0 else 1
  level : h'.level = around
  outer : h'.outer = outer
  /-- A target is somewhere below the level that ends. -/
  target : b.takesTarget → 0 < mid.level.base
  /-- There is an index between the brackets of one. -/
  index : b = .index → mid.level.base < mid.height

/-- **A bracket that closes** leaves one value, in place of its target or on top. -/
theorem closed_of_step {b : Bracket} {span : Span} {depth : Nat} {mid : Heights} {around : Level}
    (hStep : mid.step ⟨.operator (.closer b), span, depth⟩ = .ok h')
    (hOuter : mid.outer = around :: outer) : Closed b mid h' around outer := by
  have hStepped := Heights.stepped hStep
  cases hStepped with
  | closingValue hLevels hb =>
    rw [hOuter] at hLevels
    cases hLevels
    have hNone : b.takesTarget = false := by rcases hb with rfl | rfl <;> rfl
    have hIndex : b ≠ .index := by rcases hb with rfl | rfl <;> simp
    exact ⟨hOuter, by rw [hNone]; rfl, rfl, rfl, by simp [hNone], fun hEq => absurd hEq hIndex⟩
  | closingTarget hLevels hb hTarget hIndex =>
    rw [hOuter] at hLevels
    cases hLevels
    have hTakes : b.takesTarget = true := by rcases hb with rfl | rfl <;> rfl
    exact ⟨hOuter, by rw [hTakes]; rfl, rfl, rfl, fun _ => hTarget, hIndex⟩
  | prefixed hOp | binary hOp => cases hOp

/-- A bracket closes behind what waits inside it, which is emitted first. -/
theorem Nested.exists_closed {p : Pass} {b opened closed : Bracket} {place span : Span}
    {ends : List Waiting} (hNested : Nested A x p.waiting h.height h.level h.outer)
    (hWaiting : p.waiting = ends ++ ⟨.opener opened, place⟩ :: waiting) (hEnds : Inside 15 ends)
    (hMatch : matching? opened b = some closed) (hReach : Reaches p.emitted h)
    (hReach' : Reaches (⟨.operator (.closer closed), span, p.depth - 1⟩ ::
      flushed p.depth ends p.emitted) h') :
    ∃ y around outer mid, A.Opens closed y x ∧ A.Holds x ends h.height h.level ∧
      Nested A y waiting mid.level.base around outer ∧
      Reaches (flushed p.depth ends p.emitted) mid ∧ mid.level.base = h.level.base ∧
      Closed closed mid h' around outer := by
  rw [hWaiting] at hNested
  obtain ⟨y, around, outer, hOuter, hOpens, hHolds, hAround⟩ := hNested.exists_around hEnds
  obtain ⟨mid, hMid⟩ := hReach'.of_suffix (List.suffix_cons _ _)
  obtain ⟨hBase, hSame⟩ := settle_levels hEnds (hReach.play_flushed hMid)
  rw [hOuter] at hSame
  obtain rfl := eq_of_matching hMatch
  rw [← hBase] at hAround
  exact ⟨y, around, outer, mid, hOpens, hHolds, hAround, hMid, hBase,
    closed_of_step (hMid.step hReach') hSame⟩

/-- Outside all brackets there is one stretch. -/
theorem Nested.root (hNested : Nested A x waiting top level []) :
    A.Root x ∧ level.base = 0 ∧ A.Holds x waiting top level := by
  cases hNested with
  | statement _ hRoot hBase hHolds => exact ⟨hRoot, hBase, hHolds⟩

end Pass

open Program Pass

/-- **What every token preserves holds of a sequence that plays through.** What still waits at the
end is emitted then. -/
theorem invariant_of_ofTokens {I : Pass → Heights → List Token → Prop}
    {S : List Token → Token → Prop} (hStart : I {} {} [])
    (hStep : ∀ p h ts t q h', I p h ts → Reaches p.emitted h → Taken p (lastKind none ts) t q →
      Reaches q.emitted h' → S ts t → I q h' (ts ++ [t]))
    {ts : List Token} {code : List Instruction} {hEnd : Heights}
    (hTokens : ofTokens ts = .ok code) (hPlay : Heights.play {} code = .ok hEnd)
    (hStands : ∀ pre t post, ts = pre ++ t :: post → S pre t) :
    ∃ q h, I q h ts ∧ Reaches q.emitted h ∧ Inside 15 q.waiting ∧
      code = (flushed q.depth q.waiting q.emitted).reverse ∧
      Reaches (flushed q.depth q.waiting q.emitted) hEnd := by
  have hNone : Layered [] := by
    intro w hw
    cases hw
  unfold ofTokens at hTokens
  split at hTokens
  · simp at hTokens
  · rename_i q hTake
    obtain ⟨-, hLayered⟩ := later_of_takeAll hNone hTake
    obtain ⟨hInside, hCode⟩ := exists_of_finishing hLayered hTokens
    have hLast : Reaches (flushed q.depth q.waiting q.emitted) hEnd := by
      unfold Reaches
      rw [← hCode]
      exact hPlay
    -- the heights before the last operators are emitted
    obtain ⟨h, hReach⟩ := hLast.of_suffix (suffix_flushed _ _ _)
    have hI := invariant_of_takeAll hStep hStart hNone reaches_start hTake hReach hStands
    exact ⟨q, h, hI, hReach, hInside, hCode, hLast⟩

end Postfix

end Reckon
