import Reckon.Program
import Mathlib.Tactic

/-!
# The heights of a sequence

`Heights.Stepped` lists what playing an instruction can do to the heights. It follows that playing a
sequence keeps two things in order, whatever the sequence: the values moved aside are those that the
open levels have counted, and every level begins at a height that the levels around it do not exceed
(`Heights.Sound`). The three maxima are running maxima: each is the greatest height that its stack
has had at the end of a step, so each is reached somewhere (`Heights.Peak`).
-/

namespace Reckon

namespace Program

namespace Heights

/-! ## Steps -/

/-- The heights behind the present level: the values of the level are gone, and the level around it
is the present one. -/
def below (h : Heights) (level : Level) (outer : List Level) : Heights :=
  { h with height := h.level.base, moved := h.moved - h.level.moved, level, outer }

/-- The heights that an instruction can lead to, and what it needs. -/
inductive Stepped (h : Heights) : InstructionKind → Heights → Prop
  | number (numeral : Numeral) : Stepped h (.number numeral) h.push
  | name : Stepped h .name h.push
  | opening (b : Bracket) : Stepped h (.operator (.opener b)) h.opening
  | closingValue {b : Bracket} {level : Level} {outer : List Level}
      (hOuter : h.outer = level :: outer) (hb : b = .group ∨ b = .array) :
      Stepped h (.operator (.closer b)) (h.below level outer).push
  | closingTarget {b : Bracket} {level : Level} {outer : List Level}
      (hOuter : h.outer = level :: outer) (hb : b = .index ∨ b = .call)
      (hTarget : 0 < h.level.base) (hIndex : b = .index → h.level.base < h.height) :
      Stepped h (.operator (.closer b)) (h.below level outer)
  | comma (hValue : h.level.base < h.height) :
      Stepped h (.operator .comma)
        { h with
          height := h.height - 1
          moved := h.moved + 1
          level := { h.level with moved := h.level.moved + 1 }
          maxMoved := max h.maxMoved (h.moved + 1) }
  | semicolon : Stepped h (.operator .semicolon) h
  | prefixed {op : Operator} (hOp : op.isPrefix) (hValue : h.level.base < h.height) :
      Stepped h (.operator op) h
  | binary {op : Operator} (hOp : op.isBinary) (hValues : h.level.base + 2 ≤ h.height) :
      Stepped h (.operator op) { h with height := h.height - 1 }

/-- Closing a bracket that is accepted gives the level around it back, with one value for a group or
an array. An index or a call closes only above another value, and an index around a value. -/
theorem stepped_closing {h h' : Heights} {b : Bracket} {span : Span}
    (hEq : h.closing b span = .ok h') : Stepped h (.operator (.closer b)) h' := by
  unfold Heights.closing at hEq
  split at hEq
  · simp at hEq
  · rename_i level outer hOuter
    split at hEq
    · simp at hEq
    · rename_i inside hInside
      cases b with
      | group =>
        cases hEq
        exact .closingValue hOuter (.inl rfl)
      | array =>
        cases hEq
        exact .closingValue hOuter (.inr rfl)
      | index =>
        dsimp only at hEq
        split at hEq
        · simp at hEq
        · rename_i hSome
          split at hEq
          · simp at hEq
          · rename_i hBase
            cases hEq
            refine .closingTarget hOuter (.inl rfl) (Nat.pos_of_ne_zero hBase) fun _ => ?_
            -- with nothing on the stack there would be no value between the brackets
            by_contra hNot
            have hLow : h.height ≤ h.level.base := by omega
            have hOne : ¬ h.level.base + 1 < h.height := by omega
            simp only [valuesInside, if_neg hOne, if_pos hLow] at hInside
            split at hInside
            · simp at hInside
            · cases hInside
              exact hSome rfl
      | call =>
        dsimp only at hEq
        split at hEq
        · simp at hEq
        · rename_i hBase
          cases hEq
          exact .closingTarget hOuter (.inr rfl) (Nat.pos_of_ne_zero hBase) (by simp)

/-- Playing an instruction does one of the things listed. -/
theorem stepped {h h' : Heights} {i : Instruction} (hEq : h.step i = .ok h') :
    Stepped h i.kind h' := by
  unfold Heights.step at hEq
  split at hEq
  · rename_i hKind
    cases hEq
    rw [hKind]
    exact .number _
  · rename_i hKind
    cases hEq
    rw [hKind]
    exact .name
  · rename_i hKind
    cases hEq
    rw [hKind]
    exact .opening _
  · rename_i hKind
    rw [hKind]
    exact stepped_closing hEq
  · rename_i hKind
    unfold Heights.comma at hEq
    split at hEq
    · simp at hEq
    · cases hEq
      rw [hKind]
      exact .comma (by omega)
  · rename_i hKind
    cases hEq
    rw [hKind]
    exact .semicolon
  · rename_i op hOpener hCloser hComma hSemicolon hKind
    rw [hKind]
    split at hEq
    · rename_i hPrefix
      unfold Heights.prefixed at hEq
      split at hEq
      · simp at hEq
      · cases hEq
        exact .prefixed hPrefix (by omega)
    · rename_i hPrefix
      unfold Heights.binary at hEq
      split at hEq
      · simp at hEq
      · cases hEq
        refine .binary ?_ (by omega)
        -- every other operator has been met above
        cases op <;> simp_all [Operator.isBinary, Operator.isPrefix, Operator.priority]

/-! ## Plays -/

theorem play_singleton {h h' : Heights} {i : Instruction} (hEq : h.step i = .ok h') :
    h.play [i] = .ok h' := by
  simp only [Heights.play, hEq]

/-- A sequence is played by playing what it begins with and going on from there. -/
theorem play_append (h : Heights) (pre post : List Instruction) :
    h.play (pre ++ post) =
      match h.play pre with
      | .error e => .error e
      | .ok h' => h'.play post := by
  induction pre generalizing h with
  | nil => rfl
  | cons i pre ih =>
    simp only [List.cons_append, play]
    split
    · rfl
    · exact ih _

/-- A sequence that can be played through can be played up to any place in it. -/
theorem play_append_eq_ok_iff {h h' : Heights} {pre post : List Instruction} :
    h.play (pre ++ post) = .ok h' ↔ ∃ mid, h.play pre = .ok mid ∧ mid.play post = .ok h' := by
  rw [play_append]
  cases h.play pre <;> simp

/-! ## Levels -/

/-- The values moved aside are those counted by the levels, and no level begins below the one around
it or above the present height. -/
structure Sound (h : Heights) : Prop where
  moved : h.moved = h.level.moved + (h.outer.map (·.moved)).sum
  ordered : (h.height :: h.level.base :: h.outer.map (·.base)).IsChain (· ≥ ·)

theorem sound_start : Sound {} := ⟨rfl, by simp⟩

/-- The present level does not begin above the present height. -/
theorem Sound.base_le {h : Heights} (hs : h.Sound) : h.level.base ≤ h.height := by
  have hOrdered := hs.ordered
  rw [List.isChain_cons_cons] at hOrdered
  -- the chain begins with the height and the present level, so this is its first link
  exact hOrdered.1

/-- A height that stays above the present level may be any. -/
theorem Sound.of_height {h h' : Heights} (hs : h.Sound) (hMoved : h'.moved = h.moved)
    (hLevel : h'.level = h.level) (hOuter : h'.outer = h.outer)
    (hLe : h.level.base ≤ h'.height) : h'.Sound := by
  have hOrdered := hs.ordered
  rw [List.isChain_cons_cons] at hOrdered
  refine ⟨by rw [hMoved, hLevel, hOuter]; exact hs.moved, ?_⟩
  rw [hLevel, hOuter, List.isChain_cons_cons]
  exact ⟨hLe, hOrdered.2⟩

/-- A value more keeps the heights in order. -/
theorem Sound.push {h : Heights} (hs : h.Sound) : h.push.Sound := by
  have hBase := hs.base_le
  exact hs.of_height rfl rfl rfl (by simp only [Heights.push]; omega)

/-- The level around takes over what it had counted, so the heights behind it are in order. -/
theorem Sound.below {h : Heights} {level : Level} {outer : List Level} (hs : h.Sound)
    (hOuter : h.outer = level :: outer) : (h.below level outer).Sound := by
  have hOrdered := hs.ordered
  have hMoved := hs.moved
  rw [hOuter, List.map_cons, List.isChain_cons_cons] at hOrdered
  rw [hOuter, List.map_cons, List.sum_cons] at hMoved
  -- what the closed level had counted has been taken off the total, and its link off the chain
  exact ⟨by simp only [Heights.below]; omega, hOrdered.2⟩

/-- **Every step keeps the heights in order.** -/
theorem Sound.step {h h' : Heights} {i : Instruction} (hs : h.Sound) (hEq : h.step i = .ok h') :
    h'.Sound := by
  have hStepped := stepped hEq
  -- the cases are those of `Stepped`, which mention the kind of the instruction only
  generalize i.kind = kind at hStepped
  cases hStepped with
  | number | name => exact hs.push
  | opening =>
    -- the new level has counted nothing and begins at the present height
    refine ⟨?_, ?_⟩
    · simp only [Heights.opening, List.map_cons, List.sum_cons, Nat.zero_add]
      exact hs.moved
    · simp only [Heights.opening, List.map_cons]
      rw [List.isChain_cons_cons]
      exact ⟨Nat.le_refl _, hs.ordered⟩
  | closingValue hOuter => exact (hs.below hOuter).push
  | closingTarget hOuter => exact hs.below hOuter
  | comma hValue =>
    -- the level counts the value that leaves it
    have hOrdered := hs.ordered
    have hMoved := hs.moved
    rw [List.isChain_cons_cons] at hOrdered
    refine ⟨by simp only; omega, ?_⟩
    rw [List.isChain_cons_cons]
    exact ⟨by simp only; omega, hOrdered.2⟩
  | semicolon | prefixed => exact hs
  | binary _ hValues => exact hs.of_height rfl rfl rfl (by simp only; omega)

/-- Playing any sequence keeps the heights in order. -/
theorem Sound.play {h h' : Heights} {code : List Instruction} (hs : h.Sound)
    (hEq : h.play code = .ok h') : h'.Sound := by
  -- induction on the sequence, with the heights left open
  induction code generalizing h with
  | nil =>
    cases hEq
    exact hs
  | cons i code ih =>
    simp only [Heights.play] at hEq
    split at hEq
    · simp at hEq
    · rename_i mid hStep
      exact ih (hs.step hStep) hEq

/-! ## Maxima -/

/-- A running maximum: after every step `top` is the greater of what it was and of `now`. -/
def Peak (now top : Heights → Nat) : Prop :=
  ∀ h i h', h.Sound → now h ≤ top h → h.step i = .ok h' → top h' = max (top h) (now h')

/-- What a running maximum bounds at the start it bounds at the end, and it has not come down. -/
theorem Peak.le_of_play {now top : Heights → Nat} (hPeak : Peak now top) {h h' : Heights}
    {code : List Instruction} (hs : h.Sound) (hLe : now h ≤ top h) (hEq : h.play code = .ok h') :
    now h' ≤ top h' ∧ top h ≤ top h' := by
  induction code generalizing h with
  | nil =>
    cases hEq
    exact ⟨hLe, Nat.le_refl _⟩
  | cons i code ih =>
    simp only [Heights.play] at hEq
    split at hEq
    · simp at hEq
    · rename_i mid hStep
      have hTop := hPeak h i mid hs hLe hStep
      obtain ⟨hNow, hGrows⟩ := ih (hs.step hStep) (by omega) hEq
      exact ⟨hNow, by omega⟩

/-- A running maximum is the present height at the end of some part of the sequence, unless nothing
is higher than it was at the start. -/
theorem Peak.attained {now top : Heights → Nat} (hPeak : Peak now top) {h h' : Heights}
    {code : List Instruction} (hs : h.Sound) (hLe : now h ≤ top h) (hEq : h.play code = .ok h') :
    top h' = top h ∨
      ∃ pre post mid, code = pre ++ post ∧ h.play pre = .ok mid ∧ now mid = top h' := by
  -- induction on the sequence: the maximum is either that behind the first step, or found further
  -- on
  induction code generalizing h with
  | nil =>
    cases hEq
    exact .inl rfl
  | cons i code ih =>
    simp only [Heights.play] at hEq
    split at hEq
    · simp at hEq
    · rename_i mid hStep
      have hTop := hPeak h i mid hs hLe hStep
      rcases ih (hs.step hStep) (by omega) hEq with hSame | ⟨pre, post, last, rfl, hPre, hLast⟩
      · -- nothing is higher than behind the first instruction
        rcases Nat.le_total (now mid) (top h) with hLow | hHigh
        · exact .inl (by omega)
        · exact .inr ⟨[i], code, mid, rfl, play_singleton hStep, by omega⟩
      · refine .inr ⟨i :: pre, post, last, rfl, ?_, hLast⟩
        simp only [Heights.play, hStep]
        exact hPre

/-- A bracket that closes leaves no more than one value above its own level, where it was opened. -/
theorem peak_height : Peak (·.height) (·.maxHeight) := by
  intro h i h' hs hLe hEq
  have hBase := hs.base_le
  dsimp only at hLe ⊢
  have hStepped := stepped hEq
  generalize i.kind = kind at hStepped
  cases hStepped with
  | number | name => rfl
  | closingValue => rfl
  | closingTarget => simp only [below]; omega
  | opening => simp only [opening]; omega
  | comma | binary => simp only; omega
  | semicolon | prefixed => omega

/-- Only a comma moves a value aside, and it updates the greatest number itself. -/
theorem peak_moved : Peak (·.moved) (·.maxMoved) := by
  intro h i h' hs hLe hEq
  dsimp only at hLe ⊢
  have hStepped := stepped hEq
  generalize i.kind = kind at hStepped
  cases hStepped with
  | number | name => simp only [push]; omega
  | closingValue | closingTarget => simp only [push, below]; omega
  | opening => simp only [opening]; omega
  | comma => rfl
  | binary => simp only; omega
  | semicolon | prefixed => omega

/-- Only an opener adds a level, and it updates the greatest number itself. -/
theorem peak_open : Peak (·.outer.length) (·.maxOpen) := by
  intro h i h' hs hLe hEq
  dsimp only at hLe ⊢
  have hStepped := stepped hEq
  generalize i.kind = kind at hStepped
  cases hStepped with
  | number | name => simp only [push]; omega
  | closingValue hOuter | closingTarget hOuter =>
    rw [hOuter, List.length_cons] at hLe
    -- the level that is closed was one of those around it, so one fewer stays open
    simp only [push, below]
    omega
  | opening => rfl
  | comma | binary => simp only; omega
  | semicolon | prefixed => omega

/-- Heights that a play from the start can find: they are in order, and no stack is above its
greatest height. -/
structure Peaked (h : Heights) : Prop where
  sound : h.Sound
  height_le : h.height ≤ h.maxHeight
  moved_le : h.moved ≤ h.maxMoved
  outer_le : h.outer.length ≤ h.maxOpen

theorem peaked_start : Peaked {} := ⟨sound_start, Nat.le_refl _, Nat.le_refl _, Nat.le_refl _⟩

/-- Each of the three maxima bounds its stack through any play. -/
theorem Peaked.play {h h' : Heights} {code : List Instruction} (hp : h.Peaked)
    (hEq : h.play code = .ok h') : h'.Peaked where
  sound := hp.sound.play hEq
  height_le := (peak_height.le_of_play hp.sound hp.height_le hEq).1
  moved_le := (peak_moved.le_of_play hp.sound hp.moved_le hEq).1
  outer_le := (peak_open.le_of_play hp.sound hp.outer_le hEq).1

theorem Peaked.step {h h' : Heights} {i : Instruction} (hp : h.Peaked) (hEq : h.step i = .ok h') :
    h'.Peaked := hp.play (play_singleton hEq)

end Heights

/-- A program is a sequence that plays through to one value outside all brackets, with the maxima
found on the way. -/
theorem exists_play_of_ofPostfix {code : List Instruction} {p : Program}
    (hp : ofPostfix code = .ok p) :
    ∃ h, Heights.play {} code = .ok h ∧ h.height = 1 ∧ h.outer = [] ∧
      p = ⟨h.maxHeight, h.maxMoved, h.maxOpen, code⟩ := by
  unfold ofPostfix at hp
  split at hp
  · simp at hp
  · rename_i h hPlay
    split at hp
    · rename_i hEnd
      cases hp
      exact ⟨h, hPlay, hEnd.1, hEnd.2, rfl⟩
    · simp at hp

end Program

end Reckon
