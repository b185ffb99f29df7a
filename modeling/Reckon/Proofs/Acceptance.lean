import Reckon.Proofs.Expression
import Reckon.Proofs.Heights

/-!
# Expressions pass the check

The postfix order of an expression that fits its places is a program. The code of a part leaves one
value more than there was, inside the same brackets (`Heights.Gains`). The code of a list leaves one
value as well, and has counted the others (`Heights.Takes`), so its brackets can be closed.
-/

namespace Reckon

namespace Program

namespace Heights

/-- One more value at the same level. -/
structure Gains (h h' : Heights) : Prop where
  height : h'.height = h.height + 1
  level : h'.level = h.level
  outer : h'.outer = h.outer

/-- One more value between the same brackets, where commas may have been counted. -/
structure Takes (h h' : Heights) : Prop where
  height : h'.height = h.height + 1
  base : h'.level.base = h.level.base
  outer : h'.outer = h.outer

/-- What gains a value at the same level takes it in between the same brackets. -/
theorem Gains.takes {h h' : Heights} (hGains : h.Gains h') : h.Takes h' :=
  ⟨hGains.height, congrArg Level.base hGains.level, hGains.outer⟩

theorem gains_push (h : Heights) : h.Gains h.push := ⟨rfl, rfl, rfl⟩

variable {h mid h' : Heights} {pre post : List Instruction}

theorem play_append_of_ok (hPre : h.play pre = .ok mid) (hPost : mid.play post = .ok h') :
    h.play (pre ++ post) = .ok h' := play_append_eq_ok_iff.2 ⟨mid, hPre, hPost⟩

/-- A prefix operator asks for one value. -/
theorem step_of_isPrefix {op : Operator} (hOp : op.isPrefix) (span : Span) (depth : Nat) :
    h.step ⟨.operator op, span, depth⟩ = h.prefixed span := by
  cases op with
  | plus | minus | spread | not | bitNot => rfl
  | _ => simp [Operator.isPrefix, Operator.priority] at hOp

/-- An operator for two asks for two values. -/
theorem step_of_isBinary {op : Operator} (hOp : op.isBinary) (span : Span) (depth : Nat) :
    h.step ⟨.operator op, span, depth⟩ = h.binary span := by
  cases op with
  | opener | closer | plus | minus | spread | not | bitNot | comma | semicolon =>
    simp [Operator.isBinary, Operator.priority] at hOp
  | _ => rfl

/-- Behind a list that began at the height of its brackets the brackets can be closed. -/
theorem Takes.valuesInside (hTakes : h.Takes h') (hBase : h.level.base = h.height) (span : Span) :
    h'.valuesInside span = .ok (h'.level.moved + 1) := by
  have hHeight := hTakes.height
  have hSame := hTakes.base
  have hOne : ¬ h'.level.base + 1 < h'.height := by omega
  have hSome : ¬ h'.height ≤ h'.level.base := by omega
  simp only [Heights.valuesInside, if_neg hOne, if_neg hSome]

/-- What stands between brackets can be played from their opener to where they can be closed. -/
structure Encloses (h mid : Heights) (inside : Nat) : Prop where
  base : mid.level.base = h.height
  outer : mid.outer = h.level :: h.outer
  inside : ∀ span, mid.valuesInside span = .ok inside

/-- A list can be enclosed in the brackets that it began in. -/
theorem Takes.encloses (hTakes : h.opening.Takes mid) : h.Encloses mid (mid.level.moved + 1) :=
  ⟨hTakes.base, hTakes.outer, hTakes.valuesInside rfl⟩

/-- What plays through between the brackets plays through with them. -/
theorem play_encloseCode {b : Bracket} {code : List Instruction} {opening closing : Span}
    (hPlay : h.opening.play code = .ok mid)
    (hClosing : mid.closing b closing = .ok h') (depth : Nat) :
    h.play (encloseCode b opening closing depth code) = .ok h' := by
  have hClose : mid.play [⟨.operator (.closer b), closing, depth⟩] = .ok h' :=
    play_singleton hClosing
  -- the opener only sets the level up
  show h.opening.play (code ++ [_]) = .ok h'
  exact play_append_of_ok hPlay hClose

/-- A group or an array is one more value. -/
theorem Encloses.gains {b : Bracket} {code : List Instruction} {inside : Nat}
    (hEncloses : h.Encloses mid inside) (hPlay : h.opening.play code = .ok mid)
    (hb : b = .group ∨ b = .array) (opening closing : Span) (depth : Nat) :
    ∃ h', h.play (encloseCode b opening closing depth code) = .ok h' ∧ h.Gains h' := by
  have hClosing : mid.closing b closing = .ok (mid.below h.level h.outer).push := by
    unfold Heights.closing
    simp only [hEncloses.outer, hEncloses.inside]
    rcases hb with rfl | rfl <;> rfl
  refine ⟨_, play_encloseCode hPlay hClosing depth, ?_, rfl, rfl⟩
  -- the level began at the height of the opener, and one value is pushed there
  rw [← hEncloses.base]
  rfl

/-- A call or an index takes the place of the value in front of it. -/
theorem Encloses.replaces {start : Heights} {b : Bracket} {code : List Instruction} {inside : Nat}
    (hEncloses : h.Encloses mid inside) (hPlay : h.opening.play code = .ok mid)
    (hTarget : start.Gains h) (hb : b = .call ∨ b = .index ∧ inside ≠ 0) (opening closing : Span)
    (depth : Nat) :
    ∃ h', h.play (encloseCode b opening closing depth code) = .ok h' ∧ start.Gains h' := by
  have hHeight := hTarget.height
  have hBase := hEncloses.base
  -- the target lies below the level, so the level does not begin at the bottom
  have hSome : mid.level.base ≠ 0 := by omega
  have hClosing : mid.closing b closing = .ok (mid.below h.level h.outer) := by
    unfold Heights.closing
    simp only [hEncloses.outer, hEncloses.inside]
    rcases hb with rfl | ⟨rfl, hInside⟩
    · exact if_neg hSome
    · rw [if_neg hInside]
      exact if_neg hSome
  refine ⟨_, play_encloseCode hPlay hClosing depth, ?_, hTarget.level, hTarget.outer⟩
  rw [← hHeight, ← hBase]
  rfl

end Heights

end Program

open Program Heights

mutual

/-- **The code of an expression plays through** and leaves one more value. -/
theorem Expr.Fits.gains : ∀ {e : Expr}, e.Fits → e.level ≤ 14 → ∀ (depth : Nat) {h : Heights},
    h.level.base ≤ h.height → ∃ h', h.play (e.code depth) = .ok h' ∧ h.Gains h'
  | .number numeral span, _, _, depth, h, _ => ⟨h.push, rfl, gains_push h⟩
  | .name span, _, _, depth, h, _ => ⟨h.push, rfl, gains_push h⟩
  | .prefixed op span e, ⟨hLevel, he⟩, _, depth, h, hBase => by
    have hTwo := op.rightBound_eq
    obtain ⟨mid, hPlay, hGains⟩ := he.gains (by omega) depth hBase
    have hHeight := hGains.height
    -- its operand is there when the operator comes
    refine ⟨mid, play_append_of_ok hPlay (play_singleton ?_), hGains⟩
    rw [step_of_isPrefix op.2, prefixed, if_neg]
    rw [hGains.level]
    omega
  | .binary op span l r, ⟨⟨hLeft, hl⟩, hRight, hr⟩, _, depth, h, hBase => by
    have hBounds := op.bounds
    have hPriority := op.priority_bounds
    obtain ⟨mid, hPlay, hGains⟩ := hl.gains (by omega) depth hBase
    have hHeight := hGains.height
    have hBelow : mid.level.base ≤ mid.height := by
      rw [hGains.level]
      omega
    obtain ⟨last, hPlay', hGains'⟩ := hr.gains (by omega) depth hBelow
    have hHeight' := hGains'.height
    -- two values are there, and the operator leaves one
    refine ⟨{ last with height := last.height - 1 },
      play_append_of_ok (play_append_of_ok hPlay hPlay') (play_singleton ?_), ?_⟩
    · rw [step_of_isBinary op.2, binary, if_neg]
      rw [hGains'.level, hGains.level]
      omega
    · refine ⟨?_, hGains'.level.trans hGains.level, hGains'.outer.trans hGains.outer⟩
      simp only
      omega
  | .comma _ _ _, _, hLevel, _, _, _ => by simp [Expr.level, Operator.priority] at hLevel
  | .group o c contents, hFits, _, depth, h, _ => by
    have hContents : contents.Fits := hFits
    -- inside the brackets a level of its own begins
    obtain ⟨mid, inside, hPlay, hEncloses⟩ := hContents.encloses (depth + 1) h
    exact hEncloses.gains hPlay (.inl rfl) o c depth
  | .array o c contents, hFits, _, depth, h, _ => by
    have hContents : contents.Fits := hFits
    obtain ⟨mid, inside, hPlay, hEncloses⟩ := hContents.encloses (depth + 1) h
    exact hEncloses.gains hPlay (.inr rfl) o c depth
  | .call f o c contents, ⟨⟨hCallee, hf⟩, hContents⟩, _, depth, h, hBase => by
    have hLevel := Expr.level_of_isCallee hCallee
    obtain ⟨target, hTarget, hGains⟩ := hf.gains (by omega) depth hBase
    obtain ⟨mid, inside, hPlay, hEncloses⟩ := hContents.encloses (depth + 1) target
    obtain ⟨h', hCall, hGains'⟩ := hEncloses.replaces hPlay hGains (.inl rfl) o c depth
    exact ⟨h', play_append_of_ok hTarget hCall, hGains'⟩
  | .index e o c i, ⟨⟨hLevel, he⟩, hi⟩, _, depth, h, hBase => by
    obtain ⟨target, hTarget, hGains⟩ := he.gains (by omega) depth hBase
    obtain ⟨mid, hPlay, hTakes⟩ := hi.takes (depth + 1) (rfl : target.opening.level.base = _)
    obtain ⟨h', hIndex, hGains'⟩ :=
      (hTakes.encloses).replaces hPlay hGains (.inr ⟨rfl, by simp⟩) o c depth
    exact ⟨h', play_append_of_ok hTarget hIndex, hGains'⟩
termination_by e => (sizeOf e, 0)

/-- The code of a list plays through from the height where its brackets began. -/
theorem Expr.Fits.takes : ∀ {e : Expr}, e.Fits → ∀ (depth : Nat) {h : Heights},
    h.level.base = h.height → ∃ h', h.play (e.code depth) = .ok h' ∧ h.Takes h'
  | e, hFits, depth, h, hBase => by
    -- one item only, or a comma between the last item and the list in front of it
    rcases e.level_bounds.2 with hLevel | ⟨-, span, l, r, rfl⟩
    · obtain ⟨h', hPlay, hGains⟩ := hFits.gains hLevel depth (Nat.le_of_eq hBase)
      exact ⟨h', hPlay, hGains.takes⟩
    · obtain ⟨⟨-, hl⟩, hLast, hr⟩ := hFits
      obtain ⟨mid, hPlay, hTakes⟩ := hl.takes depth hBase
      have hHeight := hTakes.height
      have hSame := hTakes.base
      have hBelow : mid.level.base ≤ mid.height := by omega
      obtain ⟨last, hPlay', hGains⟩ := hr.gains hLast depth hBelow
      have hHeight' := hGains.height
      have hLevel : last.level.base = mid.level.base := congrArg Level.base hGains.level
      -- the comma counts one of the two values that are there
      have hValue : ¬ last.height ≤ last.level.base := by omega
      have hComma : last.step ⟨.operator .comma, span, depth⟩ = .ok _ := if_neg hValue
      refine ⟨_, play_append_of_ok (play_append_of_ok hPlay hPlay') (play_singleton hComma),
        ?_, hLevel.trans hSame, hGains.outer.trans hTakes.outer⟩
      simp only
      omega
termination_by e => (sizeOf e, 1)

/-- What stands between brackets can be enclosed in them. -/
theorem Contents.Fits.encloses : ∀ {contents : Contents}, contents.Fits →
    ∀ (depth : Nat) (h : Heights), ∃ mid inside,
      h.opening.play (contents.code depth) = .ok mid ∧ h.Encloses mid inside
  | .empty, _, depth, h => by
    -- no comma has been counted, so there need be no value
    refine ⟨h.opening, 0, rfl, rfl, rfl, fun span => ?_⟩
    simp [valuesInside, Heights.opening]
  | .list e, hFits, depth, h => by
    have he : e.Fits := hFits
    obtain ⟨mid, hPlay, hTakes⟩ := he.takes depth (rfl : h.opening.level.base = _)
    exact ⟨mid, _, hPlay, hTakes.encloses⟩
termination_by contents => (sizeOf contents, 0)

end

/-- An expression that fits its places is a program. -/
theorem Expr.Fits.exists_ofPostfix {e : Expr} (h : e.Fits) :
    ∃ p, ofPostfix (e.code 0) = .ok p ∧ p.code = e.code 0 := by
  -- the whole statement is a list at the bottom of the stack
  obtain ⟨last, hPlay, hTakes⟩ := h.takes 0 (h := {}) rfl
  have hHeight : last.height = 1 := hTakes.height
  have hOuter : last.outer = [] := hTakes.outer
  refine ⟨⟨last.maxHeight, last.maxMoved, last.maxOpen, e.code 0⟩, ?_, rfl⟩
  unfold ofPostfix
  rw [hPlay]
  exact if_pos ⟨hHeight, hOuter⟩

end Reckon
