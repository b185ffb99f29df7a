import Reckon.Proofs.Denotation
import Reckon.Proofs.Joining
import Reckon.Proofs.Passes
import Reckon.Proofs.Pointing

/-!
# Literals in programs

A number in a program is nothing but a notation and a span. Its value is found out when the program
runs, from the text that the span selects by then. This cannot fail:

* The reader gives the kind of a number to words of the notation only
  (`Reader.maintains_worded`).
* The numbers among the instructions are the numbers among the tokens
  (`Postfix.copies_of_ofTokens`).
* What waits to be compiled or run keeps selecting the words that were read, whatever is done with
  the session (`Session.Orderly.worded_after`).

So every instruction that is a number puts the number on the stack that the literal denotes, and a
run that fails has failed at another instruction.

Main result: `Session.literals_denote`.
-/

namespace Reckon

open Numeral (Word)

variable {script : String} {numeral : Numeral}

/-! ## Numbers that are words -/

/-- If the token is a number, it selects a word of its notation. -/
def Token.Worded (script : String) (t : Token) : Prop :=
  ∀ numeral, t.kind = .number (some numeral) → Word numeral (t.span.text script).toList

/-- If the instruction is a number, it selects a word of its notation. -/
def Instruction.Worded (script : String) (i : Instruction) : Prop :=
  ∀ numeral, i.kind = .number numeral → Word numeral (i.span.text script).toList

/-- A lexeme that is a number is a word. -/
theorem word_of_classify {c : Char} {cs : List Char}
    (h : (classify c cs).1 = .number (some numeral)) :
    Word numeral (c :: cs.take (classify c cs).2) := by
  unfold classify at h ⊢
  generalize (if c.toNat < 128 then Stray.unknown else .unicode) = stray at h ⊢
  split_ifs at h ⊢ with hBlank hTab hBreak hStart hName
  · -- the scanner has taken the first character
    obtain ⟨t, hScan⟩ := Numeral.exists_scan_cons hStart
    have hWord := (Numeral.scan_eq_some_iff (c :: cs) numeral).1 (TokenKind.number.inj h)
    rw [hScan] at hWord ⊢
    exact hWord
  · -- any other lexeme is of a kind of its own, and an operator may be found for it or not
    split at h
    · cases h
    · cases h

/-- What the reader finds is worded. -/
theorem Reader.maintains_worded (script : String) :
    Maintains (·.Stands script) (·.Worded script) (fun _ => True) where
  next hr hUnread := (hr.take hUnread).1
  token {r c cs t} hr hUnread hTake := by
    intro numeral hKind
    rw [eq_of_take hTake] at hKind ⊢
    rw [(hr.covers hUnread).text, String.toList_ofList]
    exact word_of_classify hKind
  failure _ _ _ := trivial
  meaning _ _ hKind := by cases hKind
  count _ _ := trivial

/-! ## From tokens to instructions -/

namespace Postfix

namespace Pass

/-- The numbers that have been emitted are numbers among the tokens. -/
def Copies (ts : List Token) (emitted : List Instruction) : Prop :=
  ∀ i ∈ emitted, ∀ numeral, i.kind = .number numeral → ⟨.number (some numeral), i.span⟩ ∈ ts

variable {ts : List Token} {emitted : List Instruction}

/-- An instruction that is no number is no copy. -/
theorem Copies.cons {i : Instruction} (h : Copies ts emitted)
    (hOther : ∀ numeral, i.kind ≠ .number numeral) : Copies ts (i :: emitted) :=
  List.forall_mem_cons.2 ⟨fun numeral hKind => absurd hKind (hOther numeral), h⟩

/-- Operators that leave the stack are no numbers. -/
theorem Copies.flushed (h : Copies ts emitted) (depth : Nat) (ends : List Waiting) :
    Copies ts (flushed depth ends emitted) := by
  induction ends generalizing emitted with
  | nil => exact h
  | cons w ends ih =>
    rw [flushed_cons]
    exact ih (h.cons fun numeral hKind => by cases hKind)

/-- A token that is taken is copied, or what is emitted for it is no number. -/
theorem Taken.copies {p q : Pass} {previous : Option TokenKind} {t : Token}
    (h : Taken p previous t q) (ht : t ∈ ts) (hCopies : Copies ts p.emitted) :
    Copies ts q.emitted := by
  cases h with
  | number numeral span =>
    refine List.forall_mem_cons.2 ⟨fun numeral' hKind => ?_, hCopies⟩
    cases hKind
    exact ht
  -- an opener is emitted for a bracket, and the instruction of a name is the name
  | name | opening => exact hCopies.cons fun numeral hKind => by cases hKind
  | closing => exact (hCopies.flushed _ _).cons fun numeral hKind => by cases hKind
  | semicolon => exact hCopies
  | operator => exact hCopies.flushed _ _

/-- So it is for all the tokens, one after the other, while the stack stays in its layers. -/
theorem copies_of_takeAll {us : List Token} {previous : Option TokenKind} {p q : Pass}
    (hUs : ∀ t ∈ us, t ∈ ts) (hLayered : Layered p.waiting) (hCopies : Copies ts p.emitted)
    (hTake : p.takeAll previous us = .ok q) : Copies ts q.emitted ∧ Layered q.waiting := by
  induction us generalizing p previous with
  | nil =>
    cases hTake
    exact ⟨hCopies, hLayered⟩
  | cons t us ih =>
    obtain ⟨ht, hRest⟩ := List.forall_mem_cons.1 hUs
    rw [takeAll] at hTake
    split at hTake
    · cases hTake
    · rename_i next hNext
      have hTaken := taken hLayered hNext
      exact ih hRest (hTaken.layered hLayered) (hTaken.copies ht hCopies) hTake

end Pass

open Pass

/-- **The numbers among the instructions are numbers among the tokens.** -/
theorem copies_of_ofTokens {ts : List Token} {code : List Instruction}
    (h : ofTokens ts = .ok code) : Copies ts code := by
  unfold ofTokens at h
  split at h
  · cases h
  · rename_i q hTake
    have hNone : Layered [] := fun w hw => absurd hw List.not_mem_nil
    have hStart : Copies ts [] := fun i hi => absurd hi List.not_mem_nil
    obtain ⟨hCopies, hLayered⟩ := copies_of_takeAll (fun t ht => ht) hNone hStart hTake
    obtain ⟨-, rfl⟩ := exists_of_finishing hLayered h
    -- what still waits at the end is emitted last, and it is no number either
    exact fun i hi => hCopies.flushed q.depth q.waiting i (List.mem_reverse.1 hi)

end Postfix

/-- A program made of worded tokens is worded. -/
theorem Program.worded_of_ofTokens {ts : List Token} {p : Program} (h : ofTokens ts = .ok p)
    (hTokens : ∀ t ∈ ts, t.Worded script) : ∀ i ∈ p.code, i.Worded script := by
  obtain ⟨code, hCode, hChecked⟩ := exists_code_of_ofTokens h
  obtain ⟨-, -, -, -, rfl⟩ := exists_play_of_ofPostfix hChecked
  intro i hi numeral hKind
  exact hTokens _ (Postfix.copies_of_ofTokens hCode i hi numeral hKind) numeral rfl

/-! ## Running -/

namespace Machine

/-- **A number that is a word is put on the stack**, and it is the number that the word denotes. -/
theorem exists_step_of_worded {i : Instruction} (h : i.Worded script)
    (hKind : i.kind = .number numeral) :
    ∃ n : Number, n.DenotedBy numeral (i.span.text script).toList ∧
      ∀ m : Machine, m.step script i = (.ok (), m.push (.number n)) := by
  obtain ⟨n, hRead, hDenoted⟩ := (h numeral hKind).exists_ofLiteral
  refine ⟨n, hDenoted, fun m => ?_⟩
  unfold step
  -- the instruction reads the text that its span selects, when it is performed
  rw [hKind]
  dsimp only
  rw [hRead]
  rfl

/-- The instructions in front of this one are performed, and this one fails. -/
def FailsAt (script : String) (m : Machine) (code : List Instruction) (i : Instruction)
    (e : Failure) : Prop :=
  ∃ front behind n e', code = front ++ i :: behind ∧ steps script m front = (.ok (), n) ∧
    (n.step script i).1 = .error e' ∧ e = e'.orSpan i.span

/-- A run that fails has failed at one instruction, and has performed those in front of it. -/
theorem exists_failsAt_of_steps {m : Machine} {code : List Instruction} {e : Failure}
    (h : (steps script m code).1 = .error e) : ∃ i, FailsAt script m code i e := by
  obtain ⟨front, i, behind, n, e', hAt⟩ := exists_step_of_steps h
  exact ⟨i, front, behind, n, e', hAt⟩

/-- A run never fails at a number, if the numbers are words. -/
theorem FailsAt.kind_ne {m : Machine} {code : List Instruction} {i : Instruction} {e : Failure}
    (h : FailsAt script m code i e) (hCode : ∀ i ∈ code, i.Worded script) :
    ∀ numeral, i.kind ≠ .number numeral := by
  obtain ⟨front, behind, n, e', rfl, -, hFails, -⟩ := h
  intro numeral hKind
  obtain ⟨x, -, hStep⟩ := exists_step_of_worded (hCode i (by simp)) hKind
  rw [hStep n] at hFails
  cases hFails

end Machine

/-! ## Sessions -/

namespace Session

variable {c : Session}

/-- The numbers among what waits are words of their notations, and the program has been checked. -/
structure Worded (c : Session) : Prop where
  tokens : ∀ t ∈ c.tokens, t.Worded c.script
  code : ∀ p, c.program = some p → ∀ i ∈ p.code, i.Worded c.script
  checked : ∀ p, c.program = some p → ∃ code, Program.ofPostfix code = .ok p

/-- Where nothing waits there are no numbers. -/
theorem worded_of_nothing (hTokens : c.tokens = []) (hProgram : c.program = none) : c.Worded := by
  refine ⟨fun t ht => ?_, fun p hp => ?_, fun p hp => ?_⟩
  · rw [hTokens] at ht
    cases ht
  · rw [hProgram] at hp
    cases hp
  · rw [hProgram] at hp
    cases hp

/-- Where the phase says that nothing waits, there are no numbers. -/
theorem Orderly.worded_of_phase (h : c.Orderly) (hUnbuilt : c.phase ≠ .unbuilt)
    (hWaiting : c.phase ≠ .waiting) : c.Worded :=
  worded_of_nothing (not_not.1 (mt h.unbuilt.2 hUnbuilt)) (not_not.1 (mt h.waiting.2 hWaiting))

/-- Text that is loaded is out of reach for what waits. -/
theorem Worded.load (h : c.Worded) (hOrderly : c.Orderly)
    (hSelects : ∀ span ∈ c.pendingSpans, span.Selects c.script) (text : String) :
    (c.load text).Worded := by
  have hTokens : (c.load text).tokens = c.tokens := by
    unfold Session.load
    split <;> rfl
  have hProgram : (c.load text).program = c.program := by
    unfold Session.load
    split <;> rfl
  have hText {span : Span} (hSpan : span ∈ c.pendingSpans) :
      span.text (c.load text).script = span.text c.script := by
    have hThere : span ∈ (c.load text).pendingSpans := by
      rwa [pendingSpans, hTokens, hProgram]
    exact ((hOrderly.carries_load text span hThere).2 (hSelects span hSpan)).2
  -- the texts are the same, and so are the words among them
  refine ⟨fun t ht numeral hKind => ?_, fun p hp i hi numeral hKind => ?_, fun p hp => ?_⟩
  · rw [hTokens] at ht
    rw [hText (List.mem_append_left _ (List.mem_map_of_mem ht))]
    exact h.tokens t ht numeral hKind
  · rw [hProgram] at hp
    have hSpan : i.span ∈ c.pendingSpans := by
      refine List.mem_append_right _ (List.mem_map_of_mem ?_)
      rwa [hp]
    rw [hText hSpan]
    exact h.code p hp i hi numeral hKind
  · rw [hProgram] at hp
    exact h.checked p hp

/-- What has just been read is worded. -/
theorem Orderly.worded_forward (h : c.Orderly) : c.forward.2.Worded := by
  obtain ⟨-, hTokens, -⟩ := (Reader.maintains_worded c.script).nextStatement h.stands
  rcases c.forward_cases with ⟨e, -, hEq⟩ | ⟨-, hEq⟩ | ⟨t, ts, hSome, hEq⟩ <;> rw [hEq]
  · exact worded_of_nothing rfl rfl
  · exact worded_of_nothing rfl rfl
  · exact ⟨hTokens _ hSome, fun p hp => (by cases hp), fun p hp => (by cases hp)⟩

/-- What is compiled are the tokens that were read, and they were worded. -/
theorem Worded.compile (h : c.Worded) : c.compile.2.Worded := by
  rcases c.compile_cases with ⟨-, hEq⟩ | ⟨-, e, -, hEq⟩ | ⟨-, p, hp, hEq⟩ <;> rw [hEq]
  · exact h
  · exact worded_of_nothing rfl rfl
  · refine ⟨fun t ht => absurd ht List.not_mem_nil, ?_, ?_⟩
    · rintro _ ⟨rfl⟩
      exact Program.worded_of_ofTokens hp h.tokens
    · rintro _ ⟨rfl⟩
      obtain ⟨code, -, hChecked⟩ := Program.exists_code_of_ofTokens hp
      exact ⟨code, hChecked⟩

/-- Behind a run nothing waits. -/
theorem Worded.execute (h : c.Worded) (hOrderly : c.Orderly) : c.execute.2.Worded := by
  rcases hOrderly.execute_cases with ⟨-, hEq⟩ | ⟨p, -, -, hEq⟩
  · rw [hEq]
    exact h
  · refine hOrderly.execute.worded_of_phase ?_ ?_ <;> rw [hEq] <;>
      cases (runProgram p c.script c.storeWithoutResult).1 <;> simp [settle, fail]

/-- Behind a text that was evaluated nothing waits, whatever it was. -/
theorem Orderly.worded_evaluate (h : c.Orderly) (text : String) : (c.evaluate text).2.Worded := by
  obtain ⟨hUnbuilt, hWaiting⟩ := phaseBehind_ne (c.evaluate text).1
  rw [← (complete_evaluate c text).2] at hUnbuilt hWaiting
  exact (h.evaluate text).worded_of_phase hUnbuilt hWaiting

/-- **Every operation keeps the numbers among what waits words.** -/
theorem Worded.apply (h : c.Worded) (hOrderly : c.Orderly)
    (hSelects : ∀ span ∈ c.pendingSpans, span.Selects c.script) (op : Operation) :
    (op.apply c).Worded := by
  cases op with
  | load text => exact h.load hOrderly hSelects text
  | forward => exact hOrderly.worded_forward
  | compile => exact h.compile
  | execute => exact h.execute hOrderly
  | evaluate text => exact hOrderly.worded_evaluate text
  | bindFunction f => exact ⟨h.tokens, h.code, h.checked⟩
  | lookup name => exact h
  | teardown => exact worded_of_nothing rfl rfl

/-- By induction on the operations. The spans of what waits select what they selected when they were
read, so text may be loaded meanwhile. -/
theorem Orderly.worded_after {start : Session} (h : start.Orderly)
    (hNothing : start.pendingSpans = []) (hWorded : start.Worded) (ops : List Operation) :
    (start.after ops).Worded := by
  induction ops using List.reverseRecOn with
  | nil => exact hWorded
  | append_singleton ops op ih =>
    obtain ⟨hOrderly, hPending⟩ := h.readBy hNothing ops
    rw [after_concat]
    exact ih.apply hOrderly (fun span hSpan => (hPending span hSpan).2) op

/-- So it is from the beginning, with any functions. -/
theorem worded_history (options : ReaderOptions) (entropy : Entropy) (fs : List Function)
    (ops : List Operation) :
    (((bare options entropy).bindAll fs).after ops).Orderly ∧
      (((bare options entropy).bindAll fs).after ops).Worded := by
  obtain ⟨hOrderly, hNothing, hWorded⟩ :=
    bindAll_of_bindFunction (P := fun c => c.Orderly ∧ c.pendingSpans = [] ∧ c.Worded)
      (fun f _ c h => ⟨h.1.of_eq rfl rfl rfl h.1.stands, h.2.1,
        h.2.2.tokens, h.2.2.code, h.2.2.checked⟩)
      ⟨orderly_bare options entropy, rfl, worded_of_nothing rfl rfl⟩
  exact ⟨(hOrderly.readBy hNothing ops).1, hOrderly.worded_after hNothing hWorded ops⟩

/-- **Whatever the scanner takes for a literal has the value that it denotes.** And whatever has
been done with a session: if a program waits in it, every number in the program is put on the stack
as what it denotes, on every machine, and when the program fails it has failed at an instruction
that is no number. -/
theorem literals_denote :
    (∀ (text : String) (numeral : Numeral),
      Numeral.scan text.toList = (text.utf8ByteSize, some numeral) →
      ∃ n, Number.ofLiteral text numeral = .ok n ∧ n.DenotedBy numeral text.toList) ∧
    ∀ (options : ReaderOptions) (entropy : Entropy) (fs : List Function) (ops : List Operation)
      (p : Program),
      let c := ((bare options entropy).bindAll fs).after ops
      c.program = some p →
      (∀ i ∈ p.code, ∀ numeral, i.kind = .number numeral →
        ∃ n : Number, n.DenotedBy numeral (i.span.text c.script).toList ∧
          ∀ m : Machine, m.step c.script i = (.ok (), m.push (.number n))) ∧
      ∀ e, c.execute.1 = .error e →
        ∃ i, Machine.FailsAt c.script { store := c.storeWithoutResult } p.code i e ∧
          ∀ numeral, i.kind ≠ .number numeral := by
  refine ⟨fun text numeral hScan => (Numeral.word_of_scan hScan).exists_ofLiteral, ?_⟩
  intro options entropy fs ops p c hp
  obtain ⟨hOrderly, hWorded⟩ := worded_history options entropy fs ops
  refine ⟨fun i hi numeral hKind => ?_, fun e hFails => ?_⟩
  · exact Machine.exists_step_of_worded (hWorded.code p hp i hi) hKind
  · have hPhase : c.phase = .waiting := hOrderly.waiting.2 (by rw [hp]; simp)
    obtain ⟨code, hChecked⟩ := hWorded.checked p hp
    -- the run that the session settles is that of the program which waits
    rw [execute_of_waiting hPhase hp, settle_answer] at hFails
    obtain ⟨i, hAt⟩ := Machine.exists_failsAt_of_steps (steps_of_runProgram hChecked hFails)
    exact ⟨i, hAt, hAt.kind_ne (hWorded.code p hp)⟩

/-- A literal wider than 64 bits. -/
def wide : String := "0xFFFFFFFFFFFFFFFFF"

/-- A program of literals in odd forms waits, and more text has been put behind its script. The
index is no integer. -/
def oddForms : List Operation := [.load "00 + .e1[7.]", .forward, .compile, .load "1"]

/-- The wide literal has a value. The literals of the program are put on the stack, and the run
fails at another instruction. -/
theorem literals_denote_oddForms :
    Numeral.scan wide.toList = (wide.utf8ByteSize, some .hexadecimal) ∧
      (∃ n, Number.ofLiteral wide .hexadecimal = .ok n ∧
        n.Holds .hexadecimal (positional 16 (wide.toList.drop 2))) ∧
      let c := ((bare {} (.seeded 0)).bindAll []).after oddForms
      ∃ p, c.program = some p ∧
        (p.code.map (·.kind)).take 2 = [.number .octal, .number .scientific] ∧
        (∀ i ∈ p.code, ∀ numeral, i.kind = .number numeral →
          ∃ n : Number, n.DenotedBy numeral (i.span.text c.script).toList ∧
            ∀ m : Machine, m.step c.script i = (.ok (), m.push (.number n))) ∧
        ∃ e i, c.execute.1 = .error e ∧
          Machine.FailsAt c.script { store := c.storeWithoutResult } p.code i e ∧
            ∀ numeral, i.kind ≠ .number numeral := by
  have hScan : Numeral.scan wide.toList = (wide.utf8ByteSize, some .hexadecimal) := by
    decide +kernel
  refine ⟨hScan, literals_denote.1 wide .hexadecimal hScan, ?_⟩
  intro c
  have hProgram : c.program.map (·.code.map (·.kind)) = some
      [.number .octal, .number .scientific, .operator (.opener .index), .number .float,
        .operator (.closer .index), .operator .add] := by
    decide +kernel
  obtain ⟨p, hp, hKinds⟩ := Option.map_eq_some_iff.1 hProgram
  obtain ⟨hSteps, hFails⟩ := literals_denote.2 {} (.seeded 0) [] oddForms p hp
  have hFailure : failure? c.execute.1 =
      some { fault := IndexFault.expectNonNegativeInteger, span := some ⟨11, 12⟩ } := by
    decide +kernel
  rw [failure?_eq_some_iff] at hFailure
  obtain ⟨i, hAt, hOther⟩ := hFails _ hFailure
  exact ⟨p, hp, by rw [hKinds]; rfl, hSteps, _, i, hFailure, hAt, hOther⟩

end Session

end Reckon
