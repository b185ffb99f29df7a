import Reckon.Proofs.Completion
import Reckon.Proofs.Correctness
import Reckon.Proofs.Histories
import Reckon.Proofs.Holding

/-!
# Values come back as they are shown

A session that is given the text of an array of integers, arrays in it included, gives that array
back. The stages of a statement are followed in turn: the reader finds the tokens of one
expression, which writes the value down (`Reader.gather_of_value`); they are compiled and run,
which is evaluating the expression (`Expr.Fits.matches_run`); evaluation gives a payload that holds
the value (`Value.WrittenAs.eval`); and the copy of what is held is the value
(`Store.snapshotLiteral_of_holds`).

Main result: `Session.evaluate_text`. All that can be in the way is a lack of slots.
-/

namespace Reckon

/-! ## Reading -/

theorem Expr.tokens_ne_nil (e : Expr) : e.tokens ≠ [] := by
  cases e <;> simp [Expr.tokens, encloseTokens]

/-- A statement that has a token is the next one. -/
theorem Reader.nextStatement_of_statement {r r' : Reader} {ts : List Token} (hSome : ts ≠ [])
    (h : r.statement = (.ok (some ts), r')) : r.nextStatement = (.ok (some ts), r') := by
  rw [Reader.nextStatement]
  split
  · rename_i hEmpty
    rw [h] at hEmpty
    cases hEmpty
    exact absurd rfl hSome
  · exact h

/-- **The text of a value is one statement**, which writes the value down. -/
theorem Reader.nextStatement_text {v : Value} (hv : v.Legible) (options : ReaderOptions) :
    ∃ e, ∃ r : Reader, v.WrittenAs v.text e ∧ r.At v.text [] ∧
      (Reader.new v.text options).nextStatement = (.ok (some e.tokens), r) := by
  have hAt : (Reader.new v.text options).At v.text (v.text.toList ++ []) := by
    refine ⟨standsIn_resume v.text 0 .start options, ?_⟩
    rw [List.append_nil]
    exact charsFrom_zero v.text
  obtain ⟨e, r, hWritten, hEnd, hGather⟩ :=
    Reader.gather_of_value hv hAt Numeral.ends_nil (d := {}) rfl rfl
  refine ⟨e, r, hWritten, hEnd, nextStatement_of_statement e.tokens_ne_nil ?_⟩
  have hTokens : (Draft.adding {} e.tokens).finish false = .ok (some e.tokens) := by
    simp [Draft.adding, Draft.finish, e.tokens_ne_nil]
  unfold Reader.statement
  rw [hGather, gather_of_nil hEnd.unread, hTokens]

/-! ## Running -/

/-- **Running what writes a value down** gives a handle on a literal that shows as the value. -/
theorem Session.runProgram_of_writtenAs {v : Value} {e : Expr} {p : Program} {script : String}
    {s : Store} (h : v.WrittenAs script e) (hp : Program.ofPostfix (e.code 0) = .ok p)
    (hs : s.Keeps 0) (hTame : s.Within Function.Tame) (hRoom : v.elements ≤ s.room) :
    ∃ l t, runProgram p script s = (.ok (.readOnly l), t) ∧ t.snapshot (.readOnly l) = v := by
  obtain ⟨q, t, hEval, hGives⟩ := h.eval hs hRoom
  have hItem := h.isItem
  have hMatches := hItem.fits.matches_run hItem.plain.asItem hp hs hTame script
  rw [Expr.result_eq hItem.plain, hEval] at hMatches
  -- the run of the program is the evaluation of the expression
  have hRun : p.run script s = (.ok q.object, t) := by
    generalize p.run script s = ran at hMatches
    obtain ⟨_ | obj, u⟩ := ran
    · cases hMatches
    · obtain ⟨hObj, hStore⟩ := hMatches
      exact Prod.ext (congrArg Except.ok hObj) hStore
  have hKeeps : t.Keeps (q.object ::ₘ 0) := hGives.keeps
  obtain ⟨l, u, hTake, hLiteral, hHeld⟩ := hKeeps.take_holds (List.forall₂_cons.1 hGives.holds).1
  rw [runProgram_eq, hRun]
  dsimp only
  rw [hTake]
  refine ⟨l, _, rfl, ?_⟩
  -- the handle on the literal keeps it from being reclaimed
  have hTaken := hKeeps.take.balanced
  rw [hTake, Multiset.cons_bind, Multiset.cons_bind, Multiset.zero_bind, Multiset.zero_bind,
    Store.owns_handleOf, add_zero, add_zero] at hTaken
  obtain ⟨_, hRemains, -⟩ := hTaken.exists_remains (List.Subset.refl _)
  obtain ⟨lit, hLive⟩ := Option.isSome_iff_exists.1 (hRemains.balanced.backed l
    (Multiset.mem_add.2 (.inr (Multiset.mem_singleton_self l))))
  calc u.sweep.2.snapshot (.readOnly l)
      = u.snapshotLiteral [] l := hRemains.snapshotLiteral [] hLive
    _ = v := Store.snapshotLiteral_of_holds hLiteral hHeld fun k hk => absurd hk List.not_mem_nil

namespace Session

variable {c : Session} {v : Value}

/-- Giving up the result before leaves as many slots. -/
theorem Kept.room_storeWithoutResult (hc : c.Kept) : c.storeWithoutResult.room = c.store.room := by
  unfold Session.storeWithoutResult
  cases hResult : c.result with
  | none => rfl
  | some obj =>
    obtain ⟨_ | l, rfl⟩ := hc.result obj hResult
    · rfl
    · have hSlots := Store.slots_forgo c.store l
      exact Store.room_of_eq (congrArg Array.size hSlots.1) hSlots.2

/-- In a session that is complete the text of a value is the next statement and the last one. -/
theorem forward_text (hComplete : c.complete = true) (hv : v.Legible) :
    ∃ e cursor position, v.WrittenAs v.text e ∧ charsFrom v.text cursor = [] ∧
      (c.load v.text).forward = (.ok true, { c with
        script := v.text, cursor, position, tokens := e.tokens, program := none,
        phase := .unbuilt }) := by
  obtain ⟨e, r, hWritten, hEnd, hNext⟩ := Reader.nextStatement_text hv c.options
  refine ⟨e, r.cursor, r.position, hWritten, hEnd.stands.trans hEnd.unread, ?_⟩
  have hReader : (c.load v.text).reader = Reader.new v.text c.options := by
    unfold Session.load
    rw [if_pos hComplete]
    rfl
  unfold Session.forward
  rw [hReader, hNext]
  unfold Session.load
  rw [if_pos hComplete]

/-- What a session does with tokens that can be compiled. -/
theorem compile_of_ofTokens {p : Program} (hPhase : c.phase = .unbuilt)
    (hp : Program.ofTokens c.tokens = .ok p) : c.compile =
      (.ok (), { c with tokens := [], program := some p, phase := .waiting }) := by
  unfold Session.compile
  rw [if_pos hPhase, hp]

/-- What a session does with a program that can be run. -/
theorem execute_of_runProgram {p : Program} {obj : Object} {t : Store} (hPhase : c.phase = .waiting)
    (hp : c.program = some p) (hRun : runProgram p c.script c.storeWithoutResult = (.ok obj, t)) :
    c.execute = (.ok obj, { c with
      store := t, program := none, result := some obj, phase := .done }) := by
  rw [execute_of_waiting hPhase hp, hRun]
  rfl

/-- **A value comes back as it is shown.** A session that is complete gives an array of integers
for the text of the array, if there are as many slots left as there are elements in it, however
deep the arrays lie inside each other. Each integer is in the notation in which it was shown. -/
theorem evaluate_text (hc : c.Reachable) (hComplete : c.complete = true) (hv : v.Legible)
    (hRoom : v.elements ≤ c.store.room) : (c.evaluate v.text).1 = .ok v := by
  have hKept := hc.kept
  obtain ⟨hKeeps, hTame⟩ := hKept.storeWithoutResult
  obtain ⟨e, cursor, position, hWritten, hEnd, hRead⟩ := forward_text hComplete hv
  have hFits := hWritten.isItem.fits
  -- the tokens are those of an expression, so they can be compiled
  obtain ⟨p, hp, -⟩ := hFits.exists_ofPostfix
  have hProgram : Program.ofTokens e.tokens = .ok p := by
    unfold Program.ofTokens
    rw [Postfix.ofTokens_of_fits hFits]
    exact hp
  obtain ⟨l, t, hRun, hShows⟩ := runProgram_of_writtenAs hWritten hp hKeeps hTame
    (by rw [hKept.room_storeWithoutResult]; exact hRoom)
  -- nothing is left to read behind the statement
  have hLast {d : Session} (hScript : d.script = v.text) (hCursor : d.cursor = cursor) :
      d.forward.1 = .ok false := by
    rw [forward_eq_false_iff, Session.unread, hScript, hCursor, hEnd]
    rfl
  calc (c.evaluate v.text).1
      = ((c.load v.text).runAll .nil).1 := (evaluate_eq c v.text).1
    _ = .ok ((some (t.snapshot (.readOnly l))).getD .nil) :=
      runAll_of_last hRead (compile_of_ofTokens rfl hProgram) (execute_of_runProgram rfl rfl hRun)
        (hLast rfl rfl)
    _ = .ok v := by rw [hShows]; rfl

/-- Arrays inside an array, with integers in three notations. -/
def nestedNumbers : Value :=
  .array [.number (.int (-1) .decimal false),
    .array [.number (.int 42 .hexadecimal false), .array []], .number (.int 8 .octal false)]

/-- The arrays come back from their text. -/
theorem evaluate_nestedNumbers :
    nestedNumbers.text = "{-1, {0x2a, {}}, 010}" ∧ (new {} (.seeded 0)).complete = true ∧
      nestedNumbers.Legible ∧ nestedNumbers.elements ≤ (new {} (.seeded 0)).store.room ∧
      ((new {} (.seeded 0)).evaluate nestedNumbers.text).1 = .ok nestedNumbers := by
  have hLegible : nestedNumbers.Legible := by
    have hEmpty : (Value.array []).Legible := .array fun _ h => absurd h List.not_mem_nil
    have hInner : (Value.array [.number (.int 42 .hexadecimal false), .array []]).Legible := by
      refine .array fun w hw => ?_
      rcases List.mem_pair.1 hw with rfl | rfl
      · exact .number (.unsigned (by decide) (.inr (.inr rfl)))
      · exact hEmpty
    refine .array fun w hw => ?_
    rcases List.mem_cons.1 hw with rfl | hw
    · exact .number (.negative (by decide) (by decide))
    · rcases List.mem_pair.1 hw with rfl | rfl
      · exact hInner
      · exact .number (.octal (by decide))
  have hComplete : (new {} (.seeded 0)).complete = true := by decide +kernel
  have hRoom : nestedNumbers.elements ≤ (new {} (.seeded 0)).store.room := by decide +kernel
  exact ⟨by decide +kernel, hComplete, hLegible, hRoom,
    evaluate_text (.new {} (.seeded 0)) hComplete hLegible hRoom⟩

end Session

end Reckon
