import Reckon.Proofs.Work

/-!
# Texts, one behind the other

Two texts with a terminator between them have the pieces of the first one, and behind them those of
the second one, moved on (`pieces_joined`). A piece makes the same work wherever it stands, but its
spans are moved on with it (`Piece.work_shift`). So to evaluate the two texts in one go is to
evaluate the first one and then the second one: the same value comes of it, or the same failure at
another place, and the store and the result are left the same (`Session.evaluate_joined`).

There is one exception to the other place. The function of the call that fails can have raised a
failure which it has pointed somewhere itself (`Session.PointedAhead`). Such a failure is passed on
as it is, so it points to the same place in either case.
-/

namespace Reckon

/-! ## Pieces of joined texts -/

/-- The piece, so many bytes further on. -/
def Piece.shift (p : Piece) (n : Nat) : Piece := { p with start := p.start + n }

/-- Stretches that begin further on have their pieces further on. -/
theorem locate_shift (start n : Nat) (css : List (List Char)) :
    locate (start + n) css = (locate start css).map (·.shift n) := by
  induction css generalizing start with
  | nil => rfl
  | cons cs css ih =>
    have hStart : start + n + byteLength cs + 1 = start + byteLength cs + 1 + n := by omega
    rw [locate, locate, List.map_cons, ← ih, hStart]
    rfl

/-- Stretches behind others begin behind a terminator. -/
theorem locate_append {css : List (List Char)} (hSome : css ≠ []) (start : Nat)
    (css' : List (List Char)) :
    locate start (css ++ css') =
      locate start css ++ locate (start + byteLength ([';'].intercalate css) + 1) css' := by
  induction css generalizing start with
  | nil => exact absurd rfl hSome
  | cons cs css ih =>
    cases css with
    | nil => simp [locate]
    | cons next more =>
      -- the first stretch and its terminator come in front of the rest in any case
      have hStart : start + byteLength cs + 1 + byteLength ([';'].intercalate (next :: more)) + 1 =
          start + byteLength ([';'].intercalate (cs :: next :: more)) + 1 := by
        rw [List.intercalate_cons_cons, byteLength_append, byteLength_append]
        show _ = start + (byteLength cs + 1 + _) + 1
        omega
      rw [List.cons_append, locate, ih (List.cons_ne_nil _ _), hStart]
      rfl

/-- A piece is one of the stretches, and stands where it stands among them. -/
theorem exists_append_of_mem_locate {css : List (List Char)} {start : Nat} {p : Piece}
    (h : p ∈ locate start css) :
    p.chars ∈ css ∧ ∃ front behind, [';'].intercalate css = front ++ (p.chars ++ behind) ∧
      p.start = start + byteLength front := by
  induction css generalizing start with
  | nil => cases h
  | cons cs css ih =>
    rcases List.mem_cons.1 h with rfl | hRest
    · refine ⟨List.mem_cons_self .., [], ?_⟩
      -- the first stretch has nothing in front of it, and a terminator behind it if there are more
      cases css with
      | nil => exact ⟨[], by simp, rfl⟩
      | cons next more =>
        refine ⟨';' :: [';'].intercalate (next :: more), ?_, rfl⟩
        rw [List.intercalate_cons_cons, List.append_assoc]
        rfl
    · obtain ⟨hMem, front, behind, hText, hStart⟩ := ih hRest
      -- any other has the first one and its terminator in front of it
      refine ⟨List.mem_cons_of_mem _ hMem, cs ++ ';' :: front, behind, ?_, ?_⟩
      · cases css with
        | nil => cases hMem
        | cons next more =>
          rw [List.intercalate_cons_cons, hText]
          simp
      · rw [hStart, byteLength_append]
        show _ = start + (byteLength cs + (1 + byteLength front))
        omega

/-- A piece ends where the stretches end at the latest. -/
theorem mem_locate {css : List (List Char)} {start : Nat} {p : Piece} (h : p ∈ locate start css) :
    p.chars ∈ css ∧
      p.start + byteLength p.chars ≤ start + byteLength ([';'].intercalate css) := by
  obtain ⟨hMem, front, behind, hText, hStart⟩ := exists_append_of_mem_locate h
  refine ⟨hMem, ?_⟩
  rw [hStart, hText, byteLength_append, byteLength_append]
  omega

/-- A piece of a script has no terminators in it, and ends within the script. -/
theorem mem_pieces {script : String} {p : Piece} (h : p ∈ pieces script) :
    ';' ∉ p.chars ∧ p.start + byteLength p.chars ≤ script.utf8ByteSize := by
  obtain ⟨hMem, hEnd⟩ := mem_locate h
  rw [List.intercalate_splitOn, Nat.zero_add, ← utf8ByteSize_eq] at hEnd
  exact ⟨not_mem_of_mem_splitOn hMem, hEnd⟩

/-- **The pieces of joined texts** are those of the first one, and those of the second one moved
on. -/
theorem pieces_joined (t₁ t₂ : String) :
    pieces (t₁ ++ ";" ++ t₂) =
      pieces t₁ ++ (pieces t₂).map (·.shift (t₁.utf8ByteSize + 1)) := by
  have hChars : (t₁ ++ ";" ++ t₂).toList = t₁.toList ++ ';' :: t₂.toList := by
    rw [String.toList_append, String.toList_append, List.append_assoc]
    rfl
  unfold pieces
  -- the terminator between the texts is one more place to split at
  rw [hChars, List.splitOn_append_cons_self, locate_append (List.splitOn_ne_nil _ _),
    List.intercalate_splitOn, ← utf8ByteSize_eq, Nat.add_assoc, locate_shift]

/-! ## The work of a piece -/

/-- The work that a piece makes. -/
def Piece.work (options : ReaderOptions) (script : String) (p : Piece) :
    Option (Except Failure (List Token)) :=
  work? (p.reading options script false)

/-- At the end of a script a white piece is no statement, elsewhere it is an empty one: there is no
work in either. -/
theorem Piece.work?_reading {options : ReaderOptions} {script : String} {p : Piece}
    (hClean : ';' ∉ p.chars) (isLast : Bool) :
    work? (p.reading options script isLast) = p.work options script := by
  cases isLast with
  | false => rfl
  | true =>
    unfold Piece.work Piece.reading
    split
    · rfl
    · cases hWhite : p.chars.all isWhite with
      | false => rfl
      | true =>
        -- a white piece has no words, so it leaves no tokens either
        have hNil : p.tokens = [] := by
          rw [p.tokens_eq]
          exact (wordsFrom_eq_nil_iff hClean p.start).2 hWhite
        rw [hNil]
        rfl

/-- The work of stretches without terminators is that of their pieces, one by one. -/
theorem workFrom_eq (options : ReaderOptions) (script : String) (start : Nat)
    {css : List (List Char)} (hClean : ∀ cs ∈ css, ';' ∉ cs) :
    workFrom options script start css =
      (locate start css).filterMap (Piece.work options script) := by
  have hReadings (ps : List Piece) (hClean : ∀ p ∈ ps, ';' ∉ p.chars) :
      (readings options script ps).filterMap work? =
        ps.filterMap (Piece.work options script) := by
    induction ps with
    | nil => rfl
    | cons p ps ih =>
      obtain ⟨hFirst, hRest⟩ := List.forall_mem_cons.1 hClean
      rw [readings, List.filterMap_cons, List.filterMap_cons, Piece.work?_reading hFirst, ih hRest]
  exact hReadings _ fun p hp => hClean _ (exists_append_of_mem_locate hp).1

/-- The work of a script is that of its pieces, one by one. -/
theorem workOf_eq (options : ReaderOptions) (script : String) :
    workOf options script = (pieces script).filterMap (Piece.work options script) :=
  workFrom_eq options script 0 fun _ => not_mem_of_mem_splitOn

/-- A script with a token that is neither white space nor a terminator makes some work. -/
theorem workOf_ne_nil (options : ReaderOptions) {script : String}
    (h : ∃ t ∈ tokenize script, t.kind.isIdle = false) : workOf options script ≠ [] := by
  obtain ⟨t, ht, hBusy⟩ := h
  obtain ⟨hAnswer, -⟩ := (Reader.before_new options script).nextStatement
  intro hNone
  change workFrom options script (Reader.new script options).cursor _ = [] at hNone
  rw [hNone] at hAnswer
  -- without any work a reader finds no statement, so only white space and terminators are ahead
  have hIdle := (Reader.nextStatement_eq_none_iff _).1 hAnswer
  have hAhead : (Reader.new script options).ahead = tokenize script := by
    show tokensFrom 0 (charsFrom script 0) = tokensFrom 0 script.toList
    rw [charsFrom_zero]
  rw [hAhead] at hIdle
  have hSame := hIdle t ht
  rw [hBusy] at hSame
  cases hSame

/-! ## Pieces in front -/

/-- Faults are found with tokens of the statement. -/
theorem mem_of_mem_allFaults {options : ReaderOptions} {before ts : List Token}
    {fault : Token × SyntaxFault} (h : fault ∈ allFaults options before ts) : fault.1 ∈ ts := by
  induction ts generalizing before with
  | nil => cases h
  | cons t ts ih =>
    rw [allFaults, List.mem_append, Option.mem_toList] at h
    rcases h with hFirst | hRest
    · obtain ⟨cause, -, rfl⟩ := Option.map_eq_some_iff.1 hFirst
      exact List.mem_cons_self ..
    · exact List.mem_cons_of_mem _ (ih hRest)

/-- A token begins within the text that it is cut from. -/
theorem start_le_of_mem_tokensFrom {offset : Nat} {cs : List Char} {t : Token}
    (h : t ∈ tokensFrom offset cs) : t.span.start ≤ offset + byteLength cs := by
  fun_induction tokensFrom offset cs with
  | case1 offset => cases h
  | case2 offset c cs cut ih =>
    have hSplit : cut.text ++ cut.rest = c :: cs := cutLexeme_append offset c cs
    have hStop : cut.token.span.stop = offset + byteLength cut.text := rfl
    rcases List.mem_cons.1 h with rfl | hRest
    · exact Nat.le_add_right ..
    · -- it begins in the rest, which ends where the text does
      have hLe := ih hRest
      rw [← hSplit, byteLength_append]
      omega

/-- Text behind a script does not change the work of its pieces. -/
theorem Piece.work_append {script : String} {p : Piece} (h : p ∈ pieces script)
    (options : ReaderOptions) (more : String) :
    p.work options (script ++ ";" ++ more) = p.work options script := by
  obtain ⟨-, hEnd⟩ := mem_pieces h
  unfold Piece.work Piece.reading
  cases hFaults : allFaults options [] p.tokens with
  | nil => rfl
  | cons first rest =>
    -- the row and column of the first fault are found in front of what is added
    have hMem : first.1 ∈ p.tokens :=
      mem_of_mem_allFaults (by rw [hFaults]; exact List.mem_cons_self ..)
    rw [p.tokens_eq] at hMem
    have hStart := start_le_of_mem_tokensFrom (List.mem_filter.1 hMem).1
    unfold refusalAt
    dsimp only
    rw [positionAt_append options.tabWidth (hStart.trans hEnd)]

/-! ## Pieces behind -/

section Shift

variable {options : ReaderOptions} {n : Nat}

/-- The tokens of a piece move on with it. -/
theorem Piece.tokens_shift (p : Piece) (n : Nat) :
    (p.shift n).tokens = p.tokens.map (·.shift n) := by
  rw [Piece.tokens_eq, Piece.tokens_eq]
  show wordsFrom (p.start + n) p.chars = _
  unfold wordsFrom
  rw [tokensFrom_shift, List.filter_map]
  rfl

/-- The neighbour of a token moves on with it. -/
theorem neighbour?_shift (before : List Token) (n : Nat) :
    neighbour? (before.map (·.shift n)) = (neighbour? before).map (·.shift n) := by
  unfold neighbour?
  rw [List.filter_map, List.getLast?_map]
  rfl

/-- What is wrong with a token does not depend on where it stands. -/
theorem fault?_shift (before : List Token) (t : Token) (n : Nat) :
    fault? options (before.map (·.shift n)) (t.shift n) = fault? options before t := by
  have hLength : (t.shift n).span.length = t.span.length := by
    show t.span.stop + n - (t.span.start + n) = t.span.stop - t.span.start
    omega
  -- neither the length of a token nor the kind of its neighbour changes
  have hBehind : behindOperand (before.map (·.shift n)) = behindOperand before := by
    unfold behindOperand
    rw [neighbour?_shift]
    rcases neighbour? before with _ | ⟨kind, span⟩
    · rfl
    · cases kind <;> rfl
  unfold fault?
  rw [hLength, hBehind]
  rfl

/-- What is wrong with some tokens moves on with them. -/
theorem allFaults_shift (before ts : List Token) (n : Nat) :
    allFaults options (before.map (·.shift n)) (ts.map (·.shift n)) =
      (allFaults options before ts).map fun fault => (fault.1.shift n, fault.2) := by
  induction ts generalizing before with
  | nil => rfl
  | cons t ts ih =>
    have hBefore : before.map (·.shift n) ++ [t.shift n] = (before ++ [t]).map (·.shift n) := by
      simp
    rw [List.map_cons, allFaults, allFaults, hBefore, ih, fault?_shift, List.map_append]
    cases fault? options before t <;> rfl

/-- A sign is taken for the same operator wherever it stands. -/
theorem signed_shift (previous : Option Token) (t : Token) (n : Nat) :
    signed (previous.map (·.shift n)) (t.shift n) = (signed previous t).shift n := by
  have hComes : operandComes (previous.map (·.shift n)) = operandComes previous := by
    rcases previous with _ | ⟨kind, span⟩
    · rfl
    · cases kind with
      | operator op => cases op <;> rfl
      | _ => rfl
  obtain ⟨kind, span⟩ := t
  cases kind with
  | operator op =>
    show signed _ ⟨.operator op, span.shift n⟩ = (signed _ ⟨.operator op, span⟩).shift n
    rw [signed_operator, signed_operator, hComes]
    rfl
  | _ =>
    rw [signed_of_not_operator previous rfl]
    exact signed_of_not_operator _ rfl

/-- The same for all signs of a statement. -/
theorem signs_shift (previous : Option Token) (ts : List Token) (n : Nat) :
    signs (previous.map (·.shift n)) (ts.map (·.shift n)) =
      (signs previous ts).map (·.shift n) := by
  induction ts generalizing previous with
  | nil => rfl
  | cons t ts ih =>
    rw [List.map_cons, signs, signs, signed_shift, List.map_cons, ← ih (some t)]
    rfl

/-- The span there is the one here, moved on by so many bytes. -/
def Span.ShiftedBy (n : Nat) (here there : Span) : Prop := there = here.shift n

/-- A failure that is moved on points so many bytes further on, if it points anywhere. -/
theorem Failure.Moved.span_eq {e e' : Failure} (h : e.Moved (Span.ShiftedBy n) e') :
    e'.span = e.span.map (·.shift n) := by
  have hSpan := h.span
  generalize e.span = here, e'.span = there at hSpan
  cases hSpan with
  | none => rfl
  | some hShifted => exact congrArg some hShifted

theorem forall₂_moved_shift (ts : List Token) (n : Nat) :
    List.Forall₂ (Token.Moved (Span.ShiftedBy n)) ts (ts.map (·.shift n)) :=
  List.forall₂_map_right_iff.2 (List.forall₂_same.2 fun _ _ => ⟨rfl, rfl⟩)

/-- **A piece that is moved on makes the same work there.** -/
theorem Piece.work_shift (p : Piece) (n : Nat) (script script' : String) :
    Option.Rel (Answers (Span.ShiftedBy n) (List.Forall₂ (Token.Moved (Span.ShiftedBy n))))
      (p.work options script) ((p.shift n).work options script') := by
  have hFaults : allFaults options [] (p.tokens.map (·.shift n)) =
      (allFaults options [] p.tokens).map fun fault => (fault.1.shift n, fault.2) :=
    allFaults_shift [] p.tokens n
  have hSigns : signs none (p.tokens.map (·.shift n)) = (signs none p.tokens).map (·.shift n) :=
    signs_shift none p.tokens n
  unfold Piece.work Piece.reading
  rw [p.tokens_shift, hFaults, hSigns]
  cases allFaults options [] p.tokens with
  | nil =>
    cases signs none p.tokens with
    | nil => exact .none
    | cons t ts => exact .some (.ok (forall₂_moved_shift (t :: ts) n))
  | cons first rest =>
    -- the first fault moves on, and as many others follow it
    refine .some (Answers.error ⟨rfl, ?_, .some rfl⟩)
    show (rest.map _).length + 1 = rest.length + 1
    rw [List.length_map]

end Shift

/-- **The work of joined texts** is that of the first one, and that of the second one moved on. -/
theorem exists_workOf_joined (options : ReaderOptions) (t₁ t₂ : String) :
    ∃ behind, workOf options (t₁ ++ ";" ++ t₂) = workOf options t₁ ++ behind ∧
      List.Forall₂ (Answers (Span.ShiftedBy (t₁.utf8ByteSize + 1))
          (List.Forall₂ (Token.Moved (Span.ShiftedBy (t₁.utf8ByteSize + 1)))))
        (workOf options t₂) behind := by
  -- the pieces in front keep their work, and those behind have it moved on
  refine ⟨((pieces t₂).map (·.shift (t₁.utf8ByteSize + 1))).filterMap
    (Piece.work options (t₁ ++ ";" ++ t₂)), ?_, ?_⟩
  · rw [workOf_eq, workOf_eq, pieces_joined, List.filterMap_append]
    congr 1
    exact List.filterMap_congr fun p hp => Piece.work_append hp options t₂
  · rw [workOf_eq]
    refine List.rel_filterMap (R := fun p q => q = p.shift (t₁.utf8ByteSize + 1)) ?_ ?_
    · rintro p _ rfl
      exact p.work_shift _ _ _
    · exact List.forall₂_map_right_iff.2 (List.forall₂_same.2 fun _ _ => rfl)

namespace Session

variable {c : Session} {options : ReaderOptions} {s : Store} {result : Option Object}
  {last : Value}

/-! ## One behind the other -/

/-- Text behind a script makes no difference to the work of the script. -/
theorem doWork_append_text (script more : String) :
    doWork (script ++ more) s result last (workOf options script) =
      doWork script s result last (workOf options script) := by
  refine doWork_congr fun ts hts t ht => ?_
  obtain ⟨-, hTokens⟩ := tokens_of_mem_workOf hts
  exact Span.text_append (hTokens t ht).2.stop_le more

/-- Text in front of a script moves its work on. What comes of it is the same at the other place. -/
theorem doWork_shift {n : Nat} {front script : String}
    {behind : List (Except Failure (List Token))} (hFront : front.utf8ByteSize = n)
    (hWork : List.Forall₂
      (Answers (Span.ShiftedBy n) (List.Forall₂ (Token.Moved (Span.ShiftedBy n))))
      (workOf options script) behind)
    (s : Store) (result : Option Object) (last : Value) :
    (doWork (front ++ script) s result last behind).2 =
        (doWork script s result last (workOf options script)).2 ∧
      Outcomes (Span.ShiftedBy n) (PointedInWork script · s result (workOf options script))
        (doWork script s result last (workOf options script)).1
        (doWork (front ++ script) s result last behind).1 := by
  -- the work consists of tokens of the script, which its spans select from it
  refine doWork_moved hWork (fun ts hts => ?_) (fun here there hShifted => ?_)
  · obtain ⟨hSome, hTokens⟩ := tokens_of_mem_workOf hts
    exact ⟨hSome, fun t ht => (hTokens t ht).1⟩
  · -- the span there selects what the span here selects
    rw [hShifted, ← hFront]
    exact here.text_shift front script

/-- **To evaluate two texts in one go is to evaluate the first one and then the second one**, unless
the first one fails: then there is nothing else to it. The second one has to have a token that is
neither white space nor a terminator, for otherwise its value is nil. A failure of the second text
points behind the first one and the terminator, unless the function of the call that fails has
raised it and has pointed it somewhere itself: then it is the same altogether. Functions that ask
for random numbers are given the same ones either way, those that the session has next. -/
theorem evaluate_joined (hComplete : c.complete = true) (t₁ : String) {t₂ : String}
    (hSome : ∃ t ∈ tokenize t₂, t.kind.isIdle = false) :
    let first := c.evaluate t₁
    let second := first.2.evaluate t₂
    let joined := c.evaluate (t₁ ++ ";" ++ t₂)
    match first.1 with
    | .ok _ =>
      Outcomes (Span.ShiftedBy (t₁.utf8ByteSize + 1)) (first.2.load t₂).PointedAhead
          second.1 joined.1 ∧
        joined.2.store = second.2.store ∧ joined.2.result = second.2.result
    | .error e =>
      joined.1 = .error e ∧ joined.2.store = first.2.store ∧
        joined.2.result = first.2.result := by
  intro first second joined
  have hFirst : doWork t₁ c.store c.result .nil (workOf c.options t₁) =
      (first.1, first.2.store, first.2.result) := doWork_eq_evaluate hComplete t₁
  have hJoined : doWork (t₁ ++ ";" ++ t₂) c.store c.result .nil
        (workOf c.options (t₁ ++ ";" ++ t₂)) =
      (joined.1, joined.2.store, joined.2.result) := doWork_eq_evaluate hComplete _
  -- the joined text makes the work of the first one, and then that of the second one
  obtain ⟨behind, hWork, hMoved⟩ := exists_workOf_joined c.options t₁ t₂
  have hFront : doWork (t₁ ++ ";" ++ t₂) c.store c.result .nil (workOf c.options t₁) =
      (first.1, first.2.store, first.2.result) := by
    rw [String.append_assoc, doWork_append_text, hFirst]
  rw [hWork, doWork_append, hFront] at hJoined
  cases hAnswer : first.1 with
  | error e =>
    -- the second text is not begun
    rw [hAnswer] at hJoined
    obtain ⟨hError, hLeft⟩ := Prod.mk.inj hJoined
    obtain ⟨hStore, hResult⟩ := Prod.mk.inj hLeft
    exact ⟨hError.symm, hStore.symm, hResult.symm⟩
  | ok v =>
    rw [hAnswer] at hJoined
    change doWork (t₁ ++ ";" ++ t₂) first.2.store first.2.result v behind = _ at hJoined
    have hNext : first.2.complete = true := (complete_evaluate c t₁).1
    have hOptions : first.2.options = c.options := evaluate_options c t₁
    have hSecond : doWork t₂ first.2.store first.2.result .nil (workOf c.options t₂) =
        (second.1, second.2.store, second.2.result) := by
      rw [← hOptions]
      exact doWork_eq_evaluate hNext t₂
    -- what points failures in the work does so in the session
    have hOwn (e : Failure) : (first.2.load t₂).PointedAhead e ↔
        PointedInWork t₂ e first.2.store first.2.result (workOf c.options t₂) := by
      have hFaces := faces_load hNext t₂
      have hLoad : first.2.load t₂ =
          { first.2 with script := t₂, cursor := 0, position := .start } :=
        if_pos hNext
      rw [hOptions] at hFaces
      rw [← hFaces.pointedInWork_iff, hLoad]
    have hStop : (t₁ ++ ";").utf8ByteSize = t₁.utf8ByteSize + 1 := by
      rw [String.utf8ByteSize_append]
      rfl
    have hShift := doWork_shift hStop hMoved first.2.store first.2.result v
    rw [hJoined, doWork_of_ne_nil (workOf_ne_nil _ hSome) v .nil, hSecond] at hShift
    obtain ⟨hLeft, hOutcomes⟩ := hShift
    obtain ⟨hStore, hResult⟩ := Prod.mk.inj hLeft
    exact ⟨hOutcomes.congr hOwn, hStore, hResult⟩

/-- The failure, if there is one. -/
def failure? {α : Type} : Except Failure α → Option Failure
  | .ok _ => none
  | .error e => some e

theorem failure?_eq_some_iff {α : Type} {answer : Except Failure α} {e : Failure} :
    failure? answer = some e ↔ answer = .error e := by
  cases answer <;> simp [failure?]

/-- A function that complains about a division by zero, and about a place of its own choice. -/
def dividing : Function where
  name := "divide"
  arity := .variadic
  body := fun _ _ => .error (.atSpan RuntimeFault.intDivOrModByZero ⟨2, 3⟩)

/-- Behind another statement a session divides by zero, and the failure points there. There is a
function at hand that would raise the very same failure as the second text does on its own, but it
is not called. -/
theorem evaluate_joined_divided :
    let c := ((bare {} (.seeded 0)).bindFunction dividing).2
    c.complete = true ∧ (∃ t ∈ tokenize "1 % 0", t.kind.isIdle = false) ∧
      ((c.evaluate "n = {1, 2}").2.evaluate "1 % 0").1 =
        .error (.atSpan RuntimeFault.intDivOrModByZero ⟨2, 3⟩) ∧
      (∀ e, ¬ ((c.evaluate "n = {1, 2}").2.load "1 % 0").PointedAhead e) ∧
      ∃ e, (c.evaluate ("n = {1, 2}" ++ ";" ++ "1 % 0")).1 = .error e ∧
        e.fault = RuntimeFault.intDivOrModByZero ∧ e.count = 1 ∧ e.span = some ⟨13, 14⟩ := by
  intro c
  have hComplete : c.complete = true := by decide +kernel
  have hSome : ∃ t ∈ tokenize "1 % 0", t.kind.isIdle = false := by decide +kernel
  have hFirst : (c.evaluate "n = {1, 2}").1.toOption.isSome := by decide +kernel
  have hSecond : failure? ((c.evaluate "n = {1, 2}").2.evaluate "1 % 0").1 =
      some (.atSpan RuntimeFault.intDivOrModByZero ⟨2, 3⟩) := by decide +kernel
  rw [failure?_eq_some_iff] at hSecond
  -- the second text has no call in it
  have hUncalled : (workOf {} "1 % 0").all fun answer => (answer.bind Program.ofTokens).toOption.all
      fun p => p.code.all fun i => i.kind != .operator (.closer .call) := by decide +kernel
  -- so nothing that a function raises can be what comes of it
  have hOther (e : Failure) : ¬ ((c.evaluate "n = {1, 2}").2.load "1 % 0").PointedAhead e := by
    have hFaces := faces_load (complete_evaluate c "n = {1, 2}").1 "1 % 0"
    rw [evaluate_options] at hFaces
    intro hPointed
    obtain ⟨ts, p, hts, hBuilt, i, hi, hCall⟩ := (hFaces.pointedInWork_iff.2 hPointed).exists_call
    have hNone := List.all_eq_true.1 hUncalled _ hts
    rw [Except.bind, hBuilt] at hNone
    have hNot := List.all_eq_true.1 hNone i hi
    rw [hCall] at hNot
    cases hNot
  have hJoined := evaluate_joined hComplete "n = {1, 2}" hSome
  dsimp only at hJoined
  rw [hSecond] at hJoined
  refine ⟨hComplete, hSome, hSecond, hOther, ?_⟩
  -- the first text succeeds, so the second case of the theorem is none
  cases hAnswer : (c.evaluate "n = {1, 2}").1 with
  | error e =>
    rw [hAnswer] at hFirst
    cases hFirst
  | ok v =>
    rw [hAnswer] at hJoined
    generalize (c.evaluate ("n = {1, 2}" ++ ";" ++ "1 % 0")).1 = answer at hJoined
    cases hJoined.1 with
    | kept hOwn => exact absurd hOwn (hOther _)
    | @moved _ e hNot hMoved => exact ⟨e, rfl, hMoved.fault, hMoved.count, hMoved.span_eq⟩

/-- A function that points its failure at a place of its own. -/
def raisingAt : Function where
  name := "raise_at"
  arity := .variadic
  body := fun _ _ => .error { fault := .custom 0, span := some ⟨1, 3⟩ }

/-- The failure of a function that points at a place of its own is not moved on: behind an empty
text and a terminator it points where it has pointed before. -/
theorem not_moved_raisingAt :
    let c := ((bare {} (.seeded 0)).bindFunction raisingAt).2
    let raised : Failure := { fault := .custom 0, span := some ⟨1, 3⟩ }
    c.complete = true ∧ (∃ t ∈ tokenize "raise_at()", t.kind.isIdle = false) ∧
      (c.evaluate "").1.toOption.isSome ∧
      ((c.evaluate "").2.evaluate "raise_at()").1 = .error raised ∧
      (c.evaluate ("" ++ ";" ++ "raise_at()")).1 = .error raised ∧
      ¬ raised.Moved (Span.ShiftedBy ("".utf8ByteSize + 1)) raised := by
  intro c raised
  have hAlone : failure? ((c.evaluate "").2.evaluate "raise_at()").1 = some raised := by
    decide +kernel
  have hJoined : failure? (c.evaluate ("" ++ ";" ++ "raise_at()")).1 = some raised := by
    decide +kernel
  rw [failure?_eq_some_iff] at hAlone hJoined
  refine ⟨by decide +kernel, by decide +kernel, by decide +kernel, hAlone, hJoined, ?_⟩
  intro hMoved
  exact absurd hMoved.span_eq (by decide)

end Session

end Reckon
