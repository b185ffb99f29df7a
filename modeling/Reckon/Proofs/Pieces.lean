import Reckon.Proofs.Places

/-!
# Statements, piece by piece

The terminators of a script cut it into pieces. What a reader makes of a statement can be told from
its piece alone: the piece is cut into tokens as if it were a script of its own, each token is
judged by those in front of it (`fault?`), and the operators at which an operand has to follow get
their meaning from the token in front (`signed`). `Piece.reading` puts this together, with no word
about how a reader goes about it.

A reader gives the readings of the pieces, one after the other, and so does a reader that is made
anew before every statement (`Reader.statement_eq_reading`).
-/

namespace Reckon

/-! ## Judging tokens -/

/-- A character that starts no lexeme. -/
def TokenKind.isStray : TokenKind → Bool
  | invalid _ => true
  | _ => false

/-- The token that the next one has for its neighbour. Stray characters do not separate operands. -/
def neighbour? (before : List Token) : Option Token :=
  (before.filter fun t => !t.kind.isStray).getLast?

/-- Whether the neighbour of the next token is a number, malformed or not, or a name. -/
def behindOperand (before : List Token) : Bool :=
  match neighbour? before with
  | some ⟨.number _, _⟩ | some ⟨.identifier, _⟩ => true
  | _ => false

/-- What is wrong with a token of a piece, given the tokens in front of it. -/
def fault? (options : ReaderOptions) (before : List Token) (t : Token) : Option SyntaxFault :=
  match t.kind with
  | .invalid .unknown => some .beyondCharset
  | .invalid .unicode => some .unicodeChar
  | .number none => some .invalidNumberLiteral
  | .number (some _) => if behindOperand before then some .expectSeparator else none
  | .identifier =>
    if options.maxSymbolLength < t.span.length then some .symbolTooLong
    else if behindOperand before then some .expectSeparator
    else none
  | _ => none

/-- The tokens that are at fault, with what is wrong with them. -/
def allFaults (options : ReaderOptions) (before : List Token) :
    List Token → List (Token × SyntaxFault)
  | [] => []
  | t :: ts =>
    ((fault? options before t).map (t, ·)).toList ++ allFaults options (before ++ [t]) ts

/-- Whether an operand has to come behind the token: at the start of a piece, and behind an operator
that closes no bracket. -/
def operandComes (previous : Option Token) : Bool :=
  match previous with
  | none => true
  | some ⟨.operator (.closer _), _⟩ => false
  | some ⟨.operator _, _⟩ => true
  | some _ => false

/-- What a token means in front of an operand: `+` and `-` are signs there, and `*` spreads. -/
def turned : Token → Token
  | ⟨.operator .add, span⟩ => ⟨.operator .plus, span⟩
  | ⟨.operator .sub, span⟩ => ⟨.operator .minus, span⟩
  | ⟨.operator .mul, span⟩ => ⟨.operator .spread, span⟩
  | t => t

/-- The token with its meaning at this place: where an operand has to come, `+`, `-` and `*` belong
to the operand. -/
def signed (previous : Option Token) (t : Token) : Token :=
  if operandComes previous then turned t else t

/-- The tokens of a piece with their meanings. -/
def signs (previous : Option Token) : List Token → List Token
  | [] => []
  | t :: ts => signed previous t :: signs (some t) ts

/-! ## Pieces -/

/-- A stretch of a script between terminators. -/
structure Piece where
  /-- The offset at which it starts. -/
  start : Nat
  chars : List Char

/-- The tokens of a piece, at their places in the script and without white space. -/
def Piece.tokens (p : Piece) : List Token :=
  ((tokenize (String.ofList p.chars)).map (·.shift p.start)).filter fun t => !t.kind.isSpace

/-- A blank, a tab or a line break. -/
def isWhite (c : Char) : Bool := c == ' ' || c == '\t' || isLineBreak c

/-- The failure of a statement: its first fault. -/
def refusalAt (options : ReaderOptions) (script : String) (fault : Token × SyntaxFault)
    (count : Nat) : Failure :=
  { fault := fault.2
    span := some fault.1.span
    position := some (positionAt options.tabWidth script fault.1.span.start)
    count }

/-- What becomes of a piece. -/
def Piece.reading (options : ReaderOptions) (script : String) (isLast : Bool) (p : Piece) :
    Except Failure (Option (List Token)) :=
  match allFaults options [] p.tokens with
  | first :: more => .error (refusalAt options script first (more.length + 1))
  | [] =>
    if isLast && p.chars.all isWhite then .ok none else .ok (some (signs none p.tokens))

/-- The pieces, one behind the other, with a terminator between each two. -/
def locate (start : Nat) : List (List Char) → List Piece
  | [] => []
  | cs :: css => ⟨start, cs⟩ :: locate (start + byteLength cs + 1) css

/-- The pieces of a script. -/
def pieces (script : String) : List Piece := locate 0 (script.toList.splitOn ';')

/-- What becomes of each of the pieces. -/
def readings (options : ReaderOptions) (script : String) :
    List Piece → List (Except Failure (Option (List Token)))
  | [] => []
  | p :: ps => p.reading options script ps.isEmpty :: readings options script ps

/-- The work that an answer makes for a session: a failure, or a statement that is not empty. -/
def work? : Except Failure (Option (List Token)) → Option (Except Failure (List Token))
  | .error e => some (.error e)
  | .ok (some (t :: ts)) => some (.ok (t :: ts))
  | .ok _ => none

/-- The work that stretches make which stand one behind the other, with terminators in between. -/
def workFrom (options : ReaderOptions) (script : String) (start : Nat) (css : List (List Char)) :
    List (Except Failure (List Token)) :=
  (readings options script (locate start css)).filterMap work?

/-- The work that a script makes. -/
def workOf (options : ReaderOptions) (script : String) : List (Except Failure (List Token)) :=
  (readings options script (pieces script)).filterMap work?

/-! ## Tokens behind tokens -/

theorem neighbour?_concat (before : List Token) (t : Token) :
    neighbour? (before ++ [t]) = if t.kind.isStray then neighbour? before else some t := by
  unfold neighbour?
  rw [List.filter_append]
  split <;> rename_i hStray <;> simp [hStray]

theorem allFaults_append (options : ReaderOptions) (before ts us : List Token) :
    allFaults options before (ts ++ us) =
      allFaults options before ts ++ allFaults options (before ++ ts) us := by
  induction ts generalizing before with
  | nil => simp [allFaults]
  | cons t ts ih => simp [allFaults, ih]

theorem allFaults_concat (options : ReaderOptions) (ts : List Token) (t : Token) :
    allFaults options [] (ts ++ [t]) =
      allFaults options [] ts ++ ((fault? options ts t).map (t, ·)).toList := by
  rw [allFaults_append]
  simp [allFaults]

/-- A token is signed by the one in front of it. -/
theorem signs_concat (previous : Option Token) (ts : List Token) (t : Token) :
    signs previous (ts ++ [t]) = signs previous ts ++ [signed (ts.getLast?.or previous) t] := by
  induction ts generalizing previous with
  | nil => rfl
  | cons u ts ih =>
    have hLast : (u :: ts).getLast?.or previous = ts.getLast?.or (some u) := by
      rw [List.getLast?_cons]
      cases ts.getLast? <;> rfl
    rw [List.cons_append, signs, signs, ih, hLast]
    rfl

/-- The operators that are turned are those that mean something else in front of an operand. -/
theorem signed_operator (previous : Option Token) (op : Operator) (span : Span) :
    signed previous ⟨.operator op, span⟩ =
      ⟨.operator (if operandComes previous then op.inFront else op), span⟩ := by
  have hTurned : turned ⟨.operator op, span⟩ = ⟨.operator op.inFront, span⟩ := by
    cases op <;> rfl
  unfold signed
  rw [hTurned]
  split <;> rfl

/-- Nothing but an operator is turned. -/
theorem signed_of_not_operator (previous : Option Token) {t : Token}
    (h : t.kind.operator? = none) : signed previous t = t := by
  have hTurned : turned t = t := by
    obtain ⟨kind, span⟩ := t
    cases kind with
    | operator op => cases h
    | _ => rfl
  unfold signed
  rw [hTurned, ite_self]

/-- A token stays where it is, whatever it means. -/
theorem span_signed (previous : Option Token) (t : Token) : (signed previous t).span = t.span := by
  obtain ⟨kind, span⟩ := t
  cases kind with
  | operator op => rw [signed_operator]
  | _ => rw [signed_of_not_operator previous rfl]

/-- An operator asks for an operand whatever it means itself. -/
theorem expectsOperand_signed (previous : Option Token) (t : Token) :
    Draft.expectsOperand (some (signed previous t)) = operandComes (some t) := by
  obtain ⟨kind, span⟩ := t
  cases kind with
  | operator op =>
    -- turning an operator makes no closer of it, nor takes one away
    rw [signed_operator]
    split <;> cases op <;> rfl
  | _ =>
    rw [signed_of_not_operator previous rfl]
    rfl

/-! ## A draft and the tokens that it has seen -/

/-- The draft knows the faults of the tokens so far. If there are none it holds the tokens. -/
structure Draft.Records (d : Draft) (options : ReaderOptions) (script : String)
    (before : List Token) : Prop where
  failure : d.failure = (allFaults options [] before).head?.map (refusalAt options script · 1)
  faults : d.faults = (allFaults options [] before).length
  tokens : allFaults options [] before = [] → d.tokens = (signs none before).reverse

namespace Draft

variable {options : ReaderOptions} {script : String} {d : Draft} {before : List Token} {t : Token}

theorem records_nil : ({} : Draft).Records options script [] := ⟨rfl, rfl, fun _ => rfl⟩

/-- A sound token is added with its meaning. -/
theorem Records.add (h : d.Records options script before)
    (hSound : fault? options before t = none) :
    (d.add t).Records options script (before ++ [t]) := by
  have hSame : allFaults options [] (before ++ [t]) = allFaults options [] before := by
    rw [allFaults_concat, hSound]
    exact List.append_nil _
  -- the failures stay what they are, and without any the token joins the others
  refine ⟨?_, ?_, fun hNone => ?_⟩
  · rw [hSame]
    exact h.failure
  · rw [hSame]
    exact h.faults
  · rw [hSame] at hNone
    have hTokens := h.tokens hNone
    -- the draft asks its last token, whose meaning is found already
    have hExpects : expectsOperand d.tokens.head? = operandComes before.getLast? := by
      rw [hTokens, List.head?_reverse]
      rcases List.eq_nil_or_concat before with rfl | ⟨ts, u, rfl⟩
      · rfl
      · rw [List.concat_eq_append, signs_concat, List.getLast?_concat, List.getLast?_concat]
        exact expectsOperand_signed _ u
    rw [signs_concat, List.reverse_append, ← hTokens, Option.or_none]
    unfold Draft.add
    rw [hExpects]
    obtain ⟨kind, span⟩ := t
    cases kind with
    | operator op =>
      rw [signed_operator]
      rfl
    | _ =>
      rw [signed_of_not_operator _ rfl]
      rfl

/-- A fault is counted, and kept if it is the first one. -/
theorem Records.refuse {cause : SyntaxFault} (h : d.Records options script before)
    (hFault : fault? options before t = some cause) :
    (d.refuse (refusalAt options script (t, cause) 1)).Records options script (before ++ [t]) := by
  have hMore : allFaults options [] (before ++ [t]) =
      allFaults options [] before ++ [(t, cause)] := by
    rw [allFaults_concat, hFault]
    rfl
  refine ⟨?_, ?_, fun hNone => ?_⟩
  · -- a failure that was there before stays the first one
    show d.failure.or (some (refusalAt options script (t, cause) 1)) = _
    rw [h.failure, hMore]
    cases allFaults options [] before <;> rfl
  · show d.faults + 1 = _
    rw [h.faults, hMore, List.length_append]
    rfl
  · rw [hMore] at hNone
    simp at hNone

/-- The end of a piece. -/
theorem Records.finish (h : d.Records options script before) (terminated : Bool) :
    d.finish terminated =
      match allFaults options [] before with
      | first :: more => .error (refusalAt options script first (more.length + 1))
      | [] => if !terminated && before.isEmpty then .ok none
        else .ok (some (signs none before)) := by
  obtain ⟨hFailure, hCount, hTokens⟩ := h
  unfold Draft.finish
  cases hFaults : allFaults options [] before with
  | nil =>
    rw [hFaults] at hFailure
    rw [hFailure, hTokens hFaults]
    cases before <;> simp [signs]
  | cons first more =>
    rw [hFaults] at hFailure hCount
    rw [hFailure, hCount]
    rfl

end Draft

/-! ## A reader in a piece -/

theorem operandFault?_eq_fault? {options : ReaderOptions} {before : List Token} {t : Token}
    (hStray : t.kind.isStray = false) :
    Reader.operandFault? options ((neighbour? before).map (·.kind)) t =
      fault? options before t := by
  have hBehind : ((neighbour? before).map (·.kind)).any TokenKind.isOperand =
      behindOperand before := by
    unfold behindOperand
    rcases neighbour? before with _ | ⟨kind, span⟩
    · rfl
    · cases kind <;> rfl
  obtain ⟨kind, span⟩ := t
  unfold Reader.operandFault? fault?
  rw [hBehind]
  generalize behindOperand before = behind
  cases kind with
  | invalid s => cases hStray
  | number numeral => cases numeral <;> simp [TokenKind.isOperand]
  | identifier => simp [TokenKind.isOperand]
  | _ => simp [TokenKind.isOperand]

/-- The token of a lexeme that begins with another character is no terminator. -/
theorem classify_ne_semicolon {c : Char} (hc : c ≠ ';') (cs : List Char) :
    (classify c cs).1 ≠ .operator .semicolon := by
  intro hKind
  have hSpells := spells_classify c cs
  rw [hKind] at hSpells
  exact hc (List.cons.inj hSpells).1

/-- The tokens of some text that stands at an offset, without white space. -/
def wordsFrom (offset : Nat) (cs : List Char) : List Token :=
  (tokensFrom offset cs).filter fun t => !t.kind.isSpace

theorem Piece.tokens_eq (p : Piece) : p.tokens = wordsFrom p.start p.chars := by
  unfold Piece.tokens wordsFrom tokenize
  rw [← tokensFrom_shift, Nat.zero_add, String.toList_ofList]

theorem wordsFrom_cons (offset : Nat) (c : Char) (cs : List Char) :
    wordsFrom offset (c :: cs) =
      (if (cutLexeme offset c cs).token.kind.isSpace then []
        else [(cutLexeme offset c cs).token]) ++
        wordsFrom (cutLexeme offset c cs).token.span.stop (cutLexeme offset c cs).rest := by
  unfold wordsFrom
  rw [tokensFrom, List.filter_cons]
  cases (cutLexeme offset c cs).token.kind.isSpace <;> rfl

/-- Text behind which a lexeme cannot go on. -/
def Ends (behind : List Char) : Prop := behind = [] ∨ ∃ more, behind = ';' :: more

theorem cutLexeme_of_ends {behind : List Char} (h : Ends behind) (offset : Nat) (c : Char)
    (cs : List Char) :
    cutLexeme offset c (cs ++ behind) =
      { cutLexeme offset c cs with rest := (cutLexeme offset c cs).rest ++ behind } := by
  rcases h with rfl | ⟨more, rfl⟩
  · rw [List.append_nil, List.append_nil]
  · exact cutLexeme_beforeStop offset c cs more

namespace Reader

variable {r : Reader} {options : ReaderOptions} {script : String} {before : List Token}
  {cs behind : List Char}

/-- The reader stands inside a piece, behind some of its tokens. -/
structure Inside (r : Reader) (options : ReaderOptions) (script : String) (before : List Token)
    (unread : List Char) : Prop where
  options : r.options = options
  located : r.Located script
  last : r.last = (neighbour? before).map (·.kind)
  unread : r.unread = unread

/-- White space gives nothing, and the neighbour stays what it is. -/
theorem take_space {cut : Cut} (hSpace : cut.token.kind.isSpace = true) :
    (r.take cut).1 = none ∧ (r.take cut).2.last = r.last := by
  unfold take
  cases hKind : cut.token.kind with
  | space s => exact ⟨rfl, rfl⟩
  | _ => rw [hKind] at hSpace; cases hSpace

/-- What a reader makes of a lexeme that is no white space and no terminator. -/
theorem take_word {cut : Cut} (hSpace : cut.token.kind.isSpace = false)
    (hStop : cut.token.kind ≠ .operator .semicolon) (hOptions : r.options = options)
    (hLast : r.last = (neighbour? before).map (·.kind)) :
    (r.take cut).1 = some (match fault? options before cut.token with
      | some cause => .error (r.refusal cut cause)
      | none => .ok (.token cut.token)) ∧
    (r.take cut).2.last = (neighbour? (before ++ [cut.token])).map (·.kind) := by
  rw [neighbour?_concat]
  unfold take
  split
  · rename_i s hKind
    rw [hKind] at hSpace
    cases hSpace
  · -- a stray character is refused, and is no neighbour for what comes behind it
    rename_i s hKind
    have hStray : (TokenKind.invalid s).isStray = true := rfl
    rw [hKind, if_pos hStray]
    refine ⟨?_, hLast⟩
    unfold fault?
    rw [hKind]
    cases s <;> rfl
  · rename_i hKind
    exact absurd hKind hStop
  · -- anything else is judged by its neighbour, and is the next one
    rename_i hNoStray _
    have hStray : cut.token.kind.isStray = false := by
      generalize cut.token.kind = kind at hNoStray
      cases kind with
      | invalid s => exact absurd rfl (hNoStray s)
      | _ => rfl
    rw [hStray]
    refine ⟨?_, rfl⟩
    have hSame : operandFault? options ((neighbour? before).map (·.kind)) cut.token =
        fault? options before cut.token := operandFault?_eq_fault? hStray
    rw [judge, hOptions, hLast]
    cases hFault : fault? options before cut.token with
    | none =>
      rw [hFault] at hSame
      rw [hSame]
    | some cause =>
      rw [hFault] at hSame
      rw [hSame]

/-- Reading one lexeme of a piece, a reader passes over white space, adds a sound token to its draft
and notes a fault. -/
theorem exists_gather_lexeme {d : Draft} {c : Char} (hEnds : Ends behind) (hc : c ≠ ';')
    (h : r.Inside options script before (c :: (cs ++ behind)))
    (hd : d.Records options script before) :
    let cut := cutLexeme r.cursor c cs
    let words := if cut.token.kind.isSpace then [] else [cut.token]
    ∃ (r' : Reader) (d' : Draft), r.gather d = r'.gather d' ∧
      r'.cursor = cut.token.span.stop ∧
      r'.Inside options script (before ++ words) (cut.rest ++ behind) ∧
      d'.Records options script (before ++ words) := by
  intro cut words
  have hUnread := h.unread
  -- the lexeme is cut as if the piece were all there is
  have hCut : cutLexeme r.cursor c (cs ++ behind) = { cut with rest := cut.rest ++ behind } :=
    cutLexeme_of_ends hEnds r.cursor c cs
  have hToken : (cutLexeme r.cursor c (cs ++ behind)).token = cut.token := by rw [hCut]
  -- behind the lexeme, whatever has become of it
  have hStands {seen : List Token}
      (hLast : (r.take (cutLexeme r.cursor c (cs ++ behind))).2.last =
        (neighbour? seen).map (·.kind)) :
      (r.take (cutLexeme r.cursor c (cs ++ behind))).2.Inside options script seen
        (cut.rest ++ behind) := by
    refine ⟨(take_options ..).trans h.options, h.located.take hUnread, hLast, ?_⟩
    rw [take_unread, hCut]
  have hOffset := take_cursor r (cutLexeme r.cursor c (cs ++ behind))
  rw [hToken] at hOffset
  cases hSpace : cut.token.kind.isSpace with
  | true =>
    obtain ⟨hNothing, hLast⟩ :=
      take_space (r := r) ((congrArg (·.kind.isSpace) hToken).trans hSpace)
    have hWords : before ++ words = before := by
      rw [show words = [] from if_pos hSpace, List.append_nil]
    rw [hWords]
    exact ⟨_, d, gather_of_space hUnread (Prod.ext hNothing rfl), hOffset,
      hStands (hLast.trans h.last), hd⟩
  | false =>
    -- a terminator would be a character of the piece
    have hStop : cut.token.kind ≠ .operator .semicolon := classify_ne_semicolon hc cs
    have hWords : words = [cut.token] := if_neg (by rw [hSpace]; decide)
    rw [← hToken] at hSpace hStop
    obtain ⟨hAnswer, hLast⟩ := take_word hSpace hStop h.options h.last
    rw [hToken] at hAnswer hLast
    rw [hWords]
    cases hJudged : fault? options before cut.token with
    | none =>
      rw [hJudged] at hAnswer
      exact ⟨_, _, gather_of_token hUnread (Prod.ext hAnswer rfl), hOffset, hStands hLast,
        hd.add hJudged⟩
    | some cause =>
      rw [hJudged] at hAnswer
      -- the reader tells the row and column at which it stands
      have hPlace : r.refusal (cutLexeme r.cursor c (cs ++ behind)) cause =
          refusalAt options script (cut.token, cause) 1 := by
        unfold refusal refusalAt
        rw [hToken, h.located.position_eq, h.options]
        rfl
      replace hAnswer := hAnswer.trans (congrArg (fun e => some (Except.error e)) hPlace)
      exact ⟨_, _, gather_of_fault hUnread (Prod.ext hAnswer rfl), hOffset, hStands hLast,
        hd.refuse hJudged⟩

/-- **Reading the rest of a piece**, a reader adds the sound tokens to its draft and notes the
faults. -/
theorem exists_gather {d : Draft} (hEnds : Ends behind) (hClean : ';' ∉ cs)
    (h : r.Inside options script before (cs ++ behind)) (hd : d.Records options script before) :
    ∃ (r' : Reader) (d' : Draft), r.gather d = r'.gather d' ∧
      r'.cursor = r.cursor + byteLength cs ∧
      r'.Inside options script (before ++ wordsFrom r.cursor cs) behind ∧
      d'.Records options script (before ++ wordsFrom r.cursor cs) := by
  generalize hOffset : r.cursor = offset
  fun_induction tokensFrom offset cs generalizing r d before with
  | case1 offset =>
    refine ⟨r, d, rfl, by rw [hOffset]; rfl, ?_, ?_⟩
    · simpa [wordsFrom, tokensFrom] using h
    · simpa [wordsFrom, tokensFrom] using hd
  | case2 offset c cs cut =>
    rename_i ih
    obtain ⟨hFirst, -⟩ := not_or.1 (List.mem_cons.not.1 hClean)
    subst hOffset
    -- one lexeme, and then the rest of the piece
    obtain ⟨r', d', hGather, hCursor, hInside, hRecords⟩ :=
      exists_gather_lexeme hEnds (Ne.symm hFirst) h hd
    have hSplit : cut.text ++ cut.rest = c :: cs := cutLexeme_append r.cursor c cs
    have hCleanRest : ';' ∉ cut.rest := fun hMem => hClean (by
      rw [← hSplit]
      exact List.mem_append_right _ hMem)
    obtain ⟨r'', d'', hGather', hCursor', hInside', hRecords'⟩ :=
      ih hCleanRest hInside hRecords hCursor
    refine ⟨r'', d'', hGather.trans hGather', ?_, ?_, ?_⟩
    · rw [hCursor', ← hSplit, byteLength_append, ← Nat.add_assoc]
      rfl
    · rw [wordsFrom_cons, ← List.append_assoc]
      exact hInside'
    · rw [wordsFrom_cons, ← List.append_assoc]
      exact hRecords'

end Reader

/-! ## One piece after the other -/

/-- A piece has no words exactly when it is white. -/
theorem wordsFrom_eq_nil_iff {cs : List Char} (hClean : ';' ∉ cs) (offset : Nat) :
    wordsFrom offset cs = [] ↔ cs.all isWhite := by
  have hKinds : ∀ t ∈ tokensFrom offset cs, t.kind ≠ .operator .semicolon := by
    fun_induction tokensFrom offset cs with
    | case1 => simp
    | case2 offset c cs cut =>
      rename_i ih
      obtain ⟨hFirst, -⟩ := not_or.1 (List.mem_cons.not.1 hClean)
      have hSplit : cut.text ++ cut.rest = c :: cs := cutLexeme_append offset c cs
      refine List.forall_mem_cons.2 ⟨classify_ne_semicolon (Ne.symm hFirst) cs, ih fun hMem => ?_⟩
      exact hClean (hSplit ▸ List.mem_append_right _ hMem)
  have hSpaces : wordsFrom offset cs = [] ↔ ∀ t ∈ tokensFrom offset cs, t.kind.isIdle := by
    unfold wordsFrom
    rw [List.filter_eq_nil_iff]
    refine forall₂_congr fun t ht => ?_
    -- a token that is no terminator is idle if it is white space
    have hKind := hKinds t ht
    generalize t.kind = kind at hKind
    cases kind with
    | operator op => cases op <;> simp_all [TokenKind.isSpace, TokenKind.isIdle]
    | _ => simp [TokenKind.isSpace, TokenKind.isIdle]
  have hChars : cs.all isIdleChar = cs.all isWhite := by
    rw [Bool.eq_iff_iff, List.all_eq_true, List.all_eq_true]
    refine forall₂_congr fun d hd => ?_
    have hOther : d ≠ ';' := fun hEq => hClean (hEq ▸ hd)
    simp [isIdleChar, isWhite, hOther]
  rw [hSpaces, tokensFrom_isIdle_iff, hChars]

namespace Reader

variable {r : Reader} {options : ReaderOptions} {script : String} {cs : List Char}
  {css : List (List Char)}

/-- The reader has these pieces to read, and nothing is left of the statement before. -/
structure Before (r : Reader) (options : ReaderOptions) (script : String)
    (css : List (List Char)) : Prop where
  options : r.options = options
  located : r.Located script
  last : css ≠ [] → r.last = none
  unread : r.unread = [';'].intercalate css
  clean : ∀ cs ∈ css, ';' ∉ cs

/-- **A reader reads one piece**, and has the others before it. -/
theorem Before.statement (h : r.Before options script (cs :: css)) :
    r.statement.1 = (Piece.mk r.cursor cs).reading options script css.isEmpty ∧
      r.statement.2.Before options script css ∧
      (css ≠ [] → r.statement.2.cursor = r.cursor + byteLength cs + 1) := by
  obtain ⟨hClean, hCleanRest⟩ := List.forall_mem_cons.1 h.clean
  -- what the draft comes to at the end of the piece
  have hReading {d : Draft} (hd : d.Records options script ([] ++ wordsFrom r.cursor cs)) :
      d.finish (!css.isEmpty) = (Piece.mk r.cursor cs).reading options script css.isEmpty := by
    rw [hd.finish, Piece.reading, Piece.tokens_eq, Bool.not_not, List.nil_append]
    have hWhite : (wordsFrom r.cursor cs).isEmpty = cs.all isWhite := by
      rw [Bool.eq_iff_iff, List.isEmpty_iff, wordsFrom_eq_nil_iff hClean]
    rw [hWhite]
  have hStart : r.last = (neighbour? []).map (·.kind) := h.last (List.cons_ne_nil _ _)
  unfold Reader.statement
  cases css with
  | nil =>
    -- the piece is all that is left
    have hEnds : Ends [] := .inl rfl
    obtain ⟨r', d', hGather, -, hInside, hd⟩ := exists_gather hEnds hClean
      ⟨h.options, h.located, hStart, by rw [h.unread]; simp⟩ Draft.records_nil
    rw [hGather, gather_of_nil hInside.unread]
    exact ⟨hReading hd, ⟨hInside.options, hInside.located, absurd rfl, hInside.unread, hCleanRest⟩,
      absurd rfl⟩
  | cons next more =>
    -- behind the piece stands a terminator, and then the others
    have hUnread : r.unread = cs ++ ';' :: [';'].intercalate (next :: more) := by
      rw [h.unread, List.intercalate_cons_cons, List.append_assoc]
      rfl
    obtain ⟨r', d', hGather, hCursor, hInside, hd⟩ := exists_gather (.inr ⟨_, rfl⟩) hClean
      ⟨h.options, h.located, hStart, hUnread⟩ Draft.records_nil
    -- the terminator is a lexeme of its own
    let cut := cutLexeme r'.cursor ';' ([';'].intercalate (next :: more))
    have hStop : r'.gather d' = (d'.finish true, (r'.take cut).2) :=
      gather_of_stop hInside.unread rfl
    rw [hGather, hStop]
    refine ⟨hReading hd, ⟨?_, ?_, fun _ => rfl, take_unread .., hCleanRest⟩, fun _ => ?_⟩
    · exact (take_options ..).trans hInside.options
    · exact hInside.located.take hInside.unread
    · show (r'.take cut).2.cursor = _
      rw [take_cursor, ← hCursor]
      rfl

/-- Behind the last piece there is nothing. -/
theorem Before.statement_of_nil (h : r.Before options script []) :
    r.statement = (.ok none, r) := by
  unfold Reader.statement
  rw [gather_of_nil h.unread]
  rfl

/-- A reader that is made anew has the same pieces before it. -/
theorem Before.resume (h : r.Before options script css) :
    (Reader.resume script r.cursor r.position options).Before options script css := by
  have hSame := h.located.resume
  rw [h.options] at hSame
  refine ⟨rfl, hSame, fun _ => rfl, ?_, h.clean⟩
  obtain ⟨pre, hScript, hBytes, -⟩ := h.located
  show charsFrom script r.cursor = _
  rw [← hBytes, charsFrom_of_toList hScript, h.unread]

/-! ## All pieces of a script -/

theorem isEmpty_locate (start : Nat) (css : List (List Char)) :
    (locate start css).isEmpty = css.isEmpty := by
  cases css <;> rfl

/-- Whatever is done to the reader before a statement, as long as it has the same pieces before it,
it gives what becomes of them. -/
theorem Before.statement_iterate (again : Reader → Reader)
    (hAgain : ∀ {r : Reader} {css : List (List Char)}, r.Before options script css →
      (again r).Before options script css ∧ (again r).cursor = r.cursor)
    (h : r.Before options script css) (n : Nat) :
    (again ((fun r => (again r).statement.2)^[n] r)).statement.1 =
      (readings options script (locate r.cursor css))[n]?.getD (.ok none) := by
  -- the answers are told by the pieces, so what was done to the reader in between does not show
  induction n generalizing r css with
  | zero =>
    obtain ⟨hBefore, hCursor⟩ := hAgain h
    show (again r).statement.1 = _
    cases css with
    | nil => rw [hBefore.statement_of_nil]; rfl
    | cons cs css => rw [hBefore.statement.1, hCursor, locate, readings, isEmpty_locate]; rfl
  | succ n ih =>
    obtain ⟨hBefore, hCursor⟩ := hAgain h
    rw [Function.iterate_succ_apply]
    cases css with
    | nil =>
      -- at the end a reader stays where it is
      have hNext : (again r).statement.2.Before options script [] := by
        rwa [hBefore.statement_of_nil]
      exact ih hNext
    | cons cs css =>
      obtain ⟨-, hNext, hOffset⟩ := hBefore.statement
      rw [ih hNext, locate, readings, List.getElem?_cons_succ]
      cases css with
      | nil => rfl
      | cons next more => rw [hOffset (List.cons_ne_nil _ _), hCursor]

/-- Only the last piece can be no statement at all. -/
theorem eq_nil_of_reading {p : Piece}
    (h : p.reading options script css.isEmpty = .ok none) : css = [] := by
  unfold Piece.reading at h
  split at h
  · cases h
  · split at h
    · rename_i hLast
      rw [Bool.and_eq_true] at hLast
      exact List.isEmpty_iff.1 hLast.1
    · cases h

/-- Reading a statement takes its work off. -/
theorem Before.workFrom_statement (h : r.Before options script (cs :: css)) :
    workFrom options script r.cursor (cs :: css) =
      (work? r.statement.1).toList ++ workFrom options script r.statement.2.cursor css := by
  obtain ⟨hAnswer, -, hOffset⟩ := h.statement
  -- the next piece begins behind the terminator; where none would begin does not matter
  have hRest : workFrom options script r.statement.2.cursor css =
      workFrom options script (r.cursor + byteLength cs + 1) css := by
    cases css with
    | nil => rfl
    | cons next more => rw [hOffset (List.cons_ne_nil _ _)]
  show (_ :: _).filterMap work? = _
  rw [isEmpty_locate, ← hAnswer, hRest, List.filterMap_cons]
  cases work? r.statement.1 <;> rfl

/-- Looking for the next statement that is not empty, a reader gives the first answer that makes any
work. -/
theorem Before.nextStatement (h : r.Before options script css) :
    (r.nextStatement.1 = match (workFrom options script r.cursor css).head? with
      | some answer => answer.map some
      | none => .ok none) ∧
      ∃ css', r.nextStatement.2.Before options script css' ∧
        workFrom options script r.nextStatement.2.cursor css' =
          (workFrom options script r.cursor css).tail := by
  fun_induction Reader.nextStatement r generalizing css with
  | case1 r r' hEmpty ih =>
    cases css with
    | nil =>
      rw [h.statement_of_nil] at hEmpty
      cases hEmpty
    | cons cs css =>
      -- the empty statement makes no work
      obtain ⟨-, hNext, -⟩ := h.statement
      have hWork := h.workFrom_statement
      rw [hEmpty] at hNext hWork
      rw [hWork]
      exact ih hNext
  | case2 r hSome =>
    cases css with
    | nil =>
      rw [h.statement_of_nil]
      exact ⟨rfl, [], h, rfl⟩
    | cons cs css =>
      obtain ⟨hAnswer, hNext, -⟩ := h.statement
      rw [h.workFrom_statement]
      -- this answer is the first work, unless the script ends here
      cases hEq : r.statement.1 with
      | error e => exact ⟨rfl, css, hNext, rfl⟩
      | ok statement? =>
        cases statement? with
        | some tokens =>
          cases tokens with
          | nil => exact (hSome _ (Prod.ext hEq rfl)).elim
          | cons t ts => exact ⟨rfl, css, hNext, rfl⟩
        | none =>
          -- behind it there is nothing
          rw [hAnswer] at hEq
          obtain rfl := eq_nil_of_reading hEq
          exact ⟨rfl, [], hNext, rfl⟩

end Reader

/-! ## Pieces of a script -/

theorem not_mem_of_mem_splitOn {a : Char} {cs ds : List Char} (h : ds ∈ cs.splitOn a) :
    a ∉ ds := by
  induction cs generalizing ds with
  | nil =>
    rw [List.splitOn_nil, List.mem_singleton] at h
    simp [h]
  | cons c cs ih =>
    rw [List.splitOn_cons_eq_if_modifyHead] at h
    split at h
    · rcases List.mem_cons.1 h with rfl | hRest
      · simp
      · exact ih hRest
    · -- the character belongs to the first stretch
      rename_i hOther
      cases hParts : cs.splitOn a with
      | nil => exact absurd hParts (List.splitOn_ne_nil _ _)
      | cons part parts =>
        rw [hParts] at h ih
        rcases List.mem_cons.1 h with rfl | hRest
        · have hPart := ih (List.mem_cons_self ..)
          rw [List.mem_cons, not_or]
          exact ⟨fun hEq => hOther (by rw [hEq]; exact beq_self_eq_true c), hPart⟩
        · exact ih (List.mem_cons_of_mem _ hRest)

theorem length_splitOn (a : Char) (cs : List Char) :
    (cs.splitOn a).length = cs.count a + 1 := by
  induction cs with
  | nil => simp
  | cons c cs ih =>
    rw [List.splitOn_cons_eq_if_modifyHead, List.count_cons]
    split
    · simp_all
    · simp_all

theorem length_readings (options : ReaderOptions) (script : String) :
    (readings options script (pieces script)).length = script.toList.count ';' + 1 := by
  have hReadings (ps : List Piece) : (readings options script ps).length = ps.length := by
    induction ps with
    | nil => rfl
    | cons p ps ih => rw [readings, List.length_cons, List.length_cons, ih]
  -- as many answers as pieces, and one piece more than terminators
  have hLocate (css : List (List Char)) (start : Nat) : (locate start css).length = css.length := by
    induction css generalizing start with
    | nil => rfl
    | cons cs css ih => rw [locate, List.length_cons, List.length_cons, ih]
  rw [hReadings, pieces, hLocate, length_splitOn]

namespace Reader

/-- A new reader has all pieces of its script before it. -/
theorem before_new (options : ReaderOptions) (script : String) :
    (Reader.new script options).Before options script (script.toList.splitOn ';') := by
  refine ⟨rfl, located_new script options, fun _ => rfl, ?_, fun cs => not_mem_of_mem_splitOn⟩
  rw [List.intercalate_splitOn]
  exact charsFrom_zero script

end Reader

/-! ## Sessions -/

namespace Session

variable {c : Session} {work : List (Except Failure (List Token))}

/-- The session has this work to do before its script comes to an end. -/
def Faces (c : Session) (work : List (Except Failure (List Token))) : Prop :=
  ∃ css, c.reader.Before c.options c.script css ∧
    work = workFrom c.options c.script c.reader.cursor css

/-- What a session says when it has read some work. -/
def answerOf : Option (Except Failure (List Token)) → Except Failure Bool
  | some (.error e) => .error e
  | some (.ok _) => .ok true
  | none => .ok false

/-- The tokens that a session has at hand when it has read some work. -/
def tokensOf : Option (Except Failure (List Token)) → List Token
  | some (.ok tokens) => tokens
  | _ => []

/-- A session that was complete has the work that its new script makes. -/
theorem faces_load (hComplete : c.complete = true) (script : String) :
    (c.load script).Faces (workOf c.options script) := by
  have hLoad : c.load script = { c with script, cursor := 0, position := .start } :=
    if_pos hComplete
  rw [hLoad]
  exact ⟨_, Reader.before_new c.options script, rfl⟩

/-- **Reading takes the first work off.** -/
theorem Faces.forward (h : c.Faces work) :
    c.forward.1 = answerOf work.head? ∧ c.forward.2.tokens = tokensOf work.head? ∧
      c.forward.2.Faces work.tail := by
  obtain ⟨css, hBefore, rfl⟩ := h
  obtain ⟨hAnswer, css', hNext, hRest⟩ := hBefore.nextStatement
  -- the session goes on where its reader has stopped
  have hReader : c.forward.2.reader = .resume c.script c.reader.nextStatement.2.cursor
      c.reader.nextStatement.2.position c.options := by
    unfold Session.forward
    dsimp only
    split <;> rfl
  have hSays : c.forward.1 = c.reader.nextStatement.1.map Option.isSome ∧
      c.forward.2.tokens = c.reader.nextStatement.1.toOption.join.getD [] := by
    unfold Session.forward
    dsimp only
    generalize c.reader.nextStatement = answer
    obtain ⟨_ | _ | tokens, r⟩ := answer <;> exact ⟨rfl, rfl⟩
  obtain ⟨hForward, hTokens⟩ := hSays
  rw [hAnswer] at hForward hTokens
  generalize workFrom c.options c.script c.reader.cursor css = work at hForward hTokens hRest
  refine ⟨hForward.trans ?_, hTokens.trans ?_, css', ?_, ?_⟩
  · rcases work.head? with _ | _ | tokens <;> rfl
  · rcases work.head? with _ | _ | tokens <;> rfl
  · rw [hReader, c.forward_unchanged.1, forward_options]
    exact hNext.resume
  · rw [hReader, c.forward_unchanged.1, forward_options]
    exact hRest.symm

/-- Reading on, a session does its work in order. -/
theorem Faces.forward_iterate (h : c.Faces work) (n : Nat) :
    ((fun d => d.forward.2)^[n] c).forward.1 = answerOf work[n]? ∧
      ((fun d => d.forward.2)^[n] c).forward.2.tokens = tokensOf work[n]? := by
  induction n generalizing c work with
  | zero =>
    obtain ⟨hAnswer, hTokens, -⟩ := h.forward
    rw [← List.head?_eq_getElem?]
    exact ⟨hAnswer, hTokens⟩
  | succ n ih =>
    obtain ⟨-, -, hNext⟩ := h.forward
    rw [Function.iterate_succ_apply, ← List.getElem?_tail]
    exact ih hNext

end Session

namespace Reader

/-- **Statements are read as their pieces say.** The answers of a reader are the readings of the
pieces between the terminators of its script, one after the other, and behind them there is nothing.
A reader that is made anew before every statement gives the same answers. A session that loads the
script gives them as well, and passes over the empty statements. -/
theorem statement_eq_reading (options : ReaderOptions) (script : String) (n : Nat) :
    let answers := readings options script (pieces script)
    let anew := fun r : Reader => Reader.resume script r.cursor r.position options
    answers.length = script.toList.count ';' + 1 ∧
    ((fun r => r.statement.2)^[n] (Reader.new script options)).statement.1 =
      answers[n]?.getD (.ok none) ∧
    (anew ((fun r => (anew r).statement.2)^[n] (Reader.new script options))).statement.1 =
      answers[n]?.getD (.ok none) ∧
    ∀ c : Session, c.complete = true → c.options = options →
      let work := answers.filterMap work?
      let d := (fun d => d.forward.2)^[n] (c.load script)
      d.forward.1 = Session.answerOf work[n]? ∧ d.forward.2.tokens = Session.tokensOf work[n]? := by
  intro answers anew
  have hNew := before_new options script
  refine ⟨length_readings options script, ?_, ?_, ?_⟩
  · exact hNew.statement_iterate id (fun h => ⟨h, rfl⟩) n
  · exact hNew.statement_iterate anew (fun h => ⟨h.resume, rfl⟩) n
  · rintro c hComplete rfl
    exact (Session.faces_load hComplete script).forward_iterate n

/-- A statement with three faults, an empty one and a sound one. -/
def mixed : String := "1 2 $ 0x;; {+1, *a} * -b; "

/-- The second answer that a session gets is the sound statement. The `+` behind an opener, the `*`
behind a comma and the `-` behind an operator belong to the operand, and the `*` behind a closer
does not. -/
theorem forward_mixed :
    (Session.bare {} (.seeded 0)).complete = true ∧ (Session.bare {} (.seeded 0)).options = {} ∧
      (((Session.bare {} (.seeded 0)).load mixed).forward.1 = .error
        ⟨SyntaxFault.expectSeparator, some ⟨2, 3⟩, some ⟨1, 3⟩, 3⟩) ∧
      ((Session.bare {} (.seeded 0)).load mixed).forward.2.forward.2.tokens =
        [⟨.operator (.opener .array), ⟨11, 12⟩⟩, ⟨.operator .plus, ⟨12, 13⟩⟩,
          ⟨.number (some .decimal), ⟨13, 14⟩⟩, ⟨.operator .comma, ⟨14, 15⟩⟩,
          ⟨.operator .spread, ⟨16, 17⟩⟩, ⟨.identifier, ⟨17, 18⟩⟩,
          ⟨.operator (.closer .array), ⟨18, 19⟩⟩, ⟨.operator .mul, ⟨20, 21⟩⟩,
          ⟨.operator .minus, ⟨22, 23⟩⟩, ⟨.identifier, ⟨23, 24⟩⟩] := by
  have hComplete : (Session.bare {} (.seeded 0)).complete = true := by decide +kernel
  obtain ⟨hRefused, -⟩ := (statement_eq_reading {} mixed 0).2.2.2 _ hComplete rfl
  obtain ⟨-, hTokens⟩ := (statement_eq_reading {} mixed 1).2.2.2 _ hComplete rfl
  refine ⟨hComplete, rfl, hRefused.trans ?_, hTokens.trans ?_⟩
  · decide +kernel
  · decide +kernel

end Reader

end Reckon
