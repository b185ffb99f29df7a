/-!
# Places in a script

A script is a `String`; every place in it is a byte offset into its UTF-8 form. `Span` is a range of
such offsets and `Position` the row and column a person counts. `Span.text` is the text a span
selects: a span that leaves the script, or that cuts a character in two, selects nothing.
-/

namespace Reckon

/-- A place as a person counts it: rows and columns start at 1. -/
structure Position where
  row : Nat
  col : Nat
  deriving DecidableEq, Repr, Inhabited

namespace Position

/-- Where every script begins. -/
def start : Position := ⟨1, 1⟩

/-- The place so many columns further on in the same row. -/
def right (p : Position) (n : Nat) : Position := { p with col := p.col + n }

/-- Row and column with a colon between them. -/
def text (p : Position) : String := toString p.row ++ ":" ++ toString p.col

end Position

/-- The bytes from offset `start` up to, but not including, offset `stop`. -/
structure Span where
  start : Nat
  stop : Nat
  deriving DecidableEq, Repr, Inhabited

namespace Span

/-- How many bytes the span covers. -/
def length (s : Span) : Nat := s.stop - s.start

/-- Whether the span covers no byte at all. -/
def isEmpty (s : Span) : Bool := s.start == s.stop

/-- The text a span selects. Nothing is selected when an end lies outside the script or inside a
character, or when the ends are crossed. -/
def text (s : Span) (script : String) : String :=
  match script.pos? ⟨s.start⟩, script.pos? ⟨s.stop⟩ with
  | some b, some e => if b ≤ e then String.extract b e else ""
  | _, _ => ""

end Span

/-- The characters of a text from a byte offset on; nothing when the offset lies outside the text or
inside a character. -/
def charsFrom? (text : String) (offset : Nat) : Option (List Char) :=
  (text.pos? ⟨offset⟩).map fun b => (String.extract b text.endPos).toList

/-- The characters of a script from a byte offset on, and no character at all from an offset that
is none of its boundaries. -/
def charsFrom (script : String) (offset : Nat) : List Char := (charsFrom? script offset).getD []

/-- The number of bytes that a run of characters takes in a script. -/
def byteLength (cs : List Char) : Nat := cs.foldr (fun c n => c.utf8Size + n) 0

@[simp] theorem byteLength_nil : byteLength [] = 0 := rfl

@[simp] theorem byteLength_cons (c : Char) (cs : List Char) :
    byteLength (c :: cs) = c.utf8Size + byteLength cs := rfl

@[simp] theorem byteLength_append (cs ds : List Char) :
    byteLength (cs ++ ds) = byteLength cs + byteLength ds := by
  induction cs with
  | nil => simp
  | cons c cs ih => rw [List.cons_append, byteLength_cons, byteLength_cons, ih, Nat.add_assoc]

/-! ## Offsets and the characters behind them -/

/-- A position of a text is found under its offset, and no other. -/
theorem pos?_eq_some_iff {s : String} {k : Nat} {p : s.Pos} :
    s.pos? ⟨k⟩ = some p ↔ p.offset.byteIdx = k := by
  unfold String.pos? String.Slice.pos?
  constructor
  · intro h
    split at h
    · simp at h
      subst h
      rfl
    · simp at h
  · rintro rfl
    have hv : String.Pos.Raw.isValidForSlice s.toSlice p.offset = true := by
      rw [String.Pos.Raw.isValidForSlice_eq_true_iff, String.Pos.Raw.isValidForSlice_toSlice_iff]
      exact p.isValid
    have hp : (⟨p.offset.byteIdx⟩ : String.Pos.Raw) = p.offset := rfl
    simp only [hp, hv, dif_pos, Option.map_some]
    rfl

/-- Between two texts put together there is a position. -/
theorem exists_splits (t u : String) :
    ∃ p : (t ++ u).Pos, (t ++ u).pos? ⟨t.utf8ByteSize⟩ = some p ∧ p.Splits t u := by
  have h := String.Pos.splits_append_rawEndPos (s := t) (t := u)
  refine ⟨_, pos?_eq_some_iff.2 ?_, h⟩
  rw [h.offset_eq_rawEndPos]
  rfl

/-- What lies between a position and the end of a text is the part behind the position. -/
theorem extract_endPos {s : String} {p : s.Pos} {t u : String} (h : p.Splits t u) :
    String.extract p s.endPos = u := by
  apply String.toByteArray_inj.1
  rw [String.toByteArray_extract, h.toByteArray_right_eq]
  rfl

/-- The characters from a byte offset on are those behind a beginning of that many bytes. -/
theorem charsFrom?_eq_some_iff {s : String} {k : Nat} {cs : List Char} :
    charsFrom? s k = some cs ↔ ∃ t : String, s = t ++ String.ofList cs ∧ t.utf8ByteSize = k := by
  unfold charsFrom?
  constructor
  · intro h
    obtain ⟨p, hp, hcs⟩ := Option.map_eq_some_iff.1 h
    have hs := p.splits
    rw [extract_endPos hs] at hcs
    refine ⟨(s.sliceTo p).copy, ?_, ?_⟩
    · rw [← hcs, String.ofList_toList]
      exact hs.eq_append
    · rw [← pos?_eq_some_iff.1 hp, hs.offset_eq_rawEndPos]
      rfl
  · rintro ⟨t, rfl, rfl⟩
    obtain ⟨p, hp, hs⟩ := exists_splits t (String.ofList cs)
    rw [hp, Option.map_some, extract_endPos hs, String.toList_ofList]

/-- A run of characters takes as many bytes as the text they make up. -/
theorem utf8ByteSize_ofList (cs : List Char) : (String.ofList cs).utf8ByteSize = byteLength cs := by
  induction cs with
  | nil => rfl
  | cons c cs ih =>
    rw [String.ofList_cons, String.utf8ByteSize_append, ih]
    simp

/-- Behind the characters at an offset come the rest. -/
theorem charsFrom_add {s : String} {k : Nat} {cs ds : List Char}
    (h : charsFrom s k = cs ++ ds) : charsFrom s (k + byteLength cs) = ds := by
  unfold charsFrom at h ⊢
  cases hk : charsFrom? s k with
  | none =>
    rw [hk] at h
    obtain ⟨rfl, rfl⟩ := List.append_eq_nil_iff.1 h.symm
    simp [hk]
  | some es =>
    rw [hk] at h
    simp only [Option.getD_some] at h
    subst h
    obtain ⟨t, rfl, rfl⟩ := charsFrom?_eq_some_iff.1 hk
    have : charsFrom? (t ++ String.ofList (cs ++ ds)) (t.utf8ByteSize + byteLength cs) = some ds :=
      charsFrom?_eq_some_iff.2 ⟨t ++ String.ofList cs, by
        rw [String.ofList_append, String.append_assoc], by
        rw [String.utf8ByteSize_append, utf8ByteSize_ofList]⟩
    rw [this]
    rfl

end Reckon
