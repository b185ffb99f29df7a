import Reckon.Source
import Mathlib.Tactic

/-!
# What spans select

A span selects the characters that lie between its ends, if both ends lie between characters of the
script (`Span.Covers`); otherwise it selects nothing. So a span selects the same text in two scripts
if it covers the same characters in both. Text that is put behind a script is out of reach for the
spans inside it (`Span.text_append`), and text that is put in front of it moves them
(`Span.text_shift`).
-/

namespace Reckon

/-! ## Offsets -/

theorem utf8ByteSize_eq (s : String) : s.utf8ByteSize = byteLength s.toList := by
  rw [← utf8ByteSize_ofList, String.ofList_toList]

/-- Every character takes at least a byte. -/
theorem length_le_byteLength (cs : List Char) : cs.length ≤ byteLength cs := by
  induction cs with
  | nil => exact Nat.le_refl 0
  | cons c cs ih =>
    have hPos := c.utf8Size_pos
    rw [List.length_cons, byteLength_cons]
    omega

theorem eq_nil_of_byteLength {cs : List Char} (h : byteLength cs = 0) : cs = [] := by
  have hLength := length_le_byteLength cs
  exact List.eq_nil_of_length_eq_zero (by omega)

/-- Of two beginnings of a text, the one with fewer bytes is a beginning of the other one. -/
theorem exists_eq_append_of_byteLength_le {pre post pre' post' : List Char}
    (h : pre ++ post = pre' ++ post') (hLe : byteLength pre ≤ byteLength pre') :
    ∃ mid, pre' = pre ++ mid ∧ post = mid ++ post' := by
  rcases List.append_eq_append_iff.1 h with ⟨mid, hPre, hPost⟩ | ⟨mid, hPre, hPost⟩
  · exact ⟨mid, hPre, hPost⟩
  · -- there is no room for more characters
    have hNil : mid = [] := by
      apply eq_nil_of_byteLength
      rw [hPre, byteLength_append] at hLe
      omega
    subst hNil
    rw [List.append_nil] at hPre
    exact ⟨[], by rw [hPre, List.append_nil], by rw [hPost, List.nil_append, List.nil_append]⟩

/-- The characters from an offset on, as a part of the script. -/
theorem charsFrom?_eq_some_iff_toList {script : String} {k : Nat} {cs : List Char} :
    charsFrom? script k = some cs ↔ ∃ pre, script.toList = pre ++ cs ∧ byteLength pre = k := by
  rw [charsFrom?_eq_some_iff]
  constructor
  · rintro ⟨t, rfl, rfl⟩
    exact ⟨t.toList, by rw [String.toList_append, String.toList_ofList],
      (utf8ByteSize_eq t).symm⟩
  · rintro ⟨pre, hScript, rfl⟩
    refine ⟨String.ofList pre, ?_, utf8ByteSize_ofList pre⟩
    rw [← String.ofList_append, ← hScript, String.ofList_toList]

/-- Behind a part of the script come the other characters. -/
theorem charsFrom_of_toList {script : String} {pre cs : List Char}
    (h : script.toList = pre ++ cs) : charsFrom script (byteLength pre) = cs := by
  have hSome : charsFrom? script (byteLength pre) = some cs :=
    charsFrom?_eq_some_iff_toList.2 ⟨pre, h, rfl⟩
  unfold charsFrom
  rw [hSome]
  rfl

/-- From the first offset on there is all of the script. -/
theorem charsFrom_zero (script : String) : charsFrom script 0 = script.toList := by
  have hAll : script.toList = [] ++ script.toList := rfl
  exact charsFrom_of_toList hAll

/-- An offset is a boundary of the script if characters begin or end there. -/
theorem isSome_pos?_iff {script : String} {k : Nat} :
    (script.pos? ⟨k⟩).isSome ↔ ∃ cs, charsFrom? script k = some cs := by
  unfold charsFrom?
  rw [Option.isSome_iff_exists]
  constructor
  · rintro ⟨p, hp⟩
    exact ⟨_, by rw [hp]; rfl⟩
  · rintro ⟨cs, hcs⟩
    obtain ⟨p, hp, -⟩ := Option.map_eq_some_iff.1 hcs
    exact ⟨p, hp⟩

/-! ## Spans -/

namespace Span

/-- The span moved on by so many bytes. -/
def shift (s : Span) (n : Nat) : Span := ⟨s.start + n, s.stop + n⟩

/-- The span begins and ends between characters of the script, with these characters in between. -/
def Covers (s : Span) (script : String) (cs : List Char) : Prop :=
  ∃ pre post, script.toList = pre ++ (cs ++ post) ∧ byteLength pre = s.start ∧
    s.start + byteLength cs = s.stop

variable {s : Span} {script : String} {cs : List Char}

/-- A span selects the characters that it covers. -/
theorem Covers.text (h : s.Covers script cs) : s.text script = String.ofList cs := by
  obtain ⟨pre, post, hScript, hStart, hStop⟩ := h
  obtain rfl : script = String.ofList pre ++ (String.ofList cs ++ String.ofList post) := by
    rw [← String.ofList_append, ← String.ofList_append, ← hScript, String.ofList_toList]
  obtain ⟨b, hb, -⟩ := exists_splits (String.ofList pre) (String.ofList cs ++ String.ofList post)
  have hEnd := exists_splits (String.ofList pre ++ String.ofList cs) (String.ofList post)
  rw [String.append_assoc, String.utf8ByteSize_append, utf8ByteSize_ofList, utf8ByteSize_ofList,
    hStart, hStop] at hEnd
  rw [utf8ByteSize_ofList, hStart] at hb
  obtain ⟨e, he, -⟩ := hEnd
  have hBegins := pos?_eq_some_iff.1 hb
  have hEnds := pos?_eq_some_iff.1 he
  have hLe : b ≤ e := by
    rw [String.Pos.le_iff, String.Pos.Raw.le_iff, hBegins, hEnds]
    omega
  unfold Span.text
  rw [hb, he]
  dsimp only
  rw [if_pos hLe]
  apply String.toByteArray_inj.1
  -- the bytes in front are left out, and so are those behind
  have hFront : s.start = (String.ofList pre).toByteArray.size := by
    rw [← hStart, ← utf8ByteSize_ofList]
    rfl
  have hBytes : byteLength cs = (String.ofList cs).toByteArray.size := (utf8ByteSize_ofList cs).symm
  rw [String.toByteArray_extract, hBegins, hEnds, String.toByteArray_append,
    String.toByteArray_append, ← hStop]
  exact (ByteArray.extract_append_size_add' hFront (i := 0)).trans
    (ByteArray.extract_append_eq_left hBytes)

/-- A span that covers no characters, not even none, selects nothing. -/
theorem text_of_not_covers (h : ∀ cs, ¬ s.Covers script cs) : s.text script = "" := by
  unfold Span.text
  split
  · rename_i b e hb he
    split
    · rename_i hLe
      exfalso
      -- both ends are boundaries, so there are characters in between
      obtain ⟨cs, hFrom⟩ := isSome_pos?_iff.1 (Option.isSome_iff_exists.2 ⟨b, hb⟩)
      obtain ⟨ds, hBehind⟩ := isSome_pos?_iff.1 (Option.isSome_iff_exists.2 ⟨e, he⟩)
      obtain ⟨pre, hPre, hStart⟩ := charsFrom?_eq_some_iff_toList.1 hFrom
      obtain ⟨pre', hPre', hStop⟩ := charsFrom?_eq_some_iff_toList.1 hBehind
      rw [String.Pos.le_iff, String.Pos.Raw.le_iff, pos?_eq_some_iff.1 hb,
        pos?_eq_some_iff.1 he] at hLe
      obtain ⟨mid, hMid, hRest⟩ := exists_eq_append_of_byteLength_le (hPre.symm.trans hPre')
        (by omega)
      refine h mid ⟨pre, ds, by rw [hPre, hRest], hStart, ?_⟩
      rw [← hStop, ← hStart, hMid, byteLength_append]
    · rfl
  · rfl

/-- Spans that cover the same characters select the same text. -/
theorem text_congr {s' : Span} {script' : String}
    (h : ∀ cs, s.Covers script cs ↔ s'.Covers script' cs) : s.text script = s'.text script' := by
  by_cases hSome : ∃ cs, s.Covers script cs
  · obtain ⟨cs, hCovers⟩ := hSome
    rw [hCovers.text, ((h cs).1 hCovers).text]
  · have hNone := not_exists.1 hSome
    rw [text_of_not_covers hNone, text_of_not_covers fun cs hCovers => hNone cs ((h cs).2 hCovers)]

/-- Behind text of so many bytes a span selects what it has selected before. -/
theorem text_shift (s : Span) (front script : String) :
    (s.shift front.utf8ByteSize).text (front ++ script) = s.text script := by
  refine text_congr fun cs => ?_
  unfold Covers shift
  dsimp only
  rw [String.toList_append, utf8ByteSize_eq]
  constructor
  · rintro ⟨pre, post, hScript, hStart, hStop⟩
    -- the text in front is a beginning of what lies in front of the span
    obtain ⟨mid, rfl, hRest⟩ := exists_eq_append_of_byteLength_le hScript (by omega)
    rw [byteLength_append] at hStart
    exact ⟨mid, post, hRest, by omega, by omega⟩
  · rintro ⟨pre, post, hScript, hStart, hStop⟩
    refine ⟨front.toList ++ pre, post, ?_, ?_, by omega⟩
    · rw [hScript, List.append_assoc]
    · rw [byteLength_append]
      omega

/-- A span inside a script selects the same when text is put behind the script. -/
theorem text_append (hStop : s.stop ≤ script.utf8ByteSize) (more : String) :
    s.text (script ++ more) = s.text script := by
  rw [utf8ByteSize_eq] at hStop
  refine text_congr fun cs => ?_
  unfold Covers
  rw [String.toList_append]
  constructor
  · rintro ⟨pre, post, hScript, hStart, hEnd⟩
    rw [← List.append_assoc] at hScript
    -- what the span covers ends in the script
    obtain ⟨mid, hMid, -⟩ := exists_eq_append_of_byteLength_le hScript.symm (by
      rw [byteLength_append]
      omega)
    exact ⟨pre, mid, by rw [hMid, List.append_assoc], hStart, hEnd⟩
  · rintro ⟨pre, post, hScript, hStart, hEnd⟩
    exact ⟨pre, post ++ more.toList, by rw [hScript]; simp, hStart, hEnd⟩

/-- The span selects some of the script. -/
def Selects (s : Span) (script : String) : Prop := ∃ cs, cs ≠ [] ∧ s.Covers script cs

/-- What is selected is not empty. -/
theorem Selects.text_ne (h : s.Selects script) : s.text script ≠ "" := by
  obtain ⟨cs, hSome, hCovers⟩ := h
  rw [hCovers.text]
  intro hEmpty
  exact hSome (String.ofList_eq_empty_iff.1 hEmpty)

/-- A span that selects some of a script ends inside it. -/
theorem Selects.stop_le (h : s.Selects script) : s.stop ≤ script.utf8ByteSize := by
  obtain ⟨cs, -, pre, post, hScript, hStart, hStop⟩ := h
  rw [utf8ByteSize_eq, hScript, byteLength_append, byteLength_append]
  omega

/-- What a span selects stays where it is when text is put behind the script. -/
theorem Selects.append (h : s.Selects script) (more : String) : s.Selects (script ++ more) := by
  obtain ⟨cs, hSome, pre, post, hScript, hStart, hStop⟩ := h
  refine ⟨cs, hSome, pre, post ++ more.toList, ?_, hStart, hStop⟩
  rw [String.toList_append, hScript]
  simp

end Span

end Reckon
