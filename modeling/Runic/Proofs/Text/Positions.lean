import Runic.Proofs.Text.Slice

/-!
# Two ways to count a place

The place of an error is counted twice: as a line and a column for the headline, and in characters
from the beginning of the text for the excerpt.  The first walks over the characters in front of the
place and starts a column with every line, the second counts the offsets at which characters start.

* `Span.exists_front` — both count the same characters, those in front of the place.
* `Position.foldl_advance` — **what walking over some characters does to a line and a column.**
* `positions_agree` — the two ways to count agree, and places keep their order.
-/

namespace Runic

/-! ## The characters in front of a place -/

namespace Span

lemma charsWithin_of_le {cs : List Char} {bytes : Nat} (h : byteLength cs ≤ bytes) :
    charsWithin bytes cs = cs := by
  induction cs generalizing bytes with
  | nil => rw [charsWithin]
  | cons c cs ih =>
      rw [byteLength_cons] at h
      have hpos := c.utf8Size_pos
      obtain ⟨n, rfl⟩ : ∃ n, bytes = n + 1 := ⟨bytes - 1, by omega⟩
      rw [charsWithin, ih (by omega)]

/-- If the characters `before` end at the offset `bytes`, then exactly they start before it:
`charOffsets` has as many entries below `bytes`. -/
lemma length_takeWhile_charOffsets (before after : List Char) {offset bytes : Nat}
    (hle : offset + byteLength before ≤ bytes)
    (hend : bytes ≤ offset + byteLength before ∨ after = []) :
    ((charOffsets offset (before ++ after)).takeWhile (· < bytes)).length = before.length := by
  induction before generalizing offset with
  | nil =>
      rcases hend with hend | rfl
      · cases after with
        | nil => rfl
        | cons c after =>
            rw [List.nil_append, charOffsets, List.takeWhile_cons_of_neg (by simpa using hend)]
            rfl
      · rfl
  | cons c before ih =>
      have hpos := c.utf8Size_pos
      rw [byteLength_cons, ← Nat.add_assoc] at hle hend
      have hstarts : offset < bytes := by omega
      simp [charOffsets, hstarts, ih hle hend]

/-- If a span starts at a boundary or behind the end, there are characters `before` that end there,
and both `Span.position` and `Span.charIndex` count over them. -/
lemma exists_front {source : String} {span : Span}
    (h : IsBoundary source (min span.start source.utf8ByteSize)) :
    ∃ before after, source.toList = before ++ after ∧
      byteLength before = min span.start source.utf8ByteSize ∧
      span.position source = .after before ∧ charIndex source span.start = before.length := by
  obtain ⟨before, after, hsource, hbytes⟩ := isBoundary_iff.1 h
  have hsize := byteLength_toList source
  rw [hsource, byteLength_append] at hsize
  have hle : byteLength before ≤ span.start := by omega
  -- A place that is not right behind the front is behind the end of the text.
  have hend : span.start ≤ byteLength before ∨ after = [] := by
    by_contra hboth
    have := byteLength_pos (not_or.1 hboth).2
    omega
  refine ⟨before, after, hsource, hbytes, ?_, ?_⟩
  · rw [position, hsource]
    rcases hend with hend | rfl
    · rw [Nat.le_antisymm hend hle, charsWithin_append]
    · rw [List.append_nil, charsWithin_of_le hle]
  · rw [charIndex, hsource]
    exact length_takeWhile_charOffsets before after (by rwa [Nat.zero_add]) (by rwa [Nat.zero_add])

end Span

/-! ## Lines -/

/-- The lines of `cs`, without the newlines that end them. -/
def textLines (cs : List Char) : List (List Char) := cs.splitOn '\n'

lemma textLines_newline (cs : List Char) : textLines ('\n' :: cs) = [] :: textLines cs := by
  simp [textLines, List.splitOn_cons_eq_if_modifyHead]

lemma textLines_cons {c : Char} (h : c ≠ '\n') (cs : List Char) :
    ∃ line lines, textLines cs = line :: lines ∧ textLines (c :: cs) = (c :: line) :: lines := by
  obtain ⟨line, lines, hlines⟩ := List.exists_cons_of_ne_nil (List.splitOn_ne_nil '\n' cs)
  refine ⟨line, lines, hlines, ?_⟩
  simp [textLines, List.splitOn_cons_eq_if_modifyHead, h, hlines]

/-- The number of characters in `lines`, with the newline that ends each of them. -/
def lengthOfLines (lines : List (List Char)) : Nat :=
  lines.foldr (fun line length => line.length + 1 + length) 0

lemma lengthOfLines_nil : lengthOfLines [] = 0 := rfl

lemma lengthOfLines_cons (line : List Char) (lines : List (List Char)) :
    lengthOfLines (line :: lines) = line.length + 1 + lengthOfLines lines := rfl

namespace Position

/-- The position `p` is in a line above `q`, or further left in the same line. -/
def Precedes (p q : Position) : Prop :=
  p.line < q.line ∨ p.line = q.line ∧ p.column < q.column

/-- **Advancing from `p` over the characters `before`** stays in the line and moves the column by
their number, or goes down by some lines.  In the second case the lines that end on the way have all
of the characters but those in front of the new column. -/
lemma foldl_advance (p : Position) (before after : List Char) :
    ∃ down, (before.foldl advance p).line = p.line + down ∧
      down < (textLines (before ++ after)).length ∧
      (down = 0 ∧ (before.foldl advance p).column = p.column + before.length ∨
        0 < down ∧ 0 < (before.foldl advance p).column ∧
          lengthOfLines ((textLines (before ++ after)).take down) +
            (before.foldl advance p).column = before.length + 1) := by
  induction before generalizing p with
  | nil =>
      have hlines : textLines ([] ++ after) ≠ [] := List.splitOn_ne_nil '\n' after
      exact ⟨0, rfl, List.length_pos_iff.2 hlines, .inl ⟨rfl, rfl⟩⟩
  | cons c before ih =>
      rw [List.foldl_cons, List.cons_append, List.length_cons]
      obtain ⟨down, hline, hdown, hcolumn⟩ := ih (p.advance c)
      by_cases hc : c = '\n'
      · subst hc
        have hdownwards : (p.advance '\n').line = p.line + 1 := rfl
        have hleft : (p.advance '\n').column = 1 := rfl
        rw [textLines_newline, List.length_cons]
        refine ⟨down + 1, by omega, by omega, .inr ⟨by omega, by omega, ?_⟩⟩
        rw [List.take_succ_cons, lengthOfLines_cons, List.length_nil]
        rcases hcolumn with ⟨rfl, hcolumn⟩ | ⟨-, -, hcolumn⟩
        · rw [hcolumn, List.take_zero, lengthOfLines_nil]
          omega
        · omega
      · obtain ⟨line, lines, hlines, hlines'⟩ := textLines_cons hc (before ++ after)
        have hnext : p.advance c = ⟨p.line, p.column + 1⟩ := if_neg hc
        have hsame : (p.advance c).line = p.line := by rw [hnext]
        have hright : (p.advance c).column = p.column + 1 := by rw [hnext]
        rw [hlines, List.length_cons] at hdown
        rw [hlines] at hcolumn
        rw [hlines', List.length_cons]
        refine ⟨down, by omega, hdown, ?_⟩
        rcases hcolumn with ⟨rfl, hcolumn⟩ | ⟨hpos, hright, hcolumn⟩
        · exact .inl ⟨rfl, by omega⟩
        · refine .inr ⟨hpos, hright, ?_⟩
          obtain ⟨k, rfl⟩ : ∃ k, down = k + 1 := ⟨down - 1, by omega⟩
          rw [List.take_succ_cons, lengthOfLines_cons] at hcolumn ⊢
          rw [List.length_cons]
          omega

/-- The line and the column of `Position.after before`, in a text that starts with `before`: both
count from one, the line is one of the text, and together they give the number of characters of
`before`. -/
lemma after_spec (before after : List Char) :
    0 < (Position.after before).line ∧ 0 < (Position.after before).column ∧
      (Position.after before).line ≤ (textLines (before ++ after)).length ∧
      before.length = lengthOfLines ((textLines (before ++ after)).take
        ((Position.after before).line - 1)) + ((Position.after before).column - 1) := by
  obtain ⟨down, hline, hdown, hcolumn⟩ := foldl_advance first before after
  have hfirst : first.line = 1 := rfl
  have hleft : first.column = 1 := rfl
  rw [Position.after, hline, hfirst, Nat.add_sub_cancel_left]
  rcases hcolumn with ⟨rfl, hcolumn⟩ | ⟨hpos, hright, hcolumn⟩
  · rw [List.take_zero, lengthOfLines_nil]
    omega
  · omega

/-- If characters `more` are added behind `before`, then `Position.after` moves to a later
position. -/
lemma precedes_after (before : List Char) {more : List Char} (h : more ≠ []) :
    (Position.after before).Precedes (.after (before ++ more)) := by
  have hlength := List.length_pos_iff.2 h
  obtain ⟨down, hline, -, hcolumn⟩ := foldl_advance (.after before) more []
  rw [Position.after, Position.after, List.foldl_append]
  rw [Position.after] at hline hcolumn
  unfold Precedes
  rcases hcolumn with ⟨rfl, hcolumn⟩ | ⟨hpos, -⟩ <;> omega

lemma Precedes.ne {p q : Position} (h : p.Precedes q) : p ≠ q := by
  rintro rfl
  unfold Precedes at h
  omega

end Position

/-- If the span `a` starts before `b`, and both at boundaries of the source, then the position of
`a` precedes that of `b`. -/
lemma Span.precedes_position {source : String} {a b : Span} (ha : IsBoundary source a.start)
    (hb : IsBoundary source b.start) (h : a.start < b.start) :
    (a.position source).Precedes (b.position source) := by
  have hale := ha.le
  have hble := hb.le
  rw [← Nat.min_eq_left hale] at ha
  rw [← Nat.min_eq_left hble] at hb
  obtain ⟨before, after, hsource, hbytes, hposition, -⟩ := exists_front ha
  obtain ⟨before', after', hsource', hbytes', hposition', -⟩ := exists_front hb
  rw [hposition, hposition']
  -- The two fronts are fronts of one text, so the shorter one is a front of the other.
  rcases List.append_eq_append_iff.1 (hsource.symm.trans hsource') with
    ⟨more, rfl, -⟩ | ⟨more, rfl, -⟩
  · refine Position.precedes_after before ?_
    rintro rfl
    rw [List.append_nil] at hbytes'
    omega
  · rw [byteLength_append] at hbytes
    omega

/-- **The two ways to count a place agree, and places keep their order.**  The first part is about
every span that starts between two characters of the text, or behind its end: its line and column
count from one, the line is one of the text, and the lines above it with their newlines and what is
to the left of the column have as many characters as the range of the span starts at.  A range in
characters is never empty.  And of two offsets in the text, the lower one comes first in lines and
columns, so that no two of them have the same. -/
theorem positions_agree (source : String) :
    (∀ span : Span, IsBoundary source (min span.start source.utf8ByteSize) →
      let lines := textLines source.toList
      let position := span.position source
      0 < position.line ∧ 0 < position.column ∧ position.line ≤ lines.length ∧
        (Span.charRange source span).start =
          lengthOfLines (lines.take (position.line - 1)) + (position.column - 1)) ∧
      (∀ span, (Span.charRange source span).start < (Span.charRange source span).stop) ∧
      ∀ a b : Span, IsBoundary source a.start → IsBoundary source b.start →
        (a.start < b.start → (a.position source).Precedes (b.position source)) ∧
          (a.start ≠ b.start → a.position source ≠ b.position source) := by
  refine ⟨fun span h => ?_, fun span => ?_, fun a b ha hb => ?_⟩
  · obtain ⟨before, after, hsource, -, hposition, hindex⟩ := Span.exists_front h
    intro lines position
    have hspec := Position.after_spec before after
    rw [← hsource, ← hposition, ← hindex] at hspec
    exact hspec
  · exact Nat.lt_of_lt_of_le (Nat.lt_succ_self _) (Nat.le_max_right _ _)
  · refine ⟨Span.precedes_position ha hb, fun hne => ?_⟩
    rcases Nat.lt_or_gt_of_ne hne with hlt | hgt
    · exact (Span.precedes_position ha hb hlt).ne
    · exact (Span.precedes_position hb ha hgt).ne.symm

/-- In a text of two lines with letters of two bytes: a span far behind the end, and two spans that
start on either side of a letter. -/
theorem positions_agree_wide :
    let source := "é\nλ=1"
    (IsBoundary source (min 40 source.utf8ByteSize) ∧
      Span.position ⟨40, 41⟩ source = ⟨2, 4⟩ ∧
      (Span.charRange source ⟨40, 41⟩).start = lengthOfLines [['é']] + 3) ∧
      (Span.charRange source ⟨4, 1⟩).start < (Span.charRange source ⟨4, 1⟩).stop ∧
      IsBoundary source 3 ∧ IsBoundary source 5 ∧
      (Span.position ⟨3, 5⟩ source).Precedes (Span.position ⟨5, 5⟩ source) ∧
      Span.position ⟨3, 5⟩ source ≠ Span.position ⟨5, 5⟩ source := by
  intro source
  obtain ⟨hcount, hrange, horder⟩ := positions_agree source
  have hend : IsBoundary source (min 40 source.utf8ByteSize) := by decide +kernel
  have hthree : IsBoundary source 3 := by decide +kernel
  have hfive : IsBoundary source 5 := by decide +kernel
  have hposition : Span.position ⟨40, 41⟩ source = ⟨2, 4⟩ := by decide +kernel
  have hlines : textLines source.toList = [['é'], ['λ', '=', '1']] := by decide +kernel
  obtain ⟨-, -, -, hstart⟩ := hcount ⟨40, 41⟩ hend
  rw [hposition, hlines] at hstart
  obtain ⟨hprecedes, hne⟩ := horder ⟨3, 5⟩ ⟨5, 5⟩ hthree hfive
  exact ⟨⟨hend, hposition, hstart⟩, hrange ⟨4, 1⟩, hthree, hfive, hprecedes (by decide),
    hne (by decide)⟩

end Runic
