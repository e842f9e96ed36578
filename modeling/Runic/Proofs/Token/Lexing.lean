import Mathlib.Tactic.Common
import Runic.Proofs.Text.Slice
import Runic.Rune.Signature
import Runic.Token.Lexer

/-!
# What is cut off the front

For each class of token, what must stand in front of the remaining characters for `scan` to cut it
off.  Letters and digits are easy; a glyph is cut alone only if it does not join the character
behind it to something longer (`Glyph.Alone`).

* `scan_mark`, `scan_rune`, `scan_face`, `scan_num` — one lemma for each class.
* `lexFrom_eq` — **the last token and no other is the end.**
-/

namespace Runic

/-! ## The end of the source -/

lemma cutMark_kind_ne_eof (c : Char) (cs : List Char) : (cutMark c cs).kind ≠ .eof := by
  unfold cutMark
  split <;> simp

lemma cutSymbol_kind_ne_eof (c : Char) (cs : List Char) : (cutSymbol c cs).kind ≠ .eof := by
  cases cs with
  | nil => exact cutMark_kind_ne_eof c []
  | cons d cs =>
      rw [cutSymbol]
      split
      · simp [cutWhile]
      · split
        · simp
        · split
          · next kind hkind =>
              unfold Kind.closer? at hkind
              split_ifs at hkind <;> cases hkind <;> simp
          · exact cutMark_kind_ne_eof c (d :: cs)

/-- Where there are characters, `scan` does not cut the end of the source. -/
lemma scan_kind_ne_eof (c : Char) (cs : List Char) : (scan (c :: cs)).kind ≠ .eof := by
  rw [scan]
  split
  · simp only [cutWhile, separatorKind]
    split <;> simp
  · split
    · simp [cutWhile]
    · split
      · simp [cutWhile]
      · exact cutSymbol_kind_ne_eof c cs

/-- The last token of `lexFrom`, and no other, is the end. -/
lemma lexFrom_eq (offset : Nat) (cs : List Char) :
    ∃ ts size, lexFrom offset cs = ts ++ [.eof size] ∧ ∀ t ∈ ts, t.kind ≠ .eof := by
  fun_induction lexFrom offset cs with
  | case1 offset => exact ⟨[], offset, rfl, by simp⟩
  | case2 offset c cs cut ih =>
      obtain ⟨ts, size, hts, hne⟩ := ih
      refine ⟨cut.token offset :: ts, size, by rw [hts, List.cons_append], ?_⟩
      rintro t (_ | ⟨_, ht⟩)
      · exact scan_kind_ne_eof c cs
      · exact hne t ht

/-! ## Runes and their glyphs -/

namespace Rune

/-- A rune that `ofChars?` finds has the two characters as its glyphs. -/
lemma glyphs_of_ofChars {first second : Char} {r : Rune} (h : ofChars? first second = some r) :
    ∃ a b, r.glyphs? = some (a, b) ∧ a.char = first ∧ b.char = second := by
  have hany := List.find?_some h
  simpa [Option.any_eq_true] using hany

lemma mem_vocabulary {r : Rune} {a b : Glyph} (h : r.glyphs? = some (a, b)) : r ∈ vocabulary := by
  cases r <;> first | decide | cases h

/-- A rune is found by `ofChars?` from the characters of its two glyphs. -/
lemma ofChars_glyphs {r : Rune} {a b : Glyph} (h : r.glyphs? = some (a, b)) :
    ofChars? a.char b.char = some r := by
  have hall : ∀ r ∈ vocabulary, ∀ g ∈ r.glyphs?, ofChars? g.1.char g.2.char = some r := by
    decide +kernel
  exact hall r (mem_vocabulary h) (a, b) h

lemma text_of_glyphs {r : Rune} {a b : Glyph} (h : r.glyphs? = some (a, b)) :
    r.text = String.ofList [a.char, b.char] := by
  unfold text
  split
  · cases h
  · rw [h]

lemma ofText_of_glyphs {r : Rune} {a b : Glyph} (h : r.glyphs? = some (a, b)) :
    ofText (String.ofList [a.char, b.char]) = r := by
  rw [ofText, String.toList_ofList]
  simp [ofChars_glyphs h]

lemma exists_glyphs {r : Rune} {s : Signature} (h : r.signature? = some s) :
    ∃ a b, r.glyphs? = some (a, b) := by
  cases r <;> first | exact ⟨_, _, rfl⟩ | cases h

end Rune

namespace Glyph

lemma ofChar_char (g : Glyph) : ofChar? g.char = some g := by
  cases g <;> rfl

lemma mem_all (g : Glyph) : g ∈ all := by
  cases g <;> decide

lemma char_injective : Function.Injective char := by
  intro a b h
  simpa [ofChar_char] using congrArg ofChar? h

/-- The character of a glyph is no blank and starts neither a face nor a numeral. -/
lemma char_classes (g : Glyph) :
    isBlank g.char = false ∧ isFaceStart g.char = false ∧ isNumStart g.char = false := by
  cases g <;> decide

/-- The glyphs `a` and `b` side by side start a rune, a closer or a comment. -/
def joins (a b : Glyph) : Bool :=
  (Rune.ofChars? a.char b.char).isSome || (Kind.closer? a.char b.char).isSome ||
    decide (a = .col ∧ b = .col)

/-- The glyph `a` joins no glyph that the characters behind it start with. -/
def Alone (a : Glyph) (cs : List Char) : Prop :=
  ∀ b : Glyph, cs.head? = some b.char → a.joins b = false

lemma alone_cons {a b : Glyph} (h : a.joins b = false) (cs : List Char) :
    a.Alone (b.char :: cs) := by
  intro c hc
  rwa [← char_injective (Option.some.inj hc)]

/-- The glyph joins no other: brackets, the comma and `@`. -/
def isSolitary (a : Glyph) : Bool := all.all fun b => !a.joins b

lemma alone_of_isSolitary {a : Glyph} (h : a.isSolitary = true) (cs : List Char) : a.Alone cs := by
  intro b _
  simpa using List.all_eq_true.1 h b b.mem_all

end Glyph

/-! ## One token of each class -/

lemma scan_glyph (g : Glyph) (cs : List Char) : scan (g.char :: cs) = cutSymbol g.char cs := by
  obtain ⟨hblank, hface, hnum⟩ := g.char_classes
  simp [scan, hblank, hface, hnum]

/-- A glyph that stands alone is cut by `cutSymbol` as a mark. -/
lemma cutSymbol_of_alone {a : Glyph} {cs : List Char} (h : a.Alone cs) :
    cutSymbol a.char cs = cutMark a.char cs := by
  cases cs with
  | nil => rfl
  | cons d cs =>
      have hcomment : ¬ (a.char = ':' ∧ d = ':') := by
        rintro ⟨ha, rfl⟩
        obtain rfl : a = .col := Glyph.char_injective ha
        exact absurd (h .col rfl) (by decide)
      have hrune : Rune.ofChars? a.char d = none := by
        cases hr : Rune.ofChars? a.char d with
        | none => rfl
        | some r =>
            obtain ⟨_, b, -, -, rfl⟩ := Rune.glyphs_of_ofChars hr
            simpa [Glyph.joins, hr] using h b rfl
      have hcloser : Kind.closer? a.char d = none := by
        cases hk : Kind.closer? a.char d with
        | none => rfl
        | some kind =>
            have hd : ∃ b : Glyph, b.char = d := by
              unfold Kind.closer? at hk
              split_ifs at hk with h₁ h₂
              · exact ⟨.hep, h₁.2.symm⟩
              · exact ⟨.tis, h₂.2.symm⟩
            obtain ⟨b, rfl⟩ := hd
            simpa [Glyph.joins, hk] using h b rfl
      simp [cutSymbol, hcomment, hrune, hcloser]

lemma scan_mark {a : Glyph} {cs : List Char} (h : a.Alone cs) :
    scan (a.char :: cs) = ⟨.mark a, [a.char], cs⟩ := by
  rw [scan_glyph, cutSymbol_of_alone h, cutMark, Glyph.ofChar_char]

lemma scan_rune {r : Rune} {a b : Glyph} (h : r.glyphs? = some (a, b)) (cs : List Char) :
    scan (a.char :: b.char :: cs) = ⟨.rune, [a.char, b.char], cs⟩ := by
  have hcomment : ¬ (a.char = ':' ∧ b.char = ':') := by
    rintro ⟨ha, hb⟩
    have hnone : Rune.ofChars? ':' ':' = none := by decide +kernel
    have hr := Rune.ofChars_glyphs h
    rw [ha, hb, hnone] at hr
    cases hr
  rw [scan_glyph, cutSymbol, if_neg hcomment, Rune.ofChars_glyphs h]
  rfl

/-- A `=` that does not stand alone starts a rune or a closer. -/
lemma scan_tis (cs : List Char) : Glyph.tis.Alone cs ∨
    (scan ('=' :: cs)).kind = .rune ∨ (scan ('=' :: cs)).kind = .tistis := by
  have hscan : scan ('=' :: cs) = cutSymbol '=' cs := scan_glyph .tis cs
  rw [hscan]
  cases cs with
  | nil => exact .inl (by rintro b ⟨⟩)
  | cons d cs =>
      rw [cutSymbol, if_neg (by simp)]
      split
      · exact .inr (.inl rfl)
      · next hrune =>
          by_cases hd : d = '='
          · subst hd
            exact .inr (.inr rfl)
          · refine .inl ?_
            intro b hb
            obtain rfl : d = b.char := by simpa using hb
            have htis : Glyph.tis.char = '=' := rfl
            simpa [Glyph.joins, htis, Kind.closer?, hd] using hrune

lemma cutWhile_eq {kind : List Char → Kind} {part : Char → Bool} {word rest : List Char}
    (hword : ∀ c ∈ word, part c = true) (hrest : ∀ c ∈ rest.head?, part c = false) :
    cutWhile kind part (word ++ rest) = ⟨kind word, word, rest⟩ := by
  rw [cutWhile, takeWhile_append_of_stop hword hrest, dropWhile_append_of_stop hword hrest]

/-- The text is a face: it starts with `isFaceStart`, and all of it are `isFacePart`. -/
def isFaceText (text : String) : Bool :=
  text.toList.head?.any isFaceStart && text.toList.all isFacePart

/-- The text is a numeral: it starts with `isNumStart`, and all of it are `isNumPart`. -/
def isNumText (text : String) : Bool :=
  text.toList.head?.any isNumStart && text.toList.all isNumPart

/-- A class of characters that makes up words: `start` of them, then any `part`. -/
lemma exists_cons_of_word {start part : Char → Bool} {text : String}
    (h : (text.toList.head?.any start && text.toList.all part) = true) :
    ∃ c cs, text.toList = c :: cs ∧ start c = true ∧ ∀ d ∈ c :: cs, part d = true := by
  obtain ⟨hstart, hpart⟩ := Bool.and_eq_true_iff.1 h
  obtain ⟨c, hc, hstart⟩ := (Option.any_eq_true _ _).1 hstart
  obtain ⟨cs, hcs⟩ := List.head?_eq_some_iff.1 hc
  exact ⟨c, cs, hcs, hstart, hcs ▸ List.all_eq_true.1 hpart⟩

/-- If `c` starts a word, then the longest run of its parts from `c` on is a word. -/
lemma isWord_takeWhile {start part : Char → Bool} (himp : ∀ c, start c = true → part c = true)
    {c : Char} (h : start c = true) (cs : List Char) :
    (((c :: cs).takeWhile part).head?.any start && ((c :: cs).takeWhile part).all part) = true := by
  rw [List.takeWhile_cons_of_pos (himp c h), Bool.and_eq_true_iff]
  refine ⟨h, ?_⟩
  rw [List.all_cons, himp c h, Bool.true_and]
  exact List.all_takeWhile

/-- If a class has neither the space nor the newline, then no character in it is a blank. -/
lemma isBlank_eq_false {start : Char → Bool} (hspace : start ' ' = false)
    (hline : start '\n' = false) {c : Char} (h : start c = true) : isBlank c = false := by
  have hne : c ≠ ' ' ∧ c ≠ '\n' := by
    constructor <;> rintro rfl <;> simp_all
  simp [isBlank, hne]

lemma isFaceStart_of_isNumStart {c : Char} (h : isNumStart c = true) : isFaceStart c = false := by
  simp only [isNumStart, isFaceStart, Bool.and_eq_true, Bool.and_eq_false_iff, decide_eq_true_eq,
    decide_eq_false_iff_not] at h ⊢
  exact .inl fun ha => absurd (Char.le_trans ha h.2) (by decide)

/-- A glyph stands alone in front of a face or a numeral. -/
lemma Glyph.alone_word {c : Char} (h : isFaceStart c = true ∨ isNumStart c = true) (a : Glyph)
    (cs : List Char) : a.Alone (c :: cs) := by
  rintro b ⟨⟩
  obtain ⟨-, hface, hnum⟩ := b.char_classes
  simp [hface, hnum] at h

lemma scan_face {name : String} {rest : List Char} (h : isFaceText name = true)
    (hrest : ∀ c ∈ rest.head?, isFacePart c = false) :
    scan (name.toList ++ rest) = ⟨.face, name.toList, rest⟩ := by
  obtain ⟨c, cs, hname, hstart, hpart⟩ := exists_cons_of_word h
  rw [hname, List.cons_append, scan, isBlank_eq_false rfl rfl hstart, hstart, if_neg (by simp),
    if_pos rfl, ← List.cons_append, cutWhile_eq hpart hrest]

lemma scan_num {digits : String} {rest : List Char} (h : isNumText digits = true)
    (hrest : ∀ c ∈ rest.head?, isNumPart c = false) :
    scan (digits.toList ++ rest) = ⟨.num, digits.toList, rest⟩ := by
  obtain ⟨c, cs, hdigits, hstart, hpart⟩ := exists_cons_of_word h
  rw [hdigits, List.cons_append, scan, isBlank_eq_false rfl rfl hstart,
    isFaceStart_of_isNumStart hstart, hstart, if_neg (by simp), if_neg (by simp), if_pos rfl,
    ← List.cons_append, cutWhile_eq hpart hrest]

end Runic
