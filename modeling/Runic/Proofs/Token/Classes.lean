import Runic.Proofs.Token.Cutting

/-!
# Classes of tokens

The kind of a token can be told from its text alone, and its end from the one character behind it.

* `Kind.Matches` — the texts of each kind, character by character and without a word about how they
  are cut.
* `matches_scan` — **the text that `scan` cuts is one of its kind.**
* `scan_of_matches` — **a text of a kind is cut as a whole**, and as that kind, so no text is of two
  kinds (`Kind.Matches.unique`).
* `lex_classes` — every token of a source is of the kind that its text matches, and is as long as
  it can be; tokens of one class do not meet.
-/

namespace Runic

/-! ## Texts of a kind -/

/-- A character that no token but an illegal one starts with: no blank, no lower-case letter, no
digit and no glyph. -/
def isForeign (c : Char) : Bool :=
  c ≠ ' ' && c ≠ '\n' && !('a' ≤ c && c ≤ 'z') && !('0' ≤ c && c ≤ '9') &&
    Glyph.all.all fun g => g.char ≠ c

/-- The texts of a kind, by their characters. -/
def Kind.Matches : Kind → String → Prop
  | eof, text => text = ""
  | ace, text => text = " "
  | gap, text => text ≠ "" ∧ text ≠ " " ∧ ∀ c ∈ text.toList, c = ' ' ∨ c = '\n'
  | face, text => ∃ c cs, text.toList = c :: cs ∧ ('a' ≤ c ∧ c ≤ 'z') ∧
    ∀ d ∈ cs, ('a' ≤ d ∧ d ≤ 'z') ∨ d = '-'
  | num, text => ∃ c cs, text.toList = c :: cs ∧ ('0' ≤ c ∧ c ≤ '9') ∧
    ∀ d ∈ cs, ('0' ≤ d ∧ d ≤ '9') ∨ d = '.'
  | comment, text => [':', ':'] <+: text.toList ∧ '\n' ∉ text.toList
  | rune, text => ∃ r ∈ Rune.vocabulary, text = r.text
  | hephep, text => text = "--"
  | tistis, text => text = "=="
  | mark glyph, text => text = glyph.text
  | illegal, text => ∃ c, text = String.ofList [c] ∧ isForeign c = true

lemma isForeign_iff {c : Char} : isForeign c = true ↔ isBlank c = false ∧ isFaceStart c = false ∧
    isNumStart c = false ∧ Glyph.ofChar? c = none := by
  simp [isForeign, isBlank, isFaceStart, isNumStart, Glyph.ofChar?, and_assoc, imp_iff_not_or]

lemma isBlank_iff {c : Char} : isBlank c = true ↔ c = ' ' ∨ c = '\n' := by simp [isBlank]

/-- A text that starts with a character in `start` and has only characters in `part` is such a
character followed by characters in `part`. -/
lemma word_iff {start part : Char → Bool} (himp : ∀ c, start c = true → part c = true)
    {text : String} : (text.toList.head?.any start && text.toList.all part) = true ↔
      ∃ c cs, text.toList = c :: cs ∧ start c = true ∧ ∀ d ∈ cs, part d = true := by
  cases text.toList with
  | nil => simp
  | cons c cs =>
      simp only [List.head?_cons, Option.any_some, List.all_cons, Bool.and_eq_true,
        List.all_eq_true, List.cons.injEq]
      constructor
      · rintro ⟨hstart, -, hpart⟩
        exact ⟨c, cs, ⟨rfl, rfl⟩, hstart, hpart⟩
      · rintro ⟨_, _, ⟨rfl, rfl⟩, hstart, hpart⟩
        exact ⟨hstart, himp _ hstart, hpart⟩

lemma matches_face_iff {text : String} : Kind.face.Matches text ↔ isFaceText text = true := by
  rw [isFaceText, word_iff fun c hc => by simp [isFacePart, hc]]
  simp [Kind.Matches, isFacePart, isFaceStart, or_comm]

lemma matches_num_iff {text : String} : Kind.num.Matches text ↔ isNumText text = true := by
  rw [isNumText, word_iff fun c hc => by simp [isNumPart, hc]]
  simp [Kind.Matches, isNumPart, isNumStart, or_comm]

/-! ## What is cut matches -/

lemma matches_separator {run : List Char} (hne : run ≠ []) (h : ∀ c ∈ run, isBlank c = true) :
    (separatorKind run).Matches (String.ofList run) := by
  unfold separatorKind
  split
  · next hrun =>
      rw [hrun]
      rfl
  · next hrun =>
      refine ⟨by simpa using hne, ?_, by simpa only [String.toList_ofList, ← isBlank_iff] using h⟩
      intro htext
      exact hrun (by simpa using congrArg String.toList htext)

/-- A single character that starts no word and no separator: `cutMark` gives a mark or an illegal
token, and its text is one of that kind. -/
lemma matches_cutMark {c : Char} (hblank : isBlank c = false) (hface : isFaceStart c = false)
    (hnum : isNumStart c = false) (cs : List Char) :
    (cutMark c cs).kind.Matches (String.ofList (cutMark c cs).text) := by
  unfold cutMark
  cases hc : Glyph.ofChar? c with
  | none => exact ⟨c, rfl, isForeign_iff.2 ⟨hblank, hface, hnum, hc⟩⟩
  | some a =>
      have hchar : a.char = c := by simpa using List.find?_some hc
      subst hchar
      exact rfl

lemma matches_closer {c d : Char} {kind : Kind} (h : Kind.closer? c d = some kind) :
    kind.Matches (String.ofList [c, d]) := by
  unfold Kind.closer? at h
  split_ifs at h with hhep htis
  · cases h
    rw [hhep.1, hhep.2]
    rfl
  · cases h
    rw [htis.1, htis.2]
    rfl

lemma matches_cutSymbol {c : Char} (hblank : isBlank c = false) (hface : isFaceStart c = false)
    (hnum : isNumStart c = false) (cs : List Char) :
    (cutSymbol c cs).kind.Matches (String.ofList (cutSymbol c cs).text) := by
  cases cs with
  | nil => exact matches_cutMark hblank hface hnum []
  | cons d cs =>
      by_cases hcomment : c = ':' ∧ d = ':'
      · obtain ⟨rfl, rfl⟩ := hcomment
        rw [cutSymbol, if_pos ⟨rfl, rfl⟩, cutWhile, List.takeWhile_cons_of_pos (by decide),
          List.takeWhile_cons_of_pos (by decide)]
        refine ⟨by simp, ?_⟩
        intro hline
        rw [String.toList_ofList] at hline
        simp only [List.mem_cons, false_or, Char.reduceEq] at hline
        simpa using List.mem_takeWhile_imp hline
      · rw [cutSymbol, if_neg hcomment]
        cases hrune : Rune.ofChars? c d with
        | some r =>
            obtain ⟨a, b, hr, rfl, rfl⟩ := Rune.glyphs_of_ofChars hrune
            exact ⟨r, Rune.mem_vocabulary hr, (Rune.text_of_glyphs hr).symm⟩
        | none =>
            rw [if_neg (by simp)]
            cases hcloser : Kind.closer? c d with
            | some kind => exact matches_closer hcloser
            | none => exact matches_cutMark hblank hface hnum (d :: cs)

/-- **The text that `scan` cuts is one of its kind.** -/
lemma matches_scan (cs : List Char) : (scan cs).kind.Matches (String.ofList (scan cs).text) := by
  cases cs with
  | nil => rfl
  | cons c cs =>
      by_cases hblank : isBlank c = true
      · have hscan : scan (c :: cs) = cutWhile separatorKind isBlank (c :: cs) := if_pos hblank
        rw [hscan]
        refine matches_separator (cutWhile_text_ne_nil separatorKind isBlank c cs hblank) ?_
        exact fun d hd => List.mem_takeWhile_imp hd
      by_cases hface : isFaceStart c = true
      · rw [scan, if_neg hblank, if_pos hface]
        rw [cutWhile, matches_face_iff, isFaceText, String.toList_ofList]
        exact isWord_takeWhile (fun c hc => by simp [isFacePart, hc]) hface cs
      by_cases hnum : isNumStart c = true
      · rw [scan, if_neg hblank, if_neg hface, if_pos hnum]
        rw [cutWhile, matches_num_iff, isNumText, String.toList_ofList]
        exact isWord_takeWhile (fun c hc => by simp [isNumPart, hc]) hnum cs
      rw [scan, if_neg hblank, if_neg hface, if_neg hnum]
      exact matches_cutSymbol (by simpa using hblank) (by simpa using hface)
        (by simpa using hnum) cs

/-! ## What matches is cut -/

lemma scan_separator {run : List Char} (hne : run ≠ []) (h : ∀ c ∈ run, isBlank c = true) :
    scan run = ⟨separatorKind run, run, []⟩ := by
  obtain ⟨c, cs, rfl⟩ := List.exists_cons_of_ne_nil hne
  have hscan : scan (c :: cs) = cutWhile separatorKind isBlank (c :: cs) :=
    if_pos (h c List.mem_cons_self)
  rw [hscan]
  nth_rewrite 1 [← (c :: cs).append_nil]
  exact cutWhile_eq h (by simp)

lemma scan_comment {cs : List Char} (h : '\n' ∉ cs) :
    scan (':' :: ':' :: cs) = ⟨.comment, ':' :: ':' :: cs, []⟩ := by
  have hscan : scan (':' :: ':' :: cs) =
      cutWhile (fun _ => .comment) (· ≠ '\n') (':' :: ':' :: cs) := scan_glyph .col _
  rw [hscan]
  nth_rewrite 1 [← (':' :: ':' :: cs).append_nil]
  refine cutWhile_eq ?_ (by simp)
  intro c hc
  have hne : c ≠ '\n' := by
    rintro rfl
    simp [h] at hc
  simpa using hne

lemma scan_foreign {c : Char} (h : isForeign c = true) : scan [c] = ⟨.illegal, [c], []⟩ := by
  obtain ⟨hblank, hface, hnum, hglyph⟩ := isForeign_iff.1 h
  simp [scan, hblank, hface, hnum, cutSymbol, cutMark, hglyph]

/-- **A text of a kind is cut by `scan` as a whole**, and as that kind. -/
lemma scan_of_matches {kind : Kind} {text : String} (h : kind.Matches text) :
    scan text.toList = ⟨kind, text.toList, []⟩ := by
  cases kind with
  | eof =>
      obtain rfl := h
      rfl
  | ace =>
      obtain rfl := h
      exact scan_separator (by simp) (by simp [isBlank])
  | gap =>
      obtain ⟨hempty, hspace, hblank⟩ := h
      have hne : text.toList ≠ [' '] := fun hrun => hspace (String.toList_inj.1 hrun)
      rw [scan_separator (by simpa using hempty) fun c hc => isBlank_iff.2 (hblank c hc),
        separatorKind, if_neg hne]
  | face =>
      have hnext : ∀ d ∈ ([] : List Char).head?, isFacePart d = false := by simp
      simpa using scan_face (matches_face_iff.1 h) hnext
  | num =>
      have hnext : ∀ d ∈ ([] : List Char).head?, isNumPart d = false := by simp
      simpa using scan_num (matches_num_iff.1 h) hnext
  | comment =>
      obtain ⟨⟨cs, hcs⟩, hline⟩ := h
      rw [← hcs] at hline ⊢
      exact scan_comment fun hmem => hline (List.mem_append_right _ hmem)
  | rune =>
      obtain ⟨r, hr, rfl⟩ := h
      obtain ⟨a, b, hglyphs⟩ := Rune.exists_glyphs_of_mem hr
      rw [Rune.text_of_glyphs hglyphs, String.toList_ofList]
      exact scan_rune hglyphs []
  | hephep =>
      obtain rfl := h
      decide +kernel
  | tistis =>
      obtain rfl := h
      decide +kernel
  | mark glyph =>
      obtain rfl := h
      rw [Glyph.text, String.toList_ofList]
      exact scan_mark (by simp [Glyph.Alone])
  | illegal =>
      obtain ⟨c, rfl, hc⟩ := h
      rw [String.toList_ofList]
      exact scan_foreign hc

/-- No text matches two kinds, since `scan` cuts it as one. -/
lemma Kind.Matches.unique {kind kind' : Kind} {text : String} (h : kind.Matches text)
    (h' : kind'.Matches text) : kind = kind' :=
  congrArg Cut.kind ((scan_of_matches h).symm.trans (scan_of_matches h'))

/-! ## The tokens of a source -/

/-- The character of a list that starts `offset` bytes behind its start. -/
def charAt? : Nat → List Char → Option Char
  | _, [] => none
  | 0, c :: _ => some c
  | offset + 1, c :: cs => charAt? (offset + 1 - c.utf8Size) cs

lemma charAt?_append (before after : List Char) :
    charAt? (byteLength before) (before ++ after) = after.head? := by
  induction before with
  | nil => cases after <;> rfl
  | cons c cs ih =>
      obtain ⟨n, hn⟩ : ∃ n, byteLength (c :: cs) = n + 1 :=
        Nat.exists_eq_succ_of_ne_zero (Nat.pos_iff_ne_zero.1 (byteLength_pos (by simp)))
      rw [hn, List.cons_append, charAt?, ← hn, byteLength_cons, Nat.add_sub_cancel_left, ih]

/-- Every token of `lexFrom offset cs` is what `scan` cuts off some characters `ds` of the source,
and the character behind it is the first of the rest. -/
lemma exists_scan_of_mem {source before cs : List Char} {offset : Nat} {t : Token}
    (hsource : source = before ++ cs) (hoffset : byteLength before = offset)
    (h : t ∈ lexFrom offset cs) :
    ∃ ds, t.kind = (scan ds).kind ∧ t.text = String.ofList (scan ds).text ∧
      charAt? t.span.stop source = (scan ds).rest.head? := by
  fun_induction lexFrom offset cs generalizing before with
  | case1 offset =>
      rw [List.mem_singleton.1 h]
      refine ⟨[], rfl, rfl, ?_⟩
      rw [hsource, ← hoffset]
      exact charAt?_append before []
  | case2 offset c cs cut =>
      rename_i ih
      have hcut : source = before ++ cut.text ++ cut.rest := by
        rw [hsource, List.append_assoc, scan_append]
      have hstop : byteLength (before ++ cut.text) = offset + byteLength cut.text := by
        rw [byteLength_append, hoffset]
      rcases List.mem_cons.1 h with rfl | h
      · refine ⟨c :: cs, rfl, rfl, ?_⟩
        rw [hcut, Cut.token, ← hstop]
        exact charAt?_append _ _
      · exact ih hcut hstop h

/-- Of two tokens side by side, the first ends in front of the first character of the second. -/
lemma isChain_endsBefore (offset : Nat) (cs : List Char) : (lexFrom offset cs).IsChain fun t u =>
    ∀ d ∈ u.text.toList.head?, t.kind.endsBefore d = true := by
  fun_induction lexFrom offset cs with
  | case1 offset => exact .singleton _
  | case2 offset c cs cut ih =>
      refine ih.cons fun u hu d hd => ?_
      refine (settled_scan c cs).ends d ?_
      cases hrest : cut.rest with
      | nil =>
          rw [hrest, lexFrom] at hu
          cases hu
          cases hd
      | cons e es =>
          rw [hrest, lexFrom] at hu
          cases hu
          rw [Cut.token, String.toList_ofList] at hd
          obtain ⟨ds, hds⟩ := List.head?_eq_some_iff.1 hd
          have happend := scan_append (e :: es)
          rw [hds, List.cons_append] at happend
          rw [← (List.cons.inj happend).1]
          rfl

/-- The text of a separator starts with a blank. -/
lemma Kind.Matches.exists_blank {kind : Kind} {text : String} (h : kind.Matches text)
    (hkind : kind.isSeparator = true) : ∃ d ∈ text.toList.head?, isBlank d = true := by
  cases kind with
  | ace =>
      obtain rfl := h
      exact ⟨' ', rfl, rfl⟩
  | gap =>
      obtain ⟨hempty, -, hblank⟩ := h
      have hne : text.toList ≠ [] := by simpa using hempty
      obtain ⟨d, ds, hds⟩ := List.exists_cons_of_ne_nil hne
      exact ⟨d, by simp [hds], isBlank_iff.2 (hblank d (by simp [hds]))⟩
  | _ => cases hkind

lemma Kind.endsBefore_of_isSeparator {kind : Kind} (h : kind.isSeparator = true) (d : Char) :
    kind.endsBefore d = !isBlank d := by
  cases kind with
  | ace | gap => simp [endsBefore, isBlank]
  | _ => cases h

/-- A text that starts with a character in `start` and has only characters in `part` starts with one
in `part`. -/
lemma exists_part_of_word {start part : Char → Bool} {text : String}
    (h : (text.toList.head?.any start && text.toList.all part) = true) :
    ∃ d ∈ text.toList.head?, part d = true := by
  obtain ⟨d, ds, hds, -, hpart⟩ := exists_cons_of_word h
  exact ⟨d, by simp [hds], hpart d List.mem_cons_self⟩

/-- **Two tokens of one class do not stand side by side**, since the first one would have gone on: a
separator is not followed by a separator, nor a face by a face, nor a numeral by a numeral. -/
lemma Kind.Matches.apart {first second : Kind} {text : String} (h : second.Matches text)
    (hends : ∀ d ∈ text.toList.head?, first.endsBefore d = true) :
    ¬ (first.isSeparator = true ∧ second.isSeparator = true) ∧
      ¬ (first = .face ∧ second = .face) ∧ ¬ (first = .num ∧ second = .num) := by
  refine ⟨?_, ?_, ?_⟩
  · rintro ⟨hfirst, hsecond⟩
    obtain ⟨d, hd, hblank⟩ := h.exists_blank hsecond
    simpa [endsBefore_of_isSeparator hfirst, hblank] using hends d hd
  · rintro ⟨rfl, rfl⟩
    obtain ⟨d, hd, hpart⟩ := exists_part_of_word (matches_face_iff.1 h)
    simpa [endsBefore_face, hpart] using hends d hd
  · rintro ⟨rfl, rfl⟩
    obtain ⟨d, hd, hpart⟩ := exists_part_of_word (matches_num_iff.1 h)
    simpa [endsBefore_num, hpart] using hends d hd

/-- A text of a kind other than the end is lexed as one token of that kind, and the end behind
it. -/
lemma lex_of_matches {kind : Kind} {text : String} (h : kind.Matches text) (hkind : kind ≠ .eof) :
    lex text = [⟨kind, text, ⟨0, text.utf8ByteSize⟩⟩, .eof text.utf8ByteSize] := by
  have hscan := scan_of_matches h
  have hne : text.toList ≠ [] := by
    intro hnil
    rw [hnil] at hscan
    exact hkind (congrArg Cut.kind hscan).symm
  rw [lex, lexFrom_cons hne, hscan, lexFrom, Cut.token, byteLength_toList]
  simp

/-- **The class of every token, and its end.**  A token of a source is of a kind exactly if its text
is one of that kind, and then the character behind it, if there is one, could not have been part of
it.  Cut on its own, its text is the same token.  Two separators are never side by side, nor two
faces, nor two numerals. -/
theorem lex_classes (source : String) :
    (∀ t ∈ lex source, ∀ kind : Kind,
      (t.kind = kind ↔ kind.Matches t.text) ∧
      (t.kind = kind → ∀ d ∈ charAt? t.span.stop source.toList, kind.endsBefore d = true) ∧
      (t.kind = kind → kind ≠ .eof →
        lex t.text = [⟨kind, t.text, ⟨0, t.text.utf8ByteSize⟩⟩, .eof t.text.utf8ByteSize])) ∧
      (lex source).IsChain fun t u =>
        ¬ (t.kind.isSeparator = true ∧ u.kind.isSeparator = true) ∧
          ¬ (t.kind = .face ∧ u.kind = .face) ∧ ¬ (t.kind = .num ∧ u.kind = .num) := by
  have hcut : ∀ t ∈ lex source, ∃ ds, t.kind = (scan ds).kind ∧
      t.text = String.ofList (scan ds).text ∧
      charAt? t.span.stop source.toList = (scan ds).rest.head? :=
    fun t ht => exists_scan_of_mem source.toList.nil_append.symm rfl ht
  have hmatches : ∀ t ∈ lex source, t.kind.Matches t.text := by
    intro t ht
    obtain ⟨ds, hkind, htext, -⟩ := hcut t ht
    rw [hkind, htext]
    exact matches_scan ds
  constructor
  · intro t ht kind
    refine ⟨⟨fun hkind => hkind ▸ hmatches t ht, (hmatches t ht).unique⟩, ?_, ?_⟩
    · rintro rfl d hd
      obtain ⟨ds, hkind, -, hnext⟩ := hcut t ht
      rw [hnext] at hd
      rw [hkind]
      cases ds with
      | nil => cases hd
      | cons c cs => exact (settled_scan c cs).ends d hd
    · rintro rfl
      exact lex_of_matches (hmatches t ht)
  · refine (isChain_endsBefore 0 source.toList).imp_of_mem_imp fun t u _ hu hends => ?_
    exact (hmatches u hu).apart hends

/-- Faces take hyphens and numerals take dots that could start other tokens, and of three colons the
first two start a comment. -/
example : (lex "a-b--=--1..:::x").map (fun t => (t.kind, t.text)) =
    [(.face, "a-b--"), (.rune, "=-"), (.mark .hep, "-"), (.num, "1.."), (.comment, ":::x"),
      (.eof, "")] := by
  decide +kernel

end Runic
