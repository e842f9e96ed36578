import Mathlib.Data.List.TakeWhile
import Runic.Proofs.Token.Folding
import Runic.Proofs.Token.Tiling

/-!
# Parts of a source on their own

Where a token ends depends on the token and on the one character behind it (`Kind.endsBefore`).  So
a source may be cut in two between any two of its tokens, and the tokens of each part are those that
it had in the whole.

* `settled_scan` — **what a token is and where it ends depends on nothing else.**
* `text_of_mark` — a mark is one character.
* `lexFrom_split` — the tokens of a front of the source, and of what stands behind it;
  `lexFrom_append` is the converse, for two texts that do not join.
* `folded_split`, `folded_append` — the same for tokens whose layout is folded.
* `lexFrom_moved`, `folded_moved` — what stands further on is cut and folded alike.
-/

namespace Runic

/-! ## The character behind a token -/

/-- The texts of two glyphs that are cut as one token or start one: a comment, a closer or a rune of
the vocabulary. -/
def pairTexts : List String := "::" :: "--" :: "==" :: Rune.vocabulary.map Rune.text

/-- A token of the kind ends in front of the character `d`: with `d` behind it, it would not have
been longer. -/
def Kind.endsBefore : Kind → Char → Bool
  | ace, d | gap, d => d ≠ ' ' && d ≠ '\n'
  | comment, d => d = '\n'
  | face, d => !('a' ≤ d && d ≤ 'z') && d ≠ '-'
  | num, d => !('0' ≤ d && d ≤ '9') && d ≠ '.'
  | mark a, d => !pairTexts.contains (String.ofList [a.char, d])
  | illegal, _ | eof, _ | hephep, _ | tistis, _ | rune, _ => true

lemma endsBefore_face (d : Char) : Kind.face.endsBefore d = !isFacePart d := by
  rw [Kind.endsBefore, isFacePart, isFaceStart, Bool.not_or, Bool.and_comm]
  simp

lemma endsBefore_num (d : Char) : Kind.num.endsBefore d = !isNumPart d := by
  rw [Kind.endsBefore, isNumPart, isNumStart, Bool.not_or, Bool.and_comm]
  simp

lemma ofList_pair_inj {a b c d : Char} :
    String.ofList [a, b] = String.ofList [c, d] ↔ a = c ∧ b = d := by
  rw [← String.toList_inj]
  simp

lemma Rune.exists_glyphs_of_mem {r : Rune} (h : r ∈ vocabulary) :
    ∃ a b, r.glyphs? = some (a, b) := by
  cases r with
  | other text => simp [vocabulary] at h
  | _ => exact ⟨_, _, rfl⟩

/-- `Rune.ofChars?` finds the runes whose texts are in the vocabulary. -/
lemma Rune.mem_map_text {c d : Char} :
    String.ofList [c, d] ∈ vocabulary.map text ↔ ofChars? c d ≠ none := by
  constructor
  · intro h
    obtain ⟨r, hr, htext⟩ := List.mem_map.1 h
    obtain ⟨a, b, hglyphs⟩ := exists_glyphs_of_mem hr
    rw [text_of_glyphs hglyphs, ofList_pair_inj] at htext
    rw [← htext.1, ← htext.2, ofChars_glyphs hglyphs]
    simp
  · intro h
    obtain ⟨r, hr⟩ := Option.ne_none_iff_exists'.1 h
    obtain ⟨a, b, hglyphs, rfl, rfl⟩ := glyphs_of_ofChars hr
    exact List.mem_map.2 ⟨r, mem_vocabulary hglyphs, text_of_glyphs hglyphs⟩

/-- `Kind.closer?` finds the closers. -/
lemma closer?_eq_none_iff {c d : Char} : Kind.closer? c d = none ↔
    ¬ (c = '-' ∧ d = '-') ∧ ¬ (c = '=' ∧ d = '=') := by
  unfold Kind.closer?
  split_ifs with hhep htis <;> simp [*]

/-- A mark joins the character behind it if `cutSymbol` finds something in the two. -/
lemma endsBefore_mark (a : Glyph) (d : Char) : (Kind.mark a).endsBefore d = true ↔
    ¬ (a.char = ':' ∧ d = ':') ∧ Rune.ofChars? a.char d = none ∧ Kind.closer? a.char d = none := by
  have hcol : String.ofList [a.char, d] = "::" ↔ a.char = ':' ∧ d = ':' := by
    simp [← String.toList_inj]
  have hhep : String.ofList [a.char, d] = "--" ↔ a.char = '-' ∧ d = '-' := by
    simp [← String.toList_inj]
  have htis : String.ofList [a.char, d] = "==" ↔ a.char = '=' ∧ d = '=' := by
    simp [← String.toList_inj]
  rw [Kind.endsBefore, Bool.not_eq_true', ← Bool.not_eq_true, List.contains_iff_mem, pairTexts,
    List.mem_cons, List.mem_cons, List.mem_cons, Rune.mem_map_text, hcol, hhep, htis,
    closer?_eq_none_iff, not_or, not_or, not_or, ne_eq, not_not]
  exact and_congr_right fun _ => and_assoc.symm.trans and_comm

lemma head_dropWhile {α : Type} (p : α → Bool) (as : List α) :
    ∀ a ∈ (as.dropWhile p).head?, p a = false := by
  intro a ha
  have hnot := List.head?_dropWhile_not p as
  rw [Option.mem_def.1 ha] at hnot
  simpa using hnot

lemma endsBefore_separatorKind (run : List Char) (d : Char) :
    (separatorKind run).endsBefore d = !isBlank d := by
  unfold separatorKind
  split <;> simp [Kind.endsBefore, isBlank]

/-- If `c` is no glyph, it forms no rune with another character. -/
lemma ofChars_eq_none {c : Char} (h : Glyph.ofChar? c = none) (d : Char) :
    Rune.ofChars? c d = none := by
  cases hr : Rune.ofChars? c d with
  | none => rfl
  | some r =>
      obtain ⟨a, b, -, rfl, -⟩ := Rune.glyphs_of_ofChars hr
      rw [Glyph.ofChar_char] at h
      cases h

/-- If `c` is no glyph, it forms no closer with another character. -/
lemma closer_eq_none {c : Char} (h : Glyph.ofChar? c = none) (d : Char) :
    Kind.closer? c d = none := by
  unfold Kind.closer?
  split_ifs with hhep htis
  · rw [hhep.1] at h
    cases (Glyph.ofChar_char .hep).symm.trans h
  · rw [htis.1] at h
    cases (Glyph.ofChar_char .tis).symm.trans h
  · rfl

/-- A mark, or what is none, joins the character behind it only as `Kind.endsBefore` says. -/
lemma endsBefore_cutMark (c d : Char) (cs : List Char) :
    (cutMark c cs).kind.endsBefore d = true ↔
      ¬ (c = ':' ∧ d = ':') ∧ Rune.ofChars? c d = none ∧ Kind.closer? c d = none := by
  unfold cutMark
  cases hc : Glyph.ofChar? c with
  | none =>
      have hcol : c ≠ ':' := by
        rintro rfl
        cases hc
      simp [Kind.endsBefore, ofChars_eq_none hc, closer_eq_none hc, hcol]
  | some a =>
      have hchar : a.char = c := by simpa using List.find?_some hc
      rw [endsBefore_mark, hchar]

/-- The cut depends on nothing but its text and the character behind it: the next character ends the
token, and in front of any other character that ends it the same text is cut. -/
structure Cut.Settled (cut : Cut) : Prop where
  ends : ∀ d ∈ cut.rest.head?, cut.kind.endsBefore d = true
  again : ∀ rest : List Char, (∀ d ∈ rest.head?, cut.kind.endsBefore d = true) →
    scan (cut.text ++ rest) = ⟨cut.kind, cut.text, rest⟩

/-- A cut of the longest run of a class is settled. -/
lemma settled_cutWhile {kind : List Char → Kind} {part : Char → Bool} {cs : List Char}
    (hends : ∀ run d, (kind run).endsBefore d = !part d)
    (hscan : ∀ rest, scan (cs.takeWhile part ++ rest) =
      cutWhile kind part (cs.takeWhile part ++ rest)) :
    (cutWhile kind part cs).Settled where
  ends := by
    intro d hd
    rw [cutWhile, hends, head_dropWhile part cs d hd]
    rfl
  again := by
    intro rest hrest
    refine (hscan rest).trans (cutWhile_eq (fun c hc => List.mem_takeWhile_imp hc) ?_)
    intro d hd
    simpa [cutWhile, hends] using hrest d hd

/-- A cut of two characters that are a token whatever stands behind them is settled. -/
lemma settled_pair {kind : Kind} {c d : Char} {cs : List Char}
    (hends : ∀ e, kind.endsBefore e = true)
    (hscan : ∀ rest, scan (c :: d :: rest) = ⟨kind, [c, d], rest⟩) :
    Cut.Settled ⟨kind, [c, d], cs⟩ :=
  ⟨fun e _ => hends e, fun rest _ => hscan rest⟩

lemma cutMark_eq (c : Char) (cs : List Char) :
    cutMark c cs = ⟨(cutMark c []).kind, [c], cs⟩ := by
  unfold cutMark
  split <;> rfl

/-- A cut of a single character is settled, if it forms nothing with the one behind it. -/
lemma settled_cutMark {c : Char} {cs : List Char} (hscan : ∀ rest, scan (c :: rest) =
      cutSymbol c rest) (h : ∀ d ∈ cs.head?, ¬ (c = ':' ∧ d = ':') ∧ Rune.ofChars? c d = none ∧
      Kind.closer? c d = none) : (cutMark c cs).Settled := by
  rw [cutMark_eq]
  refine ⟨fun d hd => (endsBefore_cutMark c d []).2 (h d hd), ?_⟩
  intro rest hrest
  rw [List.singleton_append, hscan]
  cases rest with
  | nil => exact cutMark_eq c []
  | cons d ds =>
      obtain ⟨hcomment, hrune, hcloser⟩ := (endsBefore_cutMark c d []).1 (hrest d rfl)
      rw [cutSymbol, if_neg hcomment, hrune, hcloser]
      exact cutMark_eq c (d :: ds)

lemma settled_cutSymbol {c : Char} (cs : List Char)
    (hscan : ∀ rest, scan (c :: rest) = cutSymbol c rest) : (cutSymbol c cs).Settled := by
  cases cs with
  | nil => exact settled_cutMark hscan (by simp)
  | cons d cs =>
      by_cases hcomment : c = ':' ∧ d = ':'
      · obtain ⟨rfl, rfl⟩ := hcomment
        rw [cutSymbol, if_pos ⟨rfl, rfl⟩]
        refine settled_cutWhile (fun run d => by simp [Kind.endsBefore]) fun rest => ?_
        rw [List.takeWhile_cons_of_pos (by decide), List.takeWhile_cons_of_pos (by decide),
          List.cons_append, List.cons_append, hscan, cutSymbol, if_pos ⟨rfl, rfl⟩]
      · rw [cutSymbol, if_neg hcomment]
        split
        · next hrune =>
            refine settled_pair (fun _ => rfl) fun rest => ?_
            rw [hscan, cutSymbol, if_neg hcomment, if_pos hrune]
        · next hrune =>
            split
            · next kind hcloser =>
                refine settled_pair ?_ fun rest => ?_
                · unfold Kind.closer? at hcloser
                  split_ifs at hcloser <;> cases hcloser <;> exact fun _ => rfl
                · rw [hscan, cutSymbol, if_neg hcomment, if_neg hrune, hcloser]
            · next hcloser =>
                refine settled_cutMark hscan ?_
                rintro _ ⟨⟩
                exact ⟨hcomment, by simpa using hrune, hcloser⟩

/-- **Every cut that `scan` makes is settled.** -/
lemma settled_scan (c : Char) (cs : List Char) : (scan (c :: cs)).Settled := by
  by_cases hblank : isBlank c = true
  · have hscan : ∀ ds, scan (c :: ds) = cutWhile separatorKind isBlank (c :: ds) :=
      fun ds => if_pos hblank
    rw [hscan]
    refine settled_cutWhile endsBefore_separatorKind fun rest => ?_
    rw [List.takeWhile_cons_of_pos hblank]
    exact hscan _
  by_cases hface : isFaceStart c = true
  · have hscan : ∀ ds, scan (c :: ds) = cutWhile (fun _ => .face) isFacePart (c :: ds) :=
      fun ds => (if_neg hblank).trans (if_pos hface)
    rw [hscan]
    refine settled_cutWhile (fun _ => endsBefore_face) fun rest => ?_
    rw [List.takeWhile_cons_of_pos (by simp [isFacePart, hface])]
    exact hscan _
  by_cases hnum : isNumStart c = true
  · have hscan : ∀ ds, scan (c :: ds) = cutWhile (fun _ => .num) isNumPart (c :: ds) :=
      fun ds => (if_neg hblank).trans ((if_neg hface).trans (if_pos hnum))
    rw [hscan]
    refine settled_cutWhile (fun _ => endsBefore_num) fun rest => ?_
    rw [List.takeWhile_cons_of_pos (by simp [isNumPart, hnum])]
    exact hscan _
  have hscan : ∀ ds, scan (c :: ds) = cutSymbol c ds :=
    fun ds => (if_neg hblank).trans ((if_neg hface).trans (if_neg hnum))
  rw [hscan]
  exact settled_cutSymbol cs hscan

/-! ## Marks -/

lemma cutMark_text_of_mark {c : Char} {cs : List Char} {a : Glyph}
    (h : (cutMark c cs).kind = .mark a) : (cutMark c cs).text = [a.char] := by
  unfold cutMark at h ⊢
  cases hc : Glyph.ofChar? c with
  | none => simp [hc] at h
  | some b =>
      simp only [hc, Kind.mark.injEq] at h ⊢
      subst h
      have hchar := List.find?_some hc
      simpa [eq_comm] using hchar

lemma cutSymbol_text_of_mark {c : Char} {cs : List Char} {a : Glyph}
    (h : (cutSymbol c cs).kind = .mark a) : (cutSymbol c cs).text = [a.char] := by
  cases cs with
  | nil => exact cutMark_text_of_mark h
  | cons d cs =>
      by_cases hcomment : c = ':' ∧ d = ':'
      · rw [cutSymbol, if_pos hcomment] at h
        cases h
      cases hrune : Rune.ofChars? c d with
      | some r => simp [cutSymbol, hcomment, hrune] at h
      | none =>
          cases hcloser : Kind.closer? c d with
          | some kind =>
              simp only [cutSymbol, hcomment, hrune, hcloser, if_false] at h
              subst h
              unfold Kind.closer? at hcloser
              split_ifs at hcloser <;> cases hcloser
          | none =>
              simp only [cutSymbol, hcomment, hrune, hcloser, if_false] at h ⊢
              exact cutMark_text_of_mark h

/-- A token that is a mark has the character of its glyph as its text. -/
lemma scan_text_of_mark {cs : List Char} {a : Glyph} (h : (scan cs).kind = .mark a) :
    (scan cs).text = [a.char] := by
  cases cs with
  | nil => cases h
  | cons c cs =>
      by_cases hblank : isBlank c = true
      · rw [scan, if_pos hblank, cutWhile, separatorKind] at h
        split at h <;> cases h
      by_cases hface : isFaceStart c = true
      · rw [scan, if_neg hblank, if_pos hface] at h
        cases h
      by_cases hnum : isNumStart c = true
      · rw [scan, if_neg hblank, if_neg hface, if_pos hnum] at h
        cases h
      rw [scan, if_neg hblank, if_neg hface, if_neg hnum] at h ⊢
      exact cutSymbol_text_of_mark h

lemma text_of_mark {offset : Nat} {cs : List Char} {t : Token} {a : Glyph}
    (h : t ∈ lexFrom offset cs) (hkind : t.kind = .mark a) : t.text.toList = [a.char] := by
  fun_induction lexFrom offset cs with
  | case1 offset =>
      rw [List.mem_singleton.1 h] at hkind
      cases hkind
  | case2 offset c cs cut ih =>
      rcases List.mem_cons.1 h with rfl | h
      · rw [Cut.token, String.toList_ofList]
        exact scan_text_of_mark hkind
      · exact ih h

/-! ## Cutting a source in two -/

lemma lexFrom_cons {cs : List Char} (h : cs ≠ []) (offset : Nat) :
    lexFrom offset cs =
      (scan cs).token offset :: lexFrom (offset + byteLength (scan cs).text) (scan cs).rest := by
  cases cs with
  | nil => exact absurd rfl h
  | cons c cs => rw [lexFrom]

lemma lexFrom_ne_nil (offset : Nat) (cs : List Char) : lexFrom offset cs ≠ [] := by
  cases cs <;> simp [lexFrom]

/-- The characters that `scan` cuts, in front of others that end the token, are lexed as that token
and then the others. -/
lemma lexFrom_text {c : Char} {cs rest : List Char} (offset : Nat)
    (h : ∀ d ∈ rest.head?, (scan (c :: cs)).kind.endsBefore d = true) :
    lexFrom offset ((scan (c :: cs)).text ++ rest) = (scan (c :: cs)).token offset ::
      lexFrom (offset + byteLength (scan (c :: cs)).text) rest := by
  have hne : (scan (c :: cs)).text ++ rest ≠ [] := by
    simp [scan_text_ne_nil c cs]
  rw [lexFrom_cons hne, (settled_scan c cs).again rest h]
  rfl

/-- **A source may be cut between any two of its tokens**: the characters of the first part are
lexed as the first tokens, and those of the second part as the others. -/
lemma lexFrom_split {offset : Nat} {cs : List Char} {ts us : List Token}
    (h : lexFrom offset cs = ts ++ us) (hus : us ≠ []) :
    ∃ xs ys, cs = xs ++ ys ∧ lexFrom offset xs = ts ++ [.eof (offset + byteLength xs)] ∧
      lexFrom (offset + byteLength xs) ys = us := by
  induction ts generalizing offset cs with
  | nil => exact ⟨[], cs, rfl, by simp [lexFrom], h⟩
  | cons t ts ih =>
      cases cs with
      | nil =>
          rw [lexFrom, List.cons_append, List.cons.injEq] at h
          exact absurd (List.append_eq_nil_iff.1 h.2.symm).2 hus
      | cons c cs =>
          rw [lexFrom_cons (by simp), List.cons_append, List.cons.injEq] at h
          obtain ⟨xs, ys, hrest, hxs, hys⟩ := ih h.2
          have hends : ∀ d ∈ xs.head?, (scan (c :: cs)).kind.endsBefore d = true := by
            intro d hd
            refine (settled_scan c cs).ends d ?_
            obtain ⟨zs, rfl⟩ := List.head?_eq_some_iff.1 hd
            rw [hrest]
            rfl
          refine ⟨(scan (c :: cs)).text ++ xs, ys, ?_, ?_, ?_⟩
          · rw [List.append_assoc, ← hrest, scan_append]
          · rw [lexFrom_text offset hends, hxs, h.1, byteLength_append, Nat.add_assoc]
            rfl
          · rwa [byteLength_append, ← Nat.add_assoc]

/-- **Two lists of characters may be put side by side** if the last token of the first ends in front
of the second; their tokens are then put side by side as well. -/
lemma lexFrom_append {offset : Nat} {xs ys : List Char} {ts : List Token} {size : Nat}
    (h : lexFrom offset xs = ts ++ [.eof size])
    (hends : ∀ t ∈ ts.getLast?, ∀ d ∈ ys.head?, t.kind.endsBefore d = true) :
    lexFrom offset (xs ++ ys) = ts ++ lexFrom (offset + byteLength xs) ys := by
  induction ts generalizing offset xs with
  | nil =>
      cases xs with
      | nil => simp
      | cons c cs =>
          rw [lexFrom_cons (by simp), List.nil_append, List.cons.injEq] at h
          exact absurd h.2 (lexFrom_ne_nil _ _)
  | cons t ts ih =>
      cases xs with
      | nil =>
          rw [lexFrom, List.cons_append, List.cons.injEq] at h
          simp at h
      | cons c cs =>
          rw [lexFrom_cons (by simp), List.cons_append, List.cons.injEq] at h
          obtain ⟨rfl, hrest⟩ := h
          have hlast : ∀ u ∈ ts.getLast?, ∀ d ∈ ys.head?, u.kind.endsBefore d = true := by
            intro u hu
            exact hends u (by simp [List.getLast?_cons, Option.mem_def.1 hu])
          have hnext : ∀ d ∈ ((scan (c :: cs)).rest ++ ys).head?,
              (scan (c :: cs)).kind.endsBefore d = true := by
            intro d hd
            cases hcut : (scan (c :: cs)).rest with
            | nil =>
                rw [hcut, lexFrom] at hrest
                obtain rfl : ts = [] := by
                  simpa using congrArg List.length hrest
                rw [hcut, List.nil_append] at hd
                exact hends _ rfl d hd
            | cons e rest =>
                rw [hcut, List.cons_append, List.head?_cons] at hd
                exact (settled_scan c cs).ends d (by rw [hcut]; exact hd)
          rw [← scan_append (c :: cs), List.append_assoc, lexFrom_text offset hnext,
            ih hrest hlast, byteLength_append, Nat.add_assoc, scan_append]
          rfl

/-! ## Folded layout -/

lemma folded_eq_nil {ts : List Token} : folded ts = [] ↔ ts = [] := by
  cases ts with
  | nil => simp [folded]
  | cons t ts =>
      rcases folded_cons t ts with ⟨-, h⟩ | ⟨-, sep, -, ⟨h, -⟩ | ⟨next, rest, -, -, h⟩⟩ <;> simp [h]

/-- If the last of `ts` is no layout, then `ts` and `us` are folded apart from each other. -/
lemma folded_append {ts us : List Token} (h : ∀ t ∈ ts.getLast?, t.kind.isLayout = false) :
    folded (ts ++ us) = folded ts ++ folded us := by
  induction ts with
  | nil => rfl
  | cons t ts ih =>
      rw [List.cons_append, folded, folded]
      by_cases hts : ts = []
      · subst hts
        simp [h t rfl, folded]
      · have hlast : ∀ u ∈ ts.getLast?, u.kind.isLayout = false := by
          intro u hu
          exact h u (by simp [List.getLast?_cons, Option.mem_def.1 hu])
        rw [ih hlast]
        split
        · cases hfolded : folded ts with
          | nil => exact absurd (folded_eq_nil.1 hfolded) hts
          | cons next rest =>
              simp only [List.cons_append]
              split <;> rfl
        · rfl

/-- If `vs` is a tail of the folded tokens `folded (t :: ts)` behind the first, then it is a tail of
`folded ts`. -/
lemma exists_of_folded_cons {t : Token} {ts us vs : List Token} {u : Token}
    (h : folded (t :: ts) = u :: us ++ vs) :
    ∃ ws, folded ts = ws ++ vs ∧
      ∀ {as}, folded as = ws → folded (t :: as) = u :: us := by
  by_cases hl : t.kind.isLayout = true
  · rw [folded, if_pos hl] at h
    cases hts : folded ts with
    | nil =>
        rw [hts] at h
        obtain ⟨rfl, hnil⟩ := List.cons.inj h
        obtain ⟨rfl, rfl⟩ := List.append_eq_nil_iff.1 hnil.symm
        refine ⟨[], rfl, fun has => ?_⟩
        rw [folded, if_pos hl, has]
    | cons next rest =>
        rw [hts] at h
        by_cases hnext : next.kind.isSeparator = true
        · simp only [if_pos hnext, List.cons_append] at h
          obtain ⟨rfl, rfl⟩ := List.cons.inj h
          refine ⟨next :: us, rfl, fun has => ?_⟩
          rw [folded, if_pos hl, has]
          exact if_pos hnext
        · simp only [if_neg hnext, List.cons_append] at h
          obtain ⟨rfl, hrest⟩ := List.cons.inj h
          refine ⟨us, hrest, fun has => ?_⟩
          rw [folded, if_pos hl, has]
          cases us with
          | nil => rfl
          | cons v us =>
              obtain ⟨rfl, -⟩ := List.cons.inj hrest
              exact if_neg hnext
  · rw [folded, if_neg hl] at h
    obtain ⟨rfl, hrest⟩ := List.cons.inj h
    refine ⟨us, hrest, fun has => ?_⟩
    rw [folded, if_neg hl, has]

/-- **Folded tokens may be cut in two**, and each part is what a part of the tokens is folded to. -/
lemma folded_split {ts us vs : List Token} (h : folded ts = us ++ vs) :
    ∃ as bs, ts = as ++ bs ∧ folded as = us ∧ folded bs = vs := by
  induction ts generalizing us with
  | nil =>
      obtain ⟨rfl, rfl⟩ := List.append_eq_nil_iff.1 h.symm
      exact ⟨[], [], rfl, rfl, rfl⟩
  | cons t ts ih =>
      cases us with
      | nil => exact ⟨[], t :: ts, rfl, rfl, h⟩
      | cons u us =>
          obtain ⟨ws, hts, hfront⟩ := exists_of_folded_cons h
          obtain ⟨as, bs, rfl, has, hbs⟩ := ih hts
          exact ⟨t :: as, bs, rfl, hfront has, hbs⟩

/-- If tokens tile a range, then so do the folded ones. -/
lemma Tiles.folded {ts : List Token} {start stop : Nat} (h : Tiles start ts stop) :
    Tiles start (folded ts) stop := by
  induction ts generalizing start with
  | nil => exact h
  | cons t ts ih =>
      obtain ⟨rfl, hle, hrest⟩ := h
      have hrest := ih hrest
      rw [Runic.folded]
      split
      · split
        · next hts =>
            rw [hts] at hrest
            exact ⟨rfl, hle, hrest⟩
        · next next rest hts =>
            rw [hts] at hrest
            obtain ⟨hnext, hle', hrest⟩ := hrest
            split
            · refine ⟨?_, ?_, ?_⟩
              · simp only [Span.merge]
                omega
              · simp only [Span.merge]
                omega
              · simpa [Span.merge, hle'] using hrest
            · exact ⟨rfl, hle, hnext, hle', hrest⟩
      · exact ⟨rfl, hle, hrest⟩

/-! ## The same tokens elsewhere -/

/-- The span moved by `offset` bytes to the right. -/
def Span.moved (offset : Nat) (span : Span) : Span := ⟨span.start + offset, span.stop + offset⟩

/-- The token moved by `offset` bytes to the right. -/
def Token.moved (offset : Nat) (t : Token) : Token := { t with span := t.span.moved offset }

lemma Span.moved_merge (offset : Nat) (a b : Span) :
    (a.merge b).moved offset = (a.moved offset).merge (b.moved offset) := by
  simp [Span.moved, Span.merge]

/-- The tokens of characters that start `offset` bytes further on are the same tokens, moved by
`offset`. -/
lemma lexFrom_moved (offset start : Nat) (cs : List Char) :
    lexFrom (start + offset) cs = (lexFrom start cs).map (Token.moved offset) := by
  fun_induction lexFrom start cs with
  | case1 start => simp [lexFrom, Token.moved, Span.moved, Token.eof]
  | case2 start c cs cut ih =>
      rw [lexFrom, List.map_cons, ← ih, Nat.add_right_comm start]
      simp [Cut.token, Token.moved, Span.moved, Nat.add_right_comm, cut]

lemma folded_moved (offset : Nat) (ts : List Token) :
    folded (ts.map (Token.moved offset)) = (folded ts).map (Token.moved offset) := by
  induction ts with
  | nil => rfl
  | cons t ts ih =>
      have hkind : ∀ u : Token, (u.moved offset).kind = u.kind := fun _ => rfl
      rw [List.map_cons, folded, folded, ih, hkind]
      split
      · cases folded ts with
        | nil => rfl
        | cons next rest =>
            simp only [List.map_cons, hkind]
            split
            · simp [Token.moved, Span.moved_merge]
            · rfl
      · rfl

end Runic
