import Runic.Proofs.Attempt
import Runic.Proofs.Node.Parsed
import Runic.Proofs.Node.RoundTrip

/-!
# Wide and tall forms

A rune takes its arguments in one of two forms: between parentheses with single spaces, or one
below the other with a gap in front of each.  The two are read alike.

* `exists_spelling_of_parse` — a text that is read on its own, and that has no layout at its ends,
  is read alike as an argument.
* `Spelling.spells_stacked` — **arguments behind gaps are a phrase of a tall form.**
* `wide_tall_agree` — both forms of the same arguments are read as the same tree.
-/

namespace Runic

open Runic.Symbol (mark ace gap)
open Grammar

/-! ## Texts of arguments -/

/-- The text neither starts nor ends with a separator or a comment. -/
def Trimmed (text : String) : Prop :=
  (∀ t ∈ (lex text).head?, t.kind.isLayout = false) ∧
    ∀ t ∈ (lex text).dropLast.getLast?, t.kind.isLayout = false

instance (text : String) : Decidable (Trimmed text) :=
  inferInstanceAs (Decidable (_ ∧ _))

/-- If the reader gets through symbols with `s` at their end, then what it saw last is `next s`. -/
lemma Grammar.Seen.Passes.exists_last {q : Seen} {P : Seen → Prop} {ts : List Symbol} {s : Symbol}
    (h : q.Passes (ts ++ [s]) P) : ∃ q' : Seen, P (q'.next s) := by
  obtain ⟨q', hrun, hP⟩ := h
  rw [Seen.run_append, Option.bind_eq_some_iff] at hrun
  obtain ⟨q'', -, hrun⟩ := hrun
  rw [Seen.run_cons] at hrun
  split at hrun
  · rw [Seen.run_nil, Option.some.injEq] at hrun
    exact ⟨q'', hrun ▸ hP⟩
  · cases hrun

/-- An expression does not end with `=`. -/
lemma Grammar.Expr.last_ne_tis {ts : List Symbol} {t : Node} (h : Expr ts t) :
    ∀ s ∈ ts.getLast?, s ≠ mark .tis := by
  rintro s hs rfl
  obtain ⟨us, rfl⟩ := List.getLast?_eq_some_iff.1 hs
  obtain ⟨q, hq⟩ := (h.passes .other (.inl rfl)).exists_last
  rcases hq with hq | hq | hq <;> cases hq

/-- The last token of an expression ends in front of every character in `stoppers`. -/
lemma endsBefore_stoppers {kind : Kind} (hlayout : kind.isLayout = false)
    (htis : kind ≠ .mark .tis) {d : Char} (hd : d ∈ stoppers) : kind.endsBefore d = true := by
  have hmarks : ∀ a ∈ Glyph.all, a ≠ .tis →
      (stoppers.all fun d => (Kind.mark a).endsBefore d) = true := by
    decide +kernel
  have hwords : (stoppers.all fun d => !isFacePart d && !isNumPart d) = true := by
    decide
  have hword : isFacePart d = false ∧ isNumPart d = false := by
    simpa using List.all_eq_true.1 hwords d hd
  cases kind with
  | ace | gap | comment => cases hlayout
  | mark a =>
      exact List.all_eq_true.1 (hmarks a a.mem_all fun ha => htis (congrArg _ ha)) d hd
  | face => simp [endsBefore_face, hword.1]
  | num => simp [endsBefore_num, hword.2]
  | _ => rfl

lemma isLayout_cutMark (c : Char) (cs : List Char) : (cutMark c cs).kind.isLayout = false := by
  unfold cutMark
  split <;> rfl

/-- Only a blank and `::` start layout. -/
lemma leads_cons {c : Char} {cs : List Char} (hblank : isBlank c = false)
    (hcomment : ∀ d ∈ cs.head?, ¬ (c = ':' ∧ d = ':')) : Leads (c :: cs) := by
  rw [Leads, scan, if_neg (by simp [hblank])]
  split
  · rfl
  split
  · rfl
  cases cs with
  | nil => exact isLayout_cutMark c []
  | cons d cs =>
      rw [cutSymbol, if_neg (hcomment d rfl)]
      split
      · rfl
      split
      · next kind hkind =>
          unfold Kind.closer? at hkind
          split_ifs at hkind <;> cases hkind <;> rfl
      · exact isLayout_cutMark c (d :: cs)

/-- Only a single `:` can be made a comment by what stands behind it. -/
lemma Leads.leading {cs : List Char} (h : Leads cs) (hne : cs ≠ [])
    (hcol : (scan cs).kind ≠ .mark .col) : Leading cs := by
  intro rest
  obtain ⟨c, cs, rfl⟩ := List.exists_cons_of_ne_nil hne
  refine leads_cons h.isBlank ?_
  rintro d hd ⟨rfl, rfl⟩
  cases cs with
  | nil => exact hcol rfl
  | cons e cs =>
      cases hd
      cases h

lemma head_lexFrom (offset : Nat) (cs : List Char) :
    (lexFrom offset cs).head? = some ((scan cs).token offset) := by
  cases cs with
  | nil => simp [lexFrom, scan, Cut.token, Token.eof]
  | cons c cs => rw [lexFrom, List.head?_cons]

/-- The phrase of a trimmed text is the list of all of its symbols. -/
lemma phrase_of_trimmed {text : String} (h : Trimmed text) {ts : List Token} {size : Nat}
    (hlex : lex text = ts ++ [.eof size]) : phrase text = (folded ts).map Token.symbol := by
  obtain ⟨hfirst, hlast⟩ := h
  rw [hlex, List.dropLast_concat] at hlast
  rw [phrase, hlex, folded_concat ts rfl, List.map_append, List.map_singleton,
    List.dropLast_concat]
  by_cases hne : ts = []
  · simp [hne, folded]
  have hhead : ∀ s ∈ ((folded ts).map Token.symbol).head?, s.kind.isSeparator = false := by
    obtain ⟨t, us, rfl⟩ := List.exists_cons_of_ne_nil hne
    have ht : t.kind.isLayout = false := hfirst t (by rw [hlex]; rfl)
    rw [folded, if_neg (by simp [ht])]
    rintro _ ⟨⟩
    rw [Token.kind_symbol]
    exact isSeparator_eq_false (by simp [ht])
  have hback : ∀ s ∈ ((folded ts).map Token.symbol).getLast?, s.kind.isSeparator = false := by
    obtain ⟨us, t, rfl⟩ := (List.eq_nil_or_concat' ts).resolve_left hne
    have ht : t.kind.isLayout = false := hlast t (by simp)
    intro s hs
    obtain rfl : t.symbol = s := by simpa [folded_concat us ht] using hs
    rw [Token.kind_symbol]
    exact isSeparator_eq_false (by simp [ht])
  have hnone : ∀ s ∈ ([] : List Symbol), s.kind.isSeparator = true := by simp
  simpa using trim_eq hnone hnone hhead hback (by simpa [folded_eq_nil] using hne)

section

variable {text : String} {ts : List Token} {size : Nat} {n : Node}

/-- A trimmed text that is an expression does not start with layout, whatever stands behind it. -/
lemma leading_of_trimmed (hlex : lex text = ts ++ [.eof size]) (h : Trimmed text)
    (hexpr : Expr ((folded ts).map Token.symbol) n) : Leading text.toList := by
  obtain ⟨s, us, hsymbols, hopens⟩ := hexpr.starts
  have hne : ts ≠ [] := by
    rintro rfl
    cases hsymbols
  obtain ⟨t, ts, rfl⟩ := List.exists_cons_of_ne_nil hne
  have hkind : (scan text.toList).kind = t.kind := by
    have hhead := head_lexFrom 0 text.toList
    rw [← lex, hlex] at hhead
    exact (congrArg Token.kind (Option.some.inj hhead)).symm
  have hlead : t.kind.isLayout = false := h.1 t (by rw [hlex]; rfl)
  rw [folded, if_neg (by simp [hlead]), List.map_cons, List.cons.injEq] at hsymbols
  rw [← hsymbols.1, Token.kind_symbol] at hopens
  have hleads : Leads text.toList := by rwa [Leads, hkind]
  refine hleads.leading ?_ ?_
  · intro hnil
    rw [lex, hnil, lexFrom] at hlex
    simp at hlex
  · rw [hkind]
    intro hcol
    rw [hcol] at hopens
    cases hopens

/-- A trimmed text that is an expression is read as its symbols, whatever may stand behind a
tree. -/
lemma spells_of_trimmed (hlex : lex text = ts ++ [.eof size]) (h : Trimmed text)
    (hexpr : Expr ((folded ts).map Token.symbol) n) :
    Spells text.toList ((folded ts).map Token.symbol) := by
  have hlast := h.2
  rw [hlex, List.dropLast_concat] at hlast
  intro rest hrest
  have hends : ∀ t ∈ ts.getLast?, ∀ d ∈ rest.head?, t.kind.endsBefore d = true := by
    intro t ht d hd
    refine endsBefore_stoppers (hlast t ht) ?_ (hrest d hd)
    intro htis
    obtain ⟨us, rfl⟩ := List.getLast?_eq_some_iff.1 ht
    rw [folded_concat us (hlast t ht)] at hexpr
    exact hexpr.last_ne_tis t.symbol (by simp) (Token.symbol_of_mark htis)
  rw [reading, lexFrom_append hlex hends, folded_append hlast, List.map_append, reading_eq]

end

/-- **A trimmed text that `parse` reads is a `Spelling` of its tree**, so it is read alike as an
argument. -/
lemma exists_spelling_of_parse {text : String} {n : Node} (h : parse text = .ok n)
    (htrimmed : Trimmed text) : ∃ a : Spelling, a.text = text.toList ∧ a.tree = n.bare := by
  obtain ⟨ts, size, hlex, -⟩ := lexFrom_eq 0 text.toList
  have hexpr := expr_of_parse h
  rw [phrase_of_trimmed htrimmed hlex] at hexpr
  exact ⟨⟨text.toList, n.bare, leading_of_trimmed hlex htrimmed hexpr, _,
    spells_of_trimmed hlex htrimmed hexpr, hexpr⟩, rfl, rfl⟩

/-! ## Tall forms -/

lemma reading_tistis (cs : List Char) :
    reading ('=' :: '=' :: cs) = .plain .tistis :: reading cs := by
  have hrune : Rune.ofChars? '=' '=' = none := by decide +kernel
  have hscan : scan ('=' :: '=' :: cs) = ⟨.tistis, ['=', '='], cs⟩ := by
    refine (scan_glyph .tis _).trans ?_
    rw [cutSymbol, if_neg (by decide), Glyph.char, hrune]
    rfl
  exact reading_of_scan hscan rfl (by simp)

lemma leads_tistis (cs : List Char) : Leads ('=' :: '=' :: cs) :=
  leads_glyph (by decide : Glyph.tis ≠ .col) _

/-- The texts of arguments that each stand behind a gap, one below the other.  The closer of a
jogging list stands behind its items, the gap `closing` in front of it, and before the arguments
that come last. -/
def Signature.stacked (s : Signature) (closing : Gap) (texts : List (List Char)) : List Char :=
  if s.tail = .fixed then texts.flatten
  else (texts.take (texts.length - s.post)).flatten ++
    (closing.chars ++ '=' :: '=' :: (texts.drop (texts.length - s.post)).flatten)

lemma Signature.stacked_append {s : Signature} (htail : s.tail ≠ .fixed) (closing : Gap)
    (front : List (List Char)) {post : List (List Char)} (hpost : post.length = s.post) :
    s.stacked closing (front ++ post) =
      front.flatten ++ (closing.chars ++ '=' :: '=' :: post.flatten) := by
  have hlength : (front ++ post).length - s.post = front.length := by
    rw [List.length_append, hpost, Nat.add_sub_cancel]
  rw [stacked, if_neg htail, hlength, List.take_left, List.drop_left]

namespace Spelling

/-- The text of a spelling behind a gap. -/
def behind (a : Gap × Spelling) : List Char := a.1.chars ++ a.2.text

lemma stops_behind (args : List (Gap × Spelling)) {rest : List Char} (h : Stops rest) :
    Stops (args.flatMap behind ++ rest) := by
  cases args with
  | nil => exact h
  | cons a args =>
      rw [List.flatMap_cons, behind, List.append_assoc, List.append_assoc]
      exact a.1.stops _

/-- Spellings behind gaps, one behind the other, are read as a gapped list of their trees. -/
lemma spells_behind (args : List (Gap × Spelling)) :
    ∃ ts, Spells (args.flatMap behind) ts ∧ Gapped ts (args.map fun a => a.2.tree) := by
  induction args with
  | nil => exact ⟨[], spells_nil, .none⟩
  | cons a args ih =>
      obtain ⟨us, hus, hgapped⟩ := ih
      obtain ⟨ts, hts, hexpr⟩ := a.2.spells
      refine ⟨gap :: ts ++ us, ?_, .more hexpr hgapped⟩
      intro rest hrest
      rw [List.flatMap_cons, behind, List.append_assoc, List.append_assoc,
        a.1.reading (a.2.leading _), hts _ (stops_behind args hrest), hus rest hrest]
      simp

/-- The closer `==` of a tall form behind a gap is read as a gap and the closer. -/
lemma spells_closer (closing : Gap) {cs : List Char} {ts : List Symbol} (h : Spells cs ts) :
    Spells (closing.chars ++ '=' :: '=' :: cs) (gap :: .plain .tistis :: ts) := by
  intro rest hrest
  rw [List.append_assoc, List.cons_append, List.cons_append, closing.reading (leads_tistis _),
    reading_tistis, h rest hrest]
  rfl

/-- The fixed arguments, the items with their closer, and the arguments behind them are read as the
tall form of a jogging list. -/
lemma spells_stacked_closed {s : Signature} {fixed items post : List (Gap × Spelling)}
    (closing : Gap) (hcloser : s.tail.closer? = some .tistis) (hfixed : fixed.length = s.args)
    (heven : s.tail = .pairs → items.length % 2 = 0) (hpost : post.length = s.post) :
    ∃ ts, Spells (s.stacked closing ((fixed ++ items ++ post).map behind)) ts ∧
      Tall s ts ((fixed ++ items ++ post).map fun a => a.2.tree) := by
  obtain ⟨ts, hts, hgapped⟩ := spells_behind fixed
  obtain ⟨us, hus, hgapped'⟩ := spells_behind items
  obtain ⟨vs, hvs, hgapped''⟩ := spells_behind post
  have htail : s.tail ≠ .fixed := by
    intro htail
    rw [htail] at hcloser
    cases hcloser
  have hstacked : s.stacked closing ((fixed ++ items ++ post).map behind) =
      fixed.flatMap behind ++ (items.flatMap behind ++
        (closing.chars ++ '=' :: '=' :: post.flatMap behind)) := by
    rw [List.map_append, Signature.stacked_append htail closing _ (by simpa using hpost)]
    simp [List.flatMap]
  refine ⟨ts ++ us ++ gap :: .plain .tistis :: vs, ?_, ?_⟩
  · rw [hstacked]
    intro rest hrest
    have hcloser := spells_closer closing hvs
    have hstops : Stops (closing.chars ++ '=' :: '=' :: post.flatMap behind ++ rest) := by
      rw [List.append_assoc]
      exact closing.stops _
    rw [List.append_assoc, List.append_assoc, hts _ (stops_behind items hstops), hus _ hstops,
      hcloser rest hrest]
    simp
  · have htall := Tall.closed hcloser hgapped (by simpa using hfixed) hgapped'
      (by simpa using heven) hgapped'' (by simpa using hpost)
    simpa using htall

/-- **The text `stacked` of arguments behind gaps is a phrase of the tall form of their rune.** -/
theorem spells_stacked {r : Rune} {s : Signature} (hs : r.signature? = some s)
    (args : List (Gap × Spelling)) (closing : Gap) (harms : s.tail ≠ .arms)
    (haccepts : s.accepts args.length = true)
    (hpost : s.tail = .pairs → s.post = 0 ∨ s.least < args.length) :
    ∃ ts, Spells (s.stacked closing (args.map behind)) ts ∧
      Tall s ts (args.map fun a => a.2.tree) := by
  cases htail : s.tail with
  | arms => exact absurd htail harms
  | fixed =>
      obtain ⟨ts, hts, hgapped⟩ := spells_behind args
      have hcount : args.length = s.args := by
        simpa [Signature.accepts, htail] using haccepts
      have htall := Tall.fixed htail hgapped (by simpa using hcount) .none
        (Signature.post_eq_zero hs htail).symm
      refine ⟨ts, ?_, by simpa using htall⟩
      rw [Signature.stacked, if_pos htail]
      exact hts
  | pairs =>
      obtain ⟨fixed, items, post, rfl, hfixed, heven, hback, -⟩ :=
        Signature.exists_parts htail haccepts (hpost htail)
      exact spells_stacked_closed closing (by rw [htail]; rfl) hfixed (fun _ => heven) hback
  | list =>
      have hzero : s.post = 0 := by
        cases r <;> cases hs <;> first | rfl | cases htail
      have hcount : s.args ≤ args.length := by
        simpa [Signature.accepts, htail] using haccepts
      have hparts : args.take s.args ++ args.drop s.args ++ [] = args := by simp
      rw [← hparts]
      refine spells_stacked_closed closing (by rw [htail]; rfl) ?_ ?_ hzero.symm
      · rw [List.length_take]
        omega
      · rw [htail]
        simp

end Spelling

/-! ## Both forms -/

/-- The rune `r` with `texts` as its arguments, in wide form. -/
def Rune.wideText (r : Rune) (s : Signature) (texts : List String) : String :=
  String.ofList (r.text.toList ++ ('(' :: s.layout (texts.map String.toList) ++ [')']))

/-- The rune `r` with `texts` as its arguments, in tall form: a gap in front of each, and one in
front of the closer if there is one. -/
def Rune.tallText (r : Rune) (s : Signature) (gaps : List Gap) (closing : Gap)
    (texts : List String) : String :=
  String.ofList (r.text.toList ++
    s.stacked closing (gaps.zipWith (fun g text => g.chars ++ text.toList) texts))

lemma exists_spellings_of_parse {texts : List String} {nodes : List Node}
    (h : List.Forall₂ (fun text n => parse text = .ok n ∧ Trimmed text) texts nodes) :
    ∃ args : List Spelling, args.map Spelling.text = texts.map String.toList ∧
      args.map Spelling.tree = Node.bareAll nodes := by
  induction h with
  | nil => exact ⟨[], rfl, rfl⟩
  | cons hfirst _ ih =>
      obtain ⟨args, htexts, htrees⟩ := ih
      obtain ⟨a, htext, htree⟩ := exists_spelling_of_parse hfirst.1 hfirst.2
      exact ⟨a :: args, by simp [htexts, htext], by simp [htrees, htree]⟩

/-- **Wide and tall forms agree.**  Take a rune that has a wide form, and texts that are read on
their own and have no layout at their ends, as many as the rune accepts.  Between parentheses, with
single spaces between them and commas between pairs, and one below the other, with any gap in front
of each and the closer in its place, they are read as the rune applied to what the texts are read
as. -/
theorem wide_tall_agree {r : Rune} {s : Signature} (hs : r.signature? = some s)
    (harms : s.tail ≠ .arms) {texts : List String} {nodes : List Node}
    (h : List.Forall₂ (fun text n => parse text = .ok n ∧ Trimmed text) texts nodes)
    (haccepts : s.accepts texts.length = true) (htiscol : r = .tiscol → 3 ≤ texts.length)
    {gaps : List Gap} (hgaps : gaps.length = texts.length) (closing : Gap) :
    (∃ w, parse (r.wideText s texts) = .ok w ∧ w.bare = (Node.rune r nodes .nowhere).bare) ∧
      ∃ t, parse (r.tallText s gaps closing texts) = .ok t ∧
        t.bare = (Node.rune r nodes .nowhere).bare := by
  obtain ⟨args, htexts, htrees⟩ := exists_spellings_of_parse h
  obtain ⟨a, b, hr⟩ := Rune.exists_glyphs hs
  have hlength : args.length = texts.length := by simpa using congrArg List.length htexts
  have hpost : s.tail = .pairs → s.post = 0 ∨ s.least < args.length := by
    intro htail
    by_cases hzero : s.post = 0
    · exact .inl hzero
    · obtain ⟨rfl, hleast⟩ := Node.eq_tiscol hs htail hzero
      have hthree := htiscol rfl
      exact .inr (by omega)
  rw [← hlength] at haccepts hgaps
  rw [Node.bare, ← htrees]
  constructor
  · obtain ⟨ts, hts, hwide⟩ := Spelling.spells_layout args harms haccepts hpost
    rw [Rune.wideText, ← htexts]
    exact parse_of_spells (hts.parens.rune hr)
      (.chain (.operand (.wide hs hwide (by simpa using haccepts))))
  · have hzip : gaps.zipWith (fun g text => g.chars ++ text.toList) texts =
        (gaps.zip args).map Spelling.behind := by
      have hchars : gaps.zipWith (fun g text => g.chars ++ text.toList) texts =
          gaps.zipWith (fun g cs => g.chars ++ cs) (texts.map String.toList) := by
        rw [List.zipWith_map_right]
      rw [hchars, ← htexts, List.zipWith_map_right, List.zip, List.map_zipWith]
      rfl
    have htrees' : (gaps.zip args).map (fun a => a.2.tree) = args.map Spelling.tree := by
      have hsnd : (gaps.zip args).map Prod.snd = args := List.map_snd_zip hgaps.ge
      exact List.map_map.symm.trans (congrArg (List.map Spelling.tree) hsnd)
    have hlength' : (gaps.zip args).length = args.length := by
      simp [hgaps]
    rw [← hlength'] at haccepts hpost
    obtain ⟨ts, hts, htall⟩ :=
      Spelling.spells_stacked hs (gaps.zip args) closing harms haccepts hpost
    rw [Rune.tallText, hzip, ← htrees']
    exact parse_of_spells (hts.rune hr) (.chain (.operand (.tall hs htall)))

/-- The arguments of a `=:` with two pairs, some in wide and some in tall form themselves. -/
def joggingTexts : List String := ["a", ".+(a)", "b", "[c 1.000]", "?-  a\n=="]

/-- What `joggingTexts` are read as. -/
def joggingNodes : List Node :=
  [.face "a" ⟨0, 1⟩, .rune .dotlus [.face "a" ⟨3, 4⟩] ⟨0, 5⟩, .face "b" ⟨0, 1⟩,
    .cell (.face "c" ⟨1, 2⟩) (.num "1.000" ⟨3, 8⟩) ⟨1, 8⟩,
    .rune .wuthep [.face "a" ⟨4, 5⟩] ⟨0, 8⟩]

/-- Two spaces. -/
def Gap.spaces : Gap := ⟨[' ', ' '], by simp [isBlank], by simp, by simp⟩

/-- A new line. -/
def Gap.line : Gap := ⟨['\n'], by simp [isBlank], by simp, by simp⟩

theorem wide_tall_agree_jogging :
    (∃ w, parse "=:(a .+(a), b [c 1.000] ?-  a\n==)" = .ok w ∧
        w.bare = (Node.rune .tiscol joggingNodes .nowhere).bare) ∧
      ∃ t, parse "=:  a\n.+(a)\nb  [c 1.000]\n==  ?-  a\n==" = .ok t ∧
        t.bare = (Node.rune .tiscol joggingNodes .nowhere).bare := by
  have hread : ∀ p ∈ joggingTexts.zip joggingNodes,
      (parse p.1).toOption = some p.2 ∧ Trimmed p.1 := by
    decide +kernel
  have hgaps : [Gap.spaces, .line, .line, .spaces, .spaces].length = joggingTexts.length := rfl
  have hagree := wide_tall_agree (rfl : Rune.tiscol.signature? = some (.pairs 0 1)) (by decide)
    (List.forall₂_iff_zip.2 ⟨rfl, fun hp => ⟨eq_ok_of_toOption (hread _ hp).1, (hread _ hp).2⟩⟩)
    rfl (fun _ => by decide) hgaps .line
  have hwide : Rune.tiscol.wideText (.pairs 0 1) joggingTexts =
      "=:(a .+(a), b [c 1.000] ?-  a\n==)" := by
    decide +kernel
  have htall : Rune.tiscol.tallText (.pairs 0 1) [.spaces, .line, .line, .spaces, .spaces] .line
      joggingTexts = "=:  a\n.+(a)\nb  [c 1.000]\n==  ?-  a\n==" := by
    decide +kernel
  rwa [hwide, htall] at hagree

end Runic
