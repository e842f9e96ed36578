import Runic.Proofs.Attempt
import Runic.Proofs.Node.Parsing
import Runic.Proofs.Node.Places

/-!
# Excerpts of a source

A part of a source that goes from one token to another has the same tokens on its own
(`Excerpt`), so each tree that is read somewhere in a source is read from its part of it alone.

* `exists_excerpt` — tokens side by side in a source have a part of it to themselves.
* `exists_placed_of_parse` — all nodes of the tree of a source stand among its tokens.
* `parse_excerpt` — **what the span of a node cuts out of the source is read as that node**, in
  brackets if the node is a cell.
-/

namespace Runic

open Grammar Parse

/-! ## Parts of a source -/

/-- A part of `source` whose folded tokens are `ts`, and what stands around it. -/
structure Excerpt (source : String) (ts : List Token) where
  before : List Char
  part : List Char
  after : List Char
  /-- The tokens before layout is folded. -/
  raw : List Token
  source_eq : source.toList = before ++ part ++ after
  lexFrom_eq : lexFrom (byteLength before) part =
    raw ++ [.eof (byteLength before + byteLength part)]
  folded_eq : folded raw = ts
  mem_lex : ∀ t ∈ raw, t ∈ lex source

/-- **Tokens side by side in a folded source have an excerpt of their own**, unless nothing stands
behind them, not even the end. -/
lemma exists_excerpt {source : String} {us ts vs : List Token}
    (h : folded (lex source) = us ++ ts ++ vs) (hvs : vs ≠ []) :
    ∃ x : Excerpt source ts, us ≠ [] → x.before ≠ [] := by
  rw [List.append_assoc] at h
  obtain ⟨as, bs, hlex, rfl, hbs⟩ := folded_split h
  obtain ⟨raw, cs, rfl, hraw, hcs⟩ := folded_split hbs
  have hne : cs ≠ [] := by
    rintro rfl
    exact hvs hcs.symm
  obtain ⟨before, rest, hsource, hbefore, hrest⟩ := lexFrom_split hlex (by simp [hne])
  obtain ⟨part, after, rfl, hpart, -⟩ := lexFrom_split hrest hne
  rw [Nat.zero_add] at hpart
  refine ⟨⟨before, part, after, raw, by rw [hsource, List.append_assoc], hpart, hraw, ?_⟩, ?_⟩
  · intro t ht
    rw [hlex]
    simp [ht]
  · rintro hus (rfl : before = [])
    have has : as = [] := by simpa [lexFrom] using hbefore
    exact hus (folded_eq_nil.2 has)

lemma Tiles.span_eq {ts : List Token} {start stop : Nat} {span : Span} (h : Tiles start ts stop)
    (hcovers : Covers ts span) : span = ⟨start, stop⟩ := by
  obtain ⟨first, last, hfirst, hlast, rfl⟩ := hcovers
  obtain ⟨us, rfl⟩ := List.getLast?_eq_some_iff.1 hlast
  obtain ⟨mid, -, -, -, rfl⟩ := tiles_append.1 h
  obtain ⟨vs, hvs⟩ := List.head?_eq_some_iff.1 hfirst
  rw [hvs] at h
  rw [h.1]

lemma eq_singleton_of_folded {ts : List Token} {u : Token} (h : folded ts = [u])
    (hu : u.kind.isSeparator = false) : ts = [u] := by
  cases ts with
  | nil => cases h
  | cons t ts =>
      rcases folded_cons t ts with ⟨-, ht⟩ | ⟨-, sep, hsep, ⟨ht, -⟩ | ⟨next, rest, -, -, ht⟩⟩
      · obtain ⟨rfl, hts⟩ := List.cons.inj (ht.symm.trans h)
        rw [folded_eq_nil.1 hts]
      · rw [(List.cons.inj (ht.symm.trans h)).1, hu] at hsep
        cases hsep
      · rw [(List.cons.inj (ht.symm.trans h)).1, hu] at hsep
        cases hsep

namespace Excerpt

variable {source : String} {ts : List Token}

/-- A span that covers the tokens of an excerpt is that of its part of the source. -/
lemma span_eq (x : Excerpt source ts) {span : Span} (h : Covers ts span) :
    span = ⟨byteLength x.before, byteLength x.before + byteLength x.part⟩ := by
  have htiles := tiles_lexFrom (byteLength x.before) x.part
  rw [x.lexFrom_eq, tiles_append] at htiles
  obtain ⟨_, htiles, rfl, -⟩ := htiles
  rw [← x.folded_eq] at h
  exact htiles.folded.span_eq h

lemma slice_eq (x : Excerpt source ts) {span : Span} (h : Covers ts span) :
    span.slice? source = some (String.ofList x.part) := by
  rw [x.span_eq h]
  exact Runic.slice_eq x.source_eq rfl rfl

/-- An excerpt without its last token, which is a mark, is an excerpt. -/
lemma exists_concat {a : Glyph} {u : Token} (x : Excerpt source (ts ++ [u]))
    (hu : u.kind = .mark a) :
    ∃ y : Excerpt source ts, y.before = x.before ∧ x.part = y.part ++ [a.char] := by
  obtain ⟨raw, us, hraw, hts, hus⟩ := folded_split x.folded_eq
  -- A mark is no layout, so nothing was folded into it.
  obtain rfl := eq_singleton_of_folded hus (by rw [hu]; rfl)
  have hlex := x.lexFrom_eq
  rw [hraw, List.append_assoc] at hlex
  obtain ⟨part, last, hpart, hlex, hlast⟩ := lexFrom_split hlex (by simp)
  have hmem : u ∈ lexFrom (byteLength x.before + byteLength part) last := by
    rw [hlast]
    simp
  obtain rfl : last = [a.char] := by
    have htexts := flatMap_lexFrom (byteLength x.before + byteLength part) last
    rw [hlast] at htexts
    simpa [text_of_mark hmem hu, Token.eof] using htexts.symm
  have hsource : source.toList = x.before ++ part ++ (a.char :: x.after) := by
    rw [x.source_eq, hpart]
    simp
  refine ⟨⟨x.before, part, _, raw, hsource, hlex, hts, fun t ht => x.mem_lex t ?_⟩, rfl, hpart⟩
  rw [hraw]
  exact List.mem_append_left _ ht

end Excerpt

/-! ## Reading parts -/

lemma tokens_ofSource {source : String} {c : Cursor} (h : Cursor.ofSource source = .ok c) :
    c.tokens = folded (lex source) := by
  obtain ⟨first, raw, hlex, hcursor⟩ := ofSource_eq source
  rw [h] at hcursor
  split at hcursor
  · next token rest hfold =>
      cases hcursor
      rw [hlex, folded_of_fold hfold, Cursor.tokens]
  · cases hcursor

/-- There is a cursor on a text whose tokens are legal, and it shows these tokens. -/
lemma exists_ofSource {text : String} {offset : Nat} {us : List Token}
    (h : (lex text).map (Token.moved offset) = us) (hlegal : ∀ t ∈ us, t.kind ≠ .illegal) :
    ∃ c, Cursor.ofSource text = .ok c ∧ c.Clean ∧ (c.moved offset).tokens = folded us := by
  have hlegal : ∀ t ∈ lex text, t.kind ≠ .illegal :=
    fun t ht => hlegal (t.moved offset) (h ▸ List.mem_map_of_mem ht)
  obtain ⟨first, raw, hlex, hcursor⟩ := ofSource_eq text
  obtain ⟨token, rest, hfold, hsuffix⟩ := exists_fold (hlegal first (by simp [hlex])) raw
  have hcursor : Cursor.ofSource text = .ok ⟨token, rest, 0⟩ := by
    rw [hcursor, hfold]
  refine ⟨_, hcursor, ⟨ended_ofSource hcursor, fun u hu => hlegal u ?_⟩, ?_⟩
  · rw [hlex]
    exact List.mem_cons_of_mem _ (hsuffix.mem hu)
  · rw [Cursor.tokens_moved, tokens_ofSource hcursor, ← folded_moved, h]

lemma skipSeparator_eq_ok {c d : Cursor} (hc : c.Ended) (h : skipSeparator c = (.ok (), d)) :
    ∃ us, c.tokens = us ++ d.tokens ∧ (c.current.kind.isSeparator = false → d = c) := by
  obtain ⟨_, _, ⟨⟩, h⟩ := Attempt.bind_eq_ok.1 h
  by_cases hsep : c.current.kind.isSeparator = true
  · rw [if_pos hsep] at h
    obtain ⟨t, e, hbump, ⟨⟩⟩ := Attempt.bind_eq_ok.1 h
    have hkind : c.current.kind ≠ .eof := by
      intro hkind
      rw [hkind] at hsep
      cases hsep
    obtain ⟨-, htokens, -⟩ := bump_eq_ok hc hkind hbump
    exact ⟨[c.current], htokens, by simp [hsep]⟩
  · rw [if_neg hsep] at h
    cases h
    exact ⟨[], rfl, fun _ => rfl⟩

/-- If `parse` succeeds, then a separator in front was skipped, and `expr` gave the tree from
there. -/
lemma exists_run_of_parse {source : String} {n : Node} (h : parse source = .ok n) :
    ∃ (c d e : Cursor) (us : List Token), Cursor.ofSource source = .ok c ∧
      c.tokens = us ++ d.tokens ∧ (c.current.kind.isSeparator = false → d = c) ∧
      expr d.budget d = (.ok n, e) := by
  unfold parse at h
  split at h
  · next c hc =>
      obtain ⟨f, hrun⟩ : ∃ f, whole c = (.ok n, f) := ⟨(whole c).2, by rw [← h]⟩
      obtain ⟨_, d, hskip, hrun⟩ := Attempt.bind_eq_ok.1 hrun
      obtain ⟨us, htokens, hd⟩ := skipSeparator_eq_ok (ended_ofSource hc) hskip
      obtain ⟨m, e, hexpr, hrun⟩ := Attempt.bind_eq_ok.1 hrun
      obtain ⟨-, g, -, hrun⟩ := Attempt.bind_eq_ok.1 hrun
      obtain ⟨_, _, ⟨⟩, hrun⟩ := Attempt.bind_eq_ok.1 hrun
      by_cases heof : g.current.kind = .eof
      · rw [if_pos heof] at hrun
        cases hrun
        exact ⟨c, d, e, us, hc, htokens, hd, hexpr⟩
      · rw [if_neg heof] at hrun
        cases hrun
  · cases h

/-- If `expr` succeeds, then it does so on the cursor moved by `offset`, with any larger budget, and
gives the tree moved by `offset`. -/
lemma expr_moved (offset more : Nat) {budget : Nat} {c e : Cursor} {n : Node} (hc : c.Clean)
    (h : expr budget c = (.ok n, e)) :
    ∃ e', expr (budget + more) (c.moved offset) = (.ok (n.moved offset), e') := by
  obtain ⟨us, htaken, -⟩ := replays_expr offset more budget c hc.ended n e h
  have htokens : (c.moved offset).tokens =
      us.map (Token.moved offset) ++ e.tokens.map (Token.moved offset) := by
    rw [Cursor.tokens_moved, htaken.tokens, List.map_append]
  obtain ⟨e', hrun, -⟩ := htaken.again (c.moved offset) _ (hc.moved offset) htokens rfl (by
    rintro _ ⟨⟩
    exact .inl rfl)
  exact ⟨e', hrun⟩

/-- If `expr` reads a text, moved by `offset`, up to its end, then `parse` reads the text as the
tree that is moved. -/
lemma exists_parse_of_expr {text : String} {c d : Cursor} {offset budget size : Nat} {m : Node}
    (hc : Cursor.ofSource text = .ok c) (hclean : c.Clean)
    (hread : expr budget (c.moved offset) = (.ok m, d)) (hend : d.tokens = [.eof size]) :
    ∃ n, parse text = .ok n ∧ n.moved offset = m := by
  obtain ⟨us, hview, hexpr, -⟩ := takes_expr budget _ (hclean.moved offset).ended m d hread
  rw [Cursor.view_moved, Cursor.view_eq_map d, hend] at hview
  have hphrase : phrase text = us := by
    refine phrase_eq ?_ (List.forall_mem_nil _) (List.forall_mem_nil _) hexpr
    rw [← view_ofSource hc, hview, List.nil_append, List.append_nil]
    rfl
  obtain ⟨n, hparse, -⟩ := parse_of_expr (hphrase ▸ hexpr)
  obtain ⟨_, _, e, vs, hc', -, hd, hrun⟩ := exists_run_of_parse hparse
  obtain rfl := Except.ok.inj (hc.symm.trans hc')
  have hsep : c.current.kind.isSeparator = false := by
    obtain ⟨s, ts, rfl, hs⟩ := hexpr.starts
    have hfirst : c.current.symbol = s := (List.cons.inj hview).1
    rw [← Token.kind_symbol, hfirst]
    exact isSeparator_of_opens hs
  rw [hd hsep] at hrun
  -- The two runs differ in place and budget.  Both are brought to the place of the second and to
  -- the sum of the budgets, where they are one run.
  obtain ⟨e₁, h₁⟩ := expr_moved offset budget hclean hrun
  obtain ⟨e₂, h₂⟩ := expr_moved 0 c.budget (hclean.moved offset) hread
  rw [Cursor.moved_zero, Node.moved_zero, Nat.add_comm, h₁] at h₂
  cases h₂
  exact ⟨n, hparse, rfl⟩

lemma Kind.isCalm_eof : Kind.eof.IsCalm := ⟨by simp, by simp, by simp⟩

/-- What is read between brackets as a cell is read by `expr` with the brackets. -/
lemma exists_expr_of_readBetween {d : Cursor} {t u v : Token} {ts : List Token} {m : Node}
    (hd : d.Clean) (htokens : d.tokens = t :: (ts ++ [u] ++ [v])) (ht : t.kind = .mark .sel)
    (hu : u.kind = .mark .ser) (hv : v.kind.IsCalm) (h : ReadBetween 0 ts m) :
    ∃ budget d', expr budget d = (.ok m, d') ∧ d'.tokens = [v] := by
  obtain ⟨budget, hread⟩ := h
  obtain ⟨d₁, hsel, hd₁, htokens₁, -⟩ := exists_bump hd htokens (by simp [ht])
  obtain ⟨d₂, hcons, hd₂, htokens₂⟩ := hread d₁ [u, v] hd₁ (by simpa using htokens₁) (by
    rintro _ ⟨⟩
    exact hu)
  obtain ⟨d₃, hser, -, htokens₃, -⟩ := exists_bump hd₂ htokens₂ (by simp [hu])
  have hexpect : expect (.mark .ser) d₂ = (.ok (), d₃) := by
    rw [expect, Attempt.bind_apply]
    simp only [peek, Cursor.current_of_tokens htokens₂, hu, if_true, Attempt.bind_apply, hser]
    rfl
  have hoperand : operand (budget + 1) d = (.ok m, d₃) := by
    rw [operand]
    simp only [Attempt.bind_apply, hsel, ht, hcons, hexpect, Node.moved_zero]
    rfl
  refine ⟨budget + 2, d₃, ?_, htokens₃⟩
  rw [expr_of_operand hoperand, chain_of_calm]
  rwa [Cursor.current_of_tokens htokens₃]

namespace Excerpt

variable {source : String} {ts : List Token} {m : Node}

/-- The tokens of the part on its own, moved to where it stands, are those of the excerpt. -/
lemma map_lex (x : Excerpt source ts) :
    (lex (String.ofList x.part)).map (Token.moved (byteLength x.before)) =
      x.raw ++ [.eof (byteLength x.before + byteLength x.part)] := by
  rw [lex, String.toList_ofList, ← lexFrom_moved, Nat.zero_add, x.lexFrom_eq]

/-- If all tokens of the source are legal, so are those of an excerpt. -/
lemma legal (x : Excerpt source ts) (h : ∀ t ∈ lex source, t.kind ≠ .illegal) (size : Nat) :
    ∀ t ∈ x.raw ++ [.eof size], t.kind ≠ .illegal := by
  intro t ht
  rcases List.mem_append.1 ht with ht | ht
  · exact h t (x.mem_lex t ht)
  · simp [List.mem_singleton.1 ht, Token.eof]

lemma folded_raw (x : Excerpt source ts) (size : Nat) :
    folded (x.raw ++ [.eof size]) = ts ++ [.eof size] := by
  rw [folded_concat _ rfl, x.folded_eq]

/-- If an expression is read alone from the tokens of an excerpt, then `parse` reads the part as
that expression. -/
lemma exists_parse (x : Excerpt source ts) (hlegal : ∀ t ∈ lex source, t.kind ≠ .illegal)
    (h : ReadAlone 0 ts m) :
    ∃ n, parse (String.ofList x.part) = .ok n ∧ n.moved (byteLength x.before) = m := by
  obtain ⟨c, hc, hclean, htokens⟩ := exists_ofSource x.map_lex (x.legal hlegal _)
  obtain ⟨budget, hread⟩ := h
  obtain ⟨d, hrun, hd⟩ := hread _ _ (hclean.moved _) (by
    rw [htokens, x.folded_raw, Token.map_moved_zero]) (by
    rintro _ ⟨⟩
    exact Kind.isCalm_eof)
  rw [Node.moved_zero] at hrun
  exact exists_parse_of_expr hc hclean hrun hd

/-- If a cell is read between brackets from the tokens of an excerpt, then `parse` reads the part in
brackets as that cell. -/
lemma exists_parse_brackets {u : Token} (x : Excerpt source (ts ++ [u])) (hu : u.kind = .mark .ser)
    (hbefore : x.before ≠ []) (hlegal : ∀ t ∈ lex source, t.kind ≠ .illegal)
    (h : ReadBetween 0 ts m) :
    ∃ n, parse (String.ofList ('[' :: x.part)) = .ok n ∧
      n.moved (byteLength x.before - 1) = m := by
  have hpos := byteLength_pos hbefore
  have hlex : lex (String.ofList ('[' :: x.part)) =
      ⟨.mark .sel, "[", ⟨0, 1⟩⟩ :: lexFrom 1 x.part := by
    have hscan : scan ('[' :: x.part) = ⟨.mark .sel, ['['], x.part⟩ :=
      scan_mark (a := .sel) (Glyph.alone_of_isSolitary (by decide) _)
    rw [lex, String.toList_ofList, lexFrom_cons (by simp), hscan]
    rfl
  have hmoved : (lex (String.ofList ('[' :: x.part))).map (Token.moved (byteLength x.before - 1)) =
      (⟨.mark .sel, "[", ⟨0, 1⟩⟩ : Token).moved (byteLength x.before - 1) ::
        (x.raw ++ [.eof (byteLength x.before + byteLength x.part)]) := by
    rw [hlex, List.map_cons, ← lexFrom_moved, Nat.add_sub_cancel' hpos, x.lexFrom_eq]
  obtain ⟨c, hc, hclean, htokens⟩ := exists_ofSource hmoved (by
    rintro t (_ | ⟨_, ht⟩)
    · simp
    · exact x.legal hlegal _ t ht)
  rw [folded, if_neg (by simp [Kind.isLayout]), x.folded_raw] at htokens
  obtain ⟨budget, d, hrun, hd⟩ := exists_expr_of_readBetween (hclean.moved _) htokens rfl hu
    Kind.isCalm_eof h
  exact exists_parse_of_expr hc hclean hrun hd

end Excerpt

/-! ## All nodes -/

/-- All nodes of the tree that `parse` gives are placed among the folded tokens of the source. -/
lemma exists_placed_of_parse {source : String} {root : Node} (h : parse source = .ok root) :
    ∃ ts vs, folded (lex source) = ts ++ vs ∧ vs ≠ [] ∧ root.All (Placed 0 ts) := by
  obtain ⟨c, d, e, us, hc, htokens, -, hrun⟩ := exists_run_of_parse h
  have hd : d.Ended := (ended_ofSource hc).of_tokens htokens
  obtain ⟨ts, htaken, -, hplaced⟩ := replays_expr 0 0 d.budget d hd root e hrun
  refine ⟨us ++ ts, e.tokens, ?_, by simp [Cursor.tokens], ?_⟩
  · rw [← tokens_ofSource hc, htokens, htaken.tokens, List.append_assoc]
  · exact hplaced.imp fun m hm => hm.mono (List.suffix_append us ts).isInfix

/-- **The span of every node of a parsed tree cuts a part out of the source.** -/
lemma exists_slice_of_parse {source : String} {root m : Node} (h : parse source = .ok root)
    (hm : m ∈ root.subtrees) : ∃ part, m.span.slice? source = some part := by
  obtain ⟨ts, vs, hlex, hvs, hplaced⟩ := exists_placed_of_parse h
  obtain ⟨us, ⟨as, bs, rfl⟩, hcovers⟩ := (hplaced m hm).exists_covers
  rw [List.append_assoc] at hlex
  obtain ⟨x, -⟩ := exists_excerpt hlex (by simp [hvs])
  exact ⟨_, x.slice_eq hcovers⟩

/-- **What the span of a node cuts out of the source is read as that node.**  A tree that is read
has as many bytes less in front of it as stand before the span.  A cell has no brackets in its span,
so its part of the source is read as the cell only in brackets, and the bracket in front takes one
byte. -/
theorem parse_excerpt {source : String} {root m : Node} (h : parse source = .ok root)
    (hm : m ∈ root.subtrees) :
    ∃ part, m.span.slice? source = some part ∧
      (m.isCell = false → ∃ n, parse part = .ok n ∧ n.moved m.span.start = m) ∧
      (m.isCell = true → 1 ≤ m.span.start ∧
        ∃ n, parse ("[" ++ part ++ "]") = .ok n ∧ n.moved (m.span.start - 1) = m) := by
  have hlegal := legal_of_expr (expr_of_parse h)
  obtain ⟨ts, vs, hlex, hvs, hplaced⟩ := exists_placed_of_parse h
  cases hplaced m hm with
  | alone hinfix hcell hcovers hread =>
      obtain ⟨as, bs, rfl⟩ := hinfix
      rw [List.append_assoc] at hlex
      obtain ⟨x, -⟩ := exists_excerpt hlex (by simp [hvs])
      refine ⟨String.ofList x.part, x.slice_eq hcovers, fun _ => ?_, by simp [hcell]⟩
      rw [x.span_eq hcovers]
      exact x.exists_parse hlegal hread
  | @between t u us hinfix hcell hcovers hser hread =>
      obtain ⟨as, bs, rfl⟩ := hinfix
      have hlex : folded (lex source) = (as ++ [t]) ++ (us ++ [u]) ++ (bs ++ vs) := by
        simpa using hlex
      obtain ⟨x, hx⟩ := exists_excerpt hlex (by simp [hvs])
      have hbefore := hx (by simp)
      obtain ⟨y, hy, hpart⟩ := x.exists_concat hser
      have htext : "[" ++ String.ofList y.part ++ "]" = String.ofList ('[' :: x.part) := by
        rw [hpart, ← String.toList_inj]
        simp [Glyph.char]
      refine ⟨String.ofList y.part, y.slice_eq hcovers, by simp [hcell], fun _ => ?_⟩
      rw [y.span_eq hcovers, hy, htext]
      exact ⟨byteLength_pos hbefore, x.exists_parse_brackets hser hbefore hlegal hread⟩

/-- The tail of a cell, with no bracket of its own in front of it. -/
theorem parse_excerpt_tail :
    ∃ part, (⟨14, 20⟩ : Span).slice? ".+  :: é\n [a b +(c)]" = some part ∧
      ∃ n, parse ("[" ++ part ++ "]") = .ok n ∧
        n.moved 13 = .cell (.face "b" ⟨14, 15⟩)
          (.rune .dotlus [.face "c" ⟨18, 19⟩] ⟨16, 20⟩) ⟨14, 20⟩ := by
  have hparse : parse ".+  :: é\n [a b +(c)]" =
      .ok (.rune .dotlus [.cell (.face "a" ⟨12, 13⟩) (.cell (.face "b" ⟨14, 15⟩)
        (.rune .dotlus [.face "c" ⟨18, 19⟩] ⟨16, 20⟩) ⟨14, 20⟩) ⟨12, 20⟩] ⟨0, 21⟩) :=
    eq_ok_of_toOption (by decide +kernel)
  obtain ⟨part, hslice, -, hcell⟩ := parse_excerpt hparse
    (m := .cell (.face "b" ⟨14, 15⟩) (.rune .dotlus [.face "c" ⟨18, 19⟩] ⟨16, 20⟩) ⟨14, 20⟩)
    (by simp [Node.subtrees, Node.subtreesAll])
  exact ⟨part, hslice, (hcell rfl).2⟩

end Runic
