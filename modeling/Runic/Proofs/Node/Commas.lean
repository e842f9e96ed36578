import Runic.Proofs.Node.Excerpt
import Runic.Proofs.Node.Parsed

/-!
# Commas of wide calls

A wide call of a rune with pairs is written as its fixed arguments, its pairs with commas between
them, and what stands behind the pairs.  Where the signature has arguments behind the pairs, as that
of `=:`, more of them are taken than it has, two at a time: they are pairs of the rune that were
written without a comma.

* `ownCommas` — the commas of a phrase outside of all its brackets.
* `Grammar.Expr.quiet` — **an expression has none of its own**, with one lemma for each kind of
  phrase.
* `WrittenWide` — how a wide call with pairs is written; `Grammar.Wide.written` and
  `WrittenWide.wide` say that the grammar takes just that.
* `wide_pairs_written` — every wide call with pairs in a source is written so, and whatever is
  written so is read; commas may be missing behind the pairs, and nowhere else.
-/

namespace Runic

open Runic.Symbol (mark ace gap)

/-! ## Own commas -/

/-- The number of commas in a phrase that stand in none of its brackets, if it starts `depth`
brackets deep. -/
def ownCommas : Nat → List Symbol → Nat
  | _, [] => 0
  | depth, s :: ts =>
    if s = mark .pal ∨ s = mark .sel then ownCommas (depth + 1) ts
    else if s = mark .par ∨ s = mark .ser then ownCommas (depth - 1) ts
    else if s = mark .com ∧ depth = 0 then ownCommas depth ts + 1
    else ownCommas depth ts

/-- From the depth `least` on, the phrase leaves the depth as it is and has no commas of its own. -/
def Quiet (least : Nat) (ts : List Symbol) : Prop :=
  ∀ depth, least ≤ depth → ∀ rest, ownCommas depth (ts ++ rest) = ownCommas depth rest

/-- The symbol is neither a bracket nor a comma. -/
def Symbol.isQuiet (s : Symbol) : Bool :=
  !([mark .pal, mark .sel, mark .par, mark .ser, mark .com].contains s)

namespace Quiet

variable {least : Nat} {ts us : List Symbol}

lemma nil : Quiet least [] := fun _ _ _ => rfl

lemma within (h : Quiet 0 ts) : Quiet least ts := fun depth _ => h depth depth.zero_le

lemma append (hts : Quiet least ts) (hus : Quiet least us) : Quiet least (ts ++ us) := by
  intro depth hdepth rest
  rw [List.append_assoc, hts depth hdepth, hus depth hdepth]

lemma cons {s : Symbol} (hs : s.isQuiet = true) (h : Quiet least ts) : Quiet least (s :: ts) := by
  intro depth hdepth rest
  simp only [Symbol.isQuiet, List.contains_eq_mem, List.mem_cons, List.not_mem_nil, or_false,
    Bool.not_eq_true', decide_eq_false_iff_not, not_or] at hs
  simp [ownCommas, hs, h depth hdepth rest]

/-- Two quiet phrases with a space between them are quiet. -/
lemma space (hts : Quiet least ts) (hus : Quiet least us) : Quiet least (ts ++ ace :: us) :=
  hts.append (hus.cons rfl)

/-- Inside of brackets, a comma in front of a quiet phrase is quiet. -/
lemma comma (h : Quiet 1 ts) : Quiet 1 (mark .com :: ts) := by
  intro depth hdepth rest
  simp [ownCommas, h depth hdepth rest, Nat.one_le_iff_ne_zero.1 hdepth]

/-- A bracket around a phrase that is quiet from the depth one on is quiet from the depth zero
on. -/
lemma enclosed {a b : Glyph} (ha : a = .pal ∨ a = .sel) (hb : b = .par ∨ b = .ser)
    (h : Quiet 1 ts) : Quiet 0 (mark a :: ts ++ [mark b]) := by
  intro depth _ rest
  have hinner := h (depth + 1) (Nat.le_add_left 1 depth) (mark b :: rest)
  have hclose : ownCommas (depth + 1) (mark b :: rest) = ownCommas depth rest := by
    rcases hb with rfl | rfl <;> simp [ownCommas]
  rw [List.cons_append, List.cons_append, List.append_assoc, List.singleton_append]
  have hopen : ownCommas depth (mark a :: (ts ++ mark b :: rest)) =
      ownCommas (depth + 1) (ts ++ mark b :: rest) := by
    rcases ha with rfl | rfl <;> simp [ownCommas]
  rw [hopen, hinner, hclose]

end Quiet

namespace Grammar

lemma Target.isQuiet {s : Symbol} {t : Node} (h : Target s t) : s.isQuiet = true := by
  cases h <;> simp [Symbol.isQuiet]

mutual

theorem Expr.quiet {ts : List Symbol} {t : Node} : Expr ts t → Quiet 0 ts
  | .chain h => h.quiet

theorem Chain.quiet {loose : Bool} {ts : List Symbol} {t : Node} : Chain loose ts t → Quiet 0 ts
  | .operand h => h.quiet
  | .col hl hr | .tis hl hr => hl.quiet.append (hr.quiet.cons rfl)

theorem Operand.quiet {loose : Bool} {ts : List Symbol} {t : Node} :
    Operand loose ts t → Quiet 0 ts
  | .face _ | .num _ => Quiet.nil.cons (by simp [Symbol.isQuiet])
  | .buc | .pat | .dot => Quiet.nil.cons rfl
  | .lus h => .cons rfl (.enclosed (.inl rfl) (.inl rfl) (h.quiet.within))
  | .tis hl hr => by
      have hinner : Quiet 1 _ := (hl.quiet.space hr.quiet).within
      exact .cons rfl (by simpa using hinner.enclosed (.inl rfl) (.inl rfl))
  | .pal h => .enclosed (.inl rfl) (.inl rfl) (h.quiet.within)
  | .sel h => .enclosed (.inr rfl) (.inr rfl) (h.quiet.within)
  | .reset h => .cons h.isQuiet (.enclosed (.inl rfl) (.inl rfl) .nil)
  | .rewrite h hp => .cons h.isQuiet (.enclosed (.inl rfl) (.inl rfl) hp.quiet)
  | .wide _ h _ => .cons (by simp [Symbol.isQuiet]) (.enclosed (.inl rfl) (.inl rfl) h.quiet)
  | .tall _ h => .cons (by simp [Symbol.isQuiet]) h.quiet

theorem Spaced.quiet {ts : List Symbol} {nodes : List Node} : Spaced ts nodes → Quiet 0 ts
  | .one h => h.quiet
  | .more h hs => h.quiet.space hs.quiet

theorem Cells.quiet {ts : List Symbol} {t : Node} : Cells ts t → Quiet 0 ts
  | .one h => h.quiet
  | .more h hs => h.quiet.space hs.quiet

theorem Pairs.quiet {ts : List Symbol} {nodes : List Node} : Pairs ts nodes → Quiet 1 ts
  | .one hl hr => (hl.quiet.space hr.quiet).within
  | .more hl hr hs =>
      ((hl.quiet.space hr.quiet).within).append (.comma (.cons rfl hs.quiet))

theorem Args.quiet {ts : List Symbol} {nodes : List Node} : Args ts nodes → Quiet 0 ts
  | .none => .nil
  | .some h => h.quiet

theorem Jogging.quiet {s : Signature} {ts : List Symbol} {nodes : List Node} :
    Jogging s ts nodes → Quiet 1 ts
  | .pairs h => h.quiet
  | .post _ h hs => h.quiet.space (hs.quiet.within)

theorem Wide.quiet {s : Signature} {ts : List Symbol} {nodes : List Node} :
    Wide s ts nodes → Quiet 1 ts
  | .args _ h | .fixed _ h _ => h.quiet.within
  | .jogging _ h _ hj => by
      refine ((h.quiet.within).append ?_).append hj.quiet
      split
      · exact .cons rfl .nil
      · exact .nil

theorem Gapped.quiet {ts : List Symbol} {nodes : List Node} : Gapped ts nodes → Quiet 0 ts
  | .none => .nil
  | .more h hs => (h.quiet.cons rfl).append hs.quiet

theorem Tall.quiet {s : Signature} {ts : List Symbol} {nodes : List Node} :
    Tall s ts nodes → Quiet 0 ts
  | .fixed _ h _ hp _ => h.quiet.append hp.quiet
  | .closed hcloser h _ hi _ hp _ => by
      refine (h.quiet.append hi.quiet).append (.cons rfl (.cons ?_ hp.quiet))
      unfold Tail.closer? at hcloser
      split at hcloser <;> cases hcloser <;> rfl

end

lemma Pairs.ne_nil {ts : List Symbol} {nodes : List Node} (h : Pairs ts nodes) : nodes ≠ [] := by
  cases h <;> simp

/-- A phrase of pairs has one comma less of its own than pairs. -/
lemma Pairs.ownCommas_append {ts : List Symbol} {nodes : List Node} (h : Pairs ts nodes)
    (rest : List Symbol) :
    ownCommas 0 (ts ++ rest) = nodes.length / 2 - 1 + ownCommas 0 rest := by
  cases h with
  | one hl hr =>
      rw [hl.quiet.space hr.quiet 0 le_rfl rest]
      simp
  | @more ls rs us l r nodes hl hr others =>
      have heven := others.even
      have hpos := List.length_pos_iff.2 others.ne_nil
      have hinner := others.ownCommas_append rest
      have hcomma : ownCommas 0 (mark .com :: ace :: us ++ rest) =
          ownCommas 0 (us ++ rest) + 1 := by
        simp [ownCommas]
      rw [List.append_assoc, hl.quiet.space hr.quiet 0 le_rfl, hcomma, hinner]
      simp only [List.length_cons]
      omega

end Grammar

open Grammar

/-! ## Wide calls with pairs -/

/-- A space, unless `as` or `bs` is empty. -/
def between (as bs : List Node) : List Symbol := if as = [] ∨ bs = [] then [] else [ace]

lemma quiet_between (as bs : List Node) : Quiet 0 (between as bs) := by
  unfold between
  split
  · exact .nil
  · exact .cons rfl .nil

lemma between_of_ne_nil {as bs : List Node} (has : as ≠ []) (hbs : bs ≠ []) :
    between as bs = [ace] := by
  rw [between, if_neg (by simp [has, hbs])]

lemma between_of_length {as bs : List Node} {count : Nat} (h : as.length = count) (hbs : bs ≠ []) :
    between as bs = if 0 < count then [ace] else [] := by
  subst h
  by_cases has : as = []
  · simp [between, has]
  · rw [between_of_ne_nil has hbs, if_pos (List.length_pos_iff.2 has)]

/-- How a wide call with pairs is written between its parentheses: fixed arguments, then pairs with
commas, then more arguments.  There are as many of these as the signature has behind the pairs, or
any even number more. -/
structure WrittenWide (s : Signature) (inside : List Symbol) (fixed pairs more : List Node) :
    Prop where
  phrases : ∃ fs ps ms, inside = fs ++ between fixed pairs ++ ps ++ between pairs more ++ ms ∧
    Args fs fixed ∧ (pairs = [] ∧ ps = [] ∨ Pairs ps pairs) ∧ Args ms more
  length_fixed : fixed.length = s.args
  length_more : ∃ extra, more.length = s.post + 2 * extra
  more_eq_nil : s.post = 0 ∨ pairs = [] → more = []

/-- No rune has two arguments behind its pairs. -/
lemma Signature.post_le_one {r : Rune} {s : Signature} (hs : r.signature? = some s) :
    s.post ≤ 1 := by
  cases r <;> cases hs <;> decide

section

variable {s : Signature} {inside : List Symbol} {nodes fixed pairs more : List Node}

lemma Signature.accepts_pairs_iff (htail : s.tail = .pairs) {count : Nat} :
    s.accepts count = true ↔ ∃ k, count = s.args + 2 * k + s.post := by
  have hcount : s.accepts count = true ↔ s.least ≤ count ∧ (count - s.least) % 2 = 0 := by
    simp [accepts, htail]
  rw [hcount, least]
  constructor
  · rintro ⟨hle, heven⟩
    exact ⟨(count - (s.args + s.post)) / 2, by omega⟩
  · rintro ⟨k, rfl⟩
    omega

/-- If the grammar takes `inside` as the arguments of a wide form with pairs, then it is
`WrittenWide`. -/
lemma Grammar.Wide.written (h : Wide s inside nodes) (htail : s.tail = .pairs)
    (hpost : s.post ≤ 1) (haccepts : s.accepts nodes.length = true) :
    ∃ fixed pairs more, nodes = fixed ++ pairs ++ more ∧
      WrittenWide s inside fixed pairs more := by
  obtain ⟨k, hcount⟩ := (Signature.accepts_pairs_iff htail).1 haccepts
  cases h with
  | args hother => simp [htail] at hother
  | fixed _ hargs hlength =>
      refine ⟨nodes, [], [], by simp, ⟨?_, hlength, ⟨0, ?_⟩, fun _ => rfl⟩⟩
      · exact ⟨inside, [], [], by simp [between], hargs, .inl ⟨rfl, rfl⟩, .none⟩
      · simp only [List.length_nil]
        omega
  | @jogging _ ts us fixed items _ hargs hlength hjogging =>
      rw [List.length_append] at hcount
      cases hjogging with
      | pairs hpairs =>
          have heven := hpairs.even
          -- the number of items is even, so nothing is missing behind the pairs
          have hzero : s.post = 0 := by omega
          refine ⟨fixed, items, [], by simp, ⟨?_, hlength, ⟨0, by simp [hzero]⟩, fun _ => rfl⟩⟩
          refine ⟨ts, us, [], ?_, hargs, .inr hpairs, .none⟩
          rw [between_of_length hlength hpairs.ne_nil]
          simp [between]
      | @post _ ps ms pairs more hpos hpairs hmore =>
          have heven := hpairs.even
          have hsome := List.length_pos_iff.2 hmore.ne_nil
          rw [List.length_append] at hcount
          refine ⟨fixed, pairs, more, by simp,
            ⟨?_, hlength, ⟨(more.length - s.post) / 2, by omega⟩, ?_⟩⟩
          · refine ⟨ts, ps, ms, ?_, hargs, .inr hpairs, .some hmore⟩
            rw [between_of_length hlength hpairs.ne_nil,
              between_of_ne_nil hpairs.ne_nil hmore.ne_nil]
            simp
          · rintro (hzero | hnil)
            · omega
            · exact absurd hnil hpairs.ne_nil

/-- If `inside` is `WrittenWide`, then the grammar takes it as the arguments of the wide form. -/
lemma WrittenWide.wide (h : WrittenWide s inside fixed pairs more) (htail : s.tail = .pairs) :
    Wide s inside (fixed ++ pairs ++ more) ∧
      s.accepts (fixed ++ pairs ++ more).length = true := by
  obtain ⟨⟨fs, ps, ms, rfl, hfs, hps, hms⟩, hlength, ⟨extra, hextra⟩, hnil⟩ := h
  rcases hps with ⟨rfl, rfl⟩ | hpairs
  · obtain rfl := hnil (.inr rfl)
    cases hms with
    | some hms => exact absurd rfl hms.ne_nil
    | none =>
        simp only [List.length_nil] at hextra
        refine ⟨by simpa [between] using Wide.fixed htail hfs hlength, ?_⟩
        exact (Signature.accepts_pairs_iff htail).2 ⟨0, by simp; omega⟩
  · have heven := hpairs.even
    refine ⟨?_, (Signature.accepts_pairs_iff htail).2 ⟨pairs.length / 2 + extra, ?_⟩⟩
    · have hjogging : Jogging s (ps ++ between pairs more ++ ms) (pairs ++ more) := by
        cases hms with
        | none => simpa [between] using Jogging.pairs hpairs
        | some hmore =>
            have hpos : 0 < s.post :=
              Nat.pos_of_ne_zero fun hzero => hmore.ne_nil (hnil (.inl hzero))
            simpa [between_of_ne_nil hpairs.ne_nil hmore.ne_nil] using
              Jogging.post hpos hpairs hmore
      rw [between_of_length hlength hpairs.ne_nil]
      simpa using Wide.jogging htail hfs hlength hjogging
    · simp only [List.length_append]
      omega

/-- The commas of a written wide call are those between its pairs. -/
lemma WrittenWide.ownCommas_eq (h : WrittenWide s inside fixed pairs more) :
    ownCommas 0 inside = pairs.length / 2 - 1 := by
  obtain ⟨fs, ps, ms, rfl, hfs, hps, hms⟩ := h.phrases
  have hback : ownCommas 0 (between pairs more ++ ms) = 0 := by
    have hquiet := ((quiet_between pairs more).append hms.quiet) 0 le_rfl []
    rwa [List.append_nil] at hquiet
  rw [List.append_assoc, List.append_assoc, (hfs.quiet.append (quiet_between fixed pairs)) 0 le_rfl]
  rcases hps with ⟨rfl, rfl⟩ | hps
  · simpa using hback
  · rw [hps.ownCommas_append, hback]
    rfl

/-- A written wide call has a comma between each two of all its pairs exactly if it has no more
arguments behind them than the signature says. -/
lemma WrittenWide.ownCommas_eq_iff (h : WrittenWide s inside fixed pairs more) :
    ownCommas 0 inside = ((fixed ++ pairs ++ more).length - s.args - s.post) / 2 - 1 ↔
      more.length = s.post := by
  rw [h.ownCommas_eq, List.length_append, List.length_append, h.length_fixed]
  obtain ⟨extra, hextra⟩ := h.length_more
  obtain ⟨fs, ps, ms, -, -, ⟨rfl, -⟩ | hps, -⟩ := h.phrases
  · obtain rfl := h.more_eq_nil (.inr rfl)
    simp only [List.length_nil] at hextra ⊢
    omega
  · have heven := hps.even
    have hpos := List.length_pos_iff.2 hps.ne_nil
    omega

end

/-! ## All wide calls -/

/-- The phrase of the rune `r` with `inside` between parentheses behind it. -/
def Rune.wideCall (r : Rune) (inside : List Symbol) : List Symbol :=
  .rune r :: mark .pal :: inside ++ [mark .par]

/-- A tall form with pairs starts with a gap. -/
lemma Grammar.Tall.head_eq_gap {s : Signature} {ts : List Symbol} {nodes : List Node}
    (h : Tall s ts nodes) (htail : s.tail = .pairs) : ts.head? = some gap := by
  have hhead : ∀ {us vs : List Symbol} {nodes : List Node}, Gapped us nodes →
      vs.head? = some gap → (us ++ vs).head? = some gap := by
    rintro us vs nodes (_ | ⟨_, _⟩) hvs
    · exact hvs
    · rfl
  cases h with
  | fixed hfixed => simp [htail] at hfixed
  | closed _ hnodes _ hitems =>
      rw [List.append_assoc]
      exact hhead hnodes (hhead hitems rfl)

/-- An expression that is a rune with pairs and parentheses behind it is a wide call. -/
lemma Grammar.Expr.wide {r : Rune} {s : Signature} {inside : List Symbol} {nodes : List Node}
    (h : Expr (r.wideCall inside) (.rune r nodes .nowhere)) (hs : r.signature? = some s)
    (htail : s.tail = .pairs) : Wide s inside nodes ∧ s.accepts nodes.length = true := by
  obtain ⟨h⟩ := h
  generalize hts : r.wideCall inside = ts at h
  rw [Rune.wideCall] at hts
  cases h with
  | col =>
      cases hs
      cases htail
  | operand h =>
      cases h with
      | wide hs' hwide haccepts =>
          obtain rfl := Option.some.inj (hs.symm.trans hs')
          obtain rfl : inside = _ := by simpa using hts
          exact ⟨hwide, haccepts⟩
      | tall hs' htall =>
          obtain rfl := Option.some.inj (hs.symm.trans hs')
          have hgap := htall.head_eq_gap htail
          rw [← (List.cons.inj hts).2] at hgap
          cases hgap
      | reset htarget | rewrite htarget =>
          cases htarget <;> cases hts
      | _ => cases hts

lemma Node.bare_moved (offset : Nat) (n : Node) : (n.moved offset).bare = n.bare := by
  induction n using Node.induction with
  | buc | pat | dot | face | num => rfl
  | faced label value span ih => rw [moved, bare, bare, ih]
  | cell head tail span ihHead ihTail => rw [moved, bare, bare, ihHead, ihTail]
  | rune r args span ih =>
      rw [moved, bare, bare, movedAll_eq_map, bareAll_eq_map, bareAll_eq_map, List.map_map]
      rw [List.map_congr_left (by simpa using ih)]

/-- What the span of an application cuts out of the source is a phrase of that application. -/
lemma exists_expr_of_rune {source : String} {root : Node} {r : Rune} {args : List Node}
    {span : Span} (h : parse source = .ok root) (hm : Node.rune r args span ∈ root.subtrees) :
    ∃ part, span.slice? source = some part ∧
      Expr (phrase part) (.rune r (Node.bareAll args) .nowhere) := by
  obtain ⟨ts, vs, hlex, hvs, hplaced⟩ := exists_placed_of_parse h
  cases hplaced _ hm with
  | alone hinfix _ hcovers hread =>
      obtain ⟨as, bs, rfl⟩ := hinfix
      rw [List.append_assoc] at hlex
      obtain ⟨x, -⟩ := exists_excerpt hlex (by simp [hvs])
      obtain ⟨n, hparse, hmoved⟩ := x.exists_parse (legal_of_expr (expr_of_parse h)) hread
      refine ⟨String.ofList x.part, x.slice_eq hcovers, ?_⟩
      have hbare := congrArg Node.bare hmoved
      rw [Node.bare_moved, Node.bare] at hbare
      exact hbare ▸ expr_of_parse hparse
  | between _ hcell => cases hcell

/-- **Commas may be missing behind the pairs of a wide call, and nowhere else.**  Take a rune with
pairs.  Wherever a source that is read has a wide call of it, that is written as the fixed
arguments, pairs with a comma between each two, and more arguments with spaces.  If the signature
has arguments behind the pairs, there may be two, four and so on more than it has: they are pairs of
the node without commas.  The call has one comma less than its node has pairs exactly if there are
none of them.  And every phrase that is written like this is read as such a call. -/
theorem wide_pairs_written {r : Rune} {s : Signature} (hs : r.signature? = some s)
    (htail : s.tail = .pairs) :
    (∀ (source : String) (root : Node) (args : List Node) (span : Span),
      parse source = .ok root → .rune r args span ∈ root.subtrees →
      ∃ part, span.slice? source = some part ∧
        ∀ inside, phrase part = r.wideCall inside →
          ∃ fixed pairs more, Node.bareAll args = fixed ++ pairs ++ more ∧
            WrittenWide s inside fixed pairs more ∧
            ownCommas 0 inside = pairs.length / 2 - 1 ∧
            (ownCommas 0 inside = (args.length - s.args - s.post) / 2 - 1 ↔
              more.length = s.post)) ∧
    ∀ (source : String) (inside : List Symbol) (fixed pairs more : List Node),
      phrase source = r.wideCall inside → WrittenWide s inside fixed pairs more →
      ∃ n, parse source = .ok n ∧ n.bare = .rune r (fixed ++ pairs ++ more) .nowhere := by
  constructor
  · intro source root args span h hm
    obtain ⟨part, hslice, hexpr⟩ := exists_expr_of_rune h hm
    refine ⟨part, hslice, fun inside hinside => ?_⟩
    rw [hinside] at hexpr
    obtain ⟨hwide, haccepts⟩ := hexpr.wide hs htail
    obtain ⟨fixed, pairs, more, hnodes, hwritten⟩ :=
      hwide.written htail (Signature.post_le_one hs) haccepts
    refine ⟨fixed, pairs, more, hnodes, hwritten, hwritten.ownCommas_eq, ?_⟩
    rw [← Node.length_bareAll, hnodes]
    exact hwritten.ownCommas_eq_iff
  · intro source inside fixed pairs more hphrase hwritten
    obtain ⟨hwide, haccepts⟩ := hwritten.wide htail
    have hexpr : Expr (phrase source) (.rune r (fixed ++ pairs ++ more) .nowhere) := by
      rw [hphrase]
      exact .chain (.operand (.wide hs hwide haccepts))
    exact parse_of_expr hexpr

/-- A call with a comma between the first two of its pairs and none in front of the third, with
other commas inside of brackets. -/
def mixedCall : String := "=:(a 1, b [c %=($ d 2, e 3)] f 4 a)"

/-- What the arguments of `mixedCall` are read as behind three bytes. -/
def mixedArgs : List Node :=
  [.face "a" ⟨6, 7⟩, .num "1" ⟨8, 9⟩, .face "b" ⟨11, 12⟩,
    .cell (.face "c" ⟨14, 15⟩) (.rune .centis [.buc ⟨19, 20⟩, .face "d" ⟨21, 22⟩,
      .num "2" ⟨23, 24⟩, .face "e" ⟨26, 27⟩, .num "3" ⟨28, 29⟩] ⟨16, 30⟩) ⟨14, 30⟩,
    .face "f" ⟨32, 33⟩, .num "4" ⟨34, 35⟩, .face "a" ⟨36, 37⟩]

theorem wide_pairs_written_mixed :
    ∃ inside fixed pairs more, phrase mixedCall = Rune.tiscol.wideCall inside ∧
      WrittenWide (.pairs 0 1) inside fixed pairs more ∧
      ownCommas 0 inside = 1 ∧ more.length ≠ 1 ∧
      ∃ n, parse mixedCall = .ok n ∧
        n.bare = .rune .tiscol (fixed ++ pairs ++ more) .nowhere := by
  obtain ⟨hwritten, hread⟩ := wide_pairs_written
    (rfl : Rune.tiscol.signature? = some (.pairs 0 1)) rfl
  have hparse : parse ("[x " ++ mixedCall ++ "]") =
      .ok (.cell (.face "x" ⟨1, 2⟩) (.rune .tiscol mixedArgs ⟨3, 38⟩) ⟨1, 38⟩) :=
    eq_ok_of_toOption (by decide +kernel)
  obtain ⟨part, hslice, hparts⟩ := hwritten _ _ mixedArgs ⟨3, 38⟩ hparse
    (by simp [Node.subtrees])
  have hpart : (⟨3, 38⟩ : Span).slice? ("[x " ++ mixedCall ++ "]") = some mixedCall := by
    decide +kernel
  obtain rfl := Option.some.inj (hslice.symm.trans hpart)
  let inside := ((phrase mixedCall).drop 2).dropLast
  have hinside : phrase mixedCall = Rune.tiscol.wideCall inside := by
    decide +kernel
  have hcommas : ownCommas 0 inside = 1 := by
    decide +kernel
  obtain ⟨fixed, pairs, more, -, hcall, -, hexact⟩ := hparts inside hinside
  refine ⟨inside, fixed, pairs, more, hinside, hcall, hcommas, fun hmore => ?_,
    hread _ _ _ _ _ hinside hcall⟩
  rw [hcommas] at hexact
  cases hexact.2 hmore

/-- A call with two pairs and no comma at all is parsed. -/
theorem pairs_without_comma_read :
    (parse "=:(a 1 b 2 a)").toOption.map Node.bare =
        some (.rune .tiscol [.face "a" .nowhere, .num "1" .nowhere, .face "b" .nowhere,
          .num "2" .nowhere, .face "a" .nowhere] .nowhere) ∧
      mark .com ∉ phrase "=:(a 1 b 2 a)" := by
  decide +kernel

end Runic
