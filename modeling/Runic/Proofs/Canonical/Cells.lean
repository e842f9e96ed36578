import Runic.Proofs.Canonical.Contexts
import Runic.Proofs.Node.Forms

/-!
# Brackets and the runes of cells

Items between brackets are made cells while they are read, and the items of `:*`, `:-`, `:+` and
`:^` when the rune is reduced.  Both nest the items to the right, so they have one canonical form.

* `Likeness.as_of_bare_eq` — **places do not matter to reduction**: trees that are equal but for
  their places are the same in every role.
* `reduce_nestCells` — nested cells are reduced item by item.
* `Spelling.spells_cells` — texts with spaces between them are the inside of a bracket.
* `brackets_runes_agree` — both forms of the same items are reduced to the same cells, or neither
  is.
-/

namespace Runic

open Grammar

/-! ## Places -/

lemma Node.forall₂_of_bareAll_eq {as bs : List Node} (h : bareAll as = bareAll bs) :
    List.Forall₂ (fun a b : Node => a.bare = b.bare) as bs := by
  rw [bareAll_eq_map, bareAll_eq_map, ← List.forall₂_eq_eq_eq] at h
  exact List.forall₂_map_left_iff.1 (List.forall₂_map_right_iff.1 h)

namespace Likeness

lemma Agree.exists_ok {L : Likeness} {α β : Type} {R : α → β → Prop} {x : Except Error α} {b : β}
    (h : L.Agree R x (.ok b)) : ∃ a, x = .ok a ∧ R a b := by
  obtain ⟨hab⟩ := h
  exact ⟨_, rfl, hab⟩

lemma Agree.exists_error {L : Likeness} {α β : Type} {R : α → β → Prop} {x : Except Error α}
    {e : Error} (h : L.Agree R x (.error e)) : ∃ e', x = .error e' := by
  cases h
  exact ⟨_, rfl⟩

variable {a b c d : Node} {s t : Span} {ρ : Role}

/-- Two trees that are their own canonical forms, and equal up to spans, reduce alike. -/
lemma reduces_of_canonical (ha : reduce a = .ok a) (hb : reduce b = .ok b)
    (h : a.bare = b.bare) : loose.Reduces a b := by
  rw [Reduces, ha, hb]
  exact .ok h

/-- Two trees without labels that reduce alike and are equal up to spans are the same in every
role, if they are as a name, as a mold and as an arm, where the outcome depends on the form of
the tree. -/
lemma as_of_not_isFaced (hvalue : loose.Reduces a b) (htree : a.bare = b.bare)
    (ha : a.isFaced = false) (hb : b.isFaced = false) (hname : loose.As .name a b)
    (hmold : loose.As .mold a b) (harm : loose.As .arm a b) : loose.As ρ a b := by
  cases ρ with
  | value => exact hvalue
  | pin => exact .plain ha hb hvalue
  | name => exact hname
  | binder =>
      have hself : ∀ {n : Node}, n.isFaced = false → boundName n = n := by
        intro n hn
        cases n <;> first | rfl | cases hn
      rw [As, hself ha, hself hb]
      exact htree
  | mold => exact hmold
  | arm => exact harm
  | dropped => exact trivial
  | kept => exact htree
  | refused => exact fun _ _ => trivial

/-- If `a` and `b` are the same in every role, then so are they under the same label. -/
lemma as_faced_of_as (label : String) (h : ∀ ρ, loose.As ρ a b) :
    loose.As ρ (.faced label a s) (.faced label b t) := by
  cases ρ with
  | value => exact reduces_faced label trivial (h .value)
  | pin => exact .faced trivial (h .value)
  | name => exact fun _ => .ok ⟨rfl, trivial⟩
  | binder => exact loose.face label trivial
  | mold => exact (h .mold).bind fun _ _ hpins => .ok (.faced trivial hpins.reduces)
  | arm => exact fun _ => .error trivial
  | dropped => exact trivial
  | kept => exact loose.faced label trivial (h .kept)
  | refused => exact fun _ _ => trivial

lemma as_cell_of_as (h : ∀ ρ, loose.As ρ a b) (h' : ∀ ρ, loose.As ρ c d) :
    loose.As ρ (.cell a c s) (.cell b d t) := by
  have hmold : loose.As .mold (.cell a c s) (.cell b d t) := by
    refine Agree.bind (h .mold) fun _ _ hhead => Agree.bind (h' .mold) fun _ _ htail => ?_
    exact .ok (.plain rfl rfl (reduces_cell trivial hhead.reduces htail.reduces))
  exact as_of_not_isFaced (reduces_cell trivial (h .value) (h' .value))
    (loose.cell trivial (h .kept) (h' .kept)) rfl rfl (fun _ => .error trivial) hmold
    (fun _ => .error trivial)

lemma as_rune_of_as (r : Rune) {as bs : List Node}
    (h : List.Forall₂ (fun a b => ∀ ρ, loose.As ρ a b) as bs) :
    loose.As ρ (.rune r as s) (.rune r bs t) := by
  have hargs : ∀ role, loose.Args role as bs := by
    induction h with
    | nil => exact fun _ => .nil
    | cons hfirst _ ih => exact fun _ => .cons (hfirst _) (ih _)
  exact as_of_not_isFaced (reduces_rune trivial (hargs _))
    (loose.rune r trivial (h.imp fun _ _ hall => hall .kept)) rfl rfl (fun _ => .error trivial)
    (.error trivial) (fun _ => .error trivial)

/-- **Spans do not matter to reduction**: two trees that are equal up to spans are the same in every
role. -/
theorem as_of_bare_eq (h : a.bare = b.bare) (ρ : Role) : loose.As ρ a b := by
  -- the default value of an atom
  have hzero : ∀ s t, loose.Reduces (.num "0" s) (.num "0" t) := fun s t =>
    reduces_of_canonical (reduce_num _ s) (reduce_num _ t) rfl
  induction a using Node.induction generalizing b ρ with
  | buc span =>
      cases b <;> cases h
      exact as_of_not_isFaced (reduces_of_canonical (reduce_buc _) (reduce_buc _) rfl) rfl rfl rfl
        (fun _ => .error trivial) (.ok (.plain rfl rfl (hzero _ _))) (fun _ => .ok trivial)
  | pat span =>
      cases b <;> cases h
      exact as_of_not_isFaced (reduces_of_canonical (reduce_pat _) (reduce_pat _) rfl) rfl rfl rfl
        (fun _ => .error trivial) (.ok (.plain rfl rfl (hzero _ _))) (fun _ => .error trivial)
  | dot span =>
      cases b <;> cases h
      exact as_of_not_isFaced (reduces_of_canonical (reduce_dot _) (reduce_dot _) rfl) rfl rfl rfl
        (fun _ => .error trivial) (.error trivial) (fun _ => .error trivial)
  | face name span =>
      cases b <;> cases h
      exact as_of_not_isFaced (reduces_face name trivial) rfl rfl rfl
        (fun _ => .ok ⟨rfl, trivial⟩) (.error trivial) (fun _ => .error trivial)
  | num digits span =>
      cases b <;> cases h
      exact as_of_not_isFaced (reduces_of_canonical (reduce_num _ _) (reduce_num _ _) rfl) rfl rfl
        rfl (fun _ => .error trivial) (.error trivial) (fun _ => .error trivial)
  | faced label value span ih =>
      cases b with
      | faced label' value' span' =>
          simp only [Node.bare, Node.faced.injEq, and_true] at h
          obtain ⟨rfl, hvalue⟩ := h
          exact as_faced_of_as label (ih hvalue)
      | _ => cases h
  | cell head tail span ihHead ihTail =>
      cases b with
      | cell head' tail' span' =>
          simp only [Node.bare, Node.cell.injEq, and_true] at h
          exact as_cell_of_as (ihHead h.1) (ihTail h.2)
      | _ => cases h
  | rune r args span ih =>
      cases b with
      | rune r' args' span' =>
          simp only [Node.bare, Node.rune.injEq, and_true] at h
          obtain ⟨rfl, hargs⟩ := h
          have hall := (List.forall₂_and_left _ _).2 ⟨ih, Node.forall₂_of_bareAll_eq hargs⟩
          exact as_rune_of_as r (hall.imp fun _ _ harg => harg.1 harg.2)
      | _ => cases h

end Likeness

/-! ## Nested cells -/

lemma Node.bare_nestCells (span : Span) (item : Node) (items : List Node) :
    (nestCells span item items).bare = nestCells .nowhere item.bare (bareAll items) := by
  induction items generalizing item with
  | nil => rfl
  | cons next items ih => rw [nestCells, bare, ih, bareAll, nestCells]

/-- The tree `nestCells span item items` is reduced item by item: to the nested canonical forms of
its items, or not at all if some item has none. -/
lemma reduce_nestCells (span : Span) (item : Node) (items : List Node) :
    (∃ m ms, List.Forall₂ (fun n c => reduce n = .ok c) (item :: items) (m :: ms) ∧
        reduce (nestCells span item items) = .ok (nestCells span m ms)) ∨
      ∃ n ∈ item :: items, ∃ e, reduce n = .error e ∧
        reduce (nestCells span item items) = .error e := by
  induction items generalizing item with
  | nil =>
      cases hitem : reduce item with
      | ok m => exact .inl ⟨m, [], .cons hitem .nil, hitem⟩
      | error e => exact .inr ⟨item, by simp, e, hitem, hitem⟩
  | cons next items ih =>
      rw [nestCells, reduce_cell]
      cases hitem : reduce item with
      | ok m =>
          rcases ih next with ⟨m', ms, hall, hcells⟩ | ⟨n, hn, e, hfail, hcells⟩
          · exact .inl ⟨m, m' :: ms, .cons hitem hall, by rw [hcells]; rfl⟩
          · exact .inr ⟨n, List.mem_cons_of_mem _ hn, e, hfail, by rw [hcells]; rfl⟩
      | error e => exact .inr ⟨item, by simp, e, hitem, rfl⟩

/-- The rune makes a cell of `count` items. -/
def Rune.nests (r : Rune) (count : Nat) : Prop :=
  r = .coltar ∨ (r, count) ∈ [(Rune.colhep, 2), (.collus, 3), (.colket, 4)]

lemma Rune.nests.cases {r : Rune} {count : Nat} (h : r.nests count) :
    r = .coltar ∨ r = .colhep ∧ count = 2 ∨ r = .collus ∧ count = 3 ∨ r = .colket ∧ count = 4 := by
  simpa [nests] using h

/-- An application of a rune that `nests` its arguments has the canonical form of the nested
cell. -/
lemma reduce_rune_of_nests {r : Rune} {count : Nat} (hr : r.nests count) (item : Node)
    (items : List Node) (span : Span) :
    reduce (.rune r (item :: items) span) = reduce (nestCells span item items) := by
  have hcanonical : r.isCanonical = false := by
    rcases hr.cases with rfl | ⟨rfl, -⟩ | ⟨rfl, -⟩ | ⟨rfl, -⟩ <;> rfl
  have hexpand : expand r (item :: items) span = .ok (nestCells span item items) := by
    rcases hr.cases with rfl | ⟨rfl, -⟩ | ⟨rfl, -⟩ | ⟨rfl, -⟩ <;> rfl
  rw [reduce_short hcanonical, hexpand]
  rfl

/-- The texts of spellings with single spaces between them are what is written between brackets for
the nested cell of their trees. -/
lemma Spelling.spells_cells (item : Spelling) (items : List Spelling) :
    Leading (spaced ((item :: items).map text)) ∧
      ∃ ts, Spells (spaced ((item :: items).map text)) ts ∧
        Cells ts (nestCells .nowhere item.tree (items.map tree)) := by
  induction items generalizing item with
  | nil =>
      obtain ⟨ts, hts, hexpr⟩ := item.spells
      exact ⟨item.leading, ts, hts, .one hexpr⟩
  | cons next items ih =>
      obtain ⟨ts, hts, hexpr⟩ := item.spells
      obtain ⟨hlead, us, hus, hcells⟩ := ih next
      rw [List.map_cons, spaced_cons _ (by simp)]
      exact ⟨item.leading.append _, _, hts.join .space hus hlead, .more hexpr hcells⟩

/-! ## Both forms -/

/-- The texts between brackets, with single spaces between them. -/
def bracketText (texts : List String) : String :=
  String.ofList ('[' :: spaced (texts.map String.toList) ++ [']'])

section

variable {text : String} {texts : List String} {node : Node} {nodes : List Node}

/-- A bracket around texts that can be parsed on their own is parsed as the nested cell of their
trees, up to spans. -/
lemma exists_parse_bracketText
    (h : List.Forall₂ (fun text n => parse text = .ok n ∧ Trimmed text) (text :: texts)
      (node :: nodes)) :
    ∃ b, parse (bracketText (text :: texts)) = .ok b ∧
      b.bare = (nestCells .nowhere node nodes).bare := by
  obtain ⟨args, htexts, htrees⟩ := exists_spellings_of_parse h
  obtain _ | ⟨item, items⟩ := args
  · cases htrees
  obtain ⟨-, ts, hts, hcells⟩ := Spelling.spells_cells item items
  obtain ⟨htree, htrees⟩ := List.cons.inj htrees
  rw [bracketText, ← htexts, Node.bare_nestCells, ← htree, ← htrees]
  exact parse_of_spells hts.brackets (.chain (.operand (.sel hcells)))

/-- A rune of cells in wide form, over texts that can be parsed on their own, is parsed as its
application to their trees, up to spans. -/
lemma exists_parse_wideText_of_nests {r : Rune} {s : Signature} (hs : r.signature? = some s)
    (hr : r.nests texts.length)
    (h : List.Forall₂ (fun text n => parse text = .ok n ∧ Trimmed text) texts nodes) :
    ∃ w, parse (r.wideText s texts) = .ok w ∧ w.bare = (Node.rune r nodes .nowhere).bare := by
  obtain ⟨args, htexts, htrees⟩ := exists_spellings_of_parse h
  obtain ⟨a, b, hglyphs⟩ := Rune.exists_glyphs hs
  have hlength : args.length = texts.length := by simpa using congrArg List.length htexts
  have hwide : s.tail ≠ .arms ∧ s.tail ≠ .pairs ∧ s.accepts texts.length = true := by
    rcases hr.cases with rfl | ⟨rfl, hcount⟩ | ⟨rfl, hcount⟩ | ⟨rfl, hcount⟩
    all_goals cases hs; simp [Signature.accepts, Signature.fixed, Signature.list, *]
  obtain ⟨harms, hpairs, haccepts⟩ := hwide
  rw [← hlength] at haccepts
  obtain ⟨ts, hts, hargs⟩ :=
    Spelling.spells_layout args harms haccepts fun htail => absurd htail hpairs
  rw [Rune.wideText, ← htexts, Node.bare, ← htrees]
  exact parse_of_spells (hts.parens.rune hglyphs)
    (.chain (.operand (.wide hs hargs (by simpa using haccepts))))

/-- **Brackets and the runes of cells agree.**  Take one or more texts that are read on their own
and have no layout at their ends, and the rune `:*`, or the one of `:-`, `:+` and `:^` that takes
this many.  Between brackets and as the arguments of the rune the texts are read.  If all of them
have canonical forms, so have both, and these are the forms as cells that nest to the right; if
some have none, neither has one. -/
theorem brackets_runes_agree {r : Rune} {s : Signature} (hs : r.signature? = some s)
    (hr : r.nests (text :: texts).length)
    (h : List.Forall₂ (fun text n => parse text = .ok n ∧ Trimmed text) (text :: texts)
      (node :: nodes)) :
    ∃ b w, parse (bracketText (text :: texts)) = .ok b ∧
      parse (r.wideText s (text :: texts)) = .ok w ∧
      ((∃ m ms b' w', List.Forall₂ (fun n c => reduce n = .ok c) (node :: nodes) (m :: ms) ∧
          reduce b = .ok b' ∧ b'.bare = (nestCells .nowhere m ms).bare ∧
          reduce w = .ok w' ∧ w'.bare = (nestCells .nowhere m ms).bare) ∨
        (∃ n ∈ node :: nodes, ∃ e, reduce n = .error e) ∧
          (∃ e, reduce b = .error e) ∧ ∃ e, reduce w = .error e) := by
  obtain ⟨b, hb, hbare⟩ := exists_parse_bracketText h
  obtain ⟨w, hw, hwbare⟩ := exists_parse_wideText_of_nests hs hr h
  refine ⟨b, w, hb, hw, ?_⟩
  have hbracket : Likeness.loose.Reduces b _ := Likeness.as_of_bare_eq hbare .value
  have hrune : Likeness.loose.Reduces w _ := Likeness.as_of_bare_eq hwbare .value
  unfold Likeness.Reduces at hbracket hrune
  rw [reduce_rune_of_nests hr] at hrune
  rcases reduce_nestCells .nowhere node nodes with ⟨m, ms, hall, hok⟩ | ⟨n, hn, e, hfail, herror⟩
  · rw [hok] at hbracket hrune
    obtain ⟨b', hb', hsame⟩ := hbracket.exists_ok
    obtain ⟨w', hw', hsame'⟩ := hrune.exists_ok
    exact .inl ⟨m, ms, b', w', hall, hb', hsame, hw', hsame'⟩
  · rw [herror] at hbracket hrune
    exact .inr ⟨⟨n, hn, e, hfail⟩, hbracket.exists_error, hrune.exists_error⟩

end

/-- Items of several forms, most of which are not canonical. -/
def cellTexts : List String := ["k=[a b]", "=+(1 a)", ":_(2 3)", ".+  b"]

/-- What `cellTexts` are read as. -/
def cellNodes : List Node :=
  [.faced "k" (.cell (.face "a" ⟨3, 4⟩) (.face "b" ⟨5, 6⟩) ⟨3, 6⟩) ⟨0, 7⟩,
    .rune .tislus [.num "1" ⟨3, 4⟩, .face "a" ⟨5, 6⟩] ⟨0, 7⟩,
    .rune .colcab [.num "2" ⟨3, 4⟩, .num "3" ⟨5, 6⟩] ⟨0, 7⟩,
    .rune .dotlus [.face "b" ⟨4, 5⟩] ⟨0, 5⟩]

theorem brackets_runes_agree_four :
    ∃ b w b' w', parse "[k=[a b] =+(1 a) :_(2 3) .+  b]" = .ok b ∧
      parse ":^(k=[a b] =+(1 a) :_(2 3) .+  b)" = .ok w ∧
      reduce b = .ok b' ∧ reduce w = .ok w' ∧ b'.bare = w'.bare := by
  have hread : ∀ p ∈ cellTexts.zip cellNodes,
      (parse p.1).toOption = some p.2 ∧ Trimmed p.1 := by
    decide +kernel
  have hagree := brackets_runes_agree (rfl : Rune.colket.signature? = some (.fixed 4))
    (.inr (by decide))
    (List.forall₂_iff_zip.2 ⟨rfl, fun hp => ⟨eq_ok_of_toOption (hread _ hp).1, (hread _ hp).2⟩⟩)
  have hbracket : bracketText cellTexts = "[k=[a b] =+(1 a) :_(2 3) .+  b]" := by
    decide +kernel
  have hrune : Rune.colket.wideText (.fixed 4) cellTexts =
      ":^(k=[a b] =+(1 a) :_(2 3) .+  b)" := by
    decide +kernel
  obtain ⟨b, w, hb, hw, hagree⟩ := hagree
  rcases hagree with ⟨_, _, b', w', -, hb', hsame, hw', hsame'⟩ | ⟨⟨n, hn, e, hfail⟩, -⟩
  · exact ⟨b, w, b', w', hbracket ▸ hb, hrune ▸ hw, hb', hw', hsame.trans hsame'.symm⟩
  · have hall : ∀ n ∈ cellNodes, (reduce n).toOption.isSome = true := by
      decide +kernel
    have hsome := hall n hn
    rw [hfail] at hsome
    cases hsome

end Runic
