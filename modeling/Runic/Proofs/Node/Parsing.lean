import Runic.Proofs.Node.Adjacency
import Runic.Proofs.Node.Completeness
import Runic.Proofs.Token.Lexing

/-!
# A source is read exactly if its phrase is an expression

The readers are run on a whole source here.  Its phrase is what remains once the layout at its two
ends is taken off.

* `expr_of_parse` — what is read is derived.
* `parse_of_expr` — what is derived is read.
* `parse_eq_ok_iff` — **both together, and that the grammar is unambiguous**: the readers are a
  function.
-/

namespace Runic

open Runic.Symbol (mark ace gap)
open Grammar Parse

/-! ## Trimming -/

section

variable {α : Type} {p : α → Bool}

/-- If `p` holds of all elements of `before` and `after`, and not of the first and the last of `us`,
then trimming leaves `us`. -/
lemma trim_eq {before after us : List α} (hbefore : ∀ a ∈ before, p a = true)
    (hafter : ∀ a ∈ after, p a = true) (hfirst : ∀ a ∈ us.head?, p a = false)
    (hlast : ∀ a ∈ us.getLast?, p a = false) (hne : us ≠ []) :
    ((before ++ us ++ after).dropWhile p).rdropWhile p = us := by
  have hdrop : (us ++ after).dropWhile p = us ++ after := by
    obtain ⟨a, vs, rfl⟩ := List.exists_cons_of_ne_nil hne
    rw [List.cons_append, List.dropWhile_cons_of_neg (by simp [hfirst a rfl])]
  have hrdrop : us.rdropWhile p = us := by
    rw [List.rdropWhile_eq_self_iff]
    intro h
    simp [hlast _ (List.getLast_mem_getLast? h)]
  rw [List.append_assoc, List.dropWhile_append_of_pos hbefore, hdrop]
  rw [List.rdropWhile, List.reverse_append, List.dropWhile_append_of_pos (by simpa using hafter)]
  exact hrdrop

/-- A list is what trimming leaves of it, with elements of which `p` holds on both sides. -/
lemma exists_trim (l : List α) :
    ∃ before after, l = before ++ (l.dropWhile p).rdropWhile p ++ after ∧
      (∀ a ∈ before, p a = true) ∧ ∀ a ∈ after, p a = true := by
  refine ⟨l.takeWhile p, (l.dropWhile p).rtakeWhile p, ?_, ?_, ?_⟩
  · rw [List.append_assoc, List.rdropWhile_append_rtakeWhile, List.takeWhile_append_dropWhile]
  · exact fun a ha => List.mem_takeWhile_imp ha
  · exact fun a ha => List.mem_rtakeWhile_imp ha

lemma eq_of_concat_eq {a : α} {l xs ys : List α} (h : l ++ [a] = xs ++ a :: ys) (ha : a ∉ l) :
    l = xs ∧ ys = [] := by
  rcases List.eq_nil_or_concat ys with rfl | ⟨zs, b, rfl⟩
  · exact ⟨(List.append_inj' h rfl).1, rfl⟩
  · rw [List.concat_eq_append, ← List.cons_append, ← List.append_assoc] at h
    have hl := (List.append_inj' h rfl).1
    exact absurd (hl ▸ by simp) ha

end

/-! ## Separators around an expression -/

namespace Parse

lemma takes_skipSeparator (c : Cursor) :
    Takes skipSeparator c fun us _ _ => ∀ s ∈ us, s.kind.isSeparator = true := by
  refine .peek ?_
  split
  · next hsep =>
      refine (takes_bump c).bind ?_
      rintro _ d us ⟨rfl, hus⟩
      refine .pure ?_
      rw [hus (by rintro he; rw [he] at hsep; cases hsep)]
      simpa using hsep
  · exact .pure (by simp)

lemma reaches_skipSeparator {c : Cursor} {before rest : List Symbol} (hc : c.Clean)
    (hview : c.view = before ++ rest) (hbefore : ∀ s ∈ before, s.kind.isSeparator = true)
    (hlength : before.length ≤ 1) (hrest : ∀ s ∈ rest.head?, s.kind.isSeparator = false) :
    Reaches skipSeparator c rest fun _ => True := by
  refine .peek ?_
  match before, hlength with
  | [], _ =>
      rw [List.nil_append] at hview
      rw [if_neg]
      · exact .pure hc hview trivial
      · have hhead := hrest c.current.symbol (by rw [← hview, Cursor.view_eq]; rfl)
        rw [Token.kind_symbol] at hhead
        simp [hhead]
  | [s], _ =>
      have hs := hbefore s List.mem_cons_self
      rw [if_pos (by rw [Cursor.kind_current hview]; exact hs)]
      refine (reaches_bump hc hview (by rintro he; rw [he] at hs; cases hs)).bind ?_
      exact fun _ d hd hdview _ => .pure hd hdview trivial

end Parse

/-! ## From a source to its cursor and back -/

/-- The folded symbols of a source end with its end, which is nowhere else, and no two separators
among them are side by side. -/
lemma symbols_eq (source : String) :
    ∃ body, (folded (lex source)).map Token.symbol = body ++ [.eof] ∧ .eof ∉ body ∧
      body.IsChain fun a b => ¬ (a.kind.isSeparator = true ∧ b.kind.isSeparator = true) := by
  obtain ⟨ts, size, hlex, hne⟩ := lexFrom_eq 0 source.toList
  refine ⟨(folded ts).map Token.symbol, ?_, ?_, ?_⟩
  · rw [lex, hlex, folded_concat ts rfl, List.map_append]
    rfl
  · intro hmem
    obtain ⟨t, ht, hsymbol⟩ := List.mem_map.1 hmem
    have hkind := Token.symbol_eq_plain hsymbol
    rcases of_mem_folded ht with hsep | ht
    · rw [hkind] at hsep
      cases hsep
    · exact hne t ht hkind
  · rw [List.isChain_map]
    simpa using folded_isChain ts

lemma ofSource_eq (source : String) : ∃ first raw, lex source = first :: raw ∧
    Cursor.ofSource source =
      match fold first raw with
      | (.ok token, raw) => .ok ⟨token, raw, 0⟩
      | (.error error, _) => .error error := by
  obtain ⟨ts, size, hlex, -⟩ := lexFrom_eq 0 source.toList
  have hne : lex source ≠ [] := by
    rw [lex, hlex]
    simp
  obtain ⟨first, raw, hraw⟩ := List.exists_cons_of_ne_nil hne
  refine ⟨first, raw, hraw, ?_⟩
  cases hfold : fold first raw with
  | mk result rest => cases result <;> simp [Cursor.ofSource, fetch, hraw, hfold]

/-- The view of a cursor at the start of a source has all of its folded symbols. -/
lemma view_ofSource {source : String} {c : Cursor} (h : Cursor.ofSource source = .ok c) :
    c.view = (folded (lex source)).map Token.symbol := by
  obtain ⟨first, raw, hlex, hcursor⟩ := ofSource_eq source
  rw [h] at hcursor
  split at hcursor
  · next token rest hfold =>
      cases hcursor
      rw [hlex, folded_of_fold hfold, Cursor.view]
  · cases hcursor

lemma ended_ofSource {source : String} {c : Cursor} (h : Cursor.ofSource source = .ok c) :
    c.Ended := by
  obtain ⟨body, hbody, -⟩ := symbols_eq source
  rw [Cursor.Ended, view_ofSource h, hbody, List.getLast?_concat]

/-- The folded symbols of a source are its phrase, with at most one separator on either side and the
end. -/
lemma exists_layout (source : String) : ∃ before after,
    (folded (lex source)).map Token.symbol = before ++ (phrase source ++ (after ++ [.eof])) ∧
      (∀ s ∈ before, s.kind.isSeparator = true) ∧ before.length ≤ 1 ∧
      (∀ s ∈ after, s.kind.isSeparator = true) ∧ after.length ≤ 1 := by
  obtain ⟨body, hbody, -, hchain⟩ := symbols_eq source
  obtain ⟨before, after, hbody', hbefore, hafter⟩ :=
    exists_trim (p := fun s : Symbol => s.kind.isSeparator) body
  have hone : ∀ l : List Symbol, l <:+: body → (∀ s ∈ l, s.kind.isSeparator = true) →
      l.length ≤ 1 := by
    intro l hl hsep
    match l, hchain.infix hl with
    | [], _ => simp
    | [_], _ => simp
    | a :: b :: _, hab =>
        exact absurd ⟨hsep a (by simp), hsep b (by simp)⟩ (List.isChain_cons_cons.1 hab).1
  have hphrase : phrase source = (body.dropWhile (·.kind.isSeparator)).rdropWhile
      (·.kind.isSeparator) := by
    rw [phrase, hbody, List.dropLast_concat]
  rw [← hphrase] at hbody'
  refine ⟨before, after, ?_, hbefore, hone before ⟨[], phrase source ++ after, ?_⟩ hbefore, hafter,
    hone after ⟨before ++ phrase source, [], ?_⟩ hafter⟩
  · rw [hbody, hbody']
    simp
  · rw [List.nil_append, hbody', List.append_assoc]
  · rw [List.append_nil, hbody']

/-- An expression between separators is the phrase of its source. -/
lemma phrase_eq {source : String} {before ts after : List Symbol} {t : Node}
    (h : (folded (lex source)).map Token.symbol = before ++ ts ++ after ++ [.eof])
    (hbefore : ∀ s ∈ before, s.kind.isSeparator = true)
    (hafter : ∀ s ∈ after, s.kind.isSeparator = true) (hexpr : Expr ts t) :
    phrase source = ts := by
  rw [phrase, h, List.dropLast_concat]
  obtain ⟨s, us, rfl, hs⟩ := hexpr.starts
  refine trim_eq hbefore hafter ?_ ?_ (by simp)
  · rintro _ ⟨⟩
    exact isSeparator_of_opens hs
  · intro s hs
    obtain ⟨vs, hvs⟩ := List.getLast?_eq_some_iff.1 hs
    exact (hvs ▸ hexpr.passes .other (.inl rfl)).isSeparator_last

namespace Parse

/-- The budget of a cursor is at least eight times the length of every front of its view. -/
lemma budget_ge {c : Cursor} {ts rest : List Symbol} (hview : c.view = ts ++ rest) :
    8 * ts.length ≤ c.budget := by
  have hlength := congrArg List.length hview
  rw [Cursor.view, List.length_map, List.length_cons, List.length_append] at hlength
  have hfolded := length_folded_le c.raw
  unfold Cursor.budget
  omega

lemma takes_whole (c : Cursor) : Takes whole c fun us n rest => ∃ before ts after,
    us = before ++ ts ++ after ∧ (∀ s ∈ before, s.kind.isSeparator = true) ∧ Expr ts n.bare ∧
      (∀ s ∈ after, s.kind.isSeparator = true) ∧ rest.head? = some .eof := by
  refine (takes_skipSeparator c).bind ?_
  intro _ d before hbefore
  have hread : Takes expression d fun ts n _ => Expr ts n.bare := by
    intro hd n e h
    obtain ⟨ts, hview, hexpr, -⟩ := takes_expr d.budget d hd n e h
    exact ⟨ts, hview, hexpr⟩
  refine hread.bind ?_
  intro n e ts hexpr
  refine (takes_skipSeparator e).bind ?_
  intro _ f after hafter
  refine .peek ?_
  split
  · next hk =>
      refine .pure ⟨before, ts, after, by simp, hbefore, hexpr, hafter, ?_⟩
      rw [Cursor.view_eq, Token.symbol_of_eof hk, List.head?_cons]
  · exact .fail

end Parse

/-- **If `parse` gives a tree, then the phrase of the source derives it**, up to spans. -/
theorem expr_of_parse {source : String} {n : Node} (h : parse source = .ok n) :
    Expr (phrase source) n.bare := by
  unfold parse at h
  split at h
  · next c hc =>
      obtain ⟨body, hbody, hnot, -⟩ := symbols_eq source
      obtain ⟨us, hview, before, ts, after, rfl, hbefore, hexpr, hafter, hrest⟩ :=
        takes_whole c (ended_ofSource hc) n (whole c).2 (by rw [← h])
      obtain ⟨rest, hrest⟩ := List.head?_eq_some_iff.1 hrest
      rw [view_ofSource hc, hbody, hrest] at hview
      obtain ⟨rfl, -⟩ := eq_of_concat_eq hview hnot
      rwa [phrase_eq hbody hbefore hafter hexpr]
  · cases h

/-- The adjacency reader gets through a source whose phrase derives a tree. -/
lemma passes_of_expr {source : String} {t : Node} (h : Expr (phrase source) t) :
    Seen.other.Passes ((folded (lex source)).map Token.symbol) fun _ => True := by
  obtain ⟨before, after, hlayout, hbefore, -, hafter, -⟩ := exists_layout source
  rw [hlayout]
  refine (Seen.passes_separators hbefore (by simp)).append ?_
  intro q hq
  have hready : q.Ready := by
    rcases hq with rfl | rfl <;> simp [Seen.Ready]
  refine (h.passes q hready).append ?_
  intro q hq
  refine (Seen.passes_separators hafter (by rcases hq with rfl | rfl | rfl <;> simp)).append ?_
  exact fun q _ => .cons rfl (.nil trivial)

/-- A source whose phrase derives a tree has no illegal token. -/
lemma legal_of_expr {source : String} {t : Node} (h : Expr (phrase source) t) :
    ∀ token ∈ lex source, token.kind ≠ .illegal := by
  intro token htoken hkind
  refine (passes_of_expr h).illegal_notMem (List.mem_map.2 ⟨token, ?_, ?_⟩)
  · exact mem_folded htoken (by rw [hkind]; rfl)
  · exact Token.symbol_of_isPlain hkind rfl

/-- **If the phrase of a source derives a tree, then `parse` gives that tree**, up to spans. -/
theorem parse_of_expr {source : String} {t : Node} (h : Expr (phrase source) t) :
    ∃ n, parse source = .ok n ∧ n.bare = t := by
  have hlegal := legal_of_expr h
  obtain ⟨first, raw, hlex, hcursor⟩ := ofSource_eq source
  obtain ⟨token, rest, hfold, hsuffix⟩ :=
    exists_fold (hlegal first (by rw [hlex]; exact List.mem_cons_self)) raw
  have hcursor : Cursor.ofSource source = .ok ⟨token, rest, 0⟩ := by
    rw [hcursor, hfold]
  have hclean : Cursor.Clean ⟨token, rest, 0⟩ := by
    refine ⟨ended_ofSource hcursor, fun u hu => hlegal u ?_⟩
    rw [hlex]
    exact List.mem_cons_of_mem _ (hsuffix.mem hu)
  obtain ⟨before, after, hlayout, hbefore, hbefore', hafter, hafter'⟩ := exists_layout source
  have hwhole : Reaches whole ⟨token, rest, 0⟩ [.eof] fun n => n.bare = t := by
    have hopens : ∀ us, ∀ s ∈ (phrase source ++ us).head?, s.kind.isSeparator = false := by
      obtain ⟨s, vs, hphrase, hs⟩ := h.starts
      rw [hphrase]
      rintro us _ ⟨⟩
      exact isSeparator_of_opens hs
    refine (reaches_skipSeparator hclean ((view_ofSource hcursor).trans hlayout) hbefore hbefore'
      (hopens _)).bind ?_
    rintro _ d hd hdview -
    have hcalm : Calm (after ++ [.eof]) := by
      match after, hafter with
      | [], _ => exact calm_eof
      | s :: _, hs => exact calm_of_isSeparator (hs s List.mem_cons_self)
    have hread : Reaches expression d (after ++ [.eof]) fun n => n.bare = t :=
      reaches_expr h d.budget hd hdview hcalm (budget_ge hdview)
    refine hread.bind ?_
    rintro n e he heview hn
    refine (reaches_skipSeparator he heview hafter hafter' (by rintro _ ⟨⟩; rfl)).bind ?_
    rintro _ f hf hfview -
    refine .peek ?_
    rw [if_pos (Cursor.kind_of_plain hfview)]
    exact .pure hf hfview hn
  obtain ⟨n, d, hrun, -, -, hn⟩ := hwhole
  refine ⟨n, ?_, hn⟩
  rw [parse, hcursor]
  exact congrArg Prod.fst hrun

/-- **A source is parsed exactly if its phrase is an expression, and the tree is the only one that
the phrase derives.** -/
theorem parse_eq_ok_iff (source : String) :
    (∀ t, Expr (phrase source) t ↔ ∃ n, parse source = .ok n ∧ n.bare = t) ∧
      ∀ t u, Expr (phrase source) t → Expr (phrase source) u → t = u := by
  have hiff : ∀ t, Expr (phrase source) t ↔ ∃ n, parse source = .ok n ∧ n.bare = t := by
    intro t
    constructor
    · exact parse_of_expr
    · rintro ⟨n, hparse, rfl⟩
      exact expr_of_parse hparse
  refine ⟨hiff, ?_⟩
  intro t u ht hu
  obtain ⟨n, hn, rfl⟩ := (hiff t).1 ht
  obtain ⟨m, hm, rfl⟩ := (hiff u).1 hu
  rw [hn, Except.ok.injEq] at hm
  rw [hm]

end Runic
