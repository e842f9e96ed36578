import Runic.Proofs.Node.Soundness

/-!
# What is derived is read

A phrase of the grammar in front of a cursor is read, provided that the budget lasts and that what
stands behind the phrase does not go on with it (`Calm`).  The lemmas follow the derivation, and a
budget of eight for each symbol is enough.

* `reaches_expr` — **an expression that is derived is read, with the tree that is derived.**
-/

namespace Runic

open Runic.Symbol (mark ace gap)
open Node (bare bareAll)

lemma Token.symbol_eq_face {t : Token} {name : String} (h : t.symbol = .face name) :
    t.kind = .face ∧ t.text = name := by
  have hk : t.kind = .face := by simpa using congrArg Symbol.kind h
  rw [symbol_of_face hk, Symbol.face.injEq] at h
  exact ⟨hk, h⟩

lemma Token.symbol_eq_num {t : Token} {digits : String} (h : t.symbol = .num digits) :
    t.kind = .num ∧ t.text = digits := by
  have hk : t.kind = .num := by simpa using congrArg Symbol.kind h
  rw [symbol_of_num hk, Symbol.num.injEq] at h
  exact ⟨hk, h⟩

lemma Token.symbol_eq_rune {t : Token} {r : Rune} (h : t.symbol = .rune r) :
    t.kind = .rune ∧ Rune.ofText t.text = r := by
  have hk : t.kind = .rune := by simpa using congrArg Symbol.kind h
  rw [symbol_of_rune hk, Symbol.rune.injEq] at h
  exact ⟨hk, h⟩

namespace Grammar

/-! ## First symbols -/

/-- An expression may start with a token of the kind. -/
def opensExpr : Kind → Bool
  | .face | .num | .rune => true
  | .mark .buc | .mark .pat | .mark .dot | .mark .lus | .mark .tis | .mark .pal | .mark .sel => true
  | _ => false

lemma isSeparator_of_opens {kind : Kind} (h : opensExpr kind = true) :
    kind.isSeparator = false := by
  cases kind <;> first | rfl | cases h

/-- The first symbol of the phrase may start an expression. -/
def StartsExpr (ts : List Symbol) : Prop := ∃ s us, ts = s :: us ∧ opensExpr s.kind = true

lemma StartsExpr.append {ts : List Symbol} (h : StartsExpr ts) (us : List Symbol) :
    StartsExpr (ts ++ us) := by
  obtain ⟨s, vs, rfl, hs⟩ := h
  exact ⟨s, vs ++ us, rfl, hs⟩

lemma StartsExpr.length_pos {ts : List Symbol} (h : StartsExpr ts) : 0 < ts.length := by
  obtain ⟨s, us, rfl, -⟩ := h
  simp

lemma Target.opens {s : Symbol} {t : Node} (h : Target s t) : opensExpr s.kind = true := by
  cases h <;> rfl

lemma Operand.starts {loose : Bool} {ts : List Symbol} {t : Node} (h : Operand loose ts t) :
    StartsExpr ts := by
  cases h with
  | reset htarget => exact ⟨_, _, rfl, htarget.opens⟩
  | rewrite htarget => exact ⟨_, _, rfl, htarget.opens⟩
  | _ => exact ⟨_, _, rfl, rfl⟩

lemma Chain.starts : ∀ {loose : Bool} {ts : List Symbol} {t : Node}, Chain loose ts t →
    StartsExpr ts
  | _, _, _, .operand h => h.starts
  | _, _, _, .col h _ => h.starts.append _
  | _, _, _, .tis h _ => h.starts.append _

lemma Expr.starts {ts : List Symbol} {t : Node} (h : Expr ts t) : StartsExpr ts := by
  cases h with
  | chain h => exact h.starts

lemma Spaced.starts {ts : List Symbol} {nodes : List Node} (h : Spaced ts nodes) :
    StartsExpr ts := by
  cases h with
  | one h => exact h.starts
  | more h _ => exact h.starts.append _

lemma Pairs.starts {ts : List Symbol} {nodes : List Node} (h : Pairs ts nodes) :
    StartsExpr ts := by
  cases h with
  | one h _ => exact h.starts.append _
  | more h _ _ =>
      rw [List.append_assoc]
      exact h.starts.append _

lemma Jogging.starts {s : Signature} {ts : List Symbol} {nodes : List Node}
    (h : Jogging s ts nodes) : StartsExpr ts := by
  cases h with
  | pairs h => exact h.starts
  | post _ h _ => exact h.starts.append _

/-! ## What may follow -/

/-- An expression that ends in front of `rest` does not go on with any of it. -/
structure Calm (rest : List Symbol) : Prop where
  notCalled : rest.head? ≠ some (mark .pal)
  notLinked : ¬ Linked rest

section

variable {rest : List Symbol}

lemma calm_ace : Calm (ace :: rest) := ⟨by simp, by simp [Linked]⟩

lemma calm_gap : Calm (gap :: rest) := ⟨by simp, by simp [Linked]⟩

lemma calm_par : Calm (mark .par :: rest) := ⟨by simp, by simp [Linked]⟩

lemma calm_ser : Calm (mark .ser :: rest) := ⟨by simp, by simp [Linked]⟩

lemma calm_com : Calm (mark .com :: rest) := ⟨by simp, by simp [Linked]⟩

lemma calm_eof : Calm (.eof :: rest) := ⟨by simp, by simp [Linked]⟩

lemma calm_of_isSeparator {s : Symbol} (h : s.kind.isSeparator = true) : Calm (s :: rest) := by
  refine ⟨?_, ?_⟩
  · rintro ⟨⟩
    cases h
  · rintro (⟨⟨⟩⟩ | ⟨⟨⟩⟩) <;> cases h

end

lemma Gapped.calm {ts rest : List Symbol} {nodes : List Node} (h : Gapped ts nodes)
    (hrest : Calm rest) : Calm (ts ++ rest) := by
  cases h with
  | none => exact hrest
  | more _ _ => exact calm_gap

lemma Gapped.notCalled {ts rest : List Symbol} {nodes : List Node} (h : Gapped ts nodes)
    (hrest : rest.head? ≠ some (mark .pal)) : (ts ++ rest).head? ≠ some (mark .pal) := by
  cases h with
  | none => exact hrest
  | more _ _ => simp

/-- A tall form does not start with a parenthesis, so it is not taken for a wide one. -/
lemma Tall.notCalled {s : Signature} {ts rest : List Symbol} {nodes : List Node}
    (h : Tall s ts nodes) (hrest : rest.head? ≠ some (mark .pal)) :
    (ts ++ rest).head? ≠ some (mark .pal) := by
  cases h with
  | fixed _ hfixed _ hpost _ =>
      rw [List.append_assoc]
      exact hfixed.notCalled (hpost.notCalled hrest)
  | closed _ hfixed _ hitems _ _ _ =>
      rw [List.append_assoc, List.append_assoc]
      exact hfixed.notCalled (hitems.notCalled (by simp))

end Grammar

open Grammar

namespace Parse

lemma reaches_spanFrom {start : Nat} {c : Cursor} {rest : List Symbol} (hc : c.Clean)
    (hview : c.view = rest) : Reaches (spanFrom start) c rest fun _ => True :=
  ⟨_, c, rfl, hc, hview, trivial⟩

lemma reaches_applied {rune : Rune} {args : List Node} {start : Nat} {c : Cursor}
    {rest : List Symbol} (hc : c.Clean) (hview : c.view = rest) :
    Reaches (applied rune args start) c rest fun n =>
      n.bare = .rune rune (bareAll args) .nowhere :=
  ⟨_, c, rfl, hc, hview, rfl⟩

/-- If the rest is not `Linked`, then `chain` ends in front of it with its left part. -/
lemma reaches_chain {budget start : Nat} {left : Node} {c : Cursor} {rest : List Symbol}
    (hc : c.Clean) (hview : c.view = rest) (hjoin : ¬ Linked rest) :
    Reaches (chain (budget + 1) start left) c rest fun n => n = left := by
  rw [chain]
  refine .peek ?_
  split
  · next hk => exact absurd (hview ▸ linked_of_kind (.inl hk)) hjoin
  · next hk => exact absurd (hview ▸ linked_of_kind (.inr hk)) hjoin
  · exact .pure hc hview rfl

section

variable {budget start : Nat} {left right : Node} {c d e : Cursor} {t : Token}

/-- What a chain does at `:`. -/
lemma chain_of_col (hkind : c.current.kind = .mark .col) (hbump : bump c = (.ok t, d))
    (hright : operand budget d = (.ok right, e)) :
    chain (budget + 1) start left c =
      chain budget start (.rune .tisgal [left, right] ⟨start, e.prevEnd⟩) e := by
  rw [chain]
  simp only [Attempt.bind_apply, peek, hkind, hbump, hright]
  rfl

/-- What a chain does at `=`. -/
lemma chain_of_tis {name : String} {place : Span} (hkind : c.current.kind = .mark .tis)
    (hbump : bump c = (.ok t, d)) (hright : operand budget d = (.ok right, e)) :
    chain (budget + 1) start (.face name place) c =
      chain budget start (.faced name right ⟨start, e.prevEnd⟩) e := by
  rw [chain]
  simp only [Attempt.bind_apply, peek, hkind, hbump, hright]
  rfl

end

/-- One step of a chain over `:`. -/
lemma chain_col {budget start : Nat} {left : Node} {c : Cursor} {mid rest : List Symbol} {r : Node}
    (hc : c.Clean) (hview : c.view = mark .col :: mid)
    (hop : ∀ d : Cursor, d.Clean → d.view = mid →
      Reaches (operand budget) d rest fun n => n.bare = r) :
    ∃ n d, chain (budget + 1) start left c = chain budget start n d ∧ d.Clean ∧ d.view = rest ∧
      n.bare = .rune .tisgal [left.bare, r] .nowhere := by
  obtain ⟨_, d, hbump, hd, hdview, rfl⟩ := reaches_bump hc hview (by simp)
  obtain ⟨right, e, hright, he, heview, rfl⟩ := hop d hd hdview
  exact ⟨.rune .tisgal [left, right] ⟨start, e.prevEnd⟩, e,
    chain_of_col (Cursor.kind_of_plain hview) hbump hright, he, heview, rfl⟩

/-- One step of a chain over `=`. -/
lemma chain_tis {budget start : Nat} {name : String} {place : Span} {c : Cursor}
    {mid rest : List Symbol} {r : Node} (hc : c.Clean) (hview : c.view = mark .tis :: mid)
    (hop : ∀ d : Cursor, d.Clean → d.view = mid →
      Reaches (operand budget) d rest fun n => n.bare = r) :
    ∃ n d, chain (budget + 1) start (.face name place) c = chain budget start n d ∧ d.Clean ∧
      d.view = rest ∧ n.bare = .faced name r .nowhere := by
  obtain ⟨_, d, hbump, hd, hdview, rfl⟩ := reaches_bump hc hview (by simp)
  obtain ⟨right, e, hright, he, heview, rfl⟩ := hop d hd hdview
  exact ⟨.faced name right ⟨start, e.prevEnd⟩, e,
    chain_of_tis (Cursor.kind_of_plain hview) hbump hright, he, heview, rfl⟩

lemma eq_face_of_bare {n : Node} {name : String} (h : n.bare = .face name .nowhere) :
    ∃ place, n = .face name place := by
  cases n <;> simp_all

lemma opens_current {c : Cursor} {ts rest : List Symbol} (h : StartsExpr ts)
    (hview : c.view = ts ++ rest) : opensExpr c.current.kind = true := by
  obtain ⟨s, us, rfl, hs⟩ := h
  rwa [Cursor.kind_current hview]

/-- A kind that opens an expression is none of those that do not. -/
lemma kind_ne_of_opens {kind other : Kind} (h : opensExpr kind = true)
    (hother : opensExpr other = false) : kind ≠ other := by
  rintro rfl
  rw [h] at hother
  cases hother

/-- What stands behind the pairs of a wide form: its parenthesis, or more expressions, for which a
list reader needs `extra`. -/
def Ends (s : Signature) (extra : Nat) (tail rest : List Symbol) (more : List Node) : Prop :=
  tail = mark .par :: rest ∧ more = [] ∨
    0 < s.post ∧ ∃ us, tail = ace :: us ∧ ∀ (budget : Nat) {d : Cursor}, d.Clean → d.view = us →
      extra ≤ budget → Reaches (wideList budget) d rest fun ns => bareAll ns = more

lemma Ends.calm {s : Signature} {extra : Nat} {tail rest : List Symbol} {more : List Node}
    (h : Ends s extra tail rest more) : Calm tail := by
  rcases h with ⟨rfl, -⟩ | ⟨-, us, rfl, -⟩
  · exact calm_par
  · exact calm_ace

/-- Two expressions with a space between them are read one after the other. -/
lemma reaches_pair {α : Type} {budget : Nat} {f : Node → Node → Parse α} {c : Cursor}
    {mid tail rest : List Symbol} {l r : Node} {P : α → Prop}
    (hl : Reaches (expr budget) c (ace :: mid) fun n => n.bare = l)
    (hr : ∀ d : Cursor, d.Clean → d.view = mid →
      Reaches (expr budget) d tail fun n => n.bare = r)
    (hf : ∀ left right d, left.bare = l → right.bare = r → d.Clean → d.view = tail →
      Reaches (f left right) d rest P) :
    Reaches (do
      let left ← expr budget
      expect .ace
      let right ← expr budget
      f left right) c rest P := by
  refine hl.bind ?_
  intro left d hd hdview hleft
  refine (reaches_expect hd hdview (by simp)).bind ?_
  rintro _ e he heview -
  refine (hr e he heview).bind ?_
  intro right g hg hgview hright
  exact hf left right g hleft hright hg hgview

/-- A name or `$` is handed on to the reader of calls. -/
lemma reaches_target {s : Symbol} {t : Node} (h : Target s t) {budget : Nat} {c : Cursor}
    {mid rest : List Symbol} {P : Node → Prop} (hc : c.Clean) (hview : c.view = s :: mid)
    (hcall : ∀ start target d, target.bare = t → d.Clean → d.view = mid →
      Reaches (gateCall budget start target) d rest P) :
    Reaches (operand (budget + 1)) c rest P := by
  rw [operand]
  cases h with
  | face name =>
      obtain ⟨hk, htext⟩ := Token.symbol_eq_face (Cursor.symbol_current hview)
      refine (reaches_bump hc hview (by simp)).bind ?_
      rintro _ d hd hdview rfl
      simp only [hk]
      exact hcall _ _ d (by rw [bare, htext]) hd hdview
  | buc =>
      refine (reaches_bump hc hview (by simp)).bind ?_
      rintro _ d hd hdview rfl
      simp only [Cursor.kind_of_plain hview]
      exact hcall _ _ d rfl hd hdview

/-- An operand that starts with a rune of the table is read if its arguments are. -/
lemma reaches_application {r : Rune} {s : Signature} (h : r.signature? = some s) {budget : Nat}
    {c : Cursor} {mid rest : List Symbol} {nodes : List Node} (hc : c.Clean)
    (hview : c.view = .rune r :: mid)
    (hargs : ∀ span d, d.Clean → d.view = mid →
      Reaches (if d.current.kind = .mark .pal then wide budget r s span else tall budget r s span)
        d rest fun ns => bareAll ns = nodes) :
    Reaches (operand (budget + 2)) c rest fun n => n.bare = .rune r nodes .nowhere := by
  obtain ⟨hk, htext⟩ := Token.symbol_eq_rune (Cursor.symbol_current hview)
  rw [operand]
  refine (reaches_bump hc hview (by simp)).bind ?_
  rintro _ d hd hdview rfl
  simp only [hk]
  rw [application]
  simp only [htext, h]
  refine .peek ?_
  have hdone : ∀ p : Parse (List Node), Reaches p d rest (fun ns => bareAll ns = nodes) →
      Reaches (do let args ← p; applied r args c.current.span.start) d rest fun n =>
        n.bare = .rune r nodes .nowhere := by
    intro p hp
    refine hp.bind ?_
    rintro args e he heview rfl
    exact reaches_applied he heview
  have hread := hargs c.current.span d hd hdview
  split <;> rename_i hpal
  · rw [if_pos hpal] at hread
    exact hdone _ hread
  · rw [if_neg hpal] at hread
    exact hdone _ hread

/-- A wide form is read if its arguments between the parentheses are. -/
lemma reaches_parens {budget : Nat} {r : Rune} {s : Signature} {span : Span} {c : Cursor}
    {mid rest : List Symbol} {nodes : List Node} (htail : s.tail ≠ .arms)
    (haccepts : s.accepts nodes.length = true) (hc : c.Clean) (hview : c.view = mark .pal :: mid)
    (hargs : ∀ d : Cursor, d.Clean → d.view = mid →
      Reaches (wideArgs budget s) d rest fun ns => bareAll ns = nodes) :
    Reaches (wide (budget + 1) r s span) c rest fun ns => bareAll ns = nodes := by
  rw [wide_succ, if_neg htail]
  refine (reaches_expect hc hview (by simp)).bind ?_
  rintro _ d hd hdview -
  refine (hargs d hd hdview).bind ?_
  rintro args e he heview rfl
  rw [if_pos (by simpa using haccepts)]
  exact .pure he heview rfl

lemma reaches_gateCall {budget start : Nat} {target : Node} {c : Cursor} {rest : List Symbol}
    (hc : c.Clean) (hview : c.view = rest) (hpal : rest.head? ≠ some (mark .pal)) :
    Reaches (gateCall (budget + 1) start target) c rest fun n => n = target := by
  rw [gateCall]
  refine .peek ?_
  rw [if_neg]
  · exact .pure hc hview rfl
  · intro hk
    rw [← hview, Cursor.view_eq, Token.symbol_of_mark hk] at hpal
    exact hpal rfl

mutual

theorem reaches_expr {ts : List Symbol} {t : Node} : Expr ts t → ∀ (budget : Nat) {c : Cursor}
    {rest : List Symbol}, c.Clean → c.view = ts ++ rest → Calm rest → 8 * ts.length ≤ budget →
    Reaches (expr budget) c rest fun n => n.bare = t
  | .chain h => by
      intro budget c rest hc hview hrest hbudget
      have ih := @expr_eq_chain _ _ _ h
      have hpos := h.starts.length_pos
      obtain ⟨b, rfl⟩ : ∃ b, budget = b + 1 := ⟨budget - 1, by omega⟩
      obtain ⟨start, left, n, d, hleft, hrun, hd, hdview, hn⟩ :=
        ih b hc hview hrest.notCalled (fun _ => hrest.notLinked) hbudget
      obtain ⟨left, rfl⟩ : ∃ l, left = l + 1 := ⟨left - 1, by omega⟩
      obtain ⟨_, e, hend, he, heview, rfl⟩ := reaches_chain hd hdview hrest.notLinked
      exact ⟨n, e, hrun.trans hend, he, heview, hn⟩

theorem expr_eq_chain {loose : Bool} {ts : List Symbol} {t : Node} : Chain loose ts t →
    ∀ (budget : Nat) {c : Cursor} {rest : List Symbol}, c.Clean → c.view = ts ++ rest →
    rest.head? ≠ some (mark .pal) → (loose = true → ¬ Linked rest) →
    8 * ts.length ≤ budget + 1 →
    ∃ start left n d, budget ≤ left + ts.length ∧
      expr (budget + 1) c = chain left start n d ∧ d.Clean ∧ d.view = rest ∧ n.bare = t
  | .operand h => by
      intro budget c rest hc hview hpal hjoin hbudget
      have ih := @reaches_operand _ _ _ h
      have hpos := h.starts.length_pos
      obtain ⟨b, rfl⟩ : ∃ b, budget = b + 2 := ⟨budget - 2, by omega⟩
      obtain ⟨n, d, hrun, hd, hdview, hn⟩ := ih b hc hview hpal hjoin hbudget
      refine ⟨c.current.span.start, b + 2, n, d, by omega, ?_, hd, hdview, hn⟩
      rw [expr]
      change (operand (b + 2) >>= _) c = _
      rw [Attempt.bind_apply, hrun]
  | .col hl hr => by
      intro budget c rest hc hview hpal hjoin hbudget
      have ihl := @expr_eq_chain _ _ _ hl
      have ihr := @reaches_operand _ _ _ hr
      have hpos := hr.starts.length_pos
      rw [List.length_append, List.length_cons] at hbudget
      rw [List.append_assoc, List.cons_append] at hview
      obtain ⟨start, left, n, d, hleft, hrun, hd, hdview, rfl⟩ :=
        ihl budget hc hview (by simp) (by simp) (by omega)
      obtain ⟨left, rfl⟩ : ∃ l, left = l + 3 := ⟨left - 3, by omega⟩
      obtain ⟨m, e, hstep, he, heview, hm⟩ := chain_col hd hdview fun f hf hfview =>
        ihr left hf hfview hpal hjoin (by omega)
      refine ⟨start, left + 2, m, e, ?_, hrun.trans hstep, he, heview, hm⟩
      rw [List.length_append, List.length_cons]
      omega
  | .tis hl hr => by
      intro budget c rest hc hview hpal hjoin hbudget
      have ihl := @expr_eq_chain _ _ _ hl
      have ihr := @reaches_operand _ _ _ hr
      have hpos := hr.starts.length_pos
      rw [List.length_append, List.length_cons] at hbudget
      rw [List.append_assoc, List.cons_append] at hview
      obtain ⟨start, left, n, d, hleft, hrun, hd, hdview, hn⟩ :=
        ihl budget hc hview (by simp) (by simp) (by omega)
      obtain ⟨place, rfl⟩ := eq_face_of_bare hn
      obtain ⟨left, rfl⟩ : ∃ l, left = l + 3 := ⟨left - 3, by omega⟩
      obtain ⟨m, e, hstep, he, heview, hm⟩ := chain_tis hd hdview fun f hf hfview =>
        ihr left hf hfview hpal hjoin (by omega)
      refine ⟨start, left + 2, m, e, ?_, hrun.trans hstep, he, heview, hm⟩
      rw [List.length_append, List.length_cons]
      omega

theorem reaches_operand {loose : Bool} {ts : List Symbol} {t : Node} : Operand loose ts t →
    ∀ (budget : Nat) {c : Cursor} {rest : List Symbol}, c.Clean → c.view = ts ++ rest →
    rest.head? ≠ some (mark .pal) → (loose = true → ¬ Linked rest) →
    8 * ts.length ≤ budget + 3 → Reaches (operand (budget + 2)) c rest fun n => n.bare = t
  | .face name => by
      intro budget c rest hc hview hpal _ _
      refine reaches_target (.face name) hc hview ?_
      intro start target d htarget hd hdview
      exact (reaches_gateCall hd hdview hpal).imp fun n hn => by rw [hn, htarget]
  | .buc => by
      intro budget c rest hc hview hpal _ _
      refine reaches_target .buc hc hview ?_
      intro start target d htarget hd hdview
      exact (reaches_gateCall hd hdview hpal).imp fun n hn => by rw [hn, htarget]
  | .num digits => by
      intro budget c rest hc hview _ _ _
      obtain ⟨hk, htext⟩ := Token.symbol_eq_num (Cursor.symbol_current hview)
      rw [operand]
      refine (reaches_bump hc hview (by simp)).bind ?_
      rintro _ d hd hdview rfl
      simp only [hk]
      exact .pure hd hdview (by rw [bare, htext])
  | .pat => by
      intro budget c rest hc hview _ _ _
      rw [operand]
      refine (reaches_bump hc hview (by simp)).bind ?_
      rintro _ d hd hdview rfl
      simp only [Cursor.kind_of_plain hview]
      exact .pure hd hdview rfl
  | .dot => by
      intro budget c rest hc hview _ _ _
      rw [operand]
      refine (reaches_bump hc hview (by simp)).bind ?_
      rintro _ d hd hdview rfl
      simp only [Cursor.kind_of_plain hview]
      exact .pure hd hdview rfl
  | .lus ht => by
      intro budget c rest hc hview _ _ hbudget
      have ih := @reaches_expr _ _ ht
      simp only [List.cons_append, List.append_assoc, List.length_cons, List.length_append,
        List.length_nil] at hview hbudget
      rw [operand]
      refine (reaches_bump hc hview (by simp)).bind ?_
      rintro _ d hd hdview rfl
      simp only [Cursor.kind_of_plain hview]
      refine (reaches_expect hd hdview (by simp)).bind ?_
      rintro _ e he heview -
      refine (ih (budget + 1) he heview calm_par (by omega)).bind ?_
      rintro value f hf hfview rfl
      refine (reaches_expect hf hfview (by simp)).bind ?_
      rintro _ g hg hgview -
      exact reaches_applied hg hgview
  | .tis hl hr => by
      intro budget c rest hc hview _ _ hbudget
      have ihl := @reaches_expr _ _ hl
      have ihr := @reaches_expr _ _ hr
      simp only [List.cons_append, List.append_assoc, List.length_cons, List.length_append,
        List.length_nil] at hview hbudget
      rw [operand]
      refine (reaches_bump hc hview (by simp)).bind ?_
      rintro _ d hd hdview rfl
      simp only [Cursor.kind_of_plain hview]
      refine (reaches_expect hd hdview (by simp)).bind ?_
      rintro _ e he heview -
      refine reaches_pair (ihl (budget + 1) he heview calm_ace (by omega))
        (fun f hf hfview => ihr (budget + 1) hf hfview calm_par (by omega)) ?_
      rintro left right i rfl rfl hi hiview
      refine (reaches_expect hi hiview (by simp)).bind ?_
      rintro _ j hj hjview -
      exact reaches_applied hj hjview
  | .pal hs => by
      intro budget c rest hc hview _ _ hbudget
      have ih := @reaches_wideList _ _ hs
      simp only [List.cons_append, List.append_assoc, List.length_cons, List.length_append,
        List.length_nil] at hview hbudget
      rw [operand]
      refine (reaches_bump hc hview (by simp)).bind ?_
      rintro _ d hd hdview rfl
      simp only [Cursor.kind_of_plain hview]
      refine (ih budget hd hdview (by omega)).bind ?_
      rintro args e he heview rfl
      exact reaches_applied he heview
  | .sel hs => by
      intro budget c rest hc hview _ _ hbudget
      have ih := @reaches_cons _ _ hs
      simp only [List.cons_append, List.append_assoc, List.length_cons, List.length_append,
        List.length_nil] at hview hbudget
      rw [operand]
      refine (reaches_bump hc hview (by simp)).bind ?_
      rintro _ d hd hdview rfl
      simp only [Cursor.kind_of_plain hview]
      refine (ih budget hd hdview (by omega)).bind ?_
      rintro node e he heview rfl
      refine (reaches_expect he heview (by simp)).bind ?_
      rintro _ f hf hfview -
      exact .pure hf hfview rfl
  | .reset htarget => by
      intro budget c rest hc hview _ _ _
      refine reaches_target htarget hc hview ?_
      rintro start target d rfl hd hdview
      rw [gateCall]
      refine .peek ?_
      rw [if_pos (Cursor.kind_of_plain hdview)]
      refine (reaches_bump hd hdview (by simp)).bind ?_
      rintro _ e he heview -
      refine .peek ?_
      dsimp only
      rw [if_pos (Cursor.kind_of_plain heview)]
      refine (reaches_bump he heview (by simp)).bind ?_
      rintro _ f hf hfview -
      exact reaches_applied hf hfview
  | .rewrite htarget hpairs => by
      intro budget c rest hc hview _ _ hbudget
      have ih := @reaches_callPairs _ _ hpairs
      simp only [List.cons_append, List.append_assoc, List.length_cons, List.length_append,
        List.length_nil] at hview hbudget
      obtain ⟨budget, rfl⟩ : ∃ b, budget = b + 1 := ⟨budget - 1, by omega⟩
      refine reaches_target htarget hc hview ?_
      rintro start target d rfl hd hdview
      rw [gateCall]
      refine .peek ?_
      rw [if_pos (Cursor.kind_of_plain hdview)]
      refine (reaches_bump hd hdview (by simp)).bind ?_
      rintro _ e he heview -
      refine .peek ?_
      dsimp only
      rw [if_neg (kind_ne_of_opens (opens_current hpairs.starts heview) rfl)]
      refine (ih budget he heview (by omega)).bind ?_
      rintro pairs f hf hfview rfl
      exact reaches_applied hf hfview
  | .wide hs hwide haccepts => by
      intro budget c rest hc hview _ _ hbudget
      have ih := @reaches_wide _ _ _ hwide
      simp only [List.cons_append, List.append_assoc, List.length_cons, List.length_append,
        List.length_nil] at hview hbudget
      obtain ⟨budget, rfl⟩ : ∃ b, budget = b + 3 := ⟨budget - 3, by omega⟩
      refine reaches_application hs hc hview ?_
      intro token d hd hdview
      rw [if_pos (Cursor.kind_of_plain hdview)]
      exact ih budget haccepts hd hdview (by omega)
  | .tall hs htall => by
      intro budget c rest hc hview hpal hjoin hbudget
      have ih := @reaches_tall _ _ _ htall
      simp only [List.cons_append, List.length_cons] at hview hbudget
      obtain ⟨budget, rfl⟩ : ∃ b, budget = b + 2 := ⟨budget - 2, by omega⟩
      refine reaches_application hs hc hview ?_
      intro token d hd hdview
      have hnot := htall.notCalled hpal
      rw [← hdview] at hnot
      rw [if_neg (fun hk => hnot (by rw [Cursor.view_eq, Token.symbol_of_mark hk]; rfl))]
      exact ih budget hd hdview hpal hjoin (by omega)

theorem reaches_wideList {ts : List Symbol} {nodes : List Node} : Spaced ts nodes →
    ∀ (budget : Nat) {c : Cursor} {rest : List Symbol}, c.Clean →
    c.view = ts ++ mark .par :: rest → 8 * ts.length ≤ budget →
    Reaches (wideList (budget + 1)) c rest fun ns => bareAll ns = nodes
  | .one ht => by
      intro budget c rest hc hview hbudget
      have ih := @reaches_expr _ _ ht
      rw [wideList]
      refine (ih budget hc hview calm_par hbudget).bind ?_
      rintro node d hd hdview rfl
      refine .peek ?_
      rw [if_pos (Cursor.kind_of_plain hdview)]
      refine (reaches_bump hd hdview (by simp)).bind ?_
      rintro _ e he heview -
      exact .pure he heview rfl
  | .more ht hs => by
      intro budget c rest hc hview hbudget
      have ih := @reaches_expr _ _ ht
      have ihs := @reaches_wideList _ _ hs
      simp only [List.cons_append, List.append_assoc, List.length_cons, List.length_append]
        at hview hbudget
      obtain ⟨budget, rfl⟩ : ∃ b, budget = b + 1 := ⟨budget - 1, by omega⟩
      rw [wideList]
      refine (ih (budget + 1) hc hview calm_ace (by omega)).bind ?_
      rintro node d hd hdview rfl
      refine .peek ?_
      rw [if_neg (by rw [Cursor.kind_of_plain hdview]; simp)]
      refine (reaches_expect hd hdview (by simp)).bind ?_
      rintro _ e he heview -
      refine (ihs budget he heview (by omega)).bind ?_
      rintro nodes f hf hfview rfl
      exact .pure hf hfview rfl

theorem reaches_cons {ts : List Symbol} {t : Node} : Cells ts t →
    ∀ (budget : Nat) {c : Cursor} {rest : List Symbol}, c.Clean →
    c.view = ts ++ mark .ser :: rest → 8 * ts.length ≤ budget →
    Reaches (cons (budget + 1)) c (mark .ser :: rest) fun n => n.bare = t
  | .one ht => by
      intro budget c rest hc hview hbudget
      have ih := @reaches_expr _ _ ht
      rw [cons]
      refine .peek ((ih budget hc hview calm_ser hbudget).bind ?_)
      rintro node d hd hdview rfl
      refine .peek ?_
      rw [if_pos (Cursor.kind_of_plain hdview)]
      exact .pure hd hdview rfl
  | .more ht hs => by
      intro budget c rest hc hview hbudget
      have ih := @reaches_expr _ _ ht
      have ihs := @reaches_cons _ _ hs
      simp only [List.cons_append, List.append_assoc, List.length_cons, List.length_append]
        at hview hbudget
      obtain ⟨budget, rfl⟩ : ∃ b, budget = b + 1 := ⟨budget - 1, by omega⟩
      rw [cons]
      refine .peek ((ih (budget + 1) hc hview calm_ace (by omega)).bind ?_)
      rintro node d hd hdview rfl
      refine .peek ?_
      rw [if_neg (by rw [Cursor.kind_of_plain hdview]; simp)]
      refine (reaches_expect hd hdview (by simp)).bind ?_
      rintro _ e he heview -
      refine (ihs budget he heview (by omega)).bind ?_
      rintro tail f hf hfview rfl
      refine (reaches_spanFrom hf hfview).bind ?_
      rintro span g hg hgview -
      exact .pure hg hgview rfl

theorem reaches_callPairs {ts : List Symbol} {nodes : List Node} : Pairs ts nodes →
    ∀ (budget : Nat) {c : Cursor} {rest : List Symbol}, c.Clean →
    c.view = ts ++ mark .par :: rest → 8 * ts.length ≤ budget →
    Reaches (callPairs (budget + 1)) c rest fun ns => bareAll ns = nodes
  | .one hl hr => by
      intro budget c rest hc hview hbudget
      have ihl := @reaches_expr _ _ hl
      have ihr := @reaches_expr _ _ hr
      simp only [List.cons_append, List.append_assoc, List.length_cons, List.length_append]
        at hview hbudget
      rw [callPairs]
      refine reaches_pair (ihl budget hc hview calm_ace (by omega))
        (fun d hd hdview => ihr budget hd hdview calm_par (by omega)) ?_
      rintro name value f rfl rfl hf hfview
      refine .peek ?_
      rw [if_pos (Cursor.kind_of_plain hfview)]
      refine (reaches_bump hf hfview (by simp)).bind ?_
      rintro _ g hg hgview -
      exact .pure hg hgview rfl
  | .more hl hr hpairs => by
      intro budget c rest hc hview hbudget
      have ihl := @reaches_expr _ _ hl
      have ihr := @reaches_expr _ _ hr
      have ih := @reaches_callPairs _ _ hpairs
      simp only [List.cons_append, List.append_assoc, List.length_cons, List.length_append]
        at hview hbudget
      obtain ⟨budget, rfl⟩ : ∃ b, budget = b + 1 := ⟨budget - 1, by omega⟩
      rw [callPairs]
      refine reaches_pair (ihl (budget + 1) hc hview calm_ace (by omega))
        (fun d hd hdview => ihr (budget + 1) hd hdview calm_com (by omega)) ?_
      rintro name value f rfl rfl hf hfview
      refine .peek ?_
      rw [if_neg (by rw [Cursor.kind_of_plain hfview]; simp)]
      refine (reaches_expect hf hfview (by simp)).bind ?_
      rintro _ g hg hgview -
      refine (reaches_expect hg hgview (by simp)).bind ?_
      rintro _ i hi hiview -
      refine (ih budget hi hiview (by omega)).bind ?_
      rintro pairs j hj hjview rfl
      exact .pure hj hjview rfl

theorem reaches_widePairs {ts : List Symbol} {nodes : List Node} : Pairs ts nodes →
    ∀ (budget : Nat) (s : Signature) {extra : Nat} {c : Cursor} {tail rest : List Symbol}
    {more : List Node}, c.Clean → c.view = ts ++ tail → Ends s extra tail rest more →
    8 * ts.length + extra ≤ budget →
    Reaches (widePairs (budget + 1) s) c rest fun ns => bareAll ns = nodes ++ more
  | .one hl hr => by
      intro budget s extra c tail rest more hc hview hend hbudget
      have ihl := @reaches_expr _ _ hl
      have ihr := @reaches_expr _ _ hr
      simp only [List.cons_append, List.append_assoc, List.length_cons, List.length_append]
        at hview hbudget
      rw [widePairs]
      refine reaches_pair (ihl budget hc hview calm_ace (by omega))
        (fun d hd hdview => ihr budget hd hdview hend.calm (by omega)) ?_
      rintro name value f rfl rfl hf hfview
      refine .peek ?_
      rcases hend with ⟨rfl, rfl⟩ | ⟨hpost, us, rfl, hlist⟩
      · rw [if_pos (Cursor.kind_of_plain hfview)]
        refine (reaches_bump hf hfview (by simp)).bind ?_
        rintro _ g hg hgview -
        exact .pure hg hgview rfl
      · rw [if_neg (by rw [Cursor.kind_of_plain hfview]; simp),
          if_neg (by rw [Cursor.kind_of_plain hfview]; simp),
          if_pos ⟨Cursor.kind_of_plain hfview, hpost⟩]
        refine (reaches_bump hf hfview (by simp)).bind ?_
        rintro _ g hg hgview -
        refine (hlist budget hg hgview (by omega)).bind ?_
        rintro others i hi hiview rfl
        exact .pure hi hiview rfl
  | .more hl hr hpairs => by
      intro budget s extra c tail rest more hc hview hend hbudget
      have ihl := @reaches_expr _ _ hl
      have ihr := @reaches_expr _ _ hr
      have ih := @reaches_widePairs _ _ hpairs
      simp only [List.cons_append, List.append_assoc, List.length_cons, List.length_append]
        at hview hbudget
      obtain ⟨budget, rfl⟩ : ∃ b, budget = b + 1 := ⟨budget - 1, by omega⟩
      rw [widePairs]
      refine reaches_pair (ihl (budget + 1) hc hview calm_ace (by omega))
        (fun d hd hdview => ihr (budget + 1) hd hdview calm_com (by omega)) ?_
      rintro name value f rfl rfl hf hfview
      refine .peek ?_
      rw [if_neg (by rw [Cursor.kind_of_plain hfview]; simp),
        if_pos (Cursor.kind_of_plain hfview)]
      refine (reaches_bump hf hfview (by simp)).bind ?_
      rintro _ g hg hgview -
      refine (reaches_expect hg hgview (by simp)).bind ?_
      rintro _ i hi hiview -
      refine (ih budget s hi hiview hend (by omega)).bind ?_
      rintro pairs j hj hjview hpairs
      exact .pure hj hjview (by simp [hpairs])

theorem reaches_wideFixed {ts : List Symbol} {nodes : List Node} : Spaced ts nodes →
    ∀ (budget : Nat) {c : Cursor} {rest : List Symbol}, c.Clean → c.view = ts ++ rest →
    Calm rest → 8 * ts.length ≤ budget →
    Reaches (wideFixed (budget + 1) nodes.length) c rest fun ns => bareAll ns = nodes
  | .one ht => by
      intro budget c rest hc hview hrest hbudget
      have ih := @reaches_expr _ _ ht
      rw [List.length_singleton, wideFixed]
      refine (ih budget hc hview hrest hbudget).bind ?_
      rintro node d hd hdview rfl
      exact .pure hd hdview rfl
  | @Spaced.more _ _ _ nodes ht hs => by
      intro budget c rest hc hview hrest hbudget
      have ih := @reaches_expr _ _ ht
      have ihs := @reaches_wideFixed _ _ hs
      simp only [List.cons_append, List.append_assoc, List.length_cons, List.length_append]
        at hview hbudget
      obtain ⟨budget, rfl⟩ : ∃ b, budget = b + 1 := ⟨budget - 1, by omega⟩
      obtain ⟨first, others, rfl⟩ := List.exists_cons_of_ne_nil hs.ne_nil
      rw [List.length_cons, List.length_cons, wideFixed]
      refine (ih (budget + 1) hc hview calm_ace (by omega)).bind ?_
      rintro node d hd hdview rfl
      refine (reaches_expect hd hdview (by simp)).bind ?_
      rintro _ e he heview -
      refine (ihs budget he heview hrest (by omega)).bind ?_
      rintro nodes f hf hfview hnodes
      exact .pure hf hfview (by simp [hnodes])

theorem reaches_jogging {s : Signature} {ts : List Symbol} {nodes : List Node} :
    Jogging s ts nodes → ∀ (budget : Nat) {c : Cursor} {rest : List Symbol}, c.Clean →
    c.view = ts ++ mark .par :: rest → 8 * ts.length ≤ budget →
    Reaches (widePairs (budget + 1) s) c rest fun ns => bareAll ns = nodes
  | .pairs hpairs => by
      intro budget c rest hc hview hbudget
      have ih := @reaches_widePairs _ _ hpairs
      have hend : Ends s 0 (mark .par :: rest) rest [] := .inl ⟨rfl, rfl⟩
      simpa using ih budget s hc hview hend hbudget
  | @Jogging.post _ _ us _ more hpost hpairs hs => by
      intro budget c rest hc hview hbudget
      have ih := @reaches_widePairs _ _ hpairs
      have ihs := @reaches_wideList _ _ hs
      simp only [List.cons_append, List.append_assoc, List.length_cons, List.length_append]
        at hview hbudget
      have hend : Ends s (8 * us.length + 1) (ace :: (us ++ mark .par :: rest)) rest more := by
        refine .inr ⟨hpost, _, rfl, ?_⟩
        intro b d hd hdview hb
        obtain ⟨b, rfl⟩ : ∃ b', b = b' + 1 := ⟨b - 1, by omega⟩
        exact ihs b hd hdview (by omega)
      exact ih budget s hc hview hend (by omega)

theorem reaches_wide {s : Signature} {ts : List Symbol} {nodes : List Node} :
    Wide s ts nodes → ∀ (budget : Nat) {r : Rune} {span : Span} {c : Cursor}
    {rest : List Symbol}, s.accepts nodes.length = true → c.Clean →
    c.view = mark .pal :: (ts ++ mark .par :: rest) → 8 * ts.length ≤ budget →
    Reaches (wide (budget + 3) r s span) c rest fun ns => bareAll ns = nodes
  | .args htail hargs => by
      intro budget r span c rest haccepts hc hview hbudget
      have ih := @reaches_list _ _ hargs
      refine reaches_parens (by rcases htail with h | h <;> simp [h]) haccepts hc hview ?_
      intro d hd hdview
      refine .peek ?_
      rw [if_neg (by rcases htail with h | h <;> simp [h])]
      exact ih (budget + 1) hd hdview (by omega)
  | .fixed htail hargs hcount => by
      intro budget r span c rest haccepts hc hview hbudget
      have ih := @reaches_args _ _ hargs
      refine reaches_parens (by simp [htail]) haccepts hc hview ?_
      intro d hd hdview
      refine .peek ?_
      rw [if_pos htail, wideJogging, ← hcount]
      refine (ih budget hd hdview (fun _ => calm_par) hbudget).bind ?_
      rintro args e he heview rfl
      refine .peek ?_
      rw [if_pos (Cursor.kind_of_plain heview)]
      refine (reaches_bump he heview (by simp)).bind ?_
      rintro _ f hf hfview -
      exact .pure hf hfview rfl
  | @Wide.jogging _ _ _ nodes _ htail hargs hcount hjogging => by
      intro budget r span c rest haccepts hc hview hbudget
      have ih := @reaches_args _ _ hargs
      have ihj := @reaches_jogging _ _ _ hjogging
      simp only [List.append_assoc, List.length_append] at hview hbudget
      refine reaches_parens (by simp [htail]) haccepts hc hview ?_
      intro d hd hdview
      refine .peek ?_
      rw [if_pos htail, wideJogging]
      by_cases hpos : 0 < s.args
      · rw [if_pos hpos] at hdview hbudget
        rw [← hcount]
        refine (ih budget hd hdview (fun _ => calm_ace) (by omega)).bind ?_
        rintro args e he heview rfl
        refine .peek ?_
        rw [if_neg (by rw [Cursor.kind_of_plain heview]; simp)]
        dsimp only
        rw [hcount, if_pos hpos]
        refine (reaches_expect he heview (by simp)).bind ?_
        rintro _ f hf hfview -
        refine (ihj budget hf hfview (by omega)).bind ?_
        rintro pairs g hg hgview rfl
        exact .pure hg hgview (by simp)
      · rw [if_neg hpos] at hdview hbudget
        have hnil : nodes = [] := List.length_eq_zero_iff.1 (by omega)
        rw [← hcount]
        refine (ih budget hd hdview (fun hne => absurd hnil hne) (by omega)).bind ?_
        rintro args e he heview rfl
        rw [List.nil_append] at heview
        refine .peek ?_
        rw [if_neg (kind_ne_of_opens (opens_current hjogging.starts heview) rfl)]
        dsimp only
        rw [hcount, if_neg hpos]
        refine (ihj budget he heview (by omega)).bind ?_
        rintro pairs g hg hgview rfl
        exact .pure hg hgview (by simp)

/-- The arguments of a list in wide form, of which there may be none, are read up to the
parenthesis. -/
theorem reaches_list {ts : List Symbol} {nodes : List Node} : Args ts nodes →
    ∀ (budget : Nat) {c : Cursor} {rest : List Symbol}, c.Clean →
    c.view = ts ++ mark .par :: rest → 8 * ts.length ≤ budget →
    Reaches (if c.current.kind = .mark .par then do
        let _ ← bump
        pure []
      else wideList (budget + 1)) c rest fun ns => bareAll ns = nodes
  | .none => by
      intro budget c rest hc hview _
      rw [if_pos (Cursor.kind_of_plain hview)]
      refine (reaches_bump hc hview (by simp)).bind ?_
      rintro _ d hd hdview -
      exact .pure hd hdview rfl
  | .some hs => by
      intro budget c rest hc hview hbudget
      rw [if_neg (kind_ne_of_opens (opens_current hs.starts hview) rfl)]
      exact reaches_wideList hs budget hc hview hbudget

theorem reaches_args {ts : List Symbol} {nodes : List Node} : Args ts nodes →
    ∀ (budget : Nat) {c : Cursor} {rest : List Symbol}, c.Clean → c.view = ts ++ rest →
    (nodes ≠ [] → Calm rest) → 8 * ts.length ≤ budget →
    Reaches (wideFixed (budget + 1) nodes.length) c rest fun ns => bareAll ns = nodes
  | .none => by
      intro budget c rest hc hview _ _
      rw [List.length_nil, wideFixed]
      exact .pure hc hview rfl
  | .some hs => by
      intro budget c rest hc hview hrest hbudget
      exact reaches_wideFixed hs budget hc hview (hrest hs.ne_nil) hbudget

theorem reaches_tallFixed {ts : List Symbol} {nodes : List Node} : Gapped ts nodes →
    ∀ (budget : Nat) {c : Cursor} {rest : List Symbol}, c.Clean → c.view = ts ++ rest →
    (nodes ≠ [] → Calm rest) → 8 * ts.length ≤ budget →
    Reaches (tallFixed (budget + 1) nodes.length) c rest fun ns => bareAll ns = nodes
  | .none => by
      intro budget c rest hc hview _ _
      rw [List.length_nil, tallFixed]
      exact .pure hc hview rfl
  | .more ht hs => by
      intro budget c rest hc hview hrest hbudget
      have ih := @reaches_expr _ _ ht
      have ihs := @reaches_tallFixed _ _ hs
      simp only [List.cons_append, List.append_assoc, List.length_cons, List.length_append]
        at hview hbudget
      obtain ⟨budget, rfl⟩ : ∃ b, budget = b + 1 := ⟨budget - 1, by omega⟩
      rw [List.length_cons, tallFixed]
      refine (reaches_expectGap hc hview).bind ?_
      rintro _ d hd hdview -
      refine (ih (budget + 1) hd hdview (hs.calm (hrest (by simp))) (by omega)).bind ?_
      rintro node e he heview rfl
      refine (ihs budget he heview (fun _ => hrest (by simp)) (by omega)).bind ?_
      rintro nodes f hf hfview rfl
      exact .pure hf hfview rfl

theorem reaches_tallUntil {ts : List Symbol} {nodes : List Node} : Gapped ts nodes →
    ∀ (budget : Nat) {closer : Kind} {r : Rune} {span : Span} {c : Cursor} {rest : List Symbol},
    opensExpr closer = false → closer ≠ .eof → c.Clean →
    c.view = ts ++ gap :: .plain closer :: rest → 8 * ts.length ≤ budget →
    Reaches (tallUntil (budget + 1) closer r span) c rest fun ns => bareAll ns = nodes
  | .none => by
      intro budget closer r span c rest _ heof hc hview _
      rw [List.nil_append] at hview
      rw [tallUntil]
      refine .peek ?_
      rw [if_neg (by rw [Cursor.kind_of_plain hview]; simp)]
      refine (reaches_expectGap hc hview).bind ?_
      rintro _ d hd hdview -
      refine .peek ?_
      rw [if_pos (Cursor.kind_of_plain hdview)]
      refine (reaches_bump hd hdview heof).bind ?_
      rintro _ e he heview -
      exact .pure he heview rfl
  | .more ht hs => by
      intro budget closer r span c rest hcloser heof hc hview hbudget
      have ih := @reaches_expr _ _ ht
      have ihs := @reaches_tallUntil _ _ hs
      simp only [List.cons_append, List.append_assoc, List.length_cons, List.length_append]
        at hview hbudget
      obtain ⟨budget, rfl⟩ : ∃ b, budget = b + 1 := ⟨budget - 1, by omega⟩
      rw [tallUntil]
      refine .peek ?_
      rw [if_neg (by rw [Cursor.kind_of_plain hview]; simp)]
      refine (reaches_expectGap hc hview).bind ?_
      rintro _ d hd hdview -
      have hopens := opens_current ht.starts hdview
      refine .peek ?_
      rw [if_neg (kind_ne_of_opens hopens hcloser), if_neg (kind_ne_of_opens hopens rfl)]
      refine (ih (budget + 1) hd hdview (hs.calm calm_gap) (by omega)).bind ?_
      rintro node e he heview rfl
      refine (ihs budget hcloser heof he heview (by omega)).bind ?_
      rintro nodes f hf hfview rfl
      exact .pure hf hfview rfl

theorem reaches_tall {s : Signature} {ts : List Symbol} {nodes : List Node} :
    Tall s ts nodes → ∀ (budget : Nat) {r : Rune} {span : Span} {c : Cursor}
    {rest : List Symbol}, c.Clean → c.view = ts ++ rest → rest.head? ≠ some (mark .pal) →
    (s.isLoose = true → ¬ Linked rest) → 8 * ts.length ≤ budget →
    Reaches (tall (budget + 2) r s span) c rest fun ns => bareAll ns = nodes
  | @Tall.fixed _ _ vs nodes post htail hfixed hargs hpost hcount => by
      intro budget r span c rest hc hview hpal hjoin hbudget
      have ihf := @reaches_tallFixed _ _ hfixed
      have ihp := @reaches_tallFixed _ _ hpost
      rw [List.append_assoc] at hview
      rw [List.length_append] at hbudget
      have hloose : nodes ≠ [] ∨ post ≠ [] → Calm rest := by
        intro hne
        refine ⟨hpal, hjoin ?_⟩
        simp only [← List.length_pos_iff, hargs, hcount] at hne
        simp [Signature.isLoose, htail, hne.symm]
      rw [tall_succ, ← hargs, ← hcount]
      refine (ihf budget hc hview (fun hne => hpost.calm (hloose (.inl hne))) (by omega)).bind ?_
      rintro fixed d hd hdview rfl
      have hread : Reaches (tallItems (budget + 1) r s span) d (vs ++ rest) fun ns => ns = [] := by
        rw [tallItems, htail]
        exact .pure hd hdview rfl
      refine hread.bind ?_
      rintro _ e he heview rfl
      rw [if_neg (by simp)]
      refine (ihp budget he heview (fun hne => hloose (.inr hne)) (by omega)).bind ?_
      rintro others f hf hfview rfl
      exact .pure hf hfview (by simp)
  | @Tall.closed _ closer _ _ vs _ items post hcloser hfixed hargs hitems heven hpost hcount => by
      intro budget r span c rest hc hview hpal hjoin hbudget
      have ihf := @reaches_tallFixed _ _ hfixed
      have ihi := @reaches_tallUntil _ _ hitems
      have ihp := @reaches_tallFixed _ _ hpost
      simp only [List.cons_append, List.append_assoc, List.length_cons, List.length_append]
        at hview hbudget
      have hloose : post ≠ [] → Calm rest := by
        intro hne
        refine ⟨hpal, hjoin ?_⟩
        rw [← List.length_pos_iff, hcount] at hne
        simp [Signature.isLoose, hne]
      rw [tall_succ, ← hargs, ← hcount]
      refine (ihf budget hc hview (fun _ => hitems.calm calm_gap) (by omega)).bind ?_
      rintro fixed d hd hdview rfl
      have hread : Reaches (tallItems (budget + 1) r s span) d (vs ++ rest) fun ns =>
          bareAll ns = items := by
        rw [tallItems, hcloser]
        have hclosers : opensExpr closer = false ∧ closer ≠ .eof := by
          cases ht : s.tail <;> simp_all [Tail.closer?] <;> subst hcloser <;> simp [opensExpr]
        exact ihi budget hclosers.1 hclosers.2 hd hdview (by omega)
      refine hread.bind ?_
      rintro inner e he heview rfl
      rw [if_neg (by simpa using heven)]
      refine (ihp budget he heview hloose (by omega)).bind ?_
      rintro others f hf hfview rfl
      exact .pure hf hfview (by simp)

end

end Parse

end Runic
