import Runic.Proofs.Node.View

/-!
# What is read is derived

A reader that succeeds has taken a phrase of the grammar.  Each reader has one lemma that says which
phrase; they call each other with a smaller budget, so all of them are proved together, by recursion
on the budget.

* `takes_expr` — **an expression that is read is derived by `Grammar.Expr`**, and what follows it
  does not go on with the expression.
-/

namespace Runic

open Runic.Symbol (mark ace gap)
open Node (bare bareAll)

namespace Grammar

/-- The next symbol joins what follows it to the expression in front. -/
def Linked (rest : List Symbol) : Prop :=
  rest.head? = some (mark .col) ∨ rest.head? = some (mark .tis)

lemma Target.operand {s : Symbol} {t : Node} (h : Target s t) : Operand false [s] t := by
  cases h with
  | face name => exact .face name
  | buc => exact .buc

lemma Args.spaced {ts : List Symbol} {nodes : List Node} (h : Args ts nodes) (hne : nodes ≠ []) :
    Spaced ts nodes := by
  cases h with
  | none => exact absurd rfl hne
  | some hs => exact hs

lemma Jogging.more {s : Signature} {ls rs us : List Symbol} {l r : Node} {nodes : List Node}
    (hl : Expr ls l) (hr : Expr rs r) (h : Jogging s us nodes) :
    Jogging s (ls ++ ace :: rs ++ mark .com :: ace :: us) (l :: r :: nodes) := by
  cases h with
  | pairs hp => exact .pairs (.more hl hr hp)
  | post hpost hp hs =>
      have h := Jogging.post hpost (.more hl hr hp) hs
      simpa using h

end Grammar

open Grammar

namespace Parse

/-! ## Arguments in parts

The arguments of a wide and of a tall form are read in parts, and which reader is due depends on
the signature.  Here that choice is a reader of its own. -/

/-- The reader of what stands between the parentheses of a wide form, up to and including the second
one. -/
def wideArgs (budget : Nat) (s : Signature) : Parse (List Node) := do
  let token ← peek
  if s.tail = .pairs then wideJogging budget s
  else if token.kind = .mark .par then
    let _ ← bump
    pure []
  else wideList budget

lemma wide_succ (budget : Nat) (rune : Rune) (s : Signature) (span : Span) :
    wide (budget + 1) rune s span =
      if s.tail = .arms then fail span (.noWideForm rune)
      else (do
        expect (.mark .pal)
        let args ← wideArgs budget s
        if s.accepts args.length then return args
        else fail span (.arity rune s args.length)) := by
  simp only [wide, wideArgs, bind_assoc]
  split
  · rfl
  · congr 1
    funext _
    congr 1
    funext token
    split_ifs <;> simp only [bind_assoc]

/-- The reader of the items of a tall form up to and including its closer, if it has one. -/
def tallItems (budget : Nat) (rune : Rune) (s : Signature) (span : Span) : Parse (List Node) :=
  match s.tail.closer? with
  | none => return []
  | some closer => tallUntil budget closer rune span

lemma tall_succ (budget : Nat) (rune : Rune) (s : Signature) (span : Span) :
    tall (budget + 1) rune s span = (do
      let fixed ← tallFixed budget s.args
      let items ← tallItems budget rune s span
      if s.tail = .pairs ∧ items.length % 2 ≠ 0 then fail span (.oddPairs rune)
      else
        let post ← tallFixed budget s.post
        return fixed ++ items ++ post) := by
  simp only [tall, tallItems]
  congr 1
  funext fixed
  cases s.tail <;> rfl

/-! ## Readers -/

lemma takes_spanFrom {start : Nat} {c : Cursor} :
    Takes (spanFrom start) c fun us _ rest => us = [] ∧ rest = c.view := by
  intro _ a d h
  cases h
  exact ⟨[], rfl, rfl, rfl⟩

lemma takes_applied {rune : Rune} {args : List Node} {start : Nat} {c : Cursor} :
    Takes (applied rune args start) c fun us n rest =>
      us = [] ∧ rest = c.view ∧ n.bare = .rune rune (bareAll args) .nowhere := by
  intro _ a d h
  cases h
  exact ⟨[], rfl, rfl, rfl, rfl⟩

lemma takes_endOfInput {α : Type} {c : Cursor} {P : List Symbol → α → List Symbol → Prop} :
    Takes endOfInput c P :=
  .peek .fail

lemma linked_of_kind {c : Cursor}
    (h : c.current.kind = .mark .col ∨ c.current.kind = .mark .tis) : Linked c.view := by
  unfold Linked
  rw [Cursor.view_eq, List.head?_cons]
  exact h.imp (fun hk => by rw [Token.symbol_of_mark hk]) fun hk => by rw [Token.symbol_of_mark hk]

lemma kind_of_linked {c : Cursor} (h : Linked c.view) :
    c.current.kind = .mark .col ∨ c.current.kind = .mark .tis := by
  unfold Linked at h
  rw [Cursor.view_eq, List.head?_cons, Option.some.injEq, Option.some.injEq] at h
  exact h.imp Token.symbol_eq_plain Token.symbol_eq_plain

/-- Two expressions with a space between them are taken one after the other. -/
lemma takes_pair {α : Type} {budget : Nat} {f : Node → Node → Parse α} {c : Cursor}
    {Q : List Symbol → α → List Symbol → Prop}
    (h : ∀ c, Takes (expr budget) c fun us n rest => Expr us n.bare ∧ ¬ Linked rest)
    (hf : ∀ left right d ls rs, Expr ls left.bare → Expr rs right.bare →
      Takes (f left right) d fun us => Q (ls ++ ace :: rs ++ us)) :
    Takes (do
      let left ← expr budget
      expect .ace
      let right ← expr budget
      f left right) c Q := by
  refine (h c).bind ?_
  rintro left d ls ⟨hleft, -⟩
  refine (takes_expect rfl d).bind ?_
  rintro _ e _ rfl
  refine (h e).bind ?_
  rintro right g rs ⟨hright, -⟩
  refine (hf left right g ls rs hleft hright).imp ?_
  intro us a rest hQ
  simpa using hQ

mutual

theorem takes_expr : ∀ (budget : Nat) (c : Cursor),
    Takes (expr budget) c fun us n rest => Expr us n.bare ∧ ¬ Linked rest
  | 0, _ => by
      rw [expr]
      exact takes_endOfInput
  | budget + 1, c => by
      rw [expr]
      refine .peek ((takes_operand budget c).bind ?_)
      rintro left d us ⟨loose, hop, hloose⟩
      refine (takes_chain budget _ left d (.operand hop) hloose).imp ?_
      rintro vs n rest ⟨loose', hchain, hjoin⟩
      exact ⟨.chain hchain, hjoin⟩

theorem takes_chain : ∀ (budget start : Nat) (left : Node) (c : Cursor) {loose : Bool}
    {ls : List Symbol}, Chain loose ls left.bare → (loose = true → ¬ Linked c.view) →
    Takes (chain budget start left) c fun us n rest =>
      ∃ loose, Chain loose (ls ++ us) n.bare ∧ ¬ Linked rest
  | 0, _, _, _, _, _, _, _ => by
      rw [chain]
      exact takes_endOfInput
  | budget + 1, start, left, c, loose, ls, hleft, hloose => by
      rw [chain]
      refine .peek ?_
      split
      · next hk =>
          cases loose with
          | true => exact absurd (linked_of_kind (.inl hk)) (hloose rfl)
          | false =>
              refine (takes_bump_of_kind hk rfl).bind ?_
              rintro _ d us rfl
              refine (takes_operand budget d).bind ?_
              rintro right e vs ⟨loose', hop, hloose'⟩
              refine takes_applied.bind ?_
              rintro joined f ws ⟨rfl, hrest, hbare⟩
              have hchain : Chain loose' (ls ++ mark .col :: vs) joined.bare := by
                rw [hbare]
                exact .col hleft hop
              rw [← hrest] at hloose'
              refine (takes_chain budget start joined f hchain hloose').imp ?_
              rintro xs n rest h
              simpa using h
      · next hk =>
          cases loose with
          | true => exact absurd (linked_of_kind (.inr hk)) (hloose rfl)
          | false =>
              refine (takes_bump_of_kind hk rfl).bind ?_
              rintro _ d us rfl
              refine (takes_operand budget d).bind ?_
              rintro right e vs ⟨loose', hop, hloose'⟩
              cases left with
              | face name place =>
                  refine takes_spanFrom.bind ?_
                  rintro span f ws ⟨rfl, hrest⟩
                  have hchain : Chain loose' (ls ++ mark .tis :: vs)
                      (Node.faced name right span).bare := .tis hleft hop
                  rw [← hrest] at hloose'
                  refine (takes_chain budget start _ f hchain hloose').imp ?_
                  rintro xs n rest h
                  simpa using h
              | _ => exact .fail
      · next hcol htis =>
          refine .pure ⟨loose, by simpa using hleft, fun hjoin => ?_⟩
          exact (kind_of_linked hjoin).elim hcol htis

theorem takes_operand : ∀ (budget : Nat) (c : Cursor),
    Takes (operand budget) c fun us n rest =>
      ∃ loose, Operand loose us n.bare ∧ (loose = true → ¬ Linked rest)
  | 0, _ => by
      rw [operand]
      exact takes_endOfInput
  | budget + 1, c => by
      rw [operand]
      refine (takes_bump c).bind ?_
      rintro _ d us ⟨rfl, hus⟩
      split
      · next hk =>
          rw [hus (by simp [hk]), Token.symbol_of_face hk]
          refine (takes_gateCall budget _ _ d (.face _)).imp ?_
          rintro vs n rest h
          exact ⟨false, h, by simp⟩
      · next hk =>
          rw [hus (by simp [hk]), Token.symbol_of_mark hk]
          refine (takes_gateCall budget _ _ d .buc).imp ?_
          rintro vs n rest h
          exact ⟨false, h, by simp⟩
      · next hk =>
          rw [hus (by simp [hk]), Token.symbol_of_num hk]
          exact .pure ⟨false, .num _, by simp⟩
      · next hk =>
          rw [hus (by simp [hk]), Token.symbol_of_mark hk]
          exact .pure ⟨false, .pat, by simp⟩
      · next hk =>
          rw [hus (by simp [hk]), Token.symbol_of_mark hk]
          exact .pure ⟨false, .dot, by simp⟩
      · next hk =>
          rw [hus (by simp [hk]), Token.symbol_of_rune hk]
          exact takes_application budget _ d
      · next hk =>
          rw [hus (by simp [hk]), Token.symbol_of_mark hk]
          refine (takes_expect rfl d).bind ?_
          rintro _ e vs rfl
          refine (takes_expr budget e).bind ?_
          rintro value f ws ⟨hvalue, -⟩
          refine (takes_expect rfl f).bind ?_
          rintro _ g xs rfl
          refine takes_applied.imp ?_
          rintro ys n rest ⟨rfl, -, hbare⟩
          refine ⟨false, ?_, by simp⟩
          rw [hbare]
          simpa using Operand.lus hvalue
      · next hk =>
          rw [hus (by simp [hk]), Token.symbol_of_mark hk]
          refine (takes_expect rfl d).bind ?_
          rintro _ e vs rfl
          refine takes_pair (takes_expr budget) ?_
          rintro left right h xs ys hleft hright
          refine (takes_expect rfl h).bind ?_
          rintro _ i zs rfl
          refine takes_applied.imp ?_
          rintro _ n rest ⟨rfl, -, hbare⟩
          refine ⟨false, ?_, by simp⟩
          rw [hbare]
          simpa using Operand.tis hleft hright
      · next hk =>
          rw [hus (by simp [hk]), Token.symbol_of_mark hk]
          refine (takes_wideList budget d).bind ?_
          rintro args e _ ⟨ts, rfl, hargs⟩
          refine takes_applied.imp ?_
          rintro _ n rest ⟨rfl, -, hbare⟩
          refine ⟨false, ?_, by simp⟩
          rw [hbare]
          simpa using Operand.pal hargs
      · next hk =>
          rw [hus (by simp [hk]), Token.symbol_of_mark hk]
          refine (takes_cons budget d).bind ?_
          rintro node e vs hcells
          refine (takes_expect rfl e).bind ?_
          rintro _ f _ rfl
          refine .pure ⟨false, ?_, by simp⟩
          simpa using Operand.sel hcells
      · exact .fail
      · exact .fail

theorem takes_gateCall : ∀ (budget start : Nat) (target : Node) (c : Cursor) {s : Symbol},
    Target s target.bare →
    Takes (gateCall budget start target) c fun us n _ => Operand false (s :: us) n.bare
  | 0, _, _, _, _, _ => by
      rw [gateCall]
      exact takes_endOfInput
  | budget + 1, start, target, c, s, htarget => by
      rw [gateCall]
      refine .peek ?_
      split
      · next hk =>
          refine (takes_bump_of_kind hk rfl).bind ?_
          rintro _ d us rfl
          refine .peek ?_
          dsimp only
          split
          · next hk =>
              refine (takes_bump_of_kind hk rfl).bind ?_
              rintro _ e vs rfl
              refine takes_applied.imp ?_
              rintro _ n rest ⟨rfl, -, hbare⟩
              rw [hbare]
              exact .reset htarget
          · refine (takes_callPairs budget d).bind ?_
            rintro pairs e _ ⟨ts, rfl, hpairs⟩
            refine takes_applied.imp ?_
            rintro _ n rest ⟨rfl, -, hbare⟩
            rw [hbare]
            simpa using Operand.rewrite htarget hpairs
      · exact .pure htarget.operand

theorem takes_callPairs : ∀ (budget : Nat) (c : Cursor),
    Takes (callPairs budget) c fun us nodes _ =>
      ∃ ts, us = ts ++ [mark .par] ∧ Pairs ts (bareAll nodes)
  | 0, _ => by
      rw [callPairs]
      exact takes_endOfInput
  | budget + 1, c => by
      rw [callPairs]
      refine takes_pair (takes_expr budget) ?_
      rintro name value f us vs hname hvalue
      refine .peek ?_
      split
      · next hk =>
          refine (takes_bump_of_kind hk rfl).bind ?_
          rintro _ g _ rfl
          exact .pure ⟨us ++ ace :: vs, by simp, .one hname hvalue⟩
      · refine (takes_expect rfl f).bind ?_
        rintro _ g _ rfl
        refine (takes_expect rfl g).bind ?_
        rintro _ h _ rfl
        refine (takes_callPairs budget h).bind ?_
        rintro pairs i _ ⟨ts, rfl, hpairs⟩
        exact .pure ⟨_, by simp, .more hname hvalue hpairs⟩

theorem takes_cons : ∀ (budget : Nat) (c : Cursor),
    Takes (cons budget) c fun us n _ => Cells us n.bare
  | 0, _ => by
      rw [cons]
      exact takes_endOfInput
  | budget + 1, c => by
      rw [cons]
      refine .peek ((takes_expr budget c).bind ?_)
      rintro head d us ⟨hhead, -⟩
      refine .peek ?_
      split
      · exact .pure (by simpa using Cells.one hhead)
      · refine (takes_expect rfl d).bind ?_
        rintro _ e _ rfl
        refine (takes_cons budget e).bind ?_
        rintro tail f vs htail
        refine takes_spanFrom.bind ?_
        rintro span g _ ⟨rfl, -⟩
        exact .pure (by simpa using Cells.more hhead htail)

theorem takes_wideList : ∀ (budget : Nat) (c : Cursor),
    Takes (wideList budget) c fun us nodes _ =>
      ∃ ts, us = ts ++ [mark .par] ∧ Spaced ts (bareAll nodes)
  | 0, _ => by
      rw [wideList]
      exact takes_endOfInput
  | budget + 1, c => by
      rw [wideList]
      refine (takes_expr budget c).bind ?_
      rintro node d us ⟨hnode, -⟩
      refine .peek ?_
      split
      · next hk =>
          refine (takes_bump_of_kind hk rfl).bind ?_
          rintro _ e _ rfl
          exact .pure ⟨us, by simp, .one hnode⟩
      · refine (takes_expect rfl d).bind ?_
        rintro _ e _ rfl
        refine (takes_wideList budget e).bind ?_
        rintro nodes f _ ⟨ts, rfl, hnodes⟩
        exact .pure ⟨us ++ ace :: ts, by simp, .more hnode hnodes⟩

theorem takes_application : ∀ (budget : Nat) (token : Token) (c : Cursor),
    Takes (application budget token) c fun us n rest =>
      ∃ loose, Operand loose (.rune (Rune.ofText token.text) :: us) n.bare ∧
        (loose = true → ¬ Linked rest)
  | 0, _, _ => by
      rw [application]
      exact takes_endOfInput
  | budget + 1, token, c => by
      rw [application]
      simp only
      split
      · exact .fail
      · next s hs =>
          refine .peek ?_
          split
          · refine (takes_wide budget _ s _ c).bind ?_
            rintro nodes d _ ⟨ts, rfl, hwide, haccepts⟩
            refine takes_applied.imp ?_
            rintro _ n rest ⟨rfl, -, hbare⟩
            refine ⟨false, ?_, by simp⟩
            rw [hbare]
            simpa using Operand.wide hs hwide (by simpa using haccepts)
          · refine (takes_tall budget _ s _ c).bind ?_
            rintro nodes d us ⟨htall, hloose⟩
            refine takes_applied.imp ?_
            rintro _ n rest ⟨rfl, hrest, hbare⟩
            refine ⟨s.isLoose, ?_, hrest ▸ hloose⟩
            rw [hbare]
            simpa using Operand.tall hs htall

theorem takes_wide : ∀ (budget : Nat) (rune : Rune) (s : Signature) (span : Span) (c : Cursor),
    Takes (wide budget rune s span) c fun us nodes _ =>
      ∃ ts, us = mark .pal :: ts ++ [mark .par] ∧ Wide s ts (bareAll nodes) ∧
        s.accepts nodes.length = true
  | 0, _, _, _, _ => by
      rw [wide]
      exact takes_endOfInput
  | budget + 1, rune, s, span, c => by
      rw [wide_succ]
      split
      · exact .fail
      · next harms =>
          refine (takes_expect rfl c).bind ?_
          rintro _ d _ rfl
          have hargs : Takes (wideArgs budget s) d fun us nodes _ =>
              ∃ ts, us = ts ++ [mark .par] ∧ Wide s ts (bareAll nodes) := by
            refine .peek ?_
            split
            · next hpairs => exact takes_wideJogging budget s d hpairs
            · next hpairs =>
                have htail : s.tail = .fixed ∨ s.tail = .list := by
                  cases ht : s.tail <;> simp_all
                split
                · next hk =>
                    refine (takes_bump_of_kind hk rfl).bind ?_
                    rintro _ e _ rfl
                    exact .pure ⟨[], rfl, .args htail .none⟩
                · refine (takes_wideList budget d).imp ?_
                  rintro _ nodes rest ⟨ts, rfl, hnodes⟩
                  exact ⟨ts, rfl, .args htail (.some hnodes)⟩
          refine hargs.bind ?_
          rintro nodes e _ ⟨ts, rfl, hwide⟩
          split
          · next haccepts => exact .pure ⟨ts, by simp, hwide, haccepts⟩
          · exact .fail

theorem takes_wideFixed : ∀ (budget count : Nat) (c : Cursor),
    Takes (wideFixed budget count) c fun us nodes _ =>
      Args us (bareAll nodes) ∧ nodes.length = count
  | budget, 0, _ => by
      rw [wideFixed]
      exact .pure ⟨.none, rfl⟩
  | 0, count + 1, _ => by
      rw [wideFixed]
      exact takes_endOfInput
  | budget + 1, 1, c => by
      rw [wideFixed]
      refine (takes_expr budget c).bind ?_
      rintro node d us ⟨hnode, -⟩
      exact .pure ⟨by simpa using Args.some (.one hnode), rfl⟩
  | budget + 1, count + 2, c => by
      rw [wideFixed]
      refine (takes_expr budget c).bind ?_
      rintro node d us ⟨hnode, -⟩
      refine (takes_expect rfl d).bind ?_
      rintro _ e _ rfl
      refine (takes_wideFixed budget (count + 1) e).bind ?_
      rintro nodes f vs ⟨hnodes, hlength⟩
      refine .pure ⟨?_, by simp [hlength]⟩
      have hne : bareAll nodes ≠ [] := by
        rw [← List.length_pos_iff, Node.length_bareAll, hlength]
        exact Nat.succ_pos count
      have hspaced := hnodes.spaced hne
      simpa using Args.some (.more hnode hspaced)

theorem takes_wideJogging : ∀ (budget : Nat) (s : Signature) (c : Cursor), s.tail = .pairs →
    Takes (wideJogging budget s) c fun us nodes _ =>
      ∃ ts, us = ts ++ [mark .par] ∧ Wide s ts (bareAll nodes)
  | 0, _, _, _ => by
      rw [wideJogging]
      exact takes_endOfInput
  | budget + 1, s, c, htail => by
      rw [wideJogging]
      refine (takes_wideFixed budget s.args c).bind ?_
      rintro nodes d us ⟨hargs, hlength⟩
      refine .peek ?_
      split
      · next hk =>
          refine (takes_bump_of_kind hk rfl).bind ?_
          rintro _ e _ rfl
          exact .pure ⟨us, by simp, .fixed htail hargs (by simpa using hlength)⟩
      · have hpairs : ∀ (e : Cursor),
            Takes (do let pairs ← widePairs budget s; pure (nodes ++ pairs)) e fun vs all _ =>
              ∃ ts more, vs = ts ++ [mark .par] ∧ Jogging s ts (bareAll more) ∧
                all = nodes ++ more := by
          intro e
          refine (takes_widePairs budget s e).bind ?_
          rintro more f _ ⟨ts, rfl, hjogging⟩
          exact .pure ⟨ts, more, by simp, hjogging, rfl⟩
        have hall : nodes.length = s.args → (bareAll nodes).length = s.args := by simp
        dsimp only
        split
        · next hpos =>
            refine (takes_expect rfl d).bind ?_
            rintro _ e _ rfl
            refine (hpairs e).imp ?_
            rintro _ _ rest ⟨ts, more, rfl, hjogging, rfl⟩
            have hwide := Wide.jogging htail hargs (hall hlength) hjogging
            rw [if_pos hpos] at hwide
            exact ⟨us ++ [ace] ++ ts, by simp, by simpa using hwide⟩
        · next hpos =>
            refine (hpairs d).imp ?_
            rintro _ _ rest ⟨ts, more, rfl, hjogging, rfl⟩
            have hwide := Wide.jogging htail hargs (hall hlength) hjogging
            rw [if_neg hpos] at hwide
            exact ⟨us ++ [] ++ ts, by simp, by simpa using hwide⟩

theorem takes_widePairs : ∀ (budget : Nat) (s : Signature) (c : Cursor),
    Takes (widePairs budget s) c fun us nodes _ =>
      ∃ ts, us = ts ++ [mark .par] ∧ Jogging s ts (bareAll nodes)
  | 0, _, _ => by
      rw [widePairs]
      exact takes_endOfInput
  | budget + 1, s, c => by
      rw [widePairs]
      refine takes_pair (takes_expr budget) ?_
      rintro name value f us vs hname hvalue
      refine .peek ?_
      split
      · next hk =>
          refine (takes_bump_of_kind hk rfl).bind ?_
          rintro _ g _ rfl
          exact .pure ⟨us ++ ace :: vs, by simp, .pairs (.one hname hvalue)⟩
      · split
        · next hk =>
            refine (takes_bump_of_kind hk rfl).bind ?_
            rintro _ g _ rfl
            refine (takes_expect rfl g).bind ?_
            rintro _ h _ rfl
            refine (takes_widePairs budget s h).bind ?_
            rintro pairs i _ ⟨ts, rfl, hpairs⟩
            exact .pure ⟨_, by simp, .more hname hvalue hpairs⟩
        · split
          · next hk =>
              refine (takes_bump_of_kind hk.1 rfl).bind ?_
              rintro _ g _ rfl
              refine (takes_wideList budget g).bind ?_
              rintro nodes h _ ⟨ts, rfl, hnodes⟩
              exact .pure ⟨_, by simp, .post hk.2 (.one hname hvalue) hnodes⟩
          · exact .fail

theorem takes_tall : ∀ (budget : Nat) (rune : Rune) (s : Signature) (span : Span) (c : Cursor),
    Takes (tall budget rune s span) c fun us nodes rest =>
      Tall s us (bareAll nodes) ∧ (s.isLoose = true → ¬ Linked rest)
  | 0, _, _, _, _ => by
      rw [tall]
      exact takes_endOfInput
  | budget + 1, rune, s, span, c => by
      rw [tall_succ]
      refine (takes_tallFixed budget s.args c).bind ?_
      rintro fixed d us ⟨hfixed, hargs, hjoin⟩
      have hargs : (bareAll fixed).length = s.args := by rw [Node.length_bareAll, hargs]
      unfold tallItems
      split
      · next hcloser =>
          have htail : s.tail = .fixed := by cases ht : s.tail <;> simp_all [Tail.closer?]
          refine .pure_bind ?_
          rw [if_neg (by simp)]
          refine (takes_tallFixed budget s.post d).bind ?_
          rintro post e vs ⟨hpost, hcount, hjoin'⟩
          have hcount' : (bareAll post).length = s.post := by rw [Node.length_bareAll, hcount]
          refine .pure ⟨by simpa using Tall.fixed htail hfixed hargs hpost hcount', ?_⟩
          intro hloose
          rcases Nat.eq_zero_or_pos s.post with hzero | hpos
          · have hpos : 0 < s.args := by simpa [Signature.isLoose, hzero, htail] using hloose
            exact hjoin' (.inl (hjoin (.inr hpos)))
          · exact hjoin' (.inr hpos)
      · next closer hcloser =>
          have hplain : closer.isPlain = true := by
            cases ht : s.tail <;> simp_all [Tail.closer?] <;> subst hcloser <;> rfl
          refine (takes_tallUntil budget closer rune span d hplain).bind ?_
          rintro items e _ ⟨ts, rfl, hitems⟩
          split
          · exact .fail
          · next hodd =>
              refine (takes_tallFixed budget s.post e).bind ?_
              rintro post f vs ⟨hpost, hcount, hjoin'⟩
              have hcount' : (bareAll post).length = s.post := by rw [Node.length_bareAll, hcount]
              have heven : s.tail = .pairs → (bareAll items).length % 2 = 0 := by
                intro htail
                by_contra hne
                exact hodd ⟨htail, by simpa using hne⟩
              refine .pure ⟨?_, ?_⟩
              · simpa using Tall.closed hcloser hfixed hargs hitems heven hpost hcount'
              · intro hloose
                refine hjoin' (.inr ?_)
                cases htail : s.tail <;> simp_all [Signature.isLoose, Tail.closer?]

theorem takes_tallFixed : ∀ (budget count : Nat) (c : Cursor),
    Takes (tallFixed budget count) c fun us nodes rest =>
      Gapped us (bareAll nodes) ∧ nodes.length = count ∧
        (¬ Linked c.view ∨ 0 < count → ¬ Linked rest)
  | budget, 0, _ => by
      rw [tallFixed]
      exact .pure ⟨.none, rfl, by simp⟩
  | 0, count + 1, _ => by
      rw [tallFixed]
      exact takes_endOfInput
  | budget + 1, count + 1, c => by
      rw [tallFixed]
      refine (takes_expectGap c).bind ?_
      rintro _ d _ rfl
      refine (takes_expr budget d).bind ?_
      rintro node e us ⟨hnode, hjoin⟩
      refine (takes_tallFixed budget count e).bind ?_
      rintro nodes f vs ⟨hnodes, hlength, hjoin'⟩
      exact .pure ⟨by simpa using Gapped.more hnode hnodes, by simp [hlength],
        fun _ => hjoin' (.inl hjoin)⟩

theorem takes_tallUntil : ∀ (budget : Nat) (closer : Kind) (rune : Rune) (span : Span)
    (c : Cursor), closer.isPlain = true →
    Takes (tallUntil budget closer rune span) c fun us nodes _ =>
      ∃ ts, us = ts ++ [gap, .plain closer] ∧ Gapped ts (bareAll nodes)
  | 0, _, _, _, _, _ => by
      rw [tallUntil]
      exact takes_endOfInput
  | budget + 1, closer, rune, span, c, hplain => by
      rw [tallUntil]
      refine .peek ?_
      split
      · exact .fail
      · refine (takes_expectGap c).bind ?_
        rintro _ d _ rfl
        refine .peek ?_
        split
        · next hk =>
            refine (takes_bump_of_kind hk hplain).bind ?_
            rintro _ e _ rfl
            exact .pure ⟨[], rfl, .none⟩
        · split
          · exact .fail
          · refine (takes_expr budget d).bind ?_
            rintro node e us ⟨hnode, -⟩
            refine (takes_tallUntil budget closer rune span e hplain).bind ?_
            rintro nodes f _ ⟨ts, rfl, hnodes⟩
            exact .pure ⟨_, by simp, .more hnode hnodes⟩

end

end Parse

end Runic
